import StrategyTree.Main
import StrategyTree.Proofs.Anchors
import StrategyTree.Proofs.Command
import StrategyTree.Proofs.Document.Strategy
import StrategyTree.Proofs.Equity
import StrategyTree.Proofs.Evaluation.AltExit
import StrategyTree.Proofs.Evaluation.Bounds
import StrategyTree.Proofs.Conservation
import StrategyTree.Proofs.Evaluation.Compaction
import StrategyTree.Proofs.Evaluation.Confinement
import StrategyTree.Proofs.Evaluation.Inlining
import StrategyTree.Proofs.Strategy.Acceptance
import StrategyTree.Proofs.Turnover
import StrategyTree.Proofs.Solvency
import StrategyTree.Proofs.Evaluation.Stack
import StrategyTree.Proofs.Document.Grammar
import StrategyTree.Proofs.Document.Ladder
import StrategyTree.Proofs.Document.Acceptance
import StrategyTree.Proofs.Condition.Tally
import StrategyTree.Proofs.Condition.Pointwise
import StrategyTree.Proofs.Indicator.Windows
import StrategyTree.Proofs.Indicator.Restart
import StrategyTree.Proofs.ExactArith
import StrategyTree.Proofs.Indicator.Sliding
import StrategyTree.Proofs.Indicator.LookBack
import StrategyTree.Proofs.Indicator.Defined
import StrategyTree.Proofs.Indicator.Bounds
import StrategyTree.Proofs.Evaluation.Retracing
import StrategyTree.Proofs.Strategy.Marks
import StrategyTree.Proofs.Strategy.Collection
import StrategyTree.Proofs.Evaluation.Ranking
import StrategyTree.Proofs.Metrics.Drawdown
import StrategyTree.Proofs.Metrics.Scale
import StrategyTree.Proofs.Metrics.Annualized
import StrategyTree.Proofs.Document.Spelling
import StrategyTree.Proofs.Condition.Crossing
import StrategyTree.Proofs.Document.Passages
