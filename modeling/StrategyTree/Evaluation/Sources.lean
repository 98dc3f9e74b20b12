import StrategyTree.Evaluation.State
import StrategyTree.Strategy.Tickers
/-!
# Sources of an evaluation

What a node asks while it is evaluated: the verdict of a condition list, the
value of an indicator, and the candidates of a ranking. The sources of a run
remember every answer; direct sources compute each answer anew.
-/
namespace StrategyTree

/-- Answers to the questions of the nodes, for one day. -/
structure Sources (α : Type) where
  /-- The verdict of a list of conditions that is kept under a key. -/
  verdict : String → List (Condition α) → Run α Verdict
  value : String → Indicator → Run α (Option α)
  /-- The tickers that a node may select from. -/
  candidates : Node α → Run α (List String)

namespace Sources

variable {α : Type} [Arith α] (m : PriceMatrix α) (chains : Table (Node α)) (day : Nat)

/-- The verdict of a day, which is undefined past the end of the signal. -/
def onDay (s : Signal) : Verdict :=
  s[day]?.join

/-- The signal of a key, computed from the list on the first request. -/
def rememberedSignal (key : String) (conditions : List (Condition α)) : Run α Signal := do
  match (← get).signals.get? key with
  | some signal => return signal
  | none =>
      let signal ← Run.measured (Condition.listSignal m conditions)
      modify fun s => { s with signals := s.signals.insert key signal }
      return signal

/-- The candidates of a node, collected on the first request. -/
def rememberedCandidates (n : Node α) : Run α (List String) := do
  match (← get).candidates.get? n.id with
  | some tickers => return tickers
  | none =>
      let tickers := (n.positionTickers chains).keys
      modify fun s => { s with candidates := s.candidates.insert n.id tickers }
      return tickers

/-- Sources that keep every signal, series and candidate list for the rest of the run. -/
def remembering : Sources α where
  verdict key conditions := do
    return onDay day (← rememberedSignal m key conditions)
  value ticker i := Run.measured (ExceptT.lift fun c => c.value m ticker i day)
  candidates := rememberedCandidates chains

/-- Sources that compute every answer from what is asked. -/
def direct : Sources α where
  verdict _ conditions := fun s =>
    ((Condition.listSignal m conditions .empty).1.map (onDay day), s)
  value ticker i := return (m.indicator ticker i).at? day
  candidates n := return (n.positionTickers chains).keys

end Sources
end StrategyTree
