import StrategyTree.Failure
import StrategyTree.Strategy.Basic
/-!
# Call graph

An edge goes from a chain to every chain that a call in its tree names. A strategy
may not have a chain that reaches itself along edges. The check searches depth
first and remembers the chains from which no cycle starts.
-/
namespace StrategyTree

variable {α : Type}

def Node.callee? : Node α → Option String
  | .call _ chain => some chain
  | _ => none

def Node.calls (n : Node α) : List String :=
  n.walk.filterMap Node.callee?

namespace CallGraph

/-- The edges from a chain. A chain that is not in the table has none. -/
def edges (chains : Table (Node α)) (id : String) : List String :=
  ((chains.get? id).map Node.calls).getD []

/-- Searches from a chain below the chains of `path`, at most `depth` deep, and answers the
chains found free of cycles. -/
def visit (edges : String → List String) :
    Nat → List String → List String → String → Except Failure (List String)
  | 0, _, done, _ => .ok done
  | depth + 1, path, done, id =>
      if id ∈ done then .ok done
      else if id ∈ path then .error (.callCycle id path)
      else do
        let done ← (edges id).foldlM (visit edges depth (path ++ [id])) done
        return id :: done

/-- Refuses a table of chains with a cycle. The chains on a path differ and all but the last
are in the table, which bounds the depth. -/
def check (chains : Table (Node α)) : Except Failure Unit := do
  let _ ← chains.keys.foldlM (visit (edges chains) (chains.keys.length + 2) []) []

end CallGraph
end StrategyTree
