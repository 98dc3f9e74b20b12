import StrategyTree.Allocation
import StrategyTree.Condition.Signal
import StrategyTree.Table
/-!
# State of an evaluation

What an evaluation keeps from one node to the next and from one day to the next:
series, signals and candidate lists that were computed once, which `altExit`
nodes are held, and the chains that are being called. The state outlives a
failure, so a run may go on with another day.
-/
namespace StrategyTree

/-- Whether an `altExit` node is held, and the last day on which that was decided. -/
structure Hold where
  held : Bool
  lastDay : Option Nat
deriving DecidableEq, Repr

def Hold.start : Hold := ⟨false, none⟩

structure RunState (α : Type) where
  cache : IndicatorCache α
  /-- Signals of condition lists, by the key of the list. -/
  signals : Table Signal
  /-- Candidates of rankings, by the identifier of the node. -/
  candidates : Table (List String)
  /-- Held flags, by the identifier of the node. -/
  holds : Table Hold
  /-- The chains being called, the outermost first. -/
  path : List String

namespace RunState

variable {α : Type}

def start : RunState α := ⟨⟨[]⟩, .empty, .empty, .empty, []⟩

/-- Whether an `altExit` node holds its first branch. -/
def isHeld (s : RunState α) (id : String) : Bool :=
  (s.holds.get? id).any Hold.held

end RunState

/-- A computation that may fail and keeps what it has done to the state all the same. -/
abbrev Run (α : Type) := ExceptT Failure (StateM (RunState α))

namespace Run

variable {α β : Type}

/-- Runs a computation on the indicator cache of the state. -/
def measured (x : Measured α β) : Run α β := fun s =>
  let (r, cache) := x s.cache
  (r, { s with cache })

def ofExcept (x : Except Failure β) : Run α β := fun s => (x, s)

/-- Runs a computation with a chain at the end of the path, and takes it off again whatever
the outcome. -/
def inside (chain : String) (x : Run α β) : Run α β := fun s =>
  let (r, s) := x { s with path := s.path ++ [chain] }
  (r, { s with path := s.path.dropLast })

end Run
end StrategyTree
