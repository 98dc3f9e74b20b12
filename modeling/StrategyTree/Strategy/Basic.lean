import StrategyTree.Condition.Basic
import StrategyTree.Table
/-!
# Strategies

A strategy is a tree of nodes and a table of further trees, the chains, that call
nodes name. A node decides how money is spread over the nodes in its slots. A
slot is a list of optional nodes; an absent node is a placeholder.
-/
namespace StrategyTree

/-- The position ticker that stands for holding cash. -/
def cashTicker : String := "Empty"

/-- How the nodes of one slot share the money. -/
inductive Weighting (α : Type) where
  | equal
  /-- Each ticker in proportion to the inverse deviation of its returns. -/
  | inverseVolatility (window : Int)
  /-- Each ticker in proportion to the deviation of its returns. -/
  | volatility (window : Int)
  | specified (weights : List α)
  /-- Equal shares, where no ticker but the fallback gets more than the cap. What lies
  above it goes to the fallback, or stays in cash. -/
  | capped (cap : α) (fallback : Option String)
deriving DecidableEq, Repr

/-- The ticker that a weighting may buy by itself. -/
def Weighting.fallback? {α : Type} : Weighting α → Option String
  | .capped _ (some ticker) => if ticker = cashTicker then none else some ticker
  | _ => none

/-- Which end of a ranking is selected. -/
inductive Selection where
  | top
  | bottom
deriving DecidableEq, Repr

/-- How many items of a numbered node must be true. The ladder takes one slot for each
possible number. -/
inductive Quantifier where
  | all
  | any
  | none
  | atLeast (n : Nat)
  | atMost (n : Nat)
  | exactly (n : Nat)
  | ladder
deriving DecidableEq, Repr

/-- Whether `hits` true items of `total` take the first branch. -/
def Quantifier.passes (q : Quantifier) (hits total : Nat) : Bool :=
  match q with
  | .all => 0 < total && hits == total
  | .any | .ladder => 0 < hits
  | .none => hits == 0
  | .atLeast n => n ≤ hits
  | .atMost n => hits ≤ n
  | .exactly n => hits == n

/-- The two branches of a node that decides, each a slot with its weighting. -/
structure Fork (α ν : Type) where
  thenWeighting : Weighting α
  elseWeighting : Weighting α
  thenSlot : List (Option ν)
  elseSlot : List (Option ν)
deriving DecidableEq

inductive Node (α : Type) where
  /-- Spreads the money over its slot. -/
  | basic (id : String) (weighting : Weighting α) (next : List (Option (Node α)))
  /-- Ranks the tickers below it by a metric and restricts its slot to the best. -/
  | function (id : String) (metric : Metric) (window : Int) (count : Nat) (select : Selection)
      (weighting : Weighting α) (next : List (Option (Node α)))
  /-- Takes the first branch where its conditions hold. -/
  | indicator (id : String) (conditions : List (Condition α)) (fork : Fork α (Node α))
  /-- Counts the items that hold and lets a quantifier decide. -/
  | numbered (id : String) (items : List (List (Condition α))) (quantifier : Quantifier)
      (fork : Fork α (Node α)) (ladder : List (List (Option (Node α))))
  /-- Holds its tickers in equal shares. -/
  | position (id : String) (tickers : List String)
  /-- Stands for the chain that it names. -/
  | call (id : String) (chain : String)
  /-- Takes the first branch from when the entry conditions hold until the exit
  conditions hold. -/
  | altExit (id : String) (entry exit : List (Condition α)) (fork : Fork α (Node α))
  /-- Moves gradually from the first branch to the second as a reading goes from one
  bound to the other. -/
  | scaling (id : String) (reading : Reading) (lower upper : α) (fork : Fork α (Node α))

abbrev Slot (α : Type) := List (Option (Node α))

def Slot.placeholder {α : Type} : Slot α := [none]

inductive Kind where
  | basic
  | function
  | indicator
  | numbered
  | position
  | call
  | altExit
  | scaling
deriving DecidableEq, Repr

namespace Kind

def all : List Kind :=
  [basic, function, indicator, numbered, position, call, altExit, scaling]

def name : Kind → String
  | basic => "basic"
  | function => "function"
  | indicator => "indicator"
  | numbered => "numbered"
  | position => "position"
  | call => "call"
  | altExit => "altExit"
  | scaling => "scaling"

def ofName? (s : String) : Option Kind :=
  all.find? (·.name = s)

@[simp] theorem ofName?_name (k : Kind) : ofName? k.name = some k := by
  cases k <;> decide

end Kind

namespace Node

variable {α : Type}

def id : Node α → String
  | basic id .. | function id .. | indicator id .. | numbered id .. | position id _
  | call id _ | altExit id .. | scaling id .. => id

def kind : Node α → Kind
  | basic .. => .basic
  | function .. => .function
  | indicator .. => .indicator
  | numbered .. => .numbered
  | position .. => .position
  | call .. => .call
  | altExit .. => .altExit
  | scaling .. => .scaling

/-- The slots of a node: the first branch, the second, and then the ladder. -/
def slots : Node α → List (Slot α)
  | basic _ _ next | function _ _ _ _ _ _ next => [next]
  | indicator _ _ fork | altExit _ _ _ fork | scaling _ _ _ _ fork =>
      [fork.thenSlot, fork.elseSlot]
  | numbered _ _ _ fork ladder => fork.thenSlot :: fork.elseSlot :: ladder
  | position .. | call .. => []

/-- The weightings of the slots of a node. Ladder slots have that of the first branch. -/
def weightings : Node α → List (Weighting α)
  | basic _ weighting _ | function _ _ _ _ _ weighting _ => [weighting]
  | indicator _ _ fork | altExit _ _ _ fork | scaling _ _ _ _ fork
  | numbered _ _ _ fork _ => [fork.thenWeighting, fork.elseWeighting]
  | position .. | call .. => []

def children (n : Node α) : List (Node α) :=
  n.slots.flatMap fun slot => slot.filterMap fun entry => entry

mutual

/-- A node and all nodes below it, each before the ones below it. Calls are not followed. -/
def walk : Node α → List (Node α)
  | n@(basic _ _ next) => n :: walkSlot next
  | n@(function _ _ _ _ _ _ next) => n :: walkSlot next
  | n@(indicator _ _ fork) => n :: walkFork fork
  | n@(numbered _ _ _ fork ladder) => n :: (walkFork fork ++ walkLadder ladder)
  | n@(position ..) => [n]
  | n@(call ..) => [n]
  | n@(altExit _ _ _ fork) => n :: walkFork fork
  | n@(scaling _ _ _ _ fork) => n :: walkFork fork

def walkSlot : List (Option (Node α)) → List (Node α)
  | [] => []
  | none :: rest => walkSlot rest
  | some n :: rest => n.walk ++ walkSlot rest

def walkFork : Fork α (Node α) → List (Node α)
  | ⟨_, _, thenSlot, elseSlot⟩ => walkSlot thenSlot ++ walkSlot elseSlot

def walkLadder : List (List (Option (Node α))) → List (Node α)
  | [] => []
  | slot :: rest => walkSlot slot ++ walkLadder rest

end

end Node

/-- A named tree with the chains that it may call. -/
structure Strategy (α : Type) where
  name : String
  description : Option String := none
  root : Node α
  chains : Table (Node α) := .empty

/-- The root and the chains, in the order in which they are inspected. -/
def Strategy.trees {α : Type} (s : Strategy α) : List (Node α) :=
  s.root :: s.chains.values

end StrategyTree
