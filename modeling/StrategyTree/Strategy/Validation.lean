import StrategyTree.Strategy.CallGraph
import StrategyTree.Strategy.Tickers
/-!
# Validation of strategies

A strategy is checked as a whole before any day is evaluated: the root and then
each chain in order, every node before the nodes below it, and last the calls
between chains. The first fault found is told.
-/
namespace StrategyTree

variable {α : Type} [Arith α]

/-- Refuses unless a condition holds. -/
def ensure (p : Prop) [Decidable p] (e : Failure) : Except Failure Unit :=
  if p then .ok () else .error e

namespace Weighting

def check (id : String) : Weighting α → Except Failure Unit
  | .equal => .ok ()
  | .inverseVolatility window | .volatility window => do
      let _ ← Indicator.resolve .stdDevReturn window
  | .specified weights =>
      ensure (weights.all fun w => Arith.isFinite w && !decide (w < 0))
        (.treeInvalid id "specified weights must be non-negative")
  | .capped cap fallback => do
      ensure (Arith.isFinite cap && !decide (cap ≤ 0) && !decide (1 < cap))
        (.treeInvalid id "cap must be in (0, 1]")
      ensure (!fallback.any Text.isBlankText) (.treeInvalid id "capped fallback is blank")

end Weighting

namespace Condition

def checkReference (id : String) : Reference α → Except Failure Unit
  | .threshold x => ensure (Arith.isFinite x) (.treeInvalid id "condition threshold must be finite")
  | .reading r => do
      let _ ← r.indicator

def check (id : String) (c : Condition α) : Except Failure Unit := do
  let _ ← c.left.indicator
  checkReference id c.right
  ensure (c.sustainedDays ≠ some 0) (.treeInvalid id "sustainedDays must be at least 1")

/-- Checks a list of conditions, which starts with `if` unless it is empty. -/
def checkList (id : String) (cs : List (Condition α)) : Except Failure Unit := do
  ensure (cs.head?.all fun c => c.connective == .first)
    (.treeInvalid id "first condition must be of type 'if'")
  cs.forM (check id)

end Condition

/-- The number of items that a quantifier asks for, if it names one. -/
def Quantifier.bound? : Quantifier → Option Nat
  | .atLeast n | .atMost n | .exactly n => some n
  | _ => Option.none

def Fork.check (id : String) {ν : Type} (fork : Fork α ν) : Except Failure Unit := do
  fork.thenWeighting.check id
  fork.elseWeighting.check id

namespace Node

/-- Checks that a ladder has one slot for each number of true items, and that nothing else
has ladder slots. -/
def checkLadder (id : String) (items : Nat) (quantifier : Quantifier) (fork : Fork α (Node α))
    (slots : Nat) : Except Failure Unit := do
  if quantifier = .ladder then
    ensure (slots = items + 1) (.treeInvalid id
      s!"ladder needs {items + 1} slots for {items} items, found {slots}")
    ensure ((fork.thenSlot ++ fork.elseSlot).all Option.isNone)
      (.treeInvalid id "ladder node routes through ladder slots only")
  else
    ensure (slots = 0) (.treeInvalid id "ladder slots need the ladder quantifier")

def check (chains : Table (Node α)) : Node α → Except Failure Unit
  | basic id weighting _ => weighting.check id
  | function id metric window count _ weighting _ => do
      let _ ← Indicator.resolve metric window
      ensure (count ≠ 0) (.treeInvalid id "function count must be at least 1")
      weighting.check id
  | indicator id conditions fork => do
      Condition.checkList id conditions
      fork.check id
  | numbered id items quantifier fork ladder => do
      ensure (items ≠ []) (.treeInvalid id "numbered node needs at least one item")
      items.forM (Condition.checkList id)
      if let some n := quantifier.bound? then
        ensure (n ≤ items.length) (.treeInvalid id
          s!"quantifier needs {n} of {items.length} items")
      checkLadder id items.length quantifier fork ladder.length
      fork.check id
  | position id tickers => do
      ensure (tickers ≠ []) (.treeInvalid id "position lists no tickers")
      ensure (!tickers.any Text.isBlankText) (.treeInvalid id "position has a blank ticker")
  | call id chain => ensure (chains.contains chain) (.danglingCall id chain)
  | altExit id entry exit fork => do
      Condition.checkList id entry
      Condition.checkList id exit
      fork.check id
  | scaling id reading lower upper fork => do
      let _ ← reading.indicator
      ensure (Arith.isFinite lower && Arith.isFinite upper)
        (.treeInvalid id "scale bounds must be finite")
      ensure (!(lower == upper)) (.treeInvalid id "scaleFrom and scaleTo must differ")
      fork.check id

/-- Checks nodes in order. An identifier may not have been seen before. -/
def checkAll (chains : Table (Node α)) : List String → List (Node α) → Except Failure Unit
  | _, [] => .ok ()
  | seen, n :: rest => do
      ensure (n.id ∉ seen) (.treeInvalid n.id "duplicate node id")
      n.check chains
      checkAll chains (n.id :: seen) rest

end Node

def Strategy.validate (s : Strategy α) : Except Failure Tickers := do
  Node.checkAll s.chains [] (s.trees.flatMap Node.walk)
  CallGraph.check s.chains
  return s.anchorTickers

end StrategyTree
