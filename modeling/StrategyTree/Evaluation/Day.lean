import StrategyTree.Evaluation.Sources
import StrategyTree.Weighting
/-!
# Evaluation of a day

A node is evaluated on one day, under a scope that restricts the tickers it may
hold, and yields an allocation or nothing. A node that yields nothing is pruned:
the node above treats it as absent. A call is evaluated as the chain that it
names; a chain that is being called already is refused.
-/
namespace StrategyTree

variable {α : Type} [Arith α]

/-- The tickers that may be held; all of them without a restriction. -/
abbrev Scope := Option (List String)

def Scope.allows (scope : Scope) (ticker : String) : Bool :=
  match scope with
  | none => true
  | some tickers => tickers.contains ticker

/-- Before any other ticker in a ranking: a smaller value, or the same value and a smaller
name. -/
def rankedBefore (a b : α × String) : Bool :=
  match Arith.order a.1 b.1 with
  | .lt => true
  | .gt => false
  | .eq => decide (a.2 ≤ b.2)

/-- The best `count` tickers of a ranking in ascending order. -/
def Selection.select (s : Selection) (count : Nat) (values : List (α × String)) : List String :=
  let ranking := values.mergeSort rankedBefore
  let best := match s with
    | .top => ranking.reverse.take count
    | .bottom => ranking.take count
  best.map Prod.snd

/-- One or zero. -/
def shareOf (b : Bool) : α :=
  if b then 1 else 0

/-- The share of the first branch of a scaling: one at the lower bound and beyond, zero at
the upper bound and beyond. -/
def scaledShare (lower upper value : α) : α :=
  1 - Arith.clampUnit ((value - lower) / (upper - lower))

/-- The key of one of several condition lists of a node. -/
def partKey (id part : String) : String :=
  id ++ "#" ++ part

namespace Sources

variable (src : Sources α)

/-- The values of an indicator for those tickers that are in scope and have one. -/
def valuesOf (i : Indicator) (scope : Scope) : List String → Run α (List (α × String))
  | [] => return []
  | ticker :: rest =>
      if scope.allows ticker then do
        let value ← src.value ticker i
        let values ← valuesOf i scope rest
        return value.elim values fun x => (x, ticker) :: values
      else valuesOf i scope rest

/-- The values of an indicator for tickers, up to the first without a positive one. -/
def readPositive (i : Indicator) : List String → Run α (List (String × Option α))
  | [] => return []
  | ticker :: rest => do
      let value ← src.value ticker i
      if value.any (0 < ·) then
        let values ← readPositive i rest
        return (ticker, value) :: values
      else return [(ticker, value)]

/-- The deviations that a weighting asks for. They are read only where something is invested. -/
def deviations (w : Weighting α) (children : List (Nat × Allocation α)) :
    Run α (List (String × Option α)) := do
  match ← Run.ofExcept w.volatilityIndicator with
  | none => return []
  | some i =>
      match w.spread children with
      | none => return []
      | some a => if a.total ≤ 0 then return [] else src.readPositive i a.keys

/-- Combines what the nodes of a slot yield. -/
def settle (w : Weighting α) (children : List (Nat × Allocation α)) :
    Run α (Option (Allocation α)) := do
  let values ← src.deviations w children
  return w.combine children fun t => (values.lookup t).join

/-- How many of the items of a numbered node are true, counting them from `k` on. -/
def countHits (id : String) : Nat → List (List (Condition α)) → Run α Nat
  | _, [] => return 0
  | k, conditions :: rest => do
      let verdict ← src.verdict (partKey id (toString k)) conditions
      let hits ← countHits id (k + 1) rest
      return if verdict = some true then hits + 1 else hits

/-- Whether an `altExit` node is held on a day. It is decided once a day: a node that was not
held asks its entry conditions, one that was held its exit conditions. -/
def decideHold (day : Nat) (id : String) (entry exit : List (Condition α)) : Run α Bool := do
  let hold := ((← get).holds.get? id).getD .start
  if hold.lastDay = some day then return hold.held
  let held ←
    if hold.held then (· != some true) <$> src.verdict (partKey id "exit") exit
    else (· == some true) <$> src.verdict (partKey id "entry") entry
  modify fun s => { s with holds := s.holds.insert id ⟨held, some day⟩ }
  return held

end Sources

namespace Node

section
variable (src : Sources α) (chains : Table (Node α))
  (enter : Node α → Scope → Run α (Option (Allocation α))) (day : Nat)

mutual

/-- Evaluates a node. The root of a called chain goes on by `enter`. -/
def evaluate : Node α → Scope → Run α (Option (Allocation α))
  | basic _ weighting next, scope => do src.settle weighting (← evaluateSlot 0 next scope)
  | n@(function _ metric window count select weighting next), scope => do
      let i ← Run.ofExcept (Indicator.resolve metric window)
      let candidates ← src.candidates n
      let selected := select.select count (← src.valuesOf i scope candidates)
      if selected.isEmpty then return none
      src.settle weighting (← evaluateSlot 0 next (some selected))
  | indicator id conditions fork, scope => do
      let verdict ← src.verdict id conditions
      evaluateFork (shareOf (verdict == some true)) fork scope
  | numbered id items quantifier fork ladder, scope => do
      let hits ← src.countHits id 0 items
      if quantifier = .ladder then evaluateRung fork.thenWeighting hits ladder scope
      else evaluateFork (shareOf (quantifier.passes hits items.length)) fork scope
  | position _ tickers, scope => return Allocation.ofPosition cashTicker scope.allows tickers
  | call id chain, scope => do
      match chains.get? chain with
      | none => throw (.danglingCall id chain)
      | some root =>
          let path := (← get).path
          if chain ∈ path then throw (.callCycle chain path)
          Run.inside chain (enter root scope)
  | altExit id entry exit fork, scope => do
      let held ← src.decideHold day id entry exit
      evaluateFork (shareOf held) fork scope
  | scaling id reading lower upper fork, scope => do
      if lower == upper then throw (.treeInvalid id "scaleFrom and scaleTo must differ")
      let i ← Run.ofExcept reading.indicator
      let value ← src.value reading.ticker i
      evaluateFork (value.elim 0 (scaledShare lower upper)) fork scope

/-- Evaluates the nodes of a slot and keeps those that are not pruned, each with its place
from `place` on. -/
def evaluateSlot : Nat → List (Option (Node α)) → Scope → Run α (List (Nat × Allocation α))
  | _, [], _ => return []
  | place, none :: rest, scope => evaluateSlot (place + 1) rest scope
  | place, some n :: rest, scope => do
      let allocation ← n.evaluate scope
      let others ← evaluateSlot (place + 1) rest scope
      return allocation.elim others fun a => (place, a) :: others

/-- Gives `share` to the first branch and the rest to the second. A branch without a share is
not evaluated. -/
def evaluateFork (share : α) : Fork α (Node α) → Scope → Run α (Option (Allocation α))
  | ⟨thenWeighting, elseWeighting, thenSlot, elseSlot⟩, scope => do
      let first ← if 0 < share then do
          let a ← src.settle thenWeighting (← evaluateSlot 0 thenSlot scope)
          pure [(share, a)]
        else pure []
      let second ← if share < 1 then do
          let a ← src.settle elseWeighting (← evaluateSlot 0 elseSlot scope)
          pure [(1 - share, a)]
        else pure []
      return Allocation.blend (first ++ second)

/-- Evaluates one slot of a ladder. Past the end of the ladder there is nothing. -/
def evaluateRung (weighting : Weighting α) :
    Nat → List (List (Option (Node α))) → Scope → Run α (Option (Allocation α))
  | _, [], _ => return none
  | 0, slot :: _, scope => do src.settle weighting (← evaluateSlot 0 slot scope)
  | k + 1, _ :: rest, scope => evaluateRung weighting k rest scope

end

end

/-- Evaluates a node with at most `depth` trees inside each other. -/
def evaluateWithin (src : Sources α) (chains : Table (Node α)) (day : Nat) :
    Nat → Node α → Scope → Run α (Option (Allocation α))
  | 0 => fun _ _ => return none
  | depth + 1 => evaluate src chains (evaluateWithin src chains day depth) day

end Node

namespace Strategy

/-- Evaluates the root with the given sources. The chains on the path differ, so calls are
nested at most as deep as there are chains. -/
def evaluateDayWith (s : Strategy α) (src : Sources α) (day : Nat) : Run α (Allocation α) := do
  modify fun state => { state with path := [] }
  let result ← s.root.evaluateWithin src s.chains day (s.chains.entries.length + 1) none
  return result.getD .empty

def evaluateDay (s : Strategy α) (m : PriceMatrix α) (day : Nat) : Run α (Allocation α) :=
  s.evaluateDayWith (.remembering m s.chains day) day

/-- Evaluates days one after the other; the first failure ends the run. -/
def evaluateDays (s : Strategy α) (m : PriceMatrix α) : List Nat → Run α (List (Allocation α))
  | [] => return []
  | day :: rest => do
      let allocation ← s.evaluateDay m day
      let others ← evaluateDays s m rest
      return allocation :: others

end Strategy
end StrategyTree
