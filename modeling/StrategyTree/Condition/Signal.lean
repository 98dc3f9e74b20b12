import StrategyTree.Condition.Basic
import StrategyTree.Indicator.Cache
/-!
# Signals of conditions

A condition has a verdict on every day: true, false, or undefined where an input
is. A crossing holds on a day on which its relation holds after a day on which it
did not. A sustained condition holds where its comparison held on each of the
last days. A list is folded from the left in three-valued logic, without
precedence.
-/
namespace StrategyTree

/-- True, false, or undefined. -/
abbrev Verdict := Option Bool

namespace Verdict

/-- False if either side is, true if both are. -/
def and : Verdict → Verdict → Verdict
  | some false, _ | _, some false => some false
  | some true, some true => some true
  | _, _ => none

/-- True if either side is, false if both are. -/
def or : Verdict → Verdict → Verdict
  | some true, _ | _, some true => some true
  | some false, some false => some false
  | _, _ => none

def join (c : Connective) (before next : Verdict) : Verdict :=
  match c with
  | .first => next
  | .and => before.and next
  | .or => before.or next

end Verdict

abbrev Signal := List Verdict

namespace Signal

/-- Where a relation begins to hold. The first day has no day before it. -/
def crossings (length : Nat) (relation : Signal) : Signal :=
  (List.range length).map fun day =>
    if day = 0 then none
    else do
      let today ← relation[day]?.join
      let yesterday ← relation[day - 1]?.join
      some (today && !yesterday)

/-- How many verdicts of a window are false and how many undefined, and the days seen. -/
structure Tally where
  falses : Nat
  undefined : Nat
  seen : Nat

namespace Tally

def enter (t : Tally) : Verdict → Tally
  | some false => { t with falses := t.falses + 1 }
  | none => { t with undefined := t.undefined + 1 }
  | some true => t

def leave (t : Tally) : Option Verdict → Tally
  | some (some false) => { t with falses := t.falses - 1 }
  | some none => { t with undefined := t.undefined - 1 }
  | _ => t

/-- The verdict on a window of `days`, undefined until there are as many. -/
def verdict (days : Nat) (t : Tally) : Verdict :=
  if t.seen < days ∨ 0 < t.undefined then none else some (t.falses == 0)

end Tally

/-- Slides a tally over pairs of the verdict that enters the window and the one that
leaves it. -/
def slide (days : Nat) : Tally → List (Verdict × Option Verdict) → Signal
  | _, [] => []
  | t, (v, old) :: rest =>
      let t := (t.enter v).leave old
      let t := { t with seen := t.seen + 1 }
      t.verdict days :: slide days t rest

/-- Whether a signal was true on each of the last `days` days. -/
def sustain (days : Nat) (base : Signal) : Signal :=
  slide days ⟨0, 0, 0⟩ (base.zip (Series.delayed days (base.map some)))

/-- Joins a signal to the one before it, day by day. Days without a verdict of their own
stay as they were. -/
def join (c : Connective) : Signal → Signal → Signal
  | a :: as, s :: rest => Verdict.join c a s :: join c as rest
  | as, [] => as
  | [], _ => []

end Signal

variable {α : Type} [Arith α]

def Reading.series (m : PriceMatrix α) (r : Reading) : Measured α (Series α) := do
  let i ← r.indicator
  ExceptT.lift fun c => c.series m r.ticker i

namespace Condition

/-- The relation between the two sides on each day, before crossing and sustaining. -/
def relation (c : Comparator) (left right : Series α) : Signal :=
  List.zipWith (fun l r => l.bind fun l => r.map fun r => c.holds l r) left right

def signalOf (c : Condition α) (length : Nat) (left right : Series α) : Signal :=
  let relation := relation c.comparator left right
  let base := if c.comparator.isCrossing then Signal.crossings length relation else relation
  match c.sustainedDays with
  | some days => if 1 < days then Signal.sustain days base else base
  | none => base

def signal (m : PriceMatrix α) (c : Condition α) : Measured α Signal := do
  let left ← c.left.series m
  let right ← match c.right with
    | .threshold x => pure (List.replicate m.length (some x))
    | .reading r => r.series m
  return c.signalOf m.length left right

def joinSignals (m : PriceMatrix α) : Signal → List (Condition α) → Measured α Signal
  | before, [] => return before
  | before, c :: rest => do
      let s ← c.signal m
      joinSignals m (Signal.join c.connective before s) rest

/-- The signal of a list of conditions. The first seeds whatever its tag, and no
conditions hold on every day. -/
def listSignal (m : PriceMatrix α) : List (Condition α) → Measured α Signal
  | [] => return List.replicate m.length (some true)
  | c :: rest => do
      let s ← c.signal m
      joinSignals m (Signal.join .first (List.replicate m.length none) s) rest

end Condition
end StrategyTree
