import StrategyTree.Series
/-!
# Moving averages

The simple average of the last `n` values is kept as a sliding sum. The
exponential average starts from the simple average of the first `n` values after
a gap and then moves by a fixed share of each new value. The convergence
histogram is built from three exponential averages.
-/
namespace StrategyTree.Indicator

variable {α : Type} [Arith α]

/-- Pairs each value with the one that leaves a window of `n` days as it enters. -/
def withLeaving (n : Nat) (xs : Series α) : List (Option (α × α)) :=
  List.zipWith (fun x old => (Series.usable x).map fun v => (v, old.getD 0)) xs
    (xs.delayed n)

/-- The sum over the current window, and the days since the last gap. -/
structure SlidingSum (α : Type) where
  sum : α
  run : Nat

def simpleMachine (n : Nat) : Machine (SlidingSum α) (α × α) α where
  start := ⟨0, 0⟩
  step s x :=
    let run := s.run + 1
    let grown := s.sum + x.1
    let sum := if n < run then grown - x.2 else grown
    (⟨sum, run⟩, if n ≤ run then some (sum / Arith.ofNat n) else none)

def simpleAverage (xs : Series α) (n : Nat) : Series α :=
  if n = 0 then .undefined xs.length else (simpleMachine n).run (withLeaving n xs)

/-- The current average, the sum of the values that will seed it, and the days since
the last gap. -/
structure Smoothing (α : Type) where
  average : α
  seed : α
  run : Nat

/-- Seeds with the mean of the first `n` values and then applies `advance`. -/
def seededMachine (n : Nat) (advance : α → α → α) : Machine (Smoothing α) α α where
  start := ⟨0, 0, 0⟩
  step s x :=
    let run := s.run + 1
    if run < n then (⟨s.average, s.seed + x, run⟩, none)
    else
      let seed := if run = n then s.seed + x else s.seed
      let average := if run = n then seed / Arith.ofNat n else advance s.average x
      (⟨average, seed, run⟩, some average)

/-- The share of a new value in an exponential average over `n` days. -/
def smoothingFactor (n : Nat) : α :=
  2 / (Arith.ofNat n + 1)

def exponentialAverage (xs : Series α) (n : Nat) : Series α :=
  if n = 0 then .undefined xs.length
  else
    let k : α := smoothingFactor n
    (seededMachine n fun average x => x * k + average * (1 - k)).run (xs.map Series.usable)

/-- Entries of the first series less those of the second, where both are present. -/
def difference (xs ys : Series α) : Series α :=
  List.zipWith (fun x y => x.bind fun a => y.map fun b => a - b) xs ys

/-- The fast average less the slow one, less the average of that line over `signal` days. -/
def convergenceHistogram (xs : Series α) (fast slow signal : Nat) : Series α :=
  if fast = 0 ∨ slow = 0 ∨ signal = 0 then .undefined xs.length
  else
    let line := difference (exponentialAverage xs fast) (exponentialAverage xs slow)
    difference line (exponentialAverage line signal)

end StrategyTree.Indicator
