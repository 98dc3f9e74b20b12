import StrategyTree.Indicator.Average
/-!
# Spread about the mean

The population standard deviation of the last `n` values, from sliding sums of
the values and their squares, and what is derived from it: the deviation in
percent of the mean, and the position of the price between its Bollinger bands.
-/
namespace StrategyTree.Indicator

variable {α : Type} [Arith α]

/-- The sums of values and of squares over the current window, and the days since the
last gap. -/
structure SlidingSquares (α : Type) where
  sum : α
  squares : α
  run : Nat

/-- A mean and a population standard deviation. -/
structure Moments (α : Type) where
  mean : α
  deviation : α

/-- The moments of `n` values from their sum and the sum of their squares. A variance
this small beside the squared mean is rounding noise and reads as none. -/
def momentsOf (n : Nat) (sum squares : α) : Moments α :=
  let mean := sum / Arith.ofNat n
  let variance := Arith.larger (squares / Arith.ofNat n - mean * mean) 0
  ⟨mean, Arith.sqrt (if variance ≤ 1e-12 * mean * mean then 0 else variance)⟩

def momentsMachine (n : Nat) : Machine (SlidingSquares α) (α × α) (Moments α) where
  start := ⟨0, 0, 0⟩
  step s x :=
    let run := s.run + 1
    let sum := s.sum + x.1
    let squares := s.squares + x.1 * x.1
    let sum := if n < run then sum - x.2 else sum
    let squares := if n < run then squares - x.2 * x.2 else squares
    (⟨sum, squares, run⟩, if n ≤ run then some (momentsOf n sum squares) else none)

/-- Mean and deviation of the last `n` values. -/
def rollingMoments (xs : Series α) (n : Nat) : List (Option (Moments α)) :=
  if n = 0 then List.replicate xs.length none else (momentsMachine n).run (withLeaving n xs)

def deviation (xs : Series α) (n : Nat) : Series α :=
  (rollingMoments xs n).map fun m => m.map Moments.deviation

/-- The deviation of the last `n` values in percent of their mean. -/
def percentDeviation (xs : Series α) (n : Nat) : Series α :=
  (rollingMoments xs n).map fun m => m.bind fun m =>
    if m.mean == 0 then none else some (m.deviation / Arith.abs m.mean * 100)

/-- The position of the price between the bands that lie `width` hundredths of a
deviation from the mean: 0 on the lower and 1 on the upper one. -/
def bandPosition (xs : Series α) (n width : Nat) : Series α :=
  let factor : α := Arith.ofNat width / 100
  List.zipWith (fun m x => m.bind fun m => (Series.usable x).bind fun price =>
    let upper := m.mean + factor * m.deviation
    let lower := m.mean - factor * m.deviation
    let gap := upper - lower
    if 0 < gap then some ((price - lower) / gap) else none) (rollingMoments xs n) xs

end StrategyTree.Indicator
