import StrategyTree.Indicator.Average
/-!
# Slope of the trend

The slope of the least-squares line through the last `n` values, with the days
numbered from 0 in the window. Both sums slide: when the oldest value leaves,
every day number falls by one, which lowers the weighted sum by the sum of the
values that stay.
-/
namespace StrategyTree.Indicator

variable {α : Type} [Arith α]

/-- The sum of the values in the window, their sum weighted with the day numbers, and
the days since the last gap. -/
structure SlidingLine (α : Type) where
  sum : α
  weighted : α
  run : Nat

def daySum (n : Nat) : α :=
  Arith.ofNat n * (Arith.ofNat n - 1) / 2

def daySquares (n : Nat) : α :=
  (Arith.ofNat n - 1) * Arith.ofNat n * (2 * Arith.ofNat n - 1) / 6

def slopeMachine (n : Nat) : Machine (SlidingLine α) (α × α) α where
  start := ⟨0, 0, 0⟩
  step s x :=
    let run := s.run + 1
    let next : SlidingLine α :=
      if run ≤ n then ⟨s.sum + x.1, s.weighted + Arith.ofNat s.run * x.1, run⟩
      else
        ⟨s.sum - x.2 + x.1,
          s.weighted - (s.sum - x.2) + (Arith.ofNat n - 1) * x.1, run⟩
    let spread : α := Arith.ofNat n * daySquares n - daySum n * daySum n
    (next, if n ≤ run then
        some ((Arith.ofNat n * next.weighted - daySum n * next.sum) / spread)
      else none)

/-- The slope of the line through the last `n` values; it takes two points to draw one. -/
def lineSlope (xs : Series α) (n : Nat) : Series α :=
  if n < 2 then .undefined xs.length else (slopeMachine n).run (withLeaving n xs)

end StrategyTree.Indicator
