import StrategyTree.Indicator.Spread
/-!
# Returns

Changes of a price in percent: from day to day, over the last `n` days, and the
deviation of the daily ones.
-/
namespace StrategyTree.Indicator

variable {α : Type} [Arith α]

/-- The change from `old` to `new` in percent. -/
def percentChange (old new : α) : α :=
  (new / old - 1) * 100

/-- The change from the day before, where both days have a price and the first is not zero. -/
def dailyReturns (xs : Series α) : Series α :=
  List.zipWith (fun old new => (Series.usable old).bind fun a => (Series.usable new).bind fun b =>
    if a == 0 then none else some (percentChange a b)) (xs.delayed 1) xs

/-- Counts the days since the last gap and compares with the value `n` days before. -/
def changeMachine (n : Nat) : Machine Nat (α × α) α where
  start := 0
  step run x :=
    (run + 1, if n < run + 1 ∧ ¬x.2 == 0 then some (percentChange x.2 x.1) else none)

/-- The change over the last `n` days, none of which may be missing. -/
def cumulativeChange (xs : Series α) (n : Nat) : Series α :=
  if n = 0 then .undefined xs.length else (changeMachine n).run (withLeaving n xs)

/-- The deviation of the last `n` daily returns. -/
def returnDeviation (xs : Series α) (n : Nat) : Series α :=
  deviation (dailyReturns xs) n

end StrategyTree.Indicator
