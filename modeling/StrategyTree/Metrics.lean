import StrategyTree.Backtest
/-!
# Performance figures

All figures are measured from the capital before the first trade, so the cost of
entering counts. Returns are daily, the first against the initial capital; a day
after a day without positive equity has no return. A year has 252 trading days.
-/
namespace StrategyTree

structure Metrics (α : Type) where
  totalReturn : α
  annualizedReturn : α
  annualizedVolatility : α
  sharpeRatio : α
  sortinoRatio : α
  calmarRatio : α
  maxDrawdown : α
  maxDrawdownDuration : Nat
  winRate : α
  bestDay : α
  worstDay : α
  avgTurnover : α
  avgHoldings : α
  timeInMarket : α
  rebalanceCount : Nat
  tradingDays : Nat

namespace Metrics

variable {α : Type} [Arith α]

def tradingDaysPerYear : α := 252

/-- A change of weight of at most this much is no rebalance. -/
def rebalanceTolerance : α := 1e-9

def dailyReturns : α → List α → List α
  | _, [] => []
  | before, equity :: rest =>
      (if 0 < before then equity / before - 1 else 0) :: dailyReturns equity rest

def totalReturnOf (initial : α) (equity : List α) : α :=
  match equity.getLast? with
  | some last => if 0 < initial then last / initial - 1 else 0
  | none => 0

/-- The yearly return that compounds to a total return over some days. After a total loss it
is none. -/
def annualized (total : α) (days : Nat) : α :=
  let years : α := Arith.ofNat days / tradingDaysPerYear
  if 0 < years && Arith.isFinite total && decide (-1 < total) then
    Arith.pow (1 + total) (Arith.reciprocal years) - 1
  else 0

/-- The sample deviation, none of fewer than two values. -/
def sampleDeviation (xs : List α) : α :=
  if xs.length < 2 then 0
  else
    let average := Arith.sum xs / Arith.ofNat xs.length
    Arith.sqrt (Arith.sum (xs.map fun x => (x - average) * (x - average)) /
      Arith.ofNat (xs.length - 1))

structure Drawdown (α : Type) where
  peak : α
  underwater : Nat
  deepest : α
  longest : Nat

/-- A new high or a tie with the peak ends a drawdown. -/
def Drawdown.step (d : Drawdown α) (equity : α) : Drawdown α :=
  if d.peak ≤ equity then { d with peak := equity, underwater := 0 }
  else if d.peak ≤ 0 then d
  else
    let underwater := d.underwater + 1
    { d with underwater, longest := max d.longest underwater
             deepest := Arith.larger d.deepest (1 - equity / d.peak) }

/-- The deepest loss from a peak, and the longest run of days below one. The initial capital
is the first peak. -/
def drawdown (initial : α) (equity : List α) : α × Nat :=
  let d := equity.foldl Drawdown.step ⟨initial, 0, 0, 0⟩
  (d.deepest, d.longest)

/-- A yearly ratio of excess return to deviation. -/
def annualizedRatio (excess deviation : α) : α :=
  if 0 < deviation then excess / deviation * Arith.sqrt tradingDaysPerYear else 0

/-- The yearly ratios of the excess over a daily rate to the deviation of all days, and to
that of the days below the rate. -/
def riskAdjusted (returns : List α) (rate : α) : α × α :=
  if returns.isEmpty then (0, 0)
  else
    let count : α := Arith.ofNat returns.length
    let average := Arith.sum returns / count
    let excess := average - rate
    let (all, below) := returns.foldl (fun (t : α × α) r =>
      let shortfall := Arith.smaller (r - rate) 0
      (t.1 + (r - average) * (r - average), t.2 + shortfall * shortfall)) (0, 0)
    (annualizedRatio excess (Arith.sqrt (all / count)),
      annualizedRatio excess (Arith.sqrt (below / count)))

def extremes : List α → α × α
  | [] => (0, 0)
  | r :: rest => rest.foldl (fun t r => (Arith.larger t.1 r, Arith.smaller t.2 r)) (r, r)

/-- Whether some ticker's weight differs between two allocations. -/
def differs (before after : Allocation α) : Bool :=
  (after.keys ++ before.keys).any fun t =>
    rebalanceTolerance < Arith.abs (after.weight t - before.weight t)

/-- The number of days whose weights differ from those of the day before. -/
def rebalances : Allocation α → List (Allocation α) → Nat
  | _, [] => 0
  | before, after :: rest =>
      rebalances after rest + if differs before after then 1 else 0

def isInvested (a : Allocation α) : Bool :=
  rebalanceTolerance < a.total

def holdings (a : Allocation α) : Nat :=
  (a.values.filter fun w => decide (rebalanceTolerance < w)).length

def compute (initial : α) (equity : List α) (weights : List (Allocation α)) (rate : α) :
    Metrics α :=
  let total := totalReturnOf initial equity
  let yearly := annualized total equity.length
  let returns := dailyReturns initial equity
  let (deepest, longest) := drawdown initial equity
  let (sharpe, sortino) := riskAdjusted returns (rate / tradingDaysPerYear)
  let (best, worst) := extremes returns
  { totalReturn := total
    annualizedReturn := yearly
    annualizedVolatility := sampleDeviation returns * Arith.sqrt tradingDaysPerYear
    sharpeRatio := sharpe
    sortinoRatio := sortino
    calmarRatio := if 0 < deepest then yearly / deepest else 0
    maxDrawdown := deepest
    maxDrawdownDuration := longest
    winRate :=
      if returns.isEmpty then 0
      else Arith.ofNat (returns.filter fun r => decide (0 < r)).length / Arith.ofNat returns.length
    bestDay := best
    worstDay := worst
    avgTurnover :=
      Arith.mean (List.zipWith (fun a b => Allocation.turnover a b / 2) weights weights.tail)
    avgHoldings := Arith.mean (weights.map fun a => Arith.ofNat (holdings a))
    timeInMarket := Arith.mean (weights.map fun a => if isInvested a then 1 else 0)
    rebalanceCount := rebalances .empty weights
    tradingDays := equity.length }

def ofResult (r : BacktestResult α) (rate : α) : Metrics α :=
  compute r.initialCapital (r.equity.map Prod.snd) r.weights rate

end Metrics
end StrategyTree
