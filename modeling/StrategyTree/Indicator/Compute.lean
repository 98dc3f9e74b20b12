import StrategyTree.Indicator.Basic
import StrategyTree.Indicator.Return
import StrategyTree.Indicator.Strength
import StrategyTree.Indicator.Trend
import StrategyTree.PriceMatrix
/-!
# Indicators of a price matrix

Directional indicators read raw highs, lows and closes; all others read the
adjusted close.
-/
namespace StrategyTree

variable {α : Type} [Arith α]

def TickerPrices.indicator (p : TickerPrices α) : Indicator → Series α
  | .price => p.adjusted.map Series.usable
  | .sma n => Indicator.simpleAverage p.adjusted n
  | .ema n => Indicator.exponentialAverage p.adjusted n
  | .rsi n => Indicator.relativeStrength p.adjusted n
  | .stdDev n => Indicator.percentDeviation p.adjusted n
  | .bollinger n => Indicator.bandPosition p.adjusted n Indicator.bandWidth
  | .atr n => Indicator.averageTrueRange p.high p.low p.close n
  | .adx n => Indicator.averageDirection p.high p.low p.close n
  | .macd => Indicator.convergenceHistogram p.adjusted Indicator.macdFast Indicator.macdSlow
      Indicator.macdSignal
  | .slope n => Indicator.lineSlope p.adjusted n
  | .cumulativeReturn n => Indicator.cumulativeChange p.adjusted n
  | .stdDevReturn n => Indicator.returnDeviation p.adjusted n

/-- The series of an indicator for a ticker, undefined on every date for a ticker that
the matrix does not know. -/
def PriceMatrix.indicator (m : PriceMatrix α) (ticker : String) (i : Indicator) : Series α :=
  match m.prices.get? ticker with
  | some p => p.indicator i
  | none => .undefined m.length

end StrategyTree
