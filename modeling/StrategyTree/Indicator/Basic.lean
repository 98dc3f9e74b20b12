import StrategyTree.Failure
/-!
# Metrics and indicators

A metric is what a strategy document names; an indicator is a metric with its
period resolved and checked. `Indicator.resolve` refuses a period that is too
short, so every indicator it returns has a defined value on some series.
-/
namespace StrategyTree

/-- The measurements that a strategy may take of one instrument. -/
inductive Metric where
  | currentPrice
  | sma
  | ema
  | rsi
  | stdDev
  | bollingerPctB
  | atr
  | adx
  | macdHistogram
  | slope
  | cumulativeReturn
  | stdDevReturn
deriving DecidableEq, Repr

namespace Metric

def all : List Metric :=
  [currentPrice, sma, ema, rsi, stdDev, bollingerPctB, atr, adx, macdHistogram, slope,
    cumulativeReturn, stdDevReturn]

def name : Metric → String
  | currentPrice => "currentPrice"
  | sma => "sma"
  | ema => "ema"
  | rsi => "rsi"
  | stdDev => "stdDev"
  | bollingerPctB => "bollingerPctB"
  | atr => "atr"
  | adx => "adx"
  | macdHistogram => "macdHistogram"
  | slope => "slope"
  | cumulativeReturn => "cumulativeReturn"
  | stdDevReturn => "stdDevReturn"

/-- The name that messages use. -/
def title : Metric → String
  | currentPrice => "CurrentPrice"
  | sma => "Sma"
  | ema => "Ema"
  | rsi => "Rsi"
  | stdDev => "StdDev"
  | bollingerPctB => "BollingerPctB"
  | atr => "Atr"
  | adx => "Adx"
  | macdHistogram => "MacdHistogram"
  | slope => "Slope"
  | cumulativeReturn => "CumulativeReturn"
  | stdDevReturn => "StdDevReturn"

def ofName? (s : String) : Option Metric :=
  all.find? (·.name = s)

@[simp] theorem ofName?_name (m : Metric) : ofName? m.name = some m := by
  cases m <;> decide

/-- Whether the values do not depend on a window. -/
def ignoresWindow : Metric → Bool
  | currentPrice | macdHistogram => true
  | _ => false

/-- The shortest window; a line through fewer than two points has no slope. -/
def minWindow : Metric → Int
  | slope => 2
  | _ => 1

end Metric

/-- A metric with its periods. The convergence histogram has fixed periods. -/
inductive Indicator where
  | price
  | sma (period : Nat)
  | ema (period : Nat)
  | rsi (period : Nat)
  | stdDev (period : Nat)
  | bollinger (period : Nat)
  | atr (period : Nat)
  | adx (period : Nat)
  | macd
  | slope (period : Nat)
  | cumulativeReturn (period : Nat)
  | stdDevReturn (period : Nat)
deriving DecidableEq, Repr

namespace Indicator

/-- Periods of the fast average, the slow average and the signal line. -/
def macdFast : Nat := 12
def macdSlow : Nat := 26
def macdSignal : Nat := 9

/-- The Bollinger bands lie this many hundredths of a standard deviation from the mean. -/
def bandWidth : Nat := 200

/-- The indicator of `metric` over `window`, which must not be shorter than the
metric allows. A metric without a window takes any. -/
def resolve (metric : Metric) (window : Int) : Except Failure Indicator :=
  let period : Except Failure Nat :=
    if window < metric.minWindow then
      .error (.invalidWindow metric.title window metric.minWindow)
    else .ok window.toNat
  match metric with
  | .currentPrice => .ok price
  | .macdHistogram => .ok macd
  | .sma => period.map sma
  | .ema => period.map ema
  | .rsi => period.map rsi
  | .stdDev => period.map stdDev
  | .bollingerPctB => period.map bollinger
  | .atr => period.map atr
  | .adx => period.map adx
  | .slope => period.map slope
  | .cumulativeReturn => period.map cumulativeReturn
  | .stdDevReturn => period.map stdDevReturn

/-- The first day with a value on a series without gaps. -/
def firstDefined : Indicator → Nat
  | price => 0
  | sma n | ema n | stdDev n | bollinger n | atr n | slope n => n - 1
  | rsi n | cumulativeReturn n | stdDevReturn n => n
  | adx n => 2 * n - 1
  | macd => macdSlow - 1 + macdSignal - 1

def display : Indicator → String
  | price => "PRICE"
  | sma n => s!"SMA({n})"
  | ema n => s!"EMA({n})"
  | rsi n => s!"RSI({n})"
  | stdDev n => s!"STDDEV({n})"
  | bollinger n => s!"BOLLINGER_PCTB({n},{bandWidth / 100})"
  | atr n => s!"ATR({n})"
  | adx n => s!"ADX({n})"
  | macd => s!"MACD_HIST({macdFast},{macdSlow},{macdSignal})"
  | slope n => s!"SLOPE({n})"
  | cumulativeReturn n => s!"CUMRET({n})"
  | stdDevReturn n => s!"STDDEV_RET({n})"

end Indicator
end StrategyTree
