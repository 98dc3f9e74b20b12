import StrategyTree.Metrics
/-!
# From bars to a scored backtest

A price source answers with the bars of one ticker between two dates. The pipeline
asks it for every anchor of a strategy in ascending order, aligns the answers, runs
the strategy and scores the run. The first anchor that the source refuses or has
no bars for ends it.
-/
namespace StrategyTree

/-- Where bars come from. A ticker that the source does not know has no bars. -/
abbrev PriceSource (α : Type) :=
  (ticker : String) → (first last : Option Date) → Except Failure (List (Bar α))

/-- Whether a date lies between two bounds, an absent bound allowing every date. -/
def Date.within (first last : Option Date) (d : Date) : Bool :=
  first.all (fun f => decide (f ≤ d)) && last.all (fun l => decide (d ≤ l))

def Bar.clip {α : Type} (first last : Option Date) (bars : List (Bar α)) : List (Bar α) :=
  bars.filter fun b => b.date.within first last

namespace Pipeline

variable {α : Type} [Arith α]

/-- The tickers in the order in which a message names them. -/
def listed (tickers : Tickers) : String :=
  ", ".intercalate tickers.keys

/-- The bars of every ticker of a list, each of which must have some. -/
def fetchAll (source : PriceSource α) (first last : Option Date) :
    List String → Except Failure (List (String × List (Bar α)))
  | [] => .ok []
  | ticker :: rest => do
      let bars ← source ticker first last
      if bars.isEmpty then throw (.noData ticker)
      return (ticker, bars) :: (← fetchAll source first last rest)

/-- The anchors of a strategy that passes validation. There must be one. -/
def anchors (s : Strategy α) : Except Failure Tickers := do
  let tickers ← s.validate
  if tickers.keys.isEmpty then throw .emptyAnchors
  return tickers

/-- The matrix of a strategy's anchors. It must have a date. -/
def align (source : PriceSource α) (config : BacktestConfig α) (tickers : Tickers) :
    Except Failure (PriceMatrix α) := do
  let series ← fetchAll source config.startDate config.endDate tickers.keys
  let m ← PriceMatrix.build (.ofList series) tickers.keys
  if m.isEmpty then throw (.noData (listed tickers))
  return m

def run (s : Strategy α) (source : PriceSource α) (config : BacktestConfig α) :
    Except Failure (BacktestResult α × Metrics α) := do
  let tickers ← anchors s
  let m ← align source config tickers
  let result ← Backtest.run s m config
  return (result, .ofResult result config.riskFreeRate)

end Pipeline
end StrategyTree
