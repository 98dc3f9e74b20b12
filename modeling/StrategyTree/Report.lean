import StrategyTree.Binary64
import StrategyTree.Csv.Writer
import StrategyTree.Decimal.Text
import StrategyTree.Host
import StrategyTree.Metrics
/-!
# Reports

A report is two tables of comma-separated records. The daily table has one row for
each date with the equity, the share that is in cash and the weight of every ticker
that is held on some day. The table of figures lies beside it under another
extension.
-/
namespace StrategyTree.Report

/-- Amounts have six places. -/
def amount (x : Binary64) : String :=
  Decimal.fixed 6 x.value

def tickers (weights : List (Allocation Binary64)) : List String :=
  (weights.foldl (fun (t : Tickers) a => t.addAll a.keys) .empty).keys

/-- The share that is not invested. It is not negative. -/
def cash (a : Allocation Binary64) : Binary64 :=
  Arith.larger (1 - a.total) 0

def dailyRow (tickers : List String) (date : Date) (weights : Allocation Binary64)
    (equity : Binary64) : List String :=
  date.display :: amount equity :: amount (cash weights) ::
    tickers.map fun t => amount (weights.weight t)

/-- The daily table. A day without a decision or without an equity has no row. -/
def daily (r : BacktestResult Binary64) : List (List String) :=
  let names := tickers r.weights
  let days := (r.dates.zip r.weights).zip r.equity
  ("date" :: "equity" :: "cash" :: names) ::
    days.map fun ((date, weights), (_, equity)) => dailyRow names date weights equity

def figures (name : String) (m : Metrics Binary64) : List (List String) :=
  [["metric", "value"],
    ["strategy", name],
    ["total_return", amount m.totalReturn],
    ["annualized_return", amount m.annualizedReturn],
    ["annualized_volatility", amount m.annualizedVolatility],
    ["sharpe_ratio", amount m.sharpeRatio],
    ["sortino_ratio", amount m.sortinoRatio],
    ["calmar_ratio", amount m.calmarRatio],
    ["max_drawdown", amount m.maxDrawdown],
    ["max_drawdown_duration", toString m.maxDrawdownDuration],
    ["win_rate", amount m.winRate],
    ["best_day", amount m.bestDay],
    ["worst_day", amount m.worstDay],
    ["avg_turnover", amount m.avgTurnover],
    ["avg_holdings", amount m.avgHoldings],
    ["time_in_market", amount m.timeInMarket],
    ["rebalance_count", toString m.rebalanceCount],
    ["trading_days", toString m.tradingDays]]

def figuresPath (path : String) : String :=
  Path.withExtension path "metrics.csv"

variable {m : Type → Type} [Monad m] [Host m]

def makeFolder (path : String) : Task m Unit := do
  if !(Path.folder path).isEmpty then
    Task.orFail (Host.makeFolders (Path.folder path)) fun e => .io e.message

def writeTable (path : String) (rows : List (List String)) : Task m Unit :=
  Task.orFail (Host.writeText path (Csv.write rows)) fun e =>
    .io s!"failed to write {path}: {e.message}"

/-- Writes both tables of a report. -/
def write (path name : String) (r : BacktestResult Binary64) (figuresOf : Metrics Binary64) :
    Task m Unit := do
  makeFolder path
  writeTable path (daily r)
  writeTable (figuresPath path) (figures name figuresOf)

end StrategyTree.Report
