import StrategyTree.Document.File
import StrategyTree.Prices.Folder
import StrategyTree.Report
import StrategyTree.Settings.File
import StrategyTree.Settings.Run
/-!
# Commands

What the program can be asked to do. `backtest` runs a strategy on the prices of a
folder and may write a report, or only checks whether it could be run. `validate`
checks a strategy. `info` tells from when to when there are prices. A command ends
with an exit code, which is zero unless it fails.
-/
namespace StrategyTree

inductive Command where
  | backtest (config tree : String) (output : Option String) (mode : Option BacktestMode)
      (dryRun : Bool)
  | validate (tree : String)
  | info (ticker : Option String) (config : String)
deriving DecidableEq, Repr

namespace Command

variable {m : Type → Type} [Monad m] [Host m]

def loadSettings (config : String) : Task m Settings := do
  Host.note s!"Loading config from {config}"
  let settings ← Settings.load config
  Task.ofExcept settings.validate
  return settings

def percent (places : Nat) (x : Binary64) : String :=
  Decimal.fixed places (x * 100).value ++ "%"

def period (dates : List Date) : String :=
  match dates.head?, dates.getLast? with
  | some first, some last => s!"{first.display} .. {last.display}"
  | _, _ => "- .. -"

/-- The lines that sum up a backtest. -/
def summary (name : String) (mode : BacktestMode) (r : BacktestResult Binary64)
    (figures : Metrics Binary64) : List String :=
  [s!"\n=== {name} ({mode.display}) ===",
    s!"Period:           {period r.dates}",
    s!"Trading Days:     {figures.tradingDays}",
    s!"Total Return:     {percent 2 figures.totalReturn}",
    s!"Annualized:       {percent 2 figures.annualizedReturn}",
    s!"Sharpe Ratio:     {Decimal.fixed 2 figures.sharpeRatio.value}",
    s!"Sortino Ratio:    {Decimal.fixed 2 figures.sortinoRatio.value}",
    s!"Calmar Ratio:     {Decimal.fixed 2 figures.calmarRatio.value}",
    s!"Volatility:       {percent 2 figures.annualizedVolatility}",
    s!"Max Drawdown:     -{percent 1 figures.maxDrawdown}",
    s!"Drawdown Days:    {figures.maxDrawdownDuration}",
    s!"Win Rate:         {percent 1 figures.winRate}",
    s!"Time in Market:   {percent 1 figures.timeInMarket}",
    s!"Rebalances:       {figures.rebalanceCount}"]

def report (settings : Settings) (output : Option String) (name : String)
    (r : BacktestResult Binary64) (figures : Metrics Binary64) : Task m Unit := do
  match output.or (settings.text? "report" "output") with
  | none => return
  | some path =>
      Report.write path name r figures
      Host.note s!"\nReport written to: {path}"

/-- Runs a strategy. A mode that is given stands in for the one of the settings. -/
def runBacktest (config tree : String) (output : Option String) (mode : Option BacktestMode) :
    Task m Unit := do
  let settings ← loadSettings config
  let base ← Task.ofExcept settings.backtestConfig
  let run := { base with mode := mode.getD base.mode }
  Host.note s!"Loading strategy tree from {tree}"
  let strategy ← Strategy.load tree
  let folder ← Task.ofExcept settings.dataFolder
  let anchors := strategy.validate.toOption.getD .empty
  let source ← ExceptT.lift (PriceFolder.source ⟨folder⟩ anchors.keys)
  let (r, figures) ← Task.ofExcept (Pipeline.run strategy source run)
  (summary strategy.name run.mode r figures).forM Host.note
  report settings output strategy.name r figures

/-- Checks what a run would read, the prices apart. -/
def dryRun (config tree : String) : Task m Unit := do
  let _ ← loadSettings config
  Host.note "Config validated successfully"
  let strategy ← Strategy.load tree
  let anchors ← Task.ofExcept (Pipeline.anchors strategy)
  Host.note s!"\nStrategy: {strategy.name}"
  Host.note s!"Chains:   {strategy.chains.keys.length}"
  Host.note s!"Anchors:  {Pipeline.listed anchors}"
  Host.note "\nDry run complete: configuration is valid"

def runValidate (tree : String) : Task m Unit := do
  Host.note s!"Validating strategy tree: {tree}"
  let strategy ← Strategy.load tree
  let anchors ← Task.ofExcept strategy.validate
  Host.note s!"\nStrategy: {strategy.name}"
  Host.note s!"Nodes:    {(strategy.trees.flatMap Node.walk).length}"
  Host.note s!"Chains:   {strategy.chains.keys.length}"
  let listed :=
    if anchors.isEmpty then "(none, strategy only holds cash)" else Pipeline.listed anchors
  Host.note s!"Anchors:  {listed}"
  Host.note "\nStrategy tree is valid."

/-- Tells the range of the bars of a ticker, which must have some. -/
def tellRange (folder : PriceFolder) (ticker : String) : Task m Unit := do
  match ← folder.range ticker with
  | some r => Host.answer s!"{ticker}: {r.first.display} .. {r.last.display} ({r.count} bars)"
  | none => throw (.noData ticker)

/-- Tells the range of a ticker, or of every ticker with a file. -/
def runInfo (ticker : Option String) (config : String) : Task m Unit := do
  let settings ← Settings.load config
  let folder : PriceFolder := ⟨← Task.ofExcept settings.dataFolder⟩
  let tickers ← match ticker with
    | some ticker => pure [ticker]
    | none => folder.tickers
  if tickers.isEmpty then throw (.noData "*")
  tickers.forM (tellRange folder)

def task : Command → Task m Unit
  | backtest config tree output mode dry =>
      if dry then dryRun config tree else runBacktest config tree output mode
  | validate tree => runValidate tree
  | info ticker config => runInfo ticker config

def run (c : Command) : m Nat := do
  match ← c.task.run with
  | .ok () => return 0
  | .error e =>
      Host.note s!"error: {e.message}"
      return e.exitCode

end Command
end StrategyTree
