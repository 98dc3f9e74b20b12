import StrategyTree.Backtest
import StrategyTree.Settings.Basic
/-!
# The settings of a backtest

The section `backtest` holds the mode, the costs, the capital, the risk-free rate
and the dates, and the section `data` the folder with the prices. Settings are
checked in this order before anything else is read, and the first fault is told.
A check reads the text by itself, and a run reads it again.
-/
namespace StrategyTree.Settings

def invalid (key reason : String) : Failure :=
  .configInvalid "backtest" key reason

/-- The mode of a name. -/
def namedMode (text : String) : Except Failure BacktestMode :=
  match BacktestMode.ofText? text with
  | some mode => .ok mode
  | none => .error (invalid "mode" (BacktestMode.unknownMode text))

/-! ### Checks -/

/-- A mode that is given must be a known one. -/
def checkedMode (s : Settings) : Except Failure (Option BacktestMode) :=
  match s.text? "backtest" "mode" with
  | none => .ok none
  | some text => some <$> namedMode text

/-- Costs are finite and not negative. -/
def checkCost (s : Settings) : Except Failure Unit :=
  let cost := s.number "backtest" "cost_bps" 0
  if !Arith.isFinite cost || cost < 0 then
    .error (invalid "cost_bps" "cost_bps must be non-negative")
  else .ok ()

/-- The capital is finite and positive. -/
def checkCapital (s : Settings) : Except Failure Unit :=
  let capital := s.number "backtest" "initial_capital" 10000
  if !Arith.isFinite capital || capital ≤ 0 then
    .error (invalid "initial_capital" "initial_capital must be positive")
  else .ok ()

/-- The risk-free rate is at least zero and less than one. -/
def checkRate (s : Settings) : Except Failure Unit :=
  let rate := s.number "backtest" "risk_free_rate" 0
  if 0 ≤ rate && rate < 1 then .ok ()
  else .error (invalid "risk_free_rate" "risk_free_rate must be between 0 and 1")

/-- A date that is given and not blank must be one of the calendar. -/
def checkedDate (s : Settings) (key : String) : Except Failure (Option Date) :=
  match s.text? "backtest" key with
  | none => .ok none
  | some text =>
      if Text.isBlankText text then .ok none
      else
        match Date.ofText? (Text.trim text) with
        | some d => .ok (some d)
        | none => .error (invalid key s!"invalid {key} format, expected YYYY-MM-DD")

/-- The first date comes before the last. -/
def checkDates (s : Settings) : Except Failure Unit := do
  match ← s.checkedDate "start_date", ← s.checkedDate "end_date" with
  | some first, some last =>
      if first < last then return ()
      else throw (invalid "start_date" "start_date must be before end_date")
  | _, _ => return ()

/-- The folder with the prices must be named. -/
def checkFolder (s : Settings) : Except Failure Unit :=
  match s.text? "data" "path" with
  | none => .error (.configMissing "data" "path")
  | some path => if Text.isBlankText path then .error (.configMissing "data" "path") else .ok ()

def validate (s : Settings) : Except Failure Unit := do
  let _ ← s.checkedMode
  s.checkCost
  s.checkCapital
  s.checkRate
  s.checkDates
  s.checkFolder

/-! ### Readers -/

def mode (s : Settings) : Except Failure BacktestMode :=
  match s.text? "backtest" "mode" with
  | none => .ok (BacktestConfig.standard : BacktestConfig Binary64).mode
  | some text => namedMode text

def costBps (s : Settings) : Binary64 :=
  s.number "backtest" "cost_bps" BacktestConfig.standard.costBps

def initialCapital (s : Settings) : Binary64 :=
  s.number "backtest" "initial_capital" BacktestConfig.standard.initialCapital

def riskFreeRate (s : Settings) : Binary64 :=
  s.number "backtest" "risk_free_rate" BacktestConfig.standard.riskFreeRate

/-- How a backtest is run under settings. -/
def backtestConfig (s : Settings) : Except Failure (BacktestConfig Binary64) := do
  return { mode := ← s.mode
           costBps := s.costBps
           initialCapital := s.initialCapital
           riskFreeRate := s.riskFreeRate
           startDate := s.date? "backtest" "start_date"
           endDate := s.date? "backtest" "end_date" }

/-- The folder with the prices. -/
def dataFolder (s : Settings) : Except Failure String :=
  match s.text? "data" "path" with
  | none => .error (.configMissing "data" "path")
  | some path =>
      if Text.isBlankText path then .error (.configMissing "data" "path")
      else .ok (Text.trim path)

end StrategyTree.Settings
