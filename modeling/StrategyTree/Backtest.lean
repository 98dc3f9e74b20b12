import StrategyTree.Evaluation.Day
import StrategyTree.Strategy.Validation
import StrategyTree.Text.Case
/-!
# Backtest

A strategy decides an allocation on every day of a matrix, knowing the prices up
to the close of that day. The mode says between which prices the allocation is
held:

| mode | held from     | to            | credited on |
|------|---------------|---------------|-------------|
| CC   | close `i`     | close `i + 1` | `i + 1`     |
| CO   | close `i`     | open `i + 1`  | `i + 1`     |
| OC   | open `i + 1`  | close `i + 1` | `i + 1`     |
| OO   | open `i + 1`  | open `i + 2`  | `i + 2`     |

Closes are adjusted, and opens are brought to the same basis. Where a price is
missing a ticker earns nothing. The cost of a trade is charged on the day of the
trade.
-/
namespace StrategyTree

/-- The prices between which an allocation is held. -/
inductive BacktestMode where
  | closeToClose
  | openToOpen
  | openToClose
  | closeToOpen
deriving DecidableEq, Repr

namespace BacktestMode

def all : List BacktestMode := [closeToClose, openToOpen, openToClose, closeToOpen]

def display : BacktestMode → String
  | closeToClose => "CC"
  | openToOpen => "OO"
  | openToClose => "OC"
  | closeToOpen => "CO"

/-- A mode is written with blanks around it and in any case of letters. -/
def normalForm (s : String) : String :=
  Text.upper (Text.trim s)

def ofText? (s : String) : Option BacktestMode :=
  all.find? fun mode => mode.display = normalForm s

/-- What is said of a text that names no mode. -/
def unknownMode (s : String) : String :=
  s!"unknown backtest mode '{normalForm s}', expected CC, OO, OC or CO"

/-- Days from the decision to the trade. -/
def tradeLag : BacktestMode → Nat
  | closeToClose | closeToOpen => 0
  | openToClose | openToOpen => 1

/-- Days from the decision to the day that is credited with the return. -/
def creditLag : BacktestMode → Nat
  | openToOpen => 2
  | _ => 1

variable {α : Type} [Arith α]

/-- The prices at which an allocation decided on `day` is bought and sold. -/
def prices? (mode : BacktestMode) (p : TickerPrices α) (day : Nat) : Option (α × α) := do
  match mode with
  | closeToClose => return (← p.adjusted.at? day, ← p.adjusted.at? (day + 1))
  | closeToOpen => return (← p.adjusted.at? day, ← p.adjustedOpen (day + 1))
  | openToClose => return (← p.adjustedOpen (day + 1), ← p.adjusted.at? (day + 1))
  | openToOpen => return (← p.adjustedOpen (day + 1), ← p.adjustedOpen (day + 2))

/-- The return of one ticker after a decision on `day`, undefined unless it was bought at a
positive price and sold at a finite one. -/
def periodReturn (mode : BacktestMode) (p : TickerPrices α) (day : Nat) : Option α := do
  let (entry, exit) ← mode.prices? p day
  if 0 < entry && Arith.isFinite exit then some (exit / entry - 1) else none

end BacktestMode

/-- How a backtest is run. Costs are in hundredths of a percent of the turnover. -/
structure BacktestConfig (α : Type) where
  mode : BacktestMode
  costBps : α
  initialCapital : α
  riskFreeRate : α
  startDate : Option Date
  endDate : Option Date

/-- Close to close, without costs, from a capital of ten thousand. -/
def BacktestConfig.standard {α : Type} [Arith α] : BacktestConfig α :=
  ⟨.closeToClose, 0, 10000, 0, none, none⟩

structure BacktestResult (α : Type) where
  initialCapital : α
  dates : List Date
  weights : List (Allocation α)
  equity : List (Date × α)

namespace Backtest

variable {α : Type} [Arith α]

/-- The return of an allocation decided on `day`. An undefined return counts as none. -/
def portfolioReturn (m : PriceMatrix α) (mode : BacktestMode) (weights : Allocation α)
    (day : Nat) : α :=
  Arith.sum (weights.entries.map fun e =>
    let r := (m.prices.get? e.1).bind fun p => mode.periodReturn p day
    e.2 * r.getD 0)

/-- What the cost of a trade leaves of the equity. -/
def costFactor (config : BacktestConfig α) (before after : Allocation α) : α :=
  1 - before.turnover after * config.costBps / 10000

/-- Multiplies the growth of a day by a factor. A day past the end is left out. -/
def post (growth : List α) (day : Nat) (factor : α) : List α :=
  growth.modify day (· * factor)

@[simp] theorem length_post (growth : List α) (day : Nat) (factor : α) :
    (post growth day factor).length = growth.length :=
  List.length_modify _ _ _

/-- Posts the cost and the return of each decision, from the one of `day` on. -/
def postDecisions (m : PriceMatrix α) (config : BacktestConfig α) :
    Nat → Allocation α → List (Allocation α) → List α → List α
  | _, _, [], growth => growth
  | day, before, weights :: rest, growth =>
      let traded :=
        if 0 < config.costBps then
          post growth (day + config.mode.tradeLag) (costFactor config before weights)
        else growth
      let credited := post traded (day + config.mode.creditLag)
        (1 + portfolioReturn m config.mode weights day)
      postDecisions m config (day + 1) weights rest credited

@[simp] theorem length_postDecisions (m : PriceMatrix α) (config : BacktestConfig α) (day : Nat)
    (before : Allocation α) (decisions : List (Allocation α)) (growth : List α) :
    (postDecisions m config day before decisions growth).length = growth.length := by
  induction decisions generalizing day before growth with
  | nil => rfl
  | cons weights rest ih =>
      simp only [postDecisions, ih, length_post]
      split <;> simp

def compound : α → List α → List α
  | _, [] => []
  | equity, g :: rest => equity * g :: compound (equity * g) rest

@[simp] theorem length_compound (equity : α) (growth : List α) :
    (compound equity growth).length = growth.length := by
  induction growth generalizing equity with
  | nil => rfl
  | cons g rest ih => simp [compound, ih]

/-- The equity on each date of a matrix after a list of daily decisions. -/
def simulate (m : PriceMatrix α) (decisions : List (Allocation α)) (config : BacktestConfig α) :
    List (Date × α) :=
  let growth := postDecisions m config 0 .empty decisions (List.replicate m.length 1)
  m.dates.zip (compound config.initialCapital growth)

/-- An equity curve has a point for each date. -/
theorem map_fst_simulate (m : PriceMatrix α) (decisions : List (Allocation α))
    (config : BacktestConfig α) : (simulate m decisions config).map Prod.fst = m.dates := by
  refine List.map_fst_zip ?_
  simp [PriceMatrix.length]

def run (s : Strategy α) (m : PriceMatrix α) (config : BacktestConfig α) :
    Except Failure (BacktestResult α) := do
  let _ ← s.validate
  if m.isEmpty then return ⟨config.initialCapital, [], [], []⟩
  let weights ← (s.evaluateDays m (List.range m.length) .start).1
  return ⟨config.initialCapital, m.dates, weights, simulate m weights config⟩

def evaluate (s : Strategy α) (m : PriceMatrix α) (mode : BacktestMode) (costBps : α) :
    Except Failure (BacktestResult α) :=
  run s m { BacktestConfig.standard with mode, costBps, initialCapital := 1 }

end Backtest
end StrategyTree
