import StrategyTree.Date
import StrategyTree.Failure
import StrategyTree.Series
import StrategyTree.Table
/-!
# Price matrix

A matrix holds the prices of many tickers on one list of dates: the dates on
which every anchor ticker has a bar. `PriceMatrix.build` aligns bars on them and
refuses bars that are out of order.
-/
namespace StrategyTree

/-- One trading day of one instrument. Splits and dividends are in the adjusted close;
the other prices are raw. -/
structure Bar (α : Type) where
  date : Date
  opening : α
  high : α
  low : α
  close : α
  adjusted : α
deriving DecidableEq, Repr

structure TickerPrices (α : Type) where
  opening : Series α := []
  high : Series α := []
  low : Series α := []
  close : Series α := []
  adjusted : Series α := []
deriving DecidableEq, Repr

namespace TickerPrices

variable {α : Type} [Arith α]

/-- The opening price on the basis of the adjusted close of the same day. -/
def adjustedOpen (p : TickerPrices α) (day : Nat) : Option α := do
  let opening ← p.opening.at? day
  let close ← p.close.at? day
  let adjusted ← p.adjusted.at? day
  some (if close == 0 then opening else opening * adjusted / close)

/-- The bars on the given dates, absent where a date has none. -/
def ofBars (bars : List (Bar α)) (dates : List Date) : TickerPrices α :=
  let days := dates.map fun d => bars.find? (·.date = d)
  { opening := days.map fun b => b.map Bar.opening
    high := days.map fun b => b.map Bar.high
    low := days.map fun b => b.map Bar.low
    close := days.map fun b => b.map Bar.close
    adjusted := days.map fun b => b.map Bar.adjusted }

end TickerPrices

/-- Prices by ticker on a list of dates. The limiting ticker is the anchor whose bars
start last. -/
structure PriceMatrix (α : Type) where
  dates : List Date
  prices : Table (TickerPrices α)
  limiting : Option String

namespace PriceMatrix

variable {α : Type} [Arith α]

def length (m : PriceMatrix α) : Nat :=
  m.dates.length

def isEmpty (m : PriceMatrix α) : Bool :=
  m.dates.isEmpty

/-- The first date that does not follow the date of the bar before it. -/
def firstDisorder? : List (Bar α) → Option Date
  | a :: b :: rest => if b.date ≤ a.date then some b.date else firstDisorder? (b :: rest)
  | _ => none

/-- Refuses a table in which the bars of some ticker are out of order. -/
def checkOrder : List (String × List (Bar α)) → Except Failure Unit
  | [] => .ok ()
  | (ticker, bars) :: rest =>
      match firstDisorder? bars with
      | some date => .error (.unorderedBars ticker date.display)
      | none => checkOrder rest

structure History where
  ticker : String
  first : Date
  last : Date

def history? (series : Table (List (Bar α))) (ticker : String) : Option History := do
  let bars ← series.get? ticker
  let first ← bars.head?
  let last ← bars.getLast?
  some ⟨ticker, first.date, last.date⟩

/-- The part that two histories share, named after the one that starts later. -/
def History.meet (a b : History) : History :=
  { ticker := if a.first < b.first then b.ticker else a.ticker
    first := if a.first < b.first then b.first else a.first
    last := if b.last < a.last then b.last else a.last }

/-- The history that all anchors share, if each has bars and it is not over before it
starts. -/
def commonHistory? (series : Table (List (Bar α))) (anchors : List String) : Option History := do
  let h :: rest ← anchors.mapM (history? series) | none
  let common := rest.foldl History.meet h
  if common.first ≤ common.last then some common else none

/-- The dates within the common history on which every anchor has a bar, read off the
limiting ticker. -/
def commonDates (series : Table (List (Bar α))) (anchors : List String) (common : History) :
    List Date :=
  let barsOf (ticker : String) := (series.get? ticker).getD []
  let others := anchors.filter (· ≠ common.ticker)
  ((barsOf common.ticker).map Bar.date).filter fun d =>
    decide (common.first ≤ d) && decide (d ≤ common.last) &&
      others.all fun t => (barsOf t).any (·.date = d)

/-- The matrix without dates, which still knows every ticker. -/
def withoutDates (series : Table (List (Bar α))) : PriceMatrix α :=
  ⟨[], series.map fun _ _ => {}, none⟩

/-- Aligns the bars of every ticker on the dates common to the anchors. -/
def build (series : Table (List (Bar α))) (anchors : List String) :
    Except Failure (PriceMatrix α) := do
  checkOrder series.entries
  let anchors := anchors.eraseDups
  match commonHistory? series anchors with
  | none => return withoutDates series
  | some common =>
      let dates := commonDates series anchors common
      if dates.isEmpty then return withoutDates series
      return ⟨dates, series.map fun _ bars => .ofBars bars dates, some common.ticker⟩

end PriceMatrix
end StrategyTree
