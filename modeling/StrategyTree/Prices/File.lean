import StrategyTree.Binary64
import StrategyTree.Csv.Reader
import StrategyTree.Decimal.Reader
import StrategyTree.PriceMatrix
/-!
# Price files

A price file holds the bars of one ticker as records under a line of headers. The
columns `date`, `open` and `close` must be there. Without a value for the high or
the low the larger or smaller of open and close stands in, and without an adjusted
close the close. The first fault of a file is told, wherever it is, and the bars are
put in the order of their dates.
-/
namespace StrategyTree.PriceFile

structure Columns where
  date : Nat
  opening : Nat
  high : Option Nat
  low : Option Nat
  close : Nat
  adjusted : Option Nat
deriving DecidableEq, Repr

def column? (headers : List String) (name : String) : Option Nat :=
  headers.findIdx? fun h => (Text.trimChars h.toList).map Char.toLower == name.toList

/-- The first column with a name, which the file must have. -/
def requiredColumn (path : String) (headers : List String) (name : String) :
    Except Failure Nat :=
  match column? headers name with
  | some i => .ok i
  | none => .error (.dataSource s!"{path}: missing {name} column")

def columns (path : String) (headers : List String) : Except Failure Columns := do
  return { date := ← requiredColumn path headers "date"
           opening := ← requiredColumn path headers "open"
           high := column? headers "high"
           low := column? headers "low"
           close := ← requiredColumn path headers "close"
           adjusted := (column? headers "adj_close").or (column? headers "adjclose") }

def field (record : List String) (name : String) (column : Nat) : Except Failure String :=
  match record[column]? with
  | some text => .ok text
  | none => .error (.dataSource s!"missing {name} value")

def date (record : List String) (column : Nat) : Except Failure Date := do
  match Date.ofText? (Text.trim (← field record "date" column)) with
  | some d => return d
  | none => throw (.dataSource "invalid date format")

def price (record : List String) (name : String) (column : Nat) : Except Failure Binary64 := do
  let text ← field record name column
  match Decimal.float? (Text.trim text) with
  | .ok x => return .ofFloat x
  | .error fault => throw (.dataSource s!"invalid {name} '{text}': {fault.message}")

/-- A price that may lack a column or a value. -/
def priceOr (record : List String) (name : String) (column : Option Nat) (default : Binary64) :
    Except Failure Binary64 :=
  match column with
  | none => .ok default
  | some i =>
      if (record[i]?).all Text.isBlankText then .ok default else price record name i

/-- The bar of a record, which has as many fields as there are headers. -/
def bar (width : Nat) (c : Columns) (record : List String) : Except Failure (Bar Binary64) := do
  if record.length ≠ width then throw (.dataSource "CSV parse error")
  let date ← date record c.date
  let opening ← price record "open" c.opening
  let close ← price record "close" c.close
  let high ← priceOr record "high" c.high (Arith.larger opening close)
  let low ← priceOr record "low" c.low (Arith.smaller opening close)
  let adjusted ← priceOr record "adj_close" c.adjusted close
  return { date, opening, high, low, close, adjusted }

/-- Bars in the order of their dates. Bars of one date keep their order. -/
def sort (bars : List (Bar Binary64)) : List (Bar Binary64) :=
  bars.mergeSort fun a b => decide (a.date ≤ b.date)

/-- The bars of a file. The path is named where a column is missing. -/
def bars (path text : String) : Except Failure (List (Bar Binary64)) := do
  let records := Csv.records text
  let headers := records.head?.getD []
  let c ← columns path headers
  return sort (← records.tail.mapM (bar headers.length c))

end StrategyTree.PriceFile
