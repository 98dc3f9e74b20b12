import StrategyTree.Host
import StrategyTree.Pipeline
import StrategyTree.Prices.File
/-!
# Folders of price files

A price folder has one file for each ticker, named for it. A ticker without a file
has no bars.
-/
namespace StrategyTree

structure PriceFolder where
  path : String
deriving DecidableEq, Repr

/-- The first and the last date of some bars, and how many they are. -/
structure DataRange where
  first : Date
  last : Date
  count : Nat
deriving DecidableEq, Repr

def DataRange.ofBars? {α : Type} (bars : List (Bar α)) : Option DataRange := do
  some ⟨(← bars.head?).date, (← bars.getLast?).date, bars.length⟩

/-- A name without an ending, if it has that ending. -/
def withoutEnding? (ending name : String) : Option String :=
  let (cs, tail) := (name.toList, ending.toList)
  if tail.isSuffixOf cs then some (String.ofList (cs.take (cs.length - tail.length))) else none

namespace PriceFolder

variable {m : Type → Type} [Monad m] [Host m]

def fileOf (f : PriceFolder) (ticker : String) : String :=
  Path.join f.path (ticker ++ ".csv")

def bars (f : PriceFolder) (ticker : String) : Task m (List (Bar Binary64)) := do
  let path := f.fileOf ticker
  if !(← Host.isPresent path) then return []
  let text ← Task.orFail (Host.readText path) fun e =>
    .dataSource s!"failed to read {path}: {e.message}"
  Task.ofExcept (PriceFile.bars path text)

def fetch (f : PriceFolder) (ticker : String) (first last : Option Date) :
    Task m (List (Bar Binary64)) :=
  Bar.clip first last <$> f.bars ticker

def range (f : PriceFolder) (ticker : String) : Task m (Option DataRange) :=
  DataRange.ofBars? <$> f.bars ticker

/-- The tickers with a file, in ascending order. -/
def tickers (f : PriceFolder) : Task m (List String) := do
  let names ← Task.orFail (Host.names f.path) fun e =>
    .dataSource s!"failed to read directory {f.path}: {e.message}"
  return (names.filterMap (withoutEnding? ".csv")).mergeSort fun a b => decide (a ≤ b)

/-- The price source that answers from the files of some tickers. -/
def source (f : PriceFolder) (tickers : List String) : m (PriceSource Binary64) := do
  let shelf ← tickers.mapM fun ticker => return (ticker, ← (f.bars ticker).run)
  return fun ticker first last =>
    match shelf.lookup ticker with
    | some r => r.map (Bar.clip first last)
    | none => .ok []

end PriceFolder
end StrategyTree
