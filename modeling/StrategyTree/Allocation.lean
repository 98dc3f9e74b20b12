import StrategyTree.Arith
import StrategyTree.Table
/-!
# Allocations

An allocation gives weights to tickers, in ascending ticker order. What the
weights leave of one is cash.
-/
namespace StrategyTree

abbrev Allocation (α : Type) := Table α

namespace Allocation

variable {α : Type} [Arith α]

def weight (a : Allocation α) (ticker : String) : α :=
  (a.get? ticker).getD 0

def total (a : Allocation α) : α :=
  Arith.sum a.values

def add (a : Allocation α) (ticker : String) (x : α) : Allocation α :=
  a.alter ticker fun w => w.getD 0 + x

/-- Adds the weights of `source` times `factor`, where that is positive. -/
def addScaled (target source : Allocation α) (factor : α) : Allocation α :=
  source.entries.foldl (fun t e =>
    let x := e.2 * factor
    if 0 < x then t.add e.1 x else t) target

/-- The allocation of a mixture of parts, each with its factor. A part may be pruned: its
share stays in cash, and if all parts are pruned so is the mixture. -/
def blend (parts : List (α × Option (Allocation α))) : Option (Allocation α) :=
  if parts.all fun p => p.2.isNone then none
  else some (parts.foldl (fun t p =>
    match p.2 with
    | some a => t.addScaled a p.1
    | none => t) .empty)

/-- The sum of the absolute changes of weight from one allocation to the next. Cash does
not count. -/
def turnover (before after : Allocation α) : α :=
  let changed := after.entries.foldl (fun t e => t + Arith.abs (e.2 - before.weight e.1)) 0
  before.entries.foldl
    (fun t e => if after.contains e.1 then t else t + Arith.abs e.2) changed

/-- Equal shares for the tickers of a position. Cash takes a share and is not listed. Of the
others only those in scope count, and without any the position is pruned. -/
def ofPosition (cash : String) (inScope : String → Bool) (tickers : List String) :
    Option (Allocation α) :=
  let kept := tickers.filter fun t => t == cash || inScope t
  if kept.isEmpty then none
  else
    let share : α := 1 / Arith.ofNat kept.length
    some ((kept.filter (· ≠ cash)).foldl (fun t ticker => t.add ticker share) .empty)

end Allocation
end StrategyTree
