import StrategyTree.Indicator.Compute
/-!
# Indicator cache

Each series of a run is computed when it is first asked for and kept. What the
cache answers is what the matrix would answer.
-/
namespace StrategyTree

variable {α : Type} [Arith α]

/-- The series computed so far, by ticker and indicator. -/
structure IndicatorCache (α : Type) where
  entries : List ((String × Indicator) × Series α)

namespace IndicatorCache

def empty : IndicatorCache α := ⟨[]⟩

def find? (c : IndicatorCache α) (ticker : String) (i : Indicator) : Option (Series α) :=
  c.entries.lookup (ticker, i)

/-- The series of an indicator, computed on the first request. -/
def series (m : PriceMatrix α) (ticker : String) (i : Indicator) (c : IndicatorCache α) :
    Series α × IndicatorCache α :=
  match c.find? ticker i with
  | some xs => (xs, c)
  | none =>
      let xs := m.indicator ticker i
      (xs, ⟨((ticker, i), xs) :: c.entries⟩)

def value (m : PriceMatrix α) (ticker : String) (i : Indicator) (day : Nat)
    (c : IndicatorCache α) : Option α × IndicatorCache α :=
  let r := c.series m ticker i
  (r.1.at? day, r.2)

end IndicatorCache

/-- A computation that reads indicators through the cache and may fail. -/
abbrev Measured (α : Type) := ExceptT Failure (StateM (IndicatorCache α))

end StrategyTree
