/-!
# Arithmetic of prices and weights

Every figure of this library is computed over a type `α` with the operations of
`Arith`. Binary floating point is one instance and runs the program; exact
rational numbers are another. A law proved for every `Arith` depends only on
which operations are applied and in which order.
-/
namespace StrategyTree

/-- The operations that indicators, allocations and equity curves are computed with. -/
class Arith (α : Type) extends Add α, Sub α, Mul α, Div α, Neg α, LT α, LE α, BEq α,
    OfScientific α where
  decLt : (a b : α) → Decidable (a < b)
  decLe : (a b : α) → Decidable (a ≤ b)
  ofNat : Nat → α
  abs : α → α
  sqrt : α → α
  /-- A non-negative base raised to any exponent. -/
  pow : α → α → α
  /-- The larger of two numbers, and of equal ones the second. An operand that is not a number
  gives way to the other. -/
  larger : α → α → α
  /-- The smaller of two numbers, and of equal ones the second. An operand that is not a number
  gives way to the other. -/
  smaller : α → α → α
  /-- Whether the value is neither infinite nor undefined. -/
  isFinite : α → Bool
  /-- The total order by which values are ranked. -/
  order : α → α → Ordering

variable {α : Type} [Arith α]

instance (priority := low) Arith.decidableLt (a b : α) : Decidable (a < b) := Arith.decLt a b
instance (priority := low) Arith.decidableLe (a b : α) : Decidable (a ≤ b) := Arith.decLe a b
instance (priority := low) Arith.literal (n : Nat) : OfNat α n := ⟨Arith.ofNat n⟩

namespace Arith

def ofInt : Int → α
  | .ofNat n => ofNat n
  | .negSucc n => -ofNat (n + 1)

/-- Sums are taken from the left. The empty sum is zero with a negative sign, so
that a sum of negative zeros keeps its sign. -/
def sum (xs : List α) : α :=
  xs.foldl (· + ·) (-0)

def reciprocal (x : α) : α :=
  1 / x

/-- The nearest point of the interval from zero to one. -/
def clampUnit (x : α) : α :=
  if x < 0 then 0 else if 1 < x then 1 else x

/-- The arithmetic mean, and zero for no values. -/
def mean (xs : List α) : α :=
  if xs.isEmpty then 0 else xs.foldl (· + ·) 0 / ofNat xs.length

end Arith

end StrategyTree
