import StrategyTree.Arith
/-!
# Floating values with signed undefined results

The arithmetic that runs the program is binary floating point of 64 bits. An
operation without a numeric result, such as infinity less infinity, yields a value
that is not a number. Such a value has a sign, which no comparison shows but the
total order does: it puts a negative one before all numbers and a positive one
behind them.
-/
namespace StrategyTree

structure Binary64 where
  value : Float
  /-- Whether the sign of a value that is not a number is positive. It is `false` for numbers,
  whose sign is part of the value. -/
  positive : Bool

namespace Binary64

/-- A floating value as it is read. What is not a number is positive. -/
def ofFloat (x : Float) : Binary64 :=
  ⟨x, x.isNaN⟩

/-- The result of an operation. What is not a number keeps the sign of the first operand that
is not a number either, and is negative if both are numbers. -/
def result (x y : Binary64) (r : Float) : Binary64 :=
  ⟨r, r.isNaN && if x.value.isNaN then x.positive else y.positive⟩

/-- The sign changes also where the value is not a number. -/
def negate (x : Binary64) : Binary64 :=
  ⟨-x.value, x.value.isNaN && !x.positive⟩

/-- The distance from zero is positive also where it is not a number. -/
def magnitude (x : Binary64) : Binary64 :=
  ⟨x.value.abs, x.value.isNaN⟩

/-- The position in the total order: negative values by falling magnitude, then negative zero,
positive zero and positive values. What is not a number comes first or last. -/
def rank (x : Binary64) : Nat :=
  if x.value.isNaN then if x.positive then Nat.pow 2 64 else 0
  else
    let bits := x.value.toBits.toNat
    if bits < Nat.pow 2 63 then Nat.pow 2 63 + bits else Nat.pow 2 64 - 1 - bits

instance arith : Arith Binary64 where
  add x y := result x y (x.value + y.value)
  sub x y := result x y (x.value - y.value)
  mul x y := result x y (x.value * y.value)
  div x y := result x y (x.value / y.value)
  neg := negate
  lt x y := x.value < y.value
  le x y := x.value ≤ y.value
  beq x y := x.value == y.value
  ofScientific digits negative places := ⟨Float.ofScientific digits negative places, false⟩
  decLt x y := Float.decLt x.value y.value
  decLe x y := Float.decLe x.value y.value
  ofNat n := ⟨Float.ofNat n, false⟩
  abs := magnitude
  sqrt x := result x x x.value.sqrt
  pow x y := result x y (x.value.pow y.value)
  larger x y := if y.value < x.value || y.value.isNaN then x else y
  smaller x y := if x.value < y.value || y.value.isNaN then x else y
  isFinite x := x.value.isFinite
  order x y := compare x.rank y.rank

end Binary64
end StrategyTree
