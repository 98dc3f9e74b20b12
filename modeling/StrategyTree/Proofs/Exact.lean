import Mathlib.Data.NNRat.Defs
import Mathlib.Algebra.Order.Ring.Rat
import StrategyTree.Arith
/-!
# Exact arithmetic

The figures of the library over the rational numbers. Square roots and powers are
not rational in general, so any functions may stand for them; what is proved of
this arithmetic holds for all.
-/
namespace StrategyTree

/-- A rational number, for one choice of the square root and the power. -/
structure Exact (sqrt : ℚ → ℚ≥0) (pow : ℚ → ℚ → ℚ) where
  value : ℚ
deriving DecidableEq

namespace Exact

variable {sqrt : ℚ → ℚ≥0} {pow : ℚ → ℚ → ℚ}

instance arith : Arith (Exact sqrt pow) where
  add x y := ⟨x.value + y.value⟩
  sub x y := ⟨x.value - y.value⟩
  mul x y := ⟨x.value * y.value⟩
  div x y := ⟨x.value / y.value⟩
  neg x := ⟨-x.value⟩
  lt x y := x.value < y.value
  le x y := x.value ≤ y.value
  beq x y := x.value == y.value
  ofScientific digits negative places := ⟨OfScientific.ofScientific digits negative places⟩
  decLt x y := inferInstanceAs (Decidable (x.value < y.value))
  decLe x y := inferInstanceAs (Decidable (x.value ≤ y.value))
  ofNat n := ⟨n⟩
  abs x := ⟨|x.value|⟩
  sqrt x := ⟨sqrt x.value⟩
  pow x y := ⟨pow x.value y.value⟩
  larger x y := if y.value < x.value then x else y
  smaller x y := if x.value < y.value then x else y
  isFinite _ := true
  order x y := compare x.value y.value

variable {x y : Exact sqrt pow}

@[simp] theorem value_add : (x + y).value = x.value + y.value := rfl
@[simp] theorem value_sub : (x - y).value = x.value - y.value := rfl
@[simp] theorem value_mul : (x * y).value = x.value * y.value := rfl
@[simp] theorem value_div : (x / y).value = x.value / y.value := rfl
@[simp] theorem value_neg : (-x).value = -x.value := rfl
@[simp] theorem value_ofNat (n : Nat) : (Arith.ofNat n : Exact sqrt pow).value = n := rfl
@[simp] theorem value_zero : (0 : Exact sqrt pow).value = 0 := rfl
@[simp] theorem value_one : (1 : Exact sqrt pow).value = 1 := rfl

theorem value_inj : x.value = y.value ↔ x = y := by
  rw [mk.injEq]

theorem isFinite_eq (x : Exact sqrt pow) : Arith.isFinite x = true := rfl
theorem lt_iff : x < y ↔ x.value < y.value := Iff.rfl
theorem le_iff : x ≤ y ↔ x.value ≤ y.value := Iff.rfl

@[simp] theorem value_larger : (Arith.larger x y).value = max x.value y.value := by
  change (if y.value < x.value then x else y).value = _
  split
  · next h => exact (max_eq_left h.le).symm
  · next h => exact (max_eq_right (not_lt.1 h)).symm

/-- Sums from the left are sums. -/
theorem value_sum (xs : List (Exact sqrt pow)) :
    (Arith.sum xs).value = (xs.map Exact.value).sum := by
  have key (acc : Exact sqrt pow) :
      (xs.foldl (· + ·) acc).value = acc.value + (xs.map Exact.value).sum := by
    induction xs generalizing acc with
    | nil => simp
    | cons x rest ih => simp [ih, add_assoc]
  rw [Arith.sum, key]
  simp

/-- The nearest point of the unit interval lies in it. -/
theorem clampUnit_mem (x : Exact sqrt pow) :
    0 ≤ (Arith.clampUnit x).value ∧ (Arith.clampUnit x).value ≤ 1 := by
  unfold Arith.clampUnit
  split
  · simp
  · next h =>
      split
      · simp
      · next h' => exact ⟨not_lt.1 h, not_lt.1 h'⟩

end Exact
end StrategyTree
