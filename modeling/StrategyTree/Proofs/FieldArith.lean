import StrategyTree.Proofs.ExactArith
/-!
# Arithmetic of an ordered field

Laws of figures in which square roots and powers may be anything hold in every arithmetic whose
values are the numbers of an ordered field. The exact numbers are one such arithmetic, for any
choice of the square root and the power, and the real numbers are another.
-/
namespace StrategyTree

/-- The values of an arithmetic are numbers of a field and are computed with exactly. Nothing is
asked of square roots and powers. -/
class FieldArith (α : Type) (K : outParam Type) [Arith α] [Field K] [LinearOrder K] where
  /-- The number that a value is. -/
  number : α → K
  number_injective : Function.Injective number
  finite (x : α) : Arith.isFinite x = true
  number_ofNat (n : Nat) : number (Arith.ofNat n) = n
  number_neg (x : α) : number (-x) = -number x
  number_add (x y : α) : number (x + y) = number x + number y
  number_sub (x y : α) : number (x - y) = number x - number y
  number_mul (x y : α) : number (x * y) = number x * number y
  number_div (x y : α) : number (x / y) = number x / number y
  number_larger (x y : α) : number (Arith.larger x y) = max (number x) (number y)
  lt_iff {x y : α} : x < y ↔ number x < number y
  le_iff {x y : α} : x ≤ y ↔ number x ≤ number y

namespace FieldArith

section Numbers
variable {α K : Type} [Arith α] [Field K] [LinearOrder K] [FieldArith α K] {x : α}

@[simp] theorem number_zero : number (0 : α) = 0 :=
  (number_ofNat 0).trans Nat.cast_zero

@[simp] theorem number_one : number (1 : α) = 1 :=
  (number_ofNat 1).trans Nat.cast_one

theorem pos_iff : 0 < x ↔ 0 < number x := by
  rw [lt_iff, number_zero]

theorem nonpos_iff : x ≤ 0 ↔ number x ≤ 0 := by
  rw [le_iff, number_zero]

end Numbers

instance (sqrt : ℚ → ℚ≥0) (pow : ℚ → ℚ → ℚ) : FieldArith (Exact sqrt pow) ℚ where
  number := Exact.value
  number_injective := fun ⟨_⟩ ⟨_⟩ h => congrArg Exact.mk h
  finite := Exact.isFinite_eq
  number_ofNat _ := rfl
  number_neg _ := rfl
  number_add _ _ := rfl
  number_sub _ _ := rfl
  number_mul _ _ := rfl
  number_div _ _ := rfl
  number_larger _ _ := Exact.value_larger
  lt_iff := Iff.rfl
  le_iff := Iff.rfl

noncomputable instance : FieldArith RealNumber ℝ where
  number := RealNumber.value
  number_injective := fun ⟨_⟩ ⟨_⟩ h => congrArg RealNumber.mk h
  finite := RealNumber.isFinite_eq
  number_ofNat _ := rfl
  number_neg _ := rfl
  number_add _ _ := rfl
  number_sub _ _ := rfl
  number_mul _ _ := rfl
  number_div _ _ := rfl
  number_larger _ _ := rfl
  lt_iff := Iff.rfl
  le_iff := Iff.rfl

end FieldArith
end StrategyTree
