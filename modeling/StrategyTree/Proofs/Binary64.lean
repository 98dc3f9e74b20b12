import Mathlib.Order.Defs.Unbundled
import StrategyTree.Binary64
/-!
# The order of floating values

Compared the other way round, two floating values compare in reverse, and they compare at all
exactly if both are numbers. So of two values at most one is less than the other, and of two
numbers one is less or the other is at most as large.
-/
namespace StrategyTree.Binary64

open Float.Model (UnpackedFloat)

/-! ### Comparison -/

theorem sign_swap (s t : UnpackedFloat.Sign) : (compare s t).swap = compare t s := by
  cases s <;> cases t <;> rfl

theorem magnitude_swap (e e' : Int) (m m' : Nat) :
    ((compare e e').then (compare m m')).swap = (compare e' e).then (compare m' m) := by
  have hexponent : compare e' e = (compare e e').swap := Std.OrientedCmp.eq_swap
  have hdigits : compare m' m = (compare m m').swap := Std.OrientedCmp.eq_swap
  rw [Ordering.swap_then, hexponent, hdigits]

theorem compare_swap (x y : UnpackedFloat) : y.compare x = (x.compare y).map Ordering.swap := by
  cases x with
  | notANumber => cases y <;> rfl
  | infinity s =>
      cases y with
      | infinity t => exact congrArg some (sign_swap s t).symm
      | _ => cases s <;> rfl
  | zero s =>
      cases y with
      | infinity t => cases t <;> rfl
      | finite t => cases t <;> rfl
      | _ => rfl
  | finite s m e =>
      cases y with
      | finite t m' e' =>
          have hmagnitude := magnitude_swap e e' m m'
          cases s <;> cases t
          case negative.negative => exact congrArg (fun o => some (Ordering.swap o)) hmagnitude.symm
          case positive.positive => exact congrArg some hmagnitude.symm
          all_goals rfl
      | infinity t => cases s <;> cases t <;> rfl
      | _ => cases s <;> rfl

/-- What is a number compares with every other number. -/
theorem isNaN_of_compare {x y : UnpackedFloat} (h : x.compare y = none) :
    x.isNaN = true ∨ y.isNaN = true := by
  cases x with
  | notANumber => exact .inl rfl
  | infinity s =>
      cases y with
      | notANumber => exact .inr rfl
      | _ => cases s <;> cases h
  | zero s =>
      cases y with
      | notANumber => exact .inr rfl
      | zero t => cases h
      | infinity t => cases t <;> cases h
      | finite t => cases t <;> cases h
  | finite s m e =>
      cases y with
      | notANumber => exact .inr rfl
      | zero t => cases s <;> cases h
      | infinity t => cases s <;> cases t <;> cases h
      | finite t => cases s <;> cases t <;> cases h

/-! ### Order -/

/-- How two values compare. What is not a number compares with nothing. -/
def compare? (x y : Binary64) : Option Ordering :=
  x.value.toModel.unpack.compare y.value.toModel.unpack

variable {x y : Binary64}

theorem compare?_swap (x y : Binary64) : y.compare? x = (x.compare? y).map Ordering.swap :=
  compare_swap _ _

theorem lt_iff : x < y ↔ x.compare? y = some .lt := by
  change decide (x.value.toModel < y.value.toModel) = true ↔ _
  rw [decide_eq_true_iff]
  exact beq_iff_eq

theorem le_iff : x ≤ y ↔ ∃ o, x.compare? y = some o ∧ o.isLE = true := by
  change decide (x.value.toModel ≤ y.value.toModel) = true ↔ _
  rw [decide_eq_true_iff]
  change (x.compare? y).any (·.isLE) = true ↔ _
  cases x.compare? y <;> simp

theorem lt_asymm (h : x < y) : ¬y < x := by
  rw [lt_iff] at h ⊢
  rw [compare?_swap, h]
  decide

instance asymm : Std.Asymm (α := Binary64) (· < ·) :=
  ⟨fun _ _ => lt_asymm⟩

/-- Of two numbers one is less, or the other is at most as large. -/
theorem not_lt_iff (hx : x.value.isNaN = false) (hy : y.value.isNaN = false) :
    ¬x < y ↔ y ≤ x := by
  cases hxy : x.compare? y with
  | none =>
      rcases isNaN_of_compare hxy with hnan | hnan
      · cases hx.symm.trans hnan
      · cases hy.symm.trans hnan
  | some o =>
      rw [lt_iff, le_iff, compare?_swap x y, hxy]
      cases o <;> simp

theorem not_le_iff (hx : x.value.isNaN = false) (hy : y.value.isNaN = false) :
    ¬x ≤ y ↔ y < x := by
  rw [← not_lt_iff hy hx, Decidable.not_not]

theorem isNaN_of_isFinite (h : Arith.isFinite x = true) : x.value.isNaN = false := by
  change x.value.toModel.unpack.isFinite = true at h
  change x.value.toModel.unpack.isNaN = false
  cases hx : x.value.toModel.unpack with
  | notANumber =>
      rw [hx] at h
      cases h
  | _ => rfl

end StrategyTree.Binary64
