import Mathlib.Analysis.SpecialFunctions.Pow.Real
import Mathlib.Tactic.Linarith
import StrategyTree.Proofs.Exact
/-!
# Arithmetic that is exact on finite values

Laws of figures over an ordered field hold in every arithmetic whose finite values stand for
numbers of the field with which it computes exactly, whatever it does with values that are not
finite. The exact numbers are one such arithmetic; with one more value, which is not a number,
they are another; the real numbers with their square root are a third.
-/
namespace StrategyTree

/-- The finite values of an arithmetic stand for numbers of a field and are computed with
exactly. -/
class ExactArith (α : Type) (K : outParam Type) [Arith α] [Field K] [LinearOrder K] where
  /-- The number that a finite value stands for. -/
  number? : α → Option K
  /-- What stands for the square root. -/
  root : K → K
  root_nonneg (p : K) : 0 ≤ root p
  isFinite_eq (x : α) : Arith.isFinite x = (number? x).isSome
  number_ofNat (n : Nat) : number? (Arith.ofNat n) = some n
  number_ofScientific (digits : Nat) (negative : Bool) (places : Nat) :
    number? (OfScientific.ofScientific digits negative places) =
      some ((OfScientific.ofScientific digits negative places : ℚ) : K)
  number_neg {x : α} {p : K} : number? x = some p → number? (-x) = some (-p)
  number_abs {x : α} {p : K} : number? x = some p → number? (Arith.abs x) = some |p|
  number_sqrt {x : α} {p : K} : number? x = some p → 0 ≤ p →
    number? (Arith.sqrt x) = some (root p)
  number_add {x y : α} {p q : K} : number? x = some p → number? y = some q →
    number? (x + y) = some (p + q)
  number_sub {x y : α} {p q : K} : number? x = some p → number? y = some q →
    number? (x - y) = some (p - q)
  number_mul {x y : α} {p q : K} : number? x = some p → number? y = some q →
    number? (x * y) = some (p * q)
  number_div {x y : α} {p q : K} : number? x = some p → number? y = some q → q ≠ 0 →
    number? (x / y) = some (p / q)
  number_larger {x y : α} {p q : K} : number? x = some p → number? y = some q →
    number? (Arith.larger x y) = some (max p q)
  lt_iff {x y : α} {p q : K} : number? x = some p → number? y = some q → (x < y ↔ p < q)
  le_iff {x y : α} {p q : K} : number? x = some p → number? y = some q → (x ≤ y ↔ p ≤ q)
  beq_iff {x y : α} {p q : K} : number? x = some p → number? y = some q → ((x == y) = true ↔ p = q)

namespace ExactArith

variable {α K : Type} [Arith α] [Field K] [LinearOrder K] [ExactArith α K]

theorem number_literal (n : Nat) : number? (OfNat.ofNat n : α) = some (n : K) :=
  number_ofNat n

theorem number_zero : number? (0 : α) = some 0 := by
  simpa using number_literal (α := α) 0

theorem number_one : number? (1 : α) = some 1 := by
  simpa using number_literal (α := α) 1

theorem finite_iff {x : α} : Arith.isFinite x = true ↔ ∃ q, number? x = some q := by
  rw [isFinite_eq, Option.isSome_iff_exists]

/-- The number that a value stands for, and zero for a value that is not finite. -/
def number (x : α) : K :=
  (number? x).getD 0

theorem number?_eq {x : α} (h : Arith.isFinite x = true) : number? x = some (number x) := by
  obtain ⟨q, hq⟩ := finite_iff.1 h
  rw [number, hq]
  rfl

theorem number_of_eq {x : α} {p : K} (h : number? x = some p) : number x = p := by
  rw [number, h]
  rfl

/-- The comparison with zero is exact. -/
theorem beq_zero_iff {x : α} (hx : Arith.isFinite x = true) : (x == 0) = true ↔ number x = 0 :=
  beq_iff (number?_eq hx) number_zero

section Finite

variable {x y : α}

include K

theorem finite_ofNat (n : Nat) : Arith.isFinite (Arith.ofNat n : α) = true :=
  finite_iff.2 ⟨_, number_ofNat n⟩

theorem finite_add (hx : Arith.isFinite x = true) (hy : Arith.isFinite y = true) :
    Arith.isFinite (x + y) = true :=
  finite_iff.2 ⟨_, number_add (number?_eq hx) (number?_eq hy)⟩

theorem finite_sub (hx : Arith.isFinite x = true) (hy : Arith.isFinite y = true) :
    Arith.isFinite (x - y) = true :=
  finite_iff.2 ⟨_, number_sub (number?_eq hx) (number?_eq hy)⟩

theorem finite_mul (hx : Arith.isFinite x = true) (hy : Arith.isFinite y = true) :
    Arith.isFinite (x * y) = true :=
  finite_iff.2 ⟨_, number_mul (number?_eq hx) (number?_eq hy)⟩

theorem finite_div (hx : Arith.isFinite x = true) (hy : Arith.isFinite y = true)
    (h : number y ≠ 0) : Arith.isFinite (x / y) = true :=
  finite_iff.2 ⟨_, number_div (number?_eq hx) (number?_eq hy) h⟩

end Finite

instance (sqrt : ℚ → ℚ≥0) (pow : ℚ → ℚ → ℚ) : ExactArith (Exact sqrt pow) ℚ where
  number? x := some x.value
  root p := sqrt p
  root_nonneg p := (sqrt p).2
  isFinite_eq _ := rfl
  number_ofNat _ := rfl
  number_ofScientific _ _ _ := rfl
  number_neg := by rintro x _ ⟨⟩; rfl
  number_abs := by rintro x _ ⟨⟩; rfl
  number_sqrt := by rintro x _ ⟨⟩ _; rfl
  number_add := by rintro x y _ _ ⟨⟩ ⟨⟩; rfl
  number_sub := by rintro x y _ _ ⟨⟩ ⟨⟩; rfl
  number_mul := by rintro x y _ _ ⟨⟩ ⟨⟩; rfl
  number_div := by rintro x y _ _ ⟨⟩ ⟨⟩ _; rfl
  number_larger := by rintro x y _ _ ⟨⟩ ⟨⟩; rw [Exact.value_larger]
  lt_iff := by rintro x y _ _ ⟨⟩ ⟨⟩; exact Iff.rfl
  le_iff := by rintro x y _ _ ⟨⟩ ⟨⟩; exact Iff.rfl
  beq_iff {x y _ _} := by rintro ⟨⟩ ⟨⟩; exact beq_iff_eq (a := x.value) (b := y.value)

end ExactArith

/-- An exact number, or a value that is not a number. -/
inductive Extended (sqrt : ℚ → ℚ≥0) (pow : ℚ → ℚ → ℚ) where
  | finite (x : Exact sqrt pow)
  | undefined
deriving DecidableEq

namespace Extended

variable {sqrt : ℚ → ℚ≥0} {pow : ℚ → ℚ → ℚ}

def number? : Extended sqrt pow → Option ℚ
  | finite x => some x.value
  | undefined => none

/-- What is computed with an undefined value is undefined. -/
def lift (f : Exact sqrt pow → Exact sqrt pow) : Extended sqrt pow → Extended sqrt pow
  | finite x => finite (f x)
  | undefined => undefined

def lift₂ (f : Exact sqrt pow → Exact sqrt pow → Exact sqrt pow) :
    Extended sqrt pow → Extended sqrt pow → Extended sqrt pow
  | finite x, finite y => finite (f x y)
  | _, _ => undefined

/-- An undefined value compares with nothing. -/
def compares (r : Exact sqrt pow → Exact sqrt pow → Bool) :
    Extended sqrt pow → Extended sqrt pow → Bool
  | finite x, finite y => r x y
  | _, _ => false

/-- The larger or the smaller of two values, where an undefined one gives way. -/
def choose (f : Exact sqrt pow → Exact sqrt pow → Exact sqrt pow) :
    Extended sqrt pow → Extended sqrt pow → Extended sqrt pow
  | finite x, finite y => finite (f x y)
  | finite x, undefined => finite x
  | undefined, y => y

instance arith : Arith (Extended sqrt pow) where
  add := lift₂ (· + ·)
  sub := lift₂ (· - ·)
  mul := lift₂ (· * ·)
  div := lift₂ (· / ·)
  neg := lift (-·)
  lt x y := compares (fun x y => decide (x < y)) x y = true
  le x y := compares (fun x y => decide (x ≤ y)) x y = true
  beq := compares (· == ·)
  ofScientific digits negative places := finite (OfScientific.ofScientific digits negative places)
  decLt _ _ := inferInstanceAs (Decidable (_ = true))
  decLe _ _ := inferInstanceAs (Decidable (_ = true))
  ofNat n := finite (Arith.ofNat n)
  abs := lift Arith.abs
  sqrt := lift Arith.sqrt
  pow := lift₂ Arith.pow
  larger := choose Arith.larger
  smaller := choose Arith.smaller
  isFinite x := x.number?.isSome
  order
    | finite x, finite y => Arith.order x y
    | undefined, undefined => .eq
    | undefined, finite _ => .lt
    | finite _, undefined => .gt

theorem number?_eq_some {x : Extended sqrt pow} {p : ℚ} (h : x.number? = some p) :
    x = finite ⟨p⟩ := by
  cases x with
  | finite x => exact congrArg (fun q => finite ⟨q⟩) (Option.some.inj h)
  | undefined => cases h

instance : ExactArith (Extended sqrt pow) ℚ where
  number? := number?
  root p := sqrt p
  root_nonneg p := (sqrt p).2
  isFinite_eq _ := rfl
  number_ofNat _ := rfl
  number_ofScientific _ _ _ := rfl
  number_neg hx := by rw [number?_eq_some hx]; rfl
  number_abs hx := by rw [number?_eq_some hx]; rfl
  number_sqrt hx _ := by rw [number?_eq_some hx]; rfl
  number_add hx hy := by rw [number?_eq_some hx, number?_eq_some hy]; rfl
  number_sub hx hy := by rw [number?_eq_some hx, number?_eq_some hy]; rfl
  number_mul hx hy := by rw [number?_eq_some hx, number?_eq_some hy]; rfl
  number_div hx hy _ := by rw [number?_eq_some hx, number?_eq_some hy]; rfl
  number_larger {x y p q} hx hy := by
    rw [number?_eq_some hx, number?_eq_some hy]
    exact congrArg some Exact.value_larger
  lt_iff hx hy := by
    rw [number?_eq_some hx, number?_eq_some hy]
    exact decide_eq_true_iff
  le_iff hx hy := by
    rw [number?_eq_some hx, number?_eq_some hy]
    exact decide_eq_true_iff
  beq_iff {x y p q} hx hy := by
    rw [number?_eq_some hx, number?_eq_some hy]
    exact beq_iff_eq (a := p) (b := q)

end Extended

/-- A real number, with the square root and the power of the reals. -/
structure RealNumber where
  value : ℝ

namespace RealNumber

open Classical in
noncomputable instance arith : Arith RealNumber where
  add x y := ⟨x.value + y.value⟩
  sub x y := ⟨x.value - y.value⟩
  mul x y := ⟨x.value * y.value⟩
  div x y := ⟨x.value / y.value⟩
  neg x := ⟨-x.value⟩
  lt x y := x.value < y.value
  le x y := x.value ≤ y.value
  beq x y := decide (x.value = y.value)
  ofScientific digits negative places :=
    ⟨(OfScientific.ofScientific digits negative places : ℚ)⟩
  decLt _ _ := inferInstance
  decLe _ _ := inferInstance
  ofNat n := ⟨n⟩
  abs x := ⟨|x.value|⟩
  sqrt x := ⟨√x.value⟩
  pow x y := ⟨x.value ^ y.value⟩
  larger x y := ⟨max x.value y.value⟩
  smaller x y := ⟨min x.value y.value⟩
  isFinite _ := true
  order x y := compare x.value y.value

theorem isFinite_eq (x : RealNumber) : Arith.isFinite x = true := rfl

noncomputable instance : ExactArith RealNumber ℝ where
  number? x := some x.value
  root := Real.sqrt
  root_nonneg := Real.sqrt_nonneg
  isFinite_eq _ := rfl
  number_ofNat _ := rfl
  number_ofScientific _ _ _ := rfl
  number_neg := by rintro x _ ⟨⟩; rfl
  number_abs := by rintro x _ ⟨⟩; rfl
  number_sqrt := by rintro x _ ⟨⟩ _; rfl
  number_add := by rintro x y _ _ ⟨⟩ ⟨⟩; rfl
  number_sub := by rintro x y _ _ ⟨⟩ ⟨⟩; rfl
  number_mul := by rintro x y _ _ ⟨⟩ ⟨⟩; rfl
  number_div := by rintro x y _ _ ⟨⟩ ⟨⟩ _; rfl
  number_larger := by rintro x y _ _ ⟨⟩ ⟨⟩; rfl
  lt_iff := by rintro x y _ _ ⟨⟩ ⟨⟩; exact Iff.rfl
  le_iff := by rintro x y _ _ ⟨⟩ ⟨⟩; exact Iff.rfl
  beq_iff {x y _ _} := by rintro ⟨⟩ ⟨⟩; exact decide_eq_true_iff (p := x.value = y.value)

end RealNumber
end StrategyTree
