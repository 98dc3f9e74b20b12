import StrategyTree.Decimal.Digits
/-!
# Decimal text of binary fractions

A floating value is a whole number times a power of two. Its decimal text is
rounded from that exact value, with a half going to the even neighbour. Two forms
are written: with a fixed number of places, and with a fixed number of digits
before a power of ten.
-/
namespace StrategyTree.Decimal

/-- The whole number nearest to `num / den`; a half goes to the even neighbour. -/
def roundDiv (num den : Nat) : Nat :=
  let q := num / den
  let r := num % den
  if den < 2 * r || (2 * r == den && q % 2 == 1) then q + 1 else q

/-- Rounding moves a quotient by at most a half. -/
theorem roundDiv_near (num den : Nat) (h : 0 < den) :
    2 * num ≤ (2 * roundDiv num den + 1) * den ∧ (2 * roundDiv num den) * den ≤ 2 * num + den := by
  have hq := Nat.div_add_mod num den
  have hr := Nat.mod_lt num h
  have hc : den * (num / den) = (num / den) * den := Nat.mul_comm ..
  unfold roundDiv
  simp only [Bool.or_eq_true, decide_eq_true_eq, Bool.and_eq_true, beq_iff_eq]
  split <;> simp only [Nat.add_mul, Nat.mul_add, Nat.mul_assoc] <;> omega

/-- A non-negative binary fraction `num / den`. -/
structure Fraction where
  num : Nat
  den : Nat

def magnitude (x : Float) : Fraction :=
  let bits := x.toBits.toNat % Nat.pow 2 63
  let e := bits / Nat.pow 2 52
  let f := bits % Nat.pow 2 52
  if e = 0 then ⟨f, Nat.pow 2 1074⟩
  else if e < 1075 then ⟨f + Nat.pow 2 52, Nat.pow 2 (1075 - e)⟩
  else ⟨(f + Nat.pow 2 52) * Nat.pow 2 (e - 1075), 1⟩

def isNegative (x : Float) : Bool :=
  Nat.pow 2 63 ≤ x.toBits.toNat

/-- Digits with a point before the last `places` of them. -/
def withPoint (places : Nat) (cs : List Char) : String :=
  if places = 0 then String.ofList cs
  else
    let cs := padDigits (places + 1) cs
    String.ofList (cs.take (cs.length - places) ++ '.' :: cs.drop (cs.length - places))

/-- Names what has no digits, and otherwise puts the sign before the text of the
magnitude. -/
def signed (x : Float) (text : Fraction → String) : String :=
  if x.isNaN then "NaN"
  else
    (if isNegative x then "-" else "") ++
      (if x.isFinite then text (magnitude x) else "inf")

def fixed (places : Nat) (x : Float) : String :=
  signed x fun m => withPoint places (digits (roundDiv (m.num * Nat.pow 10 places) m.den))

/-- Whether ten to the power `k` is at most a fraction. -/
def powerAtMost (k : Int) (m : Fraction) : Bool :=
  match k with
  | .ofNat n => m.den * Nat.pow 10 n ≤ m.num
  | .negSucc n => m.den ≤ m.num * Nat.pow 10 (n + 1)

/-- The exponent of the greatest power of ten that is at most a positive fraction. -/
def decimalExponent (m : Fraction) : Int :=
  let k : Int := (digits m.num).length - (digits m.den).length
  if powerAtMost k m then k else k - 1

/-- A fraction times ten to the power `k`, rounded. -/
def roundScaled (k : Int) (m : Fraction) : Nat :=
  match k with
  | .ofNat n => roundDiv (m.num * Nat.pow 10 n) m.den
  | .negSucc n => roundDiv m.num (m.den * Nat.pow 10 (n + 1))

/-- The value with one digit before the point, `places` after it, and a power of ten. -/
def scientific (places : Nat) (x : Float) : String :=
  signed x fun m =>
    if m.num = 0 then withPoint places (List.replicate (places + 1) '0') ++ "e0"
    else
      let k := decimalExponent m
      let n := roundScaled (places - k) m
      let (n, k) := if n < Nat.pow 10 (places + 1) then (n, k) else (n / 10, k + 1)
      s!"{withPoint places (digits n)}e{k}"

end StrategyTree.Decimal
