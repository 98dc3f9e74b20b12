import StrategyTree.Decimal.Digits
import StrategyTree.Json.Basic
/-!
# Numbers in JSON text

A number without fraction and exponent that fits 64 bits is an integer. Any other
number is computed from its significant digits, as many as fit 64 bits, and a
power of ten, by one conversion and one multiplication or division. The result is
therefore not always the nearest one. A number beyond the range of the
arithmetic is refused.
-/
namespace StrategyTree.Json

variable {α : Type} [Arith α]

/-- The largest significand. Digits that would exceed it are dropped. -/
def maxSignificand : Nat := Nat.pow 2 64 - 1

/-- Appends digits to a significand until the next one would exceed the largest, and
tells how many were taken. -/
def appendDigits : Nat → List Char → Nat × Nat
  | n, [] => (n, 0)
  | n, c :: rest =>
      let next := n * 10 + (c.toNat - 48)
      if maxSignificand < next then (n, 0)
      else
        let r := appendDigits next rest
        (r.1, r.2 + 1)

/-- Divides by ten to the power `places`, in steps of at most 308 places. -/
def divideByPower (x : α) (places : Nat) : α :=
  if places ≤ 308 then x / Arith.ofNat (Nat.pow 10 places)
  else if x == 0 then x
  else divideByPower (x / Arith.ofNat (Nat.pow 10 308)) (places - 308)
termination_by places

/-- The significand times ten to the power `exponent`, if it is in range. -/
def scaled? (significand : Nat) (exponent : Int) : Option α :=
  let x : α := Arith.ofNat significand
  match exponent with
  | .negSucc n => some (divideByPower x (n + 1))
  | .ofNat n =>
      if n ≤ 308 then
        let y := x * Arith.ofNat (Nat.pow 10 n)
        if Arith.isFinite y then some y else none
      else if x == 0 then some x
      else none

/-- The digits of a number in JSON text. The fraction and the exponent may be absent. -/
structure Numeral where
  negative : Bool
  whole : List Char
  fraction : Option (List Char)
  exponent : Option (Bool × List Char)

namespace Numeral

/-- Reads the fraction, which needs a digit, if there is one. -/
def readFraction? : List Char → Option (Option (List Char) × List Char)
  | '.' :: rest =>
      let (digits, rest) := Decimal.splitDigits rest
      if digits.isEmpty then none else some (some digits, rest)
  | cs => some (none, cs)

/-- Reads the sign of an exponent, which is positive if it has none. -/
def exponentSign : List Char → Bool × List Char
  | '-' :: rest => (true, rest)
  | '+' :: rest => (false, rest)
  | cs => (false, cs)

/-- Reads the exponent, which needs a digit, if there is one. -/
def readExponent? (cs : List Char) : Option (Option (Bool × List Char) × List Char) :=
  match cs with
  | c :: rest =>
      if c == 'e' || c == 'E' then
        let (negative, rest) := exponentSign rest
        let (digits, rest) := Decimal.splitDigits rest
        if digits.isEmpty then none else some (some (negative, digits), rest)
      else some (none, cs)
  | [] => some (none, cs)

/-- Reads a number. A whole part of several digits does not start with a zero. -/
def read? (cs : List Char) : Option (Numeral × List Char) := do
  let (negative, cs) := match cs with
    | '-' :: rest => (true, rest)
    | _ => (false, cs)
  let (whole, cs) := Decimal.splitDigits cs
  if whole.isEmpty || (whole.head? == some '0' && 1 < whole.length) then none
  let (fraction, cs) ← readFraction? cs
  let (exponent, cs) ← readExponent? cs
  some (⟨negative, whole, fraction, exponent⟩, cs)

/-- Exponents beyond this are out of range unless the number is zero or they are negative. -/
def maxExponent : Nat := Nat.pow 2 31 - 1

/-- The value as a fractional number, if it is in range. -/
def real? (n : Numeral) : Option α := do
  let (significand, taken) := appendDigits 0 n.whole
  let dropped : Int := n.whole.length - taken
  let (significand, places) := appendDigits significand (n.fraction.getD [])
  let base := dropped - (places : Int)
  let size ← match n.exponent with
    | none => scaled? significand base
    | some (negative, digits) =>
        let e := Decimal.value digits
        if maxExponent < e then
          if significand ≠ 0 && !negative then none else some 0
        else scaled? significand (if negative then base - e else base + e)
  some (if n.negative then -size else size)

/-- The JSON value of a number, if it is in range. A negative zero is no integer. -/
def value? (n : Numeral) : Option (Json α) :=
  let (significand, taken) := appendDigits 0 n.whole
  if taken = n.whole.length && n.fraction.isNone && n.exponent.isNone then
    if !n.negative then some (integer significand)
    else if significand = 0 || Nat.pow 2 63 < significand then
      some (real (-(Arith.ofNat significand)))
    else some (integer (-(significand : Int)))
  else n.real?.map real

end Numeral
end StrategyTree.Json
