import StrategyTree.Decimal.Digits
/-!
# Numbers in plain text

A number is written as decimal digits with an optional sign, point and exponent.
Digits may be missing before the point or after it, but not on both sides. The
words for infinity and for what is not a number are read in any case of letters.
The value is the floating value nearest to what is written.
-/
namespace StrategyTree.Decimal

/-- Why a text is no number. -/
inductive NumberFault where
  | empty
  | malformed
deriving DecidableEq, Repr

def NumberFault.message : NumberFault → String
  | empty => "cannot parse float from empty string"
  | malformed => "invalid float literal"

inductive Unsigned where
  | undefined
  | infinite
  | decimal (digits : List Char) (exponent : Int)
deriving DecidableEq, Repr

namespace Unsigned

def splitSign : List Char → Bool × List Char
  | '-' :: rest => (true, rest)
  | '+' :: rest => (false, rest)
  | cs => (false, cs)

/-- The fraction at the front, which is empty without a point. -/
def splitFraction : List Char → List Char × List Char
  | '.' :: rest => splitDigits rest
  | cs => ([], cs)

def exponent? : List Char → Option Int
  | [] => some 0
  | c :: rest =>
      if c = 'e' ∨ c = 'E' then
        let (negative, digits) := splitSign rest
        if digits.isEmpty || !digits.all Char.isDigit then none
        else some (if negative then -(value digits : Int) else value digits)
      else none

/-- Reads digits with a point and an exponent. -/
def decimal? (cs : List Char) : Option Unsigned := do
  let (whole, cs) := splitDigits cs
  let (fraction, cs) := splitFraction cs
  if whole.isEmpty && fraction.isEmpty then none
  let e ← exponent? cs
  some (decimal (whole ++ fraction) (e - fraction.length))

def ofChars? (cs : List Char) : Option Unsigned :=
  match String.ofList (cs.map Char.toLower) with
  | "nan" => some undefined
  | "inf" | "infinity" => some infinite
  | _ => decimal? cs

/-- Numbers with more than this many digits before the point are infinite. -/
def mostPlaces : Int := 310

/-- Numbers with more than this many zeros between the point and their digits are zero. -/
def mostZeros : Int := 330

def toFloat : Unsigned → Float
  | undefined => 0.0 / 0.0
  | infinite => 1.0 / 0.0
  | decimal cs e =>
      let n := value cs
      let places := (digits n).length + e
      if n = 0 ∨ places < -mostZeros then 0
      else if mostPlaces < places then 1.0 / 0.0
      else Float.ofScientific n (e < 0) e.natAbs

end Unsigned

def float? (s : String) : Except NumberFault Float :=
  if s.isEmpty then .error .empty
  else
    let (negative, cs) := Unsigned.splitSign s.toList
    match Unsigned.ofChars? cs with
    | some n => .ok (if negative then -n.toFloat else n.toFloat)
    | none => .error .malformed

/-- Reads a whole number of 64 bits with a sign. -/
def integer? (s : String) : Option Int :=
  let (negative, digits) := Unsigned.splitSign s.toList
  let n : Int := if negative then -(value digits : Int) else value digits
  if digits.isEmpty || !digits.all Char.isDigit then none
  else if -Int.pow 2 63 ≤ n ∧ n < Int.pow 2 63 then some n
  else none

end StrategyTree.Decimal
