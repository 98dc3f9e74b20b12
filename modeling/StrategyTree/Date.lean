import StrategyTree.Decimal.Digits
import StrategyTree.Text.Blank
/-!
# Calendar dates

Dates of the Gregorian calendar, extended to all years from -262143 to 262142.
They are ordered by year, month and day, read from text as `year-month-day` and
written with two digits for month and day and at least four for the year.
-/
namespace StrategyTree

structure Date where
  year : Int
  month : Nat
  day : Nat
deriving DecidableEq, Repr

namespace Date

def before (a b : Date) : Prop :=
  a.year < b.year ∨ a.year = b.year ∧ (a.month < b.month ∨ a.month = b.month ∧ a.day < b.day)

instance : LT Date := ⟨before⟩
instance : LE Date := ⟨fun a b => ¬b < a⟩
instance decidableLt (a b : Date) : Decidable (a < b) := inferInstanceAs (Decidable (_ ∨ _))
instance decidableLe (a b : Date) : Decidable (a ≤ b) := inferInstanceAs (Decidable (¬_))

theorem lt_def {a b : Date} : a < b ↔ a.year < b.year ∨
    a.year = b.year ∧ (a.month < b.month ∨ a.month = b.month ∧ a.day < b.day) := Iff.rfl

theorem le_def {a b : Date} : a ≤ b ↔ ¬b < a := Iff.rfl

theorem lt_irrefl (a : Date) : ¬a < a := by
  simp [lt_def]

theorem le_antisymm {a b : Date} (hab : a ≤ b) (hba : b ≤ a) : a = b := by
  cases a
  cases b
  simp only [le_def, lt_def, mk.injEq] at *
  omega

/-- A year that is a multiple of 4 is leap, except the centuries that are no multiple of 400. -/
def isLeapYear (year : Int) : Bool :=
  year % 4 == 0 && (year % 100 != 0 || year % 400 == 0)

def daysInMonth (year : Int) (month : Nat) : Nat :=
  match month with
  | 2 => if isLeapYear year then 29 else 28
  | 4 | 6 | 9 | 11 => 30
  | _ => 31

def ofParts? (year : Int) (month day : Nat) : Option Date :=
  if -262143 ≤ year ∧ year ≤ 262142 ∧ 1 ≤ month ∧ month ≤ 12 ∧ 1 ≤ day ∧
      day ≤ daysInMonth year month then
    some ⟨year, month, day⟩
  else none

def next (d : Date) : Date :=
  if d.day < daysInMonth d.year d.month then { d with day := d.day + 1 }
  else if d.month < 12 then ⟨d.year, d.month + 1, 1⟩
  else ⟨d.year + 1, 1, 1⟩

/-- Reads at least one and at most `most` digits from the front. -/
def readDigits? (most : Nat) (cs : List Char) : Option (Nat × List Char) :=
  let digits := (cs.take most).takeWhile Char.isDigit
  if digits.isEmpty then none else some (Decimal.value digits, cs.drop digits.length)

/-- Reads a year. With a sign it may have any number of digits, without one at most four. -/
def readYear? (cs : List Char) : Option (Int × List Char) :=
  match cs with
  | '-' :: rest => (readDigits? rest.length rest).map fun r => (-(r.1 : Int), r.2)
  | '+' :: rest => (readDigits? rest.length rest).map fun r => ((r.1 : Int), r.2)
  | _ => (readDigits? 4 cs).map fun r => ((r.1 : Int), r.2)

def readHyphen? : List Char → Option (List Char)
  | '-' :: rest => some rest
  | _ => none

/-- Reads `year-month-day`. Month and day have one or two digits, and blanks may stand
before each number. -/
def ofChars? (cs : List Char) : Option Date := do
  let (year, cs) ← readYear? (Text.trimStart cs)
  let cs ← readHyphen? cs
  let (month, cs) ← readDigits? 2 (Text.trimStart cs)
  let cs ← readHyphen? cs
  let (day, cs) ← readDigits? 2 (Text.trimStart cs)
  if cs.isEmpty then ofParts? year month day else none

def ofText? (s : String) : Option Date :=
  ofChars? s.toList

/-- The digits of a number, with zeros in front up to `width`. -/
def padded (width n : Nat) : String :=
  String.ofList (Decimal.padDigits width (Decimal.digits n))

/-- Writes `year-month-day`. A year outside 0 to 9999 carries its sign. -/
def display (d : Date) : String :=
  let sign := if d.year < 0 then "-" else if 9999 < d.year then "+" else ""
  s!"{sign}{padded 4 d.year.natAbs}-{padded 2 d.month}-{padded 2 d.day}"

end Date
end StrategyTree
