/-!
# Decimal digits

Whole numbers and their decimal digits, with the digits of ASCII.
-/
namespace StrategyTree.Decimal

def value (cs : List Char) : Nat :=
  cs.foldl (fun n c => n * 10 + (c.toNat - 48)) 0

@[simp] theorem value_nil : value [] = 0 := rfl

/-- A digit at the end is worth one, and those before it ten times as much as without it. -/
theorem value_concat (cs : List Char) (c : Char) :
    value (cs ++ [c]) = value cs * 10 + (c.toNat - 48) := by
  simp [value, List.foldl_append]

/-- The digits at the front, and what follows them. -/
def splitDigits (cs : List Char) : List Char × List Char :=
  (cs.takeWhile Char.isDigit, cs.dropWhile Char.isDigit)

/-- Splitting loses nothing. -/
theorem splitDigits_append (cs : List Char) : (splitDigits cs).1 ++ (splitDigits cs).2 = cs :=
  List.takeWhile_append_dropWhile

def digits (n : Nat) : List Char :=
  Nat.toDigits 10 n

def padDigits (width : Nat) (cs : List Char) : List Char :=
  List.replicate (width - cs.length) '0' ++ cs

end StrategyTree.Decimal
