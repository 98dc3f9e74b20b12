import StrategyTree.Decimal.Digits
import StrategyTree.Document.Value
/-!
# Ladder slots

The slots of a ladder are written as one array under `ladder`, or each under its
own key `ladder-0`, `ladder-1` and so on. Gathering turns the second spelling
into the first. The number of a slot may be written with a plus sign or leading
zeros; of two keys with one number the later in key order wins.
-/
namespace StrategyTree

variable {α : Type}

namespace Ladder

def rungText? (key : String) : Option (List Char) :=
  if key.toList.take 7 = "ladder-".toList then some (key.toList.drop 7) else none

def isRung (key : String) : Bool :=
  (rungText? key).isSome

/-- Removes one plus sign from the front. -/
def withoutPlus : List Char → List Char
  | '+' :: rest => rest
  | cs => cs

def natOfDigits? (cs : List Char) : Option Nat :=
  let digits := withoutPlus cs
  if digits.isEmpty || !digits.all Char.isDigit then none
  else some (Decimal.value digits)

/-- The number of a slot, which has at most 64 bits. -/
def rungIndex? (key : String) : Option Nat := do
  let n ← natOfDigits? (← rungText? key)
  if n < Nat.pow 2 64 then some n else none

/-- The most slots that a ladder can be given. -/
def maxSlots : Nat := Nat.pow 2 58 - 1

/-- Puts a value at an index, after as many nulls as it takes to reach it. -/
def place (slots : List (Json α)) (index : Nat) (v : Json α) : List (Json α) :=
  if index < slots.length then slots.set index v
  else slots ++ List.replicate (index - slots.length) .null ++ [v]

/-- Puts the values of ladder keys into their slots, in key order. -/
def placeAll : List (Json α) → Members α → Read (List (Json α))
  | slots, [] => .ok slots
  | slots, (key, v) :: rest =>
      match rungIndex? key with
      | none => .error (.badLadderKey key)
      | some index =>
          if index < slots.length ∨ index < maxSlots then placeAll (place slots index v) rest
          else .error (.ladderTooLong key)

/-- Gathers ladder keys into one `ladder` array. The two spellings may not be mixed. -/
def gather (members : Members α) : Read (Members α) :=
  let rungs := members.filter fun m => isRung m.1
  if rungs.isEmpty then .ok members
  else if (members.lookup "ladder").isSome then .error .mixedLadder
  else do
    let slots ← placeAll [] rungs
    return Table.alterEntries "ladder" (fun _ => .array slots)
      (members.filter fun m => !isRung m.1)

end Ladder
end StrategyTree
