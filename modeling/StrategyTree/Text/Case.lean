import StrategyTree.Text.Case.Tables
/-!
# Letter case

The upper and lower case of a text under the full case mappings of Unicode. A
capital sigma at the end of a word becomes a final sigma; every other mapping looks
at one character alone.
-/
namespace StrategyTree.Text

/-- Whether a number is in one of the ranges. -/
def inRanges (ranges : List (Nat × Nat)) (n : Nat) : Bool :=
  ranges.any fun r => r.1 ≤ n && n ≤ r.2

/-- The counterpart of a character in a table of runs, and the character itself without one. -/
def counterpart (runs : List (Nat × Nat × Nat × Int)) (c : Char) : Char :=
  let n := c.toNat
  let covers : Nat × Nat × Nat × Int → Bool := fun (first, last, step, _) =>
    first ≤ n && n ≤ last && (n - first) % step == 0
  match runs.find? covers with
  | some (_, _, _, shift) => Char.ofNat (n + shift).toNat
  | none => c

def upperChar (c : Char) : List Char :=
  match upperSequences.lookup c.toNat with
  | some codes => codes.map Char.ofNat
  | none => [counterpart upperRuns c]

def upper (s : String) : String :=
  String.ofList (s.toList.flatMap upperChar)

/-- The lower case of a character that is no capital sigma. Only the capital I with a dot has
a sequence. -/
def lowerChar (c : Char) : List Char :=
  if c.toNat = 0x130 then ['i', Char.ofNat 0x307] else [counterpart lowerRuns c]

/-- Whether the first character that matters for case has one. -/
def startsCased (cs : List Char) : Bool :=
  match cs.dropWhile fun c => inRanges caseIgnorableRanges c.toNat with
  | c :: _ => inRanges casedRanges c.toNat
  | [] => false

/-- The lower case of a text, given the characters before it, the last one first. -/
def lowerFrom (before : List Char) : List Char → List Char
  | [] => []
  | c :: rest =>
      let lowered :=
        if c.toNat = 0x3A3 then
          [Char.ofNat (if startsCased before && !startsCased rest then 0x3C2 else 0x3C3)]
        else lowerChar c
      lowered ++ lowerFrom (c :: before) rest

def lower (s : String) : String :=
  String.ofList (lowerFrom [] s.toList)

end StrategyTree.Text
