import StrategyTree.Json.Number
/-!
# Reading JSON text

Arrays and objects may be nested 127 deep. A value that is skipped is checked for
its shape only: it may be nested deeper, and its numbers and escapes may be out
of range.
-/
namespace StrategyTree.Json

variable {α : Type} [Arith α]

/-- How deep arrays and objects may be nested. -/
def maxNesting : Nat := 127

/-- Whether a value is read for its content or only skipped. -/
inductive Purpose where
  | keep
  | skip
deriving DecidableEq

def isSpace (c : Char) : Bool :=
  c == ' ' || c == '\n' || c == '\t' || c == '\r'

def dropSpace (cs : List Char) : List Char :=
  cs.dropWhile isSpace

def hexDigit? (c : Char) : Option Nat :=
  let n := c.toNat
  if 48 ≤ n ∧ n ≤ 57 then some (n - 48)
  else if 97 ≤ n ∧ n ≤ 102 then some (n - 87)
  else if 65 ≤ n ∧ n ≤ 70 then some (n - 55)
  else none

def hex4? (a b c d : Char) : Option Nat := do
  let a ← hexDigit? a
  let b ← hexDigit? b
  let c ← hexDigit? c
  let d ← hexDigit? d
  some (((a * 16 + b) * 16 + c) * 16 + d)

/-- The character that a one-letter escape stands for. -/
def escape? : Char → Option Char
  | '"' => some '"'
  | '\\' => some '\\'
  | '/' => some '/'
  | 'b' => some '\x08'
  | 'f' => some '\x0c'
  | 'n' => some '\n'
  | 'r' => some '\r'
  | 't' => some '\t'
  | _ => none

/-- The first and the second half of a character beyond 16 bits. -/
def isHighHalf (n : Nat) : Bool := 0xD800 ≤ n && n ≤ 0xDBFF
def isLowHalf (n : Nat) : Bool := 0xDC00 ≤ n && n ≤ 0xDFFF

/-- The rest of a text after its opening quote. A half of a character alone is refused
unless the text is skipped. -/
def readString? (purpose : Purpose) : List Char → Option (List Char × List Char)
  | '"' :: rest => some ([], rest)
  | '\\' :: 'u' :: a :: b :: c :: d :: rest => do
      let unit ← hex4? a b c d
      if purpose = .skip then
        readString? purpose rest
      else if isHighHalf unit then
        match rest with
        | '\\' :: 'u' :: e :: f :: g :: h :: rest =>
            let low ← hex4? e f g h
            if isLowHalf low then
              let r ← readString? purpose rest
              some (Char.ofNat (0x10000 + (unit - 0xD800) * 0x400 + (low - 0xDC00)) :: r.1, r.2)
            else none
        | _ => none
      else if isLowHalf unit then none
      else
        let r ← readString? purpose rest
        some (Char.ofNat unit :: r.1, r.2)
  | '\\' :: c :: rest => do
      let c ← escape? c
      let r ← readString? purpose rest
      some (c :: r.1, r.2)
  | c :: rest =>
      if c.toNat < 0x20 then none
      else do
        let r ← readString? purpose rest
        some (c :: r.1, r.2)
  | [] => none

def readQuoted? (purpose : Purpose) : List Char → Option (String × List Char)
  | '"' :: rest => (readString? purpose rest).map fun r => (String.ofList r.1, r.2)
  | _ => none

/-- Removes a word from the front. -/
def readWord? : List Char → List Char → Option (List Char)
  | [], cs => some cs
  | c :: word, d :: cs => if c = d then readWord? word cs else none
  | _ :: _, [] => none

def readColon? (cs : List Char) : Option (List Char) :=
  match dropSpace cs with
  | ':' :: rest => some rest
  | _ => none

/-- Reads a number. One that is skipped may be out of range. -/
def readNumber? (purpose : Purpose) (cs : List Char) : Option (Json α × List Char) := do
  let (n, rest) ← Numeral.read? cs
  match purpose with
  | .skip => some (null, rest)
  | .keep => (n.value?).map fun v => (v, rest)

mutual

/-- Reads a value at the front, with `levels` of nesting left. Every call takes one unit of
`fuel`; twice as many units as characters suffice. -/
def readValue? (purpose : Purpose) : Nat → Nat → List Char → Option (Json α × List Char)
  | 0, _, _ => none
  | fuel + 1, levels, cs =>
      match dropSpace cs with
      | [] => none
      | 'n' :: rest => (readWord? ['u', 'l', 'l'] rest).map fun r => (null, r)
      | 't' :: rest => (readWord? ['r', 'u', 'e'] rest).map fun r => (bool true, r)
      | 'f' :: rest => (readWord? ['a', 'l', 's', 'e'] rest).map fun r => (bool false, r)
      | '"' :: rest => (readString? purpose rest).map fun r => (text (String.ofList r.1), r.2)
      | '[' :: rest =>
          if levels = 0 ∧ purpose = .keep then none
          else
            match dropSpace rest with
            | ']' :: rest => some (array [], rest)
            | rest => (readItems? purpose fuel (levels - 1) rest).map fun r => (array r.1, r.2)
      | '{' :: rest =>
          if levels = 0 ∧ purpose = .keep then none
          else
            match dropSpace rest with
            | '}' :: rest => some (ofMembers [], rest)
            | rest =>
                (readMembers? purpose fuel (levels - 1) rest).map fun r => (ofMembers r.1, r.2)
      | cs => readNumber? purpose cs

/-- Reads the items of an array up to its closing bracket. -/
def readItems? (purpose : Purpose) : Nat → Nat → List Char → Option (List (Json α) × List Char)
  | 0, _, _ => none
  | fuel + 1, levels, cs => do
      let (v, cs) ← readValue? purpose fuel levels cs
      match dropSpace cs with
      | ']' :: rest => some ([v], rest)
      | ',' :: rest =>
          let (vs, rest) ← readItems? purpose fuel levels rest
          some (v :: vs, rest)
      | _ => none

/-- Reads the members of an object up to its closing brace. -/
def readMembers? (purpose : Purpose) :
    Nat → Nat → List Char → Option (List (String × Json α) × List Char)
  | 0, _, _ => none
  | fuel + 1, levels, cs => do
      let (key, cs) ← readQuoted? purpose (dropSpace cs)
      let cs ← readColon? cs
      let (v, cs) ← readValue? purpose fuel levels cs
      match dropSpace cs with
      | '}' :: rest => some ([(key, v)], rest)
      | ',' :: rest =>
          let (vs, rest) ← readMembers? purpose fuel levels rest
          some ((key, v) :: vs, rest)
      | _ => none

end

def read? (purpose : Purpose) (levels : Nat) (cs : List Char) : Option (Json α × List Char) :=
  readValue? purpose (2 * cs.length + 2) levels cs

/-- The value that a whole text denotes. -/
def ofText? (s : String) : Option (Json α) := do
  let (v, rest) ← read? .keep maxNesting s.toList
  if (dropSpace rest).isEmpty then some v else none

end StrategyTree.Json
