import StrategyTree.Failure
import StrategyTree.Json.Basic
/-!
# Values in documents

How the parts of a document read: texts, numbers, lists, records and variants. A
record may be written as an object or as the array of its fields in order. A
variant is written as its name, or as an object with the name as its only key.
Places differ in what they take for no content; those inside a node are loose.
-/
namespace StrategyTree

abbrev Read := Except DocumentFault

/-- The members of an object in ascending key order. -/
abbrev Members (α : Type) := List (String × Json α)

variable {α β : Type}

def Read.malformed : Read β := .error .malformed

/-- What is present reads as itself. -/
def Read.required : Option β → Read β
  | some x => .ok x
  | none => .malformed

namespace Json

def readText : Json α → Read String
  | text s => .ok s
  | _ => .malformed

/-- Reads a number, which may be written as an integer. -/
def readNumber [Arith α] (v : Json α) : Read α :=
  .required v.number?

/-- Reads an integer of at most `limit`. -/
def readIntegerTo (limit : Int) : Json α → Read Int
  | integer n => if n ≤ limit then .ok n else .malformed
  | _ => .malformed

/-- Reads a window, a signed number of 64 bits. -/
def readWindow (v : Json α) : Read Int :=
  v.readIntegerTo (Int.pow 2 63 - 1)

/-- Reads a count of at most `limit`. -/
def readCountTo (limit : Nat) : Json α → Read Nat
  | integer (.ofNat n) => if n ≤ limit then .ok n else .malformed
  | _ => .malformed

def readCount (v : Json α) : Read Nat :=
  v.readCountTo (Nat.pow 2 64 - 1)

def readList (item : Json α → Read β) : Json α → Read (List β)
  | array items => items.mapM item
  | _ => .malformed

/-- Reads a value that may be absent as `null`. -/
def readNullable (read : Json α → Read β) : Json α → Read (Option β)
  | null => .ok none
  | v => some <$> read v

/-- The members of a record with the given field names. -/
def readRecord (names : List String) : Json α → Read (Members α)
  | object members => .ok members
  | array items => if items.length ≤ names.length then .ok (names.zip items) else .malformed
  | _ => .malformed

/-- The name of a variant and what is written with it. -/
def readVariant : Json α → Read (String × Option (Json α))
  | text s => .ok (s, none)
  | object [(name, content)] => .ok (name, some content)
  | _ => .malformed

/-- Reads a variant without content. Beside its name may stand `null`, and in a loose place
an empty object too. -/
def readUnit (loose : Bool) (ofName? : String → Option β) (v : Json α) : Read β := do
  match ← v.readVariant with
  | (name, none) | (name, some null) => .required (ofName? name)
  | (name, some (object [])) => if loose then .required (ofName? name) else .malformed
  | _ => .malformed

/-- The members of the record beside the name of a variant. Only in a loose place may the
record be a list of fields. -/
def readContent (loose : Bool) (names : List String) : Json α → Read (Members α)
  | object members => .ok members
  | v => if loose then v.readRecord names else .malformed

end Json

namespace Members

def optional (members : Members α) (key : String) (read : Json α → Read β) : Read (Option β) :=
  match members.lookup key with
  | some v => some <$> read v
  | none => .ok none

def required (members : Members α) (key : String) (read : Json α → Read β) : Read β := do
  .required (← members.optional key read)

def withDefault (members : Members α) (key : String) (read : Json α → Read β) (default : β) :
    Read β := do
  return (← members.optional key read).getD default

end Members
end StrategyTree
