import StrategyTree.Arith
import StrategyTree.Table
/-!
# JSON values

Objects list their members in ascending key order, each key once. Whole numbers
and other numbers are kept apart, because a document that asks for a count does
not take `2.0`.
-/
namespace StrategyTree

/-- A JSON value whose fractional numbers are of type `α`. -/
inductive Json (α : Type) where
  | null
  | bool (value : Bool)
  | integer (value : Int)
  | real (value : α)
  | text (value : String)
  | array (items : List (Json α))
  | object (members : List (String × Json α))

namespace Json

variable {α : Type}

instance : Inhabited (Json α) := ⟨null⟩

/-- The object with these members; of two members with one key the later wins. -/
def ofMembers (members : List (String × Json α)) : Json α :=
  object (Table.ofList members).entries

def get? : Json α → String → Option (Json α)
  | object members, key => members.lookup key
  | _, _ => none

def text? : Json α → Option String
  | text s => some s
  | _ => none

def number? [Arith α] : Json α → Option α
  | integer n => some (Arith.ofInt n)
  | real x => some x
  | _ => none

def integer? : Json α → Option Int
  | integer n => some n
  | _ => none

def array? : Json α → Option (List (Json α))
  | array items => some items
  | _ => none

def object? : Json α → Option (List (String × Json α))
  | object members => some members
  | _ => none

mutual

/-- How many objects are nested in a value. -/
def nesting : Json α → Nat
  | array items => nestingItems items
  | object members => nestingMembers members + 1
  | _ => 0

def nestingItems : List (Json α) → Nat
  | [] => 0
  | v :: rest => max v.nesting (nestingItems rest)

def nestingMembers : List (String × Json α) → Nat
  | [] => 0
  | (_, v) :: rest => max v.nesting (nestingMembers rest)

end

end Json
end StrategyTree
