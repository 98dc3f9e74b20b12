import StrategyTree.Document.Reader
import StrategyTree.Json.Reader
/-!
# Strategy documents as text

The text of a document is read from the left: each field, and each chain, is
read as soon as its value ends. So of two faults the one that comes first in the
text is told, even if what follows is no JSON at all. A field that appears twice
is refused, and fields of other names are skipped.
-/
namespace StrategyTree

variable {α : Type} [Arith α]

namespace Strategy

structure Draft (α : Type) where
  name : Option String := none
  description : Option (Option String) := none
  root : Option (Node α) := none
  chains : Option (Table (Node α)) := none

/-- The strategy of a draft, which must have a name and a root. -/
def Draft.complete (d : Draft α) : Read (Strategy α) := do
  return { name := ← .required d.name, description := d.description.join
           root := ← .required d.root, chains := d.chains.getD .empty }

namespace Source

open Json (dropSpace)

def value {β : Type} (levels : Nat) (read : Json α → Read β) (cs : List Char) :
    Read (β × List Char) := do
  let (v, rest) ← .required (Json.read? .keep levels cs)
  return (← read v, rest)

def key (cs : List Char) : Read (String × List Char) := do
  let (k, rest) ← .required (Json.readQuoted? .keep (dropSpace cs))
  return (k, ← .required (Json.readColon? rest))

/-- Reads chains up to the closing brace. Every chain takes one unit of `fuel`; as many
units as characters suffice. -/
def chainsFrom (levels : Nat) :
    Nat → Table (Node α) → List Char → Read (Table (Node α) × List Char)
  | 0, _, _ => .malformed
  | fuel + 1, chains, cs => do
      let (id, cs) ← key cs
      let (root, cs) ← value levels Node.ofJson cs
      let chains := chains.insert id root
      match dropSpace cs with
      | ',' :: rest => chainsFrom levels fuel chains rest
      | '}' :: rest => return (chains, rest)
      | _ => .malformed

def chains (levels : Nat) (cs : List Char) : Read (Table (Node α) × List Char) :=
  match dropSpace cs with
  | '{' :: rest =>
      match dropSpace rest with
      | '}' :: rest => .ok (.empty, rest)
      | rest => chainsFrom (levels - 1) rest.length .empty rest
  | _ => .malformed

def field (levels : Nat) (d : Draft α) (name : String) (cs : List Char) :
    Read (Draft α × List Char) :=
  match name with
  | "name" => do
      if d.name.isSome then .malformed
      let (x, rest) ← value (α := α) levels Json.readText cs
      return ({ d with name := some x }, rest)
  | "description" => do
      if d.description.isSome then .malformed
      let (x, rest) ← value (α := α) levels (Json.readNullable Json.readText) cs
      return ({ d with description := some x }, rest)
  | "root" => do
      if d.root.isSome then .malformed
      let (x, rest) ← value levels Node.ofJson cs
      return ({ d with root := some x }, rest)
  | "chains" => do
      if d.chains.isSome then .malformed
      let (x, rest) ← chains levels cs
      return ({ d with chains := some x }, rest)
  | _ => do
      let (_, rest) ← .required (Json.read? (α := α) .skip levels cs)
      return (d, rest)

/-- Reads fields up to the closing brace. Every field takes one unit of `fuel`; as many
units as characters suffice. -/
def fieldsFrom (levels : Nat) : Nat → Draft α → List Char → Read (Draft α × List Char)
  | 0, _, _ => .malformed
  | fuel + 1, d, cs => do
      let (name, cs) ← key cs
      let (d, cs) ← field levels d name cs
      match dropSpace cs with
      | ',' :: rest => fieldsFrom levels fuel d rest
      | '}' :: rest => return (d, rest)
      | _ => .malformed

/-- Reads the fields that are left of a document written as an array, in order. -/
def itemsFrom (levels : Nat) : List String → Draft α → List Char → Read (Draft α × List Char)
  | [], _, _ => .malformed
  | name :: names, d, cs => do
      let (d, cs) ← field levels d name cs
      match dropSpace cs with
      | ',' :: rest => itemsFrom levels names d rest
      | ']' :: rest => return (d, rest)
      | _ => .malformed

/-- Reads the object or the array at the front of a text. -/
def document (cs : List Char) : Read (Draft α × List Char) :=
  let levels := Json.maxNesting - 1
  match dropSpace cs with
  | '{' :: rest =>
      match dropSpace rest with
      | '}' :: rest => .ok ({}, rest)
      | rest => fieldsFrom levels rest.length {} rest
  | '[' :: rest =>
      match dropSpace rest with
      | ']' :: rest => .ok ({}, rest)
      | rest => itemsFrom levels ["name", "description", "root", "chains"] {} rest
  | _ => .malformed

end Source

def ofText (s : String) : Read (Strategy α) := do
  let (d, rest) ← Source.document s.toList
  let strategy ← d.complete
  if (Json.dropSpace rest).isEmpty then return strategy else .malformed

end Strategy
end StrategyTree
