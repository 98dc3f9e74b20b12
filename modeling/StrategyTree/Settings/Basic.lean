import StrategyTree.Binary64
import StrategyTree.Date
import StrategyTree.Decimal.Reader
import StrategyTree.Table
import StrategyTree.Text.Case
/-!
# Settings

Settings are lines of text. A line in brackets opens a section, and every other
line sets a key of the open section. A section may be opened again, and of two
values for one key the later holds. Names of sections and keys are written in any
case of letters. A value that does not have the form that is asked for counts as
absent.
-/
namespace StrategyTree

/-- The values of the keys of each section. A key can be set without a value. -/
structure Settings where
  sections : Table (Table (Option String))
deriving DecidableEq

namespace Settings

inductive Line where
  | blank
  | header (name : String)
  | entry (key : String) (value : Option String)
deriving DecidableEq, Repr

/-- A comment reaches from its sign to the end of the line. -/
def startsComment (c : Char) : Bool :=
  c == ';' || c == '#'

def isDelimiter (c : Char) : Bool :=
  c == '=' || c == ':'

/-- A name of a section or key, without the blanks around it and in lower case. -/
def name (cs : List Char) : String :=
  Text.lower (String.ofList (Text.trimChars cs))

namespace Line

/-- Reads what follows an opening bracket. The name ends before the last closing bracket. -/
def header? (cs : List Char) : Option Line :=
  match cs.reverse.dropWhile (· ≠ ']') with
  | _ :: reversed => some (header (name reversed.reverse))
  | [] => none

/-- Reads a key with its value, if the line has a delimiter. The key must not be empty. -/
def entry? (cs : List Char) : Option Line :=
  let key := name (cs.takeWhile fun c => !isDelimiter c)
  match cs.dropWhile fun c => !isDelimiter c with
  | _ :: value =>
      if key.isEmpty then none
      else some (entry key (some (String.ofList (Text.trimChars value))))
  | [] => some (entry key none)

def ofChars? (cs : List Char) : Option Line :=
  match Text.trimChars (cs.takeWhile fun c => !startsComment c) with
  | [] => some blank
  | '[' :: rest => header? rest
  | cs => entry? cs

end Line

/-- The section of the entries before any header. -/
def initialSection : String := "default"

def openSection (s : Settings) (sect : String) : Settings :=
  ⟨s.sections.alter sect (·.getD .empty)⟩

def set (s : Settings) (sect key : String) (value : Option String) : Settings :=
  ⟨s.sections.alter sect fun t => (t.getD .empty).insert key value⟩

/-- Follows a list of lines from an open section. -/
def follow : String → Settings → List Line → Settings
  | _, s, [] => s
  | sect, s, .blank :: rest => follow sect s rest
  | _, s, .header name :: rest => follow name (s.openSection name) rest
  | sect, s, .entry key value :: rest => follow sect (s.set sect key value) rest

/-- The lines of a text. -/
def textLines (s : String) : List (List Char) :=
  s.toList.splitOn '\n'

/-- Reads settings, each line of which must be well formed. -/
def ofText? (s : String) : Option Settings := do
  let lines ← (textLines s).mapM Line.ofChars?
  some (follow initialSection ⟨.empty⟩ lines)

def text? (s : Settings) (sect key : String) : Option String := do
  let entries ← s.sections.get? (Text.lower sect)
  let value ← entries.get? (Text.lower key)
  value

def integer (s : Settings) (sect key : String) (default : Int) : Int :=
  ((s.text? sect key) >>= Decimal.integer?).getD default

def number (s : Settings) (sect key : String) (default : Binary64) : Binary64 :=
  match (s.text? sect key).map Decimal.float? with
  | some (.ok x) => .ofFloat x
  | _ => default

/-- A yes or a no in one of its spellings. -/
def flagOfText? (s : String) : Option Bool :=
  match Text.lower (Text.trim s) with
  | "true" | "yes" | "on" | "1" => some true
  | "false" | "no" | "off" | "0" => some false
  | _ => none

def flag (s : Settings) (sect key : String) (default : Bool) : Bool :=
  ((s.text? sect key) >>= flagOfText?).getD default

def date? (s : Settings) (sect key : String) : Option Date := do
  Date.ofText? (Text.trim (← s.text? sect key))

end Settings
end StrategyTree
