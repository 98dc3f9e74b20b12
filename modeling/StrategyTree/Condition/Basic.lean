import StrategyTree.Arith
import StrategyTree.Indicator.Basic
import StrategyTree.Text.Blank
/-!
# Conditions

A condition compares a reading of one ticker with a threshold or with another
reading. In a list, the tag of each condition says how it joins the ones before it.
-/
namespace StrategyTree

/-- How a condition joins the conditions before it. -/
inductive Connective where
  | first
  | and
  | or
deriving DecidableEq, Repr

namespace Connective

def all : List Connective := [first, and, or]

def name : Connective → String
  | first => "if"
  | and => "and"
  | or => "or"

def ofName? (s : String) : Option Connective :=
  all.find? (·.name = s)

@[simp] theorem ofName?_name (c : Connective) : ofName? c.name = some c := by
  cases c <;> decide

end Connective

/-- The relation that a condition asks for. -/
inductive Comparator where
  | gt
  | ge
  | lt
  | le
  | eq
  | ne
  | crossesAbove
  | crossesBelow
deriving DecidableEq, Repr

namespace Comparator

def all : List Comparator := [gt, ge, lt, le, eq, ne, crossesAbove, crossesBelow]

def display : Comparator → String
  | gt => ">"
  | ge => ">="
  | lt => "<"
  | le => "<="
  | eq => "=="
  | ne => "!="
  | crossesAbove => "crossesAbove"
  | crossesBelow => "crossesBelow"

/-- The comparator that a text without blanks around it spells. Equality may be spelt
with one sign. -/
def ofSpelling? (s : String) : Option Comparator :=
  if s = "=" then some eq else all.find? (·.display = s)

def ofText (s : String) : Except Failure Comparator :=
  match ofSpelling? (Text.trim s) with
  | some c => .ok c
  | none => .error (.invalidComparator (Text.trim s))

/-- Whether the relation has to begin on the day itself. -/
def isCrossing : Comparator → Bool
  | crossesAbove | crossesBelow => true
  | _ => false

variable {α : Type} [Arith α]

/-- Two numbers closer than this count as equal. -/
def tolerance : α := 1e-9

/-- The relation on one day. That of a crossing is the strict inequality that begins. -/
def holds (c : Comparator) (left right : α) : Bool :=
  match c with
  | gt | crossesAbove => right < left
  | ge => right ≤ left
  | lt | crossesBelow => left < right
  | le => left ≤ right
  | eq => Arith.abs (left - right) < tolerance
  | ne => tolerance ≤ Arith.abs (left - right)

end Comparator

/-- A metric of one ticker over a window. -/
structure Reading where
  metric : Metric
  window : Int
  ticker : String
deriving DecidableEq, Repr

def Reading.indicator (r : Reading) : Except Failure Indicator :=
  Indicator.resolve r.metric r.window

inductive Reference (α : Type) where
  | threshold (value : α)
  | reading (r : Reading)
deriving DecidableEq, Repr

structure Condition (α : Type) where
  connective : Connective
  left : Reading
  comparator : Comparator
  right : Reference α
  /-- The number of days for which the comparison must have held. -/
  sustainedDays : Option Nat
deriving DecidableEq, Repr

/-- Every ticker that a condition reads. -/
def Condition.tickers {α : Type} (c : Condition α) : List String :=
  match c.right with
  | .threshold _ => [c.left.ticker]
  | .reading r => [c.left.ticker, r.ticker]

end StrategyTree
