/-!
# Reading comma-separated records

A record is a line of fields with commas between them. A field in quotes may hold
commas and line ends, and a quote in it is written twice. Lines without a character
are no records. Every text has records: a quote that is left open reaches to the end.
-/
namespace StrategyTree.Csv

inductive Place where
  | recordStart
  | fieldStart
  | plain
  | quoted
  /-- After a quote that may close the field or be the first of two. -/
  | quoteSeen
deriving DecidableEq, Repr

/-- The state of a scan. What was read last comes first. -/
structure Scan where
  records : List (List String)
  fields : List String
  field : List Char
  place : Place
deriving DecidableEq, Repr

def isLineEnd (c : Char) : Bool :=
  c == '\n' || c == '\r'

namespace Scan

def start : Scan := ⟨[], [], [], .recordStart⟩

/-- The fields read so far, with the one being read. -/
def allFields (s : Scan) : List String :=
  String.ofList s.field.reverse :: s.fields

def endField (s : Scan) : Scan :=
  { s with fields := s.allFields, field := [], place := .fieldStart }

def endRecord (s : Scan) : Scan :=
  ⟨s.allFields.reverse :: s.records, [], [], .recordStart⟩

def push (s : Scan) (c : Char) (place : Place) : Scan :=
  { s with field := c :: s.field, place }

def stepPlain (s : Scan) (c : Char) : Scan :=
  if c = ',' then s.endField
  else if isLineEnd c then s.endRecord
  else s.push c .plain

def stepFirst (s : Scan) (c : Char) : Scan :=
  if c = '"' then { s with place := .quoted } else s.stepPlain c

def step (s : Scan) (c : Char) : Scan :=
  match s.place with
  | .recordStart => if isLineEnd c then s else s.stepFirst c
  | .fieldStart => s.stepFirst c
  | .plain => s.stepPlain c
  | .quoted => if c = '"' then { s with place := .quoteSeen } else s.push c .quoted
  | .quoteSeen => if c = '"' then s.push c .quoted else s.stepPlain c

/-- The records, the last of which may lack a line end. -/
def finish (s : Scan) : List (List String) :=
  (if s.place = .recordStart then s else s.endRecord).records.reverse

end Scan

/-- Removes the byte order mark from the front. -/
def withoutMark : List Char → List Char
  | c :: rest => if c.toNat = 0xFEFF then rest else c :: rest
  | [] => []

def records (text : String) : List (List String) :=
  ((withoutMark text.toList).foldl Scan.step .start).finish

end StrategyTree.Csv
