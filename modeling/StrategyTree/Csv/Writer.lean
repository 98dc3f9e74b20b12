/-!
# Writing comma-separated records

A field is put in quotes if it holds a comma, a quote or a line end, and quotes in
it are doubled. Each record ends its line. A record without a character is written
as an empty field in quotes, since an empty line is no record.
-/
namespace StrategyTree.Csv

/-- Whether a field with this character has to be quoted. -/
def needsQuotes (c : Char) : Bool :=
  c == ',' || c == '"' || c == '\n' || c == '\r'

/-- Writes every quote twice. -/
def doubleQuotes (cs : List Char) : List Char :=
  cs.flatMap fun c => if c = '"' then ['"', '"'] else [c]

def writeField (field : String) : String :=
  if field.toList.any needsQuotes then
    String.ofList ('"' :: doubleQuotes field.toList ++ ['"'])
  else field

def writeRecord (fields : List String) : String :=
  let line := ",".intercalate (fields.map writeField)
  (if line.isEmpty then "\"\"" else line) ++ "\n"

def write (records : List (List String)) : String :=
  String.join (records.map writeRecord)

end StrategyTree.Csv
