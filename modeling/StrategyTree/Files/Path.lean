/-!
# Paths

A path is a text whose parts are divided by slashes. An empty part and a single
point stay where they are, and two points go one folder up. A path that starts
with a slash starts at the root.
-/
namespace StrategyTree.Path

def parts (path : String) : List String :=
  (path.toList.splitOn '/').map String.ofList

def ofParts (parts : List String) : String :=
  "/".intercalate parts

def isAbsolute (path : String) : Bool :=
  path.toList.head? == some '/'

/-- Whether a part stays in the folder it is reached from. -/
def staysPut (part : String) : Bool :=
  part == "" || part == "."

def join (folder file : String) : String :=
  if isAbsolute file || folder.isEmpty then file
  else if folder.toList.getLast? == some '/' then folder ++ file
  else folder ++ "/" ++ file

/-- The parts up to the last one that leaves the folder it is reached from. -/
def significantParts (path : String) : List String :=
  ((parts path).reverse.dropWhile staysPut).reverse

def folder (path : String) : String :=
  ofParts (significantParts path).dropLast

/-- A name up to its last point. A point at the front does not count. -/
def stem (name : String) : String :=
  match name.toList.reverse.dropWhile (· ≠ '.') with
  | _ :: before => if before.isEmpty then name else String.ofList before.reverse
  | [] => name

/-- The name that a path ends in. Two points are no name. -/
def fileName? (path : String) : Option String :=
  (significantParts path).getLast?.filter (· ≠ "..")

/-- How many characters stand behind the last point of a name. A point at the front does not
count. -/
def extensionLength (name : String) : Nat :=
  name.length - (stem name).length - 1

/-- A path that is shorter by the extension of the name it ends in. -/
def withoutExtension (path : String) : String :=
  match fileName? path with
  | none => path
  | some name => String.ofList (path.toList.take (path.length - extensionLength name))

/-- Puts another extension in place of the one that the name of a path has. A path that ends
in no name without its extension keeps none. -/
def withExtension (path extension : String) : String :=
  let path := withoutExtension path
  match fileName? path with
  | none => path
  | some name => ofParts ((significantParts path).dropLast ++ [s!"{stem name}.{extension}"])

end StrategyTree.Path
