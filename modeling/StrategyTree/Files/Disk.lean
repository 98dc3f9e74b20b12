import StrategyTree.Files.Path
import StrategyTree.Table
/-!
# Files and folders

A disk is a tree of folders and files with a folder that relative paths start
from. Every folder on the way along a path must exist, names and paths have a
greatest size, and an operation that cannot be done tells why.
-/
namespace StrategyTree

inductive FileFault where
  | notFound
  | notFolder
  | isFolder
  | alreadyExists
  /-- A name or a path has more bytes than a disk allows. -/
  | tooLong
  /-- A path has the character zero in it. -/
  | zeroInPath
  /-- The content is no text. -/
  | notText
  | other (reason : String)
deriving DecidableEq, Repr

def FileFault.message : FileFault → String
  | notFound => "No such file or directory (os error 2)"
  | notFolder => "Not a directory (os error 20)"
  | isFolder => "Is a directory (os error 21)"
  | alreadyExists => "File exists (os error 17)"
  | tooLong => "File name too long (os error 36)"
  | zeroInPath => "file name contained an unexpected NUL byte"
  | notText => "stream did not contain valid UTF-8"
  | other reason => reason

/-- A file, or a folder with its entries in ascending order. -/
inductive FileTree where
  | file (content : ByteArray)
  | folder (entries : List (String × FileTree))

namespace FileTree

def at? : FileTree → List String → Option FileTree
  | t, [] => some t
  | .file _, _ :: _ => none
  | .folder entries, name :: rest => (entries.lookup name).bind fun t => t.at? rest

/-- Puts a tree at a place. Folders on the way are added where they are missing. -/
def put : FileTree → List String → FileTree → FileTree
  | _, [], new => new
  | .file content, _ :: _, _ => .file content
  | .folder entries, name :: rest, new =>
      .folder (Table.alterEntries name (fun t => (t.getD (.folder [])).put rest new) entries)

mutual

/-- The files of a tree with the parts of their paths. -/
def files : FileTree → List (List String × ByteArray)
  | .file content => [([], content)]
  | .folder entries => filesOf entries

def filesOf : List (String × FileTree) → List (List String × ByteArray)
  | [] => []
  | (name, t) :: rest => t.files.map (fun f => (name :: f.1, f.2)) ++ filesOf rest

end

end FileTree

structure Disk where
  tree : FileTree
  /-- The place of the folder that relative paths start from. -/
  here : List String

namespace Disk

def nameLimit : Nat := 255

def pathLimit : Nat := 4095

/-- Refuses a path that leads nowhere on any disk. -/
def checkPath (path : String) : Except FileFault Unit :=
  if '\x00' ∈ path.toList then .error .zeroInPath
  else if pathLimit < path.utf8ByteSize then .error .tooLong
  else if path.isEmpty then .error .notFound
  else .ok ()

/-- The place that one part of a path leads to from a folder. -/
def follow (d : Disk) (place : List String) (part : String) : Except FileFault (List String) :=
  match d.tree.at? place with
  | none => .error .notFound
  | some (.file _) => .error .notFolder
  | some (.folder _) =>
      if Path.staysPut part then .ok place
      else if part = ".." then .ok place.dropLast
      else if nameLimit < part.utf8ByteSize then .error .tooLong
      else .ok (place ++ [part])

def start (d : Disk) (path : String) : List String :=
  if Path.isAbsolute path then [] else d.here

/-- The place that a path leads to. What is there is left open. -/
def locate (d : Disk) (path : String) : Except FileFault (List String) := do
  checkPath path
  (Path.parts path).foldlM d.follow (d.start path)

def find (d : Disk) (path : String) : Except FileFault FileTree := do
  match d.tree.at? (← d.locate path) with
  | some t => return t
  | none => throw .notFound

def isPresent (d : Disk) (path : String) : Bool :=
  (d.find path).isOk

def readText (d : Disk) (path : String) : Except FileFault String := do
  match ← d.find path with
  | .folder _ => throw .isFolder
  | .file content =>
      match String.fromUTF8? content with
      | some text => return text
      | none => throw .notText

def names (d : Disk) (path : String) : Except FileFault (List String) := do
  match ← d.find path with
  | .folder entries => return entries.map Prod.fst
  | .file _ => throw .notFolder

/-- Adds the folder that parts lead to from a place. The folders before it must exist. What
is there already stays if it is a folder. -/
def makeFolder (d : Disk) (place : List String) (parts : List String) : Except FileFault Disk := do
  let place ← parts.foldlM d.follow place
  match d.tree.at? place with
  | some (.folder _) => return d
  | some (.file _) => throw .alreadyExists
  | none => return { d with tree := d.tree.put place (.folder []) }

/-- Adds the folder that parts lead to from a place. The parts are given last one first. Where
a folder on the way is missing, it is added before. -/
def makeFoldersTo (d : Disk) (place : List String) : List String → Except FileFault Disk
  | [] => .ok d
  | part :: before =>
      match d.makeFolder place (before.reverse ++ [part]) with
      | .error .notFound => do
          (← d.makeFoldersTo place before).makeFolder place (before.reverse ++ [part])
      | r => r

/-- Adds a folder and the folders on the way to it. -/
def makeFolders (d : Disk) (path : String) : Except FileFault Disk := do
  if path.isEmpty then return d
  checkPath path
  d.makeFoldersTo (d.start path) ((Path.parts path).filter fun p => !Path.staysPut p).reverse

/-- Writes a file into a folder that exists. A path that ends in a slash or in points names no
file. -/
def write (d : Disk) (path : String) (content : ByteArray) : Except FileFault Disk := do
  checkPath path
  let parts := Path.parts path
  let names := (parts.reverse.dropWhile (·.isEmpty)).reverse
  let folder ← (names.dropLast ++ ["."]).foldlM d.follow (d.start path)
  if names.length < parts.length then throw .isFolder
  let place ← d.follow folder (names.getLast?.getD "")
  match d.tree.at? place with
  | some (.folder _) => throw .isFolder
  | _ => return { d with tree := d.tree.put place (.file content) }

def files (d : Disk) : List (String × ByteArray) :=
  match d.tree.at? d.here with
  | some t => t.files.map fun f => (Path.ofParts f.1, f.2)
  | none => []

end Disk
end StrategyTree
