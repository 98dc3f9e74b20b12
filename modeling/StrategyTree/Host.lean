import StrategyTree.Failure
import StrategyTree.Files.Disk
/-!
# Hosts

A host is a monad in which a program works on files and prints lines. A line is
either part of the answer of a command or a note on its progress. A session is
the host whose whole state is a value: a disk and the lines printed so far.
-/
namespace StrategyTree

/-- The operations that a program asks for. -/
class Host (m : Type → Type) where
  isPresent (path : String) : m Bool
  readText (path : String) : m (Except FileFault String)
  names (path : String) : m (Except FileFault (List String))
  makeFolders (path : String) : m (Except FileFault Unit)
  writeText (path text : String) : m (Except FileFault Unit)
  /-- Prints a line of the answer. -/
  answer (line : String) : m Unit
  /-- Prints a line on the progress. -/
  note (line : String) : m Unit

/-- A part of a program that may fail. What it has done by then is not undone. -/
abbrev Task (m : Type → Type) := ExceptT Failure m

instance Task.host {m : Type → Type} [Monad m] [Host m] : Host (Task m) where
  isPresent path := ExceptT.lift (Host.isPresent path)
  readText path := ExceptT.lift (Host.readText path)
  names path := ExceptT.lift (Host.names path)
  makeFolders path := ExceptT.lift (Host.makeFolders path)
  writeText path text := ExceptT.lift (Host.writeText path text)
  answer line := ExceptT.lift (Host.answer line)
  note line := ExceptT.lift (Host.note line)

namespace Task

variable {m : Type → Type} [Monad m] {β : Type}

def ofExcept (r : Except Failure β) : Task m β :=
  ExceptT.mk (pure r)

/-- An operation on files whose fault is a cause of failure. -/
def orFail (x : Task m (Except FileFault β)) (cause : FileFault → Failure) : Task m β := do
  Task.ofExcept ((← x).mapError cause)

end Task

/-- A disk, and the lines printed so far. -/
structure Session where
  disk : Disk
  answers : List String
  notes : List String

namespace Session

def start (disk : Disk) : Session := ⟨disk, [], []⟩

/-- Goes on with a changed disk, if the change was possible. -/
def change (s : Session) (r : Except FileFault Disk) : Except FileFault Unit × Session :=
  match r with
  | .ok disk => (.ok (), { s with disk })
  | .error e => (.error e, s)

def printed (lines : List String) : String :=
  String.join (lines.map (· ++ "\n"))

end Session

instance Session.host : Host (StateM Session) where
  isPresent path := fun s => (s.disk.isPresent path, s)
  readText path := fun s => (s.disk.readText path, s)
  names path := fun s => (s.disk.names path, s)
  makeFolders path := fun s => s.change (s.disk.makeFolders path)
  writeText path text := fun s => s.change (s.disk.write path text.toUTF8)
  answer line := fun s => ((), { s with answers := s.answers ++ [line] })
  note line := fun s => ((), { s with notes := s.notes ++ [line] })

end StrategyTree
