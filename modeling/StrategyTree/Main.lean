import StrategyTree.Command.Arguments
/-!
# The program

The host is the operating system. The first arguments name a command, and the exit
code is the one that the command ends with.
-/
namespace StrategyTree

/-- What an error of the operating system says about a file. Its code may be negated. -/
def FileFault.ofError : IO.Error → FileFault
  | .noFileOrDirectory .. => .notFound
  | .alreadyExists .. => .alreadyExists
  | .inappropriateType _ code details =>
      if code = 20 ∨ code = -20 then .notFolder
      else if code = 21 ∨ code = -21 then .isFolder
      else .other details
  | .invalidArgument _ code details =>
      if code = 36 ∨ code = -36 then .tooLong
      else if details = "string contains NUL bytes" then .zeroInPath
      else .other details
  | e => .other (toString e)

def FileFault.attempt {β : Type} (x : IO β) : IO (Except FileFault β) := do
  match ← x.toBaseIO with
  | .ok value => return .ok value
  | .error e => return .error (.ofError e)

def Path.list (path : String) : IO (Except FileFault (List String)) :=
  if path.isEmpty then return .error .notFound
  else
    FileFault.attempt do
      let entries ← ((← IO.currentDir) / path).readDir
      return entries.toList.map fun e => e.fileName

/-- Adds the folder at a path. What is there already stays if it is a folder. -/
def Path.makeFolder (path : String) : IO (Except FileFault Unit) := do
  match ← FileFault.attempt (IO.FS.createDir path) with
  | .error .alreadyExists =>
      if (← Path.list path).isOk then return .ok () else return .error .alreadyExists
  | r => return r

/-- Adds the folder that parts lead to. The parts are given last one first. Where a folder on
the way is missing, it is added before. -/
def Path.makeFoldersTo : List String → IO (Except FileFault Unit)
  | [] => return .ok ()
  | part :: before => do
      let path := Path.ofParts (part :: before).reverse
      match ← Path.makeFolder path with
      | .error .notFound =>
          match ← makeFoldersTo before with
          | .ok () => Path.makeFolder path
          | r => return r
      | r => return r

instance Host.system : Host IO where
  isPresent path := do
    match ← FileFault.attempt (IO.FS.Handle.mk path .read) with
    | .error .notFound | .error .notFolder | .error .tooLong | .error .zeroInPath => return false
    | _ => return true
  readText path := do
    match ← FileFault.attempt (IO.FS.readBinFile path) with
    | .error e => return .error e
    | .ok content =>
        match String.fromUTF8? content with
        | some text => return .ok text
        | none => return .error .notText
  names := Path.list
  makeFolders path := Path.makeFoldersTo (Path.parts path).reverse
  writeText path text := FileFault.attempt (IO.FS.writeFile path text)
  answer line := IO.println line
  note line := IO.eprintln line

end StrategyTree

def main (args : List String) : IO UInt32 := do
  match StrategyTree.Command.ofArguments args with
  | .error fault =>
      IO.eprintln fault.message
      return .ofNat fault.exitCode
  | .ok command => return .ofNat (← command.run)
