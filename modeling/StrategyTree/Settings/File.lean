import StrategyTree.Host
import StrategyTree.Settings.Basic
/-!
# Settings files

A file of settings that cannot be read and one that is malformed are one fault.
-/
namespace StrategyTree.Settings

variable {m : Type → Type} [Monad m] [Host m]

def load (path : String) : Task m Settings := do
  let text ← Task.orFail (Host.readText path) fun _ => .configParse path
  match ofText? text with
  | some s => return s
  | none => throw (.configParse path)

end StrategyTree.Settings
