import StrategyTree.Binary64
import StrategyTree.Document.Text
import StrategyTree.Host
/-!
# Strategy files

A strategy is loaded from the file of its document.
-/
namespace StrategyTree.Strategy

variable {m : Type → Type} [Monad m] [Host m]

def load (path : String) : Task m (Strategy Binary64) := do
  let text ← Task.orFail (Host.readText path) fun e => .io e.message
  Task.ofExcept ((Strategy.ofText text).mapError .treeParse)

end StrategyTree.Strategy
