import StrategyTree.Strategy.Basic
/-!
# Tickers of a strategy

Collecting goes through the nodes below a node and follows calls, each chain
once. Anchors are the tickers that a run may read or hold: those of positions,
conditions and scalings, and the fallbacks of capped weightings. The candidates
of a ranking are the tickers of positions alone.
-/
namespace StrategyTree

variable {α : Type}

namespace Node

/-- The tickers that a position holds, without cash. -/
def heldTickers : Node α → List String
  | position _ tickers => tickers.filter (· ≠ cashTicker)
  | _ => []

/-- The tickers that a node reads by itself. -/
def readTickers : Node α → List String
  | indicator _ conditions _ => conditions.flatMap Condition.tickers
  | numbered _ items _ _ _ => items.flatMap fun conditions => conditions.flatMap Condition.tickers
  | altExit _ entry exit _ => entry.flatMap Condition.tickers ++ exit.flatMap Condition.tickers
  | scaling _ reading _ _ _ => [reading.ticker]
  | _ => []

/-- The tickers that a node reads or may buy by itself. -/
def ownTickers (n : Node α) : List String :=
  n.heldTickers ++ n.readTickers ++ n.weightings.filterMap Weighting.fallback?

end Node

/-- What a collection has found, and the chains that it has entered. -/
structure Collected where
  tickers : Tickers
  entered : List String

namespace Collected

def start : Collected := ⟨.empty, []⟩

def add (c : Collected) (tickers : List String) : Collected :=
  { c with tickers := c.tickers.addAll tickers }

end Collected

namespace Node

section
variable (chains : Table (Node α)) (own : Node α → List String)
  (enter : Node α → Collected → Collected)

mutual

/-- Collects the `own` tickers of a node and of the nodes below it. The first call of each
chain goes on by `enter`. -/
def collect : Node α → Collected → Collected
  | n@(basic _ _ next), c => collectSlot next (c.add (own n))
  | n@(function _ _ _ _ _ _ next), c => collectSlot next (c.add (own n))
  | n@(indicator _ _ fork), c => collectFork fork (c.add (own n))
  | n@(numbered _ _ _ fork ladder), c => collectLadder ladder (collectFork fork (c.add (own n)))
  | n@(position ..), c => c.add (own n)
  | call _ chain, c =>
      match chains.get? chain with
      | none => c
      | some root =>
          if chain ∈ c.entered then c else enter root { c with entered := chain :: c.entered }
  | n@(altExit _ _ _ fork), c => collectFork fork (c.add (own n))
  | n@(scaling _ _ _ _ fork), c => collectFork fork (c.add (own n))

def collectSlot : List (Option (Node α)) → Collected → Collected
  | [], c => c
  | none :: rest, c => collectSlot rest c
  | some n :: rest, c => collectSlot rest (n.collect c)

def collectFork : Fork α (Node α) → Collected → Collected
  | ⟨_, _, thenSlot, elseSlot⟩, c => collectSlot elseSlot (collectSlot thenSlot c)

def collectLadder : List (List (Option (Node α))) → Collected → Collected
  | [], c => c
  | slot :: rest, c => collectLadder rest (collectSlot slot c)

end

end

/-- Collects with at most `depth` calls inside each other. -/
def collectWithin (chains : Table (Node α)) (own : Node α → List String) :
    Nat → Node α → Collected → Collected
  | 0 => fun _ c => c
  | depth + 1 => collect chains own (collectWithin chains own depth)

/-- The `own` tickers of a node and of all nodes that it reaches. No chain is entered twice,
so calls are nested at most as deep as there are chains. -/
def reachableTickers (chains : Table (Node α)) (own : Node α → List String) (n : Node α) :
    Tickers :=
  (collectWithin chains own (chains.entries.length + 1) n .start).tickers

def positionTickers (chains : Table (Node α)) (n : Node α) : Tickers :=
  n.reachableTickers chains heldTickers

end Node

/-- The tickers that decide on which dates a strategy can run. -/
def Strategy.anchorTickers (s : Strategy α) : Tickers :=
  s.root.reachableTickers s.chains Node.ownTickers

end StrategyTree
