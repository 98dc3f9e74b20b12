import StrategyTree.Proofs.Evaluation.Transparency
/-!
# Visits of an evaluation

The nodes that the evaluation of a day comes to, each with the scope and the state it
is evaluated in. Between two visits the state is what the runs of the evaluation leave,
so the visits are read off the evaluation itself.
-/
namespace StrategyTree

variable {α : Type}

/-- The evaluation of a node comes under a scope and from a state. -/
structure Visit (α : Type) where
  node : Node α
  scope : Scope
  state : RunState α

/-- What is visited behind a run. Nothing is if the run fails. -/
def Run.along {β : Type} (x : Run α β) (log : β → RunState α → List (Visit α))
    (s : RunState α) : List (Visit α) :=
  match x s with
  | (.ok b, t) => log b t
  | (.error _, _) => []

theorem Run.along_ok {β : Type} {x : Run α β} {log : β → RunState α → List (Visit α)}
    {s t : RunState α} {b : β} (h : x s = (.ok b, t)) : Run.along x log s = log b t := by
  rw [along, h]

variable [Arith α]

namespace Node

section
variable (src : Sources α) (chains : Table (Node α))
  (enter : Node α → Scope → Run α (Option (Allocation α)))
  (visitsBehind : Node α → Scope → RunState α → List (Visit α)) (day : Nat)

mutual

/-- The visits when a node is evaluated, in order. Those to the root of a called chain are
given by `visitsBehind`. -/
def visits : Node α → Scope → RunState α → List (Visit α)
  | n@(basic _ _ next), scope, s => ⟨n, scope, s⟩ :: visitsSlot next scope s
  | n@(function _ metric window count select _ next), scope, s =>
      ⟨n, scope, s⟩ :: Run.along (src.selected n metric window count select scope)
        (fun selected t => if selected.isEmpty then [] else visitsSlot next (some selected) t) s
  | n@(indicator id conditions fork), scope, s =>
      ⟨n, scope, s⟩ :: Run.along (src.verdict id conditions)
        (fun verdict t => visitsFork (shareOf (verdict == some true)) fork scope t) s
  | n@(numbered id items quantifier fork ladder), scope, s =>
      ⟨n, scope, s⟩ :: Run.along (src.countHits id 0 items)
        (fun hits t =>
          if quantifier = .ladder then visitsRung hits ladder scope t
          else visitsFork (shareOf (quantifier.passes hits items.length)) fork scope t) s
  | n@(position ..), scope, s => [⟨n, scope, s⟩]
  | n@(call _ chain), scope, s =>
      ⟨n, scope, s⟩ :: match chains.get? chain with
        | none => []
        | some root =>
            if chain ∈ s.path then []
            else visitsBehind root scope { s with path := s.path ++ [chain] }
  | n@(altExit id entry exit fork), scope, s =>
      ⟨n, scope, s⟩ :: Run.along (src.decideHold day id entry exit)
        (fun held t => visitsFork (shareOf held) fork scope t) s
  | n@(scaling _ reading lower upper fork), scope, s =>
      ⟨n, scope, s⟩ :: if lower == upper then []
        else Run.along (do src.value reading.ticker (← Run.ofExcept reading.indicator))
          (fun value t => visitsFork (value.elim 0 (scaledShare lower upper)) fork scope t) s

def visitsSlot : List (Option (Node α)) → Scope → RunState α → List (Visit α)
  | [], _, _ => []
  | none :: rest, scope, s => visitsSlot rest scope s
  | some n :: rest, scope, s =>
      n.visits scope s ++ Run.along (n.evaluate src chains enter day scope)
        (fun _ t => visitsSlot rest scope t) s

def visitsFork (share : α) : Fork α (Node α) → Scope → RunState α → List (Visit α)
  | ⟨v, _, thenSlot, elseSlot⟩, scope, s =>
      (if 0 < share then visitsSlot thenSlot scope s else []) ++
        Run.along (branch (0 < share) share (fill src chains enter day v thenSlot scope))
          (fun _ t => if share < 1 then visitsSlot elseSlot scope t else []) s

def visitsRung : Nat → List (List (Option (Node α))) → Scope → RunState α → List (Visit α)
  | _, [], _, _ => []
  | 0, slot :: _, scope, s => visitsSlot slot scope s
  | k + 1, _ :: rest, scope, s => visitsRung k rest scope s

end

end

/-- Behind a call of a chain that is not on the path are the visits of the root. -/
theorem visits_call {src : Sources α} {chains : Table (Node α)}
    {enter : Node α → Scope → Run α (Option (Allocation α))}
    {visitsBehind : Node α → Scope → RunState α → List (Visit α)} {day : Nat} {id chain : String}
    {root : Node α} {scope : Scope} {s : RunState α} (hroot : chains.get? chain = some root)
    (hnew : chain ∉ s.path) :
    (call id chain).visits src chains enter visitsBehind day scope s =
      ⟨call id chain, scope, s⟩ ::
        visitsBehind root scope { s with path := s.path ++ [chain] } := by
  simp only [visits, hroot, if_neg hnew]

theorem visits_cycle {src : Sources α} {chains : Table (Node α)}
    {enter : Node α → Scope → Run α (Option (Allocation α))}
    {visitsBehind : Node α → Scope → RunState α → List (Visit α)} {day : Nat} {id chain : String}
    {root : Node α} {scope : Scope} {s : RunState α} (hroot : chains.get? chain = some root)
    (hmem : chain ∈ s.path) :
    (call id chain).visits src chains enter visitsBehind day scope s =
      [⟨call id chain, scope, s⟩] := by
  simp only [visits, hroot, if_pos hmem]

/-- The visits with at most `depth` trees inside each other. -/
def visitsWithin (src : Sources α) (chains : Table (Node α)) (day : Nat) :
    Nat → Node α → Scope → RunState α → List (Visit α)
  | 0 => fun _ _ _ => []
  | depth + 1 =>
      visits src chains (evaluateWithin src chains day depth) (visitsWithin src chains day depth) day

end Node

/-- The visits when a day is evaluated from a state. -/
def Strategy.visits (s : Strategy α) (m : PriceMatrix α) (day : Nat) (state : RunState α) :
    List (Visit α) :=
  s.root.visitsWithin (.remembering m s.chains day) s.chains day (s.chains.entries.length + 1) none
    { state with path := [] }

end StrategyTree
