import Mathlib.Data.List.DropRight
import StrategyTree.Proofs.Evaluation.Comparison
/-!
# Compaction of slots

A placeholder only holds a place. Specified weights are given by place, so under them the
placeholders behind the last node can go; any other weighting counts nodes, so under it all
of them can. The compacted form of a strategy has no placeholders but those that are needed.
Its nodes keep their identifiers, and its ladders keep their slots.
-/
namespace StrategyTree

variable {α : Type}

/-! ### Slots -/

namespace Weighting

/-- A slot without the placeholders that make no difference under a weighting. -/
def prune (w : Weighting α) (slot : Slot α) : Slot α :=
  match w with
  | specified _ => slot.rdropWhile Option.isNone
  | _ => slot.filter Option.isSome

/-- The pruned slot. One that is left empty gets a placeholder again. -/
def compact (w : Weighting α) (slot : Slot α) : Slot α :=
  if (w.prune slot).isEmpty then .placeholder else w.prune slot

theorem mem_prune {w : Weighting α} {slot : Slot α} {c : Node α} :
    some c ∈ w.prune slot ↔ some c ∈ slot := by
  cases w with
  | specified weights =>
      change some c ∈ slot.rdropWhile Option.isNone ↔ _
      have hdropped : some c ∉ slot.rtakeWhile Option.isNone := fun h => by
        cases List.mem_rtakeWhile_imp h
      have hparts : slot.rdropWhile Option.isNone ++ slot.rtakeWhile Option.isNone = slot :=
        List.rdropWhile_append_rtakeWhile
      conv_rhs => rw [← hparts]
      rw [List.mem_append, or_iff_left hdropped]
  | _ => exact List.mem_filter.trans (and_iff_left rfl)

theorem mem_compact {w : Weighting α} {slot : Slot α} {c : Node α} :
    some c ∈ w.compact slot ↔ some c ∈ slot := by
  unfold compact
  split
  · next hempty =>
      have hnone : some c ∉ slot := fun h => by
        rw [← mem_prune, List.isEmpty_iff.1 hempty] at h
        cases h
      simpa [Slot.placeholder] using hnone
  · exact mem_prune

example (c : Node α) : Weighting.equal.compact [none, some c, none] = [some c] := rfl

example (weights : List α) (c : Node α) :
    (specified weights).compact [none, some c, none] = [none, some c] := rfl

end Weighting

/-! ### Nodes -/

namespace Node

mutual

/-- A node in which every slot is compacted, down to the leaves. -/
def compacted : Node α → Node α
  | basic id w next => basic id w (w.compact (compactedSlot next))
  | function id metric window count select w next =>
      function id metric window count select w (w.compact (compactedSlot next))
  | indicator id conditions fork => indicator id conditions (compactedFork fork)
  | numbered id items quantifier fork ladder =>
      numbered id items quantifier (compactedFork fork) (compactedLadder fork.thenWeighting ladder)
  | position id tickers => position id tickers
  | call id chain => call id chain
  | altExit id entry exit fork => altExit id entry exit (compactedFork fork)
  | scaling id reading lower upper fork => scaling id reading lower upper (compactedFork fork)

def compactedSlot : List (Option (Node α)) → List (Option (Node α))
  | [] => []
  | none :: rest => none :: compactedSlot rest
  | some n :: rest => some n.compacted :: compactedSlot rest

def compactedFork : Fork α (Node α) → Fork α (Node α)
  | ⟨v, w, thenSlot, elseSlot⟩ =>
      ⟨v, w, v.compact (compactedSlot thenSlot), w.compact (compactedSlot elseSlot)⟩

def compactedLadder (w : Weighting α) :
    List (List (Option (Node α))) → List (List (Option (Node α)))
  | [] => []
  | slot :: rest => w.compact (compactedSlot slot) :: compactedLadder w rest

end

theorem compactedSlot_eq {slot : List (Option (Node α))} :
    compactedSlot slot = slot.map (Option.map compacted) := by
  induction slot with
  | nil => rfl
  | cons entry rest ih => cases entry <;> simp [compactedSlot, ih]

theorem compactedFork_eq {fork : Fork α (Node α)} : compactedFork fork =
    fork.mapSlots fun w slot => w.compact (slot.map (Option.map compacted)) := by
  cases fork
  simp [compactedFork, Fork.mapSlots, compactedSlot_eq]

theorem compactedLadder_eq {w : Weighting α} {ladder : List (List (Option (Node α)))} :
    compactedLadder w ladder =
      ladder.map fun slot => w.compact (slot.map (Option.map compacted)) := by
  induction ladder with
  | nil => rfl
  | cons slot rest ih => simp [compactedLadder, compactedSlot_eq, ih]

theorem compacted_eq (n : Node α) :
    n.compacted = n.mapSlots fun w slot => w.compact (slot.map (Option.map compacted)) := by
  cases n <;> simp [compacted, mapSlots, compactedSlot_eq, compactedFork_eq, compactedLadder_eq]

@[simp] theorem id_compacted (n : Node α) : n.compacted.id = n.id := by
  rw [compacted_eq, id_mapSlots]

@[simp] theorem callee?_compacted (n : Node α) : n.compacted.callee? = n.callee? := by
  rw [compacted_eq, callee?_mapSlots]

@[simp] theorem heldTickers_compacted (n : Node α) : n.compacted.heldTickers = n.heldTickers := by
  rw [compacted_eq, heldTickers_mapSlots]

/-- The children stay, each compacted. -/
theorem mem_children_compacted {n d : Node α} :
    d ∈ n.compacted.children ↔ ∃ c ∈ n.children, c.compacted = d := by
  simp only [mem_children, compacted_eq n, slots_mapSlots, slots_eq_map_weighed n, List.mem_map]
  constructor
  · rintro ⟨_, ⟨p, hp, rfl⟩, hd⟩
    obtain ⟨entry, hentry, hd⟩ := List.mem_map.1 (Weighting.mem_compact.1 hd)
    obtain ⟨c, rfl, rfl⟩ := Option.map_eq_some_iff.1 hd
    exact ⟨c, ⟨p.2, ⟨p, hp, rfl⟩, hentry⟩, rfl⟩
  · rintro ⟨c, ⟨_, ⟨p, hp, rfl⟩, hc⟩, rfl⟩
    exact ⟨_, ⟨p, hp, rfl⟩, Weighting.mem_compact.2 (List.mem_map.2 ⟨some c, hc, rfl⟩)⟩

end Node

/-! ### Strategies -/

/-- The strategy with the slots of its root and of all chains compacted. -/
def Strategy.compacted (s : Strategy α) : Strategy α :=
  { s with
    root := s.root.compacted
    chains := s.chains.map fun _ n => n.compacted }

namespace Node

variable {chains : Table (Node α)}

theorem step_compacted {n d : Node α} :
    Step (chains.map fun _ n => n.compacted) n.compacted d ↔
      ∃ c, Step chains n c ∧ c.compacted = d := by
  constructor
  · intro h
    generalize hn : n.compacted = m at h
    cases h with
    | child hd =>
        rw [← hn] at hd
        obtain ⟨c, hc, rfl⟩ := mem_children_compacted.1 hd
        exact ⟨c, .child hc, rfl⟩
    | @call id chain root hroot =>
        obtain ⟨id', rfl⟩ : ∃ id', n = call id' chain :=
          eq_call_of_callee (by rw [← callee?_compacted, hn]; rfl)
        rw [Table.get?_map] at hroot
        obtain ⟨c, hc, rfl⟩ := Option.map_eq_some_iff.1 hroot
        exact ⟨c, .call hc, rfl⟩
  · rintro ⟨c, h, rfl⟩
    cases h with
    | child hc => exact .child (mem_children_compacted.2 ⟨c, hc, rfl⟩)
    | call hroot =>
        rw [compacted]
        exact .call (by rw [Table.get?_map, hroot]; rfl)

theorem reaches_compacted {n d : Node α} :
    Reaches (chains.map fun _ n => n.compacted) n.compacted d ↔
      ∃ c, Reaches chains n c ∧ c.compacted = d := by
  constructor
  · intro h
    induction h with
    | refl => exact ⟨n, .refl, rfl⟩
    | tail _ hstep ih =>
        obtain ⟨c, hc, rfl⟩ := ih
        obtain ⟨e, he, rfl⟩ := step_compacted.1 hstep
        exact ⟨e, hc.tail he, rfl⟩
  · rintro ⟨c, h, rfl⟩
    exact h.lift compacted fun _ _ hstep => step_compacted.2 ⟨_, hstep, rfl⟩

/-- A ranking has the same candidates after compaction. -/
theorem positionTickers_compacted (n : Node α) :
    n.compacted.positionTickers (chains.map fun _ n => n.compacted) =
      n.positionTickers chains := by
  refine Tickers.ext_keys fun t => ?_
  rw [mem_positionTickers, mem_positionTickers]
  constructor
  · rintro ⟨_, hd, ht⟩
    obtain ⟨c, hc, rfl⟩ := reaches_compacted.1 hd
    exact ⟨c, hc, by rwa [heldTickers_compacted] at ht⟩
  · rintro ⟨c, hc, ht⟩
    exact ⟨_, reaches_compacted.2 ⟨c, hc, rfl⟩, by rwa [heldTickers_compacted]⟩

end Node
end StrategyTree
