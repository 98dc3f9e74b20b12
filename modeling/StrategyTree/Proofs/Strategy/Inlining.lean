import Mathlib.Logic.Function.Iterate
import StrategyTree.Proofs.Evaluation.Covers
/-!
# Inlining of calls

A round of inlining replaces every call by the root of the chain that it names.
In an accepted strategy calls are nested at most as deep as there are chains, so
after as many rounds, and one for the root, no call is left. The nodes of the
tree keep their identifiers: a chain that is called twice stands there twice.
-/
namespace StrategyTree

variable {α : Type}

namespace Node

/-- A node with its children replaced one by one. -/
def mapChildren (g : Node α → Node α) (n : Node α) : Node α :=
  n.mapSlots fun _ slot => slot.map (Option.map g)

section
variable (g : Node α → Node α) (n : Node α)

@[simp] theorem id_mapChildren : (n.mapChildren g).id = n.id :=
  n.id_mapSlots _

@[simp] theorem callee?_mapChildren : (n.mapChildren g).callee? = n.callee? :=
  n.callee?_mapSlots _

@[simp] theorem heldTickers_mapChildren : (n.mapChildren g).heldTickers = n.heldTickers :=
  n.heldTickers_mapSlots _

theorem slots_mapChildren :
    (n.mapChildren g).slots = n.slots.map fun slot => slot.map (Option.map g) := by
  rw [mapChildren, slots_mapSlots, slots_eq_map_weighed, List.map_map]
  rfl

theorem mem_children_mapChildren {d : Node α} :
    d ∈ (n.mapChildren g).children ↔ ∃ c ∈ n.children, g c = d := by
  simp only [mem_children, slots_mapChildren, List.mem_map, exists_exists_and_eq_and]
  constructor
  · rintro ⟨slot, hslot, entry, hentry, hd⟩
    obtain ⟨c, rfl, rfl⟩ := Option.map_eq_some_iff.1 hd
    exact ⟨c, ⟨slot, hslot, hentry⟩, rfl⟩
  · rintro ⟨c, ⟨slot, hslot, hc⟩, rfl⟩
    exact ⟨slot, hslot, some c, hc, rfl⟩

end

mutual

/-- Replaces every call of a known chain by the root of the chain. -/
def replaceCalls (chains : Table (Node α)) : Node α → Node α
  | basic id w next => basic id w (replaceCallsSlot chains next)
  | function id metric window count select w next =>
      function id metric window count select w (replaceCallsSlot chains next)
  | indicator id conditions fork => indicator id conditions (replaceCallsFork chains fork)
  | numbered id items quantifier fork ladder =>
      numbered id items quantifier (replaceCallsFork chains fork) (replaceCallsLadder chains ladder)
  | position id tickers => position id tickers
  | call id chain => (chains.get? chain).getD (call id chain)
  | altExit id entry exit fork => altExit id entry exit (replaceCallsFork chains fork)
  | scaling id reading lower upper fork =>
      scaling id reading lower upper (replaceCallsFork chains fork)

def replaceCallsSlot (chains : Table (Node α)) : List (Option (Node α)) → List (Option (Node α))
  | [] => []
  | none :: rest => none :: replaceCallsSlot chains rest
  | some n :: rest => some (replaceCalls chains n) :: replaceCallsSlot chains rest

def replaceCallsFork (chains : Table (Node α)) : Fork α (Node α) → Fork α (Node α)
  | ⟨v, w, thenSlot, elseSlot⟩ =>
      ⟨v, w, replaceCallsSlot chains thenSlot, replaceCallsSlot chains elseSlot⟩

def replaceCallsLadder (chains : Table (Node α)) :
    List (List (Option (Node α))) → List (List (Option (Node α)))
  | [] => []
  | slot :: rest => replaceCallsSlot chains slot :: replaceCallsLadder chains rest

end

section
variable {chains : Table (Node α)}

theorem replaceCallsSlot_eq {slot : List (Option (Node α))} :
    replaceCallsSlot chains slot = slot.map (Option.map (replaceCalls chains)) := by
  induction slot with
  | nil => rfl
  | cons entry rest ih => cases entry <;> simp [replaceCallsSlot, ih]

theorem replaceCallsFork_eq {fork : Fork α (Node α)} : replaceCallsFork chains fork =
    fork.mapSlots fun _ slot => slot.map (Option.map (replaceCalls chains)) := by
  cases fork
  simp [replaceCallsFork, Fork.mapSlots, replaceCallsSlot_eq]

theorem replaceCallsLadder_eq {ladder : List (List (Option (Node α)))} :
    replaceCallsLadder chains ladder =
      ladder.map fun slot => slot.map (Option.map (replaceCalls chains)) := by
  induction ladder with
  | nil => rfl
  | cons slot rest ih => simp [replaceCallsLadder, replaceCallsSlot_eq, ih]

theorem replaceCalls_eq {n : Node α} (h : n.callee? = none) :
    n.replaceCalls chains = n.mapChildren (replaceCalls chains) := by
  cases n with
  | call id chain => cases h
  | _ => simp [replaceCalls, mapChildren, mapSlots, replaceCallsSlot_eq, replaceCallsFork_eq,
      replaceCallsLadder_eq]

theorem mapChildren_mapChildren (g h : Node α → Node α) (n : Node α) :
    (n.mapChildren g).mapChildren h = n.mapChildren fun c => h (g c) := by
  cases n <;> simp [mapChildren, mapSlots, Fork.mapSlots, Function.comp_def]

/-- So many rounds of inlining. -/
def inlineCalls (chains : Table (Node α)) (rounds : Nat) : Node α → Node α :=
  (replaceCalls chains)^[rounds]

theorem inlineCalls_eq {n : Node α} (h : n.callee? = none) (rounds : Nat) :
    n.inlineCalls chains rounds = n.mapChildren (inlineCalls chains rounds) := by
  induction rounds generalizing n with
  | zero =>
      have hself : (fun c : Node α => inlineCalls chains 0 c) = fun c => c := rfl
      simp [inlineCalls, mapChildren]
  | succ rounds ih =>
      rw [inlineCalls, Function.iterate_succ_apply, replaceCalls_eq h]
      refine (ih (by rwa [callee?_mapChildren])).trans ?_
      rw [mapChildren_mapChildren]
      rfl

theorem inlineCalls_call {id chain : String} {root : Node α} (h : chains.get? chain = some root)
    (rounds : Nat) : (call id chain).inlineCalls chains (rounds + 1) =
      root.inlineCalls chains rounds := by
  rw [inlineCalls, Function.iterate_succ_apply, replaceCalls, h]
  rfl

theorem mem_positionTickers_of_not_call {n : Node α} (h : n.callee? = none) {t : String} :
    t ∈ (n.positionTickers chains).keys ↔
      t ∈ n.heldTickers ∨ ∃ c ∈ n.children, t ∈ (c.positionTickers chains).keys := by
  simp only [mem_positionTickers]
  constructor
  · rintro ⟨d, hd, ht⟩
    rcases Relation.ReflTransGen.cases_head hd with rfl | ⟨c, hc, hd⟩
    · exact .inl ht
    · cases hc with
      | child hc => exact .inr ⟨c, hc, d, hd, ht⟩
      | call => cases h
  · rintro (ht | ⟨c, hc, d, hd, ht⟩)
    · exact ⟨n, .refl, ht⟩
    · exact ⟨d, .head (.child hc) hd, ht⟩

theorem mem_positionTickers_call {id chain : String} {root : Node α}
    (h : chains.get? chain = some root) {t : String} :
    t ∈ ((call id chain).positionTickers chains).keys ↔
      t ∈ (root.positionTickers chains).keys := by
  simp only [mem_positionTickers]
  constructor
  · rintro ⟨d, hd, ht⟩
    rcases Relation.ReflTransGen.cases_head hd with rfl | ⟨c, hc, hd⟩
    · cases ht
    · cases hc with
      | child hc => simp [children, slots] at hc
      | call hroot =>
          obtain rfl := Option.some.inj (h.symm.trans hroot)
          exact ⟨d, hd, ht⟩
  · rintro ⟨d, hd, ht⟩
    exact ⟨d, .head (.call h) hd, ht⟩

end
end Node

namespace Strategy

/-- A strategy without chains, whose root has every call replaced. -/
def inlined (s : Strategy α) : Strategy α :=
  { s with
    root := s.root.inlineCalls s.chains (s.chains.entries.length + 1)
    chains := .empty }

variable [Arith α] {s : Strategy α}

/-- The inlined form has no calls. -/
theorem WellFormed.calls_inlined (hs : s.WellFormed) : s.inlined.root.calls = [] := by
  refine Suffices.induction_on hs
    (P := fun rounds _ n => (n.inlineCalls s.chains rounds).calls = [])
    (fun {rounds path n} _ hcallee ih => ?_) (fun _ hroot _ ih => ?_) (.root s)
  · rw [List.eq_nil_iff_forall_not_mem]
    intro chain hchain
    rw [Node.inlineCalls_eq hcallee, Node.mem_calls, Node.callee?_mapChildren, hcallee] at hchain
    obtain hfalse | ⟨d, hd, hchain⟩ := hchain
    · cases hfalse
    · obtain ⟨c, hc, rfl⟩ := (Node.mem_children_mapChildren _ _).1 hd
      rw [ih c hc] at hchain
      cases hchain
  · rw [Node.inlineCalls_call hroot]
    exact ih

/-- Inlining keeps the tickers that a node can select from. -/
theorem WellFormed.positionTickers_inlineCalls (hs : s.WellFormed) {rounds : Nat}
    {path : List String} {n : Node α} (h : s.Suffices rounds path n) :
    (n.inlineCalls s.chains rounds).positionTickers .empty = n.positionTickers s.chains := by
  suffices hmem : ∀ t, t ∈ ((n.inlineCalls s.chains rounds).positionTickers .empty).keys ↔
      t ∈ (n.positionTickers s.chains).keys from Tickers.ext_keys hmem
  refine h.induction_on hs (P := fun rounds _ n => ∀ t,
      t ∈ ((n.inlineCalls s.chains rounds).positionTickers .empty).keys ↔
        t ∈ (n.positionTickers s.chains).keys)
    (fun {rounds path n} _ hcallee ih t => ?_) fun _ hroot _ ih t => ?_
  · rw [Node.inlineCalls_eq hcallee, Node.mem_positionTickers_of_not_call (by simpa using hcallee),
      Node.mem_positionTickers_of_not_call hcallee, Node.heldTickers_mapChildren]
    simp only [Node.mem_children_mapChildren]
    refine or_congr_right ⟨?_, ?_⟩
    · rintro ⟨_, ⟨c, hc, rfl⟩, ht⟩
      exact ⟨c, hc, (ih c hc t).1 ht⟩
    · rintro ⟨c, hc, ht⟩
      exact ⟨_, ⟨c, hc, rfl⟩, (ih c hc t).2 ht⟩
  · rw [Node.inlineCalls_call hroot, Node.mem_positionTickers_call hroot]
    exact ih t

end Strategy
end StrategyTree
