import Mathlib.Data.List.Nodup
import Mathlib.Logic.Relation
import StrategyTree.Proofs.Strategy.Walk
import StrategyTree.Proofs.Table
import StrategyTree.Strategy.CallGraph
import StrategyTree.Strategy.Tickers
/-!
# Reachable nodes

A node leads to its children and, by a call, to the root of a chain. A collection
goes through whole trees and enters each chain once. What it has entered when it
ends it has gathered, with all that is below, so it finds the tickers of exactly
the nodes that are reached, whether calls go round in a cycle or lead nowhere.
-/
namespace StrategyTree

open Relation

variable {α : Type}

namespace Node

inductive Step (chains : Table (Node α)) : Node α → Node α → Prop where
  | child {n c : Node α} : c ∈ n.children → Step chains n c
  | call {id chain : String} {root : Node α} : chains.get? chain = some root →
      Step chains (call id chain) root

def Reaches (chains : Table (Node α)) : Node α → Node α → Prop :=
  ReflTransGen (Step chains)

theorem eq_call_of_callee {n : Node α} {chain : String} (h : n.callee? = some chain) :
    ∃ id, n = call id chain := by
  cases n with
  | call id callee =>
      obtain rfl := Option.some.inj h
      exact ⟨id, rfl⟩
  | _ => cases h

theorem mem_calls {n : Node α} {chain : String} :
    chain ∈ n.calls ↔ n.callee? = some chain ∨ ∃ c ∈ n.children, chain ∈ c.calls := by
  have hbelow : chain ∈ (n.children.flatMap walk).filterMap callee? ↔
      ∃ c ∈ n.children, chain ∈ c.calls := by
    rw [List.filterMap_flatMap, List.mem_flatMap]
    rfl
  rw [calls, walk_eq, List.filterMap_cons, ← hbelow]
  cases n.callee? with
  | none => simp
  | some callee => simp only [List.mem_cons, Option.some.injEq, eq_comm]

end Node

/-- A collection that has entered known chains, none of them twice. -/
structure Collected.Valid (chains : Table (Node α)) (c : Collected) : Prop where
  nodup : c.entered.Nodup
  known : c.entered ⊆ chains.keys

namespace Node

section Collect
variable {chains : Table (Node α)} {own : Node α → List String}
  {enter : Node α → Collected → Collected}

/-- Collects from nodes one after the other. -/
def collectAll (chains : Table (Node α)) (own : Node α → List String)
    (enter : Node α → Collected → Collected) (ns : List (Node α)) (c : Collected) : Collected :=
  ns.foldl (fun c n => n.collect chains own enter c) c

theorem collectSlot_eq {slot : List (Option (Node α))} {c : Collected} :
    collectSlot chains own enter slot c =
      collectAll chains own enter (slot.filterMap fun entry => entry) c := by
  induction slot generalizing c with
  | nil => simp [collectSlot, collectAll]
  | cons entry rest ih => cases entry <;> simp [collectSlot, collectAll, ih]

theorem collectFork_eq {fork : Fork α (Node α)} {c : Collected} :
    collectFork chains own enter fork c =
      collectSlot chains own enter fork.elseSlot
        (collectSlot chains own enter fork.thenSlot c) := by
  cases fork
  rw [collectFork]

theorem collectLadder_eq {ladder : List (List (Option (Node α)))} {c : Collected} :
    collectLadder chains own enter ladder c =
      ladder.foldl (fun c slot => collectSlot chains own enter slot c) c := by
  induction ladder generalizing c with
  | nil => rw [collectLadder, List.foldl_nil]
  | cons slot rest ih => rw [collectLadder, ih, List.foldl_cons]

/-- A collection takes the tickers of a node and goes on with its children in order. -/
theorem collect_eq {n : Node α} (h : n.callee? = none) (c : Collected) :
    n.collect chains own enter c = collectAll chains own enter n.children (c.add (own n)) := by
  have hslots : n.collect chains own enter c =
      n.slots.foldl (fun c slot => collectSlot chains own enter slot c) (c.add (own n)) := by
    cases n with
    | call id chain => cases h
    | _ => simp [collect, slots, collectFork_eq, collectLadder_eq]
  have hslot (slots : List (Slot α)) (c : Collected) :
      slots.foldl (fun c slot => collectSlot chains own enter slot c) c =
        collectAll chains own enter (slots.flatMap fun slot => slot.filterMap fun e => e) c := by
    induction slots generalizing c with
    | nil => rfl
    | cons slot rest ih =>
        rw [List.foldl_cons, ih, collectSlot_eq, List.flatMap_cons, collectAll, collectAll,
          collectAll, List.foldl_append]
  rw [hslots, hslot, children]

/-- Collects with at most `depth` calls inside each other. What lies deeper is left to
`beyond`. -/
def collectFrom (chains : Table (Node α)) (own : Node α → List String)
    (beyond : Node α → Collected → Collected) : Nat → Node α → Collected → Collected
  | 0 => beyond
  | depth + 1 => collect chains own (collectFrom chains own beyond depth)

theorem collectFrom_unchanged (depth : Nat) :
    collectFrom chains own (fun _ c => c) depth = collectWithin chains own depth := by
  induction depth with
  | zero => rfl
  | succ depth ih => rw [collectFrom, ih, collectWithin]

/-! ### What is found -/

/-- What is collected belongs to nodes of a set that steps do not leave. -/
def FoundAmong (own : Node α → List String) (Q : Node α → Prop) (c : Collected) : Prop :=
  ∀ t ∈ c.tickers.keys, ∃ d, Q d ∧ t ∈ own d

section Found
variable {Q : Node α → Prop} (hstep : ∀ {n d}, Q n → Step chains n d → Q d)
include hstep

theorem foundAmong_collect
    (henter : ∀ {root c}, Q root → FoundAmong own Q c → FoundAmong own Q (enter root c))
    (n : Node α) (hn : Q n) {c : Collected} (hc : FoundAmong own Q c) :
    FoundAmong own Q (n.collect chains own enter c) := by
  induction n using induction_on generalizing c with
  | step n ih =>
      cases hcallee : n.callee? with
      | none =>
          have hall {ns : List (Node α)} (hns : ∀ m ∈ ns, m ∈ n.children) {c : Collected}
              (hc : FoundAmong own Q c) : FoundAmong own Q (collectAll chains own enter ns c) := by
            induction ns generalizing c with
            | nil => exact hc
            | cons m rest ihrest =>
                obtain ⟨hm, hrest⟩ := List.forall_mem_cons.1 hns
                exact ihrest hrest (ih m hm (hstep hn (.child hm)) hc)
          rw [collect_eq hcallee]
          refine hall (fun _ hm => hm) fun t ht => ?_
          rcases Tickers.mem_keys_addAll.1 ht with ht | ht
          · exact ⟨n, hn, ht⟩
          · exact hc t ht
      | some chain =>
          obtain ⟨id, rfl⟩ := eq_call_of_callee hcallee
          simp only [collect]
          split
          · exact hc
          · next root hroot =>
              split
              · exact hc
              · exact henter (hstep hn (.call hroot)) hc

theorem foundAmong_collectWithin (depth : Nat) (n : Node α) (hn : Q n) {c : Collected}
    (hc : FoundAmong own Q c) : FoundAmong own Q (collectWithin chains own depth n c) := by
  induction depth generalizing n c with
  | zero => exact hc
  | succ depth ih => exact foundAmong_collect hstep (fun hroot hc => ih _ hroot hc) n hn hc

end Found

/-! ### What is missed -/

/-- A tree whose tickers are collected, and whose calls are entered if they are known. -/
structure Gathered (chains : Table (Node α)) (own : Node α → List String) (c : Collected)
    (n : Node α) : Prop where
  tickers {d : Node α} : d ∈ n.walk → own d ⊆ c.tickers.keys
  entered {chain : String} : chain ∈ n.calls → chain ∈ chains.keys → chain ∈ c.entered

/-- How a collection goes on: nothing is lost, and what it enters it gathers. -/
structure Progress (chains : Table (Node α)) (own : Node α → List String)
    (c c' : Collected) : Prop where
  valid : c'.Valid chains
  tickers : c.tickers.keys ⊆ c'.tickers.keys
  entered : c.entered ⊆ c'.entered
  gathers {chain : String} {root : Node α} : chain ∈ c'.entered → chain ∉ c.entered →
    chains.get? chain = some root → Gathered chains own c' root

namespace Progress

variable {c c' c'' : Collected} {n : Node α}

theorem refl (h : c.Valid chains) : Progress chains own c c :=
  ⟨h, fun _ ht => ht, fun _ hc => hc, fun h h' => absurd h h'⟩

theorem gathered (h : Progress chains own c c') (hn : Gathered chains own c n) :
    Gathered chains own c' n :=
  ⟨fun hd _ ht => h.tickers (hn.tickers hd ht), fun hc hk => h.entered (hn.entered hc hk)⟩

theorem trans (h : Progress chains own c c') (h' : Progress chains own c' c'') :
    Progress chains own c c'' where
  valid := h'.valid
  tickers _ ht := h'.tickers (h.tickers ht)
  entered _ hc := h'.entered (h.entered hc)
  gathers {chain root} hc hnew hroot := by
    by_cases hmem : chain ∈ c'.entered
    · exact h'.gathered (h.gathers hmem hnew hroot)
    · exact h'.gathers hc hmem hroot

/-- What is reached from a gathered tree lies in a gathered tree, if nothing was entered before. -/
theorem gathered_of_reaches (h : Progress chains own .start c) (hn : Gathered chains own c n)
    {d : Node α} (hd : Reaches chains n d) :
    ∃ tree, Gathered chains own c tree ∧ d ∈ tree.walk := by
  induction hd with
  | refl => exact ⟨n, hn, n.mem_walk_self⟩
  | tail _ hstep ih =>
      obtain ⟨tree, htree, hmem⟩ := ih
      cases hstep with
      | child hc => exact ⟨tree, htree, walk_subset hmem (mem_walk_of_child hc)⟩
      | @call id chain _ hroot =>
          have hcalls : chain ∈ tree.calls := List.mem_filterMap.2 ⟨_, hmem, rfl⟩
          have hentered := htree.entered hcalls (Table.mem_keys_iff.2 ⟨_, hroot⟩)
          exact ⟨_, h.gathers hentered List.not_mem_nil hroot, mem_walk_self _⟩

theorem length_le (h : Progress chains own c c') (hc : c.Valid chains) :
    c.entered.length ≤ c'.entered.length :=
  hc.nodup.length_le_of_subset h.entered

end Progress

/-- A step of a collection that gathers a node, if `reserve` calls inside each other suffice
for the chains that have not been entered. -/
def Gathers (chains : Table (Node α)) (own : Node α → List String) (reserve : Nat)
    (f : Node α → Collected → Collected) (n : Node α) : Prop :=
  ∀ {c}, c.Valid chains → chains.keys.length < reserve + c.entered.length →
    Progress chains own c (f n c) ∧ Gathered chains own (f n c) n

/-- Collecting from nodes gathers each of them if each step gathers its own. -/
theorem gathers_all {reserve : Nat} {ns : List (Node α)}
    (h : ∀ m ∈ ns, Gathers chains own reserve (collect chains own enter) m) {c : Collected}
    (hc : c.Valid chains) (hdepth : chains.keys.length < reserve + c.entered.length) :
    Progress chains own c (collectAll chains own enter ns c) ∧
      ∀ m ∈ ns, Gathered chains own (collectAll chains own enter ns c) m := by
  induction ns generalizing c with
  | nil => exact ⟨.refl hc, by simp⟩
  | cons m rest ih =>
      obtain ⟨hm, hrest⟩ := List.forall_mem_cons.1 h
      obtain ⟨hprogress, hgathered⟩ := hm hc hdepth
      have hlength := hprogress.length_le hc
      obtain ⟨hlater, hall⟩ := ih hrest hprogress.valid (by omega)
      constructor
      · exact hprogress.trans hlater
      · exact List.forall_mem_cons.2 ⟨hlater.gathered hgathered, hall⟩

theorem gathered_of_children {n : Node α} {c : Collected} (hcallee : n.callee? = none)
    (hown : own n ⊆ c.tickers.keys) (hchildren : ∀ m ∈ n.children, Gathered chains own c m) :
    Gathered chains own c n := by
  constructor
  · intro d hd
    rcases mem_walk.1 hd with rfl | ⟨m, hm, hd⟩
    · exact hown
    · exact (hchildren m hm).tickers hd
  · intro chain hchain hknown
    rcases mem_calls.1 hchain with h | ⟨m, hm, hchain⟩
    · rw [hcallee] at h
      cases h
    · exact (hchildren m hm).entered hchain hknown

section Missed
variable (hcall : ∀ id chain, own (call id chain) = [])
include hcall

theorem gathered_call {id chain : String} {c : Collected}
    (h : chain ∈ chains.keys → chain ∈ c.entered) : Gathered chains own c (call id chain) := by
  constructor
  · intro d hd
    obtain rfl : d = call id chain := by simpa [walk] using hd
    simp [hcall]
  · intro callee hcallee hknown
    rcases mem_calls.1 hcallee with heq | ⟨m, hm, -⟩
    · obtain rfl := Option.some.inj heq
      exact h hknown
    · simp [children, slots] at hm

theorem gathers_call {reserve : Nat} (henter : ∀ root, Gathers chains own reserve enter root)
    (id chain : String) :
    Gathers chains own (reserve + 1) (collect chains own enter) (call id chain) := by
  intro c hc hdepth
  simp only [collect]
  split
  · next hnone =>
      refine ⟨.refl hc, gathered_call hcall fun hknown => ?_⟩
      obtain ⟨root, hroot⟩ := Table.mem_keys_iff.1 hknown
      rw [hnone] at hroot
      cases hroot
  · next root hroot =>
      split
      · next hmem => exact ⟨.refl hc, gathered_call hcall fun _ => hmem⟩
      · next hnew =>
          -- The chain counts as entered before its root is gathered.
          have hvalid : Collected.Valid chains { c with entered := chain :: c.entered } :=
            ⟨List.nodup_cons.2 ⟨hnew, hc.nodup⟩,
              List.cons_subset.2 ⟨Table.mem_keys_iff.2 ⟨root, hroot⟩, hc.known⟩⟩
          obtain ⟨hprogress, hgathered⟩ := henter root hvalid
            (by rw [List.length_cons]; omega)
          generalize enter root { c with entered := chain :: c.entered } = c' at *
          have hentered : chain ∈ c'.entered := hprogress.entered List.mem_cons_self
          have hcalled : Gathered chains own c' (call id chain) :=
            gathered_call hcall fun _ => hentered
          refine ⟨⟨hprogress.valid, hprogress.tickers, ?_, ?_⟩, hcalled⟩
          · exact fun _ h => hprogress.entered (List.mem_cons_of_mem _ h)
          · intro other root' hother hfresh hroot'
            by_cases heq : other = chain
            · subst heq
              obtain rfl : root = root' := Option.some.inj (hroot.symm.trans hroot')
              exact hgathered
            · exact hprogress.gathers hother (by simp [heq, hfresh]) hroot'

theorem gathers_collect {reserve : Nat} (henter : ∀ root, Gathers chains own reserve enter root)
    (n : Node α) : Gathers chains own (reserve + 1) (collect chains own enter) n := by
  induction n using induction_on with
  | step n ih =>
      intro c hc hdepth
      cases hcallee : n.callee? with
      | none =>
          rw [collect_eq hcallee]
          have hadd : Progress chains own c (c.add (own n)) :=
            ⟨⟨hc.nodup, hc.known⟩, fun _ ht => Tickers.mem_keys_addAll.2 (.inr ht),
              fun _ hm => hm, fun hm hnew => absurd hm hnew⟩
          obtain ⟨hprogress, hall⟩ := gathers_all ih hadd.valid hdepth
          refine ⟨hadd.trans hprogress, gathered_of_children hcallee ?_ hall⟩
          exact fun _ ht => hprogress.tickers (Tickers.mem_keys_addAll.2 (.inl ht))
      | some chain =>
          obtain ⟨id, rfl⟩ := eq_call_of_callee hcallee
          exact gathers_call hcall henter id chain hc hdepth

/-- What lies beyond a depth that suffices has no say in what is gathered. -/
theorem gathers_collectFrom (beyond : Node α → Collected → Collected) (depth : Nat) (n : Node α) :
    Gathers chains own depth (collectFrom chains own beyond depth) n := by
  induction depth generalizing n with
  | zero =>
      intro c hc hdepth
      have := hc.nodup.length_le_of_subset hc.known
      omega
  | succ depth ih => exact gathers_collect hcall ih n

/-- A collection finds the tickers of the nodes that are reached, and no others. -/
theorem mem_reachableTickers {n : Node α} {t : String} :
    t ∈ (n.reachableTickers chains own).keys ↔ ∃ d, Reaches chains n d ∧ t ∈ own d := by
  constructor
  · have hstart : FoundAmong own (Reaches chains n) .start := by
      intro t ht
      cases ht
    exact fun ht => foundAmong_collectWithin (fun hn hs => hn.tail hs) _ n .refl hstart t ht
  · rintro ⟨d, hd, ht⟩
    have hstart : Collected.start.Valid chains := ⟨List.nodup_nil, List.nil_subset _⟩
    have hdepth : chains.keys.length <
        chains.entries.length + 1 + Collected.start.entered.length := by
      rw [Table.keys, List.length_map]
      omega
    obtain ⟨hprogress, hgathered⟩ := gathers_collectFrom hcall (fun _ c => c) _ n hstart hdepth
    rw [collectFrom_unchanged] at hprogress hgathered
    obtain ⟨tree, htree, hmem⟩ := hprogress.gathered_of_reaches hgathered hd
    exact htree.tickers hmem ht

end Missed
end Collect

theorem mem_positionTickers {chains : Table (Node α)} {n : Node α} {t : String} :
    t ∈ (n.positionTickers chains).keys ↔ ∃ d, Reaches chains n d ∧ t ∈ d.heldTickers :=
  mem_reachableTickers fun _ _ => rfl

end Node

namespace Strategy

variable {s : Strategy α} {n : Node α}

theorem mem_anchorTickers {t : String} :
    t ∈ s.anchorTickers.keys ↔ ∃ d, s.root.Reaches s.chains d ∧ t ∈ d.ownTickers :=
  Node.mem_reachableTickers fun _ _ => rfl

theorem anchor_of_own (hn : s.root.Reaches s.chains n) {t : String} (ht : t ∈ n.ownTickers) :
    t ∈ s.anchorTickers.keys :=
  mem_anchorTickers.2 ⟨n, hn, ht⟩

/-- What a node that is reached may select from can be held. -/
theorem anchor_of_candidate (hn : s.root.Reaches s.chains n) {t : String}
    (ht : t ∈ (n.positionTickers s.chains).keys) : t ∈ s.anchorTickers.keys := by
  obtain ⟨d, hd, ht⟩ := Node.mem_positionTickers.1 ht
  exact anchor_of_own (hn.trans hd) (List.mem_append_left _ (List.mem_append_left _ ht))

end Strategy
end StrategyTree
