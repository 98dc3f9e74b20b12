import Mathlib.Data.List.Chain
import Mathlib.Data.List.Nodup
import Mathlib.Logic.Relation
import StrategyTree.Proofs.Outcome
import StrategyTree.Proofs.Table
import StrategyTree.Strategy.CallGraph
/-!
# Soundness of the search for cycles

The search keeps a set of chains that is closed under edges and from which no
cycle starts. What stands on the path is outside of the set, so a chain that is
added cannot be reached from the chains that it calls. A search that is refused
has followed edges back to a chain of its path.
-/
namespace StrategyTree.CallGraph

open Outcome Relation

variable {α : Type}

def Calls (chains : Table (Node α)) (caller callee : String) : Prop :=
  callee ∈ edges chains caller

/-- A set of chains that contains what its chains call, and no cycle. -/
structure Settled (edges : String → List String) (done : List String) : Prop where
  closed {id callee : String} : id ∈ done → callee ∈ edges id → callee ∈ done
  acyclic {id : String} : id ∈ done → ¬ TransGen (fun a b => b ∈ edges a) id id

namespace Settled

variable {edges : String → List String} {done : List String}

theorem nil : Settled edges [] :=
  ⟨fun h => absurd h List.not_mem_nil, fun h => absurd h List.not_mem_nil⟩

/-- What is reached from a settled set lies in it. -/
theorem mem_of_reach (h : Settled edges done) {a b : String}
    (hab : ReflTransGen (fun a b => b ∈ edges a) a b) (ha : a ∈ done) : b ∈ done := by
  induction hab with
  | refl => exact ha
  | tail _ hbc ih => exact h.closed ih hbc

/-- A chain that only calls settled chains, and is not one of them, is settled next. -/
theorem cons (h : Settled edges done) {id : String} (hid : id ∉ done)
    (hedges : ∀ callee ∈ edges id, callee ∈ done) : Settled edges (id :: done) := by
  constructor
  · intro a callee ha hc
    refine List.mem_cons_of_mem _ ?_
    rcases List.mem_cons.1 ha with rfl | ha
    · exact hedges callee hc
    · exact h.closed ha hc
  · intro a ha hcycle
    rcases List.mem_cons.1 ha with rfl | ha
    · obtain ⟨callee, hc, hreach⟩ := TransGen.head'_iff.1 hcycle
      exact hid (h.mem_of_reach hreach (hedges callee hc))
    · exact h.acyclic ha hcycle

end Settled

/-- What a search that was not refused has done below a path. -/
structure Extends (edges : String → List String) (path done done' : List String) : Prop where
  settled : Settled edges done'
  subset : done ⊆ done'
  fresh {id : String} : id ∈ path → id ∈ done' → id ∈ done

section Search

variable {edges : String → List String} {keys : List String}

theorem foldlM_extends {depth : Nat} {path : List String}
    (visits : ∀ {done done' id}, Settled edges done →
      visit edges depth path done id = .ok done' → Extends edges path done done' ∧ id ∈ done')
    {ids done done' : List String} (hdone : Settled edges done)
    (h : ids.foldlM (visit edges depth path) done = .ok done') :
    Extends edges path done done' ∧ ids ⊆ done' := by
  induction ids generalizing done with
  | nil =>
      cases h
      exact ⟨⟨hdone, fun _ h => h, fun _ h => h⟩, List.nil_subset _⟩
  | cons id rest ih =>
      rw [List.foldlM_cons] at h
      obtain ⟨next, hv, h⟩ := bind_ok.1 h
      obtain ⟨hnext, hid⟩ := visits hdone hv
      obtain ⟨hrest, hsub⟩ := ih hnext.settled h
      refine ⟨⟨hrest.settled, fun a ha => hrest.subset (hnext.subset ha), ?_⟩, ?_⟩
      · exact fun hp ha => hnext.fresh hp (hrest.fresh hp ha)
      · exact List.cons_subset.2 ⟨hrest.subset hid, hsub⟩

/-- The depth is never used up: the path below the keys grows with each step down. -/
theorem visit_extends (hkeys : ∀ id, id ∉ keys → edges id = []) {depth : Nat}
    {path done done' : List String} {id : String} (hnodup : path.Nodup) (hsub : path ⊆ keys)
    (hdepth : keys.length < depth + path.length) (hdone : Settled edges done)
    (h : visit edges depth path done id = .ok done') :
    Extends edges path done done' ∧ id ∈ done' := by
  induction depth generalizing path done done' id with
  | zero =>
      have := hnodup.length_le_of_subset hsub
      omega
  | succ depth ih =>
      rw [visit] at h
      split at h
      · next hmem =>
          cases h
          exact ⟨⟨hdone, fun _ h => h, fun _ h => h⟩, hmem⟩
      split at h
      · cases h
      next hnew hpath =>
      obtain ⟨inner, hf, h⟩ := bind_ok.1 h
      obtain rfl : id :: inner = done' := Except.ok.inj h
      have key : Extends edges (path ++ [id]) done inner ∧ edges id ⊆ inner := by
        by_cases hk : id ∈ keys
        · refine foldlM_extends (fun hd hv => ih ?_ ?_ ?_ hd hv) hdone hf
          · simpa using hnodup.concat hpath
          · exact List.append_subset.2 ⟨hsub, by simpa using hk⟩
          · rw [List.length_append, List.length_singleton]
            omega
        · rw [hkeys id hk] at hf ⊢
          cases hf
          exact ⟨⟨hdone, fun _ h => h, fun _ h => h⟩, List.nil_subset _⟩
      obtain ⟨hinner, hedges⟩ := key
      have hid : id ∉ inner := fun hm => hnew (hinner.fresh (by simp) hm)
      refine ⟨⟨hinner.settled.cons hid fun _ hc => hedges hc, ?_, ?_⟩, List.mem_cons_self⟩
      · exact fun a ha => List.mem_cons_of_mem _ (hinner.subset ha)
      · intro a ha hm
        rcases List.mem_cons.1 hm with rfl | hm
        · exact absurd ha hpath
        · exact hinner.fresh (List.mem_append_left _ ha) hm

/-- A search is refused where the path leads back to one of its own chains. -/
theorem visit_error {depth : Nat} {path done : List String} {id : String} {e : Failure}
    (hpath : (path ++ [id]).IsChain fun a b => b ∈ edges a)
    (h : visit edges depth path done id = .error e) :
    ∃ chain cycle, e = .callCycle chain cycle ∧ chain ∈ cycle ∧
      (cycle ++ [chain]).IsChain fun a b => b ∈ edges a := by
  induction depth generalizing path done id with
  | zero => cases h
  | succ depth ih =>
      rw [visit] at h
      split at h
      · cases h
      split at h
      · next hid =>
          cases h
          exact ⟨id, path, rfl, hid, hpath⟩
      rcases bind_error.1 h with h | ⟨_, -, h⟩
      · obtain ⟨callee, hcallee, _, hvisit⟩ := foldlM_error h
        refine ih ?_ hvisit
        rw [List.append_assoc, List.singleton_append, List.isChain_split]
        exact ⟨hpath, by simpa using hcallee⟩
      · cases h

/-- A walk along edges that ends where it has been closes a cycle. -/
theorem transGen_of_isChain {cycle : List String} {chain : String} (hmem : chain ∈ cycle)
    (h : (cycle ++ [chain]).IsChain fun a b => b ∈ edges a) :
    TransGen (fun a b => b ∈ edges a) chain chain := by
  obtain ⟨before, after, rfl⟩ := List.append_of_mem hmem
  rw [List.append_assoc, List.cons_append, List.isChain_split] at h
  cases after with
  | nil =>
      have hedge : chain ∈ edges chain := by simpa using h.2
      exact .single hedge
  | cons next rest =>
      rw [List.cons_append, List.isChain_cons_cons] at h
      have hlast : (next :: (rest ++ [chain])).getLast (List.cons_ne_nil _ _) = chain := by simp
      exact .head' h.2.1 (List.relationReflTransGen_of_exists_isChain_cons _ h.2.2 hlast)

end Search

theorem edges_eq_nil {chains : Table (Node α)} {id : String} (h : id ∉ chains.keys) :
    edges chains id = [] := by
  have hnone : chains.get? id = none := by
    rcases hc : chains.get? id with _ | root
    · rfl
    · exact absurd (Table.mem_keys_iff.2 ⟨root, hc⟩) h
  rw [edges, hnone]
  rfl

/-- A table of chains that the check accepts has no chain that reaches itself. -/
theorem acyclic_of_check {chains : Table (Node α)} (h : check chains = .ok ()) (id : String) :
    ¬ TransGen (Calls chains) id id := by
  rw [check] at h
  obtain ⟨done, hf, -⟩ := bind_ok.1 h
  obtain ⟨hext, hsub⟩ := foldlM_extends (fun hd hv =>
    visit_extends (fun _ => edges_eq_nil) List.nodup_nil (List.nil_subset _) (by simp) hd hv)
    .nil hf
  intro hcycle
  by_cases hk : id ∈ chains.keys
  · exact hext.settled.acyclic (hsub hk) hcycle
  · obtain ⟨callee, hc, -⟩ := TransGen.head'_iff.1 hcycle
    rw [Calls, edges_eq_nil hk] at hc
    cases hc

/-- A table of chains is refused for a walk along edges back to one of its chains. -/
theorem check_error {chains : Table (Node α)} {e : Failure} (h : check chains = .error e) :
    ∃ chain cycle, e = .callCycle chain cycle ∧ chain ∈ cycle ∧
      (cycle ++ [chain]).IsChain (Calls chains) := by
  rcases bind_error.1 h with h | ⟨_, -, h⟩
  · obtain ⟨id, -, _, hvisit⟩ := foldlM_error h
    exact visit_error (List.isChain_singleton id) hvisit
  · cases h

theorem check_ok_iff {chains : Table (Node α)} :
    check chains = .ok () ↔ ∀ id, ¬ TransGen (Calls chains) id id := by
  constructor
  · exact acyclic_of_check
  · intro hacyclic
    cases hc : check chains with
    | ok => rfl
    | error e =>
        obtain ⟨chain, cycle, -, hmem, hwalk⟩ := check_error hc
        exact absurd (transGen_of_isChain hmem hwalk) (hacyclic chain)

end StrategyTree.CallGraph
