import StrategyTree.Proofs.Document.Grammar
import StrategyTree.Proofs.Table
/-!
# Gathered ladders

What an object holds after its ladder keys have been gathered: the values of the keys that
no later one overwrites, and `null` in every other slot.
-/
namespace StrategyTree

open Outcome

variable {α : Type}

namespace Ladder

/-! ### Slots -/

theorem getElem?_place {slots : List (Json α)} {index : Nat} {v : Json α} (j : Nat) :
    (place slots index v)[j]? =
      if j = index then some v
      else if j < slots.length then slots[j]?
      else if j < index then some .null
      else none := by
  unfold place
  split
  · next h =>
      rw [List.getElem?_set]
      grind
  · next h =>
      rw [List.append_assoc]
      grind

theorem length_place (slots : List (Json α)) (index : Nat) (v : Json α) :
    (place slots index v).length = max slots.length (index + 1) := by
  unfold place
  split
  · rw [List.length_set]
    omega
  · simp only [List.length_append, List.length_replicate, List.length_singleton]
    omega

theorem placeAll_cons_ok {slots gathered : List (Json α)} {m : String × Json α} {rungs : Members α}
    (h : placeAll slots (m :: rungs) = .ok gathered) :
    ∃ n, rungIndex? m.1 = some n ∧ placeAll (place slots n m.2) rungs = .ok gathered := by
  rw [placeAll] at h
  split at h
  · cases h
  · next n hindex =>
      split at h
      · exact ⟨n, hindex, h⟩
      · cases h

/-- No slot has a higher number than the most slots allow. -/
theorem succeeds_placeAll {slots : List (Json α)} {rungs : Members α}
    (h : slots.length ≤ maxSlots) :
    Succeeds (placeAll slots rungs) ↔ rungs.Numbered := by
  unfold Members.Numbered
  induction rungs generalizing slots with
  | nil => exact iff_of_true (succeeds_ok slots) (by simp)
  | cons m rest ih =>
      obtain ⟨key, v⟩ := m
      rw [placeAll, List.forall_mem_cons]
      cases hindex : rungIndex? key with
      | none => simp
      | some n =>
          by_cases hn : n < maxSlots
          · have hlength : (place slots n v).length ≤ maxSlots := by
              rw [length_place]
              omega
            simp [hn, ih hlength]
          · have hlong : ¬n < slots.length := by omega
            simp [hlong, hn]

theorem forall_mem_lasting_cons {P : Json α → Prop} {m : String × Json α} {rest : Members α} :
    (∀ x ∈ Members.lasting (m :: rest), P x.2) ↔
      ((∀ later ∈ rest, rungIndex? later.1 ≠ rungIndex? m.1) → P m.2) ∧
        ∀ x ∈ rest.lasting, P x.2 := by
  rw [Members.lasting]
  split
  · next h =>
      obtain ⟨later, hmem, hindex⟩ := h
      exact (and_iff_right fun hlast => absurd hindex (hlast later hmem)).symm
  · next h =>
      have hlast : ∀ later ∈ rest, rungIndex? later.1 ≠ rungIndex? m.1 :=
        fun later hmem hindex => h ⟨later, hmem, hindex⟩
      rw [List.forall_mem_cons, forall_prop_of_true hlast]

/-- The value is in a slot that none of the ladder keys overwrites. -/
def Untouched (slots : List (Json α)) (rungs : Members α) (v : Json α) : Prop :=
  ∃ j : Nat, slots[j]? = some v ∧ ∀ m ∈ rungs, rungIndex? m.1 ≠ some j

theorem untouched_nil {slots : List (Json α)} {v : Json α} :
    Untouched slots [] v ↔ v ∈ slots := by
  simp [Untouched, List.mem_iff_getElem?]

/-- After a value has been placed, a slot that later keys leave alone has that value, was left
alone before, or has been added to reach the place. -/
theorem forall_untouched_place {P : Json α → Prop} (hnull : P .null) {slots : List (Json α)}
    {m : String × Json α} {rest : Members α} {n : Nat} (hindex : rungIndex? m.1 = some n) :
    (∀ v, Untouched (place slots n m.2) rest v → P v) ↔
      (∀ v, Untouched slots (m :: rest) v → P v) ∧
        ((∀ later ∈ rest, rungIndex? later.1 ≠ rungIndex? m.1) → P m.2) := by
  rw [hindex]
  constructor
  · intro hplaced
    refine ⟨?kept, fun hlast => hplaced m.2 ⟨n, ?_, hlast⟩⟩
    case kept =>
      rintro v ⟨j, hj, hnone⟩
      obtain ⟨hne, hrest⟩ := List.forall_mem_cons.1 hnone
      have hj' : j ≠ n := fun heq => hne (heq ▸ hindex)
      have hlt : j < slots.length := (List.getElem?_eq_some_iff.1 hj).1
      refine hplaced v ⟨j, ?_, hrest⟩
      rwa [getElem?_place, if_neg hj', if_pos hlt]
    rw [getElem?_place, if_pos rfl]
  · rintro ⟨hkept, hlast⟩ v ⟨j, hj, hrest⟩
    rw [getElem?_place] at hj
    split at hj
    · next heq =>
        obtain rfl := Option.some.inj hj
        exact hlast (heq ▸ hrest)
    · next hne =>
        have hfirst : rungIndex? m.1 ≠ some j :=
          fun heq => hne (Option.some.inj (heq.symm.trans hindex))
        split at hj
        · exact hkept v ⟨j, hj, List.forall_mem_cons.2 ⟨hfirst, hrest⟩⟩
        · split at hj
          · obtain rfl := Option.some.inj hj
            exact hnull
          · cases hj

/-- A property of `null` is had by all slots if it is had by the values that last: those of
ladder keys, and those in slots that no key overwrites. -/
theorem forall_mem_placeAll {P : Json α → Prop} (hnull : P .null) {slots gathered : List (Json α)}
    {rungs : Members α} (h : placeAll slots rungs = .ok gathered) :
    (∀ v ∈ gathered, P v) ↔
      (∀ v, Untouched slots rungs v → P v) ∧ ∀ m ∈ rungs.lasting, P m.2 := by
  induction rungs generalizing slots with
  | nil =>
      obtain rfl := Except.ok.inj h
      simp [untouched_nil, Members.lasting]
  | cons m rest ih =>
      obtain ⟨n, hindex, h⟩ := placeAll_cons_ok h
      rw [ih h, forall_untouched_place hnull hindex, forall_mem_lasting_cons, and_assoc]

/-! ### Gathering -/

variable {members gathered : Members α}

theorem succeeds_gather : Succeeds (gather members) ↔
    (members.rungs = [] ∨ members.lookup "ladder" = none) ∧ members.rungs.Numbered := by
  unfold gather
  change Succeeds (if members.rungs.isEmpty then _ else _) ↔ _
  by_cases hrungs : members.rungs = []
  · simp [hrungs, Members.Numbered]
  · rw [if_neg (by simpa using hrungs)]
    cases hladder : members.lookup "ladder" with
    | some v => simp [hrungs]
    | none =>
        rw [if_neg (by simp), succeeds_bind_of fun _ => iff_of_true (succeeds_pure _) trivial]
        simp only [and_true, or_true, true_and]
        exact succeeds_placeAll (Nat.zero_le _)

theorem lookup_plain {key : String} (h : isRung key = false) :
    (members.filter fun m => !isRung m.1).lookup key = members.lookup key := by
  rw [Table.lookup_filter (fun k => !isRung k), if_pos (by simp [h])]

/-- Gathering leaves an object without ladder keys alone. In any other it drops the ladder
keys and adds a key for all slots. -/
theorem gather_ok (h : gather members = .ok gathered) :
    members.rungs = [] ∧ gathered = members ∨
      members.lookup "ladder" = none ∧ ∃ slots before after,
        placeAll [] members.rungs = .ok slots ∧
        members.filter (fun m => !isRung m.1) = before ++ after ∧
        gathered = before ++ ("ladder", .array slots) :: after := by
  unfold gather at h
  change (if members.rungs.isEmpty then _ else _) = _ at h
  split at h
  · next hrungs => exact .inl ⟨List.isEmpty_iff.1 hrungs, (Except.ok.inj h).symm⟩
  · split at h
    · cases h
    · next hladder =>
        right
        have habsent : members.lookup "ladder" = none := Option.not_isSome_iff_eq_none.1 hladder
        have hplain : (members.filter fun m => !isRung m.1).lookup "ladder" = none := by
          rw [lookup_plain (by decide), habsent]
        obtain ⟨slots, hslots, h⟩ := bind_ok.1 h
        obtain ⟨before, after, hfilter, hadded⟩ := Table.alterEntries_of_absent hplain
          (f := fun _ => .array slots)
        exact ⟨habsent, slots, before, after, hslots, hfilter,
          (Except.ok.inj h).symm.trans hadded⟩

/-- The keys that gathering leaves, besides the one that it adds. -/
theorem forall_key_gathered {P : String → Prop} (hladder : P "ladder")
    (h : gather members = .ok gathered) :
    (∀ m ∈ gathered, P m.1) ↔ ∀ m ∈ members, isRung m.1 = false → P m.1 := by
  rcases gather_ok h with ⟨hrungs, rfl⟩ | ⟨-, slots, before, after, -, hfilter, rfl⟩
  · have hplain : ∀ m ∈ gathered, isRung m.1 = false :=
      fun m hm => by simpa using List.filter_eq_nil_iff.1 hrungs m hm
    exact forall₂_congr fun m hm => by simp [hplain m hm]
  · have hplain : (∀ m ∈ members, isRung m.1 = false → P m.1) ↔ ∀ m ∈ before ++ after, P m.1 := by
      simp [← hfilter]
    rw [hplain, List.forall_mem_append, List.forall_mem_append, List.forall_mem_cons,
      and_iff_right hladder]

theorem lookup_gathered {key : String} (hladder : key ≠ "ladder") (hkey : isRung key = false)
    (h : gather members = .ok gathered) : gathered.lookup key = members.lookup key := by
  rcases gather_ok h with ⟨-, rfl⟩ | ⟨-, slots, before, after, -, hfilter, rfl⟩
  · rfl
  · have hplain : (members.filter fun m => !isRung m.1).lookup key = members.lookup key :=
      lookup_plain hkey
    rw [← hplain, hfilter, List.lookup_append, List.lookup_append, Table.lookup_cons_ne hladder]

theorem lookup_ladder_gathered (h : gather members = .ok gathered) :
    members.rungs = [] ∧ gathered.lookup "ladder" = members.lookup "ladder" ∨
      members.lookup "ladder" = none ∧ ∃ slots, placeAll [] members.rungs = .ok slots ∧
        gathered.lookup "ladder" = some (.array slots) := by
  rcases gather_ok h with ⟨hrungs, rfl⟩ | ⟨habsent, slots, before, after, hslots, hfilter, rfl⟩
  · exact .inl ⟨hrungs, rfl⟩
  · refine .inr ⟨habsent, slots, hslots, ?_⟩
    have hbefore : (before ++ after).lookup "ladder" = none := by
      rw [← hfilter, lookup_plain (by decide), habsent]
    rw [List.lookup_append] at hbefore ⊢
    rw [(Option.or_eq_none_iff.1 hbefore).1, Table.lookup_cons_self]
    rfl

end Ladder
end StrategyTree
