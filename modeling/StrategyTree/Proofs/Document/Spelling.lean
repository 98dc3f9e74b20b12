import Mathlib.Order.Bounds.Basic
import Mathlib.Tactic.IntervalCases
import StrategyTree.Proofs.Document.Placeholders
/-!
# Spellings of a ladder

The slots of a ladder are written as one list, or each under a key with its number. What is
gathered from ladder keys has in each slot the value of the last key with that number, in key
order, and ends with the slot of the largest number. So both spellings are read as the same node,
also if slots without nodes are left out below the last one.
-/
namespace StrategyTree

open Outcome

variable {α : Type}

namespace Ladder

/-! ### Keys of slots -/

/-- The key of a slot, with the number as it is usually written. -/
def rungKey (index : Nat) : String :=
  "ladder-" ++ toString index

theorem value_digits (n : Nat) : Decimal.value (Decimal.digits n) = n := by
  have hfold : Decimal.value (Decimal.digits n) = Nat.ofDigitChars 10 (Nat.toDigits 10 n) 0 := by
    unfold Decimal.value Decimal.digits Nat.ofDigitChars
    simp only [Nat.mul_comm]
    rfl
  rw [hfold, Nat.ofDigitChars_toDigits (by decide) (by decide)]

theorem natOfDigits?_digits (n : Nat) : natOfDigits? (Decimal.digits n) = some n := by
  have hdigit : ∀ c ∈ Decimal.digits n, c.isDigit = true :=
    fun c hc => Nat.isDigit_of_mem_toDigits (by decide) (by decide) hc
  have hnonempty : Decimal.digits n ≠ [] := Nat.toDigits_ne_nil
  have hunsigned : withoutPlus (Decimal.digits n) = Decimal.digits n := by
    unfold withoutPlus
    split
    · next rest heq =>
        have hplus := hdigit '+' (heq ▸ List.mem_cons_self)
        exact absurd hplus (by decide)
    · rfl
  have hall : (Decimal.digits n).all Char.isDigit = true := List.all_eq_true.2 hdigit
  simp [natOfDigits?, hunsigned, hnonempty, hall, value_digits]

theorem rungText?_rungKey (n : Nat) : rungText? (rungKey n) = some (Decimal.digits n) := by
  have hdigits : (toString n).toList = Decimal.digits n := by
    rw [Nat.toString_eq_ofList_toDigits, String.toList_ofList, Decimal.digits]
  have htext : (rungKey n).toList = "ladder-".toList ++ Decimal.digits n := by
    rw [rungKey, String.toList_append, hdigits]
  have hlength : "ladder-".toList.length = 7 := by decide
  rw [rungText?, htext, ← hlength, List.take_left, List.drop_left, if_pos rfl]

theorem rungIndex?_rungKey {n : Nat} (h : n < Nat.pow 2 64) : rungIndex? (rungKey n) = some n := by
  simp [rungIndex?, rungText?_rungKey, natOfDigits?_digits, h]

theorem isRung_rungKey (n : Nat) : isRung (rungKey n) = true := by
  rw [isRung, rungText?_rungKey]
  rfl

/-! ### Gathered slots -/

variable {slots gathered : List (Json α)} {rungs : Members α}

theorem length_le_placeAll (h : placeAll slots rungs = .ok gathered) :
    slots.length ≤ gathered.length := by
  induction rungs generalizing slots with
  | nil => exact (congrArg List.length (Except.ok.inj h)).le
  | cons m rest ih =>
      obtain ⟨n, hindex, h⟩ := placeAll_cons_ok h
      have hle := ih h
      rw [length_place] at hle
      omega

theorem lt_length_placeAll (h : placeAll slots rungs = .ok gathered) {m : String × Json α}
    (hm : m ∈ rungs) {n : Nat} (hindex : rungIndex? m.1 = some n) : n < gathered.length := by
  induction rungs generalizing slots with
  | nil => cases hm
  | cons first rest ih =>
      obtain ⟨k, hfirst, h⟩ := placeAll_cons_ok h
      rcases List.mem_cons.1 hm with rfl | hm
      · obtain rfl := Option.some.inj (hindex.symm.trans hfirst)
        have hle := length_le_placeAll h
        rw [length_place] at hle
        omega
      · exact ih h hm

/-- The largest number decides on the length. -/
theorem length_placeAll (h : placeAll slots rungs = .ok gathered) :
    gathered.length = slots.length ∨
      ∃ m ∈ rungs, ∃ n, rungIndex? m.1 = some n ∧ gathered.length = n + 1 := by
  induction rungs generalizing slots with
  | nil => exact .inl (congrArg List.length (Except.ok.inj h)).symm
  | cons m rest ih =>
      obtain ⟨n, hindex, h⟩ := placeAll_cons_ok h
      rcases ih h with hlength | ⟨later, hlater, k, hk, hlength⟩
      · rw [length_place] at hlength
        rcases Nat.le_total slots.length (n + 1) with hle | hle
        · exact .inr ⟨m, List.mem_cons_self, n, hindex, by omega⟩
        · exact .inl (by omega)
      · exact .inr ⟨later, List.mem_cons_of_mem _ hlater, k, hk, hlength⟩

/-- A slot that no key names keeps its value, and is `null` if it had none. -/
theorem getElem?_placeAll_unnamed (h : placeAll slots rungs = .ok gathered) {j : Nat}
    (hj : j < gathered.length) (hnone : ∀ m ∈ rungs, rungIndex? m.1 ≠ some j) :
    gathered[j]? = some ((slots[j]?).getD .null) := by
  induction rungs generalizing slots with
  | nil =>
      obtain rfl := Except.ok.inj h
      rw [List.getElem?_eq_getElem hj]
      rfl
  | cons m rest ih =>
      obtain ⟨n, hindex, h⟩ := placeAll_cons_ok h
      obtain ⟨hfirst, hrest⟩ := List.forall_mem_cons.1 hnone
      have hne : j ≠ n := fun heq => hfirst (heq ▸ hindex)
      rw [ih h hrest, getElem?_place, if_neg hne]
      split
      · rfl
      · next hge =>
          have habsent : slots[j]? = none := List.getElem?_eq_none (Nat.le_of_not_lt hge)
          rw [habsent]
          split <;> rfl

/-- A slot has the value of the key that names it last. -/
theorem getElem?_placeAll_lasting (h : placeAll slots rungs = .ok gathered) {m : String × Json α}
    (hm : m ∈ rungs.lasting) {j : Nat} (hindex : rungIndex? m.1 = some j) :
    gathered[j]? = some m.2 := by
  induction rungs generalizing slots with
  | nil => cases hm
  | cons first rest ih =>
      obtain ⟨n, hfirst, hplaced⟩ := placeAll_cons_ok h
      rw [Members.lasting] at hm
      split at hm
      · exact ih hplaced hm
      · next hlast =>
          rcases List.mem_cons.1 hm with rfl | hm
          · obtain rfl := Option.some.inj (hindex.symm.trans hfirst)
            have hnone : ∀ later ∈ rest, rungIndex? later.1 ≠ some j :=
              fun later hlater heq => hlast ⟨later, hlater, heq.trans hindex.symm⟩
            have hj := lt_length_placeAll h List.mem_cons_self hindex
            rw [getElem?_placeAll_unnamed hplaced hj hnone, getElem?_place, if_pos rfl]
            rfl
          · exact ih hplaced hm

/-- The last of the keys with a number. -/
theorem exists_lasting {index : Option Nat} (h : ∃ m ∈ rungs, rungIndex? m.1 = index) :
    ∃ m ∈ rungs.lasting, rungIndex? m.1 = index := by
  induction rungs with
  | nil => simp at h
  | cons first rest ih =>
      rw [Members.lasting]
      by_cases hrest : ∃ m ∈ rest, rungIndex? m.1 = index
      · obtain ⟨m, hm, hindex⟩ := ih hrest
        split
        · exact ⟨m, hm, hindex⟩
        · exact ⟨m, List.mem_cons_of_mem _ hm, hindex⟩
      · obtain ⟨m, hm, hindex⟩ := h
        rcases List.mem_cons.1 hm with rfl | hm
        · rw [if_neg (by rwa [hindex])]
          exact ⟨m, List.mem_cons_self, hindex⟩
        · exact absurd ⟨m, hm, hindex⟩ hrest

/-- Of keys in ascending order the last with a number is the greatest. -/
theorem not_lt_of_lasting (hascending : rungs.Pairwise fun a b => a.1 < b.1)
    {m other : String × Json α} (hm : m ∈ rungs.lasting) (hother : other ∈ rungs)
    (hindex : rungIndex? other.1 = rungIndex? m.1) : ¬m.1 < other.1 := by
  induction rungs with
  | nil => cases hm
  | cons first rest ih =>
      obtain ⟨hfirst, hrest⟩ := List.pairwise_cons.1 hascending
      have hlater (hlasting : m ∈ Members.lasting rest) : ¬m.1 < other.1 := by
        rcases List.mem_cons.1 hother with rfl | hother
        · exact String.lt_asymm (hfirst m (Members.mem_of_mem_lasting hlasting))
        · exact ih hrest hlasting hother
      rw [Members.lasting] at hm
      split at hm
      · exact hlater hm
      · next hlast =>
          rcases List.mem_cons.1 hm with rfl | hm
          · rcases List.mem_cons.1 hother with rfl | hother
            · exact String.lt_irrefl _
            · exact absurd ⟨other, hother, hindex⟩ hlast
          · exact hlater hm

/-! ### Gathering -/

/-- What gathering makes of an object with ladder keys and no key for all slots. The other
members are left alone. The key for all slots takes the place of the ladder keys, and there are
as many slots as it takes to reach the largest number. A slot has the value of the last key with
its number, or `null`. -/
structure Folds (members gathered : Table (Json α)) (slots : List (Json α)) : Prop where
  plain {key : String} : isRung key = false → key ≠ "ladder" →
    gathered.get? key = members.get? key
  rungs {key : String} : isRung key = true → gathered.get? key = none
  ladder : gathered.get? "ladder" = some (.array slots)
  length : ∃ largest, slots.length = 1 + largest ∧
    IsGreatest {n | ∃ key ∈ members.keys, rungIndex? key = some n} largest
  named {index : Nat} : (∃ key ∈ members.keys, rungIndex? key = some index) →
    ∃ key v, members.get? key = some v ∧ rungIndex? key = some index ∧
      (∀ other ∈ members.keys, rungIndex? other = some index → ¬key < other) ∧
      slots[index]? = some v
  unnamed {index : Nat} : index < slots.length →
    (∀ key ∈ members.keys, rungIndex? key ≠ some index) → slots[index]? = some .null

section Gather
variable {members : Table (Json α)}

theorem mem_rungs_iff {m : String × Json α} : m ∈ Members.rungs members.entries ↔
    members.get? m.1 = some m.2 ∧ isRung m.1 = true := by
  rw [Members.rungs, List.mem_filter, ← Table.get?_eq_some_iff]

/-- What holds of a ladder key in an object and its value. -/
theorem forall_rung_iff {P : String → Prop} : (∀ m ∈ Members.rungs members.entries, P m.1) ↔
    ∀ key ∈ members.keys, isRung key = true → P key := by
  constructor
  · intro h key hkey hrung
    obtain ⟨v, hv⟩ := Table.mem_keys_iff.1 hkey
    exact h (key, v) (mem_rungs_iff.2 ⟨hv, hrung⟩)
  · intro h m hm
    obtain ⟨hv, hrung⟩ := mem_rungs_iff.1 hm
    exact h m.1 (Table.mem_keys_iff.2 ⟨m.2, hv⟩) hrung

theorem exists_rung_iff {n : Nat} :
    (∃ m ∈ Members.rungs members.entries, rungIndex? m.1 = some n) ↔
      ∃ key ∈ members.keys, rungIndex? key = some n := by
  constructor
  · rintro ⟨m, hm, hindex⟩
    exact ⟨m.1, Table.mem_keys_iff.2 ⟨m.2, (mem_rungs_iff.1 hm).1⟩, hindex⟩
  · rintro ⟨key, hkey, hindex⟩
    obtain ⟨v, hv⟩ := Table.mem_keys_iff.1 hkey
    exact ⟨(key, v), mem_rungs_iff.2 ⟨hv, isRung_of_rungIndex? hindex⟩, hindex⟩

/-- What is gathered from an object with ladder keys and no key for all slots. -/
theorem gather_eq (hrungs : Members.rungs members.entries ≠ [])
    (hladder : members.get? "ladder" = none) {slots : List (Json α)}
    (hslots : placeAll [] (Members.rungs members.entries) = .ok slots) :
    gather members.entries =
      .ok ((members.filterKeys fun key => !isRung key).insert "ladder" (.array slots)).entries := by
  unfold gather
  change (if (Members.rungs members.entries).isEmpty then _ else _) = _
  have hlookup : members.entries.lookup "ladder" = none := hladder
  rw [if_neg (by simpa using hrungs), if_neg (by simp [hlookup])]
  exact bind_ok.2 ⟨slots, hslots, rfl⟩

theorem gather_folds (hladder : members.get? "ladder" = none)
    (hrungs : ∃ key ∈ members.keys, isRung key = true)
    (hnumbered : ∀ key ∈ members.keys, isRung key = true →
      ∃ n < maxSlots, rungIndex? key = some n) :
    ∃ (gathered : Table (Json α)) (slots : List (Json α)),
      gather members.entries = .ok gathered.entries ∧ Folds members gathered slots := by
  obtain ⟨key, hkey, hrung⟩ := hrungs
  obtain ⟨n, -, hindex⟩ := hnumbered key hkey hrung
  have hascending : (Members.rungs members.entries).Pairwise fun a b => a.1 < b.1 :=
    members.ascending.filter _
  obtain ⟨first, hfirst, hfirstIndex⟩ := exists_rung_iff.2 ⟨key, hkey, hindex⟩
  obtain ⟨slots, hslots⟩ : Succeeds (placeAll [] (Members.rungs members.entries)) :=
    (succeeds_placeAll (Nat.zero_le _)).2 (forall_rung_iff.2 hnumbered)
  refine ⟨_, slots, gather_eq (List.ne_nil_of_mem hfirst) hladder hslots, ?_⟩
  refine ⟨?plain, ?rungs, Table.get?_insert_self, ?length, ?named, ?unnamed⟩
  case plain =>
    intro key hplain hkey
    rw [Table.get?_insert, if_neg hkey, Table.get?_filterKeys, if_pos (by simp [hplain])]
  case rungs =>
    intro key hrung
    have hkey : key ≠ "ladder" := by
      rintro rfl
      exact absurd hrung (by decide)
    rw [Table.get?_insert, if_neg hkey, Table.get?_filterKeys, if_neg (by simp [hrung])]
  case length =>
    have hpos := lt_length_placeAll hslots hfirst hfirstIndex
    rcases length_placeAll hslots with hlength | ⟨m, hm, largest, hlargest, hlength⟩
    · exact absurd (hlength ▸ hpos) (Nat.not_lt_zero _)
    · refine ⟨largest, by omega, exists_rung_iff.1 ⟨m, hm, hlargest⟩, ?_⟩
      intro n hn
      obtain ⟨m, hm, hindex⟩ := exists_rung_iff.2 hn
      have hlt := lt_length_placeAll hslots hm hindex
      omega
  case named =>
    intro index hnamed
    obtain ⟨m, hm, hindex⟩ := exists_lasting (exists_rung_iff.2 hnamed)
    have hmem := mem_rungs_iff.1 (Members.mem_of_mem_lasting hm)
    refine ⟨m.1, m.2, hmem.1, hindex, ?_, getElem?_placeAll_lasting hslots hm hindex⟩
    intro other hother hsame
    obtain ⟨v, hv⟩ := Table.mem_keys_iff.1 hother
    have hmember : (other, v) ∈ Members.rungs members.entries :=
      mem_rungs_iff.2 ⟨hv, isRung_of_rungIndex? hsame⟩
    exact not_lt_of_lasting hascending hm hmember (hsame.trans hindex.symm)
  case unnamed =>
    intro index hlt hnone
    exact getElem?_placeAll_unnamed hslots hlt
      (forall_rung_iff.2 fun key hkey _ => hnone key hkey)

end Gather

/-! ### Two spellings -/

/-- An object with ladder keys that spells a list of slots. Slots without nodes may be left out,
but not the last slot. -/
structure Spells (slots : List (Json α)) (plain spelled : Table (Json α)) : Prop where
  /-- The object without its ladder. -/
  unladdered {key : String} : key ∈ plain.keys → isRung key = false ∧ key ≠ "ladder"
  others {key : String} : isRung key = false → spelled.get? key = plain.get? key
  slot {index : Nat} {v : Json α} : slots[index]? = some v →
    spelled.get? (rungKey index) = some v ∨
      (v.Bare ∧ index + 1 < slots.length ∧ spelled.get? (rungKey index) = none)
  rungs {key : String} : key ∈ spelled.keys → isRung key = true →
    ∃ index < slots.length, key = rungKey index

section Spelled
variable {slots : List (Json α)} {plain spelled : Table (Json α)}

theorem Spells.get?_ladder (h : Spells slots plain spelled) : plain.get? "ladder" = none :=
  Table.get?_eq_none_iff.2 fun hkey => (h.unladdered hkey).2 rfl

theorem Spells.unmixed (h : Spells slots plain spelled) : spelled.get? "ladder" = none := by
  rw [h.others (by decide), h.get?_ladder]

theorem lt_of_lt_maxSlots {n : Nat} (h : n < maxSlots) : n < Nat.pow 2 64 :=
  h.trans (by decide)

/-- The key of a slot is the only one that names it. -/
theorem Spells.key_eq (h : Spells slots plain spelled) (hlength : slots.length ≤ maxSlots)
    {key : String} {index : Nat} (hkey : key ∈ spelled.keys)
    (hindex : rungIndex? key = some index) : key = rungKey index := by
  obtain ⟨i, hi, rfl⟩ := h.rungs hkey (isRung_of_rungIndex? hindex)
  rw [rungIndex?_rungKey (lt_of_lt_maxSlots (hi.trans_le hlength))] at hindex
  rw [Option.some.inj hindex]

/-- What is gathered for a slot is what is written for it, or `null` if that is left out. -/
theorem Spells.gathered_slot (h : Spells slots plain spelled) (hlength : slots.length ≤ maxSlots)
    {gathered : Table (Json α)} {found : List (Json α)} (hfolds : Folds spelled gathered found)
    {index : Nat} {v : Json α} (hlt : index < found.length) (hv : slots[index]? = some v) :
    found[index]? = some v ∨ (v.Bare ∧ found[index]? = some .null) := by
  have hindex : rungIndex? (rungKey index) = some index :=
    rungIndex?_rungKey (lt_of_lt_maxSlots ((List.getElem?_eq_some_iff.1 hv).1.trans_le hlength))
  rcases h.slot hv with hwritten | ⟨hbare, -, habsent⟩
  · obtain ⟨key, w, hw, hkey, -, hfound⟩ :=
      hfolds.named ⟨_, Table.mem_keys_iff.2 ⟨v, hwritten⟩, hindex⟩
    obtain rfl := h.key_eq hlength (Table.mem_keys_iff.2 ⟨w, hw⟩) hkey
    obtain rfl := Option.some.inj (hwritten.symm.trans hw)
    exact .inl hfound
  · refine .inr ⟨hbare, hfolds.unnamed hlt fun key hkey hnamed => ?_⟩
    obtain rfl := h.key_eq hlength hkey hnamed
    exact Table.get?_eq_none_iff.1 habsent hkey

/-- The last slot is written, so there are as many slots. -/
theorem Spells.length_gathered (h : Spells slots plain spelled) (hlength : slots.length ≤ maxSlots)
    {gathered : Table (Json α)} {found : List (Json α)} (hfolds : Folds spelled gathered found) :
    found.length = slots.length := by
  obtain ⟨largest, hfound, ⟨key, hkey, hindex⟩, hlargest⟩ := hfolds.length
  obtain ⟨i, hi, rfl⟩ := h.rungs hkey (isRung_of_rungIndex? hindex)
  have hrung {n : Nat} (hn : n < slots.length) : rungIndex? (rungKey n) = some n :=
    rungIndex?_rungKey (lt_of_lt_maxSlots (hn.trans_le hlength))
  obtain rfl : i = largest := Option.some.inj ((hrung hi).symm.trans hindex)
  have hend : slots.length - 1 < slots.length := by omega
  have hlast : slots.length - 1 ≤ i := by
    rcases h.slot (List.getElem?_eq_getElem hend) with hwritten | ⟨-, hbelow, -⟩
    · exact hlargest ⟨_, Table.mem_keys_iff.2 ⟨_, hwritten⟩, hrung hend⟩
    · omega
  omega

/-- Only the ladder is added to the object without one. -/
theorem Spells.gathered_eq (h : Spells slots plain spelled) {gathered : Table (Json α)}
    {found : List (Json α)} (hfolds : Folds spelled gathered found) :
    gathered = plain.insert "ladder" (.array found) := by
  refine Table.ext_get? fun key => ?_
  rw [Table.get?_insert]
  split
  · next hkey => rw [hkey, hfolds.ladder]
  · next hkey =>
      cases hrung : isRung key with
      | false => rw [hfolds.plain hrung hkey, h.others hrung]
      | true =>
          rw [hfolds.rungs hrung, eq_comm, Table.get?_eq_none_iff]
          exact fun hmem => Bool.false_ne_true ((h.unladdered hmem).1.symm.trans hrung)

/-- Without a ladder key there are no slots. -/
theorem Spells.eq_nil (h : Spells slots plain spelled)
    (hrungs : ∀ key ∈ spelled.keys, isRung key = false) : slots = [] ∧ spelled = plain := by
  constructor
  · by_contra hslots
    have hlast : slots.length - 1 < slots.length :=
      Nat.sub_lt (List.length_pos_iff.2 hslots) Nat.one_pos
    rcases h.slot (List.getElem?_eq_getElem hlast) with hwritten | ⟨-, hbelow, -⟩
    · have hplain := hrungs _ (Table.mem_keys_iff.2 ⟨_, hwritten⟩)
      exact Bool.false_ne_true (hplain.symm.trans (isRung_rungKey _))
    · omega
  · refine Table.ext_get? fun key => ?_
    cases hrung : isRung key with
    | false => exact h.others hrung
    | true =>
        have hspelled : spelled.get? key = none :=
          Table.get?_eq_none_iff.2 fun hmem =>
            Bool.false_ne_true ((hrungs key hmem).symm.trans hrung)
        have hplain : plain.get? key = none :=
          Table.get?_eq_none_iff.2 fun hmem =>
            Bool.false_ne_true ((h.unladdered hmem).1.symm.trans hrung)
        rw [hspelled, hplain]

theorem Spells.ladders_alike (h : Spells slots plain spelled) (hlength : slots.length ≤ maxSlots)
    {gathered : Table (Json α)} {found : List (Json α)} (hfolds : Folds spelled gathered found)
    {R : Json α → Json α → Prop} : Json.LaddersAlike R (.array found) (.array slots) := by
  have hsame := h.length_gathered hlength hfolds
  refine .slots (List.forall₂_iff_get.2 ⟨hsame, fun index hlt hlt' => ?_⟩)
  rcases h.gathered_slot hlength hfolds hlt (List.getElem?_eq_getElem hlt') with hv | ⟨hbare, hv⟩
  · rw [List.get_eq_getElem, (List.getElem?_eq_some_iff.1 hv).2]
    exact .same _
  · rw [List.get_eq_getElem, (List.getElem?_eq_some_iff.1 hv).2]
    exact .bare .null hbare

end Spelled
end Ladder

/-! ### Nodes -/

theorem Content.alike_self {R : Json α → Json α → Prop} (v : Option (Json α))
    (content : Content α) : content.Alike R v v := by
  cases content with
  | value reads => exact rfl
  | slot => exact .same _
  | ladder => exact .same _

namespace Node

variable {plain spelled : Table (Json α)} {slots : List (Json α)}

theorem unknown_insert_ladder (hladder : plain.get? "ladder" = none) (v : Json α) :
    Kind.numbered.unknown (plain.insert "ladder" v).entries =
      Kind.numbered.unknown plain.entries :=
  Table.filter_insert (p := fun key => key ≠ "id" ∧ key ≠ "kind" ∧ key ∉ Kind.numbered.keys) v
    hladder (by decide)

/-- Without ladder keys there is nothing to gather. -/
theorem gathered_of_rungs (h : ∀ key ∈ plain.keys, Ladder.isRung key = false) :
    gathered plain.entries = .ok plain.entries := by
  unfold gathered
  split
  · have hrungs : plain.entries.filter (fun m => Ladder.isRung m.1) = [] :=
      List.filter_eq_nil_iff.2 fun m hm => by
        simp [h m.1 (List.mem_map_of_mem hm)]
    simp [Ladder.gather, hrungs]
  · rfl

theorem get?_insert_ladder (v : Json α) {key : String} (hkey : key ≠ "ladder") :
    (plain.insert "ladder" v).get? key = plain.get? key := by
  rw [Table.get?_insert, if_neg hkey]

/-- What is read of a numbered node whose ladder is spelled with keys differs from the node
without a ladder in the ladder only, and that has slots which are alike. -/
theorem gathered_spelled (h : Ladder.Spells slots plain spelled)
    (hlength : slots.length ≤ Ladder.maxSlots)
    (hnamed : named? spelled.entries = some .numbered) :
    ∃ read : Table (Json α), gathered spelled.entries = .ok read.entries ∧
      (∀ key, key ≠ "ladder" → read.get? key = plain.get? key) ∧
      Kind.numbered.unknown read.entries = Kind.numbered.unknown plain.entries ∧
      Json.LaddersAlike Eq ((read.get? "ladder").getD (.array [])) (.array slots) := by
  by_cases hrungs : ∃ key ∈ spelled.keys, Ladder.isRung key = true
  · have hnumbered : ∀ key ∈ spelled.keys, Ladder.isRung key = true →
        ∃ n < Ladder.maxSlots, Ladder.rungIndex? key = some n := by
      intro key hkey hrung
      obtain ⟨n, hn, rfl⟩ := h.rungs hkey hrung
      have hlt := hn.trans_le hlength
      exact ⟨n, hlt, Ladder.rungIndex?_rungKey (Ladder.lt_of_lt_maxSlots hlt)⟩
    obtain ⟨read, found, hgather, hfolds⟩ := Ladder.gather_folds h.unmixed hrungs hnumbered
    obtain rfl := h.gathered_eq hfolds
    refine ⟨plain.insert "ladder" (.array found), ?_, fun key => get?_insert_ladder _,
      unknown_insert_ladder h.get?_ladder _, ?_⟩
    · rw [gathered, if_pos hnamed, hgather]
    · rw [Table.get?_insert_self]
      exact h.ladders_alike hlength hfolds
  · have hplain : ∀ key ∈ spelled.keys, Ladder.isRung key = false :=
      fun key hkey => Bool.not_eq_true _ ▸ fun hrung => hrungs ⟨key, hkey, hrung⟩
    obtain ⟨rfl, rfl⟩ := h.eq_nil hplain
    refine ⟨spelled, gathered_of_rungs hplain, fun _ _ => rfl, rfl, ?_⟩
    rw [h.unmixed]
    exact .same _

variable [Arith α]

/-- Numbered nodes that differ in their ladders only. -/
theorem alike_of_ladders {read read' : Table (Json α)} {R : Json α → Json α → Prop}
    (hkind : read.get? "kind" = some (.text Kind.numbered.name))
    (hothers : ∀ key, key ≠ "ladder" → read.get? key = read'.get? key)
    (hunknown : Kind.numbered.unknown read.entries = Kind.numbered.unknown read'.entries)
    (hladder : Json.LaddersAlike R ((read.get? "ladder").getD (.array []))
      ((read'.get? "ladder").getD (.array []))) :
    Members.Alike R .numbered read.entries read'.entries := by
  refine ⟨?kind, hothers "kind" (by decide), hothers "id" (by decide), ?fields, hunknown⟩
  case kind =>
    change (read.get? "kind").bind Kind.ofJson? = _
    rw [hkind]
    exact Kind.ofName?_name .numbered
  case fields =>
    obtain ⟨plain, hfields, hplain⟩ := exists_fields_numbered (α := α)
    rw [hfields, List.forall_mem_append, List.forall_mem_singleton]
    refine ⟨fun f hf => ?_, hladder⟩
    have hsame : read.entries.lookup f.key = read'.entries.lookup f.key :=
      hothers f.key (hplain f hf).1
    rw [hsame]
    exact Content.alike_self _ _

/-- Ladder keys are read as the list of their slots. -/
theorem ofJson_spelled (h : Ladder.Spells slots plain spelled)
    (hlength : slots.length ≤ Ladder.maxSlots)
    (hkind : plain.get? "kind" = some (.text Kind.numbered.name)) :
    ofJson (.object spelled.entries) =
      ofJson (.object (plain.insert "ladder" (.array slots)).entries) := by
  have hnamed : named? spelled.entries = some .numbered :=
    named?_of_lookup ((h.others (by decide)).trans hkind)
  have hlisted : gathered (plain.insert "ladder" (.array slots)).entries =
      .ok (plain.insert "ladder" (.array slots)).entries := by
    refine gathered_of_rungs fun key hkey => ?_
    rcases Table.mem_keys_alter.1 hkey with rfl | hkey
    · decide
    · exact (h.unladdered hkey).1
  obtain ⟨read, hread, hothers, hunknown, hladder⟩ := gathered_spelled h hlength hnamed
  have halike : Members.Alike Eq .numbered read.entries
      (plain.insert "ladder" (.array slots)).entries := by
    refine alike_of_ladders ((hothers "kind" (by decide)).trans hkind) ?_ ?_ ?_
    · exact fun key hkey => (hothers key hkey).trans (get?_insert_ladder _ hkey).symm
    · rw [hunknown, unknown_insert_ladder h.get?_ladder]
    · rw [Table.get?_insert_self]
      exact hladder
  refine ofJson_alike (.node (fun v v' heq => ?_) hread hlisted halike)
  obtain rfl : v = v' := heq
  exact .same v

/-- Both spellings of a ladder are read as the same node, or have the same fault. What is gathered
from ladder keys has all slots up to the largest number, each with the value of the last key that
names it or `null`, and the other members are left alone. -/
theorem ladder_spellings_agree :
    (∀ members : Table (Json α), members.get? "ladder" = none →
      (∃ key ∈ members.keys, Ladder.isRung key = true) →
      (∀ key ∈ members.keys, Ladder.isRung key = true →
        ∃ n < Ladder.maxSlots, Ladder.rungIndex? key = some n) →
      ∃ (gathered : Table (Json α)) (slots : List (Json α)),
        Ladder.gather members.entries = .ok gathered.entries ∧
          Ladder.Folds members gathered slots) ∧
    ∀ (slots : List (Json α)) (plain spelled : Table (Json α)), slots.length ≤ Ladder.maxSlots →
      Ladder.Spells slots plain spelled →
      plain.get? "kind" = some (.text Kind.numbered.name) →
      ofJson (.object spelled.entries) =
        ofJson (.object (plain.insert "ladder" (.array slots)).entries) :=
  ⟨fun _ hladder hrungs hnumbered => Ladder.gather_folds hladder hrungs hnumbered,
    fun _ _ _ hlength h hkind => ofJson_spelled h hlength hkind⟩

/-- Keys of three slots in key order, two of them for the slot with the number 2. -/
def sampleRungs : Table (Json Binary64) :=
  ⟨[("ladder-02", .integer 0), ("ladder-10", .integer 1), ("ladder-2", .integer 2)], by decide⟩

/-- A slot with one position. -/
def sampleHeld : Json Binary64 :=
  .array [.object [("id", .text "p"), ("kind", .text "position"),
    ("tickers", .array [.text "SPY"])]]

/-- Eleven slots, two of them with nodes. -/
def sampleSlots : List (Json Binary64) :=
  [.null, .null, sampleHeld, .array [], .null, .null, .null, .null, .null, .null, sampleHeld]

def samplePlain : Table (Json Binary64) :=
  ⟨[("id", .text "n"), ("items", .array []), ("kind", .text "numbered"),
    ("quantifier", .object [("atMost", .integer 2)])], by decide⟩

/-- The eleven slots, with the keys of those with nodes only. -/
def sampleSpelled : Table (Json Binary64) :=
  (samplePlain.insert (Ladder.rungKey 2) sampleHeld).insert (Ladder.rungKey 10) sampleHeld

theorem sampleSpelled_spells : Ladder.Spells sampleSlots samplePlain sampleSpelled := by
  refine ⟨?unladdered, ?others, ?slot, ?rungs⟩
  case unladdered =>
    intro key hkey
    have h : ∀ key ∈ samplePlain.keys, Ladder.isRung key = false ∧ key ≠ "ladder" := by decide
    exact h key hkey
  case others =>
    intro key hplain
    have hkey {n : Nat} : key ≠ Ladder.rungKey n := by
      rintro rfl
      exact Bool.false_ne_true (hplain.symm.trans (Ladder.isRung_rungKey n))
    rw [sampleSpelled, Table.get?_insert, if_neg hkey, Table.get?_insert, if_neg hkey]
  case slot =>
    intro index v hv
    have hlt : index < 11 := (List.getElem?_eq_some_iff.1 hv).1
    interval_cases index <;> obtain rfl := Option.some.inj hv
    case «2» => exact .inl rfl
    case «10» => exact .inl rfl
    case «3» => exact .inr ⟨.empty, by decide, rfl⟩
    all_goals exact .inr ⟨.null, by decide, rfl⟩
  case rungs =>
    intro key hkey hrung
    have h : ∀ key ∈ sampleSpelled.keys, Ladder.isRung key = true →
        key = Ladder.rungKey 10 ∨ key = Ladder.rungKey 2 := by decide
    rcases h key hkey hrung with rfl | rfl
    · exact ⟨10, by decide, rfl⟩
    · exact ⟨2, by decide, rfl⟩

theorem sampleRungs_agree :
    (∃ (gathered : Table (Json Binary64)) (slots : List (Json Binary64)),
      Ladder.gather sampleRungs.entries = .ok gathered.entries ∧
        Ladder.Folds sampleRungs gathered slots) ∧
    ofJson (.object sampleSpelled.entries) =
      ofJson (.object (samplePlain.insert "ladder" (.array sampleSlots)).entries) ∧
    (ofJson (.object sampleSpelled.entries)).isOk = true := by
  obtain ⟨hfolds, hread⟩ := ladder_spellings_agree (α := Binary64)
  refine ⟨hfolds sampleRungs rfl ?_ ?_, hread sampleSlots samplePlain sampleSpelled ?_ ?_ rfl,
    by decide +kernel⟩
  · exact ⟨"ladder-2", by decide, by decide⟩
  · have h : ∀ key ∈ sampleRungs.keys, Ladder.rungIndex? key = some 2 ∨
        Ladder.rungIndex? key = some 10 := by decide
    intro key hkey _
    rcases h key hkey with hindex | hindex
    · exact ⟨2, by decide, hindex⟩
    · exact ⟨10, by decide, hindex⟩
  · decide
  · exact sampleSpelled_spells

end Node
end StrategyTree
