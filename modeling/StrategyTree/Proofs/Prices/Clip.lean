import StrategyTree.Prices.File
import StrategyTree.Pipeline
import StrategyTree.Proofs.PriceMatrix
/-!
# Clipped rows in order

Sorting the rows of a file and clipping them loses no row between the bounds, adds none, and
keeps rows of one date as they follow each other in the file. This leaves no choice about the
result. It is in order, except for dates that come twice.
-/
namespace StrategyTree

/-! ### Bounds -/

/-- A date is neither before the first bound nor after the last. -/
def Date.Between (first last : Option Date) (d : Date) : Prop :=
  (∀ f ∈ first, f ≤ d) ∧ ∀ l ∈ last, d ≤ l

instance Date.decidableBetween (first last : Option Date) (d : Date) :
    Decidable (d.Between first last) :=
  inferInstanceAs (Decidable (_ ∧ _))

theorem Date.within_iff {first last : Option Date} {d : Date} :
    d.within first last = true ↔ d.Between first last := by
  simp [within, Between, Option.all_eq_true]

namespace Bar

variable {α : Type} {rows bars : List (Bar α)} {first last : Option Date} {d : Date}

/-- Without bounds every row stays. -/
theorem clip_unbounded (rows : List (Bar α)) : clip none none rows = rows :=
  List.filter_eq_self.2 fun _ _ => rfl

/-! ### Sorted clips -/

/-- The rows of a date, in the order of the file. -/
def ofDate (d : Date) (rows : List (Bar α)) : List (Bar α) :=
  rows.filter fun b => b.date = d

theorem mem_ofDate {b : Bar α} : b ∈ ofDate d rows ↔ b ∈ rows ∧ b.date = d := by
  rw [ofDate, List.mem_filter, decide_eq_true_iff]

/-- The rows between two bounds, each as often as in the file, in the order of their dates.
Rows of one date stand as they do in the file. -/
structure SortedClip (rows : List (Bar α)) (first last : Option Date) (bars : List (Bar α)) :
    Prop where
  once : bars.Perm (rows.filter fun b => b.date.Between first last)
  ascending : bars.Pairwise fun a b => a.date ≤ b.date
  stable {d : Date} : d.Between first last → ofDate d bars = ofDate d rows

namespace SortedClip

theorem mem_iff (h : SortedClip rows first last bars) {b : Bar α} :
    b ∈ bars ↔ b ∈ rows ∧ b.date.Between first last := by
  rw [h.once.mem_iff, List.mem_filter, decide_eq_true_iff]

/-- A date has the same rows in two clips of the same rows. -/
theorem ofDate_eq {bars' : List (Bar α)} (h : SortedClip rows first last bars)
    (h' : SortedClip rows first last bars') (d : Date) : ofDate d bars = ofDate d bars' := by
  by_cases hd : d.Between first last
  · rw [h.stable hd, h'.stable hd]
  · have hnone {bars : List (Bar α)} (h : SortedClip rows first last bars) :
        ofDate d bars = [] := by
      refine List.eq_nil_iff_forall_not_mem.2 fun b hb => ?_
      obtain ⟨hmem, rfl⟩ := mem_ofDate.1 hb
      exact hd (h.mem_iff.1 hmem).2
    rw [hnone h, hnone h']

end SortedClip

theorem mem_iff_of_ofDate_eq {bars' : List (Bar α)} (h : ∀ d, ofDate d bars = ofDate d bars')
    (b : Bar α) : b ∈ bars ↔ b ∈ bars' := by
  have hb : b ∈ ofDate b.date bars ↔ b ∈ ofDate b.date bars' := by rw [h]
  simpa only [mem_ofDate, and_true] using hb

theorem earliest_le {a b : Bar α} (h : (a :: rows).Pairwise fun a b => a.date ≤ b.date)
    (hb : b ∈ a :: rows) : a.date ≤ b.date := by
  rcases List.mem_cons.1 hb with rfl | hb
  · exact le_refl _
  · exact (List.pairwise_cons.1 h).1 b hb

/-- Rows in the order of their dates are known from the rows of each date. -/
theorem eq_of_ofDate_eq {bars' : List (Bar α)}
    (h : bars.Pairwise fun a b => a.date ≤ b.date) (h' : bars'.Pairwise fun a b => a.date ≤ b.date)
    (heq : ∀ d, ofDate d bars = ofDate d bars') : bars = bars' := by
  induction bars generalizing bars' with
  | nil =>
      refine (List.eq_nil_iff_forall_not_mem.2 fun b hb => ?_).symm
      simpa using (mem_iff_of_ofDate_eq heq b).2 hb
  | cons a rest ih =>
      have hmem := mem_iff_of_ofDate_eq heq
      cases bars' with
      | nil => exact absurd ((hmem a).1 List.mem_cons_self) (by simp)
      | cons a' rest' =>
          -- Each of the two first rows is in the other list, so neither is later.
          have hle : a.date ≤ a'.date := earliest_le h ((hmem a').2 List.mem_cons_self)
          have hge : a'.date ≤ a.date := earliest_le h' ((hmem a).1 List.mem_cons_self)
          have hdate : a'.date = a.date := le_antisymm hge hle
          obtain ⟨rfl, -⟩ : a = a' ∧ ofDate a.date rest = ofDate a.date rest' := by
            simpa [ofDate, hdate] using heq a.date
          have hrests (d : Date) : ofDate d rest = ofDate d rest' := by
            have hd := heq d
            by_cases hcase : a.date = d <;> simpa [ofDate, hcase] using hd
          rw [ih h.of_cons h'.of_cons hrests]

/-- There is only one way to clip rows and sort them. -/
theorem SortedClip.unique {bars' : List (Bar α)} (h : SortedClip rows first last bars)
    (h' : SortedClip rows first last bars') : bars = bars' :=
  eq_of_ofDate_eq h.ascending h'.ascending (h.ofDate_eq h')

/-! ### Sorting -/

theorem order_trans (a b c : Bar α) (hab : decide (a.date ≤ b.date) = true)
    (hbc : decide (b.date ≤ c.date) = true) : decide (a.date ≤ c.date) = true :=
  decide_eq_true (le_trans (of_decide_eq_true hab) (of_decide_eq_true hbc))

theorem order_total (a b : Bar α) :
    (decide (a.date ≤ b.date) || decide (b.date ≤ a.date)) = true := by
  simpa using le_total a.date b.date

theorem ascending_sort (rows : List (Bar Binary64)) :
    (PriceFile.sort rows).Pairwise fun a b => a.date ≤ b.date :=
  (List.pairwise_mergeSort order_trans order_total rows).imp of_decide_eq_true

/-- Rows of one date are in order as they stand, so sorting keeps them that way. -/
theorem ofDate_sort (rows : List (Bar Binary64)) (d : Date) :
    ofDate d (PriceFile.sort rows) = ofDate d rows := by
  have hordered : (ofDate d rows).Pairwise fun a b => decide (a.date ≤ b.date) = true := by
    refine List.pairwise_of_forall_mem_list fun a ha b hb => decide_eq_true ?_
    exact le_of_eq ((mem_ofDate.1 ha).2.trans (mem_ofDate.1 hb).2.symm)
  have hsub : (ofDate d rows).Sublist (PriceFile.sort rows) :=
    List.sublist_mergeSort order_trans order_total hordered List.filter_sublist
  have hkept : (ofDate d rows).Sublist (ofDate d (PriceFile.sort rows)) := by
    simpa [ofDate] using hsub.filter fun b => decide (b.date = d)
  have hperm : (ofDate d (PriceFile.sort rows)).Perm (ofDate d rows) :=
    (List.mergeSort_perm rows _).filter _
  exact (hkept.eq_of_length hperm.length_eq.symm).symm

/-- A clip takes all rows of a date between its bounds. -/
theorem ofDate_clip (rows : List (Bar α)) (h : d.Between first last) :
    ofDate d (clip first last rows) = ofDate d rows := by
  rw [ofDate, clip, List.filter_filter]
  refine List.filter_congr fun b _ => ?_
  by_cases hd : b.date = d
  · simp [hd, Date.within_iff.2 h]
  · simp [hd]

/-- Clipping the sorted rows of a file clips and sorts them. -/
theorem sortedClip_sort (rows : List (Bar Binary64)) (first last : Option Date) :
    SortedClip rows first last (clip first last (PriceFile.sort rows)) where
  once := by
    have hbounds : (fun b : Bar Binary64 => b.date.within first last) =
        fun b => decide (b.date.Between first last) := by
      funext b
      rw [Bool.eq_iff_iff, Date.within_iff, decide_eq_true_iff]
    rw [clip, hbounds]
    exact (List.mergeSort_perm rows _).filter _
  ascending := (ascending_sort rows).filter _
  stable hd := (ofDate_clip _ hd).trans (ofDate_sort rows _)

/-! ### Repeated dates -/

/-- Two rows of a file are of this date, which lies between the bounds. -/
def Repeats (rows : List (Bar α)) (first last : Option Date) (d : Date) : Prop :=
  d.Between first last ∧ 2 ≤ (ofDate d rows).length

namespace SortedClip

variable (h : SortedClip rows first last bars)
include h

theorem repeats_of_disorderedAt (hd : DisorderedAt bars d) : Repeats rows first last d := by
  obtain ⟨before, a, b, after, rfl, hnot, rfl⟩ := hd
  have hpair : [a, b].Sublist (before ++ a :: b :: after) :=
    (List.prefix_append [a, b] after).sublist.trans (List.sublist_append_right before _)
  have hle : a.date ≤ b.date := by simpa using h.ascending.sublist hpair
  have hdate : a.date = b.date := le_antisymm hle (not_lt.1 hnot)
  have hbounds : b.date.Between first last := (h.mem_iff.1 (by simp)).2
  have hpairs := hpair.filter fun c => decide (c.date = b.date)
  refine ⟨hbounds, ?_⟩
  rw [← h.stable hbounds]
  simpa [ofDate, hdate] using hpairs.length_le

theorem disordered_of_repeats (hd : Repeats rows first last d) : Disordered bars := by
  obtain ⟨hbounds, htwo⟩ := hd
  rw [← h.stable hbounds] at htwo
  by_contra hnot
  have hlater : (ofDate d bars).Pairwise fun a b => a.date < b.date :=
    (increasing_of_not_disordered hnot).filter _
  match hrows : ofDate d bars with
  | [] | [_] => simp [hrows] at htwo
  | a :: b :: rest =>
      have ha : a.date = d := (mem_ofDate.1 (by rw [hrows]; simp)).2
      have hb : b.date = d := (mem_ofDate.1 (by rw [hrows]; simp)).2
      rw [hrows] at hlater
      have hlt : a.date < b.date := (List.pairwise_cons.1 hlater).1 b List.mem_cons_self
      exact ne_of_lt hlt (ha.trans hb.symm)

/-- Rows in the order of their dates are in strict order unless a date comes twice. -/
theorem disordered_iff : Disordered bars ↔ ∃ d, Repeats rows first last d := by
  constructor
  · rintro ⟨before, a, b, after, heq, hnot⟩
    exact ⟨b.date, h.repeats_of_disorderedAt ⟨before, a, b, after, heq, hnot, rfl⟩⟩
  · rintro ⟨d, hd⟩
    exact h.disordered_of_repeats hd

end SortedClip
end Bar

/-- A matrix is refused for sorted rows of a ticker, whatever bars and anchors there are beside
them, exactly if a date comes twice among the rows between the bounds. -/
theorem PriceMatrix.refused_iff_repeats {α : Type} {rows bars : List (Bar α)}
    {first last : Option Date} (h : Bar.SortedClip rows first last bars) (ticker : String) :
    (∀ series anchors, series.get? ticker = some bars →
      ∃ name date, build series anchors = .error (.unorderedBars name date)) ↔
    ∃ d, Bar.Repeats rows first last d := by
  rw [← h.disordered_iff]
  constructor
  · intro hrefused
    -- Bars in strict order are aligned where there are no others.
    by_contra hordered
    have halone (name : String) (others : List (Bar α))
        (hget : (Table.empty.insert ticker bars).get? name = some others) : others = bars := by
      rw [Table.get?_insert] at hget
      split at hget
      · exact (Option.some.inj hget).symm
      · cases hget
    have haligned : Ordered (Table.empty.insert ticker bars) :=
      fun name others hget => halone name others hget ▸ hordered
    obtain ⟨name, date, hbuild⟩ := hrefused _ [] Table.get?_insert_self
    obtain ⟨m, hm, -⟩ := build_of_ordered haligned []
    cases hbuild.symm.trans hm
  · intro hdisordered series anchors hget
    obtain ⟨name, date, hbuild⟩ :=
      build_of_not_ordered fun hordered => hordered ticker bars hget hdisordered
    exact ⟨name, date, hbuild anchors⟩

end StrategyTree
