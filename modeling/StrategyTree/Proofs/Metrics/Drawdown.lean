import Mathlib.Order.Bounds.Image
import StrategyTree.Metrics
import StrategyTree.Proofs.FieldArith
/-!
# Drawdowns

The peak of a day is the highest of the initial capital and all points up to the day, and a spell
is a number of consecutive days below their peaks. One pass over the curve finds the deepest loss
from a peak and the longest spell. Its invariant also has the highest point so far and the longest
spell that lasts until then.
-/
namespace StrategyTree

/-! ### Peaks, spells and losses -/

namespace EquityCurve

section Order
variable {K : Type} [LinearOrder K]

/-- The highest of the initial capital and the points up to a day. -/
def peak (initial : K) (curve : List K) (day : Nat) : K :=
  (curve.take (day + 1)).foldl max initial

def IsBelow (initial : K) (curve : List K) (day : Nat) : Prop :=
  ∃ point, curve[day]? = some point ∧ point < peak initial curve day

/-- A number of consecutive days from a first one on, each below its peak. -/
def IsSpell (initial : K) (curve : List K) (first days : Nat) : Prop :=
  ∀ day, first ≤ day → day < first + days → IsBelow initial curve day

/-- The lengths of all spells, and no days. -/
def spells (initial : K) (curve : List K) : Set Nat :=
  {days | ∃ first, IsSpell initial curve first days}

/-- The lengths of the spells that last until the end of the curve. -/
def lasting (initial : K) (curve : List K) : Set Nat :=
  {days | ∃ first, first + days = curve.length ∧ IsSpell initial curve first days}

variable {initial point : K} {curve : List K} {first days day : Nat}

theorem initial_le_foldl_max (initial : K) (curve : List K) :
    initial ≤ curve.foldl max initial := by
  induction curve generalizing initial with
  | nil => exact le_refl _
  | cons x rest ih => exact (le_max_left initial x).trans (ih _)

/-- Later points leave a peak alone. -/
theorem peak_concat_of_lt (h : day < curve.length) :
    peak initial (curve ++ [point]) day = peak initial curve day := by
  rw [peak, peak, List.take_append_of_le_length h]

theorem peak_concat : peak initial (curve ++ [point]) curve.length =
    max (curve.foldl max initial) point := by
  have htake : (curve ++ [point]).take (curve.length + 1) = curve ++ [point] :=
    List.take_of_length_le (by simp)
  rw [peak, htake, List.foldl_append]
  rfl

theorem IsBelow.lt_length (h : IsBelow initial curve day) : day < curve.length := by
  obtain ⟨point, hpoint, -⟩ := h
  exact (List.getElem?_eq_some_iff.1 hpoint).1

theorem isBelow_concat_of_lt (h : day < curve.length) :
    IsBelow initial (curve ++ [point]) day ↔ IsBelow initial curve day := by
  rw [IsBelow, IsBelow, peak_concat_of_lt h, List.getElem?_append_left h]

theorem isBelow_concat :
    IsBelow initial (curve ++ [point]) curve.length ↔ point < curve.foldl max initial := by
  simp [IsBelow, peak_concat]

theorem isSpell_zero : IsSpell initial curve first 0 :=
  fun _ hfirst hlast => absurd hlast (Nat.not_lt.2 hfirst)

/-- A spell lies within the curve. -/
theorem IsSpell.end_le (h : IsSpell initial curve first (days + 1)) :
    first + days < curve.length :=
  (h (first + days) (Nat.le_add_right _ _) (Nat.lt_succ_self _)).lt_length

/-- A spell that is over before the last point is one of the curve without the point. -/
theorem isSpell_concat_of_le (h : first + days ≤ curve.length) :
    IsSpell initial (curve ++ [point]) first days ↔ IsSpell initial curve first days :=
  forall_congr' fun _ => forall₂_congr fun _ hlast => isBelow_concat_of_lt (hlast.trans_le h)

/-- A spell that lasts until the end lasts one day longer if the next point is below the peak. -/
theorem isSpell_concat_succ (h : first + days = curve.length) :
    IsSpell initial (curve ++ [point]) first (days + 1) ↔
      IsSpell initial curve first days ∧ point < curve.foldl max initial := by
  have hearlier :
      IsSpell initial (curve ++ [point]) first days ↔ IsSpell initial curve first days :=
    isSpell_concat_of_le h.le
  rw [← isBelow_concat, ← hearlier, ← h]
  constructor
  · intro hspell
    exact ⟨fun day hfirst hlast => hspell day hfirst (hlast.trans (Nat.lt_succ_self _)),
      hspell _ (Nat.le_add_right _ _) (Nat.lt_succ_self _)⟩
  · rintro ⟨hspell, hend⟩ day hfirst hlast
    rcases Nat.lt_succ_iff_lt_or_eq.1 hlast with hearly | rfl
    · exact hspell day hfirst hearly
    · exact hend

theorem zero_mem_spells : 0 ∈ spells initial curve :=
  ⟨0, isSpell_zero⟩

theorem zero_mem_lasting : 0 ∈ lasting initial curve :=
  ⟨curve.length, rfl, isSpell_zero⟩

theorem succ_mem_lasting_concat : days + 1 ∈ lasting initial (curve ++ [point]) ↔
    days ∈ lasting initial curve ∧ point < curve.foldl max initial := by
  simp only [lasting, Set.mem_ofPred_eq, List.length_append, List.length_singleton,
    ← Nat.add_assoc, Nat.add_right_cancel_iff]
  constructor
  · rintro ⟨first, hend, hspell⟩
    obtain ⟨hbefore, hpoint⟩ := (isSpell_concat_succ hend).1 hspell
    exact ⟨⟨first, hend, hbefore⟩, hpoint⟩
  · rintro ⟨⟨first, hend, hspell⟩, hpoint⟩
    exact ⟨first, hend, (isSpell_concat_succ hend).2 ⟨hspell, hpoint⟩⟩

/-- At a new high or a tie with the peak no spell lasts. -/
theorem lasting_concat_high (h : curve.foldl max initial ≤ point) :
    lasting initial (curve ++ [point]) = {0} := by
  ext days
  cases days with
  | zero => exact iff_of_true zero_mem_lasting rfl
  | succ days => simp [succ_mem_lasting_concat, h]

/-- Below the peak every spell lasts one day longer. -/
theorem lasting_concat_low (h : point < curve.foldl max initial) :
    lasting initial (curve ++ [point]) = insert 0 (Nat.succ '' lasting initial curve) := by
  ext days
  cases days with
  | zero => exact iff_of_true zero_mem_lasting (Set.mem_insert 0 _)
  | succ days => simp [succ_mem_lasting_concat, h]

/-- A spell is over before the last point or lasts until the end. -/
theorem spells_concat : spells initial (curve ++ [point]) =
    spells initial curve ∪ lasting initial (curve ++ [point]) := by
  ext days
  constructor
  · rintro ⟨first, hspell⟩
    by_cases hend : first + days ≤ curve.length
    · exact .inl ⟨first, (isSpell_concat_of_le hend).1 hspell⟩
    · cases days with
      | zero => exact .inl zero_mem_spells
      | succ days =>
          have hlt := hspell.end_le
          rw [List.length_append, List.length_singleton] at hlt
          refine .inr ⟨first, ?_, hspell⟩
          rw [List.length_append, List.length_singleton]
          omega
  · rintro (⟨first, hspell⟩ | ⟨first, -, hspell⟩)
    · cases days with
      | zero => exact zero_mem_spells
      | succ days => exact ⟨first, (isSpell_concat_of_le hspell.end_le).2 hspell⟩
    · exact ⟨first, hspell⟩

end Order

section Field
variable {K : Type} [Field K] [LinearOrder K]

/-- The parts of their peaks that the points have lost, and no loss. -/
def losses (initial : K) (curve : List K) : Set K :=
  insert 0 {x | ∃ day point, curve[day]? = some point ∧ x = 1 - point / peak initial curve day}

variable {initial point : K} {curve : List K}

theorem zero_mem_losses : 0 ∈ losses initial curve :=
  Set.mem_insert 0 _

/-- One more point adds its loss from the peak. -/
theorem losses_concat : losses initial (curve ++ [point]) =
    insert (1 - point / max (curve.foldl max initial) point) (losses initial curve) := by
  rw [losses, losses, Set.insert_comm]
  congr 1
  ext x
  constructor
  · rintro ⟨day, p, hp, rfl⟩
    rcases Nat.lt_or_ge day curve.length with hlt | hge
    · rw [List.getElem?_append_left hlt] at hp
      exact .inr ⟨day, p, hp, by rw [peak_concat_of_lt hlt]⟩
    · have hday : day < (curve ++ [point]).length := (List.getElem?_eq_some_iff.1 hp).1
      rw [List.length_append, List.length_singleton] at hday
      obtain rfl : day = curve.length := Nat.le_antisymm (Nat.le_of_lt_succ hday) hge
      rw [List.getElem?_concat_length] at hp
      obtain rfl := Option.some.inj hp
      exact .inl (by rw [peak_concat])
  · rintro (rfl | ⟨day, p, hp, rfl⟩)
    · exact ⟨curve.length, point, List.getElem?_concat_length, by rw [peak_concat]⟩
    · have hlt : day < curve.length := (List.getElem?_eq_some_iff.1 hp).1
      exact ⟨day, p, by rw [List.getElem?_append_left hlt, hp], by rw [peak_concat_of_lt hlt]⟩

end Field
end EquityCurve

/-! ### One pass -/

open FieldArith EquityCurve

namespace Metrics

variable {α K : Type} [Arith α] [Field K] [LinearOrder K] [FieldArith α K]

/-- What the pass has found in a curve. -/
structure Drawdown.Tracks (initial : K) (curve : List K) (d : Drawdown α) : Prop where
  peak : number d.peak = curve.foldl max initial
  underwater : IsGreatest (lasting initial curve) d.underwater
  deepest : IsGreatest (losses initial curve) (number d.deepest)
  longest : IsGreatest (spells initial curve) d.longest

variable {initial : K} {curve : List K} {d : Drawdown α}

theorem Drawdown.tracks_start (capital : α) :
    Drawdown.Tracks (number capital) [] (⟨capital, 0, 0, 0⟩ : Drawdown α) where
  peak := rfl
  underwater := ⟨zero_mem_lasting, fun _ ⟨_, hend, _⟩ => (Nat.eq_zero_of_add_eq_zero hend).2.le⟩
  deepest := by
    rw [number_zero]
    refine ⟨zero_mem_losses, ?_⟩
    rintro x (rfl | ⟨day, point, hpoint, -⟩)
    · exact le_refl 0
    · cases hpoint
  longest := by
    refine ⟨zero_mem_spells, ?_⟩
    rintro days ⟨first, hspell⟩
    cases days with
    | zero => exact Nat.le_refl 0
    | succ days => exact absurd hspell.end_le (Nat.not_lt_zero _)

/-- One more point: a new high or a tie ends the spell that has lasted and adds no loss, and a
lower point makes it longer. -/
theorem Drawdown.Tracks.step (hpos : 0 < initial) (h : d.Tracks initial curve) (equity : α) :
    (d.step equity).Tracks initial (curve ++ [number equity]) := by
  have hhighest : 0 < number d.peak :=
    h.peak ▸ hpos.trans_le (initial_le_foldl_max initial curve)
  have hfold : (curve ++ [number equity]).foldl max initial =
      max (curve.foldl max initial) (number equity) := by
    rw [List.foldl_append]
    rfl
  unfold Drawdown.step
  split
  · next hhigh =>
      rw [le_iff] at hhigh
      have hloss : 1 - number equity / number equity = 0 := by
        rw [div_self (hhighest.trans_le hhigh).ne', sub_self]
      rw [h.peak] at hhigh
      have hlasting := lasting_concat_high hhigh
      refine ⟨by rw [hfold, max_eq_right hhigh], ?_, ?_, ?_⟩
      · rw [hlasting]
        exact isGreatest_singleton
      · rw [losses_concat, max_eq_right hhigh, hloss, Set.insert_eq_of_mem zero_mem_losses]
        exact h.deepest
      · rw [spells_concat, hlasting, Set.union_singleton, Set.insert_eq_of_mem zero_mem_spells]
        exact h.longest
  · next hlow =>
      rw [le_iff, not_le, h.peak] at hlow
      have hcounted : ¬d.peak ≤ 0 := by
        rw [nonpos_iff]
        exact not_le.2 hhighest
      rw [if_neg hcounted]
      have hgrown : IsGreatest (lasting initial (curve ++ [number equity])) (d.underwater + 1) := by
        rw [lasting_concat_low hlow, ← Nat.zero_max (d.underwater + 1)]
        exact (Order.succ_mono.map_isGreatest h.underwater).insert 0
      refine ⟨by rw [hfold, max_eq_left hlow.le, h.peak], hgrown, ?_, ?_⟩
      · rw [losses_concat, max_eq_left hlow.le, ← h.peak, number_larger, number_sub, number_div,
          number_one, max_comm]
        exact h.deepest.insert _
      · rw [spells_concat]
        exact h.longest.union hgrown

theorem Drawdown.tracks (capital : α) (hcapital : 0 < capital) (equity : List α) :
    (equity.foldl Drawdown.step ⟨capital, 0, 0, 0⟩).Tracks (number capital)
      (equity.map number) := by
  induction equity using List.reverseRecOn with
  | nil => exact Drawdown.tracks_start capital
  | append_singleton equity point ih =>
      rw [List.foldl_append, List.map_append]
      exact ih.step (pos_iff.1 hcapital) point

/-- The drawdown of a curve: its depth is the greatest loss from a peak, and zero if nothing is
ever lost; its duration is that of the longest spell below the peak. A tie with the peak ends a
spell, and one that is still open at the end counts. -/
theorem drawdown_greatest (capital : α) (hcapital : 0 < capital) (equity : List α) :
    IsGreatest (losses (number capital) (equity.map number)) (number (drawdown capital equity).1) ∧
      IsGreatest (spells (number capital) (equity.map number)) (drawdown capital equity).2 :=
  have htracks := Drawdown.tracks capital hcapital equity
  ⟨htracks.deepest, htracks.longest⟩

/-- Of 100 the first day loses a tenth. The peak of 110 is met again after a day, and a fifth of
it is lost in the two days before the end. -/
def sampleCurve : List (Exact Rat.toNNRat fun x _ => x) :=
  [90, 110, 99, 110, 88, 99]

theorem sampleCurve_drawdown :
    IsGreatest (losses 100 [90, 110, 99, 110, 88, 99]) (1 / 5 : ℚ) ∧
      IsGreatest (spells (100 : ℚ) [90, 110, 99, 110, 88, 99]) 2 := by
  have hdrawdown := drawdown_greatest (100 : Exact Rat.toNNRat fun x _ => x) (by decide +kernel)
    sampleCurve
  have hdepth : number (drawdown (100 : Exact Rat.toNNRat fun x _ => x) sampleCurve).1 = 1 / 5 := by
    decide +kernel
  have hdays : (drawdown (100 : Exact Rat.toNNRat fun x _ => x) sampleCurve).2 = 2 := by
    decide +kernel
  rw [hdepth, hdays] at hdrawdown
  exact hdrawdown

end Metrics
end StrategyTree
