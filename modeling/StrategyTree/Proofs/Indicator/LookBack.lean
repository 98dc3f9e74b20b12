import StrategyTree.Proofs.Indicator.Windows
import StrategyTree.Indicator.Strength
/-!
# Look-backs

How many entries in a row a machine has to read before it answers. Each machine counts in
its own way; the count is a function of the number of values since the last gap, and a
machine that reads the answers of another looks back over both.
-/
namespace StrategyTree

namespace Series

variable {β γ : Type} {xs : List (Option β)} {ys : List (Option γ)} {k m day : Nat}

theorem presentFor_one : PresentFor 1 day xs ↔ (at? xs day).isSome :=
  ⟨fun h => (h 0 Nat.one_pos).2, fun h back hback => by
    obtain rfl : back = 0 := by omega
    exact ⟨Nat.zero_le _, h⟩⟩

theorem presentFor_succ :
    PresentFor (k + 1) (day + 1) xs ↔ (at? xs (day + 1)).isSome ∧ PresentFor k day xs := by
  constructor
  · intro h
    refine ⟨(h 0 k.succ_pos).2, fun back hback => ?_⟩
    obtain ⟨hle, hentry⟩ := h (back + 1) (Nat.succ_lt_succ hback)
    rw [Nat.add_sub_add_right] at hentry
    exact ⟨Nat.le_of_succ_le_succ hle, hentry⟩
  · rintro ⟨hnow, h⟩ back hback
    cases back with
    | zero => exact ⟨Nat.zero_le _, hnow⟩
    | succ back =>
        obtain ⟨hle, hentry⟩ := h back (Nat.lt_of_succ_lt_succ hback)
        rw [Nat.add_sub_add_right]
        exact ⟨Nat.succ_le_succ hle, hentry⟩

theorem PresentFor.mono (h : PresentFor k day xs) (hm : m ≤ k) : PresentFor m day xs :=
  fun back hback => h back (Nat.lt_of_lt_of_le hback hm)

theorem presentFor_max :
    PresentFor (max k m) day xs ↔ PresentFor k day xs ∧ PresentFor m day xs := by
  constructor
  · exact fun h => ⟨h.mono (Nat.le_max_left k m), h.mono (Nat.le_max_right k m)⟩
  · rintro ⟨hk, hm⟩ back hback
    by_cases h : back < k
    · exact hk back h
    · exact hm back (by omega)

/-- Entries that are there when `k` entries of another list and something else are, are there for
`m` days when `m + k - 1` of the others are and the rest holds on each of these days. -/
theorem presentFor_stacked {P : Nat → Prop} (hk : 0 < k) (hm : 0 < m)
    (h : ∀ day, (at? ys day).isSome ↔ PresentFor k day xs ∧ P day) :
    PresentFor m day ys ↔ PresentFor (m + k - 1) day xs ∧ ∀ back < m, P (day - back) := by
  constructor
  · intro hys
    refine ⟨fun back hback => ?_, fun back hback => ((h _).1 (hys back hback).2).2⟩
    -- so many days back in the second list, and the rest in the first
    have hsplit : back = min back (m - 1) + (back - min back (m - 1)) := by omega
    obtain ⟨hle, hsome⟩ := hys (min back (m - 1)) (by omega)
    obtain ⟨hrest, hentry⟩ := ((h _).1 hsome).1 (back - min back (m - 1)) (by omega)
    rw [Nat.sub_sub, ← hsplit] at hentry
    exact ⟨by omega, hentry⟩
  · rintro ⟨hxs, hP⟩ back hback
    refine ⟨(hxs back (by omega)).1, (h _).2 ⟨fun more hmore => ?_, hP back hback⟩⟩
    obtain ⟨hle, hentry⟩ := hxs (back + more) (by omega)
    rw [Nat.sub_sub]
    exact ⟨by omega, hentry⟩

/-- Look-backs of two lists, one above the other, add up. -/
theorem presentFor_comp (hk : 0 < k) (hm : 0 < m)
    (h : ∀ day, (at? ys day).isSome ↔ PresentFor k day xs) :
    PresentFor m day ys ↔ PresentFor (m + k - 1) day xs := by
  have hstacked : PresentFor m day ys ↔ PresentFor (m + k - 1) day xs ∧ ∀ back < m, True :=
    presentFor_stacked hk hm fun day => by rw [h, and_true]
  simpa using hstacked

end Series

namespace Machine

open Indicator Series

variable {α σ ο : Type} [Arith α] {n : Nat} {m : Machine σ (α × α) ο} {run : σ → Nat}

theorem Windowed.tracks (h : m.Windowed n run) :
    (m.overWindow n).Tracks fun (seen : List α) s => s.2 = seen ∧ run s.1 = seen.length where
  start := ⟨rfl, h.start⟩
  step x hs := by
    refine ⟨congrArg (· ++ [x]) hs.1, (h.step _ _).trans ?_⟩
    rw [hs.2, List.length_append, List.length_singleton]

/-- A sliding machine that answers whenever its window is full. -/
theorem Windowed.isSome_iff (h : m.Windowed n run) (hn : 0 < n)
    (hanswer : ∀ s x, (m.step s x).2.isSome ↔ n ≤ run s + 1) (xs : Series α) (day : Nat) :
    (at? ((m.overWindow n).run (xs.map usable)) day).isSome ↔
      PresentFor n day (xs.map usable) := by
  refine h.tracks.isSome_iff hn (fun x hs => ?_) _ day
  rw [← hs.2]
  exact hanswer _ _

end Machine

namespace Indicator

open Machine Series

variable {α : Type} [Arith α] {n : Nat} {day : Nat}

theorem isSome_simpleAverage (hn : 0 < n) (xs : Series α) :
    ((simpleAverage xs n).at? day).isSome ↔ PresentFor n day (xs.map usable) := by
  rw [simpleAverage_eq hn]
  refine (windowed_simple n).isSome_iff hn (fun s x => ?_) xs day
  dsimp only [simpleMachine]
  split <;> simp_all

theorem isSome_rollingMoments (hn : 0 < n) (xs : Series α) :
    (at? (rollingMoments xs n) day).isSome ↔ PresentFor n day (xs.map usable) := by
  rw [rollingMoments_eq hn]
  refine (windowed_moments n).isSome_iff hn (fun s x => ?_) xs day
  dsimp only [momentsMachine]
  split <;> simp_all

theorem isSome_lineSlope (hn : 2 ≤ n) (xs : Series α) :
    ((lineSlope xs n).at? day).isSome ↔ PresentFor n day (xs.map usable) := by
  rw [lineSlope_eq hn]
  refine (windowed_slope n).isSome_iff (by omega) (fun s x => ?_) xs day
  dsimp only [slopeMachine]
  split <;> simp_all

/-! ### Averages that are seeded -/

theorem tracks_seeded (n : Nat) (advance : α → α → α) :
    (seededMachine n advance).Tracks fun (seen : List α) s => s.run = seen.length where
  start := rfl
  step {seen s} x hs := by
    rw [List.length_append, List.length_singleton, ← hs]
    dsimp only [seededMachine]
    split <;> rfl

theorem isSome_seeded (hn : 0 < n) (advance : α → α → α) (xs : List (Option α)) :
    (at? ((seededMachine n advance).run xs) day).isSome ↔ PresentFor n day xs := by
  refine (tracks_seeded n advance).isSome_iff hn (fun {seen s} x hs => ?_) xs day
  rw [← hs]
  dsimp only [seededMachine]
  split
  · next hfew => simp; omega
  · next hfull => simp; omega

theorem isSome_exponentialAverage (hn : 0 < n) (xs : Series α) :
    ((exponentialAverage xs n).at? day).isSome ↔ PresentFor n day (xs.map usable) := by
  rw [exponentialAverage, if_neg hn.ne']
  exact isSome_seeded hn _ _

/-! ### Changes from day to day -/

theorem GainLoss.changes_change (n : Nat) (s : GainLoss α) (x : α) :
    (s.change n x).1.changes = s.changes + 1 := by
  unfold change
  dsimp only
  split
  · rfl
  · split <;> rfl

theorem GainLoss.isSome_change (n : Nat) (s : GainLoss α) (x : α) :
    (s.change n x).2.isSome ↔ n ≤ s.changes + 1 := by
  unfold change
  dsimp only
  split
  · simp; omega
  · split
    · simp; omega
    · simp; omega

/-- There is a last value once there is any, and one change fewer than values. -/
theorem tracks_strength (n : Nat) :
    (strengthMachine n).Tracks fun (seen : List α) s =>
      (s.previous.isSome ↔ 0 < seen.length) ∧ s.changes = seen.length - 1 where
  start := ⟨by simp [strengthMachine], rfl⟩
  step {seen s} x hs := by
    obtain ⟨hprevious, hchanges⟩ := hs
    refine ⟨by simp [strengthMachine], ?_⟩
    rw [List.length_append, List.length_singleton, Nat.add_sub_cancel]
    cases hlast : s.previous with
    | none =>
        have hempty : seen.length = 0 := by simpa [hlast] using hprevious
        simp only [strengthMachine, hlast]
        omega
    | some last =>
        have hpos : 0 < seen.length := by simpa [hlast] using hprevious
        simp only [strengthMachine, hlast, GainLoss.changes_change]
        omega

theorem isSome_relativeStrength (hn : 0 < n) (xs : Series α) :
    ((relativeStrength xs n).at? day).isSome ↔ PresentFor (n + 1) day (xs.map usable) := by
  rw [relativeStrength, if_neg hn.ne']
  refine (tracks_strength n).isSome_iff n.succ_pos (fun {seen s} x hs => ?_) _ day
  obtain ⟨hprevious, hchanges⟩ := hs
  cases hlast : s.previous with
  | none =>
      have hempty : seen.length = 0 := by simpa [hlast] using hprevious
      simp [strengthMachine, hlast]
      omega
  | some last =>
      have hpos : 0 < seen.length := by simpa [hlast] using hprevious
      simp only [strengthMachine, hlast, GainLoss.isSome_change]
      omega

/-! ### Days with a high, a low and a close -/

/-- High, low and close are each present on the last `k` days. -/
def RangesFor (k day : Nat) (high low close : Series α) : Prop :=
  PresentFor k day (high.map usable) ∧ PresentFor k day (low.map usable) ∧
    PresentFor k day (close.map usable)

theorem at?_ranges (high low close : Series α) (day : Nat) :
    at? (ranges high low close) day =
      (usable (high.at? day)).bind fun h => (usable (low.at? day)).bind fun l =>
        (usable (close.at? day)).map fun c => ⟨h, l, c⟩ := by
  induction high generalizing low close day with
  | nil => rfl
  | cons h hs ih =>
      cases low with
      | nil => cases usable (at? (h :: hs) day) <;> rfl
      | cons l ls =>
          cases close with
          | nil =>
              cases usable (at? (h :: hs) day) with
              | none => rfl
              | some h => cases usable (at? (l :: ls) day) <;> rfl
          | cons c cs =>
              cases day with
              | zero => rfl
              | succ day => exact ih ls cs day

theorem isSome_ranges (high low close : Series α) (day : Nat) :
    (at? (ranges high low close) day).isSome ↔ (at? (high.map usable) day).isSome ∧
      (at? (low.map usable) day).isSome ∧ (at? (close.map usable) day).isSome := by
  rw [at?_ranges, at?_map_usable, at?_map_usable, at?_map_usable]
  cases usable (high.at? day) <;> cases usable (low.at? day) <;>
    cases usable (close.at? day) <;> simp

theorem presentFor_ranges (high low close : Series α) (k : Nat) :
    PresentFor k day (ranges high low close) ↔ RangesFor k day high low close := by
  simp only [PresentFor, RangesFor, isSome_ranges]
  constructor
  · intro h
    exact ⟨fun back hback => ⟨(h back hback).1, (h back hback).2.1⟩,
      fun back hback => ⟨(h back hback).1, (h back hback).2.2.1⟩,
      fun back hback => ⟨(h back hback).1, (h back hback).2.2.2⟩⟩
  · rintro ⟨hhigh, hlow, hclose⟩ back hback
    exact ⟨(hhigh back hback).1, (hhigh back hback).2, (hlow back hback).2, (hclose back hback).2⟩

/-- Every day with a range has a true range. -/
theorem isSome_trueRange (rs : List (Option (Range α))) :
    (at? (trueRangeMachine.run rs) day).isSome ↔ PresentFor 1 day rs := by
  have htracks : (trueRangeMachine (α := α)).Tracks fun _ _ => True := ⟨trivial, fun _ _ => trivial⟩
  refine htracks.isSome_iff Nat.one_pos (fun {seen s} x _ => ?_) rs day
  simp [trueRangeMachine]

theorem isSome_averageTrueRange (hn : 0 < n) (high low close : Series α) :
    ((averageTrueRange high low close n).at? day).isSome ↔ RangesFor n day high low close := by
  rw [averageTrueRange, if_neg hn.ne', isSome_seeded hn, ← presentFor_ranges]
  exact presentFor_comp Nat.one_pos hn fun day => isSome_trueRange _

/-! ### Directional moves -/

theorem Direction.moves_move (n : Nat) (s : Direction α) (previous r : Range α) :
    (s.move n previous r).1.moves = s.moves + 1 := by
  unfold move
  dsimp only
  split
  · rfl
  · split
    · rfl
    · split <;> rfl

theorem Direction.indices_move (n : Nat) (s : Direction α) (previous r : Range α) :
    (s.move n previous r).1.indices =
      if s.moves + 1 < n then s.indices else s.indices + 1 := by
  unfold move
  dsimp only
  split
  · rfl
  · split
    · rfl
    · split <;> rfl

theorem Direction.isSome_move (n : Nat) (s : Direction α) (previous r : Range α) :
    (s.move n previous r).2.isSome ↔ n ≤ s.moves + 1 ∧ n ≤ s.indices + 1 := by
  unfold move
  dsimp only
  split
  · simp; omega
  · split
    · simp; omega
    · split
      · simp; omega
      · simp; omega

/-- There is one move fewer than days, and an index for every move from the `n`th on. -/
theorem tracks_direction (hn : 0 < n) :
    (directionMachine n).Tracks fun (seen : List (Range α)) s =>
      (s.previous.isSome ↔ 0 < seen.length) ∧ s.moves = seen.length - 1 ∧
        s.indices = s.moves + 1 - n where
  start := ⟨by simp [directionMachine], rfl, by simp only [directionMachine]; omega⟩
  step {seen s} r hs := by
    obtain ⟨hprevious, hmoves, hindices⟩ := hs
    refine ⟨by simp [directionMachine], ?_⟩
    rw [List.length_append, List.length_singleton, Nat.add_sub_cancel]
    cases hlast : s.previous with
    | none =>
        have hempty : seen.length = 0 := by simpa [hlast] using hprevious
        simp only [directionMachine, hlast]
        exact ⟨by omega, hindices⟩
    | some last =>
        have hpos : 0 < seen.length := by simpa [hlast] using hprevious
        simp only [directionMachine, hlast, Direction.moves_move, Direction.indices_move]
        refine ⟨by omega, ?_⟩
        split <;> omega

theorem isSome_averageDirection (hn : 0 < n) (high low close : Series α) :
    ((averageDirection high low close n).at? day).isSome ↔
      RangesFor (2 * n) day high low close := by
  rw [averageDirection, if_neg hn.ne', ← presentFor_ranges]
  refine (tracks_direction hn).isSome_iff (by omega) (fun {seen s} r hs => ?_) _ day
  obtain ⟨hprevious, hmoves, hindices⟩ := hs
  cases hlast : s.previous with
  | none =>
      have hempty : seen.length = 0 := by simpa [hlast] using hprevious
      simp [directionMachine, hlast]
      omega
  | some last =>
      have hpos : 0 < seen.length := by simpa [hlast] using hprevious
      simp only [directionMachine, hlast, Direction.isSome_move]
      omega

/-! ### Changes over a window -/

/-- The change over `n` days has a value if the value it starts from is not zero. -/
theorem isSome_cumulativeChange (hn : 0 < n) (xs : Series α) :
    ((cumulativeChange xs n).at? day).isSome ↔ PresentFor (n + 1) day (xs.map usable) ∧
      ∀ v ∈ Window.leaving (n + 1) (xs.seenOn day), ¬v == 0 := by
  rw [cumulativeChange_eq hn]
  refine (windowed_change n).tracks.isSome_iff_and n.succ_pos
    (fun seen => ∀ v ∈ Window.leaving (n + 1) seen, ¬v == 0) (fun {seen s} x hs => ?_) _ day
  have hrun : s.1 = seen.length := hs.2
  simp only [changeMachine, overWindow, hs.1, hrun, Nat.lt_add_one_iff]
  rw [Window.leaving_succ_concat hn]
  by_cases hfull : n ≤ seen.length
  · obtain ⟨old, -, hold⟩ := Window.exists_leaving hn hfull
    simp [hold, hfull]
  · simp [hfull]

end Indicator
end StrategyTree
