import StrategyTree.Proofs.Machine
import StrategyTree.Indicator.Return
import StrategyTree.Indicator.Trend
/-!
# Indicators over a window

The machines behind the sliding indicators are handed each value with the one that lies
`n` days before it in the whole series. They look at it only once they have read `n`
values since the last gap, and then it is the value that leaves their window. So they
answer as machines do that read plain values and keep those since the last gap.
-/
namespace StrategyTree

variable {α σ ο : Type} [Arith α]

namespace Series

theorem usable_eq_some {x : Option α} {v : α} :
    usable x = some v ↔ x = some v ∧ Arith.isFinite v = true :=
  Option.filter_eq_some_iff

omit [Arith α] in
/-- What a series is mapped to entry by entry, missing where it is missing. -/
theorem at?_map {β : Type} {f : Option α → Option β} (hf : f none = none) (xs : Series α)
    (day : Nat) : at? (xs.map f) day = f (xs.at? day) := by
  rw [at?, at?, List.getElem?_map]
  cases xs[day]? with
  | none => exact hf.symm
  | some x => rfl

theorem at?_map_usable (xs : Series α) (day : Nat) :
    at? (xs.map usable) day = usable (xs.at? day) :=
  at?_map rfl xs day

omit [Arith α] in
@[simp] theorem at?_undefined (length day : Nat) : at? (undefined length : Series α) day = none := by
  rw [at?, undefined, List.getElem?_replicate]
  split <;> rfl

/-- The values since the last gap of the usable entries up to a day. -/
def seenOn (xs : Series α) (day : Nat) : List α :=
  recent ((xs.map usable).take (day + 1))

theorem finite_of_mem_seenOn {xs : Series α} {day : Nat} {v : α} (hv : v ∈ xs.seenOn day) :
    Arith.isFinite v = true := by
  have hmem : some v ∈ (xs.map usable).take (day + 1) :=
    (recent_suffix _).subset (List.mem_map_of_mem hv)
  obtain ⟨x, -, hx⟩ := List.mem_map.1 (List.mem_of_mem_take hmem)
  exact (usable_eq_some.1 hx).2

end Series

namespace Machine

/-- Reads plain values, and hands `m` each with the one that leaves the window as it enters. -/
def overWindow (n : Nat) (m : Machine σ (α × α) ο) : Machine (σ × List α) α ο where
  start := (m.start, [])
  step s x :=
    let r := m.step s.1 (x, (Window.leaving n s.2).getD 0)
    ((r.1, s.2 ++ [x]), r.2)

/-- A machine that counts the values since the last gap and does not look at the leaving
value before it has counted `n`. -/
structure Windowed (n : Nat) (m : Machine σ (α × α) ο) (run : σ → Nat) : Prop where
  start : run m.start = 0
  step (s : σ) (x : α × α) : run (m.step s x).1 = run s + 1
  ignores {s : σ} (h : run s < n) (x a b : α) : m.step s (x, a) = m.step s (x, b)

variable {n : Nat} {m : Machine σ (α × α) ο} {run : σ → Nat}

open Indicator Series

omit [Arith α] in
/-- The entry that lies `n` days back is the value that leaves the window of the last `n`
values, if the list ends in so many. -/
theorem leaving_suffix (hn : 0 < n) {xs : List (Option α)} {seen : List α}
    (hsuffix : seen.map some <:+ xs) (h : n ≤ seen.length) :
    ∃ v, Window.leaving n seen = some v ∧ Window.leaving n xs = some (some v) := by
  obtain ⟨before, rfl⟩ := hsuffix
  have hlt : seen.length - n < seen.length := by omega
  have hplace : before.length + seen.length - n - before.length = seen.length - n := by omega
  refine ⟨seen[seen.length - n], ?_, ?_⟩
  · rw [Window.leaving, if_neg (by omega), List.getElem?_eq_getElem hlt]
  · rw [Window.leaving, List.length_append, List.length_map, if_neg (by omega),
      List.getElem?_append_right (by omega), hplace, List.getElem?_map,
      List.getElem?_eq_getElem hlt]
    rfl

theorem leaving_usable (hn : 0 < n) {xs : Series α}
    (h : n ≤ (recent (xs.map usable)).length) :
    (Window.leaving n xs).join = Window.leaving n (recent (xs.map usable)) := by
  obtain ⟨v, hv, hentry⟩ := leaving_suffix hn (recent_suffix _) h
  rw [hv]
  simp only [Window.leaving, List.length_map, List.getElem?_map] at hentry ⊢
  split at hentry
  · cases hentry
  · next hlength =>
      rw [if_neg hlength]
      obtain ⟨x, hx, husable⟩ := Option.map_eq_some_iff.1 hentry
      rw [hx, (usable_eq_some.1 husable).1]
      rfl

theorem withLeaving_concat (hn : 0 < n) (xs : Series α) (x : Option α) :
    withLeaving n (xs ++ [x]) =
      withLeaving n xs ++ [(usable x).map fun v => (v, (Window.leaving n xs).join.getD 0)] := by
  rw [withLeaving, Window.delayed_concat hn, List.zipWith_append (by simp)]
  rfl

/-- A sliding machine reads off the whole series what it could keep of the last values. -/
theorem Windowed.run_withLeaving (h : m.Windowed n run) (hn : 0 < n) (xs : Series α) :
    m.run (withLeaving n xs) = (m.overWindow n).run (xs.map usable) := by
  have key : m.run (withLeaving n xs) = (m.overWindow n).run (xs.map usable) ∧
      ((m.overWindow n).after (xs.map usable)).1 = m.after (withLeaving n xs) ∧
      ((m.overWindow n).after (xs.map usable)).2 = recent (xs.map usable) ∧
      run (m.after (withLeaving n xs)) = (recent (xs.map usable)).length := by
    induction xs using List.reverseRecOn with
    | nil => exact ⟨rfl, rfl, rfl, h.start⟩
    | append_singleton xs x ih =>
        obtain ⟨hrun, hstate, hseen, hcount⟩ := ih
        rw [withLeaving_concat hn, List.map_append, List.map_singleton, run_concat, run_concat,
          after_concat, after_concat, hrun]
        cases usable x with
        | none =>
            rw [recent_concat_none]
            exact ⟨rfl, rfl, rfl, h.start⟩
        | some v =>
            -- the leaving value is the same, or the machine does not look at it
            have hstep : m.step (m.after (withLeaving n xs)) (v, (Window.leaving n xs).join.getD 0) =
                m.step ((m.overWindow n).after (xs.map usable)).1
                  (v, (Window.leaving n ((m.overWindow n).after (xs.map usable)).2).getD 0) := by
              rw [hstate, hseen]
              by_cases hfull : n ≤ (recent (xs.map usable)).length
              · rw [leaving_usable hn hfull]
              · exact h.ignores (by omega) _ _ _
            refine ⟨congrArg (fun r => _ ++ [r.2]) hstep, congrArg Prod.fst hstep.symm, ?_, ?_⟩
            · rw [recent_concat_some, ← hseen]
              rfl
            · rw [recent_concat_some, List.length_append, ← hcount]
              exact h.step _ _
  exact key.1

/-- What holds of the state of a sliding machine, told by its steps on leaving values. -/
theorem tracks_overWindow {At : List α → σ → Prop} (hstart : At [] m.start)
    (hstep : ∀ {seen s} (x : α), At seen s →
      At (seen ++ [x]) (m.step s (x, (Window.leaving n seen).getD 0)).1) :
    (m.overWindow n).Tracks fun seen s => s.2 = seen ∧ At seen s.1 where
  start := ⟨rfl, hstart⟩
  step := by
    rintro seen ⟨s, _⟩ x ⟨rfl, hs⟩
    exact ⟨rfl, hstep x hs⟩

/-- What a sliding machine answers on a day, it answers to the last value seen up to it. -/
theorem exists_step {At : List α → σ → Prop}
    (h : (m.overWindow n).Tracks fun seen s => s.2 = seen ∧ At seen s.1) {xs : Series α} {day : Nat}
    {y : ο} (hy : at? ((m.overWindow n).run (xs.map usable)) day = some y) :
    day < xs.length ∧ ∃ seen s x, At seen s ∧ xs.seenOn day = seen ++ [x] ∧
      (m.step s (x, (Window.leaving n seen).getD 0)).2 = some y := by
  obtain ⟨x, hx⟩ := exists_of_answer hy
  obtain ⟨seen, s, ⟨hkept, hs⟩, hseen, hstep⟩ := h.entry hx
  have hlt := (List.getElem?_eq_some_iff.1 hx).1
  rw [List.length_map] at hlt
  refine ⟨hlt, seen, s.1, x, hs, hseen, ?_⟩
  rw [← hkept]
  exact hstep.symm.trans hy

end Machine

namespace Indicator

open Machine Series

theorem windowed_simple (n : Nat) :
    (simpleMachine n : Machine (SlidingSum α) (α × α) α).Windowed n SlidingSum.run where
  start := rfl
  step _ _ := rfl
  ignores h x a b := by simp only [simpleMachine, if_neg (Nat.not_lt.2 (Nat.succ_le_of_lt h))]

theorem windowed_moments (n : Nat) :
    (momentsMachine n : Machine (SlidingSquares α) (α × α) (Moments α)).Windowed n
      SlidingSquares.run where
  start := rfl
  step _ _ := rfl
  ignores h x a b := by simp only [momentsMachine, if_neg (Nat.not_lt.2 (Nat.succ_le_of_lt h))]

theorem windowed_change (n : Nat) :
    (changeMachine n : Machine Nat (α × α) α).Windowed n id where
  start := rfl
  step _ _ := rfl
  ignores {s} h x a b := by
    have hnot : ¬n < s + 1 := Nat.not_lt.2 (Nat.succ_le_of_lt h)
    simp only [changeMachine, hnot, false_and, if_false]

theorem windowed_slope (n : Nat) :
    (slopeMachine n : Machine (SlidingLine α) (α × α) α).Windowed n SlidingLine.run where
  start := rfl
  step s x := by
    unfold slopeMachine
    dsimp only
    split <;> rfl
  ignores h x a b := by simp only [slopeMachine, if_pos (Nat.succ_le_of_lt h)]

variable {n : Nat}

theorem simpleAverage_eq (hn : 0 < n) (xs : Series α) :
    simpleAverage xs n = ((simpleMachine n).overWindow n).run (xs.map usable) := by
  rw [simpleAverage, if_neg hn.ne', (windowed_simple n).run_withLeaving hn]

theorem rollingMoments_eq (hn : 0 < n) (xs : Series α) :
    rollingMoments xs n = ((momentsMachine n).overWindow n).run (xs.map usable) := by
  rw [rollingMoments, if_neg hn.ne', (windowed_moments n).run_withLeaving hn]

theorem cumulativeChange_eq (hn : 0 < n) (xs : Series α) :
    cumulativeChange xs n = ((changeMachine n).overWindow n).run (xs.map usable) := by
  rw [cumulativeChange, if_neg hn.ne', (windowed_change n).run_withLeaving hn]

theorem lineSlope_eq (hn : 2 ≤ n) (xs : Series α) :
    lineSlope xs n = ((slopeMachine n).overWindow n).run (xs.map usable) := by
  rw [lineSlope, if_neg (by omega), (windowed_slope n).run_withLeaving (by omega)]

/-- Answers the change from the last value, if that is not zero. -/
def returnMachine : Machine (Option α) α α where
  start := none
  step previous x :=
    (some x, previous.bind fun a => if a == 0 then none else some (percentChange a x))

theorem dailyReturns_eq (xs : Series α) :
    dailyReturns xs = (returnMachine (α := α)).run (xs.map usable) := by
  have key : dailyReturns xs = (returnMachine (α := α)).run (xs.map usable) ∧
      (returnMachine (α := α)).after (xs.map usable) = usable (Window.leaving 1 xs).join := by
    induction xs using List.reverseRecOn with
    | nil => exact ⟨rfl, rfl⟩
    | append_singleton xs x ih =>
        obtain ⟨hrun, hstate⟩ := ih
        have hlast : Window.leaving 1 (xs ++ [x]) = some x := by simp [Window.leaving]
        have hzip : dailyReturns (xs ++ [x]) = dailyReturns xs ++
            [(usable (Window.leaving 1 xs).join).bind fun a => (usable x).bind fun b =>
              if a == 0 then none else some (percentChange a b)] := by
          rw [dailyReturns, Window.delayed_concat Nat.one_pos, List.zipWith_append (by simp)]
          rfl
        rw [hzip, hlast, List.map_append, List.map_singleton, run_concat, after_concat, hrun, hstate,
          Option.join_some]
        cases usable x with
        | none => cases usable (Window.leaving 1 xs).join <;> exact ⟨rfl, rfl⟩
        | some v => exact ⟨rfl, rfl⟩
  exact key.1

end Indicator
end StrategyTree
