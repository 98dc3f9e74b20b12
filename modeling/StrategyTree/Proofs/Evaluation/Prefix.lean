import StrategyTree.Proofs.Condition.Prefix
import StrategyTree.Proofs.Evaluation.Safety
/-!
# Decisions on a prefix

On the days of a prefix an accepted strategy decides over the prefix what it
decides over the whole matrix: the caches of both runs are faithful to their own
matrix, and the signals of one are prefixes of those of the other.
-/
namespace StrategyTree

variable {α : Type} [Arith α] {m : PriceMatrix α}

theorem Sources.onDay_take {day k : Nat} (h : day < k) (signal : Signal) :
    onDay day (signal.take k) = onDay day signal := by
  rw [onDay, onDay, List.getElem?_take, if_pos h]

namespace Strategy

theorem evaluateDays_cons {s : Strategy α} {day : Nat} {rest : List Nat} {state : RunState α}
    {a : Allocation α} {ws : List (Allocation α)} (ha : (s.evaluateDay m day state).1 = .ok a)
    (hws : (s.evaluateDays m rest (s.evaluateDay m day state).2).1 = .ok ws) :
    (s.evaluateDays m (day :: rest) state).1 = .ok (a :: ws) := by
  rw [evaluateDays, Run.bind_ok (Prod.ext ha rfl), Run.bind_ok (Prod.ext hws rfl)]
  rfl

theorem evaluateDays_uncons {s : Strategy α} {day : Nat} {rest : List Nat} {state : RunState α}
    {ws : List (Allocation α)} (h : (s.evaluateDays m (day :: rest) state).1 = .ok ws) :
    ∃ a others, (s.evaluateDay m day state).1 = .ok a ∧
      (s.evaluateDays m rest (s.evaluateDay m day state).2).1 = .ok others ∧ ws = a :: others := by
  rw [evaluateDays] at h
  cases hfirst : s.evaluateDay m day state with
  | mk result after =>
    cases result with
    | error e =>
        rw [Run.bind_error hfirst] at h
        cases h
    | ok a =>
        rw [Run.bind_ok hfirst] at h
        cases hrest : s.evaluateDays m rest after with
        | mk result last =>
          cases result with
          | error e =>
              rw [Run.bind_error hrest] at h
              cases h
          | ok others =>
              rw [Run.bind_ok hrest] at h
              exact ⟨a, others, rfl, rfl, (Except.ok.inj h).symm⟩

/-- There is one decision a day. -/
theorem length_evaluateDays {s : Strategy α} {days : List Nat} {state : RunState α}
    {ws : List (Allocation α)} (h : (s.evaluateDays m days state).1 = .ok ws) :
    ws.length = days.length := by
  induction days generalizing state ws with
  | nil =>
      obtain rfl : [] = ws := Except.ok.inj h
      rfl
  | cons day rest ih =>
      obtain ⟨a, others, -, hothers, rfl⟩ := evaluateDays_uncons h
      rw [List.length_cons, ih hothers, List.length_cons]

namespace WellFormed

variable {s : Strategy α} (hs : s.WellFormed)
include hs

/-- The evaluation of a day beside that over a prefix which contains the day. -/
def onPrefix (m : PriceMatrix α) {day k : Nat} (hday : day < k) :
    Simulation (.remembering m s.chains day) (.remembering (m.take k) s.chains day) s.chains :=
  hs.alike (f := List.take k)
    (fun {list signal} h => by
      have htake : Condition.directListSignal (m.take k) list = .ok (signal.take k) := by
        rw [Condition.directListSignal_take, h]
        rfl
      exact htake ▸ Condition.listSignal_computes _)
    (Sources.onDay_take hday)
    (fun ticker i => by rw [m.indicator_take, Series.at?_take hday])

theorem evaluateDay_take {day k : Nat} (hday : day < k) {state state' : RunState α}
    (h : RunState.Alike m (m.take k) (List.take k) state state') :
    (s.evaluateDay (m.take k) day state').1 = (s.evaluateDay m day state).1 ∧
      RunState.Alike m (m.take k) (List.take k) (s.evaluateDay m day state).2
        (s.evaluateDay (m.take k) day state').2 := by
  have hmatch := (hs.onPrefix m hday).evaluateDay (.root s) day h
  exact ⟨hmatch.same, hmatch.states⟩

theorem evaluateDays_ok {state : RunState α} (h : state.cache.Faithful m) (days : List Nat) :
    ∃ ws, (s.evaluateDays m days state).1 = .ok ws := by
  induction days generalizing state with
  | nil => exact ⟨[], rfl⟩
  | cons day rest ih =>
      obtain ⟨⟨a, ha⟩, hfaithful⟩ := hs.evaluateDay_ok h day
      obtain ⟨ws, hws⟩ := ih hfaithful
      exact ⟨a :: ws, evaluateDays_cons ha hws⟩

/-- The decisions over a prefix are the first decisions over the whole matrix. -/
theorem evaluateDays_take {k : Nat} {state state' : RunState α}
    (h : RunState.Alike m (m.take k) (List.take k) state state') (days : List Nat) {j : Nat}
    (hdays : ∀ day ∈ days.take j, day < k) :
    (s.evaluateDays (m.take k) (days.take j) state').1 =
      List.take j <$> (s.evaluateDays m days state).1 := by
  induction days generalizing j state state' with
  | nil => cases j <;> rfl
  | cons day rest ih =>
      cases j with
      | zero =>
          obtain ⟨ws, hws⟩ := hs.evaluateDays_ok h.cache (day :: rest)
          rw [hws]
          rfl
      | succ j =>
          rw [List.take_succ_cons] at hdays ⊢
          obtain ⟨hday, hrest⟩ := List.forall_mem_cons.1 hdays
          obtain ⟨hsame, hstates⟩ := hs.evaluateDay_take hday h
          obtain ⟨⟨a, ha⟩, hfaithful⟩ := hs.evaluateDay_ok h.cache day
          obtain ⟨ws, hws⟩ := hs.evaluateDays_ok hfaithful rest
          have ih := ih hstates hrest
          rw [hws] at ih
          rw [evaluateDays_cons ha hws, evaluateDays_cons (hsame.trans ha) ih]
          rfl

end WellFormed
end Strategy
end StrategyTree
