import StrategyTree.Evaluation.Day
import StrategyTree.Proofs.Condition.Signal
import StrategyTree.Proofs.Evaluation.Coupling
import StrategyTree.Proofs.Table
/-!
# What a run remembers

Two runs over two matrices may remember alike: caches that are faithful to their
own matrix, the same candidates and held flags, and signals of which those on one
side are a function of those on the other. Remembering sources keep this, as long
as the function does not touch the verdict of the day.
-/
namespace StrategyTree

variable {α : Type}

namespace Sources

/-- The signal that is kept under a key, computed on the first request. -/
def kept (x : Measured α Signal) (key : String) : Run α Signal := do
  match (← get).signals.get? key with
  | some signal => return signal
  | none =>
      let signal ← Run.measured x
      modify fun s => { s with signals := s.signals.insert key signal }
      return signal

section

variable {x : Measured α Signal} {key : String} {s : RunState α} {signal : Signal}
  {c : IndicatorCache α}

theorem kept_found (h : s.signals.get? key = some signal) : kept x key s = (.ok signal, s) := by
  have hget : (get : Run α (RunState α)) s = (.ok s, s) := rfl
  rw [kept, Run.bind_ok hget]
  simp only [h]
  rfl

theorem kept_computed (h : s.signals.get? key = none) (hx : x s.cache = (.ok signal, c)) :
    kept x key s = (.ok signal, { s with cache := c, signals := s.signals.insert key signal }) := by
  have hget : (get : Run α (RunState α)) s = (.ok s, s) := rfl
  have hmeasured : Run.measured x s = (.ok signal, { s with cache := c }) := by
    simp only [Run.measured, hx]
  rw [kept, Run.bind_ok hget]
  simp only [h]
  rw [Run.bind_ok hmeasured]
  rfl

theorem kept_failed {e : Failure} (h : s.signals.get? key = none)
    (hx : x s.cache = (.error e, c)) : kept x key s = (.error e, { s with cache := c }) := by
  have hget : (get : Run α (RunState α)) s = (.ok s, s) := rfl
  have hmeasured : Run.measured x s = (.error e, { s with cache := c }) := by
    simp only [Run.measured, hx]
  rw [kept, Run.bind_ok hget]
  simp only [h]
  rw [Run.bind_error hmeasured]

/-- A verdict is read off the signal that is kept. -/
theorem verdict_ok {day : Nat} {s' : RunState α} (h : kept x key s = (.ok signal, s')) :
    (do return onDay day (← kept x key) : Run α Verdict) s = (.ok (onDay day signal), s') := by
  rw [Run.bind_ok h]
  rfl

end

section

variable {chains : Table (Node α)} {n : Node α} {s : RunState α}

theorem candidates_found {tickers : List String}
    (h : s.candidates.get? n.id = some tickers) :
    rememberedCandidates chains n s = (.ok tickers, s) := by
  have hget : (get : Run α (RunState α)) s = (.ok s, s) := rfl
  rw [rememberedCandidates, Run.bind_ok hget, h]
  rfl

theorem candidates_collected (h : s.candidates.get? n.id = none) :
    rememberedCandidates chains n s = (.ok (n.positionTickers chains).keys,
      { s with candidates := s.candidates.insert n.id (n.positionTickers chains).keys }) := by
  have hget : (get : Run α (RunState α)) s = (.ok s, s) := rfl
  rw [rememberedCandidates, Run.bind_ok hget, h]
  rfl

end

theorem remembering_verdict [Arith α] (m : PriceMatrix α) (chains : Table (Node α)) (day : Nat)
    (key : String) (list : List (Condition α)) : (remembering m chains day).verdict key list =
      (do return onDay day (← kept (Condition.listSignal m list) key) : Run α Verdict) := rfl

end Sources

variable [Arith α] {m m' : PriceMatrix α} {f : Signal → Signal}

/-- What two runs remember, where `f` leads from the signals of the first to those of the
second. -/
structure RunState.Alike (m m' : PriceMatrix α) (f : Signal → Signal) (s t : RunState α) :
    Prop where
  cache : s.cache.Faithful m
  cache' : t.cache.Faithful m'
  signals : t.signals = s.signals.map fun _ => f
  candidates : t.candidates = s.candidates
  holds : t.holds = s.holds

theorem RunState.alike_start : RunState.Alike m m' f start start :=
  ⟨IndicatorCache.faithful_empty, IndicatorCache.faithful_empty, rfl, rfl, rfl⟩

theorem RunState.alike_self {s : RunState α} (h : s.cache.Faithful m) :
    RunState.Alike m m (fun signal => signal) s s :=
  ⟨h, h, s.signals.map_self.symm, rfl, rfl⟩

/-- Runs that remember alike and never fail. -/
def Coupling.alike (m m' : PriceMatrix α) (f : Signal → Signal) : Coupling α where
  states := RunState.Alike m m' f
  tolerates _ := False
  holds_eq h := h.holds
  withHolds h _ := ⟨h.cache, h.cache', h.signals, h.candidates, rfl⟩
  withPath h _ := ⟨h.cache, h.cache', h.signals, h.candidates, h.holds⟩

namespace RunState.Alike

open Measured Sources

variable {path : List String} {day : Nat}

/-- The verdicts of signals that are kept under one key agree. -/
theorem coupled_verdict {x y : Measured α Signal} {signal : Signal} (key : String)
    (hx : Computes m x (.ok signal)) (hy : Computes m' y (.ok (f signal)))
    (hday : ∀ signal, onDay day (f signal) = onDay day signal) :
    Run.Coupled (.alike m m' f) path (fun _ => True) (do return onDay day (← kept x key))
      (do return onDay day (← kept y key)) := by
  intro s t hst hs ht
  have hkey : t.signals.get? key = (s.signals.get? key).map f := by
    rw [hst.signals, Table.get?_map]
  cases h : s.signals.get? key with
  | some signal =>
      rw [h] at hkey
      rw [verdict_ok (kept_found h), verdict_ok (kept_found hkey), hday]
      exact ⟨rfl, trivial, hst, hs, ht⟩
  | none =>
      rw [h] at hkey
      obtain ⟨hr, hc⟩ := hx s.cache hst.cache
      obtain ⟨hr', hc'⟩ := hy t.cache hst.cache'
      rw [verdict_ok (kept_computed h (Prod.ext hr rfl)),
        verdict_ok (kept_computed hkey (Prod.ext hr' rfl)), hday]
      refine ⟨rfl, trivial, ⟨hc, hc', ?_, hst.candidates, hst.holds⟩, hs, ht⟩
      rw [Table.map_insert, hst.signals]

theorem coupled_value {ticker : String} {i : Indicator}
    (h : (m'.indicator ticker i).at? day = (m.indicator ticker i).at? day) :
    Run.Coupled (.alike m m' f) path (fun _ => True)
      (Run.measured (ExceptT.lift fun c => c.value m ticker i day))
      (Run.measured (ExceptT.lift fun c => c.value m' ticker i day)) := by
  intro s t hst hs ht
  obtain ⟨hv, hc⟩ := hst.cache.series ticker i
  obtain ⟨hv', hc'⟩ := hst.cache'.series ticker i
  refine ⟨?_, trivial, ⟨hc, hc', hst.signals, hst.candidates, hst.holds⟩, hs, ht⟩
  change Except.ok ((t.cache.series m' ticker i).1.at? day) =
    Except.ok ((s.cache.series m ticker i).1.at? day)
  rw [hv, hv', h]

/-- Candidates do not depend on prices. -/
theorem coupled_candidates (chains : Table (Node α)) (n : Node α) :
    Run.Coupled (.alike m m' f) path (fun _ => True) (rememberedCandidates chains n)
      (rememberedCandidates chains n) := by
  refine .look fun s t hst hs ht => ?_
  rw [hst.candidates]
  cases s.candidates.get? n.id with
  | some tickers => exact ⟨rfl, trivial, hst, hs, ht⟩
  | none =>
      refine ⟨rfl, trivial, ⟨hst.cache, hst.cache', hst.signals, ?_, hst.holds⟩, hs, ht⟩
      change t.candidates.insert _ _ = s.candidates.insert _ _
      rw [hst.candidates]

end RunState.Alike
end StrategyTree
