import Mathlib.Data.List.Induction
import StrategyTree.Proofs.Condition.Indexing
import StrategyTree.Proofs.Evaluation.Covers
import StrategyTree.Proofs.Evaluation.Memory
import StrategyTree.Proofs.Exact
/-!
# Accepted strategies do not fail

An accepted strategy decides an allocation on every day, after whatever days were
evaluated before. It does so too if its conditions are computed by index and an
index past the end of a series is a failure.
-/
namespace StrategyTree

variable {α : Type} [Arith α] {m : PriceMatrix α}

namespace Sources

/-- Sources that remember, where signals are made in any way. -/
def keeping (signal : List (Condition α) → Measured α Signal) (m : PriceMatrix α)
    (chains : Table (Node α)) (day : Nat) : Sources α :=
  { remembering m chains day with
    verdict := fun key conditions => do return onDay day (← kept (signal conditions) key) }

/-- Sources that remember, where signals are computed by index. -/
def indexing (outOfRange : Failure) (m : PriceMatrix α) (chains : Table (Node α)) (day : Nat) :
    Sources α :=
  { remembering m chains day with
    verdict := fun key conditions => do
      return onDay day (← kept (Condition.indexedListSignal outOfRange m conditions) key) }

end Sources

namespace Strategy

/-- The state after days that are evaluated one after the other, whatever comes of each. -/
def stateAfter (s : Strategy α) (m : PriceMatrix α) (days : List Nat) : RunState α :=
  days.foldl (fun state day => (s.evaluateDay m day state).2) .start

theorem stateAfter_concat (s : Strategy α) (m : PriceMatrix α) (days : List Nat) (day : Nat) :
    s.stateAfter m (days ++ [day]) = (s.evaluateDay m day (s.stateAfter m days)).2 := by
  simp [stateAfter]

namespace WellFormed

variable {s : Strategy α} (hs : s.WellFormed)
include hs

/-- An evaluation beside one that makes signals in another way, over a matrix that has the
same values on the day. -/
def alike {m' : PriceMatrix α} {f : Signal → Signal} {day : Nat}
    {other : List (Condition α) → Measured α Signal}
    (hsignal : ∀ {list signal}, Condition.directListSignal m list = .ok signal →
      Measured.Computes m' (other list) (.ok (f signal)))
    (hday : ∀ signal, Sources.onDay day (f signal) = Sources.onDay day signal)
    (hvalue : ∀ ticker i, (m'.indicator ticker i).at? day = (m.indicator ticker i).at? day) :
    Simulation (.remembering m s.chains day) (.keeping other m' s.chains day) s.chains :=
  hs.simulation (.alike m m' f)
    (fun {_ _ key list} hn hl => by
      obtain ⟨signal, h⟩ := Condition.directListSignal_ok m (hs.resolves hn hl)
      have hcomputes : Measured.Computes m (Condition.listSignal m list) (.ok signal) :=
        h ▸ Condition.listSignal_computes list
      exact RunState.Alike.coupled_verdict key hcomputes (hsignal h) hday)
    (fun {_ ticker i} => RunState.Alike.coupled_value (hvalue ticker i))
    (fun _ => RunState.Alike.coupled_candidates _ _)

def itself (m : PriceMatrix α) (day : Nat) :
    Simulation (.remembering m s.chains day) (.remembering m s.chains day) s.chains :=
  hs.alike (f := fun signal => signal) (fun h => h ▸ Condition.listSignal_computes _)
    (fun _ => rfl) fun _ _ => rfl

def indexed (hm : m.Aligned) (outOfRange : Failure) (day : Nat) :
    Simulation (.remembering m s.chains day) (.indexing outOfRange m s.chains day) s.chains :=
  hs.alike (f := fun signal => signal)
    (fun h => h ▸ Condition.indexedListSignal_computes hm outOfRange _) (fun _ => rfl) fun _ _ => rfl

/-- On every day an allocation is decided, and the cache stays faithful. -/
theorem evaluateDay_ok {state : RunState α} (h : state.cache.Faithful m) (day : Nat) :
    (∃ a, (s.evaluateDay m day state).1 = .ok a) ∧
      (s.evaluateDay m day state).2.cache.Faithful m := by
  have hmatch := (hs.itself m day).evaluateDay (.root s) day (RunState.alike_self h)
  refine ⟨?_, hmatch.states.cache⟩
  have hadmits := hmatch.admitted
  change Coupling.Admits _ _ (s.evaluateDay m day state).1 at hadmits
  cases hr : (s.evaluateDay m day state).1 with
  | ok a => exact ⟨a, rfl⟩
  | error e =>
      rw [hr] at hadmits
      exact hadmits.elim

/-- The cache of every state that is reached is faithful. -/
theorem faithful_stateAfter (m : PriceMatrix α) (days : List Nat) :
    (s.stateAfter m days).cache.Faithful m := by
  induction days using List.reverseRecOn with
  | nil => exact IndicatorCache.faithful_empty
  | append_singleton days day ih =>
      rw [stateAfter_concat]
      exact (hs.evaluateDay_ok ih day).2

end WellFormed

/-- Validation is sound for evaluation: whatever days were evaluated before, an accepted
strategy decides an allocation on every day, and computing its conditions by index decides
the same without looking past the end of a series. -/
theorem evaluateDay_succeeds {s : Strategy α} {anchors : Tickers} (hs : s.validate = .ok anchors)
    (hm : m.Aligned) (days : List Nat) (day : Nat) (outOfRange : Failure) :
    ∃ a, (s.evaluateDay m day (s.stateAfter m days)).1 = .ok a ∧
      (s.evaluateDayWith (.indexing outOfRange m s.chains day) day (s.stateAfter m days)).1 =
        .ok a := by
  have hs := wellFormed_of_validate hs
  have hfaithful := hs.faithful_stateAfter m days
  obtain ⟨⟨a, ha⟩, -⟩ := hs.evaluateDay_ok hfaithful day
  have hmatch := (hs.indexed hm outOfRange day).evaluateDay (.root s) day
    (RunState.alike_self hfaithful)
  exact ⟨a, ha, hmatch.same.trans ha⟩

end Strategy

/-! ### A sample -/

namespace Sample

/-- The sample takes no roots and no powers, so any will do. -/
abbrev Number := Exact Rat.toNNRat fun x _ => x

def above (ticker : String) (x : Number) : Condition Number :=
  ⟨.first, ⟨.currentPrice, 0, ticker⟩, .gt, .threshold x, none⟩

def hold (id ticker : String) : Node Number :=
  .position id [ticker]

def choose (yes no : Node Number) : Fork Number (Node Number) :=
  ⟨.equal, .equal, [some yes], [some no]⟩

/-- Half of the money follows the numbered node `n`, the other half an indicator node of any
name, which calls a chain where its condition fails. -/
def strategy (name : String) : Strategy Number where
  name := "sample"
  root := .basic "root" .equal
    [some (.numbered "n" [[above "SPY" 3]] .any (choose (hold "a" "SPY") (hold "b" cashTicker)) []),
      some (.indicator name [above "SPY" 100] (choose (hold "c" "QQQ") (.call "d" "bonds")))]
  chains := Table.empty.insert "bonds" (hold "e" "TLT")

def prices (x : Number) : TickerPrices Number :=
  ⟨[some x], [some x], [some x], [some x], [some x]⟩

def matrix : PriceMatrix Number where
  dates := [⟨2024, 1, 2⟩]
  prices := Table.ofList [("SPY", prices 5), ("QQQ", prices 1), ("TLT", prices 1)]
  limiting := none

theorem strategy_accepted : (strategy "m").validate =
    .ok (Table.ofList [("QQQ", ()), ("SPY", ()), ("TLT", ())]) := rfl

theorem matrix_aligned : matrix.Aligned := by
  intro ticker p h
  have hentries : matrix.prices.entries =
      [("QQQ", prices 1), ("SPY", prices 5), ("TLT", prices 1)] := rfl
  rw [Table.get?_eq_some_iff, hentries] at h
  have hp : ∃ x, p = prices x := by
    simp only [List.mem_cons, List.not_mem_nil, or_false, Prod.mk.injEq] at h
    rcases h with ⟨-, rfl⟩ | ⟨-, rfl⟩ | ⟨-, rfl⟩ <;> exact ⟨_, rfl⟩
  obtain ⟨x, rfl⟩ := hp
  exact ⟨rfl, rfl, rfl, rfl, rfl⟩

end Sample

theorem Strategy.sample_succeeds : ∃ a,
    ((Sample.strategy "m").evaluateDay Sample.matrix 0
      ((Sample.strategy "m").stateAfter Sample.matrix [0, 7])).1 = .ok a := by
  obtain ⟨a, ha, -⟩ := Strategy.evaluateDay_succeeds Sample.strategy_accepted
    Sample.matrix_aligned [0, 7] 0 .emptyAnchors
  exact ⟨a, ha⟩

end StrategyTree
