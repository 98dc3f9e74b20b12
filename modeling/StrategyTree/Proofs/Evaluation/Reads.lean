import StrategyTree.Proofs.Condition.Signal
import StrategyTree.Proofs.Evaluation.Memory
/-!
# What an evaluation reads

Two matrices on the same dates may agree on the prices of some tickers only. A
computation that asks for no other ticker finds the same in both, and leaves the
same cache behind, with series of these tickers only. So do the remembering sources
of an evaluation.
-/
namespace StrategyTree

variable {α β γ : Type} {P : String → Prop}

/-- Matrices on the same dates, with the same prices of the tickers that have a property. -/
structure PriceMatrix.Agree (P : String → Prop) (m m' : PriceMatrix α) : Prop where
  dates : m'.dates = m.dates
  prices {ticker : String} : P ticker → m'.prices.get? ticker = m.prices.get? ticker

variable {m m' : PriceMatrix α}

theorem PriceMatrix.Agree.length_eq (h : Agree P m m') : m'.length = m.length :=
  congrArg List.length h.dates

theorem PriceMatrix.Agree.refl (m : PriceMatrix α) : Agree P m m :=
  ⟨rfl, fun _ => rfl⟩

/-- Only series of tickers with a property are kept. -/
def IndicatorCache.Within (P : String → Prop) (c : IndicatorCache α) : Prop :=
  ∀ e ∈ c.entries, P e.1.1

namespace Measured

/-- Two computations that find the same and keep series of tickers with a property only. -/
def Agree (P : String → Prop) (x y : Measured α β) : Prop :=
  ∀ c : IndicatorCache α, c.Within P → y c = x c ∧ (x c).2.Within P

theorem Agree.result (b : β) : Agree P (pure b : Measured α β) (pure b) :=
  fun _ hc => ⟨rfl, hc⟩

theorem Agree.ofExcept (r : Except Failure β) : Agree P (liftM r : Measured α β) (liftM r) :=
  fun _ hc => ⟨rfl, hc⟩

theorem Agree.bind {x y : Measured α β} {f g : β → Measured α γ} (hx : Agree P x y)
    (hf : ∀ b, Agree P (f b) (g b)) : Agree P (x >>= f) (y >>= g) := by
  intro c hc
  obtain ⟨hr, hc'⟩ := hx c hc
  change ExceptT.bindCont g (y c).1 (y c).2 = ExceptT.bindCont f (x c).1 (x c).2 ∧
    (ExceptT.bindCont f (x c).1 (x c).2).2.Within P
  rw [hr]
  cases (x c).1 with
  | ok b => exact hf b _ hc'
  | error e => exact ⟨rfl, hc'⟩

theorem Agree.map {x y : Measured α β} (h : Agree P x y) (f : β → γ) :
    Agree P (f <$> x) (f <$> y) := by
  rw [map_eq_pure_bind, map_eq_pure_bind]
  exact h.bind fun b => .result (f b)

end Measured

open Measured

theorem Condition.joinFrom_agree {f g : Condition α → Measured α Signal} (before : Signal)
    {cs : List (Condition α)} (hcs : ∀ c ∈ cs, Agree P (f c) (g c)) :
    Agree P (joinFrom f before cs) (joinFrom g before cs) := by
  induction cs generalizing before with
  | nil => exact .result before
  | cons c rest ih =>
      refine (hcs c List.mem_cons_self).bind fun s => ?_
      exact ih _ fun d hd => hcs d (List.mem_cons_of_mem _ hd)

variable [Arith α]

theorem PriceMatrix.Agree.indicator_eq (h : Agree P m m') {ticker : String} (ht : P ticker)
    (i : Indicator) : m'.indicator ticker i = m.indicator ticker i := by
  rw [indicator, indicator, h.prices ht, h.length_eq]

namespace IndicatorCache

theorem Within.series {c : IndicatorCache α} (h : c.Within P) (m : PriceMatrix α) {ticker : String}
    (ht : P ticker) (i : Indicator) : (c.series m ticker i).2.Within P := by
  unfold IndicatorCache.series
  split
  · exact h
  · exact List.forall_mem_cons.2 ⟨ht, h⟩

theorem series_eq (h : m.Agree P m') {ticker : String} (ht : P ticker) (i : Indicator)
    (c : IndicatorCache α) : c.series m' ticker i = c.series m ticker i := by
  rw [IndicatorCache.series, IndicatorCache.series, h.indicator_eq ht]

end IndicatorCache

section
variable (h : m.Agree P m')
include h

theorem Reading.series_agree {r : Reading} (hr : P r.ticker) :
    Agree P (r.series m) (r.series m') := by
  refine (Agree.ofExcept r.indicator).bind fun i c hc => ?_
  constructor
  · change (let p := c.series m' r.ticker i; (Except.ok p.1, p.2)) =
      (let p := c.series m r.ticker i; (Except.ok p.1, p.2))
    rw [IndicatorCache.series_eq h hr]
  · exact hc.series m hr i

namespace Condition

theorem signal_agree {c : Condition α} (hc : ∀ t ∈ c.tickers, P t) :
    Agree P (c.signal m) (c.signal m') := by
  rw [signal_eq_sides, signal_eq_sides, h.length_eq]
  refine Agree.map (Agree.bind ?left fun left => Agree.bind ?right fun right => .result _) _
  case left =>
    apply Reading.series_agree h
    apply hc
    unfold tickers
    split <;> simp
  case right =>
    cases hright : c.right with
    | threshold x => exact .result _
    | reading r => exact Reading.series_agree h (hc _ (by simp [tickers, hright]))

theorem listSignal_agree {cs : List (Condition α)} (hcs : ∀ c ∈ cs, ∀ t ∈ c.tickers, P t) :
    Agree P (listSignal m cs) (listSignal m' cs) := by
  have hsignals : ∀ c ∈ cs, Agree P (c.signal m) (c.signal m') := fun c hc =>
    signal_agree h (hcs c hc)
  rw [listSignal_eq_foldSignals, listSignal_eq_foldSignals, h.length_eq]
  cases cs with
  | nil => exact .result _
  | cons c rest =>
      obtain ⟨hc, hrest⟩ := List.forall_mem_cons.1 hsignals
      exact hc.bind fun s => joinFrom_agree _ hrest

end Condition
end

/-- One state of two runs that keep series of tickers with a property, and candidates with it. -/
structure RunState.Agree (P : String → Prop) (s t : RunState α) : Prop where
  same : t = s
  cache : s.cache.Within P
  candidates {id : String} {tickers : List String} : s.candidates.get? id = some tickers →
    ∀ t ∈ tickers, P t

omit [Arith α] in
theorem RunState.agree_start : RunState.Agree P (.start : RunState α) .start :=
  ⟨rfl, fun _ he => absurd he List.not_mem_nil, fun h => by cases h⟩

/-- Runs that stay in one state, whatever failures they raise. -/
def Coupling.agree (P : String → Prop) : Coupling α where
  states := RunState.Agree P
  tolerates _ := True
  holds_eq h := congrArg RunState.holds h.same
  withHolds h holds := ⟨by rw [h.same], h.cache, h.candidates⟩
  withPath h path := ⟨by rw [h.same], h.cache, h.candidates⟩

namespace RunState.Agree

open Sources

variable {path : List String} {day : Nat}

omit [Arith α] in
theorem coupled_measured {x y : Measured α β} (h : Measured.Agree P x y) :
    Run.Coupled (.agree P) path (fun _ => True) (Run.measured x) (Run.measured y) := by
  intro s t hst hs ht
  obtain rfl := hst.same
  obtain ⟨heq, hcache⟩ := h t.cache hst.cache
  have hsame : Run.measured y t = Run.measured x t := by simp only [Run.measured, heq]
  refine ⟨by rw [hsame], ?_, ⟨by rw [hsame], hcache, hst.candidates⟩, hs, by rw [hsame]; exact ht⟩
  cases h : (Run.measured x t).1 <;> trivial

omit [Arith α] in
theorem coupled_verdict (key : String) {x y : Measured α Signal} (h : Measured.Agree P x y) :
    Run.Coupled (.agree P) path (fun _ => True) (do return onDay day (← kept x key))
      (do return onDay day (← kept y key)) := by
  have hkept : Run.Coupled (.agree P) path (fun _ => True) (kept x key) (kept y key) := by
    refine .look fun s t hst hs ht => ?_
    obtain rfl := hst.same
    cases t.signals.get? key with
    | some signal => exact ⟨rfl, trivial, hst, hs, ht⟩
    | none =>
        refine Run.Coupled.bind (coupled_measured h) (fun signal _ => ?_) t t hst hs ht
        intro s t hst hs ht
        obtain rfl := hst.same
        exact ⟨rfl, trivial, ⟨rfl, hst.cache, hst.candidates⟩, hs, ht⟩
  exact hkept.bind fun _ _ => .result trivial

theorem coupled_value (h : m.Agree P m') {ticker : String} (ht : P ticker) (i : Indicator) :
    Run.Coupled (.agree P) path (fun _ => True)
      (Run.measured (ExceptT.lift fun c => c.value m ticker i day))
      (Run.measured (ExceptT.lift fun c => c.value m' ticker i day)) := by
  apply coupled_measured
  intro c hc
  constructor
  · change (Except.ok (c.value m' ticker i day).1, (c.value m' ticker i day).2) =
      (Except.ok (c.value m ticker i day).1, (c.value m ticker i day).2)
    rw [IndicatorCache.value, IndicatorCache.value, IndicatorCache.series_eq h ht]
  · exact hc.series m ht i

omit [Arith α] in
theorem coupled_candidates {chains : Table (Node α)} {n : Node α}
    (h : ∀ t ∈ (n.positionTickers chains).keys, P t) :
    Run.Coupled (.agree P) path (fun tickers => ∀ t ∈ tickers, P t)
      (rememberedCandidates chains n) (rememberedCandidates chains n) := by
  refine .look fun s t hst hs ht => ?_
  obtain rfl := hst.same
  cases hfound : t.candidates.get? n.id with
  | some tickers => exact ⟨rfl, hst.candidates hfound, hst, hs, ht⟩
  | none =>
      refine ⟨rfl, h, ⟨rfl, hst.cache, fun {id tickers} hid => ?_⟩, hs, ht⟩
      change (t.candidates.insert _ _).get? id = some tickers at hid
      rw [Table.get?_insert] at hid
      split at hid
      · obtain rfl := Option.some.inj hid
        exact h
      · exact hst.candidates hid

end RunState.Agree
end StrategyTree
