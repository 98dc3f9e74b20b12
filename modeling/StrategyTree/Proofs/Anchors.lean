import StrategyTree.Pipeline
import StrategyTree.Proofs.Evaluation.Reads
import StrategyTree.Proofs.Evaluation.Safety
import StrategyTree.Proofs.Holdings
import StrategyTree.Proofs.PriceMatrix
import StrategyTree.Proofs.Strategy.Collection
/-!
# Anchors cover a run

An evaluation only meets nodes that the root reaches, so every ticker that it asks
for or holds is an anchor. Nothing else of a matrix has a part in a backtest, and in
a matrix that is aligned on the anchors every price of such a ticker is defined.
-/
namespace StrategyTree

variable {α : Type} [Arith α]

omit [Arith α] in
theorem Node.mem_readTickers {n : Node α} {list : List (Condition α)}
    (h : list ∈ n.conditionLists) {c : Condition α} (hc : c ∈ list) {t : String}
    (ht : t ∈ c.tickers) : t ∈ n.readTickers :=
  mem_readTickers_iff.2 (.inl ⟨list, h, c, hc, ht⟩)

namespace Strategy

def IsAnchor (s : Strategy α) (ticker : String) : Prop :=
  ticker ∈ s.anchorTickers.keys

variable {s : Strategy α} {m m' : PriceMatrix α}

/-- Evaluations over two matrices that agree on the anchors. -/
def anchored (h : m.Agree s.IsAnchor m') (day : Nat) :
    Simulation (.remembering m s.chains day) (.remembering m' s.chains day) s.chains where
  toCoupling := .agree s.IsAnchor
  covers _ n := s.root.Reaches s.chains n
  reads := s.IsAnchor
  good _ a := a.Within s.IsAnchor
  child hn hc := hn.tail (.child hc)
  enter hn hroot _ := hn.tail (.call hroot)
  fault _ _ := trivial
  verdict {_ _ key _} hn hl := by
    apply RunState.Agree.coupled_verdict key
    apply Condition.listSignal_agree h
    intro c hc t ht
    apply anchor_of_own hn
    simp [Node.ownTickers, Node.mem_readTickers (Node.mem_conditionLists hl) hc ht]
  value ht := RunState.Agree.coupled_value h ht _
  candidates hn := RunState.Agree.coupled_candidates fun t ht => anchor_of_candidate hn ht
  reading hn := anchor_of_own hn (by simp [Node.ownTickers, Node.readTickers])
  held hn ha := by
    refine Allocation.within_ofPosition (fun t ht hcash _ => anchor_of_own hn ?_) ha
    simp [Node.ownTickers, Node.heldTickers, ht, hcash]
  asked _ _ hc ha _ := Weighting.within_spread hc ha
  settled {_ _ w _ _ _} sigma hn hw hc ha := by
    refine Weighting.within_adjust (Weighting.within_spread hc ha) (fun t ht => ?_) sigma
    apply anchor_of_own hn
    have hmem : t ∈ List.filterMap Weighting.fallback? _ := List.mem_filterMap.2 ⟨w, hw, ht⟩
    exact List.mem_append_right _ hmem
  mixed _ hfirst hsecond h := Allocation.within_blend (forall_mem_forkParts hfirst hsecond) h
  narrowed _ ha := ha
  empty := Allocation.within_empty

theorem evaluateDay_agree (h : m.Agree s.IsAnchor m') (day : Nat) {state state' : RunState α}
    (hstate : RunState.Agree s.IsAnchor state state') :
    Run.Matches (.agree s.IsAnchor) [] (Allocation.Within s.IsAnchor) (s.evaluateDay m day state)
      (s.evaluateDay m' day state') :=
  (anchored h day).evaluateDay .refl day hstate

theorem evaluateDays_agree (h : m.Agree s.IsAnchor m') (days : List Nat) :
    Run.Coupled (.agree s.IsAnchor) [] (fun ws => ∀ a ∈ ws, a.Within s.IsAnchor)
      (s.evaluateDays m days) (s.evaluateDays m' days) := by
  induction days with
  | nil => exact .result (by simp)
  | cons day rest ih =>
      have hday : Run.Coupled (.agree s.IsAnchor) [] (Allocation.Within s.IsAnchor)
          (s.evaluateDay m day) (s.evaluateDay m' day) :=
        fun _ _ hstate _ _ => evaluateDay_agree h day hstate
      refine hday.bind fun a ha => ih.bind fun ws hws => .result ?_
      exact List.forall_mem_cons.2 ⟨ha, hws⟩

/-- Whatever days were evaluated, no series was asked for but those of anchors. -/
theorem agree_stateAfter (s : Strategy α) (m : PriceMatrix α) (days : List Nat) :
    RunState.Agree s.IsAnchor (s.stateAfter m days) (s.stateAfter m days) := by
  induction days using List.reverseRecOn with
  | nil => exact RunState.agree_start
  | append_singleton days day ih =>
      rw [stateAfter_concat]
      exact (evaluateDay_agree (.refl m) day ih).states

/-- A ticker whose series was asked for on some days, or that an allocation holds after them. -/
inductive Uses (s : Strategy α) (m : PriceMatrix α) (ticker : String) : Prop where
  | read {days : List Nat} {i : Indicator} {xs : Series α} :
      ((ticker, i), xs) ∈ (s.stateAfter m days).cache.entries → Uses s m ticker
  | held {days : List Nat} {day : Nat} {a : Allocation α} :
      (s.evaluateDay m day (s.stateAfter m days)).1 = .ok a → ticker ∈ a.keys → Uses s m ticker

theorem Uses.anchor {ticker : String} (h : s.Uses m ticker) : s.IsAnchor ticker := by
  cases h with
  | @read days i xs hmem => exact (agree_stateAfter s m days).cache _ hmem
  | @held days day a ha hmem =>
      have hgood := (evaluateDay_agree (.refl m) day (agree_stateAfter s m days)).admitted
      rw [ha] at hgood
      exact hgood ticker hmem

end Strategy

namespace Backtest

variable {P : String → Prop} {m m' : PriceMatrix α} {ws : List (Allocation α)}

theorem portfolioReturn_agree (h : m.Agree P m') (mode : BacktestMode) {a : Allocation α}
    (ha : a.Within P) (day : Nat) :
    portfolioReturn m' mode a day = portfolioReturn m mode a day := by
  unfold portfolioReturn
  refine congrArg Arith.sum (List.map_congr_left fun e he => ?_)
  rw [h.prices (ha e.1 (List.mem_map_of_mem he))]

theorem postDecisions_agree (h : m.Agree P m') (config : BacktestConfig α)
    (hws : ∀ a ∈ ws, a.Within P) (day : Nat) (before : Allocation α) (growth : List α) :
    postDecisions m' config day before ws growth = postDecisions m config day before ws growth := by
  induction ws generalizing day before growth with
  | nil => rfl
  | cons a rest ih =>
      obtain ⟨ha, hrest⟩ := List.forall_mem_cons.1 hws
      simp only [postDecisions, portfolioReturn_agree h _ ha, ih hrest]

theorem simulate_agree (h : m.Agree P m') (hws : ∀ a ∈ ws, a.Within P)
    (config : BacktestConfig α) : simulate m' ws config = simulate m ws config := by
  unfold simulate
  rw [h.dates, h.length_eq, postDecisions_agree h config hws]

/-- Nothing but the anchors of a matrix has a part in a backtest. -/
theorem run_agree {s : Strategy α} (h : m.Agree s.IsAnchor m') (config : BacktestConfig α) :
    run s m' config = run s m config := by
  have hdays := Strategy.evaluateDays_agree h (List.range m.length) .start .start
    RunState.agree_start rfl rfl
  unfold run
  rw [PriceMatrix.isEmpty, PriceMatrix.isEmpty, h.dates, h.length_eq, hdays.same]
  cases hws : (s.evaluateDays m (List.range m.length) .start).1 with
  | error e => rfl
  | ok ws =>
      have hwithin := hdays.admitted
      rw [hws] at hwithin
      have hequity := simulate_agree h hwithin config
      cases s.validate with
      | error e => rfl
      | ok anchors =>
          change (if m.dates.isEmpty then _ else Except.ok (BacktestResult.mk _ _ ws _)) = _
          rw [hequity]
          rfl

end Backtest

/-- Every price of a ticker is defined on every date of a matrix. -/
def PriceMatrix.Complete (m : PriceMatrix α) (ticker : String) : Prop :=
  ∃ p, m.prices.get? ticker = some p ∧
    ∀ field, ∀ day < m.length, ∃ x, (p.series field).at? day = some x

omit [Arith α] in
/-- The prices of the anchors that a matrix is aligned on are defined on all its dates. -/
theorem PriceMatrix.Aligns.complete {series : Table (List (Bar α))} {anchors : List String}
    {m : PriceMatrix α} (h : Aligns series anchors m) (hm : m.isEmpty = false) {ticker : String}
    (ht : ticker ∈ anchors) : m.Complete ticker := by
  have hbar {day : Nat} (hday : day < m.length) : ∃ bars, series.get? ticker = some bars ∧
      ∃ b ∈ bars, m.dates[day]? = some b.date := by
    obtain ⟨-, hall⟩ := h.common.1 (List.getElem_mem hday)
    obtain ⟨bars, hbars, b, hb, hdate⟩ := hall ticker ht
    exact ⟨bars, hbars, b, hb, by rw [hdate, List.getElem?_eq_getElem hday]⟩
  have hlength : 0 < m.length := List.length_pos_of_ne_nil (by simpa [isEmpty] using hm)
  obtain ⟨bars, hbars, -⟩ := hbar hlength
  obtain ⟨p, hp⟩ := Option.isSome_iff_exists.1 ((h.get?_isSome ticker).2 (by simp [hbars]))
  refine ⟨p, hp, fun field day hday => ?_⟩
  obtain ⟨bars, hbars, b, hb, hdate⟩ := hbar hday
  exact ⟨b.price field, by rw [Series.at?, h.present hbars hp hb hdate field]; rfl⟩

omit [Arith α] in
theorem Pipeline.align_aligns {source : PriceSource α} {config : BacktestConfig α}
    {tickers : Tickers} {m : PriceMatrix α} (h : align source config tickers = .ok m) :
    (∃ series, PriceMatrix.Aligns series tickers.keys m) ∧ m.isEmpty = false := by
  obtain ⟨series, -, h⟩ := Outcome.bind_ok.1 h
  obtain ⟨m', hbuild, h⟩ := Outcome.bind_ok.1 h
  have hordered : PriceMatrix.Ordered (Table.ofList series) := by
    by_contra hnot
    obtain ⟨ticker, date, herror⟩ := PriceMatrix.build_of_not_ordered hnot
    rw [herror] at hbuild
    cases hbuild
  obtain ⟨aligned, haligned, haligns⟩ := PriceMatrix.build_of_ordered hordered tickers.keys
  obtain rfl : m' = aligned := Except.ok.inj (hbuild.symm.trans haligned)
  split at h
  · cases h
  · next hempty =>
      obtain rfl : m' = m := Except.ok.inj h
      exact ⟨⟨_, haligns⟩, by simpa using hempty⟩

namespace Strategy

theorem anchors_of_pipeline {s : Strategy α} {tickers : Tickers}
    (h : Pipeline.anchors s = .ok tickers) : tickers = s.anchorTickers := by
  obtain ⟨anchors, hvalid, h⟩ := Outcome.bind_ok.1 h
  split at h
  · cases h
  · obtain rfl : anchors = tickers := Except.ok.inj h
    exact anchors_of_validate hvalid

/-- The anchors cover a run: every ticker that is asked for or held is one of them, so a
backtest of two matrices on the same dates that agree on the anchors is the same, and in the
matrix of a pipeline every price of such a ticker is defined on every date. -/
theorem anchors_cover (s : Strategy α) :
    (∀ m ticker, s.Uses m ticker → ticker ∈ s.anchorTickers.keys) ∧
    (∀ m m' : PriceMatrix α, m'.dates = m.dates →
      (∀ ticker ∈ s.anchorTickers.keys, m'.prices.get? ticker = m.prices.get? ticker) →
        ∀ config, Backtest.run s m' config = Backtest.run s m config) ∧
    ∀ (source : PriceSource α) config tickers m, Pipeline.anchors s = .ok tickers →
      Pipeline.align source config tickers = .ok m →
        ∀ ticker, s.Uses m ticker → m.Complete ticker := by
  refine ⟨fun m ticker h => h.anchor, fun m m' hdates hprices config => ?_, ?_⟩
  · exact Backtest.run_agree ⟨hdates, fun {ticker} ht => hprices ticker ht⟩ config
  · intro source config tickers m hanchors halign ticker h
    obtain ⟨⟨series, haligns⟩, hm⟩ := Pipeline.align_aligns halign
    rw [anchors_of_pipeline hanchors] at haligns
    exact haligns.complete hm h.anchor

end Strategy

namespace Sample

def source : PriceSource Number := fun ticker _ _ =>
  let x : Number := if ticker = "SPY" then 5 else 1
  .ok [⟨⟨2024, 1, 2⟩, x, x, x, x, x⟩]

/-- The sample matrix as a pipeline aligns it. -/
def fetched : PriceMatrix Number :=
  { matrix with limiting := some "QQQ" }

/-- The sample matrix with a ticker that the sample strategy does not name. -/
def extended : PriceMatrix Number :=
  { matrix with prices := matrix.prices.insert "GLD" (prices 7) }

def anchors : Tickers :=
  Table.ofList [("QQQ", ()), ("SPY", ()), ("TLT", ())]

theorem anchors_accepted : Pipeline.anchors (strategy "m") = .ok anchors := rfl

theorem anchors_fetched : Pipeline.align source .standard anchors = .ok fetched := rfl

theorem extended_prices : ∀ ticker ∈ (strategy "m").anchorTickers.keys,
    extended.prices.get? ticker = matrix.prices.get? ticker := by
  decide +kernel

theorem holds_bonds : (strategy "m").Uses fetched "TLT" := by
  have hdecision : ((strategy "m").evaluateDay fetched 0 ((strategy "m").stateAfter fetched [])).1 =
      .ok (Table.ofList [("SPY", ⟨1 / 2⟩), ("TLT", ⟨1 / 2⟩)]) := by decide +kernel
  exact .held hdecision (by decide)

end Sample

theorem Strategy.sample_covered :
    "TLT" ∈ (Sample.strategy "m").anchorTickers.keys ∧
    Backtest.run (Sample.strategy "m") Sample.extended .standard =
      Backtest.run (Sample.strategy "m") Sample.matrix .standard ∧
    Sample.fetched.Complete "TLT" := by
  obtain ⟨hanchor, hsame, hcomplete⟩ := Strategy.anchors_cover (Sample.strategy "m")
  refine ⟨hanchor _ _ Sample.holds_bonds, ?_, ?_⟩
  · exact hsame Sample.matrix Sample.extended rfl Sample.extended_prices .standard
  · exact hcomplete _ _ _ _ Sample.anchors_accepted Sample.anchors_fetched _ Sample.holds_bonds

end StrategyTree
