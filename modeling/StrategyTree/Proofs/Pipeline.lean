import StrategyTree.Pipeline
import StrategyTree.Proofs.Backtest
import StrategyTree.Proofs.PriceMatrix
/-!
# Ends of the pipeline

A strategy with anchors is never at fault for the failure of a run: the source, the
order of the bars or the lack of bars is. The causes are looked for one after the
other, so a run ends with the first of them, or with a result if there is none.
-/
namespace StrategyTree

open Outcome

variable {α : Type} [Arith α]

/-- A backtest of a strategy that passes validation has a result, with a decision and a point
of equity for each date. -/
theorem Backtest.run_succeeds {s : Strategy α} {anchors : Tickers}
    (hvalid : s.validate = .ok anchors) (m : PriceMatrix α) (config : BacktestConfig α) :
    ∃ result, run s m config = .ok result ∧ result.dates = m.dates ∧
      result.weights.length = m.dates.length ∧ result.equity.map Prod.fst = m.dates := by
  have hs := Strategy.wellFormed_of_validate hvalid
  have hstart : (RunState.start : RunState α).cache.Faithful m := IndicatorCache.faithful_empty
  obtain ⟨weights, hweights⟩ := hs.evaluateDays_ok hstart (List.range m.length)
  have hlength : weights.length = m.dates.length := by
    rw [Strategy.length_evaluateDays hweights, List.length_range, PriceMatrix.length]
  exact ⟨_, run_ok m config hvalid hweights, rfl, hlength, map_fst_simulate m weights config⟩

omit [Arith α] in
theorem PriceMatrix.build_failsWith (series : Table (List (Bar α))) (anchors : List String) :
    FailsWith [3] (build series anchors) := by
  by_cases hordered : Ordered series
  · obtain ⟨m, hm, -⟩ := build_of_ordered hordered anchors
    exact hm ▸ failsWith_ok m
  · obtain ⟨ticker, date, h⟩ := build_of_not_ordered hordered
    exact h anchors ▸ failsWith_error (by simp [Failure.exitCode])

/-- A source whose failures are those of a data source. -/
def PriceSource.Sound (source : PriceSource α) : Prop :=
  ∀ ticker first last, FailsWith [3] (source ticker first last)

namespace Pipeline

omit [Arith α] in
theorem fetchAll_failsWith {source : PriceSource α} (h : source.Sound) (first last : Option Date)
    (tickers : List String) : FailsWith [3, 5] (fetchAll source first last tickers) := by
  induction tickers with
  | nil => exact failsWith_ok []
  | cons ticker rest ih =>
      refine ((h ticker first last).mono (by simp)).bind fun bars _ => ?_
      split
      · exact failsWith_error (by simp [Failure.exitCode])
      · exact ih.bind fun _ _ => failsWith_ok _

omit [Arith α] in
theorem align_failsWith {source : PriceSource α} (h : source.Sound) (config : BacktestConfig α)
    (tickers : Tickers) : FailsWith [3, 5] (align source config tickers) := by
  refine (fetchAll_failsWith h _ _ _).bind fun series _ => ?_
  refine ((PriceMatrix.build_failsWith _ _).mono (by simp)).bind fun m _ => ?_
  split
  · exact failsWith_error (by simp [Failure.exitCode])
  · exact failsWith_ok m

theorem run_of_anchors_error {s : Strategy α} {e : Failure} (h : anchors s = .error e)
    (source : PriceSource α) (config : BacktestConfig α) : run s source config = .error e := by
  rw [run, h]
  rfl

theorem run_of_anchors_ok {s : Strategy α} {tickers : Tickers} (h : anchors s = .ok tickers)
    {source : PriceSource α} (hsource : source.Sound) (config : BacktestConfig α) :
    FailsWith [3, 5] (run s source config) := by
  obtain ⟨tickers', hvalid, -⟩ := bind_ok.1 h
  refine FailsWith.bind (h ▸ failsWith_ok tickers) fun _ _ => ?_
  refine (align_failsWith hsource config _).bind fun m _ => ?_
  obtain ⟨result, hresult, -⟩ := Backtest.run_succeeds hvalid m config
  exact hresult ▸ failsWith_ok _

/-! ### The order of causes -/

/-- A source has these bars of a ticker, and some. -/
def Answers (source : PriceSource α) (config : BacktestConfig α) (ticker : String)
    (bars : List (Bar α)) : Prop :=
  source ticker config.startDate config.endDate = .ok bars ∧ bars ≠ []

/-- The bars that a source has of the anchors of an accepted strategy, of each of them some. -/
structure Gathered (s : Strategy α) (source : PriceSource α) (config : BacktestConfig α)
    (tickers : Tickers) (series : Table (List (Bar α))) : Prop where
  valid : s.validate = .ok tickers
  anchored : tickers.keys ≠ []
  keys_eq : series.keys = tickers.keys
  answered {ticker : String} {bars : List (Bar α)} :
    series.get? ticker = some bars → Answers source config ticker bars

/-- A result on the dates that the anchors have in common, in order and not none, with a
decision and a point of equity for each. -/
structure Complete (series : Table (List (Bar α))) (anchors : List String)
    (result : BacktestResult α) : Prop where
  nonempty : result.dates ≠ []
  increasing : result.dates.Pairwise (· < ·)
  common {d : Date} : d ∈ result.dates ↔ PriceMatrix.IsCommonDate series anchors d
  decisions : result.weights.length = result.dates.length
  points : result.equity.map Prod.fst = result.dates

/-- How a run ends. Each end holds only where none before it does, so they are listed in the
order of their precedence. Of several tickers with bars out of order any may be named. -/
inductive Ends (s : Strategy α) (source : PriceSource α) (config : BacktestConfig α) :
    Except Failure (BacktestResult α × Metrics α) → Prop
  | refused {e : Failure} : s.validate = .error e → Ends s source config (.error e)
  | unanchored {tickers : Tickers} : s.validate = .ok tickers → tickers.keys = [] →
      Ends s source config (.error .emptyAnchors)
  | unfetched {tickers : Tickers} {before after : List String} {ticker : String} {e : Failure} :
      s.validate = .ok tickers → tickers.keys = before ++ ticker :: after →
      (∀ t ∈ before, ∃ bars, Answers source config t bars) →
      source ticker config.startDate config.endDate = .error e →
      Ends s source config (.error e)
  | withoutBars {tickers : Tickers} {before after : List String} {ticker : String} :
      s.validate = .ok tickers → tickers.keys = before ++ ticker :: after →
      (∀ t ∈ before, ∃ bars, Answers source config t bars) →
      source ticker config.startDate config.endDate = .ok [] →
      Ends s source config (.error (.noData ticker))
  | unordered {tickers : Tickers} {series : Table (List (Bar α))} {ticker : String}
      {bars : List (Bar α)} {d : Date} : Gathered s source config tickers series →
      series.get? ticker = some bars → Bar.DisorderedAt bars d →
      Ends s source config (.error (.unorderedBars ticker d.display))
  | apart {tickers : Tickers} {series : Table (List (Bar α))} :
      Gathered s source config tickers series → PriceMatrix.Ordered series →
      (∀ d, ¬PriceMatrix.IsCommonDate series tickers.keys d) →
      Ends s source config (.error (.noData (", ".intercalate tickers.keys)))
  | scored {tickers : Tickers} {series : Table (List (Bar α))} {result : BacktestResult α} :
      Gathered s source config tickers series → PriceMatrix.Ordered series →
      Complete series tickers.keys result →
      Ends s source config (.ok (result, .ofResult result config.riskFreeRate))

section Fetched
omit [Arith α]
variable {source : PriceSource α} {config : BacktestConfig α}

theorem fetchAll_ok {tickers : List String} {series : List (String × List (Bar α))}
    (h : fetchAll source config.startDate config.endDate tickers = .ok series) :
    series.map Prod.fst = tickers ∧ ∀ e ∈ series, Answers source config e.1 e.2 := by
  induction tickers generalizing series with
  | nil =>
      obtain rfl : [] = series := Except.ok.inj h
      simp
  | cons ticker rest ih =>
      obtain ⟨bars, hbars, h⟩ := bind_ok.1 h
      split at h
      · cases h
      · next hne =>
          obtain ⟨others, hothers, h⟩ := bind_ok.1 h
          obtain rfl := Except.ok.inj h
          obtain ⟨hkeys, hanswers⟩ := ih hothers
          refine ⟨by rw [List.map_cons, hkeys], List.forall_mem_cons.2 ⟨⟨hbars, ?_⟩, hanswers⟩⟩
          simpa using hne

/-- Fetching stops at the first ticker that the source refuses or has no bars of. -/
theorem fetchAll_error {tickers : List String} {e : Failure}
    (h : fetchAll source config.startDate config.endDate tickers = .error e) :
    ∃ before ticker after, tickers = before ++ ticker :: after ∧
      (∀ t ∈ before, ∃ bars, Answers source config t bars) ∧
      (source ticker config.startDate config.endDate = .error e ∨
        source ticker config.startDate config.endDate = .ok [] ∧ e = .noData ticker) := by
  induction tickers with
  | nil => cases h
  | cons ticker rest ih =>
      rcases bind_error.1 h with hsource | ⟨bars, hbars, h⟩
      · exact ⟨[], ticker, rest, rfl, by simp, .inl hsource⟩
      split at h
      · next hempty =>
          obtain rfl := List.isEmpty_iff.1 hempty
          exact ⟨[], ticker, rest, rfl, by simp, .inr ⟨hbars, (Except.error.inj h).symm⟩⟩
      · next hne =>
          rcases bind_error.1 h with hrest | ⟨_, _, h⟩
          · obtain ⟨before, t, after, rfl, hbefore, hcause⟩ := ih hrest
            have hanswers : Answers source config ticker bars := ⟨hbars, by simpa using hne⟩
            exact ⟨ticker :: before, t, after, rfl,
              List.forall_mem_cons.2 ⟨⟨bars, hanswers⟩, hbefore⟩, hcause⟩
          · cases h

end Fetched

/-- The fetched bars make a table of the same tickers. -/
theorem gathered_of_fetchAll {s : Strategy α} {source : PriceSource α} {config : BacktestConfig α}
    {tickers : Tickers} (hvalid : s.validate = .ok tickers) (hanchored : tickers.keys ≠ [])
    {series : List (String × List (Bar α))}
    (h : fetchAll source config.startDate config.endDate tickers.keys = .ok series) :
    Gathered s source config tickers (.ofList series) := by
  obtain ⟨hkeys, hanswers⟩ := fetchAll_ok h
  have hascending : series.Pairwise fun a b => a.1 < b.1 := by
    rw [← List.pairwise_map, hkeys, Table.keys, List.pairwise_map]
    exact tickers.ascending
  have htable : Table.ofList series = ⟨series, hascending⟩ :=
    Table.ofList_entries ⟨series, hascending⟩
  rw [htable]
  exact ⟨hvalid, hanchored, hkeys, fun hget => hanswers _ (Table.get?_eq_some_iff.1 hget)⟩

section Stages
variable {s : Strategy α} {source : PriceSource α} {config : BacktestConfig α} {tickers : Tickers}

theorem anchors_eq_of_validate (hvalid : s.validate = .ok tickers) :
    anchors s = if tickers.keys.isEmpty then .error .emptyAnchors else .ok tickers := by
  rw [anchors, hvalid]
  rfl

omit [Arith α] in
theorem align_of_fetchAll {series : List (String × List (Bar α))}
    (hfetch : fetchAll source config.startDate config.endDate tickers.keys = .ok series)
    {m : PriceMatrix α} (hm : PriceMatrix.build (.ofList series) tickers.keys = .ok m) :
    align source config tickers =
      if m.isEmpty then .error (.noData (listed tickers)) else .ok m := by
  rw [align, hfetch]
  simp only [bind, Except.bind, hm]
  rfl

theorem run_of_align_error (hanchors : anchors s = .ok tickers) {e : Failure}
    (halign : align source config tickers = .error e) : run s source config = .error e := by
  rw [run, hanchors]
  simp only [bind, Except.bind, halign]

theorem run_of_align_ok (hanchors : anchors s = .ok tickers) {m : PriceMatrix α}
    (halign : align source config tickers = .ok m) {result : BacktestResult α}
    (hresult : Backtest.run s m config = .ok result) :
    run s source config = .ok (result, .ofResult result config.riskFreeRate) := by
  rw [run, hanchors]
  simp only [bind, Except.bind, halign, hresult]
  rfl

/-- How a run ends for which there are bars of all anchors. -/
theorem ends_of_fetchAll (hvalid : s.validate = .ok tickers) (hanchored : tickers.keys ≠ [])
    {series : List (String × List (Bar α))}
    (hfetch : fetchAll source config.startDate config.endDate tickers.keys = .ok series) :
    Ends s source config (run s source config) := by
  have hgathered := gathered_of_fetchAll hvalid hanchored hfetch
  have hanchors : anchors s = .ok tickers := by
    rw [anchors_eq_of_validate hvalid, if_neg (by simpa using hanchored)]
  by_cases hordered : PriceMatrix.Ordered (.ofList series)
  · obtain ⟨m, hm, haligns⟩ := PriceMatrix.build_of_ordered hordered tickers.keys
    have halign := align_of_fetchAll hfetch hm
    by_cases hdates : m.dates = []
    · have hapart : ∀ d, ¬PriceMatrix.IsCommonDate (.ofList series) tickers.keys d := by
        intro d hd
        have hmem := haligns.common.2 hd
        rw [hdates] at hmem
        cases hmem
      have hempty : m.isEmpty = true := List.isEmpty_iff.2 hdates
      rw [if_pos hempty] at halign
      rw [run_of_align_error hanchors halign]
      exact .apart hgathered hordered hapart
    · obtain ⟨result, hresult, hresultDates, hdecisions, hpoints⟩ :=
        Backtest.run_succeeds hvalid m config
      rw [← hresultDates] at hdates hdecisions hpoints
      have hcomplete : Complete (.ofList series) tickers.keys result :=
        ⟨hdates, hresultDates ▸ haligns.increasing, hresultDates ▸ haligns.common, hdecisions,
          hpoints⟩
      have hsome : ¬m.isEmpty = true := mt List.isEmpty_iff.1 (hresultDates ▸ hdates)
      rw [if_neg hsome] at halign
      rw [run_of_align_ok hanchors halign hresult]
      exact .scored hgathered hordered hcomplete
  · obtain ⟨ticker, bars, d, hbars, hd, hbuild⟩ := PriceMatrix.build_of_disordered hordered
    have halign : align source config tickers = .error (.unorderedBars ticker d.display) := by
      rw [align, hfetch]
      simp only [bind, Except.bind, hbuild]
    rw [run_of_align_error hanchors halign]
    exact .unordered hgathered hbars hd

end Stages

/-- Every run ends in one of these ways: with the first of the causes in their order, and
without any of them with a result. -/
theorem run_ends (s : Strategy α) (source : PriceSource α) (config : BacktestConfig α) :
    Ends s source config (run s source config) := by
  cases hvalid : s.validate with
  | error e =>
      have hanchors : anchors s = .error e := by
        rw [anchors, hvalid]
        rfl
      rw [run_of_anchors_error hanchors]
      exact .refused hvalid
  | ok tickers =>
      have hanchors := anchors_eq_of_validate hvalid
      by_cases hkeys : tickers.keys = []
      · rw [if_pos (List.isEmpty_iff.2 hkeys)] at hanchors
        rw [run_of_anchors_error hanchors]
        exact .unanchored hvalid hkeys
      · rw [if_neg (mt List.isEmpty_iff.1 hkeys)] at hanchors
        cases hfetch : fetchAll source config.startDate config.endDate tickers.keys with
        | ok series => exact ends_of_fetchAll hvalid hkeys hfetch
        | error e =>
            have halign : align source config tickers = .error e := by
              rw [align, hfetch]
              rfl
            rw [run_of_align_error hanchors halign]
            obtain ⟨before, ticker, after, hsplit, hbefore, hcause⟩ := fetchAll_error hfetch
            rcases hcause with hsource | ⟨hsource, rfl⟩
            · exact .unfetched hvalid hsplit hbefore hsource
            · exact .withoutBars hvalid hsplit hbefore hsource

end Pipeline
end StrategyTree
