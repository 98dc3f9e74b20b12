import StrategyTree.Proofs.Pipeline
import StrategyTree.Proofs.Prices.Fetch
/-!
# Price folders as sources

Whatever is in a price folder, reading it leaves it as it is, and the failures of its
price source are those of a data source. The source answers as fetching from the folder
does, so a run does not get past a file in which a date of its period comes twice.
-/
namespace StrategyTree

open Outcome

namespace PriceFolder

variable (f : PriceFolder)

theorem answer_failsWith (ticker : String) (d : Disk) : FailsWith [3] (f.answer ticker d) := by
  intro e he
  obtain ⟨reason, rfl⟩ := (answer_error.1 he).dataSource
  exact List.mem_cons_self

/-- The source that answers from what has been read of some tickers. -/
def shelfSource (shelf : List (String × Except Failure (List (Bar Binary64)))) :
    PriceSource Binary64 := fun ticker first last =>
  match shelf.lookup ticker with
  | some r => r.map (Bar.clip first last)
  | none => .ok []

/-- A source that has read the files of its tickers answers for each as fetching does, and has no
bars of other tickers. -/
theorem source_eq (tickers : List String) (s : Session) :
    ∃ t : Session, f.source (m := StateM Session) tickers s =
      (fun ticker first last =>
        if ticker ∈ tickers then Bar.clip first last <$> f.answer ticker s.disk else .ok [], t) ∧
      t.disk = s.disk := by
  let read (ticker : String) : StateM Session (String × Except Failure (List (Bar Binary64))) :=
    return (ticker, ← (f.bars ticker).run)
  have hread (ticker : String) (s : Session) :
      ∃ t : Session, read ticker s = ((ticker, f.answer ticker s.disk), t) ∧ t.disk = s.disk := by
    obtain ⟨t, hbars, ht⟩ := f.answers_bars ticker s
    refine ⟨t, ?_, ht⟩
    simp only [read, bind, StateT.bind, ExceptT.run, hbars]
    rfl
  obtain ⟨t, hshelf, ht⟩ := Task.mapM_answers
    (q := fun ticker d => (ticker, f.answer ticker d)) hread tickers s
  have hsource : f.source (m := StateM Session) tickers s =
      (shelfSource (tickers.mapM read s).1, (tickers.mapM read s).2) := rfl
  refine ⟨t, ?_, ht⟩
  rw [hsource, hshelf]
  refine Prod.ext ?_ rfl
  funext ticker first last
  simp only [shelfSource, Table.lookup_map_keys]
  by_cases hticker : ticker ∈ tickers
  · simp only [if_pos hticker]
    rfl
  · simp only [if_neg hticker]

theorem source_sound (tickers : List String) (s : Session) :
    (f.source (m := StateM Session) tickers s).2.disk = s.disk ∧
      (f.source (m := StateM Session) tickers s).1.Sound := by
  obtain ⟨t, hsource, ht⟩ := f.source_eq tickers s
  rw [hsource]
  refine ⟨ht, fun ticker first last => ?_⟩
  dsimp only
  split
  · exact (f.answer_failsWith ticker s.disk).map
  · exact failsWith_ok []

/-- A run on the prices of a folder fails if the file of an anchor has a date twice within the
period of the run. -/
theorem run_of_repeats {strategy : Strategy Binary64} {tickers : Tickers} {ticker : String}
    (hvalid : strategy.validate = .ok tickers) (hticker : ticker ∈ tickers.keys)
    (config : BacktestConfig Binary64) (s : Session) {rows : List (Bar Binary64)}
    (hrows : f.Holds ticker s.disk rows) {d : Date}
    (hd : Bar.Repeats rows config.startDate config.endDate d) :
    ∃ e, Pipeline.run strategy (f.source (m := StateM Session) tickers.keys s).1 config =
      .error e := by
  obtain ⟨t, hsource, -⟩ := f.source_eq tickers.keys s
  have hends := Pipeline.run_ends strategy (f.source (m := StateM Session) tickers.keys s).1 config
  cases hrun : Pipeline.run strategy (f.source (m := StateM Session) tickers.keys s).1 config with
  | error e => exact ⟨e, rfl⟩
  | ok p =>
      rw [hrun, hsource] at hends
      cases hends with
      | @scored tickers' series result hgathered hordered _ =>
          obtain rfl : tickers = tickers' := Except.ok.inj (hvalid.symm.trans hgathered.valid)
          obtain ⟨bars, hbars⟩ : ∃ bars, series.get? ticker = some bars := by
            rw [← Table.mem_keys_iff, hgathered.keys_eq]
            exact hticker
          -- What the matrix got of the ticker is the clipped file, in which a date comes twice.
          have hanswer := (hgathered.answered hbars).1
          simp only [if_pos hticker] at hanswer
          have hdisordered := (hrows.sortedClip hanswer).disordered_of_repeats hd
          exact absurd hdisordered (hordered ticker bars hbars)

end PriceFolder
end StrategyTree
