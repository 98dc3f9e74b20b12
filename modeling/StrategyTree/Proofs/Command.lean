import StrategyTree.Command.Basic
import StrategyTree.Proofs.Prices
import StrategyTree.Proofs.Settings
/-!
# Dry runs

A dry run reads the settings and the strategy as a run does, and refuses what the run
refuses. What is left to a run is to read prices and to write a report, so a run that
fails after a dry run that did not has an exit code that says so.
-/
namespace StrategyTree

open Outcome

/-- Settings that pass the check can be read, and name a folder. -/
theorem Settings.read_of_validate {s : Settings} (h : s.validate = .ok ()) :
    (∃ config, s.backtestConfig = .ok config) ∧ ∃ folder, s.dataFolder = .ok folder := by
  obtain ⟨⟨named, hnamed⟩, -, -, -, -, hfolder⟩ := validate_ok.1 h
  obtain ⟨path, hpath, hblank⟩ := checkFolder_ok.1 hfolder
  have hconfig : s.backtestConfig = .ok _ := bind_ok.2 ⟨_, mode_of_checkedMode hnamed, rfl⟩
  exact ⟨⟨_, hconfig⟩, _, dataFolder_ok.2 ⟨path, hpath, hblank, rfl⟩⟩

namespace Command

theorem reads_load (config : String) : (Settings.load (m := StateM Session) config).Reads := by
  refine (Task.reads_text _ _).bind fun text => ?_
  split
  · exact (Task.answers_pure _).reads
  · exact (Task.answers_ofExcept _).reads

theorem reads_strategy (tree : String) : (Strategy.load (m := StateM Session) tree).Reads :=
  (Task.reads_text _ _).bind fun _ => (Task.answers_ofExcept _).reads

/-- The settings in a file, if they pass the check. -/
def checkedSettings (config : String) (disk : Disk) : Except Failure Settings := do
  let settings ← (Settings.load (m := StateM Session) config).onDisk disk
  settings.validate
  return settings

/-- The strategy in a file. -/
def readStrategy (tree : String) (disk : Disk) : Except Failure (Strategy Binary64) :=
  (Strategy.load (m := StateM Session) tree).onDisk disk

theorem answers_settings (config : String) :
    (loadSettings (m := StateM Session) config).Answers (checkedSettings config) :=
  (Task.answers_note _).bind fun _ => Task.Answers.bind (reads_load config) fun settings =>
    (Task.answers_ofExcept settings.validate).bind fun _ => Task.answers_pure settings

theorem answers_dryRun (config tree : String) :
    (dryRun (m := StateM Session) config tree).Answers fun disk => do
      let _ ← checkedSettings config disk
      let _ ← Pipeline.anchors (← readStrategy tree disk)
      return () := by
  have htold (strategy : Strategy Binary64) (anchors : Tickers) : (do
      Host.note s!"\nStrategy: {strategy.name}"
      Host.note s!"Chains:   {strategy.chains.keys.length}"
      Host.note s!"Anchors:  {Pipeline.listed anchors}"
      Host.note "\nDry run complete: configuration is valid" :
        Task (StateM Session) Unit).Answers fun _ => .ok () :=
    (Task.answers_note _).bind fun _ => (Task.answers_note _).bind fun _ =>
      (Task.answers_note _).bind fun _ => Task.answers_note _
  have hanchors (strategy : Strategy Binary64) :=
    (Task.answers_ofExcept (Pipeline.anchors strategy)).bind (htold strategy)
  exact (answers_settings config).bind fun _ => (Task.answers_note _).bind fun _ =>
    Task.Answers.bind (reads_strategy tree) hanchors

variable {config tree : String} {settings : Settings} {strategy : Strategy Binary64}
  {s : Session}

/-! ### Runs -/

theorem write_failsWith (path name : String) (r : BacktestResult Binary64)
    (figures : Metrics Binary64) :
    (Report.write (m := StateM Session) path name r figures).FailsWith [1] := by
  have htable (path : String) (rows : List (List String)) :
      (Report.writeTable (m := StateM Session) path rows).FailsWith [1] :=
    Task.failsWith_orFail _ (Task.failsWith_lift _) fun _ => List.mem_cons_self
  have hfolder : (Report.makeFolder (m := StateM Session) path).FailsWith [1] := by
    unfold Report.makeFolder
    split
    · exact Task.failsWith_orFail _ (Task.failsWith_lift _) fun _ => List.mem_cons_self
    · exact Task.failsWith_pure ()
  exact hfolder.bind fun _ => (htable _ _).bind fun _ => htable _ _

/-- What a run does with its result. -/
def conclude (settings : Settings) (output : Option String) (name : String) (mode : BacktestMode)
    (p : BacktestResult Binary64 × Metrics Binary64) : Task (StateM Session) Unit := do
  (summary name mode p.1 p.2).forM Host.note
  report settings output name p.1 p.2

/-- What a run does with its strategy. -/
def continueRun (settings : Settings) (folder : String) (output : Option String)
    (run : BacktestConfig Binary64) (strategy : Strategy Binary64) :
    Task (StateM Session) Unit := do
  let tickers := (strategy.validate.toOption.getD .empty).keys
  let source ← ExceptT.lift (PriceFolder.source ⟨folder⟩ tickers)
  Task.ofExcept (Pipeline.run strategy source run) >>=
    conclude settings output strategy.name run.mode

theorem conclude_failsWith (settings : Settings) (output : Option String) (name : String)
    (mode : BacktestMode) (p : BacktestResult Binary64 × Metrics Binary64) :
    (conclude settings output name mode p).FailsWith [1] := by
  refine (Task.answers_notes _).failsWith (fun _ => failsWith_ok ()) |>.bind fun _ => ?_
  unfold report
  split
  · exact Task.failsWith_pure ()
  · exact (write_failsWith _ _ _ _).bind fun _ => Task.failsWith_lift _

/-- With its settings at hand, a run comes to its strategy. -/
theorem runBacktest_of_settings (hsettings : checkedSettings config s.disk = .ok settings)
    (output : Option String) (mode : Option BacktestMode) :
    ∃ (t : Session) (folder : String) (run : BacktestConfig Binary64), t.disk = s.disk ∧
      runBacktest (m := StateM Session) config tree output mode s =
        (Strategy.load tree >>= continueRun settings folder output run) t := by
  -- Settings that have passed the check cannot fail where the run reads them.
  obtain ⟨loaded, -, hchecked⟩ := bind_ok.1 hsettings
  obtain ⟨hvalidate, hsame⟩ := then_ok.1 hchecked
  obtain rfl : loaded = settings := Except.ok.inj hsame
  obtain ⟨⟨base, hbase⟩, folder, hfolder⟩ := Settings.read_of_validate hvalidate
  obtain ⟨t₁, h₁, hrun₁⟩ := (answers_settings config).goes_on hsettings
  obtain ⟨t₂, h₂, hrun₂⟩ := (Task.answers_ofExcept loaded.backtestConfig).goes_on (s := t₁) hbase
  obtain ⟨t₃, h₃, hrun₃⟩ :=
    (Task.answers_note s!"Loading strategy tree from {tree}").goes_on (s := t₂) rfl
  refine ⟨t₃, folder, { base with mode := mode.getD base.mode }, h₃.trans (h₂.trans h₁), ?_⟩
  unfold runBacktest
  rw [hrun₁, hrun₂, hrun₃, hfolder]
  rfl

/-- With its settings and its strategy at hand, a run comes to the pipeline. -/
theorem runBacktest_of_loaded
    (hsettings : checkedSettings config s.disk = .ok settings)
    (hstrategy : readStrategy tree s.disk = .ok strategy)
    (output : Option String) (mode : Option BacktestMode) :
    ∃ (t : Session) (source : PriceSource Binary64) (run : BacktestConfig Binary64),
      t.disk = s.disk ∧ source.Sound ∧ runBacktest (m := StateM Session) config tree output mode s =
        (Task.ofExcept (Pipeline.run strategy source run) >>=
          conclude settings output strategy.name run.mode) t := by
  obtain ⟨t, folder, run, ht, hrun⟩ := runBacktest_of_settings hsettings output mode
  obtain ⟨u, hu, hgoes⟩ := Task.Answers.goes_on (reads_strategy tree) (s := t) (ht ▸ hstrategy)
  let tickers := (strategy.validate.toOption.getD .empty).keys
  let fetched := PriceFolder.source (m := StateM Session) ⟨folder⟩ tickers u
  obtain ⟨hdisk, hsound⟩ := PriceFolder.source_sound ⟨folder⟩ tickers u
  exact ⟨fetched.2, fetched.1, run, hdisk.trans (hu.trans ht), hsound, hrun.trans (hgoes _)⟩

/-- What a dry run refuses, the run refuses before it changes anything. -/
theorem runBacktest_of_refused {e : Failure}
    (h : (dryRun (m := StateM Session) config tree).onDisk s.disk = .error e)
    (output : Option String) (mode : Option BacktestMode) :
    ∃ t : Session, t.disk = s.disk ∧
      runBacktest (m := StateM Session) config tree output mode s = (.error e, t) := by
  rw [(answers_dryRun config tree).onDisk] at h
  rcases bind_error.1 h with hsettings | ⟨settings, hsettings, h⟩
  · obtain ⟨t, ht, hstops⟩ := (answers_settings config).stops hsettings
    exact ⟨t, ht, hstops _⟩
  rcases bind_error.1 h with hstrategy | ⟨strategy, hstrategy, h⟩
  · obtain ⟨t, folder, run, ht, hrun⟩ := runBacktest_of_settings hsettings output mode
    obtain ⟨u, hu, hstops⟩ := Task.Answers.stops (reads_strategy tree) (s := t) (ht ▸ hstrategy)
    exact ⟨u, hu.trans ht, hrun.trans (hstops _)⟩
  rcases bind_error.1 h with hanchors | ⟨anchors, -, h⟩
  · obtain ⟨t, source, run, ht, -, hrun⟩ := runBacktest_of_loaded hsettings hstrategy output mode
    rw [hrun, Pipeline.run_of_anchors_error hanchors]
    exact ⟨t, ht, rfl⟩
  · cases h

/-- What is left to a run after a dry run has succeeded is to read prices and to write a
report. -/
theorem runBacktest_of_accepted
    (h : (dryRun (m := StateM Session) config tree).onDisk s.disk = .ok ())
    (output : Option String) (mode : Option BacktestMode) :
    FailsWith [1, 3, 5] (runBacktest (m := StateM Session) config tree output mode s).1 := by
  rw [(answers_dryRun config tree).onDisk] at h
  obtain ⟨settings, hsettings, h⟩ := bind_ok.1 h
  obtain ⟨strategy, hstrategy, h⟩ := bind_ok.1 h
  obtain ⟨anchors, hanchors, -⟩ := bind_ok.1 h
  obtain ⟨t, source, run, -, hsource, hrun⟩ := runBacktest_of_loaded hsettings hstrategy output mode
  have hpipeline : FailsWith [1, 3, 5] (Pipeline.run strategy source run) :=
    (Pipeline.run_of_anchors_ok hanchors hsource run).mono (by simp)
  rw [hrun]
  refine Task.FailsWith.bind (Task.failsWith_ofExcept hpipeline) (fun p => ?_) t
  exact fun u => (conclude_failsWith settings output strategy.name run.mode p u).mono (by simp)

/-! ### Endings -/

/-- How a command ends: what it comes to, its exit code, and the disk that it leaves. -/
structure Ending where
  outcome : Except Failure Unit
  code : Nat
  disk : Disk

def ending (c : Command) (s : Session) : Ending where
  outcome := (c.task (m := StateM Session) s).1
  code := (c.run (m := StateM Session) s).1
  disk := (c.run (m := StateM Session) s).2.disk

variable {c : Command} {t : Session}

theorem ending_of_ok (h : c.task (m := StateM Session) s = (.ok (), t)) :
    c.ending s = ⟨.ok (), 0, t.disk⟩ := by
  have hrun : c.run (m := StateM Session) s = (0, t) := by
    simp only [run, bind, StateT.bind, ExceptT.run, h]
    rfl
  rw [ending, h, hrun]

theorem ending_of_error {e : Failure} (h : c.task (m := StateM Session) s = (.error e, t)) :
    c.ending s = ⟨.error e, e.exitCode, t.disk⟩ := by
  have hrun : c.run (m := StateM Session) s =
      (e.exitCode, { t with notes := t.notes ++ [s!"error: {e.message}"] }) := by
    simp only [run, bind, StateT.bind, ExceptT.run, h]
    rfl
  rw [ending, h, hrun]

/-- A dry run agrees with the run on the same disk, whatever was printed before. It changes
nothing. If it fails, the run fails in the same way and changes nothing either. If it succeeds,
the run succeeds or fails for its report, its data source or missing data. -/
theorem dryRun_agrees (config tree : String) (output : Option String) (mode : Option BacktestMode)
    (disk : Disk) (answers answers' notes notes' : List String) :
    let dry := (backtest config tree output mode true).ending ⟨disk, answers, notes⟩
    let run := (backtest config tree output mode false).ending ⟨disk, answers', notes'⟩
    dry.disk = disk ∧
    (∀ e, dry.outcome = .error e →
      run.outcome = .error e ∧ run.code = dry.code ∧ run.disk = disk) ∧
    (dry.outcome = .ok () → (run.outcome = .ok () ∧ run.code = 0) ∨
      ∃ e, run.outcome = .error e ∧ run.code = e.exitCode ∧ run.code ∈ [1, 3, 5]) := by
  intro dry run
  obtain ⟨s, hdry, hs⟩ := (answers_dryRun config tree).reads ⟨disk, answers, notes⟩
  change _ = (((dryRun config tree).onDisk disk, s)) at hdry
  cases hanswer : (dryRun (m := StateM Session) config tree).onDisk disk with
  | error e =>
      rw [hanswer] at hdry
      obtain ⟨t, ht, hrun⟩ :=
        runBacktest_of_refused (s := ⟨disk, answers', notes'⟩) hanswer output mode
      have hdryEnding : dry = ⟨.error e, e.exitCode, s.disk⟩ := ending_of_error hdry
      have hrunEnding : run = ⟨.error e, e.exitCode, t.disk⟩ := ending_of_error hrun
      rw [hdryEnding, hrunEnding]
      refine ⟨hs, fun e' he => ?_, (fun h => by cases h)⟩
      obtain rfl : e = e' := Except.error.inj he
      exact ⟨rfl, rfl, ht⟩
  | ok _ =>
      rw [hanswer] at hdry
      have hfails := runBacktest_of_accepted (s := ⟨disk, answers', notes'⟩) hanswer output mode
      have hdryEnding : dry = ⟨.ok (), 0, s.disk⟩ := ending_of_ok hdry
      rw [hdryEnding]
      refine ⟨hs, (fun _ h => by cases h), fun _ => ?_⟩
      cases hrun : runBacktest (m := StateM Session) config tree output mode
          ⟨disk, answers', notes'⟩ with
      | mk r t =>
          rw [hrun] at hfails
          cases r with
          | ok _ =>
              have hrunEnding : run = ⟨.ok (), 0, t.disk⟩ := ending_of_ok hrun
              exact .inl (hrunEnding ▸ ⟨rfl, rfl⟩)
          | error e =>
              have hrunEnding : run = ⟨.error e, e.exitCode, t.disk⟩ := ending_of_error hrun
              exact .inr ⟨e, hrunEnding ▸ ⟨rfl, rfl, hfails e rfl⟩⟩

/-- A disk with settings and a strategy, and without prices. -/
def unpriced : Disk :=
  ⟨.folder [("prices", .folder []), ("run.ini", .file "[data]\npath = prices\n".toUTF8),
    ("tree.json", .file
      ("\x7b\"name\":\"m\",\"root\":\x7b\"id\":\"a\"," ++
        "\"kind\":\"position\",\"tickers\":[\"SPY\"]\x7d\x7d").toUTF8)],
    []⟩

/-- A dry run sees no prices, but it sees that there is no strategy. -/
theorem unpriced_agrees :
    let dry (tree : String) := (backtest "run.ini" tree none none true).ending (.start unpriced)
    let run (tree : String) := (backtest "run.ini" tree none none false).ending (.start unpriced)
    (dry "tree.json").outcome = .ok () ∧
    (∃ e, (run "tree.json").outcome = .error e ∧ e.exitCode = 5) ∧
    (dry "none.json").outcome = .error (.io FileFault.notFound.message) ∧
    (run "none.json").outcome = .error (.io FileFault.notFound.message) := by
  intro dry run
  have hpriced := dryRun_agrees "run.ini" "tree.json" none none unpriced [] [] [] []
  have hmissing := dryRun_agrees "run.ini" "none.json" none none unpriced [] [] [] []
  have hok : (dry "tree.json").outcome = .ok () := by decide +kernel
  have hcode : (run "tree.json").code = 5 := by decide +kernel
  have hfault : (dry "none.json").outcome = .error (.io FileFault.notFound.message) := by
    decide +kernel
  refine ⟨hok, ?_, hfault, (hmissing.2.1 _ hfault).1⟩
  rcases hpriced.2.2 hok with ⟨-, hzero⟩ | ⟨e, he, hrun, -⟩
  · exact absurd (hcode.symm.trans hzero) (by decide)
  · exact ⟨e, he, hrun.symm.trans hcode⟩

end Command
end StrategyTree
