import Mathlib.Data.List.TakeWhile
import StrategyTree.Proofs.Binary64
import StrategyTree.Proofs.Outcome
import StrategyTree.Settings.Run
/-!
# Settings that are read twice

The check of settings and the run after it read the same text, each by itself. They have
defaults of their own, and a malformed date, which the check refuses, counts as absent in the
run. Still, settings pass the check exactly if the run reads what the check has read, and reads
it within the bounds of a backtest.
-/
namespace StrategyTree

open Outcome

/-! ### Blank texts -/

namespace Text

theorem mem_trimStart {cs : List Char} {c : Char} (hc : isBlank c = false) :
    c ∈ trimStart cs ↔ c ∈ cs := by
  induction cs with
  | nil => rfl
  | cons d rest ih =>
      cases hd : isBlank d with
      | false => rw [trimStart, List.dropWhile_cons_of_neg (by simp [hd])]
      | true =>
          have hne : c ≠ d := by
            rintro rfl
            cases hc.symm.trans hd
          rw [trimStart, List.dropWhile_cons_of_pos hd, List.mem_cons, or_iff_right hne]
          exact ih

theorem mem_trimChars {cs : List Char} {c : Char} (hc : isBlank c = false) :
    c ∈ trimChars cs ↔ c ∈ cs := by
  rw [trimChars, List.mem_reverse, mem_trimStart hc, List.mem_reverse, mem_trimStart hc]

theorem isBlankText_iff {s : String} : isBlankText s = true ↔ ∀ c ∈ s.toList, isBlank c = true :=
  List.all_eq_true

/-- A text without the blanks around it is blank only if it was. -/
theorem isBlankText_trim (s : String) : isBlankText (trim s) = isBlankText s := by
  have hmem (c : Char) (hc : isBlank c = false) : c ∈ (trim s).toList ↔ c ∈ s.toList := by
    rw [trim, String.toList_ofList, mem_trimChars hc]
  rw [Bool.eq_iff_iff, isBlankText_iff, isBlankText_iff]
  refine forall_congr' fun c => ?_
  cases hc : isBlank c with
  | true => simp
  | false => rw [hmem c hc]

theorem trim_of_isBlankText {s : String} (h : isBlankText s = true) : trim s = "" := by
  have hnil : trimStart s.toList = [] := List.dropWhile_eq_nil_iff.2 (isBlankText_iff.1 h)
  rw [trim, trimChars, hnil]
  rfl

end Text

/-! ### Bounds -/

/-- A backtest has finite costs, which are not negative, a finite and positive capital, a rate
from zero up to but not including one, and a first date before its last. -/
structure BacktestConfig.InBounds (c : BacktestConfig Binary64) : Prop where
  cost : Arith.isFinite c.costBps = true ∧ 0 ≤ c.costBps
  capital : Arith.isFinite c.initialCapital = true ∧ 0 < c.initialCapital
  rate : 0 ≤ c.riskFreeRate ∧ c.riskFreeRate < 1
  period : ∀ first ∈ c.startDate, ∀ last ∈ c.endDate, first < last

namespace Settings

variable {s : Settings}

theorem zero_not_isNaN : (0 : Binary64).value.isNaN = false := by
  decide

/-- A check that refuses what is not finite or has a fault. -/
theorem refuse_ok {x : Binary64} {fault fine : Prop} [Decidable fault] {e : Failure}
    (h : x.value.isNaN = false → (¬fault ↔ fine)) :
    (if !Arith.isFinite x || decide fault then .error e else .ok () : Except Failure Unit) = .ok () ↔
      Arith.isFinite x = true ∧ fine := by
  cases hfinite : Arith.isFinite x with
  | false => simp
  | true =>
      rw [← h (Binary64.isNaN_of_isFinite hfinite)]
      by_cases hfault : fault <;> simp [hfault]

theorem checkCost_ok :
    s.checkCost = .ok () ↔ Arith.isFinite s.costBps = true ∧ 0 ≤ s.costBps :=
  refuse_ok fun hcost => Binary64.not_lt_iff hcost zero_not_isNaN

theorem checkCapital_ok : s.checkCapital = .ok () ↔
    Arith.isFinite s.initialCapital = true ∧ 0 < s.initialCapital :=
  refuse_ok fun hcapital => Binary64.not_le_iff hcapital zero_not_isNaN

theorem checkRate_ok : s.checkRate = .ok () ↔ 0 ≤ s.riskFreeRate ∧ s.riskFreeRate < 1 := by
  change (if decide (0 ≤ s.riskFreeRate) && decide (s.riskFreeRate < 1) then .ok ()
    else .error _ : Except Failure Unit) = .ok () ↔ _
  by_cases hlow : 0 ≤ s.riskFreeRate <;> by_cases hhigh : s.riskFreeRate < 1 <;>
    simp [hlow, hhigh]

/-! ### Modes and folders -/

theorem mode_of_checkedMode {named : Option BacktestMode} (h : s.checkedMode = .ok named) :
    s.mode = .ok (named.getD .closeToClose) := by
  unfold checkedMode at h
  unfold mode
  cases htext : s.text? "backtest" "mode" with
  | none =>
      rw [htext] at h
      obtain rfl := Except.ok.inj h
      rfl
  | some text =>
      rw [htext] at h
      obtain ⟨mode, hmode, rfl⟩ := map_ok.1 h
      exact hmode

theorem checkFolder_ok : s.checkFolder = .ok () ↔
    ∃ path, s.text? "data" "path" = some path ∧ Text.isBlankText path = false := by
  unfold checkFolder
  cases s.text? "data" "path" with
  | none => simp
  | some path => cases hblank : Text.isBlankText path <;> simp [hblank]

theorem dataFolder_ok {folder : String} : s.dataFolder = .ok folder ↔
    ∃ path, s.text? "data" "path" = some path ∧ Text.isBlankText path = false ∧
      folder = Text.trim path := by
  unfold dataFolder
  cases s.text? "data" "path" with
  | none => simp
  | some path =>
      have hsame : Text.trim path = folder ↔ folder = Text.trim path := eq_comm
      cases hblank : Text.isBlankText path <;> simp [hblank, hsame]

/-! ### Dates -/

/-- The date of a key, as the check has seen it: there is one exactly if the text is not blank. -/
structure SeesDate (s : Settings) (key : String) (date : Option Date) : Prop where
  checked : s.checkedDate key = .ok date
  present_iff : date.isSome = true ↔
    ∃ text, s.text? "backtest" key = some text ∧ Text.isBlankText text = false

theorem ofText?_of_isBlankText {text : String} (h : Text.isBlankText text = true) :
    Date.ofText? (Text.trim text) = none := by
  rw [Text.trim_of_isBlankText h]
  rfl

/-- A date passes the check if it is missing or blank, or is one of the calendar. -/
theorem checkedDate_ok {key : String} {date : Option Date} (h : s.checkedDate key = .ok date) :
    (date = none ∧ ∀ text ∈ s.text? "backtest" key, Text.isBlankText text = true) ∨
    ∃ text d, s.text? "backtest" key = some text ∧ Text.isBlankText text = false ∧
      Date.ofText? (Text.trim text) = some d ∧ date = some d := by
  unfold checkedDate at h
  cases htext : s.text? "backtest" key with
  | none =>
      rw [htext] at h
      exact .inl ⟨(Except.ok.inj h).symm, by simp⟩
  | some text =>
      rw [htext] at h
      cases hblank : Text.isBlankText text with
      | true =>
          simp only [hblank, if_true, Except.ok.injEq] at h
          exact .inl ⟨h.symm, by simpa using hblank⟩
      | false =>
          simp only [hblank, Bool.false_eq_true, if_false] at h
          cases hdate : Date.ofText? (Text.trim text) with
          | none =>
              rw [hdate] at h
              cases h
          | some d =>
              rw [hdate] at h
              exact .inr ⟨text, d, rfl, hblank, hdate, (Except.ok.inj h).symm⟩

theorem seesDate_of_checkedDate {key : String} {date : Option Date}
    (h : s.checkedDate key = .ok date) : s.SeesDate key date := by
  refine ⟨h, ?_⟩
  obtain ⟨rfl, hblank⟩ | ⟨text, d, htext, hblank, -, rfl⟩ := checkedDate_ok h
  · refine iff_of_false (by simp) ?_
    rintro ⟨text, htext, hnot⟩
    cases hnot.symm.trans (hblank text htext)
  · exact iff_of_true rfl ⟨text, htext, hblank⟩

/-- The run reads the date that has passed the check. -/
theorem date?_of_checkedDate {key : String} {date : Option Date}
    (h : s.checkedDate key = .ok date) : s.date? "backtest" key = date := by
  unfold date?
  obtain ⟨rfl, hblank⟩ | ⟨text, d, htext, -, hdate, rfl⟩ := checkedDate_ok h
  · refine Option.bind_eq_none_iff.2 fun text htext => ?_
    exact ofText?_of_isBlankText (hblank text htext)
  · exact Option.bind_eq_some_iff.2 ⟨text, htext, hdate⟩

theorem checkDates_ok : s.checkDates = .ok () ↔ ∃ first last,
    s.checkedDate "start_date" = .ok first ∧ s.checkedDate "end_date" = .ok last ∧
    ∀ a ∈ first, ∀ b ∈ last, a < b := by
  unfold checkDates
  simp only [bind_ok, ← exists_and_left]
  refine exists_congr fun first => exists_congr fun last => ?_
  refine and_congr_right fun _ => and_congr_right fun _ => ?_
  cases first with
  | none => simp [pure, Except.pure]
  | some a =>
      cases last with
      | none => simp [pure, Except.pure]
      | some b => by_cases hlt : a < b <;> simp [hlt, pure, Except.pure, throw, throwThe]

/-! ### Agreement -/

theorem validate_ok : s.validate = .ok () ↔ (∃ named, s.checkedMode = .ok named) ∧
    s.checkCost = .ok () ∧ s.checkCapital = .ok () ∧ s.checkRate = .ok () ∧
    s.checkDates = .ok () ∧ s.checkFolder = .ok () := by
  unfold validate
  rw [bind_ok, then_ok, then_ok, then_ok, then_ok]
  simp only [exists_and_right]

/-- What a run reads of settings is what their check has seen. A mode is read for a mode that is
named, and close to close without one. -/
structure ReadsBack (s : Settings) (c : BacktestConfig Binary64) (folder : String) : Prop where
  mode : ∃ named, s.checkedMode = .ok named ∧ c.mode = named.getD .closeToClose
  startDate : s.SeesDate "start_date" c.startDate
  endDate : s.SeesDate "end_date" c.endDate
  folder : Text.isBlankText folder = false ∧
    ∃ path, s.text? "data" "path" = some path ∧ folder = Text.trim path

/-- Settings pass their check exactly if they can be read, within the bounds of a backtest, and
all is read as the check has seen it. -/
theorem validate_iff_readsBack (s : Settings) : s.validate = .ok () ↔
    ∃ c folder, s.backtestConfig = .ok c ∧ s.dataFolder = .ok folder ∧ c.InBounds ∧
      s.ReadsBack c folder := by
  rw [validate_ok, checkCost_ok, checkCapital_ok, checkRate_ok, checkDates_ok, checkFolder_ok]
  constructor
  · rintro ⟨⟨named, hmode⟩, hcost, hcapital, hrate, ⟨first, last, hfirst, hlast, hlt⟩,
      path, hpath, hblank⟩
    have hconfig : s.backtestConfig = .ok ⟨named.getD .closeToClose, s.costBps, s.initialCapital,
        s.riskFreeRate, first, last⟩ := by
      refine bind_ok.2 ⟨_, mode_of_checkedMode hmode, ?_⟩
      rw [date?_of_checkedDate hfirst, date?_of_checkedDate hlast]
      rfl
    have hfolder : Text.isBlankText (Text.trim path) = false :=
      (Text.isBlankText_trim path).trans hblank
    refine ⟨_, Text.trim path, hconfig, dataFolder_ok.2 ⟨path, hpath, hblank, rfl⟩,
      ⟨hcost, hcapital, hrate, hlt⟩, ?_⟩
    exact ⟨⟨named, hmode, rfl⟩, seesDate_of_checkedDate hfirst, seesDate_of_checkedDate hlast,
      hfolder, path, hpath, rfl⟩
  · rintro ⟨c, folder, hconfig, hfolder, hbounds, hback⟩
    obtain ⟨mode, -, hc⟩ := bind_ok.1 hconfig
    obtain rfl := Except.ok.inj hc
    obtain ⟨named, hnamed, -⟩ := hback.mode
    obtain ⟨path, hpath, hblank, -⟩ := dataFolder_ok.1 hfolder
    exact ⟨⟨named, hnamed⟩, hbounds.cost, hbounds.capital, hbounds.rate,
      ⟨_, _, hback.startDate.checked, hback.endDate.checked, hbounds.period⟩, path, hpath, hblank⟩

/-! ### A sample -/

/-- Settings with a malformed rate, which counts as absent, and a blank date. -/
def lenient : Settings :=
  .follow "backtest" ⟨.empty⟩
    [.entry "mode" (some "oc"), .entry "cost_bps" (some "-0"),
      .entry "risk_free_rate" (some "low"), .entry "start_date" (some "2024-01-02"),
      .entry "end_date" (some ""), .header "data", .entry "path" (some "prices")]

/-- They pass the check, so a run reads them as the check does. -/
theorem lenient_readsBack : lenient.validate = .ok () ∧
    ∃ c, lenient.backtestConfig = .ok c ∧ lenient.dataFolder = .ok "prices" ∧ c.InBounds ∧
      c.mode = .openToClose ∧ c.startDate = some ⟨2024, 1, 2⟩ ∧ c.endDate = none := by
  have hvalid : lenient.validate = .ok () := by decide +kernel
  have hfolder : lenient.dataFolder = .ok "prices" := by decide +kernel
  obtain ⟨c, folder, hconfig, -, hbounds, hback⟩ := (validate_iff_readsBack lenient).1 hvalid
  obtain ⟨named, hnamed, hmode⟩ := hback.mode
  have hseen : lenient.checkedMode = .ok (some .openToClose) := by decide +kernel
  have hfirst : lenient.checkedDate "start_date" = .ok (some ⟨2024, 1, 2⟩) := by decide +kernel
  have hlast : lenient.checkedDate "end_date" = .ok none := by decide +kernel
  obtain rfl := Except.ok.inj (hnamed.symm.trans hseen)
  exact ⟨hvalid, c, hconfig, hfolder, hbounds, hmode,
    Except.ok.inj (hback.startDate.checked.symm.trans hfirst),
    Except.ok.inj (hback.endDate.checked.symm.trans hlast)⟩

end Settings
end StrategyTree
