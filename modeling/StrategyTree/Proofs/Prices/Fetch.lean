import StrategyTree.Prices.Folder
import StrategyTree.Proofs.Host
import StrategyTree.Proofs.Prices.Clip
import StrategyTree.Proofs.Prices.Rows
/-!
# Fetching prices

What fetching comes to is decided by the file alone, before any bound counts: the file is
refused, or its rows are clipped and sorted. So a fault is told wherever it is in the file, and
rows of one date are never made into one. They are there when a matrix is to be built, which
then is refused.
-/
namespace StrategyTree

open Outcome

/-! ### Reading a file of a disk -/

theorem Disk.isPresent_of_readText {d : Disk} {path text : String}
    (h : d.readText path = .ok text) : d.isPresent path = true := by
  obtain ⟨t, ht, -⟩ := bind_ok.1 h
  rw [isPresent, ht]
  rfl

/-- The first and the last date of bars and how many there are, or nothing without bars. -/
inductive DataRange.Describes {α : Type} : List (Bar α) → Option DataRange → Prop
  | nothing : Describes [] none
  | range {bars : List (Bar α)} {first last : Bar α} : bars.head? = some first →
      bars.getLast? = some last → Describes bars (some ⟨first.date, last.date, bars.length⟩)

theorem DataRange.ofBars?_eq {α : Type} {bars : List (Bar α)} {r : Option DataRange} :
    ofBars? bars = r ↔ Describes bars r := by
  constructor
  · rintro rfl
    cases bars with
    | nil => exact .nothing
    | cons first rest => exact .range rfl (List.getLast?_eq_some_getLast (List.cons_ne_nil _ _))
  · intro h
    cases h with
    | nothing => rfl
    | range hfirst hlast => simp [ofBars?, hfirst, hlast]

namespace PriceFolder

variable {f : PriceFolder} {ticker : String} {first last : Option Date} {d : Disk} {s : Session}

/-- The rows that a folder holds of a ticker: those of its file, or none without a file. -/
inductive Holds (f : PriceFolder) (ticker : String) (d : Disk) : List (Bar Binary64) → Prop
  | absent : d.isPresent (f.fileOf ticker) = false → Holds f ticker d []
  | file {text : String} {rows : List (Bar Binary64)} :
      d.readText (f.fileOf ticker) = .ok text → PriceFile.Holds text rows → Holds f ticker d rows

/-- Why a folder gives no rows of a ticker: its file is no text, or the text is at fault. -/
inductive Refuses (f : PriceFolder) (ticker : String) (d : Disk) : Failure → Prop
  | unreadable {fault : FileFault} : d.isPresent (f.fileOf ticker) = true →
      d.readText (f.fileOf ticker) = .error fault →
      Refuses f ticker d (.dataSource s!"failed to read {f.fileOf ticker}: {fault.message}")
  | faulty {text : String} {e : Failure} : d.readText (f.fileOf ticker) = .ok text →
      PriceFile.Faults (f.fileOf ticker) text e → Refuses f ticker d e

/-- What reading the whole file of a ticker comes to. -/
def answer (f : PriceFolder) (ticker : String) (d : Disk) : Except Failure (List (Bar Binary64)) :=
  if d.isPresent (f.fileOf ticker) then do
    let text ← (d.readText (f.fileOf ticker)).mapError fun e =>
      .dataSource s!"failed to read {f.fileOf ticker}: {e.message}"
    PriceFile.bars (f.fileOf ticker) text
  else .ok []

theorem answers_bars (f : PriceFolder) (ticker : String) :
    (f.bars (m := StateM Session) ticker).Answers (f.answer ticker) := by
  intro s
  have hpresent : (Host.isPresent (f.fileOf ticker) : Task (StateM Session) Bool) s =
      (.ok (s.disk.isPresent (f.fileOf ticker)), s) := rfl
  rw [bars, run_bind_ok hpresent, answer]
  cases s.disk.isPresent (f.fileOf ticker) with
  | false => exact ⟨s, rfl, rfl⟩
  | true => exact (Task.answers_text _ _).bind (fun text => Task.answers_ofExcept _) s

theorem answer_ok {bars : List (Bar Binary64)} :
    f.answer ticker d = .ok bars ↔ ∃ rows, f.Holds ticker d rows ∧ PriceFile.sort rows = bars := by
  unfold answer
  constructor
  · intro h
    split at h
    · obtain ⟨text, htext, h⟩ := bind_ok.1 h
      obtain ⟨rows, hrows, hsort⟩ := PriceFile.bars_ok.1 h
      exact ⟨rows, .file (mapError_ok.1 htext) hrows, hsort⟩
    · next habsent =>
        obtain rfl := Except.ok.inj h
        exact ⟨[], .absent (by simpa using habsent), List.mergeSort_nil⟩
  · rintro ⟨rows, habsent | ⟨htext, hrows⟩, rfl⟩
    · rw [if_neg (by simp [habsent]), PriceFile.sort, List.mergeSort_nil]
    · rw [if_pos (Disk.isPresent_of_readText htext), htext]
      exact PriceFile.bars_ok.2 ⟨rows, hrows, rfl⟩

theorem answer_error {e : Failure} : f.answer ticker d = .error e ↔ f.Refuses ticker d e := by
  unfold answer
  constructor
  · intro h
    split at h
    · next hpresent =>
        rcases bind_error.1 h with h | ⟨text, htext, h⟩
        · obtain ⟨fault, hfault, rfl⟩ := Outcome.mapError_error.1 h
          exact .unreadable hpresent hfault
        · exact .faulty (mapError_ok.1 htext) (PriceFile.bars_error.1 h)
    · cases h
  · rintro (⟨hpresent, hfault⟩ | ⟨htext, hfaults⟩)
    · rw [if_pos hpresent, hfault]
      rfl
    · rw [if_pos (Disk.isPresent_of_readText htext), htext]
      exact PriceFile.bars_error.2 hfaults

theorem Refuses.dataSource {e : Failure} (h : f.Refuses ticker d e) :
    ∃ reason, e = .dataSource reason := by
  cases h with
  | unreadable => exact ⟨_, rfl⟩
  | faulty _ hfaults => exact hfaults.dataSource

/-! ### Fetching -/

theorem answers_fetch (f : PriceFolder) (ticker : String) (first last : Option Date) :
    (f.fetch (m := StateM Session) ticker first last).Answers fun d =>
      Bar.clip first last <$> f.answer ticker d :=
  (f.answers_bars ticker).map _

theorem answers_range (f : PriceFolder) (ticker : String) :
    (f.range (m := StateM Session) ticker).Answers fun d =>
      DataRange.ofBars? <$> f.answer ticker d :=
  (f.answers_bars ticker).map _

theorem fetch_eq (f : PriceFolder) (ticker : String) (first last : Option Date) (s : Session) :
    (f.fetch (m := StateM Session) ticker first last s).1 =
      Bar.clip first last <$> f.answer ticker s.disk := by
  obtain ⟨t, ht, -⟩ := f.answers_fetch ticker first last s
  exact congrArg Prod.fst ht

theorem range_eq (f : PriceFolder) (ticker : String) (s : Session) :
    (f.range (m := StateM Session) ticker s).1 =
      DataRange.ofBars? <$> f.answer ticker s.disk := by
  obtain ⟨t, ht, -⟩ := f.answers_range ticker s
  exact congrArg Prod.fst ht

/-- Without bounds, all that is in the file is fetched. -/
theorem fetch_unbounded (f : PriceFolder) (ticker : String) (s : Session) :
    (f.fetch (m := StateM Session) ticker none none s).1 = f.answer ticker s.disk := by
  rw [fetch_eq]
  cases f.answer ticker s.disk with
  | ok bars => exact congrArg Except.ok (Bar.clip_unbounded bars)
  | error e => rfl

theorem clip_answer_ok {bars : List (Bar Binary64)} :
    Bar.clip first last <$> f.answer ticker d = .ok bars ↔
      ∃ rows, f.Holds ticker d rows ∧ Bar.SortedClip rows first last bars := by
  rw [map_ok]
  constructor
  · rintro ⟨whole, hwhole, rfl⟩
    obtain ⟨rows, hrows, rfl⟩ := answer_ok.1 hwhole
    exact ⟨rows, hrows, Bar.sortedClip_sort rows first last⟩
  · rintro ⟨rows, hrows, hclip⟩
    exact ⟨_, answer_ok.2 ⟨rows, hrows, rfl⟩, (Bar.sortedClip_sort rows first last).unique hclip⟩

/-- A file has only one list of rows, so what is fetched of it is a clip of that list. -/
theorem Holds.sortedClip {rows bars : List (Bar Binary64)} (hrows : f.Holds ticker d rows)
    (h : Bar.clip first last <$> f.answer ticker d = .ok bars) :
    Bar.SortedClip rows first last bars := by
  obtain ⟨whole, hwhole, rfl⟩ := map_ok.1 h
  obtain rfl := Except.ok.inj ((answer_ok.2 ⟨rows, hrows, rfl⟩).symm.trans hwhole)
  exact Bar.sortedClip_sort rows first last

/-- Fetching fails exactly if the file is refused, whatever the bounds. Otherwise it gives the
rows between the bounds in the order of their dates, which is the whole file clipped. The range of
the data is that of the whole file. Of the bars that were fetched no matrix can be built exactly
if a date comes twice between the bounds. -/
theorem fetch_is_sorted_clip (f : PriceFolder) (ticker : String) (first last : Option Date)
    (s : Session) :
    let fetched (first last : Option Date) := (f.fetch (m := StateM Session) ticker first last s).1
    let range := (f.range (m := StateM Session) ticker s).1
    (∀ e, fetched first last = .error e ↔ f.Refuses ticker s.disk e) ∧
    (∀ bars, fetched first last = .ok bars ↔
      ∃ rows, f.Holds ticker s.disk rows ∧ Bar.SortedClip rows first last bars) ∧
    fetched first last = Bar.clip first last <$> fetched none none ∧
    (∀ e, range = .error e ↔ fetched none none = .error e) ∧
    (∀ r, range = .ok r ↔ ∃ bars, fetched none none = .ok bars ∧ DataRange.Describes bars r) ∧
    ∀ rows bars, f.Holds ticker s.disk rows → fetched first last = .ok bars →
      ((∃ d, Bar.Repeats rows first last d) ↔ ∀ series anchors, series.get? ticker = some bars →
        ∃ name date, PriceMatrix.build series anchors = .error (.unorderedBars name date)) := by
  intro fetched range
  have hfetched : fetched first last = Bar.clip first last <$> f.answer ticker s.disk :=
    f.fetch_eq ticker first last s
  have hwhole : fetched none none = f.answer ticker s.disk := f.fetch_unbounded ticker s
  have hrange : range = DataRange.ofBars? <$> f.answer ticker s.disk := f.range_eq ticker s
  rw [hfetched, hwhole, hrange]
  refine ⟨fun e => map_error.trans answer_error, fun bars => clip_answer_ok, rfl,
    fun e => map_error, fun r => ?_, fun rows bars hrows hbars => ?_⟩
  · rw [map_ok]
    exact exists_congr fun bars => and_congr_right fun _ => DataRange.ofBars?_eq
  · exact (PriceMatrix.refused_iff_repeats (hrows.sortedClip hbars) ticker).symm

/-! ### A sample -/

def sampleFault : String :=
  "date,open,close\n2030-01-02,5,\n2024-01-03,5,6\n"

def sampleTwice : String :=
  "date,open,close\n2024-01-03,7,8\n2024-01-09,1,1\n2024-01-02,5,6\n2024-01-03,9,8\n"

/-- A file with a fault on a late date, and a file with a date that comes twice. -/
def sampleShelf : Disk :=
  ⟨.folder [("FAULT.csv", .file sampleFault.toUTF8), ("TWICE.csv", .file sampleTwice.toUTF8)], []⟩

theorem sampleTwice_rows : ∃ rows, PriceFile.Holds sampleTwice rows ∧
    rows.map Bar.date = [⟨2024, 1, 3⟩, ⟨2024, 1, 9⟩, ⟨2024, 1, 2⟩, ⟨2024, 1, 3⟩] := by
  let headers := ["date", "open", "close"]
  let c : PriceFile.Columns := ⟨0, 1, none, none, 2, none⟩
  have hrecords : Csv.records sampleTwice = headers :: [["2024-01-03", "7", "8"],
      ["2024-01-09", "1", "1"], ["2024-01-02", "5", "6"], ["2024-01-03", "9", "8"]] := by
    decide +kernel
  have hcolumns : PriceFile.columns "TWICE.csv" headers = .ok c := by decide
  have hdates : List.map Bar.date <$> (Csv.records sampleTwice).tail.mapM (PriceFile.bar 3 c) =
      .ok [⟨2024, 1, 3⟩, ⟨2024, 1, 9⟩, ⟨2024, 1, 2⟩, ⟨2024, 1, 3⟩] := by
    decide +kernel
  obtain ⟨rows, hrows, hdates⟩ := map_ok.1 hdates
  rw [hrecords] at hrows
  have hforall := (mapM_ok.1 hrows).imp fun _ _ => PriceFile.bar_ok.1
  exact ⟨rows, .rows hrecords (PriceFile.columns_ok.1 hcolumns) hforall, hdates⟩

/-- Between the second and the third of January, the fault is told although it is on a later
date, and both rows of the third are fetched, so that no matrix can be built. -/
theorem sampleShelf_fetched :
    let fetched (ticker : String) := (fetch (m := StateM Session) ⟨""⟩ ticker
      (some ⟨2024, 1, 2⟩) (some ⟨2024, 1, 3⟩) (.start sampleShelf)).1
    (∃ e, fetched "FAULT" = .error e) ∧
    ∃ bars, fetched "TWICE" = .ok bars ∧ bars.length = 3 ∧
      ∀ series anchors, series.get? "TWICE" = some bars → ∃ name date,
        PriceMatrix.build series anchors = .error (.unorderedBars name date) := by
  intro fetched
  obtain ⟨hfault, -⟩ := fetch_is_sorted_clip ⟨""⟩ "FAULT" (some ⟨2024, 1, 2⟩)
    (some ⟨2024, 1, 3⟩) (.start sampleShelf)
  obtain ⟨-, hclip, -, -, -, hrepeats⟩ := fetch_is_sorted_clip ⟨""⟩ "TWICE" (some ⟨2024, 1, 2⟩)
    (some ⟨2024, 1, 3⟩) (.start sampleShelf)
  obtain ⟨rows, hrows, hdates⟩ := sampleTwice_rows
  have hholds : Holds ⟨""⟩ "TWICE" sampleShelf rows := .file (by decide +kernel) hrows
  have hcount (p : Date → Bool) : (rows.filter fun b => p b.date).length =
      ([⟨2024, 1, 3⟩, ⟨2024, 1, 9⟩, ⟨2024, 1, 2⟩, ⟨2024, 1, 3⟩].filter p).length := by
    rw [← hdates, List.filter_map, List.length_map]
    rfl
  have htwice : Bar.Repeats rows (some ⟨2024, 1, 2⟩) (some ⟨2024, 1, 3⟩) ⟨2024, 1, 3⟩ := by
    refine ⟨by decide, ?_⟩
    rw [Bar.ofDate, hcount fun d => decide (d = ⟨2024, 1, 3⟩)]
    decide
  have hsorted := Bar.sortedClip_sort rows (some ⟨2024, 1, 2⟩) (some ⟨2024, 1, 3⟩)
  have hlength := hsorted.once.length_eq.trans (hcount fun d => decide (d.Between _ _))
  have hbars := (hclip _).2 ⟨rows, hholds, hsorted⟩
  have hread : sampleShelf.readText (fileOf ⟨""⟩ "FAULT") = .ok sampleFault := by decide +kernel
  have hrefused := (hfault _).2 (.faulty hread (PriceFile.bars_error.1 rfl))
  exact ⟨⟨_, hrefused⟩, _, hbars, hlength.trans (by decide),
    (hrepeats rows _ hholds hbars).1 ⟨_, htwice⟩⟩

end PriceFolder
end StrategyTree
