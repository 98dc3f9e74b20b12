import Mathlib.Data.List.Sort
import StrategyTree.PriceMatrix
import StrategyTree.Proofs.Date
import StrategyTree.Proofs.Indicator.Length
import StrategyTree.Proofs.Outcome
import StrategyTree.Proofs.Table
/-!
# Alignment of bars

Bars are aligned unless those of some ticker are out of order. Then the dates are
those on which every anchor has a bar, whichever anchor they are read off, and each
ticker has its own bars on them. The order of the anchors only decides between
anchors that start on the same day.
-/
namespace StrategyTree

variable {α : Type}

/-! ### Prices by name -/

inductive PriceField where
  | opening
  | high
  | low
  | close
  | adjusted
deriving DecidableEq, Repr

def Bar.price (b : Bar α) : PriceField → α
  | .opening => b.opening
  | .high => b.high
  | .low => b.low
  | .close => b.close
  | .adjusted => b.adjusted

def TickerPrices.series (p : TickerPrices α) : PriceField → Series α
  | .opening => p.opening
  | .high => p.high
  | .low => p.low
  | .close => p.close
  | .adjusted => p.adjusted

theorem TickerPrices.ext_series {p q : TickerPrices α}
    (h : ∀ field, p.series field = q.series field) : p = q := by
  have hopening := h .opening
  have hhigh := h .high
  have hlow := h .low
  have hclose := h .close
  have hadjusted := h .adjusted
  cases p
  cases q
  simp_all [series]

theorem TickerPrices.spans_iff {p : TickerPrices α} {length : Nat} :
    p.Spans length ↔ ∀ field, (p.series field).length = length := by
  constructor
  · intro h field
    cases field
    · exact h.opening
    · exact h.high
    · exact h.low
    · exact h.close
    · exact h.adjusted
  · intro h
    exact ⟨h .opening, h .high, h .low, h .close, h .adjusted⟩

@[simp] theorem TickerPrices.series_ofBars (bars : List (Bar α)) (dates : List Date)
    (field : PriceField) : (ofBars bars dates).series field =
      dates.map fun d => (bars.find? (·.date = d)).map (·.price field) := by
  cases field <;> simp [ofBars, series, Bar.price]

namespace Bar

/-! ### Bars in order -/

/-- Some bar is not later than the one before it. -/
def Disordered (bars : List (Bar α)) : Prop :=
  ∃ before a b after, bars = before ++ a :: b :: after ∧ ¬a.date < b.date

/-- Some bar of a date is not later than the one before it. -/
def DisorderedAt (bars : List (Bar α)) (d : Date) : Prop :=
  ∃ before a b after, bars = before ++ a :: b :: after ∧ ¬a.date < b.date ∧ b.date = d

theorem disordered_cons_cons {a b : Bar α} {rest : List (Bar α)} :
    Disordered (a :: b :: rest) ↔ ¬a.date < b.date ∨ Disordered (b :: rest) := by
  constructor
  · rintro ⟨before, x, y, after, h, hxy⟩
    cases before with
    | nil =>
        simp only [List.nil_append, List.cons.injEq] at h
        obtain ⟨rfl, rfl, -⟩ := h
        exact .inl hxy
    | cons c before =>
        simp only [List.cons_append, List.cons.injEq] at h
        exact .inr ⟨before, x, y, after, h.2, hxy⟩
  · rintro (h | ⟨before, x, y, after, heq, hxy⟩)
    · exact ⟨[], a, b, rest, rfl, h⟩
    · exact ⟨a :: before, x, y, after, by rw [heq, List.cons_append], hxy⟩

theorem not_disordered_of_length_le_one {bars : List (Bar α)} (h : bars.length ≤ 1) :
    ¬Disordered bars := by
  rintro ⟨before, a, b, after, rfl, -⟩
  simp only [List.length_append, List.length_cons] at h
  omega

/-- Where no two neighbours are out of order, no two bars are. -/
theorem increasing_of_not_disordered {bars : List (Bar α)} (h : ¬Disordered bars) :
    bars.Pairwise fun a b => a.date < b.date := by
  induction bars with
  | nil => exact .nil
  | cons a rest ih =>
      cases rest with
      | nil => exact List.pairwise_singleton _ a
      | cons b rest =>
          rw [disordered_cons_cons, not_or, not_not] at h
          obtain ⟨hab, hrest⟩ := h
          have hlater := ih hrest
          refine List.pairwise_cons.2 ⟨fun c hc => ?_, hlater⟩
          rcases List.mem_cons.1 hc with rfl | hc
          · exact hab
          · exact lt_trans hab ((List.pairwise_cons.1 hlater).1 c hc)

section Increasing
variable {bars : List (Bar α)} (h : bars.Pairwise fun a b => a.date < b.date)
include h

theorem head_le {first b : Bar α} (hfirst : bars.head? = some first) (hb : b ∈ bars) :
    first.date ≤ b.date := by
  obtain ⟨rest, rfl⟩ := List.head?_eq_some_iff.1 hfirst
  rcases List.mem_cons.1 hb with rfl | hb
  · exact le_refl _
  · exact le_of_lt ((List.pairwise_cons.1 h).1 b hb)

theorem le_last {last b : Bar α} (hlast : bars.getLast? = some last) (hb : b ∈ bars) :
    b.date ≤ last.date := by
  obtain ⟨rest, rfl⟩ := List.getLast?_eq_some_iff.1 hlast
  rcases List.mem_append.1 hb with hb | hb
  · exact le_of_lt ((List.pairwise_append.1 h).2.2 b hb last List.mem_cons_self)
  · exact le_of_eq (congrArg Bar.date (List.mem_singleton.1 hb))

/-- There is one bar a date at most. -/
theorem find?_date {b : Bar α} (hb : b ∈ bars) : bars.find? (·.date = b.date) = some b := by
  induction bars with
  | nil => cases hb
  | cons a rest ih =>
      obtain ⟨ha, hrest⟩ := List.pairwise_cons.1 h
      rcases List.mem_cons.1 hb with rfl | hb
      · simp
      · have hne : a.date ≠ b.date := ne_of_lt (ha b hb)
        simp [hne, ih hrest hb]

end Increasing
end Bar

namespace PriceMatrix

theorem firstDisorder?_eq_none {bars : List (Bar α)} :
    firstDisorder? bars = none ↔ ¬Bar.Disordered bars := by
  fun_induction firstDisorder? bars with
  | case1 a b rest h =>
      have hlt : ¬a.date < b.date := not_lt_of_ge h
      simp [Bar.disordered_cons_cons, hlt]
  | case2 a b rest h ih =>
      have hlt : a.date < b.date := lt_of_not_ge h
      simp [Bar.disordered_cons_cons, hlt, ih]
  | case3 bars h =>
      have hshort : bars.length ≤ 1 := by
        match bars with
        | [] => simp
        | [_] => simp
        | a :: b :: rest => exact (h a b rest rfl).elim
      simp [Bar.not_disordered_of_length_le_one hshort]

theorem disorderedAt_of_firstDisorder {bars : List (Bar α)} {d : Date}
    (h : firstDisorder? bars = some d) : Bar.DisorderedAt bars d := by
  fun_induction firstDisorder? bars with
  | case1 a b rest hle => exact ⟨[], a, b, rest, rfl, not_lt_of_ge hle, Option.some.inj h⟩
  | case2 a b rest hlt ih =>
      obtain ⟨before, x, y, after, heq, hxy, hy⟩ := ih h
      exact ⟨a :: before, x, y, after, by rw [heq, List.cons_append], hxy, hy⟩
  | case3 bars _ => cases h

theorem checkOrder_ok {entries : List (String × List (Bar α))} :
    checkOrder entries = .ok () ↔ ∀ e ∈ entries, ¬Bar.Disordered e.2 := by
  induction entries with
  | nil => simp [checkOrder]
  | cons e rest ih =>
      obtain ⟨ticker, bars⟩ := e
      rw [List.forall_mem_cons, ← firstDisorder?_eq_none, ← ih]
      cases h : firstDisorder? bars with
      | none => simp [checkOrder, h]
      | some date => simp [checkOrder, h]

/-- The failure names a ticker whose bars are out of order, and where they are. -/
theorem checkOrder_error {entries : List (String × List (Bar α))} {e : Failure}
    (h : checkOrder entries = .error e) : ∃ entry ∈ entries, ∃ d,
      Bar.DisorderedAt entry.2 d ∧ e = .unorderedBars entry.1 d.display := by
  induction entries with
  | nil => cases h
  | cons entry rest ih =>
      obtain ⟨ticker, bars⟩ := entry
      simp only [checkOrder] at h
      split at h
      · next d hd =>
          exact ⟨_, List.mem_cons_self, d, disorderedAt_of_firstDisorder hd,
            (Except.error.inj h).symm⟩
      · obtain ⟨entry, hmem, d, hd, he⟩ := ih h
        exact ⟨entry, List.mem_cons_of_mem _ hmem, d, hd, he⟩

/-! ### Common history -/

/-- A ticker has a bar on a date. -/
def HasBar (series : Table (List (Bar α))) (ticker : String) (d : Date) : Prop :=
  ∃ bars, series.get? ticker = some bars ∧ ∃ b ∈ bars, b.date = d

/-- The first bar of a ticker is of this date. -/
def Starts (series : Table (List (Bar α))) (ticker : String) (d : Date) : Prop :=
  ∃ bars first, series.get? ticker = some bars ∧ bars.head? = some first ∧ first.date = d

/-- A date on which every anchor has a bar. Without anchors there is none. -/
def IsCommonDate (series : Table (List (Bar α))) (anchors : List String) (d : Date) : Prop :=
  anchors ≠ [] ∧ ∀ ticker ∈ anchors, HasBar series ticker d

theorem isCommonDate_congr {series : Table (List (Bar α))} {anchors anchors' : List String}
    (h : ∀ ticker, ticker ∈ anchors' ↔ ticker ∈ anchors) (d : Date) :
    IsCommonDate series anchors' d ↔ IsCommonDate series anchors d := by
  have hempty : anchors' = [] ↔ anchors = [] := by
    simp only [List.eq_nil_iff_forall_not_mem, h]
  simp only [IsCommonDate, ne_eq, hempty, h]

/-- The bars of every ticker are in order. -/
def Ordered (series : Table (List (Bar α))) : Prop :=
  ∀ ticker bars, series.get? ticker = some bars → ¬Bar.Disordered bars

theorem checkOrder_ok_iff_ordered {series : Table (List (Bar α))} :
    checkOrder series.entries = .ok () ↔ Ordered series := by
  rw [checkOrder_ok]
  constructor
  · exact fun h ticker bars hget => h (ticker, bars) (Table.get?_eq_some_iff.1 hget)
  · exact fun h e he => h e.1 e.2 (Table.get?_eq_some_iff.2 he)

/-- What the histories of a list share. -/
structure Shared (hs : List History) (common : History) : Prop where
  latest {h : History} : h ∈ hs → h.first ≤ common.first
  earliest {h : History} : h ∈ hs → common.last ≤ h.last
  limiting : ∃ h ∈ hs, h.ticker = common.ticker ∧ h.first = common.first
  ending : ∃ h ∈ hs, h.last = common.last

namespace Shared

theorem singleton (h : History) : Shared [h] h where
  latest hx := le_of_eq (congrArg History.first (List.mem_singleton.1 hx))
  earliest hx := le_of_eq (congrArg History.last (List.mem_singleton.1 hx).symm)
  limiting := ⟨h, List.mem_cons_self, rfl, rfl⟩
  ending := ⟨h, List.mem_cons_self, rfl⟩

theorem meet {hs : List History} {common : History} (hc : Shared hs common) (h : History) :
    Shared (hs ++ [h]) (common.meet h) := by
  have hfirst : common.first ≤ (common.meet h).first ∧ h.first ≤ (common.meet h).first := by
    by_cases hlt : common.first < h.first
    · simp [History.meet, hlt, le_of_lt hlt]
    · simp [History.meet, hlt, not_lt.1 hlt]
  have hlast : (common.meet h).last ≤ common.last ∧ (common.meet h).last ≤ h.last := by
    by_cases hlt : h.last < common.last
    · simp [History.meet, hlt, le_of_lt hlt]
    · simp [History.meet, hlt, not_lt.1 hlt]
  constructor
  · intro x hx
    rcases List.mem_append.1 hx with hx | hx
    · exact le_trans (hc.latest hx) hfirst.1
    · exact List.mem_singleton.1 hx ▸ hfirst.2
  · intro x hx
    rcases List.mem_append.1 hx with hx | hx
    · exact le_trans hlast.1 (hc.earliest hx)
    · exact List.mem_singleton.1 hx ▸ hlast.2
  · by_cases hlt : common.first < h.first
    · exact ⟨h, by simp, by simp [History.meet, hlt], by simp [History.meet, hlt]⟩
    · obtain ⟨x, hx, hticker, hfirst⟩ := hc.limiting
      exact ⟨x, by simp [hx], by simp [History.meet, hlt, hticker],
        by simp [History.meet, hlt, hfirst]⟩
  · by_cases hlt : h.last < common.last
    · exact ⟨h, by simp, by simp [History.meet, hlt]⟩
    · obtain ⟨x, hx, hlast⟩ := hc.ending
      exact ⟨x, by simp [hx], by simp [History.meet, hlt, hlast]⟩

theorem foldl {hs : List History} {common : History} (hc : Shared hs common)
    (rest : List History) : Shared (hs ++ rest) (rest.foldl History.meet common) := by
  induction rest generalizing hs common with
  | nil => simpa using hc
  | cons h rest ih =>
      have hnext := ih (hc.meet h)
      rwa [List.append_assoc, List.singleton_append] at hnext

end Shared

section History
variable {series : Table (List (Bar α))} {anchors : List String}

theorem history?_eq_some {ticker : String} {h : History} :
    history? series ticker = some h ↔ ∃ bars first last, series.get? ticker = some bars ∧
      bars.head? = some first ∧ bars.getLast? = some last ∧
        h = ⟨ticker, first.date, last.date⟩ := by
  simp only [history?, Option.bind_eq_bind, Option.bind_eq_some_iff, Option.some.injEq]
  constructor
  · rintro ⟨bars, hbars, first, hfirst, last, hlast, rfl⟩
    exact ⟨bars, first, last, hbars, hfirst, hlast, rfl⟩
  · rintro ⟨bars, first, last, hbars, hfirst, hlast, rfl⟩
    exact ⟨bars, hbars, first, hfirst, last, hlast, rfl⟩

/-- A ticker with a bar has a history. -/
theorem HasBar.history {ticker : String} {d : Date} (h : HasBar series ticker d) :
    ∃ x, history? series ticker = some x := by
  obtain ⟨bars, hbars, b, hb, -⟩ := h
  obtain ⟨first, hfirst⟩ : ∃ first, bars.head? = some first := by
    cases bars with
    | nil => cases hb
    | cons first rest => exact ⟨first, rfl⟩
  obtain ⟨last, hlast⟩ : ∃ last, bars.getLast? = some last := by
    cases hl : bars.getLast? with
    | none => simp_all
    | some last => exact ⟨last, rfl⟩
  exact ⟨_, history?_eq_some.2 ⟨bars, first, last, hbars, hfirst, hlast, rfl⟩⟩

/-- The bars of a ticker lie within its history. -/
theorem HasBar.within (hs : Ordered series) {ticker : String} {d : Date}
    (h : HasBar series ticker d) {x : History} (hx : history? series ticker = some x) :
    x.first ≤ d ∧ d ≤ x.last := by
  obtain ⟨bars, first, last, hbars, hfirst, hlast, rfl⟩ := history?_eq_some.1 hx
  obtain ⟨bars', hbars', b, hb, rfl⟩ := h
  obtain rfl : bars = bars' := Option.some.inj (hbars.symm.trans hbars')
  have hincreasing := Bar.increasing_of_not_disordered (hs ticker bars hbars)
  exact ⟨Bar.head_le hincreasing hfirst hb, Bar.le_last hincreasing hlast hb⟩

theorem mapM_history {hs : List History} (h : anchors.mapM (history? series) = some hs) :
    (∀ a ∈ anchors, ∃ x ∈ hs, history? series a = some x) ∧
      ∀ x ∈ hs, ∃ a ∈ anchors, history? series a = some x := by
  induction anchors generalizing hs with
  | nil =>
      obtain rfl : [] = hs := by simpa using h
      simp
  | cons a rest ih =>
      rw [List.mapM_cons] at h
      simp only [Option.bind_eq_bind, Option.bind_eq_some_iff, Option.pure_def,
        Option.some.injEq] at h
      obtain ⟨x, hx, xs, hxs, rfl⟩ := h
      obtain ⟨hfound, hfrom⟩ := ih hxs
      constructor
      · rintro b (_ | ⟨_, hb⟩)
        · exact ⟨x, List.mem_cons_self, hx⟩
        · obtain ⟨y, hy, heq⟩ := hfound b hb
          exact ⟨y, List.mem_cons_of_mem _ hy, heq⟩
      · rintro y (_ | ⟨_, hy⟩)
        · exact ⟨a, List.mem_cons_self, hx⟩
        · obtain ⟨b, hb, heq⟩ := hfrom y hy
          exact ⟨b, List.mem_cons_of_mem _ hb, heq⟩

theorem mapM_history_ok (h : ∀ a ∈ anchors, ∃ x, history? series a = some x) :
    ∃ hs, anchors.mapM (history? series) = some hs := by
  induction anchors with
  | nil => exact ⟨[], rfl⟩
  | cons a rest ih =>
      obtain ⟨x, hx⟩ := h a List.mem_cons_self
      obtain ⟨xs, hxs⟩ := ih fun b hb => h b (List.mem_cons_of_mem _ hb)
      exact ⟨x :: xs, by rw [List.mapM_cons, hx, hxs]; rfl⟩

variable (hs : Ordered series)
include hs

/-- The common history spans the common dates. -/
theorem IsCommonDate.within {d : Date} (h : IsCommonDate series anchors d) {hist : List History}
    (hhist : anchors.mapM (history? series) = some hist) {common : History}
    (hc : Shared hist common) : common.first ≤ d ∧ d ≤ common.last := by
  obtain ⟨-, hfrom⟩ := mapM_history hhist
  constructor
  · obtain ⟨x, hx, -, hfirst⟩ := hc.limiting
    obtain ⟨a, ha, hax⟩ := hfrom x hx
    exact hfirst ▸ ((h.2 a ha).within hs hax).1
  · obtain ⟨x, hx, hlast⟩ := hc.ending
    obtain ⟨a, ha, hax⟩ := hfrom x hx
    exact hlast ▸ ((h.2 a ha).within hs hax).2

/-- Without a common history there is no common date. -/
theorem not_isCommonDate_of_none (h : commonHistory? series anchors = none) (d : Date) :
    ¬IsCommonDate series anchors d := by
  intro hd
  obtain ⟨hist, hhist⟩ := mapM_history_ok fun a ha => (hd.2 a ha).history
  cases hist with
  | nil =>
      obtain ⟨hfound, -⟩ := mapM_history hhist
      obtain ⟨a, ha⟩ := List.exists_mem_of_ne_nil anchors hd.1
      obtain ⟨x, hx, -⟩ := hfound a ha
      cases hx
  | cons x rest =>
      have hshared := (Shared.singleton x).foldl rest
      have hwithin := hd.within hs hhist hshared
      have hle := le_trans hwithin.1 hwithin.2
      simp [commonHistory?, hhist, hle] at h

omit hs in
theorem shared_of_commonHistory {common : History}
    (h : commonHistory? series anchors = some common) :
    ∃ hist, anchors.mapM (history? series) = some hist ∧ Shared hist common := by
  rw [commonHistory?] at h
  obtain ⟨hist, hhist, h⟩ := Option.bind_eq_some_iff.1 h
  cases hist with
  | nil => cases h
  | cons x rest =>
      have hshared := (Shared.singleton x).foldl rest
      dsimp only at h
      split at h
      · obtain rfl := Option.some.inj h
        exact ⟨x :: rest, hhist, hshared⟩
      · cases h

omit hs in
/-- The limiting ticker is an anchor, and none starts later. -/
theorem limiting_latest {common : History} (h : commonHistory? series anchors = some common) :
    common.ticker ∈ anchors ∧ Starts series common.ticker common.first ∧
      ∀ ticker ∈ anchors, ∀ d, Starts series ticker d → d ≤ common.first := by
  obtain ⟨hist, hhist, hshared⟩ := shared_of_commonHistory h
  obtain ⟨hfound, hfrom⟩ := mapM_history hhist
  obtain ⟨x, hx, hticker, hfirst⟩ := hshared.limiting
  obtain ⟨a, ha, hax⟩ := hfrom x hx
  obtain ⟨bars, first, last, hbars, hhead, -, rfl⟩ := history?_eq_some.1 hax
  refine ⟨hticker ▸ ha, ⟨bars, first, hticker ▸ hbars, hhead, hfirst⟩, ?_⟩
  rintro ticker hmem d ⟨bars', first', hbars', hhead', rfl⟩
  obtain ⟨y, hy, hay⟩ := hfound ticker hmem
  obtain ⟨bars'', first'', last'', hbars'', hhead'', -, rfl⟩ := history?_eq_some.1 hay
  obtain rfl : bars' = bars'' := Option.some.inj (hbars'.symm.trans hbars'')
  obtain rfl : first' = first'' := Option.some.inj (hhead'.symm.trans hhead'')
  exact hshared.latest hy

omit hs in
theorem hasBar_iff {ticker : String} {d : Date} :
    HasBar series ticker d ↔ ∃ b ∈ (series.get? ticker).getD [], b.date = d := by
  cases h : series.get? ticker <;> simp [HasBar, h]

omit hs in
theorem mem_commonDates {common : History} {d : Date} : d ∈ commonDates series anchors common ↔
    HasBar series common.ticker d ∧ (common.first ≤ d ∧ d ≤ common.last) ∧
      ∀ ticker ∈ anchors, ticker ≠ common.ticker → HasBar series ticker d := by
  simp only [commonDates, hasBar_iff, List.mem_filter, List.mem_map, Bool.and_eq_true,
    decide_eq_true_eq, List.all_eq_true, List.any_eq_true, ne_eq, decide_not, Bool.not_eq_true',
    decide_eq_false_iff_not, and_imp]

/-- The dates that are read off the limiting ticker are the common dates. -/
theorem mem_commonDates_iff {common : History} (h : commonHistory? series anchors = some common)
    {d : Date} : d ∈ commonDates series anchors common ↔ IsCommonDate series anchors d := by
  have hlimiting := (limiting_latest h).1
  rw [mem_commonDates]
  constructor
  · rintro ⟨hd, -, hothers⟩
    refine ⟨List.ne_nil_of_mem hlimiting, fun ticker hticker => ?_⟩
    by_cases heq : ticker = common.ticker
    · exact heq ▸ hd
    · exact hothers ticker hticker heq
  · intro hd
    obtain ⟨hist, hhist, hshared⟩ := shared_of_commonHistory h
    have hwithin := hd.within hs hhist hshared
    exact ⟨hd.2 _ hlimiting, hwithin, fun ticker hticker _ => hd.2 ticker hticker⟩

theorem commonDates_increasing (common : History) :
    (commonDates series anchors common).Pairwise (· < ·) := by
  refine List.Pairwise.filter _ (List.pairwise_map.2 ?_)
  dsimp only
  cases h : series.get? common.ticker with
  | none => exact .nil
  | some bars => exact Bar.increasing_of_not_disordered (hs _ bars h)

end History

/-! ### Alignment -/

/-- A matrix that aligns the bars of all tickers on the dates common to the anchors. -/
structure Aligns (series : Table (List (Bar α))) (anchors : List String) (m : PriceMatrix α) :
    Prop where
  increasing : m.dates.Pairwise (· < ·)
  common {d : Date} : d ∈ m.dates ↔ IsCommonDate series anchors d
  tickers : m.prices.keys = series.keys
  aligned : m.Aligned
  /-- An entry is that of the bar of its date. -/
  present {ticker : String} {bars : List (Bar α)} {p : TickerPrices α} {b : Bar α} {i : Nat} :
    series.get? ticker = some bars → m.prices.get? ticker = some p → b ∈ bars →
      m.dates[i]? = some b.date → ∀ field, (p.series field)[i]? = some (some (b.price field))
  /-- An entry is undefined where its date has no bar. -/
  absent {ticker : String} {p : TickerPrices α} {i : Nat} {d : Date} :
    m.prices.get? ticker = some p → m.dates[i]? = some d → ¬HasBar series ticker d →
      ∀ field, (p.series field)[i]? = some none
  unlimited : m.limiting = none ↔ m.dates = []
  limiting {ticker : String} : m.limiting = some ticker → ticker ∈ anchors ∧
    ∃ first, Starts series ticker first ∧
      ∀ anchor ∈ anchors, ∀ d, Starts series anchor d → d ≤ first

namespace Aligns
variable {series : Table (List (Bar α))} {anchors anchors' : List String} {m m' : PriceMatrix α}

/-- Only which tickers are anchors counts, not their order. -/
theorem congr (h : Aligns series anchors m)
    (hmem : ∀ ticker, ticker ∈ anchors' ↔ ticker ∈ anchors) : Aligns series anchors' m where
  increasing := h.increasing
  common := h.common.trans (isCommonDate_congr hmem _).symm
  tickers := h.tickers
  aligned := h.aligned
  present := h.present
  absent := h.absent
  unlimited := h.unlimited
  limiting {ticker} hticker := by
    obtain ⟨hanchor, first, hfirst, hlatest⟩ := h.limiting hticker
    exact ⟨(hmem ticker).2 hanchor, first, hfirst, fun a ha => hlatest a ((hmem a).1 ha)⟩

theorem get?_isSome (h : Aligns series anchors m) (ticker : String) :
    (m.prices.get? ticker).isSome ↔ (series.get? ticker).isSome := by
  rw [Option.isSome_iff_exists, Option.isSome_iff_exists, ← Table.mem_keys_iff,
    ← Table.mem_keys_iff, h.tickers]

/-- The dates and the bars decide the prices of a ticker. -/
theorem prices_eq (h : Aligns series anchors m) (h' : Aligns series anchors' m')
    (hdates : m'.dates = m.dates) {ticker : String} {p p' : TickerPrices α}
    (hp : m.prices.get? ticker = some p) (hp' : m'.prices.get? ticker = some p') : p' = p := by
  obtain ⟨bars, hbars⟩ : ∃ bars, series.get? ticker = some bars := by
    rw [← Option.isSome_iff_exists, ← h.get?_isSome, hp]
    rfl
  refine TickerPrices.ext_series fun field => List.ext_getElem? fun i => ?_
  have hlength := TickerPrices.spans_iff.1 (h.aligned ticker p hp) field
  have hlength' := TickerPrices.spans_iff.1 (h'.aligned ticker p' hp') field
  rw [hdates] at hlength'
  cases hd : m.dates[i]? with
  | none =>
      have hpast := List.getElem?_eq_none_iff.1 hd
      rw [List.getElem?_eq_none (le_of_eq_of_le hlength hpast),
        List.getElem?_eq_none (le_of_eq_of_le hlength' hpast)]
  | some d =>
      have hd' : m'.dates[i]? = some d := hdates ▸ hd
      by_cases hbar : HasBar series ticker d
      · obtain ⟨bars', hbars', b, hb, rfl⟩ := hbar
        rw [h.present hbars' hp hb hd, h'.present hbars' hp' hb hd']
      · rw [h.absent hp hd hbar, h'.absent hp' hd' hbar]

/-- Dates and prices are the same for all orders of the same anchors. -/
theorem unique (h : Aligns series anchors m) (h' : Aligns series anchors m') :
    m'.dates = m.dates ∧ m'.prices = m.prices := by
  have hdates : m'.dates = m.dates :=
    h'.increasing.eq_of_mem_iff h.increasing fun d => h'.common.trans h.common.symm
  refine ⟨hdates, Table.ext_get? fun ticker => ?_⟩
  have hsome := (h'.get?_isSome ticker).trans (h.get?_isSome ticker).symm
  cases hp : m.prices.get? ticker with
  | none => simpa [hp] using hsome
  | some p =>
      cases hp' : m'.prices.get? ticker with
      | none => simp [hp, hp'] at hsome
      | some p' => exact congrArg some (h.prices_eq h' hdates hp hp')

end Aligns

section Build
variable {series : Table (List (Bar α))} {anchors : List String}

theorem aligns_withoutDates (h : ∀ d, ¬IsCommonDate series anchors d) :
    Aligns series anchors (withoutDates series) where
  increasing := .nil
  common := by simp [withoutDates, h]
  tickers := Table.keys_map series _
  aligned ticker p hp := by
    obtain ⟨bars, -, rfl⟩ : ∃ bars, series.get? ticker = some bars ∧ {} = p := by
      simpa [withoutDates] using hp
    exact ⟨rfl, rfl, rfl, rfl, rfl⟩
  present _ _ _ hd := by cases hd
  absent _ hd := by cases hd
  unlimited := iff_of_true rfl rfl
  limiting h := by cases h

/-- The bars of each ticker on the dates that are read off the limiting ticker. -/
theorem aligns_commonDates (hs : Ordered series) {common : History}
    (h : commonHistory? series anchors = some common)
    (hdates : commonDates series anchors common ≠ []) :
    Aligns series anchors ⟨commonDates series anchors common,
      series.map fun _ bars => .ofBars bars (commonDates series anchors common),
      some common.ticker⟩ where
  increasing := commonDates_increasing hs common
  common := mem_commonDates_iff hs h
  tickers := Table.keys_map series _
  aligned ticker p hp := by
    rw [Table.get?_map] at hp
    obtain ⟨bars, -, rfl⟩ := Option.map_eq_some_iff.1 hp
    exact TickerPrices.spans_iff.2 fun field => by simp
  present {ticker bars p b i} hbars hp hb hd field := by
    rw [Table.get?_map, hbars] at hp
    obtain rfl := Option.some.inj hp
    have hincreasing := Bar.increasing_of_not_disordered (hs ticker bars hbars)
    simp [hd, Bar.find?_date hincreasing hb]
  absent {ticker p i d} hp hd hbar field := by
    rw [Table.get?_map] at hp
    obtain ⟨bars, hbars, rfl⟩ := Option.map_eq_some_iff.1 hp
    have hnone : bars.find? (·.date = d) = none := by
      refine List.find?_eq_none.2 fun b hb => ?_
      simpa using fun heq => hbar ⟨bars, hbars, b, hb, heq⟩
    simp [hd, hnone]
  unlimited := iff_of_false (by simp) hdates
  limiting hticker := by
    obtain rfl := Option.some.inj hticker
    obtain ⟨hanchor, hstarts, hlatest⟩ := limiting_latest h
    exact ⟨hanchor, _, hstarts, hlatest⟩

/-- Ordered bars are aligned. -/
theorem build_of_ordered (hs : Ordered series) (anchors : List String) :
    ∃ m, build series anchors = .ok m ∧ Aligns series anchors m := by
  have hmem (ticker : String) : ticker ∈ anchors ↔ ticker ∈ anchors.eraseDups :=
    List.mem_eraseDups.symm
  rw [build, checkOrder_ok_iff_ordered.2 hs]
  simp only [bind, Except.bind]
  cases h : commonHistory? series anchors.eraseDups with
  | none => exact ⟨_, rfl, (aligns_withoutDates (not_isCommonDate_of_none hs h)).congr hmem⟩
  | some common =>
      dsimp only
      split
      · next hempty =>
          have hdates := List.isEmpty_iff.1 hempty
          refine ⟨_, rfl, (aligns_withoutDates fun d hd => ?_).congr hmem⟩
          have hmem := (mem_commonDates_iff hs h).2 hd
          rw [hdates] at hmem
          cases hmem
      · next hne =>
          have hdates : commonDates series anchors.eraseDups common ≠ [] := by simpa using hne
          exact ⟨_, rfl, (aligns_commonDates hs h hdates).congr hmem⟩

theorem build_of_disordered (hs : ¬Ordered series) : ∃ ticker bars d,
    series.get? ticker = some bars ∧ Bar.DisorderedAt bars d ∧
      ∀ anchors, build series anchors = .error (.unorderedBars ticker d.display) := by
  cases h : checkOrder series.entries with
  | ok _ => exact absurd (checkOrder_ok_iff_ordered.1 h) hs
  | error e =>
      obtain ⟨entry, hentry, d, hd, rfl⟩ := checkOrder_error h
      exact ⟨entry.1, entry.2, d, Table.get?_eq_some_iff.2 hentry, hd,
        fun anchors => by rw [build, h]; rfl⟩

theorem build_of_not_ordered (hs : ¬Ordered series) : ∃ ticker date,
    ∀ anchors, build series anchors = .error (.unorderedBars ticker date) := by
  obtain ⟨ticker, _, d, -, -, h⟩ := build_of_disordered hs
  exact ⟨ticker, d.display, h⟩

end Build

/-- Price alignment: bars are refused exactly if those of some ticker are out of order, and
otherwise they are aligned. Dates and prices depend on the set of the anchors only. -/
theorem build_aligns (series : Table (List (Bar α))) (anchors : List String) :
    ((∃ ticker date, build series anchors = .error (.unorderedBars ticker date)) ↔
      ∃ ticker bars, series.get? ticker = some bars ∧ Bar.Disordered bars) ∧
    ((∀ ticker bars, series.get? ticker = some bars → ¬Bar.Disordered bars) →
      ∃ m, build series anchors = .ok m ∧ Aligns series anchors m) ∧
    ∀ anchors', (∀ ticker, ticker ∈ anchors' ↔ ticker ∈ anchors) →
      (fun m => (m.dates, m.prices)) <$> build series anchors' =
        (fun m => (m.dates, m.prices)) <$> build series anchors := by
  by_cases hs : Ordered series
  · obtain ⟨m, hm, haligns⟩ := build_of_ordered hs anchors
    refine ⟨iff_of_false ?_ ?_, fun _ => ⟨m, hm, haligns⟩, fun anchors' hmem => ?_⟩
    · rintro ⟨ticker, date, h⟩
      rw [hm] at h
      cases h
    · rintro ⟨ticker, bars, hbars, hdisordered⟩
      exact hs ticker bars hbars hdisordered
    · obtain ⟨m', hm', haligns'⟩ := build_of_ordered hs anchors'
      obtain ⟨hdates, hprices⟩ := haligns.unique (haligns'.congr fun t => (hmem t).symm)
      rw [hm, hm']
      exact congrArg Except.ok (Prod.ext hdates hprices)
  · obtain ⟨ticker, date, h⟩ := build_of_not_ordered hs
    refine ⟨iff_of_true ⟨ticker, date, h anchors⟩ ?_, fun h' => absurd h' hs,
      fun anchors' _ => by rw [h, h]⟩
    simpa [Ordered] using hs

/-- Two tickers that start and end on different days and a third with a single bar. -/
def sampleBars : Table (List (Bar Nat)) :=
  let bars (days : List Nat) := days.map fun day => ⟨⟨2024, 1, day⟩, day, day, day, day, day⟩
  .ofList [("SPY", bars [2, 3, 4, 5]), ("QQQ", bars [3, 5, 8]), ("NEW", bars [5])]

theorem sample_aligns : (∃ m, build sampleBars ["SPY", "QQQ"] = .ok m ∧
      Aligns sampleBars ["SPY", "QQQ"] m ∧ m.dates = [⟨2024, 1, 3⟩, ⟨2024, 1, 5⟩]) ∧
    (fun m => (m.dates, m.prices)) <$> build sampleBars ["QQQ", "SPY", "QQQ"] =
      (fun m => (m.dates, m.prices)) <$> build sampleBars ["SPY", "QQQ"] := by
  obtain ⟨-, haligned, hsame⟩ := build_aligns sampleBars ["SPY", "QQQ"]
  have hordered : Ordered sampleBars := checkOrder_ok_iff_ordered.1 (by decide)
  obtain ⟨m, hm, haligns⟩ := haligned hordered
  refine ⟨⟨m, hm, haligns, ?_⟩, hsame _ fun ticker => by simp [or_comm]⟩
  obtain rfl := Except.ok.inj hm
  decide

end PriceMatrix
end StrategyTree
