import StrategyTree.Proofs.Binary64
import StrategyTree.Proofs.Condition.Tally
/-!
# Crossings

A crossing is the event of one day. It holds where its strict relation holds and did not the day
before, so it holds on no two days in a row, and between two days on which it holds the relation
has failed. The crossing in the other direction begins the opposite relation, which never holds
on the same day. A crossing that has to have held for two days or more never does.
-/
namespace StrategyTree

/-! ### Days of a signal -/

namespace Signal

/-- The signal is true on a day. -/
def HoldsOn (s : Signal) (day : Nat) : Prop :=
  s[day]? = some (some true)

/-- The signal is false on a day, and not undefined. -/
def FailsOn (s : Signal) (day : Nat) : Prop :=
  s[day]? = some (some false)

theorem HoldsOn.lt_length {s : Signal} {day : Nat} (h : s.HoldsOn day) : day < s.length :=
  (List.getElem?_eq_some_iff.1 h).1

theorem HoldsOn.not_failsOn {s : Signal} {day : Nat} (h : s.HoldsOn day) : ¬s.FailsOn day := by
  intro hfails
  cases h.symm.trans hfails

/-- A crossing holds on the days on which its relation holds and failed the day before. -/
theorem holdsOn_crossings {length : Nat} {relation : Signal} {day : Nat} :
    (crossings length relation).HoldsOn day ↔ day < length ∧
      ∃ before, day = before + 1 ∧ relation.HoldsOn day ∧ relation.FailsOn before := by
  unfold HoldsOn FailsOn crossings
  rw [List.getElem?_map]
  by_cases hday : day < length
  · rw [List.getElem?_range hday, Option.map_some, and_iff_right hday]
    cases day with
    | zero => simp
    | succ before => simp [Option.bind_eq_some_iff, Option.join_eq_some_iff]
  · rw [List.getElem?_eq_none (by simpa using hday)]
    simp [hday]

/-- The verdict of a window is true if it is full and all its verdicts are. -/
theorem verdict_ofWindow_eq_true {days : Nat} {seen : Signal} :
    (Tally.ofWindow days seen).verdict days = some true ↔
      days ≤ seen.length ∧ ∀ v ∈ seen.rtake days, v = some true := by
  rw [Tally.verdict_ofWindow]
  split
  · next hnone =>
      refine iff_of_false (by rintro ⟨⟩) fun ⟨hfull, htrue⟩ => ?_
      rcases hnone with hshort | hmem
      · omega
      · cases htrue none hmem
  · next hdefined =>
      obtain ⟨hfull, hnone⟩ := not_or.1 hdefined
      rw [Option.some.injEq, decide_eq_true_iff, and_iff_right (Nat.le_of_not_lt hfull)]
      constructor
      · rintro hfalse (_ | _ | _) hv
        · exact absurd hv hnone
        · exact absurd hv hfalse
        · rfl
      · intro htrue hfalse
        cases htrue _ hfalse

/-- A sustained signal holds on the days on which, as on those before, the signal holds. -/
theorem holdsOn_sustain {days : Nat} (hdays : 0 < days) {base : Signal} {day : Nat} :
    (sustain days base).HoldsOn day ↔
      days ≤ day + 1 ∧ ∀ back < days, base.HoldsOn (day - back) := by
  by_cases hday : day < base.length
  · have hlength : (base.take (day + 1)).length = day + 1 := by
      rw [List.length_take, Nat.min_eq_left hday]
    rw [HoldsOn, getElem?_sustain hdays hday, Option.some.injEq, verdict_ofWindow_eq_true, hlength]
    refine and_congr_right fun hfull => ?_
    have hentry (back : Nat) : (base.take (day + 1))[day - back]? = base[day - back]? := by
      rw [List.getElem?_take, if_pos (by omega)]
    simp only [Window.mem_rtake, hlength, Nat.add_sub_cancel, hentry]
    constructor
    · intro h back hback
      have hlt : day - back < base.length := by omega
      have hv := List.getElem?_eq_getElem hlt
      rw [HoldsOn, hv, h _ ⟨back, hback, by omega, hv⟩]
    · rintro h v ⟨back, hback, -, hv⟩
      exact Option.some.inj (hv.symm.trans (h back hback))
  · have habsent (s : Signal) (hs : s.length = base.length) : ¬s.HoldsOn day :=
      fun h => hday (hs ▸ h.lt_length)
    exact iff_of_false (habsent _ (length_sustain days base))
      fun h => habsent base rfl (h.2 0 hdays)

/-- What the signal of a crossing is, beside the signals of its strict relation and of the
crossing in the other direction. -/
structure IsEvent (length : Nat) (strict opposite events : Signal) : Prop where
  /-- It holds where the relation holds and failed the day before. -/
  begins {day : Nat} : events.HoldsOn day ↔ day < length ∧
    ∃ before, day = before + 1 ∧ strict.HoldsOn day ∧ strict.FailsOn before
  /-- It holds on no two days in a row. -/
  alone {day : Nat} : events.HoldsOn day → ¬events.HoldsOn (day + 1)
  /-- Nothing crosses both ways on one day. -/
  oneWay {day : Nat} : events.HoldsOn day → ¬opposite.HoldsOn day
  /-- Between two days on which it holds the relation fails. -/
  apart {first last : Nat} : first < last → events.HoldsOn first → events.HoldsOn last →
    ∃ day, first < day ∧ day < last ∧ strict.FailsOn day

variable {length : Nat} {relation opposite : Signal}

theorem not_holdsOn_crossings_succ {day : Nat} (h : (crossings length relation).HoldsOn day) :
    ¬(crossings length relation).HoldsOn (day + 1) := by
  intro hnext
  obtain ⟨-, _, -, hholds, -⟩ := holdsOn_crossings.1 h
  obtain ⟨-, before, hbefore, -, hfails⟩ := holdsOn_crossings.1 hnext
  obtain rfl : day = before := Nat.succ.inj hbefore
  exact hholds.not_failsOn hfails

/-- If the opposite relation does not hold on the same days, a crossing is an event. -/
theorem isEvent_crossings (hone : ∀ day, relation.HoldsOn day → ¬opposite.HoldsOn day) :
    IsEvent length relation (crossings length opposite) (crossings length relation) := by
  refine ⟨holdsOn_crossings, not_holdsOn_crossings_succ, ?oneWay, ?apart⟩
  case oneWay =>
    intro day h hopposite
    obtain ⟨-, _, -, hholds, -⟩ := holdsOn_crossings.1 h
    obtain ⟨-, _, -, hholds', -⟩ := holdsOn_crossings.1 hopposite
    exact hone day hholds hholds'
  case apart =>
    intro first last hlt hfirst hlast
    obtain ⟨-, _, -, hholds, -⟩ := holdsOn_crossings.1 hfirst
    obtain ⟨-, before, rfl, -, hfails⟩ := holdsOn_crossings.1 hlast
    -- the day before the last is a later day than the first, on which the relation held
    have hne : first ≠ before := fun heq => hholds.not_failsOn (heq ▸ hfails)
    exact ⟨before, by omega, by omega, hfails⟩

/-- A crossing has never held for two days. -/
theorem not_holdsOn_sustain_crossings {days : Nat} (hdays : 2 ≤ days) (day : Nat) :
    ¬(sustain days (crossings length relation)).HoldsOn day := by
  intro h
  obtain ⟨hfull, hheld⟩ := (holdsOn_sustain (by omega)).1 h
  have hyesterday := hheld 1 (by omega)
  have htoday := hheld 0 (by omega)
  have hsucc : day - 0 = day - 1 + 1 := by omega
  rw [hsucc] at htoday
  exact not_holdsOn_crossings_succ hyesterday htoday

end Signal

/-! ### Conditions -/

namespace Comparator

/-- The crossing in the other direction. -/
def opposite : Comparator → Comparator
  | crossesAbove => crossesBelow
  | crossesBelow => crossesAbove
  | c => c

/-- The relation that begins with a crossing. -/
def strict : Comparator → Comparator
  | crossesAbove => gt
  | crossesBelow => lt
  | c => c

theorem isCrossing_strict (c : Comparator) : c.strict.isCrossing = false := by
  cases c <;> rfl

theorem isCrossing_opposite (c : Comparator) : c.opposite.isCrossing = c.isCrossing := by
  cases c <;> rfl

variable {α : Type} [Arith α] {l r : α}

theorem holds_strict (c : Comparator) : c.strict.holds (α := α) = c.holds := by
  cases c <;> rfl

/-- The relations of opposite crossings exclude each other. -/
theorem not_holds_opposite [Std.Asymm (α := α) (· < ·)] {c : Comparator}
    (hcross : c.isCrossing = true) (h : c.holds l r = true) : ¬c.opposite.holds l r = true := by
  cases c with
  | crossesAbove =>
      simp only [opposite, holds, decide_eq_true_iff] at h ⊢
      exact Std.Asymm.asymm r l h
  | crossesBelow =>
      simp only [opposite, holds, decide_eq_true_iff] at h ⊢
      exact Std.Asymm.asymm l r h
  | _ => cases hcross

end Comparator

namespace Condition

variable {α : Type} [Arith α]

/-- The condition with another comparator on the same sides, sustained or not. -/
def compared (c : Condition α) (comparator : Comparator) (sustainedDays : Option Nat) :
    Condition α :=
  { c with comparator, sustainedDays }

theorem holdsOn_relation {comparator : Comparator} {left right : Series α} {day : Nat} :
    (relation comparator left right).HoldsOn day ↔ ∃ l r,
      left[day]? = some (some l) ∧ right[day]? = some (some r) ∧ comparator.holds l r = true := by
  unfold Signal.HoldsOn relation
  rw [List.getElem?_zipWith_eq_some]
  constructor
  · rintro ⟨x, y, hx, hy, h⟩
    obtain ⟨l, rfl, h⟩ := Option.bind_eq_some_iff.1 h
    obtain ⟨r, rfl, hholds⟩ := Option.map_eq_some_iff.1 h
    exact ⟨l, r, hx, hy, hholds⟩
  · rintro ⟨l, r, hl, hr, h⟩
    exact ⟨some l, some r, hl, hr, congrArg some h⟩

theorem not_holdsOn_opposite [Std.Asymm (α := α) (· < ·)] {comparator : Comparator}
    (hcross : comparator.isCrossing = true) {left right : Series α} {day : Nat}
    (h : (relation comparator left right).HoldsOn day) :
    ¬(relation comparator.opposite left right).HoldsOn day := by
  intro hopposite
  obtain ⟨l, r, hl, hr, hholds⟩ := holdsOn_relation.1 h
  obtain ⟨l', r', hl', hr', hholds'⟩ := holdsOn_relation.1 hopposite
  obtain rfl : l = l' := Option.some.inj (Option.some.inj (hl.symm.trans hl'))
  obtain rfl : r = r' := Option.some.inj (Option.some.inj (hr.symm.trans hr'))
  exact Comparator.not_holds_opposite hcross hholds hholds'

variable {c : Condition α} {length : Nat} {left right : Series α}

theorem relation_strict (comparator : Comparator) :
    relation comparator.strict left right = relation comparator left right := by
  unfold relation
  rw [Comparator.holds_strict]

theorem signalOf_strict : (c.compared c.comparator.strict none).signalOf length left right =
    relation c.comparator left right := by
  have hplain : c.comparator.strict.isCrossing = false := c.comparator.isCrossing_strict
  simp [signalOf, compared, hplain, relation_strict]

theorem signalOf_crossing {comparator : Comparator} (hcross : comparator.isCrossing = true)
    {days : Option Nat} (hdays : ∀ n ∈ days, n ≤ 1) :
    (c.compared comparator days).signalOf length left right =
      Signal.crossings length (relation comparator left right) := by
  cases days with
  | none => simp [signalOf, compared, hcross]
  | some n =>
      have hn : ¬1 < n := Nat.not_lt.2 (hdays n rfl)
      simp [signalOf, compared, hcross, hn]

theorem signalOf_sustained {comparator : Comparator} (hcross : comparator.isCrossing = true)
    {days : Nat} (hdays : 2 ≤ days) :
    (c.compared comparator (some days)).signalOf length left right =
      Signal.sustain days (Signal.crossings length (relation comparator left right)) := by
  have hlt : 1 < days := hdays
  simp [signalOf, compared, hcross, hlt]

open Measured (Computes)

/-- With all comparators on the sides of a condition, signals are told from the same series. -/
theorem Resolves.computes (h : c.Resolves) (m : PriceMatrix α) :
    ∃ left right, ∀ comparator days, Computes m ((c.compared comparator days).signal m)
      (.ok ((c.compared comparator days).signalOf m.length left right)) := by
  obtain ⟨left, right, hsides⟩ := h.sides_ok m
  refine ⟨left, right, fun comparator days => ?_⟩
  have hdirect : (c.compared comparator days).directSignal m =
      .ok ((c.compared comparator days).signalOf m.length left right) := by
    change _ <$> c.sides m.length (Reading.directSeries m) = _
    rw [hsides]
    rfl
  rw [← hdirect]
  exact signal_computes _

/-- A crossing is a one-day event, provided that of two values at most one is less than the other,
as with floating values. Over any matrix and through any faithful cache, a crossing with valid
windows has a signal, which is an event of its strict relation, and if it has to last for two days
or more it has a signal that is never true. -/
theorem crossing_is_event [Std.Asymm (α := α) (· < ·)] (m : PriceMatrix α)
    (hc : c.Resolves) (hcross : c.comparator.isCrossing = true) :
    ∃ strict opposite events : Signal,
      Computes m ((c.compared c.comparator.strict none).signal m) (.ok strict) ∧
      Computes m ((c.compared c.comparator.opposite none).signal m) (.ok opposite) ∧
      (∀ days : Option Nat, (∀ n ∈ days, n ≤ 1) →
        Computes m ((c.compared c.comparator days).signal m) (.ok events)) ∧
      Signal.IsEvent m.length strict opposite events ∧
      ∀ days, 2 ≤ days → ∃ sustained : Signal,
        Computes m ((c.compared c.comparator (some days)).signal m) (.ok sustained) ∧
        ∀ day, ¬sustained.HoldsOn day := by
  obtain ⟨left, right, hcomputes⟩ := hc.computes m
  have hopposite : c.comparator.opposite.isCrossing = true :=
    (Comparator.isCrossing_opposite _).trans hcross
  refine ⟨relation c.comparator left right,
    .crossings m.length (relation c.comparator.opposite left right),
    .crossings m.length (relation c.comparator left right),
    ?strict, ?opposite, ?events, ?event, ?sustained⟩
  case strict =>
    rw [← signalOf_strict]
    exact hcomputes c.comparator.strict none
  case opposite =>
    have hunsustained : ∀ n ∈ (none : Option Nat), n ≤ 1 := by simp
    rw [← signalOf_crossing hopposite hunsustained]
    exact hcomputes c.comparator.opposite none
  case events =>
    intro days hdays
    rw [← signalOf_crossing hcross hdays]
    exact hcomputes c.comparator days
  case event => exact Signal.isEvent_crossings fun _ => not_holdsOn_opposite hcross
  case sustained =>
    intro days hdays
    refine ⟨_, hcomputes c.comparator (some days), ?_⟩
    rw [signalOf_sustained hcross hdays]
    exact Signal.not_holdsOn_sustain_crossings hdays

/-! ### A sample -/

/-- One ticker that is above 2 on two stretches of days. -/
def samplePeaks : PriceMatrix Binary64 where
  dates := [⟨2024, 1, 2⟩, ⟨2024, 1, 3⟩, ⟨2024, 1, 4⟩, ⟨2024, 1, 5⟩, ⟨2024, 1, 8⟩]
  prices := Table.empty.insert "SPY"
    (let xs := [some 1, some 3, some 4, some 1, some 5]; ⟨xs, xs, xs, xs, xs⟩)
  limiting := none

def sampleCross : Condition Binary64 :=
  ⟨.first, ⟨.currentPrice, 0, "SPY"⟩, .crossesAbove, .threshold 2, none⟩

/-- The price crosses 2 on the second and on the fifth day, and has fallen back in between. It
never crosses on two days. -/
theorem samplePeaks_crossed :
    (sampleCross.signal samplePeaks .empty).1 =
      .ok [none, some true, some false, some false, some true] ∧
    (∃ strict : Signal,
      Computes samplePeaks ((sampleCross.compared .gt none).signal samplePeaks) (.ok strict) ∧
      ∃ day, 1 < day ∧ day < 4 ∧ strict.FailsOn day) ∧
    ∃ sustained : Signal,
      Computes samplePeaks ((sampleCross.compared .crossesAbove (some 2)).signal samplePeaks)
        (.ok sustained) ∧
      ∀ day, ¬sustained.HoldsOn day := by
  have hresolves : sampleCross.Resolves := ⟨⟨_, rfl⟩, fun h => by cases h⟩
  obtain ⟨strict, opposite, events, hstrict, -, hevents, hevent, hsustained⟩ :=
    crossing_is_event samplePeaks hresolves rfl
  have hsignal : (sampleCross.signal samplePeaks .empty).1 =
      .ok [none, some true, some false, some false, some true] := by decide +kernel
  have hdays : events = [none, some true, some false, some false, some true] := by
    have hcomputed := (hevents none (by simp) .empty IndicatorCache.faithful_empty).1
    exact Except.ok.inj (hcomputed.symm.trans hsignal)
  refine ⟨hsignal, ⟨strict, hstrict, ?_⟩, hsustained 2 (Nat.le_refl 2)⟩
  exact hevent.apart (by decide) (hdays ▸ rfl) (hdays ▸ rfl)

end Condition
end StrategyTree
