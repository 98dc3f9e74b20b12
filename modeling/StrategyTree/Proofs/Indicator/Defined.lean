import StrategyTree.Indicator.Compute
import StrategyTree.Proofs.Indicator.Sliding
/-!
# Where indicators are defined

In exact arithmetic an indicator has a value on a day if and only if as many entries up to
that day are present as it looks back on, and the figures that it divides by are not zero.
-/
namespace StrategyTree

open ExactArith (number number? number?_eq number_add number_sub number_mul number_ofNat
  finite_ofNat finite_add finite_sub finite_mul finite_div)

namespace Series

variable {α β γ δ : Type}

/-- What two series are combined to entry by entry, missing where one of them is. -/
theorem at?_zipWith {f : Option β → Option γ → Option δ} (hleft : ∀ y, f none y = none)
    (hright : ∀ x, f x none = none) (xs : Series β) (ys : Series γ) (day : Nat) :
    at? (List.zipWith f xs ys) day = f (xs.at? day) (ys.at? day) := by
  rw [at?, at?, at?, List.getElem?_zipWith]
  cases xs[day]? with
  | none => exact (hleft _).symm
  | some x =>
      cases ys[day]? with
      | none => exact (hright _).symm
      | some y => rfl

theorem at?_delayed_one {xs : Series α} {day : Nat} (h : day + 1 < xs.length) :
    (xs.delayed 1).at? (day + 1) = xs.at? day := by
  rw [at?, getElem?_delayed, if_pos h, if_neg (by omega), Nat.add_sub_cancel, Option.join_some]

variable [Arith α]

/-- Every entry that is present is finite. -/
def AllFinite (xs : Series α) : Prop :=
  ∀ day v, xs.at? day = some v → Arith.isFinite v = true

theorem AllFinite.isSome_usable {xs : Series α} (h : xs.AllFinite) (day : Nat) :
    (at? (xs.map usable) day).isSome ↔ (xs.at? day).isSome := by
  rw [at?_map_usable, usable]
  cases hx : xs.at? day with
  | none => rfl
  | some v => simp [h day v hx]

theorem AllFinite.presentFor {xs : Series α} (h : xs.AllFinite) {k day : Nat} :
    PresentFor k day (xs.map usable) ↔ PresentFor k day xs := by
  simp only [PresentFor, h.isSome_usable]

end Series

namespace Indicator

open Machine Series Statistics

variable {α K : Type} [Arith α] [Field K] [LinearOrder K] [ExactArith α K] {n day : Nat}

/-! ### Changes -/

/-- The change over `n` days starts from the first of the last `n + 1` values. -/
theorem isSome_cumulativeChange_exact (hn : 0 < n) (xs : Series α) :
    ((cumulativeChange xs n).at? day).isSome ↔
      PresentFor (n + 1) day (xs.map usable) ∧ (xs.lastNumbers (n + 1) day).head? ≠ some 0 := by
  rw [isSome_cumulativeChange hn]
  refine and_congr_right fun hpresent => ?_
  have hlength : day < (xs.map usable).length := hpresent.lt_length n.succ_pos
  have hseen : n + 1 ≤ (xs.seenOn day).length := (presentFor_iff hlength).1 hpresent
  rw [List.length_map] at hlength
  obtain ⟨base, hmem, hbase⟩ := Window.exists_leaving n.succ_pos hseen
  have hzero := ExactArith.beq_zero_iff (finite_of_mem_seenOn hmem)
  rw [lastNumbers_eq hlength hseen, Window.rtake_eq_leaving n.succ_pos, Window.leaving_map, hbase]
  simp [← hzero]

theorem at?_dailyReturns (xs : Series α) (day : Nat) :
    (dailyReturns xs).at? day =
      (usable ((xs.delayed 1).at? day)).bind fun a => (usable (xs.at? day)).bind fun b =>
        if a == 0 then none else some (percentChange a b) :=
  at?_zipWith (fun _ => rfl)
    (fun x => by cases usable x <;> rfl) (xs.delayed 1) xs day

theorem isSome_dailyReturns (xs : Series α) (day : Nat) :
    ((dailyReturns xs).at? day).isSome ↔
      PresentFor 2 day (xs.map usable) ∧ xs.numberOn (day - 1) ≠ 0 := by
  rw [at?_dailyReturns]
  cases day with
  | zero =>
      have hfirst : (xs.delayed 1).at? 0 = none := by
        rw [at?, getElem?_delayed]
        split <;> rfl
      have hshort : ¬PresentFor 2 0 (xs.map usable) := fun h =>
        absurd (h 1 (by omega)).1 (by omega)
      simp [hfirst, hshort, usable]
  | succ day =>
      rw [presentFor_succ, presentFor_one, at?_map_usable, at?_map_usable, Nat.add_sub_cancel]
      cases hb : usable (xs.at? (day + 1)) with
      | none => simp
      | some b =>
          have hday : day + 1 < xs.length := by
            by_contra hle
            rw [at?, List.getElem?_eq_none (Nat.not_lt.1 hle)] at hb
            cases hb
          rw [at?_delayed_one hday]
          cases ha : usable (xs.at? day) with
          | none => simp
          | some a =>
              obtain ⟨hentry, hfinite⟩ := usable_eq_some.1 ha
              have hnumber : xs.numberOn day = number a := by simp [numberOn, hentry]
              have hzero := ExactArith.beq_zero_iff hfinite
              rw [hnumber]
              by_cases h : number a = 0
              · simp [h, hzero.2 h]
              · simp [h, mt hzero.1 h]

include K in
theorem allFinite_dailyReturns (xs : Series α) : (dailyReturns xs).AllFinite := by
  intro day v hv
  rw [at?_dailyReturns] at hv
  obtain ⟨a, ha, hv⟩ := Option.bind_eq_some_iff.1 hv
  obtain ⟨b, hb, hv⟩ := Option.bind_eq_some_iff.1 hv
  have hfinite := (usable_eq_some.1 ha).2
  have hzero := ExactArith.beq_zero_iff hfinite
  split at hv
  · cases hv
  · next hne =>
      obtain rfl := Option.some.inj hv
      exact finite_mul (finite_sub (finite_div (usable_eq_some.1 hb).2 hfinite (mt hzero.2 hne))
        (finite_ofNat 1)) (finite_ofNat 100)

/-- Returns divide by every value of the window but the last. -/
theorem isSome_returnDeviation (hn : 0 < n) (xs : Series α) :
    ((returnDeviation xs n).at? day).isSome ↔
      PresentFor (n + 1) day (xs.map usable) ∧
        ∀ x ∈ (xs.lastNumbers (n + 1) day).dropLast, x ≠ 0 := by
  have hdivisors (hpresent : PresentFor (n + 1) day (xs.map usable)) :
      (∀ back < n, xs.numberOn (day - back - 1) ≠ 0) ↔
        ∀ x ∈ (xs.lastNumbers (n + 1) day).dropLast, x ≠ 0 := by
    have hle : n ≤ day := (hpresent n (by omega)).1
    rw [lastNumbers, List.range_succ, List.map_append, List.map_singleton, List.dropLast_concat]
    simp only [List.forall_mem_map, List.mem_range]
    constructor
    · intro h place hplace
      have hback := h (n - 1 - place) (by omega)
      rwa [show day - (n - 1 - place) - 1 = day + 1 - (n + 1) + place by omega] at hback
    · intro h back hback
      have hplace := h (n - 1 - back) (by omega)
      rwa [show day + 1 - (n + 1) + (n - 1 - back) = day - back - 1 by omega] at hplace
  rw [returnDeviation, deviation, at?_map rfl, Option.isSome_map, isSome_rollingMoments hn,
    (allFinite_dailyReturns xs).presentFor,
    presentFor_stacked Nat.two_pos hn (isSome_dailyReturns xs), Nat.add_sub_assoc (by omega)]
  exact and_congr_right hdivisors

theorem at?_difference (xs ys : Series α) (day : Nat) :
    (difference xs ys).at? day =
      (xs.at? day).bind fun a => (ys.at? day).map fun b => a - b :=
  at?_zipWith (fun _ => rfl) (fun x => by cases x <;> rfl) xs ys day

theorem isSome_difference (xs ys : Series α) (day : Nat) :
    ((difference xs ys).at? day).isSome ↔ (xs.at? day).isSome ∧ (ys.at? day).isSome := by
  rw [at?_difference]
  cases xs.at? day <;> cases ys.at? day <;> simp

include K in
theorem allFinite_difference {xs ys : Series α} (hxs : xs.AllFinite) (hys : ys.AllFinite) :
    (difference xs ys).AllFinite := by
  intro day v hv
  rw [at?_difference] at hv
  cases hx : xs.at? day with
  | none => simp [hx] at hv
  | some a =>
      cases hy : ys.at? day with
      | none => simp [hx, hy] at hv
      | some b =>
          simp only [hx, hy, Option.bind_some, Option.map_some, Option.some.injEq] at hv
          rw [← hv]
          exact finite_sub (hxs day a hx) (hys day b hy)

variable [IsStrictOrderedRing K]

/-! ### Exponential averages -/

/-- Of finite values, the seed is finite, and so is the average once it is there. -/
def Smoothing.Finite (n : Nat) (seen : List α) (s : Smoothing α) : Prop :=
  s.run = seen.length ∧ ((∀ v ∈ seen, Arith.isFinite v = true) →
    Arith.isFinite s.seed = true ∧ (n ≤ seen.length → Arith.isFinite s.average = true))

section Finite

include K

theorem tracks_finite (hn : 0 < n) {advance : α → α → α}
    (hadvance : ∀ {a x}, Arith.isFinite a = true → Arith.isFinite x = true →
      Arith.isFinite (advance a x) = true) :
    (seededMachine n advance).Tracks (Smoothing.Finite n) where
  start := ⟨rfl, fun _ => ⟨finite_ofNat 0, fun h => absurd h (Nat.not_le.2 hn)⟩⟩
  step {seen s} x hs := by
    obtain ⟨hrun, hfinite⟩ := hs
    refine ⟨by rw [(tracks_seeded n advance).step x hrun], fun hall => ?_⟩
    obtain ⟨hseed, haverage⟩ := hfinite fun v hv => hall v (List.mem_append_left _ hv)
    have hx : Arith.isFinite x = true := hall x (by simp)
    have hgrown := finite_add hseed hx
    rw [List.length_append, List.length_singleton, ← hrun]
    rw [← hrun] at haverage
    dsimp only [seededMachine]
    split
    · next hfew => exact ⟨hgrown, fun h => absurd h (Nat.not_le.2 hfew)⟩
    · next hmany =>
        by_cases hfull : s.run + 1 = n
        · have hcount : number (Arith.ofNat n : α) ≠ 0 := by
            rw [ExactArith.number_of_eq (number_ofNat n)]
            exact Nat.cast_ne_zero.2 hn.ne'
          simp only [if_pos hfull]
          exact ⟨hgrown, fun _ => finite_div hgrown (finite_ofNat n) hcount⟩
        · simp only [if_neg hfull]
          exact ⟨hseed, fun _ => hadvance (haverage (by omega)) hx⟩

/-- Seeded averages of finite values are finite. -/
theorem allFinite_seeded (hn : 0 < n) {advance : α → α → α}
    (hadvance : ∀ {a x}, Arith.isFinite a = true → Arith.isFinite x = true →
      Arith.isFinite (advance a x) = true) (xs : Series α) :
    AllFinite ((seededMachine n advance).run (xs.map usable)) := by
  intro day y hy
  have htracks := tracks_finite hn hadvance
  obtain ⟨x, hx⟩ := exists_of_answer hy
  obtain ⟨seen, s, hs, hseen, hstep⟩ := htracks.entry hx
  obtain ⟨hrun, hfinite⟩ := htracks.step x hs
  have hlast := hstep.symm.trans hy
  have haverage := (hfinite fun v hv => finite_of_mem_seenOn (hseen ▸ hv)).2
  rw [← hrun] at haverage
  dsimp only [seededMachine] at hlast haverage
  split at hlast
  · cases hlast
  · next hmany =>
      rw [if_neg hmany] at haverage
      obtain rfl := Option.some.inj hlast
      exact haverage (Nat.not_lt.1 hmany)

theorem number_smoothingFactor (n : Nat) :
    number? (smoothingFactor n : α) = some (2 / (n + 1) : K) :=
  ExactArith.number_div (ExactArith.number_literal 2)
    (number_add (number_ofNat n) ExactArith.number_one) (Nat.cast_add_one_ne_zero n)

theorem allFinite_exponentialAverage (hn : 0 < n) (xs : Series α) :
    (exponentialAverage xs n).AllFinite := by
  rw [exponentialAverage, if_neg hn.ne']
  have hfactor : Arith.isFinite (smoothingFactor n : α) = true :=
    ExactArith.finite_iff.2 ⟨_, number_smoothingFactor n⟩
  have hrest := finite_sub (finite_ofNat 1) hfactor
  exact allFinite_seeded hn
    (fun ha hx => finite_add (finite_mul hx hfactor) (finite_mul ha hrest)) xs

/-! ### The convergence histogram -/

/-- The line of the histogram looks back as far as the longer average, and its signal over as
many days of the line. -/
theorem isSome_convergenceHistogram {fast slow signal : Nat} (hfast : 0 < fast) (hslow : 0 < slow)
    (hsignal : 0 < signal) (xs : Series α) :
    ((convergenceHistogram xs fast slow signal).at? day).isSome ↔
      PresentFor (signal + max fast slow - 1) day (xs.map usable) := by
  have hline (day : Nat) :
      ((difference (exponentialAverage xs fast) (exponentialAverage xs slow)).at? day).isSome ↔
        PresentFor (max fast slow) day (xs.map usable) := by
    rw [isSome_difference, isSome_exponentialAverage hfast, isSome_exponentialAverage hslow,
      presentFor_max]
  have hfinite := allFinite_difference (allFinite_exponentialAverage hfast xs)
    (allFinite_exponentialAverage hslow xs)
  rw [convergenceHistogram, if_neg (by omega)]
  rw [isSome_difference, hline, isSome_exponentialAverage hsignal, hfinite.presentFor,
    presentFor_comp (by omega) hsignal hline]
  constructor
  · exact fun h => h.2
  · exact fun h => ⟨h.mono (by omega), h⟩

end Finite

/-! ### Figures that are divided by -/

theorem isSome_percentDeviation (hn : 0 < n) (xs : Series α) :
    ((percentDeviation xs n).at? day).isSome ↔
      PresentFor n day (xs.map usable) ∧ mean (xs.lastNumbers n day) ≠ 0 := by
  rw [percentDeviation, at?_map rfl, ← isSome_rollingMoments hn]
  cases hm : at? (rollingMoments xs n) day with
  | none => simp
  | some m =>
      obtain ⟨hmean, -⟩ := rollingMoments_direct hm
      have hzero := ExactArith.beq_iff hmean ExactArith.number_zero
      by_cases h : mean (xs.lastNumbers n day) = 0
      · simp [h, hzero.2 h]
      · simp [h, mt hzero.1 h]

variable (α) in
/-- The bands that lie around the mean of a window. -/
def lowerBand (ws : List K) : K :=
  mean ws - (bandWidth : K) / 100 * ExactArith.root α (countedVariance ws)

variable (α) in
def upperBand (ws : List K) : K :=
  mean ws + (bandWidth : K) / 100 * ExactArith.root α (countedVariance ws)

/-- The bands differ if the upper one lies above the lower one. -/
theorem bands_differ_iff (ws : List K) :
    lowerBand α ws ≠ upperBand α ws ↔ 0 < upperBand α ws - lowerBand α ws := by
  have hwidth : (0 : K) ≤ (bandWidth : K) / 100 * ExactArith.root α (countedVariance ws) :=
    mul_nonneg (by positivity) (ExactArith.root_nonneg _)
  have hle : lowerBand α ws ≤ upperBand α ws := by
    unfold lowerBand upperBand
    linarith
  rw [sub_pos]
  exact ⟨fun h => lt_of_le_of_ne hle h, fun h => h.ne⟩

theorem isSome_bandPosition (hn : 0 < n) (xs : Series α) :
    ((bandPosition xs n bandWidth).at? day).isSome ↔
      PresentFor n day (xs.map usable) ∧
        lowerBand α (xs.lastNumbers n day) ≠ upperBand α (xs.lastNumbers n day) := by
  rw [bandPosition, at?_zipWith (fun _ => rfl) (fun x => by cases x <;> rfl),
    ← isSome_rollingMoments hn]
  cases hm : at? (rollingMoments xs n) day with
  | none => simp
  | some m =>
      obtain ⟨hmean, hdeviation⟩ := rollingMoments_direct hm
      have hpresent := (isSome_rollingMoments hn xs).1 (Option.isSome_iff_exists.2 ⟨m, hm⟩)
      have hlast := (hpresent 0 hn).2
      rw [Nat.sub_zero, at?_map_usable] at hlast
      obtain ⟨price, hprice⟩ := Option.isSome_iff_exists.1 hlast
      have hfactor : number? (Arith.ofNat bandWidth / 100 : α) = some (bandWidth / 100 : K) :=
        ExactArith.number_div (number_ofNat bandWidth) (ExactArith.number_literal 100) (by norm_num)
      have hreach := number_mul hfactor hdeviation
      have hgap := number_sub (number_add hmean hreach) (number_sub hmean hreach)
      have hpositive := ExactArith.lt_iff ExactArith.number_zero hgap
      rw [bands_differ_iff]
      simp only [hprice, Option.bind_some, Option.isSome_some, true_and]
      rw [upperBand, lowerBand, ← hpositive]
      split <;> simp_all

/-! ### The table of look-backs -/

/-- The figures of a window that an indicator divides by are not zero. -/
def Meaningful (α : Type) {K : Type} [Arith α] [Field K] [LinearOrder K] [ExactArith α K]
    (ws : List K) : Indicator → Prop
  | stdDev _ => mean ws ≠ 0
  | bollinger _ => lowerBand α ws ≠ upperBand α ws
  | cumulativeReturn _ => ws.head? ≠ some 0
  | stdDevReturn _ => ∀ x ∈ ws.dropLast, x ≠ 0
  | _ => True

/-- What an indicator needs for a value on a day. -/
def DefinedOn (p : TickerPrices α) (day : Nat) (i : Indicator) : Prop :=
  match i with
  | atr _ | adx _ => RangesFor (i.firstDefined + 1) day p.high p.low p.close
  | _ => PresentFor (i.firstDefined + 1) day (p.adjusted.map usable) ∧
      i.Meaningful α (p.adjusted.lastNumbers (i.firstDefined + 1) day)

/-- A whole number as an unsigned word of 64 bits. -/
def word? (x : Int) : Option Nat :=
  if 0 ≤ x ∧ x < 2 ^ 64 then some x.toNat else none

/-- The first day with a value, computed in words without wrapping around. -/
def firstDefined? : Indicator → Option Nat
  | price => word? 0
  | sma n | ema n | stdDev n | bollinger n | atr n | slope n => word? (n - 1)
  | rsi n | cumulativeReturn n | stdDevReturn n => word? n
  | adx n => do
      let twice ← word? (2 * n)
      word? (twice - 1)
  | macd => do
      let start ← word? (macdSlow - 1)
      let both ← word? (start + macdSignal)
      word? (both - 1)

/-- The period is one that the indicator can have, and at most `most`. -/
def PeriodWithin (most : Nat) : Indicator → Prop
  | price | macd => True
  | slope n => 2 ≤ n ∧ n ≤ most
  | sma n | ema n | rsi n | stdDev n | bollinger n | atr n | adx n | cumulativeReturn n
  | stdDevReturn n => 1 ≤ n ∧ n ≤ most

theorem periodWithin_of_resolve {metric : Metric} {window : Int} {i : Indicator}
    (h : resolve metric window = .ok i) : i.PeriodWithin window.toNat := by
  by_cases hshort : window < metric.minWindow
  · cases metric with
    | currentPrice | macdHistogram =>
        cases h
        trivial
    | _ =>
        simp only [resolve, if_pos hshort] at h
        cases h
  · cases metric with
    | currentPrice | macdHistogram =>
        cases h
        trivial
    | _ =>
        simp only [resolve, if_neg hshort] at h
        cases h
        simp only [Metric.minWindow] at hshort
        simp only [PeriodWithin]
        omega

theorem word?_eq {x : Int} {n : Nat} (h : x = n) (hn : n < 2 ^ 64) : word? x = some n := by
  rw [word?, h, if_pos (by omega), Int.toNat_natCast]

theorem firstDefined?_eq {most : Nat} {i : Indicator} (h : i.PeriodWithin most)
    (hmost : most < 2 ^ 63) : i.firstDefined? = some i.firstDefined := by
  cases i with
  | price | macd => rfl
  | adx n =>
      obtain ⟨hn, hle⟩ := h
      have htwice : word? (2 * n) = some (2 * n) := word?_eq (by omega) (by omega)
      rw [firstDefined?, htwice]
      exact word?_eq (by simp only [firstDefined]; omega) (by simp only [firstDefined]; omega)
  | rsi n | cumulativeReturn n | stdDevReturn n =>
      obtain ⟨hn, hle⟩ := h
      exact word?_eq rfl (by simp only [firstDefined]; omega)
  | _ n =>
      obtain ⟨hn, hle⟩ := h
      exact word?_eq (by simp only [firstDefined]; omega) (by simp only [firstDefined]; omega)

/-- With a period that it can have, an indicator has a value where it has what it needs. -/
theorem isSome_indicator {most : Nat} {i : Indicator} (h : i.PeriodWithin most)
    (p : TickerPrices α) (day : Nat) : ((p.indicator i).at? day).isSome ↔ i.DefinedOn p day := by
  -- the look-back in the table is the period, or one more, or twice the period
  have hperiod {n : Nat} (hn : 1 ≤ n) : n - 1 + 1 = n := Nat.sub_add_cancel hn
  have htwice {n : Nat} (hn : 1 ≤ n) : 2 * n - 1 + 1 = 2 * n := Nat.sub_add_cancel (by omega)
  cases i with
  | price =>
      simp only [TickerPrices.indicator, DefinedOn, Meaningful, firstDefined, and_true]
      exact presentFor_one.symm
  | sma n =>
      simp only [TickerPrices.indicator, DefinedOn, Meaningful, firstDefined, and_true, hperiod h.1]
      exact isSome_simpleAverage h.1 _
  | ema n =>
      simp only [TickerPrices.indicator, DefinedOn, Meaningful, firstDefined, and_true, hperiod h.1]
      exact isSome_exponentialAverage h.1 _
  | rsi n =>
      simp only [TickerPrices.indicator, DefinedOn, Meaningful, firstDefined, and_true]
      exact isSome_relativeStrength h.1 _
  | stdDev n =>
      simp only [TickerPrices.indicator, DefinedOn, Meaningful, firstDefined, hperiod h.1]
      exact isSome_percentDeviation h.1 _
  | bollinger n =>
      simp only [TickerPrices.indicator, DefinedOn, Meaningful, firstDefined, hperiod h.1]
      exact isSome_bandPosition h.1 _
  | atr n =>
      simp only [TickerPrices.indicator, DefinedOn, firstDefined, hperiod h.1]
      exact isSome_averageTrueRange h.1 _ _ _
  | adx n =>
      simp only [TickerPrices.indicator, DefinedOn, firstDefined, htwice h.1]
      exact isSome_averageDirection h.1 _ _ _
  | macd =>
      simp only [TickerPrices.indicator, DefinedOn, Meaningful, firstDefined, and_true]
      exact isSome_convergenceHistogram (by decide) (by decide) (by decide) _
  | slope n =>
      simp only [TickerPrices.indicator, DefinedOn, Meaningful, firstDefined, and_true,
        hperiod (Nat.le_of_succ_le h.1)]
      exact isSome_lineSlope h.1 _
  | cumulativeReturn n =>
      simp only [TickerPrices.indicator, DefinedOn, Meaningful, firstDefined]
      exact isSome_cumulativeChange_exact h.1 _
  | stdDevReturn n =>
      simp only [TickerPrices.indicator, DefinedOn, Meaningful, firstDefined]
      exact isSome_returnDeviation h.1 _

end Indicator

namespace TickerPrices

open Indicator

variable {α K : Type} [Arith α] [Field K] [LinearOrder K] [IsStrictOrderedRing K] [ExactArith α K]

/-- An indicator that a metric resolves to is as long as the prices, has a value exactly on the
days on which its look-back is complete and it divides by no zero, and computes the look-back
from a window of 63 bits in words that do not wrap around. -/
theorem indicator_definedness {metric : Metric} {window : Int} {i : Indicator}
    (h : resolve metric window = .ok i) {p : TickerPrices α} {length : Nat}
    (hp : p.Spans length) :
    (p.indicator i).length = length ∧
      (∀ day, ((p.indicator i).at? day).isSome ↔ i.DefinedOn p day) ∧
      (window < 2 ^ 63 → i.firstDefined? = some i.firstDefined) := by
  have hperiod := periodWithin_of_resolve h
  refine ⟨hp.length_indicator i, isSome_indicator hperiod p, fun hwindow => ?_⟩
  exact firstDefined?_eq hperiod (by omega)

/-- A price of zero, a value that is not a number, and three prices after it. -/
def sampleListing : TickerPrices (Extended Rat.toNNRat fun base _ => base) where
  opening := [some 1, some 4, some 2, some 2, some 1, some 2, some 3]
  high := [some 1, some 4, some 2, some 2, some 1, some 2, some 3]
  low := [some 1, some 4, some 2, some 2, some 1, some 2, some 3]
  close := [some 1, some 4, some 2, some 2, some 1, some 2, some 3]
  adjusted := [some 0, some 4, some 2, some .undefined, some 1, some 2, some 3]

theorem sampleListing_defined :
    resolve .cumulativeReturn 2 = .ok (.cumulativeReturn 2) ∧ sampleListing.Spans 7 ∧
      (2 : Int) < 2 ^ 63 ∧ (Indicator.cumulativeReturn 2).DefinedOn sampleListing 6 ∧
      ¬(Indicator.cumulativeReturn 2).DefinedOn sampleListing 2 ∧
      (Indicator.cumulativeReturn 2).firstDefined? = some 2 := by
  have h : resolve .cumulativeReturn 2 = .ok (.cumulativeReturn 2) := rfl
  have hspans : sampleListing.Spans 7 := ⟨rfl, rfl, rfl, rfl, rfl⟩
  have hwindow : (2 : Int) < 2 ^ 63 := by decide
  obtain ⟨-, hdefined, hfirst⟩ := indicator_definedness h hspans
  have hvalues : ((sampleListing.indicator (.cumulativeReturn 2)).at? 6).isSome ∧
      ¬((sampleListing.indicator (.cumulativeReturn 2)).at? 2).isSome := by decide +kernel
  exact ⟨h, hspans, hwindow, (hdefined 6).1 hvalues.1, mt (hdefined 2).2 hvalues.2, hfirst hwindow⟩

end TickerPrices
end StrategyTree
