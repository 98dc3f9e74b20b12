import StrategyTree.Indicator.Cache
/-!
# Lengths of series

Every indicator has as many entries as the series that it reads, so on an aligned
matrix every series has one entry for each date.
-/
namespace StrategyTree

variable {α : Type}

/-- All five series of a ticker have this length. -/
structure TickerPrices.Spans (p : TickerPrices α) (length : Nat) : Prop where
  opening : p.opening.length = length
  high : p.high.length = length
  low : p.low.length = length
  close : p.close.length = length
  adjusted : p.adjusted.length = length

/-- The series of every ticker are as long as the dates. -/
def PriceMatrix.Aligned (m : PriceMatrix α) : Prop :=
  ∀ ticker p, m.prices.get? ticker = some p → p.Spans m.dates.length

namespace Series

@[simp] theorem length_undefined (n : Nat) : (undefined n : Series α).length = n :=
  List.length_replicate

@[simp] theorem length_delayed (lag : Nat) (xs : Series α) :
    (xs.delayed lag).length = xs.length := by
  simp only [delayed, List.length_append, List.length_replicate, List.length_take]
  omega

/-- The entry of a delayed series is the one `lag` days earlier. -/
theorem getElem?_delayed (lag day : Nat) (xs : Series α) : (xs.delayed lag)[day]? =
    if day < xs.length then some (if day < lag then none else xs.at? (day - lag)) else none := by
  unfold delayed
  rw [List.getElem?_append, List.length_replicate]
  by_cases hlen : day < xs.length
  · rw [if_pos hlen]
    by_cases hlag : day < lag
    · rw [if_pos hlag, if_pos (by omega), List.getElem?_replicate, if_pos (by omega)]
    · have hmin : min lag xs.length = lag := by omega
      have hday : day - lag < xs.length := by omega
      rw [if_neg hlag, if_neg (by omega), hmin, List.getElem?_take, if_pos (by omega), at?,
        List.getElem?_eq_getElem hday]
      rfl
  · rw [if_neg hlen, if_neg (by omega), List.getElem?_take, if_neg (by omega)]

end Series

variable [Arith α]

namespace Indicator

@[simp] theorem length_withLeaving (n : Nat) (xs : Series α) :
    (withLeaving n xs).length = xs.length := by
  simp [withLeaving]

@[simp] theorem length_simpleAverage (xs : Series α) (n : Nat) :
    (simpleAverage xs n).length = xs.length := by
  unfold simpleAverage
  split <;> simp

@[simp] theorem length_exponentialAverage (xs : Series α) (n : Nat) :
    (exponentialAverage xs n).length = xs.length := by
  unfold exponentialAverage
  split <;> simp

@[simp] theorem length_difference (xs ys : Series α) :
    (difference xs ys).length = min xs.length ys.length := by
  simp [difference]

@[simp] theorem length_convergenceHistogram (xs : Series α) (fast slow signal : Nat) :
    (convergenceHistogram xs fast slow signal).length = xs.length := by
  unfold convergenceHistogram
  split <;> simp

@[simp] theorem length_relativeStrength (xs : Series α) (n : Nat) :
    (relativeStrength xs n).length = xs.length := by
  unfold relativeStrength
  split <;> simp

theorem length_ranges {hs ls cs : Series α} (hh : hs.length = cs.length)
    (hl : ls.length = cs.length) : (ranges hs ls cs).length = cs.length := by
  induction cs generalizing hs ls with
  | nil =>
      obtain rfl := List.length_eq_zero_iff.1 hh
      rfl
  | cons c cs ih =>
      obtain ⟨h, hs, rfl⟩ := List.exists_cons_of_length_eq_add_one hh
      obtain ⟨l, ls, rfl⟩ := List.exists_cons_of_length_eq_add_one hl
      rw [ranges, List.length_cons, List.length_cons,
        ih (Nat.succ.inj hh) (Nat.succ.inj hl)]

theorem length_averageTrueRange {high low close : Series α} (hh : high.length = close.length)
    (hl : low.length = close.length) (n : Nat) :
    (averageTrueRange high low close n).length = close.length := by
  unfold averageTrueRange
  split
  · exact Series.length_undefined _
  · rw [Machine.length_run, Machine.length_run, length_ranges hh hl]

theorem length_averageDirection {high low close : Series α} (hh : high.length = close.length)
    (hl : low.length = close.length) (n : Nat) :
    (averageDirection high low close n).length = close.length := by
  unfold averageDirection
  split
  · exact Series.length_undefined _
  · rw [Machine.length_run, length_ranges hh hl]

@[simp] theorem length_rollingMoments (xs : Series α) (n : Nat) :
    (rollingMoments xs n).length = xs.length := by
  unfold rollingMoments
  split <;> simp

@[simp] theorem length_deviation (xs : Series α) (n : Nat) :
    (deviation xs n).length = xs.length := by
  simp [deviation]

@[simp] theorem length_percentDeviation (xs : Series α) (n : Nat) :
    (percentDeviation xs n).length = xs.length := by
  simp [percentDeviation]

@[simp] theorem length_bandPosition (xs : Series α) (n width : Nat) :
    (bandPosition xs n width).length = xs.length := by
  simp [bandPosition]

@[simp] theorem length_lineSlope (xs : Series α) (n : Nat) :
    (lineSlope xs n).length = xs.length := by
  unfold lineSlope
  split <;> simp

@[simp] theorem length_dailyReturns (xs : Series α) : (dailyReturns xs).length = xs.length := by
  simp [dailyReturns]

@[simp] theorem length_cumulativeChange (xs : Series α) (n : Nat) :
    (cumulativeChange xs n).length = xs.length := by
  unfold cumulativeChange
  split <;> simp

@[simp] theorem length_returnDeviation (xs : Series α) (n : Nat) :
    (returnDeviation xs n).length = xs.length := by
  simp [returnDeviation]

end Indicator

theorem TickerPrices.Spans.length_indicator {p : TickerPrices α} {length : Nat}
    (h : p.Spans length) (i : Indicator) : (p.indicator i).length = length := by
  have hh : p.high.length = p.close.length := h.high.trans h.close.symm
  have hl : p.low.length = p.close.length := h.low.trans h.close.symm
  cases i with
  | atr n => exact (Indicator.length_averageTrueRange hh hl n).trans h.close
  | adx n => exact (Indicator.length_averageDirection hh hl n).trans h.close
  | _ => simp [indicator, h.adjusted]

/-- On an aligned matrix an indicator has one entry a date, also for an unknown ticker. -/
theorem PriceMatrix.Aligned.length_indicator {m : PriceMatrix α} (h : m.Aligned)
    (ticker : String) (i : Indicator) : (m.indicator ticker i).length = m.length := by
  unfold PriceMatrix.indicator
  split
  · next p hp => exact (h ticker p hp).length_indicator i
  · exact Series.length_undefined _

end StrategyTree
