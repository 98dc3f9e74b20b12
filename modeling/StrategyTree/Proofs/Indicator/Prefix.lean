import StrategyTree.Indicator.Cache
import StrategyTree.Proofs.Indicator.Length
import StrategyTree.Proofs.Table
/-!
# Prefixes of series

The entry of an indicator on a day depends on the days up to it only: what an
indicator makes of the first `k` days is the first `k` days of what it makes of all.
-/
namespace StrategyTree

variable {α : Type}

namespace Machine

variable {σ ι ο : Type}

theorem runFrom_take (M : Machine σ ι ο) (s : σ) (k : Nat) (xs : List (Option ι)) :
    M.runFrom s (xs.take k) = (M.runFrom s xs).take k := by
  induction xs generalizing s k with
  | nil => simp [runFrom]
  | cons x rest ih =>
      cases k with
      | zero => simp [runFrom]
      | succ k => cases x <;> simp [runFrom, ih]

theorem run_take (M : Machine σ ι ο) (k : Nat) (xs : List (Option ι)) :
    M.run (xs.take k) = (M.run xs).take k :=
  M.runFrom_take M.start k xs

end Machine

namespace Series

theorem undefined_take (n k : Nat) :
    (undefined (min k n) : Series α) = (undefined n).take k := by
  simp [undefined]

theorem at?_take {k day : Nat} (h : day < k) (xs : Series α) : at? (xs.take k) day = xs.at? day := by
  rw [at?, at?, List.getElem?_take, if_pos h]

theorem delayed_take (lag k : Nat) (xs : Series α) :
    delayed lag (xs.take k) = (delayed lag xs).take k := by
  refine List.ext_getElem? fun day => ?_
  rw [List.getElem?_take, getElem?_delayed, getElem?_delayed, List.length_take]
  by_cases hk : day < k
  · by_cases hday : day < xs.length
    · rw [if_pos (by omega), if_pos hk, if_pos hday, at?_take (by omega)]
    · rw [if_neg (by omega), if_pos hk, if_neg hday]
  · rw [if_neg (by omega), if_neg hk]

end Series

def TickerPrices.take (p : TickerPrices α) (k : Nat) : TickerPrices α :=
  ⟨p.opening.take k, p.high.take k, p.low.take k, p.close.take k, p.adjusted.take k⟩

def PriceMatrix.take (m : PriceMatrix α) (k : Nat) : PriceMatrix α :=
  ⟨m.dates.take k, m.prices.map fun _ p => p.take k, m.limiting⟩

theorem PriceMatrix.length_take (m : PriceMatrix α) (k : Nat) :
    (m.take k).length = min k m.length :=
  List.length_take

variable [Arith α]

namespace Indicator

variable (k n : Nat) (xs : Series α)

theorem withLeaving_take : withLeaving n (xs.take k) = (withLeaving n xs).take k := by
  rw [withLeaving, withLeaving, Series.delayed_take, List.take_zipWith]

theorem simpleAverage_take : simpleAverage (xs.take k) n = (simpleAverage xs n).take k := by
  unfold simpleAverage
  rw [List.length_take, Series.undefined_take, withLeaving_take, Machine.run_take]
  split <;> rfl

theorem exponentialAverage_take :
    exponentialAverage (xs.take k) n = (exponentialAverage xs n).take k := by
  unfold exponentialAverage
  rw [List.length_take, Series.undefined_take, List.map_take]
  split
  · rfl
  · exact Machine.run_take _ k _

theorem difference_take (ys : Series α) :
    difference (xs.take k) (ys.take k) = (difference xs ys).take k :=
  List.take_zipWith.symm

theorem convergenceHistogram_take (fast slow signal : Nat) :
    convergenceHistogram (xs.take k) fast slow signal =
      (convergenceHistogram xs fast slow signal).take k := by
  unfold convergenceHistogram
  simp only [exponentialAverage_take, difference_take, List.length_take, Series.undefined_take]
  split <;> rfl

theorem relativeStrength_take :
    relativeStrength (xs.take k) n = (relativeStrength xs n).take k := by
  unfold relativeStrength
  rw [List.length_take, Series.undefined_take, List.map_take, Machine.run_take]
  split <;> rfl

theorem ranges_take (hs ls cs : Series α) :
    ranges (hs.take k) (ls.take k) (cs.take k) = (ranges hs ls cs).take k := by
  induction k generalizing hs ls cs with
  | zero => simp [ranges]
  | succ k ih =>
      cases hs <;> cases ls <;> cases cs <;> simp [ranges, ih]

theorem averageTrueRange_take (high low close : Series α) :
    averageTrueRange (high.take k) (low.take k) (close.take k) n =
      (averageTrueRange high low close n).take k := by
  unfold averageTrueRange
  rw [List.length_take, Series.undefined_take, ranges_take, Machine.run_take, Machine.run_take]
  split <;> rfl

theorem averageDirection_take (high low close : Series α) :
    averageDirection (high.take k) (low.take k) (close.take k) n =
      (averageDirection high low close n).take k := by
  unfold averageDirection
  rw [List.length_take, Series.undefined_take, ranges_take, Machine.run_take]
  split <;> rfl

theorem rollingMoments_take : rollingMoments (xs.take k) n = (rollingMoments xs n).take k := by
  unfold rollingMoments
  rw [withLeaving_take, Machine.run_take]
  split
  · simp
  · rfl

theorem deviation_take : deviation (xs.take k) n = (deviation xs n).take k := by
  rw [deviation, deviation, rollingMoments_take, List.map_take]

theorem percentDeviation_take :
    percentDeviation (xs.take k) n = (percentDeviation xs n).take k := by
  rw [percentDeviation, percentDeviation, rollingMoments_take, List.map_take]

theorem bandPosition_take (width : Nat) :
    bandPosition (xs.take k) n width = (bandPosition xs n width).take k := by
  simp only [bandPosition, rollingMoments_take, List.take_zipWith]

theorem lineSlope_take : lineSlope (xs.take k) n = (lineSlope xs n).take k := by
  unfold lineSlope
  rw [List.length_take, Series.undefined_take, withLeaving_take, Machine.run_take]
  split <;> rfl

theorem dailyReturns_take : dailyReturns (xs.take k) = (dailyReturns xs).take k := by
  rw [dailyReturns, dailyReturns, Series.delayed_take, List.take_zipWith]

theorem cumulativeChange_take :
    cumulativeChange (xs.take k) n = (cumulativeChange xs n).take k := by
  unfold cumulativeChange
  rw [List.length_take, Series.undefined_take, withLeaving_take, Machine.run_take]
  split <;> rfl

theorem returnDeviation_take : returnDeviation (xs.take k) n = (returnDeviation xs n).take k := by
  rw [returnDeviation, returnDeviation, dailyReturns_take, deviation_take]

end Indicator

/-- No indicator of a ticker looks ahead. -/
theorem TickerPrices.indicator_take (p : TickerPrices α) (k : Nat) (i : Indicator) :
    (p.take k).indicator i = (p.indicator i).take k := by
  cases i with
  | price => exact List.map_take
  | sma n => exact Indicator.simpleAverage_take k n p.adjusted
  | ema n => exact Indicator.exponentialAverage_take k n p.adjusted
  | rsi n => exact Indicator.relativeStrength_take k n p.adjusted
  | stdDev n => exact Indicator.percentDeviation_take k n p.adjusted
  | bollinger n => exact Indicator.bandPosition_take k n p.adjusted _
  | atr n => exact Indicator.averageTrueRange_take k n p.high p.low p.close
  | adx n => exact Indicator.averageDirection_take k n p.high p.low p.close
  | macd => exact Indicator.convergenceHistogram_take k p.adjusted _ _ _
  | slope n => exact Indicator.lineSlope_take k n p.adjusted
  | cumulativeReturn n => exact Indicator.cumulativeChange_take k n p.adjusted
  | stdDevReturn n => exact Indicator.returnDeviation_take k n p.adjusted

/-- No indicator of a matrix looks ahead. -/
theorem PriceMatrix.indicator_take (m : PriceMatrix α) (k : Nat) (ticker : String) (i : Indicator) :
    (m.take k).indicator ticker i = (m.indicator ticker i).take k := by
  unfold PriceMatrix.indicator
  rw [PriceMatrix.length_take]
  simp only [PriceMatrix.take, Table.get?_map]
  cases m.prices.get? ticker with
  | some p => exact p.indicator_take k i
  | none => exact Series.undefined_take m.length k

end StrategyTree
