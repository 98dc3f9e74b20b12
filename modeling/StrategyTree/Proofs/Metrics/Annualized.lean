import Mathlib.Algebra.Order.Field.Basic
import StrategyTree.Metrics
import StrategyTree.Proofs.FieldArith
/-!
# Annualized returns

The annualized return is that of a year whose growth compounds to the growth of the curve. A curve
that ends at or below zero has none, and it counts as zero. So of two curves over the same days
the one that ends lower has no higher annualized return, except that a total loss ranks above a
loss in part.
-/
namespace StrategyTree

open FieldArith

/-- What is known of powers with positive exponents. -/
structure Arith.PowMonotone (α : Type) [Arith α] : Prop where
  mono {x y e : α} : 0 < e → 0 ≤ x → x ≤ y → Arith.pow x e ≤ Arith.pow y e
  zero {e : α} : 0 < e → Arith.pow 0 e = 0
  one {e : α} : 0 < e → Arith.pow 1 e = 1

namespace Metrics

/-- The exponent that makes the growth of a year from that of some days. -/
def yearly {α : Type} [Arith α] (days : Nat) : α :=
  Arith.reciprocal (Arith.ofNat days / tradingDaysPerYear)

variable {α K : Type} [Arith α] [Field K] [LinearOrder K] [FieldArith α K]
  {days : Nat} {total initial last : α} {equity : List α}

omit [Arith α] in
theorem length_pos_of_last (hlast : equity.getLast? = some last) : 0 < equity.length :=
  List.length_pos_of_mem (List.mem_of_getLast? hlast)

omit [Arith α] in
/-- A curve that stays at the capital. -/
theorem getLast?_flat (hlast : equity.getLast? = some last) :
    (equity.map fun _ => initial).getLast? = some initial := by
  rw [List.getLast?_map, hlast]
  rfl

/-- The growth of a curve is what its last point is of the capital. -/
theorem number_growth (hinitial : 0 < initial) (hlast : equity.getLast? = some last) :
    number (1 + totalReturnOf initial equity) = number last / number initial := by
  simp only [totalReturnOf, hlast, if_pos hinitial]
  rw [number_add, number_sub, number_div, number_one, add_sub_cancel]

section Annualized
variable [IsStrictOrderedRing K]

include K

theorem years_pos (hdays : 0 < days) : 0 < (Arith.ofNat days / tradingDaysPerYear : α) := by
  have hyear : number (tradingDaysPerYear : α) = 252 := number_ofNat 252
  have hcount : (0 : K) < days := Nat.cast_pos.2 hdays
  rw [pos_iff, number_div, number_ofNat, hyear]
  exact div_pos hcount (by norm_num)

theorem yearly_pos (hdays : 0 < days) : 0 < (yearly days : α) := by
  rw [yearly, Arith.reciprocal, pos_iff, number_div, number_one]
  exact one_div_pos.2 (pos_iff.1 (years_pos hdays))

omit [IsStrictOrderedRing K] in
theorem neg_one_lt_iff : -1 < total ↔ -1 < number total := by
  rw [lt_iff, number_neg, number_one]

theorem annualized_of_pos (hdays : 0 < days) (h : 0 < 1 + total) :
    annualized total days = Arith.pow (1 + total) (yearly days) - 1 := by
  have hyears : 0 < (Arith.ofNat days / tradingDaysPerYear : α) := years_pos hdays
  have hpart : -1 < total := by
    rw [pos_iff, number_add, number_one] at h
    rw [neg_one_lt_iff]
    linarith
  unfold annualized
  simp only [hyears, finite, hpart, decide_true, Bool.and_self, if_true]
  rfl

theorem annualized_of_nonpos (h : 1 + total ≤ 0) : annualized total days = 0 := by
  have hlost : ¬-1 < total := by
    rw [nonpos_iff, number_add, number_one] at h
    rw [neg_one_lt_iff]
    linarith
  unfold annualized
  simp only [hlost, decide_false, Bool.and_false, Bool.false_eq_true, if_false]

/-- The annualized return of a curve that ends above zero. -/
theorem annualizedReturn_of_pos (hinitial : 0 < initial) (hlast : equity.getLast? = some last)
    (h : 0 < last) (weights : List (Allocation α)) (rate : α) :
    (compute initial equity weights rate).annualizedReturn =
      Arith.pow (1 + totalReturnOf initial equity) (yearly equity.length) - 1 := by
  have hgrowth : 0 < 1 + totalReturnOf initial equity := by
    rw [pos_iff, number_growth hinitial hlast]
    exact div_pos (pos_iff.1 h) (pos_iff.1 hinitial)
  exact annualized_of_pos (length_pos_of_last hlast) hgrowth

/-- A curve that ends at or below zero has no annualized return. -/
theorem annualizedReturn_of_nonpos (hinitial : 0 < initial) (hlast : equity.getLast? = some last)
    (h : last ≤ 0) (weights : List (Allocation α)) (rate : α) :
    (compute initial equity weights rate).annualizedReturn = 0 := by
  have hgrowth : 1 + totalReturnOf initial equity ≤ 0 := by
    rw [nonpos_iff, number_growth hinitial hlast]
    exact div_nonpos_of_nonpos_of_nonneg (nonpos_iff.1 h) (pos_iff.1 hinitial).le
  exact annualized_of_nonpos hgrowth

variable {low high : α} {lower higher : List α}

/-- Of two curves over the same days that end above zero the one that ends lower has no higher
annualized return. -/
theorem annualizedReturn_mono (hpow : Arith.PowMonotone α) (hinitial : 0 < initial)
    (hdays : lower.length = higher.length) (hlow : lower.getLast? = some low)
    (hhigh : higher.getLast? = some high) (hle : low ≤ high) (hpos : 0 < low)
    (weights weights' : List (Allocation α)) (rate rate' : α) :
    (compute initial lower weights rate).annualizedReturn ≤
      (compute initial higher weights' rate').annualizedReturn := by
  have hhighPos : 0 < high := pos_iff.2 ((pos_iff.1 hpos).trans_le (le_iff.1 hle))
  have hnonneg : 0 ≤ 1 + totalReturnOf initial lower := by
    rw [le_iff, number_zero, number_growth hinitial hlow]
    exact div_nonneg (pos_iff.1 hpos).le (pos_iff.1 hinitial).le
  have hgrowth : 1 + totalReturnOf initial lower ≤ 1 + totalReturnOf initial higher := by
    rw [le_iff, number_growth hinitial hlow, number_growth hinitial hhigh]
    exact div_le_div_of_nonneg_right (le_iff.1 hle) (pos_iff.1 hinitial).le
  have hyear := hpow.mono (yearly_pos (length_pos_of_last hlow)) hnonneg hgrowth
  rw [annualizedReturn_of_pos hinitial hlow hpos,
    annualizedReturn_of_pos hinitial hhigh hhighPos, ← hdays, le_iff, number_sub, number_sub]
  exact sub_le_sub_right (le_iff.1 hyear) _

theorem annualizedReturn_flat (hpow : Arith.PowMonotone α) (hinitial : 0 < initial)
    (hlast : equity.getLast? = some initial) (weights : List (Allocation α)) (rate : α) :
    (compute initial equity weights rate).annualizedReturn = 0 := by
  have hgrowth : 1 + totalReturnOf initial equity = 1 := by
    apply number_injective
    rw [number_growth hinitial hlast, div_self (pos_iff.1 hinitial).ne', number_one]
  rw [annualizedReturn_of_pos hinitial hlast hinitial, hgrowth,
    hpow.one (yearly_pos (length_pos_of_last hlast))]
  apply number_injective
  rw [number_sub, number_one, number_zero, sub_self]

/-- A curve that does not end below the capital has no negative annualized return. -/
theorem annualizedReturn_nonneg (hpow : Arith.PowMonotone α) (hinitial : 0 < initial)
    (hlast : equity.getLast? = some last) (hle : initial ≤ last) (weights : List (Allocation α))
    (rate : α) : 0 ≤ (compute initial equity weights rate).annualizedReturn := by
  have hflat : (equity.map fun _ => initial).getLast? = some initial := getLast?_flat hlast
  rw [← annualizedReturn_flat hpow hinitial hflat weights rate]
  exact annualizedReturn_mono hpow hinitial (List.length_map _) hflat hlast hle hinitial ..

/-- A loss in part has no positive annualized return. -/
theorem annualizedReturn_nonpos (hpow : Arith.PowMonotone α) (hinitial : 0 < initial)
    (hlast : equity.getLast? = some last) (hpos : 0 < last) (hle : last ≤ initial)
    (weights : List (Allocation α)) (rate : α) :
    (compute initial equity weights rate).annualizedReturn ≤ 0 := by
  have hflat : (equity.map fun _ => initial).getLast? = some initial := getLast?_flat hlast
  rw [← annualizedReturn_flat hpow hinitial hflat weights rate]
  exact annualizedReturn_mono hpow hinitial (List.length_map _).symm hlast hflat hle hpos ..

end Annualized

/-- Of two curves over the same days the one that ends lower has no higher annualized return,
unless it is a total loss and the other one is a loss in part. The annualized return of a total
loss is zero, and that of a loss in part is at most zero. -/
theorem annualizedReturn_ranks [IsStrictOrderedRing K] (hpow : Arith.PowMonotone α)
    {initial : α} (hinitial : 0 < initial) {lower higher : List α}
    (hdays : lower.length = higher.length) {low high : α} (hlow : lower.getLast? = some low)
    (hhigh : higher.getLast? = some high) (hle : low ≤ high)
    (weights weights' : List (Allocation α)) (rate rate' : α) :
    (0 < low ∨ high ≤ 0 ∨ initial ≤ high →
      (compute initial lower weights rate).annualizedReturn ≤
        (compute initial higher weights' rate').annualizedReturn) ∧
    (low ≤ 0 → (compute initial lower weights rate).annualizedReturn = 0 ∧
      (0 < high → high ≤ initial →
        (compute initial higher weights' rate').annualizedReturn ≤ 0)) := by
  refine ⟨fun hends => ?_, fun hlost => ⟨annualizedReturn_of_nonpos hinitial hlow hlost .., ?_⟩⟩
  · by_cases hpos : 0 < low
    · exact annualizedReturn_mono hpow hinitial hdays hlow hhigh hle hpos ..
    · have hlost : low ≤ 0 := by
        rwa [nonpos_iff, ← not_lt, ← pos_iff]
      rw [annualizedReturn_of_nonpos hinitial hlow hlost]
      rcases hends.resolve_left hpos with hlost' | hgain
      · rw [annualizedReturn_of_nonpos hinitial hhigh hlost', le_iff]
      · exact annualizedReturn_nonneg hpow hinitial hhigh hgain ..
  · exact fun hpos hpart => annualizedReturn_nonpos hpow hinitial hhigh hpos hpart ..

/-! ### Total losses -/

theorem powMonotone_real : Arith.PowMonotone RealNumber where
  mono he hx hxy := by
    rw [le_iff, number_zero] at hx
    exact Real.rpow_le_rpow hx hxy (pos_iff.1 he).le
  zero {e} he := by
    apply number_injective
    change number (0 : RealNumber) ^ number e = number (0 : RealNumber)
    rw [number_zero, Real.zero_rpow (pos_iff.1 he).ne']
  one {e} he := by
    apply number_injective
    change number (1 : RealNumber) ^ number e = number (1 : RealNumber)
    rw [number_one, Real.one_rpow]

/-- Of 100 nothing is left in the one curve. The other one ends with a gain. -/
theorem sampleLoss_ranks :
    (compute 100 [90, 0] [] 0).annualizedReturn = (0 : RealNumber) ∧
      (compute 100 [90, 0] [] 0).annualizedReturn ≤
        (compute (100 : RealNumber) [10, 120] [] 0).annualizedReturn := by
  have hnumber (n : Nat) : number (OfNat.ofNat n : RealNumber) = n := number_ofNat n
  have hcapital : (0 : RealNumber) < 100 := by norm_num [pos_iff, hnumber]
  have hdays : ([90, 0] : List RealNumber).length = ([10, 120] : List RealNumber).length := rfl
  have hlow : ([90, 0] : List RealNumber).getLast? = some 0 := rfl
  have hhigh : ([10, 120] : List RealNumber).getLast? = some 120 := rfl
  have hgain : (100 : RealNumber) ≤ 120 := by norm_num [le_iff, hnumber]
  obtain ⟨hkept, hlost⟩ := annualizedReturn_ranks powMonotone_real hcapital hdays hlow hhigh
    (by norm_num [le_iff, hnumber]) [] [] 0 0
  exact ⟨(hlost (le_iff.2 le_rfl)).1, hkept (.inr (.inr hgain))⟩

/-- Of 100 nothing is left in the one curve and half in the other, which has the lower annualized
return. -/
theorem total_loss_above_loss :
    Arith.PowMonotone RealNumber ∧ (0 : RealNumber) < 100 ∧ (0 : RealNumber) ≤ 50 ∧
      ¬(compute 100 [0] [] 0).annualizedReturn ≤
        (compute (100 : RealNumber) [50] [] 0).annualizedReturn := by
  have hnumber (n : Nat) : number (OfNat.ofNat n : RealNumber) = n := number_ofNat n
  have hcapital : (0 : RealNumber) < 100 := by norm_num [pos_iff, hnumber]
  have hhalf : (0 : RealNumber) < 50 := by norm_num [pos_iff, hnumber]
  have hnone : (0 : RealNumber) ≤ 0 := le_iff.2 (le_refl _)
  refine ⟨powMonotone_real, hcapital, by norm_num [le_iff, hnumber], ?_⟩
  rw [annualizedReturn_of_nonpos hcapital rfl hnone, annualizedReturn_of_pos hcapital rfl hhalf,
    le_iff, number_zero, number_sub, number_one, not_le, sub_neg]
  change number (1 + totalReturnOf (100 : RealNumber) [50]) ^ number (yearly 1 : RealNumber) < 1
  rw [number_growth hcapital rfl]
  exact Real.rpow_lt_one (by norm_num [hnumber]) (by norm_num [hnumber])
    (pos_iff.1 (yearly_pos Nat.one_pos))

end Metrics
end StrategyTree
