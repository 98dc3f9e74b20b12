import Mathlib.Algebra.BigOperators.Group.List.Basic
import StrategyTree.Evaluation.Day
import StrategyTree.Proofs.Allocation
import StrategyTree.Proofs.Strategy.Validation
/-!
# Bounded slots

The shares of a slot are not negative and sum to one, so bounded children spread
to a bounded allocation, and what a lawful weighting does to it keeps it bounded.
-/
namespace StrategyTree

variable {sqrt : ℚ → ℚ≥0} {pow : ℚ → ℚ → ℚ}

/-- The shares of a branch lie between zero and one. -/
theorem IsShare.mem_unit {x : Exact sqrt pow} (h : IsShare x) : 0 ≤ x.value ∧ x.value ≤ 1 := by
  cases h with
  | whole b => cases b <;> simp [shareOf]
  | scaled lower upper value =>
      obtain ⟨h₀, h₁⟩ := Exact.clampUnit_mem ((value - lower) / (upper - lower))
      rw [scaledShare, Exact.value_sub, Exact.value_one]
      constructor <;> linarith

namespace Weighting

/-- Shares that a slot can give. -/
structure Fair (shares : List (Exact sqrt pow)) : Prop where
  nonneg : ∀ x ∈ shares, 0 ≤ x.value
  sum_eq : (shares.map Exact.value).sum = 1

theorem fair_equal {n : Nat} (hn : 0 < n) :
    Fair (List.replicate n (1 / Arith.ofNat n : Exact sqrt pow)) := by
  have hn' : (0 : ℚ) < n := Nat.cast_pos.2 hn
  constructor
  · intro x hx
    rw [List.eq_of_mem_replicate hx, Exact.value_div, Exact.value_ofNat]
    exact div_nonneg zero_le_one hn'.le
  · rw [List.map_replicate, List.sum_replicate, nsmul_eq_mul, Exact.value_div, Exact.value_one,
      Exact.value_ofNat, mul_one_div_cancel hn'.ne']

theorem fair_proportional {raw : List (Exact sqrt pow)} (hraw : ∀ x ∈ raw, 0 ≤ x.value)
    (hsum : 0 < Arith.sum raw) : Fair (raw.map (· / Arith.sum raw)) := by
  have hsum : 0 < (Arith.sum raw).value := hsum
  have hdiv (xs : List (Exact sqrt pow)) (c : Exact sqrt pow) :
      ((xs.map (· / c)).map Exact.value).sum = (xs.map Exact.value).sum / c.value := by
    induction xs with
    | nil => simp
    | cons x rest ih => simp only [List.map_cons, List.sum_cons, ih, Exact.value_div, add_div]
  constructor
  · intro x hx
    obtain ⟨y, hy, rfl⟩ := List.mem_map.1 hx
    exact div_nonneg (hraw y hy) hsum.le
  · rw [hdiv, ← Exact.value_sum, div_self hsum.ne']

theorem length_shares (w : Weighting (Exact sqrt pow)) (places : List Nat) :
    (w.shares places).length = places.length := by
  unfold shares
  cases w with
  | specified weights =>
      dsimp only
      split <;> simp
  | _ => simp

/-- The shares of the children that are left sum to one, whatever weights are specified. -/
theorem fair_shares (w : Weighting (Exact sqrt pow)) {places : List Nat} (h : places ≠ []) :
    Fair (w.shares places) := by
  have hequal : Fair (List.replicate places.length
      (1 / Arith.ofNat places.length : Exact sqrt pow)) := fair_equal (List.length_pos_iff.2 h)
  unfold shares
  cases w with
  | specified weights =>
      dsimp only
      split
      · next hsum =>
          refine fair_proportional (fun x hx => ?_) hsum
          obtain ⟨i, -, rfl⟩ := List.mem_map.1 hx
          rw [Exact.value_larger, Exact.value_zero]
          exact le_max_right _ _
      · exact hequal
  | _ => exact hequal

/-- Bounded children spread to a bounded allocation. -/
theorem bounded_spread {w : Weighting (Exact sqrt pow)}
    {children : List (Nat × Allocation (Exact sqrt pow))} (h : ∀ c ∈ children, c.2.Bounded)
    {a : Allocation (Exact sqrt pow)} (ha : w.spread children = some a) : a.Bounded := by
  unfold spread at ha
  split at ha
  · cases ha
  next hne =>
  obtain rfl := Option.some.inj ha
  have hplaces : children.map Prod.fst ≠ [] := by simpa using hne
  obtain ⟨hnonneg, hsum⟩ := w.fair_shares hplaces
  have hlength := w.length_shares (children.map Prod.fst)
  generalize w.shares (children.map Prod.fst) = shares at hnonneg hsum hlength
  have hps : ∀ p ∈ (children.map Prod.snd).zip shares, p.1.Bounded ∧ 0 ≤ p.2.value := by
    intro p hp
    obtain ⟨hchild, hshare⟩ := List.of_mem_zip hp
    obtain ⟨c, hc, heq⟩ := List.mem_map.1 hchild
    exact ⟨heq ▸ h c hc, hnonneg p.2 hshare⟩
  obtain ⟨hpos, hle⟩ := Allocation.foldl_addScaled_le Allocation.positive_empty hps
  refine ⟨hpos, hle.trans ?_⟩
  have hzip : ((children.map Prod.snd).zip shares).map (fun p => p.2.value) =
      shares.map Exact.value := by
    have hsnd : ((children.map Prod.snd).zip shares).map Prod.snd = shares :=
      List.map_snd_zip (by simp [hlength])
    have hvalues := congrArg (List.map Exact.value) hsnd
    rw [List.map_map] at hvalues
    exact hvalues
  rw [Allocation.value_total_empty, zero_add, hzip, hsum]
  exact le_refl _

/-- What a lawful weighting does to a bounded allocation keeps it bounded. -/
theorem bounded_adjust {w : Weighting (Exact sqrt pow)} (h : w.Lawful)
    (sigma : String → Option (Exact sqrt pow)) {a : Allocation (Exact sqrt pow)}
    (ha : a.Bounded) : (w.adjust sigma a).Bounded := by
  cases w with
  | equal => exact ha
  | specified weights => exact ha
  | inverseVolatility window =>
      change (a.scaleByVolatility sigma Arith.reciprocal).Bounded
      refine ha.scaleByVolatility sigma fun x hx => ?_
      have hx : 0 < x.value := hx
      exact one_div_pos.2 hx
  | volatility window =>
      change (a.scaleByVolatility sigma fun s => s).Bounded
      exact ha.scaleByVolatility sigma fun _ hx => hx
  | capped cap fallback => exact ha.capped (lawful_capped.1 h).1.1 fallback

end Weighting
end StrategyTree
