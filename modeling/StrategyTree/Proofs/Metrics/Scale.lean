import Mathlib.Algebra.Order.Field.Basic
import StrategyTree.Metrics
import StrategyTree.Proofs.FieldArith
/-!
# The size of an account

Figures are made of ratios of equity and of comparisons with the initial capital, with other
points and with zero. A positive factor on the capital and all points changes none of these, so
the figures of an account do not depend on its size. The daily returns lose nothing but the size:
they compound to the curve again.
-/
namespace StrategyTree.Metrics

open FieldArith

variable {α K : Type} [Arith α] [Field K] [LinearOrder K] [FieldArith α K]

/-! ### Scaled operations -/

section Scaled
variable {c : α}

include K

theorem div_scaled (hc : 0 < c) (x y : α) : c * x / (c * y) = x / y := by
  apply number_injective
  rw [number_div, number_div, number_mul, number_mul, mul_div_mul_left _ _ (pos_iff.1 hc).ne']

variable [IsStrictOrderedRing K]

theorem pos_scaled (hc : 0 < c) {x : α} : 0 < c * x ↔ 0 < x := by
  rw [pos_iff, pos_iff, number_mul, mul_pos_iff_of_pos_left (pos_iff.1 hc)]

theorem le_scaled (hc : 0 < c) {x y : α} : c * x ≤ c * y ↔ x ≤ y := by
  rw [le_iff, le_iff, number_mul, number_mul, mul_le_mul_iff_right₀ (pos_iff.1 hc)]

theorem nonpos_scaled (hc : 0 < c) {x : α} : c * x ≤ 0 ↔ x ≤ 0 := by
  rw [nonpos_iff, ← not_lt, ← pos_iff, pos_scaled hc, pos_iff, not_lt, ← nonpos_iff]

/-! ### Returns and drawdowns -/

theorem dailyReturns_scaled (hc : 0 < c) (before : α) (equity : List α) :
    dailyReturns (c * before) (equity.map (c * ·)) = dailyReturns before equity := by
  induction equity generalizing before with
  | nil => rfl
  | cons point rest ih =>
      simp only [List.map_cons, dailyReturns, pos_scaled hc, div_scaled hc, ih]

theorem totalReturnOf_scaled (hc : 0 < c) (initial : α) (equity : List α) :
    totalReturnOf (c * initial) (equity.map (c * ·)) = totalReturnOf initial equity := by
  rw [totalReturnOf, totalReturnOf, List.getLast?_map]
  cases equity.getLast? with
  | none => rfl
  | some last => simp only [Option.map_some, pos_scaled hc, div_scaled hc]

/-- A drawdown whose peak is scaled. -/
def Drawdown.scaled (c : α) (d : Drawdown α) : Drawdown α :=
  { d with peak := c * d.peak }

theorem Drawdown.step_scaled (hc : 0 < c) (d : Drawdown α) (equity : α) :
    (d.scaled c).step (c * equity) = (d.step equity).scaled c := by
  simp only [Drawdown.step, Drawdown.scaled, le_scaled hc, nonpos_scaled hc, div_scaled hc]
  split
  · rfl
  · split <;> rfl

theorem drawdown_scaled (hc : 0 < c) (initial : α) (equity : List α) :
    drawdown (c * initial) (equity.map (c * ·)) = drawdown initial equity := by
  have hsteps (d : Drawdown α) : (equity.map (c * ·)).foldl Drawdown.step (d.scaled c) =
      (equity.foldl Drawdown.step d).scaled c := by
    rw [List.foldl_map]
    exact List.foldl_hom (Drawdown.scaled c) fun d equity => Drawdown.step_scaled hc d equity
  unfold drawdown
  rw [← Drawdown.scaled.eq_1 c ⟨initial, 0, 0, 0⟩, hsteps]
  rfl

theorem compute_scaled (hc : 0 < c) (initial : α) (equity : List α)
    (weights : List (Allocation α)) (rate : α) :
    compute (c * initial) (equity.map (c * ·)) weights rate =
      compute initial equity weights rate := by
  simp only [compute, totalReturnOf_scaled hc, dailyReturns_scaled hc, drawdown_scaled hc,
    List.length_map]

end Scaled

/-! ### Compounding -/

/-- As long as the points before a day are positive, the returns up to the day make the point of
the day from the initial capital. -/
theorem compounded {initial : α} (hinitial : 0 < initial) {equity : List α} {day : Nat} {point : α}
    (hday : equity[day]? = some point)
    (hbefore : ∀ earlier < day, ∀ e, equity[earlier]? = some e → 0 < e) :
    number initial * (((dailyReturns initial equity).take (day + 1)).map fun r : α =>
      number (1 + r)).prod = number point := by
  induction equity generalizing initial day with
  | nil => cases hday
  | cons first rest ih =>
      have hgrown : number initial * number (1 + (first / initial - 1)) = number first := by
        rw [number_add, number_sub, number_div, number_one, add_sub_cancel,
          mul_div_cancel₀ _ (pos_iff.1 hinitial).ne']
      rw [dailyReturns, if_pos hinitial, List.take_succ_cons, List.map_cons, List.prod_cons,
        ← mul_assoc, hgrown]
      cases day with
      | zero =>
          obtain rfl := Option.some.inj hday
          simp
      | succ day =>
          have hfirst : 0 < first := hbefore 0 (Nat.succ_pos _) first rfl
          exact ih hfirst hday fun earlier hlt e he =>
            hbefore (earlier + 1) (Nat.succ_lt_succ hlt) e he

/-- The figures of an account do not depend on its size, whatever square roots and powers are,
and its daily returns compound to its curve. -/
theorem figures_of_any_size [IsStrictOrderedRing K] {initial c : α} (hinitial : 0 < initial)
    (hc : 0 < c) (equity : List α) (weights : List (Allocation α)) (rate : α) :
    compute (c * initial) (equity.map (c * ·)) weights rate =
        compute initial equity weights rate ∧
      ∀ day point, equity[day]? = some point →
        (∀ earlier < day, ∀ e, equity[earlier]? = some e → 0 < e) →
        number initial * (((dailyReturns initial equity).take (day + 1)).map fun r : α =>
          number (1 + r)).prod = number point :=
  ⟨compute_scaled hc initial equity weights rate,
    fun _ _ hday hbefore => compounded hinitial hday hbefore⟩

/-- Of 100 a tenth is gained and lost again, then more than all of it, and in the end some of it
is back. -/
def sampleAccount : List (Exact Rat.toNNRat fun x _ => x) :=
  [110, 99, -5, 20]

/-- The account three times its size has the same figures, whatever the loss beyond zero makes of
them. The returns of the first three days compound to the point of the third. -/
theorem sampleAccount_of_any_size :
    compute 300 [330, 297, -15, 60] [Table.empty.insert "SPY" 1] 0 =
        compute 100 sampleAccount [Table.empty.insert "SPY" 1] 0 ∧
      100 * (((dailyReturns 100 sampleAccount).take 3).map fun r =>
        (1 + r : Exact Rat.toNNRat fun x _ => x).value).prod = -5 := by
  have hinitial : (0 : Exact Rat.toNNRat fun x _ => x) < 100 := by decide +kernel
  have hc : (0 : Exact Rat.toNNRat fun x _ => x) < 3 := by decide +kernel
  obtain ⟨hfigures, hcompounded⟩ := figures_of_any_size hinitial hc sampleAccount
    [Table.empty.insert "SPY" 1] 0
  have hcapital : (3 * 100 : Exact Rat.toNNRat fun x _ => x) = 300 := by decide +kernel
  have hscaled : sampleAccount.map (3 * ·) = [330, 297, -15, 60] := by decide +kernel
  rw [hcapital, hscaled] at hfigures
  refine ⟨hfigures, hcompounded 2 (-5) rfl fun earlier hlt e he => ?_⟩
  have hpositive : ∀ e ∈ sampleAccount.take 2, 0 < e := by decide +kernel
  exact hpositive e (List.mem_of_getElem? (List.getElem?_take_of_lt hlt ▸ he))

end StrategyTree.Metrics
