import Mathlib.Algebra.Order.BigOperators.Group.Finset
import StrategyTree.Proofs.Allocation
import StrategyTree.Proofs.Equity
/-!
# Turnover

In exact arithmetic the turnover between two allocations is the sum of all changes of
weight, where a ticker that is not held weighs nothing. So it is a distance between
allocations, and is at most what both hold together. Costs are a part of the turnover, so
trading by way of other allocations never costs less than trading at once.
-/
namespace StrategyTree

open Finset

namespace Allocation

open Backtest (held)

theorem mem_held {α : Type} {a : Allocation α} {ticker : String} :
    ticker ∈ held a ↔ ticker ∈ a.keys :=
  List.mem_toFinset

section Weights
variable {α : Type} [Arith α] {a : Allocation α}

/-- A sum over the tickers that are held is one over the entries. -/
theorem sum_held (f : String → α → ℚ) :
    ∑ ticker ∈ held a, f ticker (a.weight ticker) = (a.entries.map fun e => f e.1 e.2).sum := by
  rw [held, List.sum_toFinset _ a.nodup_keys, Table.keys, List.map_map]
  refine congrArg List.sum (List.map_congr_left fun e he => ?_)
  rw [Function.comp_apply, weight_of_mem he]

end Weights

variable {sqrt : ℚ → ℚ≥0} {pow : ℚ → ℚ → ℚ} {a b : Allocation (Exact sqrt pow)}

theorem value_total_eq_sum (a : Allocation (Exact sqrt pow)) :
    a.total.value = ∑ ticker ∈ held a, (a.weight ticker).value := by
  rw [value_total]
  exact (sum_held fun _ (w : Exact sqrt pow) => w.value).symm

/-- How much the weight of a ticker changes. -/
def change (a b : Allocation (Exact sqrt pow)) (ticker : String) : ℚ :=
  |(b.weight ticker).value - (a.weight ticker).value|

theorem value_foldl_changes (a : Allocation (Exact sqrt pow))
    (es : List (String × Exact sqrt pow)) (acc : Exact sqrt pow) :
    (es.foldl (fun t e => t + Arith.abs (e.2 - a.weight e.1)) acc).value =
      acc.value + (es.map fun e => |e.2.value - (a.weight e.1).value|).sum := by
  induction es generalizing acc with
  | nil => simp
  | cons e rest ih =>
      have hstep : (acc + Arith.abs (e.2 - a.weight e.1)).value =
          acc.value + |e.2.value - (a.weight e.1).value| := rfl
      rw [List.foldl_cons, ih, hstep, List.map_cons, List.sum_cons, add_assoc]

theorem value_foldl_sold (b : Allocation (Exact sqrt pow)) (es : List (String × Exact sqrt pow))
    (acc : Exact sqrt pow) :
    (es.foldl (fun t e => if b.contains e.1 then t else t + Arith.abs e.2) acc).value =
      acc.value + (es.map fun e => if e.1 ∈ b.keys then 0 else |e.2.value|).sum := by
  induction es generalizing acc with
  | nil => simp
  | cons e rest ih =>
      rw [List.foldl_cons, ih, List.map_cons, List.sum_cons]
      by_cases hheld : e.1 ∈ b.keys
      · rw [if_pos (Table.contains_iff.2 hheld), if_pos hheld, zero_add]
      · have hstep : (acc + Arith.abs e.2).value = acc.value + |e.2.value| := rfl
        rw [if_neg (mt Table.contains_iff.1 hheld), if_neg hheld, hstep, add_assoc]

/-- Turnover is the sum of the changes of all tickers that are held before or after. -/
theorem value_turnover (a b : Allocation (Exact sqrt pow)) :
    (a.turnover b).value = ∑ ticker ∈ held a ∪ held b, change a b ticker := by
  have hkept : (b.entries.map fun e => |e.2.value - (a.weight e.1).value|).sum =
      ∑ ticker ∈ held b, change a b ticker := by
    unfold change
    exact (sum_held fun ticker (w : Exact sqrt pow) => |w.value - (a.weight ticker).value|).symm
  have hsold : (a.entries.map fun e => if e.1 ∈ b.keys then 0 else |e.2.value|).sum =
      ∑ ticker ∈ held a \ held b, change a b ticker := by
    rw [← sum_held fun ticker (w : Exact sqrt pow) => if ticker ∈ b.keys then 0 else |w.value|,
      ← filter_notMem_eq_sdiff, sum_filter]
    refine sum_congr rfl fun ticker _ => ?_
    by_cases hheld : ticker ∈ b.keys
    · rw [if_pos hheld, if_neg (not_not.2 (mem_held.2 hheld))]
    · rw [if_neg hheld, if_pos (mt mem_held.1 hheld), change, weight_of_not_mem hheld,
        Exact.value_zero, zero_sub, abs_neg]
  calc (a.turnover b).value
      = ∑ ticker ∈ held b, change a b ticker + ∑ ticker ∈ held a \ held b, change a b ticker := by
        simp only [turnover]
        rw [value_foldl_sold, value_foldl_changes, hkept, hsold, Exact.value_zero, zero_add]
    _ = ∑ ticker ∈ held b ∪ held a \ held b, change a b ticker :=
        (sum_union disjoint_sdiff).symm
    _ = ∑ ticker ∈ held a ∪ held b, change a b ticker := by
        rw [union_sdiff_self_eq_union, union_comm]

/-- What is held neither before nor after does not change. -/
theorem change_of_notMem {ticker : String} (h : ticker ∉ held a ∪ held b) :
    change a b ticker = 0 := by
  obtain ⟨hbefore, hafter⟩ := not_or.1 (mt mem_union.2 h)
  rw [change, weight_of_not_mem (mt mem_held.2 hbefore), weight_of_not_mem (mt mem_held.2 hafter),
    sub_self, abs_zero]

/-- Turnover is the sum of the changes of any tickers that include those that are held. -/
theorem value_turnover_of_subset {tickers : Finset String} (h : held a ∪ held b ⊆ tickers) :
    (a.turnover b).value = ∑ ticker ∈ tickers, change a b ticker := by
  rw [value_turnover]
  exact sum_subset h fun ticker _ hnot => change_of_notMem hnot

/-! ### A distance -/

theorem change_comm (a b : Allocation (Exact sqrt pow)) (ticker : String) :
    change a b ticker = change b a ticker :=
  abs_sub_comm _ _

theorem change_triangle (a b c : Allocation (Exact sqrt pow)) (ticker : String) :
    change a c ticker ≤ change a b ticker + change b c ticker := by
  rw [add_comm]
  exact abs_sub_le _ _ _

theorem change_eq_zero_iff {ticker : String} :
    change a b ticker = 0 ↔ a.weight ticker = b.weight ticker := by
  rw [change, abs_eq_zero, sub_eq_zero, eq_comm, Exact.value_inj]

theorem turnover_comm (a b : Allocation (Exact sqrt pow)) :
    (a.turnover b).value = (b.turnover a).value := by
  rw [value_turnover, value_turnover, union_comm]
  exact sum_congr rfl fun ticker _ => change_comm a b ticker

theorem turnover_triangle (a b c : Allocation (Exact sqrt pow)) :
    (a.turnover c).value ≤ (a.turnover b).value + (b.turnover c).value := by
  have hac : held a ∪ held c ⊆ held a ∪ held b ∪ held c :=
    union_subset_union_left subset_union_left
  have hbc : held b ∪ held c ⊆ held a ∪ held b ∪ held c :=
    union_subset_union_left subset_union_right
  rw [value_turnover_of_subset hac, value_turnover_of_subset subset_union_left,
    value_turnover_of_subset hbc, ← sum_add_distrib]
  exact sum_le_sum fun ticker _ => change_triangle a b c ticker

/-- Nothing changes hands only if all weights stay. An entry of weight zero is like none. -/
theorem turnover_eq_zero_iff :
    (a.turnover b).value = 0 ↔ ∀ ticker, a.weight ticker = b.weight ticker := by
  rw [value_turnover, sum_eq_zero_iff_of_nonneg fun _ _ => abs_nonneg _]
  refine ⟨fun h ticker => ?_, fun h ticker _ => change_eq_zero_iff.2 (h ticker)⟩
  by_cases hheld : ticker ∈ held a ∪ held b
  · exact change_eq_zero_iff.1 (h ticker hheld)
  · exact change_eq_zero_iff.1 (change_of_notMem hheld)

/-! ### A bound -/

theorem Positive.weight_nonneg (ha : a.Positive) (ticker : String) :
    0 ≤ (a.weight ticker).value := by
  by_cases hheld : ticker ∈ a.keys
  · obtain ⟨w, hw⟩ := Table.mem_keys_iff.1 hheld
    have hmem : (ticker, w) ∈ a.entries := Table.get?_eq_some_iff.1 hw
    have hpos : 0 < w.value := ha.positive _ hmem
    rw [weight_of_mem hmem]
    exact hpos.le
  · rw [weight_of_not_mem hheld]
    exact le_refl 0

/-- The sum of weights over more tickers than are held is the total. -/
theorem sum_weight_of_subset {tickers : Finset String} (h : held a ⊆ tickers) :
    ∑ ticker ∈ tickers, (a.weight ticker).value = a.total.value := by
  rw [value_total_eq_sum]
  refine (sum_subset h fun ticker _ hnot => ?_).symm
  rw [weight_of_not_mem (mt mem_held.2 hnot), Exact.value_zero]

/-- No more can change hands than is held before and after. -/
theorem turnover_le_of_nonneg (ha : ∀ ticker, 0 ≤ (a.weight ticker).value)
    (hb : ∀ ticker, 0 ≤ (b.weight ticker).value) :
    (a.turnover b).value ≤ a.total.value + b.total.value := by
  have hchange (ticker : String) :
      change a b ticker ≤ (a.weight ticker).value + (b.weight ticker).value := by
    have hbefore := ha ticker
    have hafter := hb ticker
    rw [change, abs_le]
    constructor <;> linarith
  calc (a.turnover b).value
      = ∑ ticker ∈ held a ∪ held b, change a b ticker := value_turnover a b
    _ ≤ ∑ ticker ∈ held a ∪ held b, ((a.weight ticker).value + (b.weight ticker).value) :=
        sum_le_sum fun ticker _ => hchange ticker
    _ = a.total.value + b.total.value := by
        rw [sum_add_distrib, sum_weight_of_subset subset_union_left,
          sum_weight_of_subset subset_union_right]

theorem turnover_le (ha : a.Positive) (hb : b.Positive) :
    (a.turnover b).value ≤ a.total.value + b.total.value :=
  turnover_le_of_nonneg ha.weight_nonneg hb.weight_nonneg

/-! ### Detours -/

/-- The sum of what each trade costs on the way from one allocation by others to the last. -/
def wayCost {β : Type} (cost : β → β → ℚ) : β → List β → β → ℚ
  | a, [], c => cost a c
  | a, b :: stops, c => cost a b + wayCost cost b stops c

theorem le_wayCost {β : Type} {cost : β → β → ℚ}
    (h : ∀ a b c, cost a c ≤ cost a b + cost b c) (a : β) (stops : List β) (c : β) :
    cost a c ≤ wayCost cost a stops c := by
  induction stops generalizing a with
  | nil => exact le_refl _
  | cons b stops ih => exact (h a b c).trans (add_le_add_right (ih b) _)

/-- The part of the equity that a trade costs. -/
def charge (config : BacktestConfig (Exact sqrt pow)) (a b : Allocation (Exact sqrt pow)) : ℚ :=
  1 - (Backtest.costFactor config a b).value

theorem charge_eq (config : BacktestConfig (Exact sqrt pow))
    (a b : Allocation (Exact sqrt pow)) :
    charge config a b = (a.turnover b).value * (config.costBps.value / 10000) := by
  rw [charge, Backtest.value_costFactor, sub_sub_cancel, mul_div_assoc]

theorem charge_triangle {config : BacktestConfig (Exact sqrt pow)}
    (hcost : 0 ≤ config.costBps.value) (a b c : Allocation (Exact sqrt pow)) :
    charge config a c ≤ charge config a b + charge config b c := by
  rw [charge_eq, charge_eq, charge_eq, ← add_mul]
  exact mul_le_mul_of_nonneg_right (turnover_triangle a b c) (div_nonneg hcost (by norm_num))

/-- Turnover is the distance of allocations by the sum of the changes of weight. It is at most
what both hold together if no weight is negative. Hence a trade that is made by way of other
allocations, each charged on the same equity, never costs less than the trade made at once. -/
theorem turnover_is_distance (a b c : Allocation (Exact sqrt pow)) :
    (a.turnover b).value =
      ∑ ticker ∈ held a ∪ held b, |(b.weight ticker).value - (a.weight ticker).value| ∧
    (a.turnover b).value = (b.turnover a).value ∧
    (a.turnover c).value ≤ (a.turnover b).value + (b.turnover c).value ∧
    ((a.turnover b).value = 0 ↔ ∀ ticker, a.weight ticker = b.weight ticker) ∧
    ((∀ ticker, 0 ≤ (a.weight ticker).value) → (∀ ticker, 0 ≤ (b.weight ticker).value) →
      (a.turnover b).value ≤ a.total.value + b.total.value) ∧
    ∀ config : BacktestConfig (Exact sqrt pow), 0 ≤ config.costBps.value →
      ∀ stops, charge config a c ≤ wayCost (charge config) a stops c :=
  ⟨value_turnover a b, turnover_comm a b, turnover_triangle a b c, turnover_eq_zero_iff,
    turnover_le_of_nonneg,
    fun _ hcost stops => le_wayCost (charge_triangle hcost) a stops c⟩

/-- A switch from stocks to half as many bonds turns over all that is held. By way of cash it
costs no less. -/
theorem sample_switch :
    let stocks : Allocation (Exact Rat.toNNRat fun x _ => x) := Table.empty.insert "SPY" 1
    let bonds : Allocation (Exact Rat.toNNRat fun x _ => x) := Table.empty.insert "TLT" (1 / 2)
    let config := { BacktestConfig.standard with costBps := 50 }
    (stocks.turnover bonds).value = 3 / 2 ∧ (bonds.turnover stocks).value = 3 / 2 ∧
      charge config stocks bonds ≤ wayCost (charge config) stocks [.empty] bonds := by
  intro stocks bonds config
  obtain ⟨-, hcomm, -, -, -, hways⟩ := turnover_is_distance stocks bonds bonds
  have hvalue : (stocks.turnover bonds).value = 3 / 2 := by decide +kernel
  exact ⟨hvalue, hcomm ▸ hvalue, hways config (by decide) [.empty]⟩

end Allocation
end StrategyTree
