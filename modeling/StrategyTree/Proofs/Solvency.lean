import Mathlib.Algebra.Order.BigOperators.Ring.Finset
import StrategyTree.Proofs.Backtest
import StrategyTree.Proofs.Evaluation.Bounds
import StrategyTree.Proofs.Machine
import StrategyTree.Proofs.PriceMatrix
import StrategyTree.Proofs.Turnover
/-!
# Solvency

In exact arithmetic a backtest at positive prices never loses all of its capital. A ticker
that is bought at a positive price and sold at one loses less than all, and the weights sum
to at most one, so no return takes all of the equity. Turnover is at most two, so a cost of
less than half of it leaves something as well. The equity of a day is the capital times
such factors.
-/
namespace StrategyTree

open Finset

variable {sqrt : ℚ → ℚ≥0} {pow : ℚ → ℚ → ℚ}

/-! ### Positive prices -/

/-- Every price that is present is positive. -/
def TickerPrices.Positive (p : TickerPrices (Exact sqrt pow)) : Prop :=
  ∀ field x, some x ∈ p.series field → 0 < x.value

def PriceMatrix.Positive (m : PriceMatrix (Exact sqrt pow)) : Prop :=
  ∀ ticker p, m.prices.get? ticker = some p → p.Positive

section Prices
variable {p : TickerPrices (Exact sqrt pow)}

theorem TickerPrices.Positive.adjustedOpen (hp : p.Positive) {day : Nat} {x : Exact sqrt pow}
    (h : p.adjustedOpen day = some x) : 0 < x.value := by
  obtain ⟨opening, hopening, h⟩ := Option.bind_eq_some_iff.1 h
  obtain ⟨close, hclose, h⟩ := Option.bind_eq_some_iff.1 h
  obtain ⟨adjusted, hadjusted, h⟩ := Option.bind_eq_some_iff.1 h
  obtain rfl := Option.some.inj h
  have hopening : 0 < opening.value := hp .opening _ (Series.mem_of_at? hopening)
  have hclose : 0 < close.value := hp .close _ (Series.mem_of_at? hclose)
  have hadjusted : 0 < adjusted.value := hp .adjusted _ (Series.mem_of_at? hadjusted)
  split
  · exact hopening
  · rw [Exact.value_div, Exact.value_mul]
    exact div_pos (mul_pos hopening hadjusted) hclose

theorem Quote.pos (hp : p.Positive) {quote : Quote} {x : Exact sqrt pow}
    (h : quote.of? p = some x) : 0 < x.value := by
  cases quote with
  | close day => exact hp .adjusted _ (Series.mem_of_at? h)
  | opening day => exact hp.adjustedOpen h

/-- A ticker never loses all that was put into it. -/
theorem Schedule.neg_one_lt_earned (s : Schedule) (hp : p.Positive) {day : Nat} {r : ℚ}
    (h : s.earned p day = some r) : -1 < r := by
  unfold Schedule.earned at h
  split at h
  · next bought sold hbought hsold =>
      have hbought : 0 < bought.value := Quote.pos hp hbought
      have hsold : 0 < sold.value := Quote.pos hp hsold
      rw [if_pos hbought] at h
      obtain rfl := Option.some.inj h
      have hratio : 0 < sold.value / bought.value := div_pos hsold hbought
      linarith
  · cases h

end Prices

/-! ### Returns and costs -/

/-- Weights with a sum of at most one lose less than all if each ticker does. -/
theorem Allocation.Bounded.neg_one_lt_sum {a : Allocation (Exact sqrt pow)} (ha : a.Bounded)
    {r : String → ℚ} (hr : ∀ ticker, -1 < r ticker) :
    -1 < ∑ ticker ∈ Backtest.held a, (a.weight ticker).value * r ticker := by
  have htotal : ∑ ticker ∈ Backtest.held a, (a.weight ticker).value ≤ 1 := by
    rw [← value_total_eq_sum]
    exact ha.total_le
  rcases (Backtest.held a).eq_empty_or_nonempty with hnone | hsome
  · rw [hnone, sum_empty]
    norm_num
  · calc (-1 : ℚ) ≤ ∑ ticker ∈ Backtest.held a, -(a.weight ticker).value := by
          rw [sum_neg_distrib]
          linarith
      _ < ∑ ticker ∈ Backtest.held a, (a.weight ticker).value * r ticker := by
          refine sum_lt_sum_of_nonempty hsome fun ticker hticker => ?_
          obtain ⟨w, hw⟩ := Table.mem_keys_iff.1 (mem_held.1 hticker)
          have hmem : (ticker, w) ∈ a.entries := Table.get?_eq_some_iff.1 hw
          have hpos : 0 < w.value := ha.positive _ hmem
          have hrest := mul_pos hpos (neg_lt_iff_pos_add'.1 (hr ticker))
          rw [weight_of_mem hmem]
          linarith

namespace Backtest

variable {m : PriceMatrix (Exact sqrt pow)} {config : BacktestConfig (Exact sqrt pow)}
  {decisions : List (Allocation (Exact sqrt pow))}

theorem bounded_decision (h : ∀ w ∈ decisions, w.Bounded) (i : Nat) :
    (decision decisions i).Bounded := by
  rw [decision, List.getD_eq_getElem?_getD]
  cases hget : decisions[i]? with
  | none => exact Allocation.bounded_empty
  | some w => exact h w (List.mem_of_getElem? hget)

theorem bounded_previous (h : ∀ w ∈ decisions, w.Bounded) (i : Nat) :
    (previous decisions i).Bounded := by
  cases i with
  | zero => exact Allocation.bounded_empty
  | succ i => exact bounded_decision h i

theorem grown_pos (hm : m.Positive) (h : ∀ w ∈ decisions, w.Bounded) (i : Nat) :
    0 < grown m config decisions i := by
  have hearned (ticker : String) :
      -1 < ((m.prices.get? ticker).bind fun p => config.mode.schedule.earned p i).getD 0 := by
    cases hreturn : (m.prices.get? ticker).bind fun p => config.mode.schedule.earned p i with
    | none => norm_num
    | some r =>
        obtain ⟨p, hp, hr⟩ := Option.bind_eq_some_iff.1 hreturn
        exact config.mode.schedule.neg_one_lt_earned (hm ticker p hp) hr
  have hsum := (bounded_decision h i).neg_one_lt_sum hearned
  rw [grown]
  linarith

/-- Turnover is at most two. -/
theorem turnover_le_two {a b : Allocation (Exact sqrt pow)} (ha : a.Bounded) (hb : b.Bounded) :
    (a.turnover b).value ≤ 2 := by
  have hle := Allocation.turnover_le ha.toPositive hb.toPositive
  have hbefore : a.total.value ≤ 1 := ha.total_le
  have hafter : b.total.value ≤ 1 := hb.total_le
  linarith

theorem kept_pos (hcost : config.costBps.value < 5000) (h : ∀ w ∈ decisions, w.Bounded)
    (i : Nat) : 0 < kept config decisions i := by
  rw [kept]
  split
  · next hpos =>
      have hturnover := turnover_le_two (bounded_previous h i) (bounded_decision h i)
      have hcharge := mul_le_mul_of_nonneg_right hturnover hpos.le
      linarith
  · norm_num

theorem lagged_pos {factor : Nat → ℚ} (h : ∀ i, 0 < factor i) (lag day : Nat) :
    0 < lagged lag factor day := by
  rw [lagged]
  split
  · exact h _
  · norm_num

/-- Every point of an equity curve lies on some day of the matrix. -/
theorem exists_day_of_mem_simulate {point : Date × Exact sqrt pow}
    (h : point ∈ simulate m decisions config) :
    ∃ d, d < m.length ∧ (simulate m decisions config)[d]? = some point := by
  obtain ⟨d, hd⟩ := List.mem_iff_getElem?.1 h
  have hdate := (List.getElem?_zip_eq_some.1 hd).1
  exact ⟨d, (List.getElem?_eq_some_iff.1 hdate).1, hd⟩

theorem simulate_pos (hm : m.Positive) (hcapital : 0 < config.initialCapital.value)
    (hcost : config.costBps.value < 5000) (hlength : decisions.length = m.length)
    (h : ∀ w ∈ decisions, w.Bounded) :
    ∀ point ∈ simulate m decisions config, 0 < point.2.value := by
  intro point hpoint
  obtain ⟨d, hd, hget⟩ := exists_day_of_mem_simulate hpoint
  obtain ⟨equity, hequity, hvalue, -⟩ := equity_of_decisions m decisions hlength config d hd
  obtain rfl := Option.some.inj (hget.symm.trans hequity)
  rw [hvalue]
  refine mul_pos hcapital (prod_pos fun e _ => mul_pos ?_ ?_)
  · exact lagged_pos (kept_pos hcost h) _ e
  · exact lagged_pos (grown_pos hm h) _ e

/-- Equity stays positive: with some capital, at positive prices and at a cost of less than
half of the turnover, an accepted strategy has a backtest, with a point for every day of the
matrix, and each of them is positive. -/
theorem equity_positive {s : Strategy (Exact sqrt pow)} {anchors : Tickers}
    (hs : s.validate = .ok anchors) (hm : m.Positive) (hcapital : 0 < config.initialCapital.value)
    (hcost : config.costBps.value < 5000) :
    ∃ result, run s m config = .ok result ∧ result.equity.map Prod.fst = m.dates ∧
      ∀ point ∈ result.equity, 0 < point.2.value := by
  have hwell := Strategy.wellFormed_of_validate hs
  have hstart : (RunState.start : RunState (Exact sqrt pow)).cache.Faithful m :=
    IndicatorCache.faithful_empty
  obtain ⟨weights, hweights⟩ := hwell.evaluateDays_ok hstart (List.range m.length)
  have hlength : weights.length = m.length := by
    rw [Strategy.length_evaluateDays hweights, List.length_range]
  refine ⟨_, run_ok m config hs hweights, map_fst_simulate m weights config, ?_⟩
  exact simulate_pos hm hcapital hcost hlength (hwell.bounded_of_evaluateDays hweights)

/-! ### A sample -/

/-- One ticker that falls from 100 to 1, over a day without prices. -/
def sampleCrash : PriceMatrix Sample.Number where
  dates := [⟨2024, 1, 2⟩, ⟨2024, 1, 3⟩, ⟨2024, 1, 4⟩]
  prices := Table.empty.insert "SPY"
    (let xs := [some 100, none, some 1]; ⟨xs, xs, xs, xs, xs⟩)
  limiting := none

theorem sampleCrash_positive : sampleCrash.Positive := by
  intro ticker p h field x hx
  have hentry : (ticker, p) ∈ sampleCrash.prices.entries := Table.get?_eq_some_iff.1 h
  obtain ⟨rfl, rfl⟩ := Prod.mk.inj (List.mem_singleton.1 hentry)
  have hprice : some x ∈ [some 100, none, some (1 : Sample.Number)] := by
    cases field <;> exact hx
  simp only [List.mem_cons, List.not_mem_nil, or_false, Option.some.injEq, reduceCtorEq,
    false_or] at hprice
  rcases hprice with rfl | rfl <;> decide

theorem sample_solvent : ∃ result,
    run (Sample.strategy "m") sampleCrash
      { BacktestConfig.standard with mode := .openToOpen, costBps := 4999 } = .ok result ∧
    result.equity.map Prod.fst = sampleCrash.dates ∧
    ∀ point ∈ result.equity, 0 < point.2.value :=
  equity_positive Sample.strategy_accepted sampleCrash_positive (by decide) (by decide)

end Backtest
end StrategyTree
