import StrategyTree.Backtest
import StrategyTree.Proofs.Evaluation.Prefix
/-!
# No look-ahead

A backtest of the first days of a matrix is the first days of a backtest of the
whole matrix. A decision earns its return on the last of the days whose prices it
takes part in, and a day past the end of the growth is left out, so cutting the
prices cuts no more than the days that they are credited on.
-/
namespace StrategyTree

variable {α : Type}

def BacktestResult.take (r : BacktestResult α) (k : Nat) : BacktestResult α :=
  ⟨r.initialCapital, r.dates.take k, r.weights.take k, r.equity.take k⟩

variable [Arith α]

theorem TickerPrices.adjustedOpen_take (p : TickerPrices α) {k day : Nat} (h : day < k) :
    (p.take k).adjustedOpen day = p.adjustedOpen day := by
  simp only [adjustedOpen, take, Series.at?_take h]

namespace BacktestMode

/-- The prices of a period are known on the day that is credited with its return. -/
theorem prices?_take (mode : BacktestMode) (p : TickerPrices α) {k day : Nat}
    (h : day + mode.creditLag < k) : mode.prices? (p.take k) day = mode.prices? p day := by
  have hday : day < k := Nat.lt_of_le_of_lt (Nat.le_add_right _ _) h
  have hclose {d : Nat} (hd : d < k) : (p.take k).adjusted.at? d = p.adjusted.at? d :=
    Series.at?_take hd p.adjusted
  have hopen {d : Nat} (hd : d < k) : (p.take k).adjustedOpen d = p.adjustedOpen d :=
    p.adjustedOpen_take hd
  cases mode with
  | closeToClose =>
      have hnext : day + 1 < k := h
      rw [prices?, prices?, hclose hday, hclose hnext]
  | closeToOpen =>
      have hnext : day + 1 < k := h
      rw [prices?, prices?, hclose hday, hopen hnext]
  | openToClose =>
      have hnext : day + 1 < k := h
      rw [prices?, prices?, hopen hnext, hclose hnext]
  | openToOpen =>
      have hlast : day + 2 < k := h
      have hnext : day + 1 < k := Nat.lt_of_succ_lt hlast
      rw [prices?, prices?, hopen hnext, hopen hlast]

end BacktestMode

namespace Backtest

variable (m : PriceMatrix α) (config : BacktestConfig α) (k : Nat)

theorem portfolioReturn_take (mode : BacktestMode) (weights : Allocation α) {day : Nat}
    (h : day + mode.creditLag < k) :
    portfolioReturn (m.take k) mode weights day = portfolioReturn m mode weights day := by
  have hreturn (p : TickerPrices α) : mode.periodReturn (p.take k) day = mode.periodReturn p day := by
    rw [BacktestMode.periodReturn, BacktestMode.periodReturn, mode.prices?_take p h]
  unfold portfolioReturn
  refine congrArg Arith.sum (List.map_congr_left fun e _ => ?_)
  rw [PriceMatrix.take, Table.get?_map]
  cases m.prices.get? e.1 with
  | none => rfl
  | some p => simp only [Option.map_some, Option.bind_some, hreturn]

theorem post_take (growth : List α) (day : Nat) (factor : α) :
    post (growth.take k) day factor = (post growth day factor).take k := by
  rw [post, post, List.take_modify]

/-- What is posted past the end of a prefix does not show in it. -/
theorem post_take_of_le (growth : List α) {day : Nat} (factor : α) (h : k ≤ day) :
    (post growth day factor).take k = growth.take k := by
  have hlength : (growth.take k).length ≤ day := by
    rw [List.length_take]
    omega
  rw [post, List.take_modify, List.modify_eq_self hlength]

/-- Decisions of later days do not show in a prefix. -/
theorem postDecisions_take_of_le {day : Nat} (h : k ≤ day) (before : Allocation α)
    (decisions : List (Allocation α)) (growth : List α) :
    (postDecisions m config day before decisions growth).take k = growth.take k := by
  induction decisions generalizing day before growth with
  | nil => rfl
  | cons weights rest ih =>
      have hcost : k ≤ day + config.mode.tradeLag := Nat.le_add_right_of_le h
      have hcredit : k ≤ day + config.mode.creditLag := Nat.le_add_right_of_le h
      simp only [postDecisions]
      rw [ih (Nat.le_add_right_of_le h), post_take_of_le k _ _ hcredit]
      split
      · exact post_take_of_le k _ _ hcost
      · rfl

/-- The growth over a prefix is a prefix of the growth. -/
theorem postDecisions_take (day : Nat) (before : Allocation α)
    (decisions : List (Allocation α)) (growth : List α) :
    postDecisions (m.take k) config day before (decisions.take (k - day)) (growth.take k) =
      (postDecisions m config day before decisions growth).take k := by
  induction decisions generalizing day before growth with
  | nil => rw [List.take_nil]; rfl
  | cons weights rest ih =>
      by_cases hday : day < k
      · have hlater : k - day = k - (day + 1) + 1 := by omega
        have hcredit (g : List α) : post (g.take k) (day + config.mode.creditLag)
              (1 + portfolioReturn (m.take k) config.mode weights day) =
            (post g (day + config.mode.creditLag)
              (1 + portfolioReturn m config.mode weights day)).take k := by
          by_cases hcredit : day + config.mode.creditLag < k
          · rw [portfolioReturn_take m k config.mode weights hcredit, post_take]
          · -- The return is posted past the end on both sides, whatever it is.
            rw [post_take, post_take_of_le k _ _ (Nat.le_of_not_lt hcredit),
              post_take_of_le k _ _ (Nat.le_of_not_lt hcredit)]
        rw [hlater, List.take_succ_cons]
        simp only [postDecisions]
        split
        · rw [post_take, hcredit, ih]
        · rw [hcredit, ih]
      · rw [show k - day = 0 by omega, List.take_zero,
          postDecisions_take_of_le m config k (Nat.le_of_not_lt hday)]
        rfl

theorem compound_take (equity : α) (growth : List α) :
    compound equity (growth.take k) = (compound equity growth).take k := by
  induction growth generalizing equity k with
  | nil => simp [compound]
  | cons g rest ih => cases k <;> simp [compound, ih]

theorem simulate_take (decisions : List (Allocation α)) :
    simulate (m.take k) (decisions.take k) config = (simulate m decisions config).take k := by
  have hgrowth := postDecisions_take m config k 0 .empty decisions (List.replicate m.length 1)
  rw [Nat.sub_zero, List.take_replicate, ← m.length_take] at hgrowth
  unfold simulate
  dsimp only
  rw [hgrowth, compound_take, PriceMatrix.take, List.zip_eq_zipWith, List.zip_eq_zipWith,
    List.take_zipWith]

/-- The result of a strategy that passes validation, also without any day. -/
theorem run_ok {s : Strategy α} {anchors : Tickers} (hvalid : s.validate = .ok anchors)
    {weights : List (Allocation α)}
    (hweights : (s.evaluateDays m (List.range m.length) .start).1 = .ok weights) :
    run s m config = .ok ⟨config.initialCapital, m.dates, weights, simulate m weights config⟩ := by
  unfold run
  rw [hvalid]
  change (if m.isEmpty then _ else _) = _
  split
  · next hempty =>
      have hdates : m.dates = [] := List.isEmpty_iff.1 hempty
      rw [PriceMatrix.length, hdates] at hweights
      obtain rfl : [] = weights := Except.ok.inj hweights
      rw [simulate, hdates]
      rfl
  · rw [hweights]
    rfl

/-- No look-ahead: a backtest of the first `k` days fails as that of all days does, or its
result is the first `k` days of the whole result. -/
theorem run_on_prefix (s : Strategy α) :
    run s (m.take k) config = (fun r => r.take k) <$> run s m config := by
  cases hvalid : s.validate with
  | error e =>
      unfold run
      rw [hvalid]
      rfl
  | ok anchors =>
      have hs := Strategy.wellFormed_of_validate hvalid
      have hstart : (RunState.start : RunState α).cache.Faithful m := IndicatorCache.faithful_empty
      obtain ⟨weights, hweights⟩ := hs.evaluateDays_ok hstart (List.range m.length)
      have hdays : ∀ day ∈ (List.range m.length).take k, day < k := by
        intro day hday
        rw [List.take_range, List.mem_range] at hday
        omega
      have halike : RunState.Alike m (m.take k) (List.take k) .start .start := RunState.alike_start
      have htake := hs.evaluateDays_take halike (List.range m.length) hdays
      rw [List.take_range, ← m.length_take, hweights] at htake
      rw [run_ok m config hvalid hweights, run_ok (m.take k) config hvalid htake, simulate_take]
      rfl

end Backtest
end StrategyTree
