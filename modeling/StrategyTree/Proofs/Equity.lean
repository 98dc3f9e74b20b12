import Mathlib.Algebra.BigOperators.Group.Finset.Basic
import Mathlib.Algebra.BigOperators.Group.List.Lemmas
import Mathlib.Tactic.Ring
import StrategyTree.Backtest
import StrategyTree.Proofs.Exact
import StrategyTree.Proofs.Table
/-!
# Equity accounting

In exact arithmetic the equity of a day is the initial capital times the costs and
the returns that have been posted by then. Each decision posts one cost and one
return, at lags that its mode sets, so only the last decisions have some of theirs
left out. The loop posts into a list of growth factors; the invariant of a run is
what the factor of a day is once the decisions before `k` are posted.
-/
namespace StrategyTree

open Finset

/-! ### Schedules -/

/-- A price by which a ticker is bought or sold. -/
inductive Quote where
  | close (day : Nat)
  | opening (day : Nat)

/-- Closes are adjusted, and opens are on the basis of the adjusted closes. -/
def Quote.of? {α : Type} [Arith α] (p : TickerPrices α) : Quote → Option α
  | .close day => p.adjusted.at? day
  | .opening day => p.adjustedOpen day

/-- The days from a decision to its trade and to the day that is credited, and the quotes
between which the decision is held. -/
structure Schedule where
  tradeLag : Nat
  creditLag : Nat
  entry : Nat → Quote
  exit : Nat → Quote

def BacktestMode.schedule : BacktestMode → Schedule
  | closeToClose => ⟨0, 1, fun i => .close i, fun i => .close (i + 1)⟩
  | closeToOpen => ⟨0, 1, fun i => .close i, fun i => .opening (i + 1)⟩
  | openToClose => ⟨1, 1, fun i => .opening (i + 1), fun i => .close (i + 1)⟩
  | openToOpen => ⟨1, 2, fun i => .opening (i + 1), fun i => .opening (i + 2)⟩

namespace BacktestMode

theorem tradeLag_eq (mode : BacktestMode) : mode.tradeLag = mode.schedule.tradeLag := by
  cases mode <;> rfl

theorem creditLag_eq (mode : BacktestMode) : mode.creditLag = mode.schedule.creditLag := by
  cases mode <;> rfl

theorem prices?_eq {α : Type} [Arith α] (mode : BacktestMode) (p : TickerPrices α) (day : Nat) :
    mode.prices? p day = (do
      let entry ← (mode.schedule.entry day).of? p
      let exit ← (mode.schedule.exit day).of? p
      return (entry, exit)) := by
  cases mode <;> rfl

end BacktestMode

variable {sqrt : ℚ → ℚ≥0} {pow : ℚ → ℚ → ℚ}

/-- What a ticker earns from the decision of a day: sold over bought, less one. It is undefined
where a price is missing or the ticker is not bought at a positive one. -/
def Schedule.earned (s : Schedule) (p : TickerPrices (Exact sqrt pow)) (day : Nat) : Option ℚ :=
  match (s.entry day).of? p, (s.exit day).of? p with
  | some bought, some sold =>
      if 0 < bought.value then some (sold.value / bought.value - 1) else none
  | _, _ => none

theorem BacktestMode.periodReturn_eq (mode : BacktestMode) (p : TickerPrices (Exact sqrt pow))
    (day : Nat) : (mode.periodReturn p day).map Exact.value = mode.schedule.earned p day := by
  have hfinite (x : Exact sqrt pow) : Arith.isFinite x = true := rfl
  rw [periodReturn, prices?_eq, Schedule.earned]
  cases hentry : (mode.schedule.entry day).of? p with
  | none => rfl
  | some bought =>
      cases hexit : (mode.schedule.exit day).of? p with
      | none => rfl
      | some sold =>
          by_cases hpos : 0 < bought.value
          · have hlt : (0 : Exact sqrt pow) < bought := hpos
            simp [hpos, hlt, hfinite]
          · have hlt : ¬(0 : Exact sqrt pow) < bought := hpos
            simp [hpos, hlt]

/-! ### What a decision posts -/

namespace Backtest

/-- The tickers of an allocation. -/
def held {α : Type} (a : Allocation α) : Finset String :=
  a.keys.toFinset

def decision {α : Type} (decisions : List (Allocation α)) (i : Nat) : Allocation α :=
  decisions.getD i .empty

/-- The decision before that of a day. The first follows the empty allocation. -/
def previous {α : Type} (decisions : List (Allocation α)) : Nat → Allocation α
  | 0 => .empty
  | i + 1 => decision decisions i

section Posted
variable (m : PriceMatrix (Exact sqrt pow)) (config : BacktestConfig (Exact sqrt pow))
  (decisions : List (Allocation (Exact sqrt pow)))

/-- What the cost of a decision leaves of the equity. -/
def kept (i : Nat) : ℚ :=
  if 0 < config.costBps.value then
    1 - ((previous decisions i).turnover (decision decisions i)).value *
      config.costBps.value / 10000
  else 1

/-- What the return of a decision makes of the equity. An undefined return counts as none. -/
def grown (i : Nat) : ℚ :=
  1 + ∑ ticker ∈ held (decision decisions i), ((decision decisions i).weight ticker).value *
    (((m.prices.get? ticker).bind fun p => config.mode.schedule.earned p i).getD 0)

/-- What a sequence of factors, each counted `lag` days late, contributes to a day. -/
def lagged (lag : Nat) (factor : Nat → ℚ) (day : Nat) : ℚ :=
  if lag ≤ day then factor (day - lag) else 1

end Posted

theorem value_portfolioReturn (m : PriceMatrix (Exact sqrt pow))
    (config : BacktestConfig (Exact sqrt pow)) (w : Allocation (Exact sqrt pow)) (i : Nat) :
    (portfolioReturn m config.mode w i).value = ∑ ticker ∈ held w, (w.weight ticker).value *
      (((m.prices.get? ticker).bind fun p => config.mode.schedule.earned p i).getD 0) := by
  rw [held, List.sum_toFinset _ w.nodup_keys, portfolioReturn, Exact.value_sum, Table.keys,
    List.map_map, List.map_map]
  refine congrArg List.sum (List.map_congr_left fun e he => ?_)
  have hweight : w.weight e.1 = e.2 := by
    rw [Allocation.weight, Table.get?_eq_some_iff.2 he]
    rfl
  have hreturn : (((m.prices.get? e.1).bind fun p => config.mode.periodReturn p i).getD 0).value =
      ((m.prices.get? e.1).bind fun p => config.mode.schedule.earned p i).getD 0 := by
    cases m.prices.get? e.1 with
    | none => rfl
    | some p =>
        simp only [Option.bind_some, ← BacktestMode.periodReturn_eq]
        cases config.mode.periodReturn p i <;> rfl
  simp only [Function.comp_apply, hweight, Exact.value_mul, hreturn]

theorem value_costFactor (config : BacktestConfig (Exact sqrt pow))
    (before after : Allocation (Exact sqrt pow)) : (costFactor config before after).value =
      1 - (before.turnover after).value * config.costBps.value / 10000 := rfl

theorem getElem?_post (growth : List (Exact sqrt pow)) (day : Nat) (factor : Exact sqrt pow)
    (e : Nat) : (post growth day factor)[e]? =
      (growth[e]?).map fun x => if day = e then x * factor else x := by
  rw [post, List.getElem?_modify]
  split <;> simp_all

section Posted
variable (m : PriceMatrix (Exact sqrt pow)) (config : BacktestConfig (Exact sqrt pow))
  (decisions : List (Allocation (Exact sqrt pow)))

/-- The growth after one more decision is posted. -/
def postDecision (k : Nat) (growth : List (Exact sqrt pow)) : List (Exact sqrt pow) :=
  post (if 0 < config.costBps then post growth (k + config.mode.tradeLag)
      (costFactor config (previous decisions k) (decision decisions k)) else growth)
    (k + config.mode.creditLag) (1 + portfolioReturn m config.mode (decision decisions k) k)

theorem value_postDecision {k : Nat} {growth : List (Exact sqrt pow)} {day : Nat}
    {x : Exact sqrt pow} (hx : growth[day]? = some x) :
    ∃ y, (postDecision m config decisions k growth)[day]? = some y ∧ y.value = x.value *
      (if k + config.mode.tradeLag = day then kept config decisions k else 1) *
      (if k + config.mode.creditLag = day then grown m config decisions k else 1) := by
  have hgrown : (1 + portfolioReturn m config.mode (decision decisions k) k).value =
      grown m config decisions k := by
    rw [grown, Exact.value_add, value_portfolioReturn]
    rfl
  have htraded : ∃ y, (if 0 < config.costBps then post growth (k + config.mode.tradeLag)
        (costFactor config (previous decisions k) (decision decisions k)) else growth)[day]? =
        some y ∧ y.value = x.value *
          (if k + config.mode.tradeLag = day then kept config decisions k else 1) := by
    by_cases hcost : 0 < config.costBps
    · have hvalue : 0 < config.costBps.value := hcost
      rw [if_pos hcost, getElem?_post, hx]
      refine ⟨_, rfl, ?_⟩
      split <;> simp [kept, hvalue, value_costFactor]
    · have hvalue : ¬0 < config.costBps.value := hcost
      rw [if_neg hcost, hx]
      exact ⟨x, rfl, by simp [kept, hvalue]⟩
  obtain ⟨y, hy, hvalue⟩ := htraded
  rw [postDecision, getElem?_post, hy]
  refine ⟨_, rfl, ?_⟩
  split
  · rw [Exact.value_mul, hvalue, hgrown]
  · rw [hvalue, mul_one]

/-- Once the decisions from `k` on are posted, a day has gained the cost and the return that
lie their lags behind it, unless these belong to an earlier decision. -/
theorem value_postDecisions {rest : List (Allocation (Exact sqrt pow))} {k : Nat}
    (hrest : decisions.drop k = rest) {growth : List (Exact sqrt pow)} {day : Nat}
    (hday : day < decisions.length) {x : Exact sqrt pow} (hx : growth[day]? = some x) :
    ∃ y, (postDecisions m config k (previous decisions k) rest growth)[day]? = some y ∧
      y.value = x.value *
        (if k + config.mode.tradeLag ≤ day then
          kept config decisions (day - config.mode.tradeLag) else 1) *
        (if k + config.mode.creditLag ≤ day then
          grown m config decisions (day - config.mode.creditLag) else 1) := by
  induction rest generalizing k growth x with
  | nil =>
      have hpast : decisions.length ≤ k := List.drop_eq_nil_iff.1 hrest
      have htrade : ¬k + config.mode.tradeLag ≤ day := by omega
      have hcredit : ¬k + config.mode.creditLag ≤ day := by omega
      exact ⟨x, hx, by simp [htrade, hcredit]⟩
  | cons w rest ih =>
      have hk : k < decisions.length := by
        by_contra hpast
        rw [List.drop_eq_nil_of_le (by omega)] at hrest
        cases hrest
      rw [List.drop_eq_getElem_cons hk] at hrest
      obtain ⟨hw, hrest⟩ := List.cons.inj hrest
      have hdecision : decision decisions k = w := by
        simp [decision, hk, hw]
      obtain ⟨y, hy, hyvalue⟩ := value_postDecision m config decisions (k := k) hx
      obtain ⟨z, hz, hzvalue⟩ := ih hrest hy
      have hstep : postDecisions m config k (previous decisions k) (w :: rest) growth =
          postDecisions m config (k + 1) (previous decisions (k + 1)) rest
            (postDecision m config decisions k growth) := by
        rw [previous, hdecision, postDecision, hdecision]
        rfl
      have hlag (lag : Nat) (factor : Nat → ℚ) :
          (if k + lag = day then factor k else 1) *
              (if k + 1 + lag ≤ day then factor (day - lag) else 1) =
            if k + lag ≤ day then factor (day - lag) else 1 := by
        by_cases heq : k + lag = day
        · have hlate : ¬k + 1 + lag ≤ day := by omega
          have hdiff : day - lag = k := by omega
          simp [heq, hlate, hdiff]
        · by_cases hle : k + lag ≤ day
          · have hlate : k + 1 + lag ≤ day := by omega
            simp [heq, hle, hlate]
          · have hlate : ¬k + 1 + lag ≤ day := by omega
            simp [heq, hle, hlate]
      refine ⟨z, hstep ▸ hz, ?_⟩
      rw [hzvalue, hyvalue, ← hlag config.mode.tradeLag (kept config decisions),
        ← hlag config.mode.creditLag (grown m config decisions)]
      ring

end Posted

/-- Each point is the start times all growth up to its day. -/
theorem value_compound {factor : Nat → ℚ} {growth : List (Exact sqrt pow)}
    (hgrowth : ∀ e x, growth[e]? = some x → x.value = factor e) (equity : Exact sqrt pow) {d : Nat}
    (hd : d < growth.length) : ∃ y, (compound equity growth)[d]? = some y ∧
      y.value = equity.value * ∏ e ∈ range (d + 1), factor e := by
  induction growth generalizing equity factor d with
  | nil => simp at hd
  | cons g rest ih =>
      have hg : g.value = factor 0 := hgrowth 0 g rfl
      cases d with
      | zero => exact ⟨equity * g, rfl, by simp [hg]⟩
      | succ d =>
          have hlater : ∀ e x, rest[e]? = some x → x.value = factor (e + 1) :=
            fun e x hx => hgrowth (e + 1) x hx
          have hd' : d < rest.length := by simpa using hd
          obtain ⟨y, hy, hvalue⟩ := ih hlater (equity * g) hd'
          refine ⟨y, hy, ?_⟩
          rw [hvalue, prod_range_succ' _ (d + 1), Exact.value_mul, hg]
          ring

/-- Factors that are counted late are the first of all factors. -/
theorem prod_lagged (lag : Nat) (factor : Nat → ℚ) (n : Nat) :
    ∏ e ∈ range n, lagged lag factor e = ∏ i ∈ range (n - lag), factor i := by
  induction n with
  | zero => simp
  | succ n ih =>
      rw [prod_range_succ, ih]
      by_cases hle : lag ≤ n
      · rw [Nat.succ_sub hle, prod_range_succ, lagged, if_pos hle]
      · have hnone : n + 1 - lag = n - lag := by omega
        rw [lagged, if_neg hle, hnone, mul_one]

/-- Equity accounting: the equity of a day is the initial capital times the costs and the
returns of all days up to it, where each day has the cost and the return of the decisions that
lie their lags behind it. So the decisions count once each, in order, and by the last day of
the range only the last `tradeLag` costs and the last `creditLag` returns are left out. -/
theorem equity_of_decisions (m : PriceMatrix (Exact sqrt pow))
    (decisions : List (Allocation (Exact sqrt pow))) (hlength : decisions.length = m.length)
    (config : BacktestConfig (Exact sqrt pow)) (d : Nat) (hd : d < m.length) :
    ∃ equity, (simulate m decisions config)[d]? = some (m.dates[d], equity) ∧
      equity.value = config.initialCapital.value * ∏ e ∈ range (d + 1),
        lagged config.mode.schedule.tradeLag (kept config decisions) e *
          lagged config.mode.schedule.creditLag (grown m config decisions) e ∧
      equity.value = config.initialCapital.value *
        (∏ i ∈ range (d + 1 - config.mode.schedule.tradeLag), kept config decisions i) *
          ∏ i ∈ range (d + 1 - config.mode.schedule.creditLag), grown m config decisions i := by
  have hgrowth : ∀ e x, (postDecisions m config 0 .empty decisions
      (List.replicate m.length 1))[e]? = some x → x.value =
        lagged config.mode.schedule.tradeLag (kept config decisions) e *
          lagged config.mode.schedule.creditLag (grown m config decisions) e := by
    intro e x hx
    have he : e < m.length := by
      have hlt := (List.getElem?_eq_some_iff.1 hx).1
      rwa [length_postDecisions, List.length_replicate] at hlt
    have hstart : (List.replicate m.length (1 : Exact sqrt pow))[e]? = some 1 := by
      simp [he]
    obtain ⟨y, hy, hvalue⟩ := value_postDecisions m config decisions (k := 0) rfl
      (hlength ▸ he) hstart
    obtain rfl : x = y := Option.some.inj (hx.symm.trans hy)
    rw [hvalue, BacktestMode.tradeLag_eq, BacktestMode.creditLag_eq]
    simp [lagged]
  have hlast : d < (postDecisions m config 0 .empty decisions
      (List.replicate m.length 1)).length := by
    rwa [length_postDecisions, List.length_replicate]
  obtain ⟨y, hy, hvalue⟩ := value_compound hgrowth config.initialCapital hlast
  refine ⟨y, ?_, hvalue, ?_⟩
  · have hdate : m.dates[d]? = some m.dates[d] := List.getElem?_eq_getElem hd
    exact List.getElem?_zip_eq_some.2 ⟨hdate, hy⟩
  · rw [hvalue, prod_mul_distrib, prod_lagged, prod_lagged, mul_assoc]

/-! ### A sample -/

/-- One ticker that is split in two before the third day. It opens at 20 on two days, which is 10
on the basis of the adjusted closes, and at 12 on the third. -/
def sampleMatrix : PriceMatrix (Exact Rat.toNNRat fun x _ => x) where
  dates := [⟨2024, 1, 2⟩, ⟨2024, 1, 3⟩, ⟨2024, 1, 4⟩]
  prices := Table.empty.insert "SPY"
    { opening := [some 20, some 20, some 12]
      high := [some 20, some 24, some 12]
      low := [some 20, some 20, some 12]
      close := [some 20, some 24, some 12]
      adjusted := [some 10, some 12, some 12] }
  limiting := none

def sampleConfig : BacktestConfig (Exact Rat.toNNRat fun x _ => x) :=
  { BacktestConfig.standard with mode := .openToOpen, costBps := 50, initialCapital := 1000 }

/-- A ticker bought on the second open is charged for then and has earned on the third. -/
theorem sample_equity :
    ∃ equity, (simulate sampleMatrix (List.replicate 3 (Table.empty.insert "SPY" 1))
        sampleConfig)[2]? = some (⟨2024, 1, 4⟩, equity) ∧ equity.value = 1194 := by
  obtain ⟨equity, hget, -, hvalue⟩ := equity_of_decisions sampleMatrix
    (List.replicate 3 (Table.empty.insert "SPY" 1)) rfl sampleConfig 2 (by decide)
  refine ⟨equity, hget, hvalue.trans ?_⟩
  decide +kernel

end Backtest
end StrategyTree
