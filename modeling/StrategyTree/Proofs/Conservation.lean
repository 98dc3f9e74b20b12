import Mathlib.Algebra.BigOperators.Group.Finset.Piecewise
import StrategyTree.Proofs.Turnover
import StrategyTree.Proofs.Weighting
/-!
# Conservation of weight in a slot

In exact arithmetic a slot neither makes nor loses weight by itself. Its children share
one, so what they hold is spread by shares; a weighting by volatility moves weight between
the tickers that are held, and a cap from those above it to the fallback or to cash.
-/
namespace StrategyTree

open Finset

variable {sqrt : ℚ → ℚ≥0} {pow : ℚ → ℚ → ℚ}

namespace Allocation

open Backtest (held)

variable {a b : Allocation (Exact sqrt pow)}

/-- The weight of one ticker counts the others with zero. -/
theorem value_weight_eq_tally (a : Allocation (Exact sqrt pow)) (t : String) :
    (a.weight t).value = tally (fun u => if u = t then 1 else 0) a.entries := by
  have hsum := sum_held (a := a) fun u (w : Exact sqrt pow) => (if u = t then 1 else 0) * w.value
  rw [tally, ← hsum]
  simp only [ite_mul, one_mul, zero_mul, sum_ite_eq']
  split
  · rfl
  · next hnot => rw [weight_of_not_mem (mt mem_held.2 hnot), Exact.value_zero]

/-- Positive weights determine an allocation. -/
theorem ext_weight (ha : ∀ e ∈ a.entries, 0 < e.2) (hb : ∀ e ∈ b.entries, 0 < e.2)
    (h : ∀ t, (a.weight t).value = (b.weight t).value) : a = b := by
  have hfound {c d : Allocation (Exact sqrt pow)} (hc : ∀ e ∈ c.entries, 0 < e.2)
      (hsame : ∀ t, (c.weight t).value = (d.weight t).value) {t : String} {w : Exact sqrt pow}
      (hw : c.get? t = some w) : d.get? t = some w := by
    have hpos : 0 < w.value := hc _ (Table.get?_eq_some_iff.1 hw)
    have hvalue := hsame t
    rw [weight, hw, Option.getD_some] at hvalue
    cases hd : d.get? t with
    | none =>
        rw [weight, hd, Option.getD_none, Exact.value_zero] at hvalue
        exact absurd hvalue hpos.ne'
    | some v =>
        rw [weight, hd, Option.getD_some] at hvalue
        cases w
        cases v
        exact congrArg (fun q => some (Exact.mk q)) hvalue.symm
  refine Table.ext_get? fun t => Option.ext fun w => ?_
  exact ⟨hfound ha h, hfound hb fun u => (h u).symm⟩

end Allocation

namespace Weighting

variable (w : Weighting (Exact sqrt pow)) {children : List (Nat × Allocation (Exact sqrt pow))}

/-- What the child at a place counts for: its specified weight, nothing if that is missing or
negative, and one where no weights are specified. -/
def claim (place : Nat) : ℚ :=
  match w with
  | .specified weights => max (weights[place]?.getD 0).value 0
  | _ => 1

/-- The share of the child at a place: in proportion to what the children count for, and an
equal one if they count for nothing. -/
def share (places : List Nat) (place : Nat) : ℚ :=
  let claims := (places.map w.claim).sum
  if claims = 0 then 1 / places.length else w.claim place / claims

theorem claim_nonneg (place : Nat) : 0 ≤ w.claim place := by
  unfold claim
  split
  · exact le_max_right _ _
  · exact zero_le_one

theorem share_of_equal (h : ∀ place, w.claim place = 1) (places : List Nat) (place : Nat) :
    w.share places place = 1 / places.length := by
  have hclaims : (places.map w.claim).sum = places.length := by
    simp [funext h]
  unfold share
  dsimp only
  rw [hclaims, h, ite_self]

theorem sum_claims_nonneg (places : List Nat) : 0 ≤ (places.map w.claim).sum := by
  apply List.sum_nonneg
  intro x hx
  obtain ⟨place, -, rfl⟩ := List.mem_map.1 hx
  exact w.claim_nonneg place

/-- The shares are given place by place. -/
theorem shares_eq (places : List Nat) :
    w.shares places = places.map fun place => ⟨w.share places place⟩ := by
  have hequal (h : ∀ place ∈ places, w.share places place = 1 / places.length) :
      List.replicate places.length (1 / Arith.ofNat places.length : Exact sqrt pow) =
        places.map fun place => ⟨w.share places place⟩ := by
    rw [← List.map_const']
    exact List.map_congr_left fun place hplace => congrArg Exact.mk (h place hplace).symm
  cases w with
  | specified weights =>
      let raw : List (Exact sqrt pow) :=
        places.map fun i => Arith.larger (weights[i]?.getD 0) 0
      have hsum : (Arith.sum raw).value = (places.map (specified weights).claim).sum := by
        rw [Exact.value_sum, List.map_map]
        exact congrArg List.sum (List.map_congr_left fun place _ => Exact.value_larger)
      by_cases hzero : (places.map (specified weights).claim).sum = 0
      · have hnot : ¬0 < Arith.sum raw := by
          rw [Exact.lt_iff, hsum, hzero]
          exact lt_irrefl _
        have hshares : (specified weights).shares places =
            List.replicate places.length (1 / Arith.ofNat places.length) := if_neg hnot
        rw [hshares]
        exact hequal fun place _ => if_pos hzero
      · have hpos : 0 < Arith.sum raw := by
          rw [Exact.lt_iff, hsum]
          exact lt_of_le_of_ne (sum_claims_nonneg _ places) (Ne.symm hzero)
        have hshares : (specified weights).shares places = raw.map (· / Arith.sum raw) :=
          if_pos hpos
        rw [hshares, List.map_map]
        refine List.map_congr_left fun place _ => congrArg Exact.mk ?_
        rw [share, if_neg hzero, hsum]
        exact congrArg (· / _) Exact.value_larger
  | _ => exact hequal fun place _ => share_of_equal _ (fun _ => rfl) places place

/-- The shares do not depend on the order of the children. -/
theorem share_perm {places places' : List Nat} (h : places'.Perm places) :
    w.share places' = w.share places := by
  funext place
  rw [share, share, (h.map w.claim).sum_eq, h.length_eq]

/-- What each ticker weighs in a slot, and so what any sum of weights comes to, is what it comes
to in the children, by their shares. -/
theorem spread_eq (hne : children ≠ [])
    (hnonneg : ∀ c ∈ children, ∀ e ∈ c.2.entries, 0 ≤ e.2.value) :
    ∃ a, w.spread children = some a ∧ (∀ e ∈ a.entries, 0 < e.2) ∧
      ∀ g, Allocation.tally g a.entries = (children.map fun c =>
        w.share (children.map Prod.fst) c.1 * Allocation.tally g c.2.entries).sum := by
  have hplaces : children.map Prod.fst ≠ [] := by simpa using hne
  have hfair := (w.fair_shares hplaces).nonneg
  let parts : List (Allocation (Exact sqrt pow) × Exact sqrt pow) :=
    children.map fun c => (c.2, ⟨w.share (children.map Prod.fst) c.1⟩)
  have hzip : (children.map Prod.snd).zip (w.shares (children.map Prod.fst)) = parts := by
    rw [shares_eq, List.map_map, List.zip_map']
    rfl
  have hparts : ∀ p ∈ parts, (∀ e ∈ p.1.entries, 0 ≤ e.2.value) ∧ 0 ≤ p.2.value := by
    intro p hp
    rw [← hzip] at hp
    obtain ⟨hchild, hshare⟩ := List.of_mem_zip hp
    obtain ⟨c, hc, heq⟩ := List.mem_map.1 hchild
    exact ⟨heq ▸ hnonneg c hc, hfair p.2 hshare⟩
  refine ⟨parts.foldl (fun t p => t.addScaled p.1 p.2) .empty, ?_, ?_, fun g => ?_⟩
  · have hfull : children.isEmpty = false := by simpa using hne
    rw [spread, hfull, hzip]
    rfl
  · exact Allocation.forall_pos_foldl_addScaled (fun _ he => by cases he) parts
  · rw [Allocation.tally_foldl_addScaled g hparts, List.map_map]
    exact zero_add _

/-- In whatever order the children come, they make the same allocation. -/
theorem combine_perm {children' : List (Nat × Allocation (Exact sqrt pow))} (hne : children ≠ [])
    (hnonneg : ∀ c ∈ children, ∀ e ∈ c.2.entries, 0 ≤ e.2.value)
    (h : children'.Perm children) (sigma : String → Option (Exact sqrt pow)) :
    w.combine children' sigma = w.combine children sigma := by
  have hne' : children' ≠ [] := fun hnil => hne (List.Perm.eq_nil (hnil ▸ h.symm))
  have hnonneg' : ∀ c ∈ children', ∀ e ∈ c.2.entries, 0 ≤ e.2.value :=
    fun c hc => hnonneg c (h.mem_iff.1 hc)
  obtain ⟨a, ha, hpos, htally⟩ := w.spread_eq hne hnonneg
  obtain ⟨b, hb, hpos', htally'⟩ := w.spread_eq hne' hnonneg'
  have hsame : b = a := by
    refine Allocation.ext_weight hpos' hpos fun t => ?_
    rw [Allocation.value_weight_eq_tally, Allocation.value_weight_eq_tally, htally, htally',
      share_perm w (h.map Prod.fst)]
    exact (h.map _).sum_eq
  rw [combine, combine, ha, hb, hsame]

end Weighting

/-- An allocation under a cap. The fallback, if there is one and it is not cash, takes what the
others have to give up; otherwise that is lost to cash. -/
structure Allocation.CappedTo (cap : Exact sqrt pow) (fallback : Option String)
    (before after : Allocation (Exact sqrt pow)) : Prop where
  total_of_fallback {t : String} : (Weighting.capped cap fallback).fallback? = some t →
    after.total.value = before.total.value
  total_of_cash : (Weighting.capped cap fallback).fallback? = none →
    after.total.value =
      before.total.value - (before.entries.map fun e => max (e.2.value - cap.value) 0).sum
  le_cap : ∀ e ∈ after.entries, (Weighting.capped cap fallback).fallback? ≠ some e.1 → e.2 ≤ cap
  idempotent : after.capped cap fallback = after

theorem Allocation.cappedTo (a : Allocation (Exact sqrt pow)) (cap : Exact sqrt pow)
    (fallback : Option String) : a.CappedTo cap fallback (a.capped cap fallback) where
  total_of_fallback h := value_total_capped h
  total_of_cash h := by rw [capped_of_cash h, value_total_clipped]
  le_cap _ he h := capped_le_cap he h
  idempotent := capped_of_le fun _ he h => capped_le_cap he h

namespace Weighting

/-- What a weighting makes of the allocation that is spread over a slot. -/
def Adjusts (w : Weighting (Exact sqrt pow)) (sigma : String → Option (Exact sqrt pow))
    (before after : Allocation (Exact sqrt pow)) : Prop :=
  match w with
  | .equal | .specified _ => after = before
  | .inverseVolatility _ => before.Rescaled sigma (fun weight x => weight / x) after
  | .volatility _ => before.Rescaled sigma (fun weight x => weight * x) after
  | .capped cap fallback => before.CappedTo cap fallback after

theorem adjusts_adjust (w : Weighting (Exact sqrt pow)) (sigma : String → Option (Exact sqrt pow))
    {a : Allocation (Exact sqrt pow)} (ha : ∀ e ∈ a.entries, 0 < e.2) :
    w.Adjusts sigma a (w.adjust sigma a) := by
  cases w with
  | equal => rfl
  | specified weights => rfl
  | inverseVolatility window =>
      refine Allocation.rescaled_scaleByVolatility ha (fun x hx => ?_) fun weight x => ?_
      · exact one_div_pos.2 (Exact.lt_iff.1 hx)
      · exact mul_one_div weight x.value
  | volatility window =>
      exact Allocation.rescaled_scaleByVolatility ha (fun _ hx => hx) fun _ _ => rfl
  | capped cap fallback => exact a.cappedTo cap fallback

/-- A slot conserves weight, whatever its weighting. Its children have shares that are not
negative and sum to one, given by their own places, and before the weighting adjusts anything
each ticker and the total weigh what they do in the children by these shares. A weighting by
volatility only moves weight between tickers, and a cap loses none but to cash. The children
may come in any order. -/
theorem combine_conserves (w : Weighting (Exact sqrt pow))
    {children : List (Nat × Allocation (Exact sqrt pow))} (hne : children ≠ [])
    (hnonneg : ∀ c ∈ children, ∀ e ∈ c.2.entries, 0 ≤ e.2)
    (sigma : String → Option (Exact sqrt pow)) :
    Fair (w.shares (children.map Prod.fst)) ∧
      (w.shares (children.map Prod.fst) =
        children.map fun c => ⟨w.share (children.map Prod.fst) c.1⟩) ∧
      ∃ before after, w.spread children = some before ∧ w.combine children sigma = some after ∧
        before.total.value = (children.map fun c =>
          w.share (children.map Prod.fst) c.1 * c.2.total.value).sum ∧
        (∀ t, (before.weight t).value = (children.map fun c =>
          w.share (children.map Prod.fst) c.1 * (c.2.weight t).value).sum) ∧
        w.Adjusts sigma before after ∧
        ∀ children' : List (Nat × Allocation (Exact sqrt pow)), children'.Perm children →
          w.combine children' sigma = some after := by
  have hplaces : children.map Prod.fst ≠ [] := by simpa using hne
  obtain ⟨before, hbefore, hpos, htally⟩ := w.spread_eq hne hnonneg
  have hafter : w.combine children sigma = some (w.adjust sigma before) := by
    rw [combine, hbefore, Option.map_some]
  refine ⟨w.fair_shares hplaces, ?_, before, w.adjust sigma before, hbefore, hafter, ?_, ?_,
    w.adjusts_adjust sigma hpos, ?_⟩
  · rw [shares_eq, List.map_map]
    rfl
  · simp only [Allocation.value_total_eq_tally, htally]
  · intro t
    simp only [Allocation.value_weight_eq_tally, htally]
  · intro children' h
    rw [combine_perm w hne hnonneg h, hafter]

/-- Two children of a slot, the second behind a placeholder and partly in cash. -/
def sampleSlot : List (Nat × Allocation (Exact Rat.toNNRat fun x _ => x)) :=
  [(0, Table.ofList [("SPY", 1)]), (2, Table.ofList [("QQQ", 1 / 2), ("SPY", 1 / 4)])]

/-- A cap of one half moves an eighth to a ticker that neither child holds, and the quarter of
the second child that is in cash stays there. -/
theorem sampleSlot_conserved : sampleSlot ≠ [] ∧
    (∀ c ∈ sampleSlot, ∀ e ∈ c.2.entries, 0 ≤ e.2) ∧
    ∃ after, (capped (1 / 2) (some "TLT")).combine sampleSlot (fun _ => none) = some after ∧
      after.entries = [("QQQ", 1 / 4), ("SPY", 1 / 2), ("TLT", 1 / 8)] ∧
      after.total.value = 7 / 8 ∧
      (capped (1 / 2) (some "TLT")).combine sampleSlot.reverse (fun _ => none) = some after := by
  have hne : sampleSlot ≠ [] := by decide
  have hnonneg : ∀ c ∈ sampleSlot, ∀ e ∈ c.2.entries, 0 ≤ e.2 := by decide +kernel
  obtain ⟨-, -, before, after, hbefore, hafter, -, -, hadjusts, hperm⟩ :=
    combine_conserves (capped (1 / 2) (some "TLT")) hne hnonneg fun _ => none
  have hspread : (capped (1 / 2) (some "TLT")).spread sampleSlot =
      some (Table.ofList [("QQQ", 1 / 4), ("SPY", 5 / 8)]) := by
    decide +kernel
  have hcombined : (capped (1 / 2) (some "TLT")).combine sampleSlot (fun _ => none) =
      some (Table.ofList [("QQQ", 1 / 4), ("SPY", 1 / 2), ("TLT", 1 / 8)]) := by
    decide +kernel
  have hentries : after = Table.ofList [("QQQ", 1 / 4), ("SPY", 1 / 2), ("TLT", 1 / 8)] :=
    Option.some.inj (hafter.symm.trans hcombined)
  refine ⟨hne, hnonneg, after, hafter, by rw [hentries]; rfl, ?_, hperm _ (List.reverse_perm _)⟩
  obtain rfl := Option.some.inj (hbefore.symm.trans hspread)
  rw [hadjusts.total_of_fallback rfl]
  decide +kernel

end Weighting
end StrategyTree
