import Mathlib.Data.List.Basic
import StrategyTree.Proofs.Table
import StrategyTree.Weighting
/-!
# Tickers of allocations

No step by which an allocation is made from others brings in a ticker, but for the
fallback of a cap. So what holds of every ticker of the children holds of every ticker
of what is made from them.
-/
namespace StrategyTree

variable {α : Type} {P : String → Prop}

namespace Allocation

/-- Only tickers with a property are held. -/
def Within (P : String → Prop) (a : Allocation α) : Prop :=
  ∀ t ∈ a.keys, P t

variable {a : Allocation α}

theorem within_empty : Within P (.empty : Allocation α) := by
  intro t ht
  cases ht

theorem Within.map (ha : a.Within P) (f : String → α → α) : Within P (Table.map f a) := by
  intro t ht
  rw [Table.keys_map] at ht
  exact ha t ht

variable [Arith α]

theorem weight_of_mem {e : String × α} (h : e ∈ a.entries) : a.weight e.1 = e.2 := by
  have hget : a.get? e.1 = some e.2 := Table.get?_eq_some_iff.2 h
  rw [weight, hget, Option.getD_some]

theorem weight_of_not_mem {ticker : String} (h : ticker ∉ a.keys) : a.weight ticker = 0 := by
  rw [weight, Table.get?_eq_none_iff.2 h, Option.getD_none]

theorem Within.add (ha : a.Within P) {ticker : String} (ht : P ticker) (x : α) :
    (a.add ticker x).Within P := by
  intro t hmem
  rcases Table.mem_keys_alter.1 hmem with rfl | hmem
  · exact ht
  · exact ha t hmem

theorem Within.addScaled (ha : a.Within P) {source : Allocation α} (hsource : source.Within P)
    (factor : α) : (a.addScaled source factor).Within P := by
  refine List.foldlRecOn _ _ ha fun b hb e he => ?_
  have hticker : P e.1 := hsource e.1 (List.mem_map_of_mem he)
  dsimp only
  split
  · exact hb.add hticker _
  · exact hb

theorem within_blend {parts : List (α × Option (Allocation α))}
    (hparts : ∀ p ∈ parts, ∀ b, p.2 = some b → b.Within P) (h : blend parts = some a) :
    a.Within P := by
  unfold blend at h
  split at h
  · cases h
  · obtain rfl := Option.some.inj h
    refine List.foldlRecOn _ _ within_empty fun b hb p hp => ?_
    cases hpart : p.2 with
    | none => exact hb
    | some part => exact hb.addScaled (hparts p hp part hpart) p.1

/-- A position holds those of its tickers that are in scope, without cash. -/
theorem within_ofPosition {cash : String} {inScope : String → Bool} {tickers : List String}
    (htickers : ∀ t ∈ tickers, t ≠ cash → inScope t = true → P t)
    (h : ofPosition cash inScope tickers = some a) : a.Within P := by
  unfold ofPosition at h
  dsimp only at h
  split at h
  · cases h
  · obtain rfl := Option.some.inj h
    refine List.foldlRecOn _ _ within_empty fun b hb t ht => ?_
    simp only [List.mem_filter, decide_eq_true_eq, Bool.or_eq_true, beq_iff_eq] at ht
    have hcash : t ≠ cash := ht.2
    have hscope : inScope t = true := ht.1.2.resolve_left hcash
    exact hb.add (htickers t ht.1.1 hcash hscope) _

theorem Within.scaleByVolatility (ha : a.Within P) (sigma : String → Option α) (factor : α → α) :
    (a.scaleByVolatility sigma factor).Within P := by
  unfold Allocation.scaleByVolatility
  dsimp only
  split
  · exact ha
  split
  · exact (ha.map _).map _
  · exact ha

omit [Arith α] in
/-- Cash is no fallback. -/
theorem fallback?_capped (cap : α) (fallback : Option String) :
    (Weighting.capped cap fallback).fallback? = fallback.filter (· ≠ cashTicker) := by
  cases fallback with
  | none => rfl
  | some t => by_cases hcash : t = cashTicker <;> simp [Weighting.fallback?, Option.filter, hcash]

theorem Within.capped (ha : a.Within P) {cap : α} {fallback : Option String}
    (hfallback : ∀ t, (Weighting.capped cap fallback).fallback? = some t → P t) :
    (a.capped cap fallback).Within P := by
  unfold Allocation.capped
  dsimp only
  rw [← fallback?_capped cap]
  split
  · next ticker hticker =>
      split
      · exact (ha.map _).add (hfallback ticker hticker) _
      · exact ha.map _
  · exact ha.map _

end Allocation

namespace Weighting

variable [Arith α] {w : Weighting α}

theorem within_spread {children : List (Nat × Allocation α)} {a : Allocation α}
    (hchildren : ∀ c ∈ children, c.2.Within P) (h : w.spread children = some a) : a.Within P := by
  unfold spread at h
  split at h
  · cases h
  · obtain rfl := Option.some.inj h
    refine List.foldlRecOn _ _ Allocation.within_empty fun b hb p hp => ?_
    obtain ⟨c, hc, heq⟩ := List.mem_map.1 (List.of_mem_zip hp).1
    exact hb.addScaled (heq ▸ hchildren c hc) p.2

/-- An adjustment brings in no ticker but the fallback of a cap. -/
theorem within_adjust {a : Allocation α} (ha : a.Within P)
    (hfallback : ∀ t, w.fallback? = some t → P t) (sigma : String → Option α) :
    (w.adjust sigma a).Within P := by
  cases w with
  | equal => exact ha
  | specified weights => exact ha
  | inverseVolatility window => exact ha.scaleByVolatility sigma Arith.reciprocal
  | volatility window => exact ha.scaleByVolatility sigma fun s => s
  | capped cap fallback => exact ha.capped hfallback

end Weighting
end StrategyTree
