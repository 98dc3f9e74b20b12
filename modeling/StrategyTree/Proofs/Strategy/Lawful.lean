import Mathlib.Tactic.MkIffOfInductiveProp
import StrategyTree.Proofs.Exact
import StrategyTree.Proofs.Strategy.Keys
import StrategyTree.Proofs.Strategy.Rules
/-!
# Lawful nodes

A lawful node is told by its parts: windows, conditions, weightings, and what its kind
asks for. These are its rules, so the check of a node accepts exactly if it is lawful.
-/
namespace StrategyTree

open Rule

variable {α : Type} [Arith α]

def Reading.Lawful (r : Reading) : Prop :=
  r.metric.Takes r.window

namespace Condition

def LawfulReference : Reference α → Prop
  | .threshold x => Arith.isFinite x
  | .reading r => r.Lawful

@[mk_iff]
structure Lawful (c : Condition α) : Prop where
  left : c.left.Lawful
  right : LawfulReference c.right
  sustained : c.sustainedDays ≠ some 0

@[mk_iff]
structure LawfulList (cs : List (Condition α)) : Prop where
  opens : ∀ c ∈ cs.head?, c.connective = .first
  lawful : ∀ c ∈ cs, c.Lawful

theorem rules_hold {id : String} {c : Condition α} : (∀ r ∈ c.rules id, r.holds) ↔ c.Lawful := by
  have hreference : (referenceRule id c.right).holds ↔ LawfulReference c.right := by
    cases c.right <;> exact Iff.rfl
  simp [rules, hreference, lawful_iff, Reading.rule, Metric.rule, Reading.Lawful]

theorem listRules_hold {id : String} {cs : List (Condition α)} :
    (∀ r ∈ listRules id cs, r.holds) ↔ LawfulList cs := by
  simp only [listRules, List.forall_mem_cons, List.forall_mem_flatMap, rules_hold, lawfulList_iff]

end Condition

namespace Weighting

def Lawful : Weighting α → Prop
  | equal => True
  | inverseVolatility window | volatility window => 1 ≤ window
  | specified weights => ∀ w ∈ weights, Arith.isFinite w ∧ ¬ w < 0
  | capped cap fallback =>
      (Arith.isFinite cap ∧ ¬ cap ≤ 0 ∧ ¬ 1 < cap) ∧ ∀ ticker ∈ fallback, ¬ Text.isBlankText ticker

theorem rules_hold {id : String} {w : Weighting α} : (∀ r ∈ w.rules id, r.holds) ↔ w.Lawful := by
  cases w <;>
    simp [rules, Lawful, Metric.rule, Metric.Takes, Metric.ignoresWindow, Metric.minWindow]

section
variable {sqrt : ℚ → ℚ≥0} {pow : ℚ → ℚ → ℚ}

/-- In exact arithmetic a lawful cap lies above zero and not above one. -/
theorem lawful_capped {cap : Exact sqrt pow} {fallback : Option String} :
    (capped cap fallback).Lawful ↔
      (0 < cap.value ∧ cap.value ≤ 1) ∧ ∀ ticker ∈ fallback, ¬ Text.isBlankText ticker := by
  have hfinite : Arith.isFinite cap = true := rfl
  simp [Lawful, hfinite, Exact.lt_iff, Exact.le_iff]

end
end Weighting

theorem Fork.rules_hold {id : String} {ν : Type} {fork : Fork α ν} :
    (∀ r ∈ fork.rules id, r.holds) ↔ ∀ w ∈ [fork.thenWeighting, fork.elseWeighting], w.Lawful := by
  simp [Fork.rules, or_imp, forall_and, Weighting.rules_hold]

/-- A quantifier with a number asks for no more items than there are. -/
def Quantifier.Within (quantifier : Quantifier) (items : Nat) : Prop :=
  match quantifier with
  | .atLeast n | .atMost n | .exactly n => n ≤ items
  | .all | .any | .none | .ladder => True

namespace Node

/-- What is asked of a node for its kind, beside its conditions and weightings. -/
def Shaped (chains : Table (Node α)) : Node α → Prop
  | function _ metric window count _ _ _ => metric.Takes window ∧ 1 ≤ count
  | numbered _ items quantifier fork ladder =>
      items ≠ [] ∧ quantifier.Within items.length ∧
        if quantifier = .ladder then
          ladder.length = items.length + 1 ∧ ∀ entry ∈ fork.thenSlot ++ fork.elseSlot, entry = none
        else ladder = []
  | position _ tickers => tickers ≠ [] ∧ ∀ ticker ∈ tickers, ¬ Text.isBlankText ticker
  | call _ chain => ∃ root, chains.get? chain = some root
  | scaling _ reading lower upper _ =>
      reading.Lawful ∧ (Arith.isFinite lower ∧ Arith.isFinite upper) ∧ (lower == upper) = false
  | basic .. | indicator .. | altExit .. => True

@[mk_iff]
structure Lawful (chains : Table (Node α)) (n : Node α) : Prop where
  shape : n.Shaped chains
  conditions : ∀ list ∈ n.conditionLists, Condition.LawfulList list
  weightings : ∀ w ∈ n.weightings, w.Lawful

omit [Arith α] in
theorem ladderRules_hold {id : String} {items slots : Nat} {quantifier : Quantifier}
    {fork : Fork α (Node α)} : (∀ r ∈ ladderRules id items quantifier fork slots, r.holds) ↔
      if quantifier = .ladder then
        slots = items + 1 ∧ ∀ entry ∈ fork.thenSlot ++ fork.elseSlot, entry = none
      else slots = 0 := by
  unfold ladderRules
  split <;> simp

theorem boundRules_hold {id : String} {items : Nat} {quantifier : Quantifier} :
    (∀ r ∈ boundRules id items quantifier, r.holds) ↔ quantifier.Within items := by
  unfold boundRules Quantifier.Within
  cases quantifier <;> simp

theorem rules_hold {chains : Table (Node α)} {n : Node α} :
    (∀ r ∈ n.rules chains, r.holds) ↔ n.Lawful chains := by
  rw [lawful_iff]
  cases n with
  | basic id weighting next =>
      simp [rules, Shaped, conditionLists, weightings, Weighting.rules_hold]
  | function id metric window count select weighting next =>
      simp [rules, Shaped, conditionLists, weightings, Weighting.rules_hold, Metric.rule,
        Nat.one_le_iff_ne_zero, and_assoc]
  | indicator id conditions fork =>
      rw [rules, List.forall_mem_append, Condition.listRules_hold, Fork.rules_hold]
      simp [Shaped, conditionLists, weightings]
  | numbered id items quantifier fork ladder =>
      simp only [rules, Shaped, conditionLists, weightings, List.forall_mem_cons,
        List.forall_mem_append, List.forall_mem_flatMap, Condition.listRules_hold, boundRules_hold,
        ladderRules_hold, Fork.rules_hold, List.length_eq_zero_iff]
      constructor
      · rintro ⟨hitems, hlists, hbound, hladder, hweightings⟩
        exact ⟨⟨hitems, hbound, hladder⟩, hlists, hweightings⟩
      · rintro ⟨⟨hitems, hbound, hladder⟩, hlists, hweightings⟩
        exact ⟨hitems, hlists, hbound, hladder, hweightings⟩
  | position id tickers => simp [rules, Shaped, conditionLists, weightings]
  | call id chain =>
      simp [rules, Shaped, conditionLists, weightings, Table.contains, Option.isSome_iff_exists]
  | altExit id entry exit fork =>
      rw [rules, List.forall_mem_append, List.forall_mem_append, Condition.listRules_hold,
        Condition.listRules_hold, Fork.rules_hold]
      simp [Shaped, conditionLists, weightings, and_assoc]
  | scaling id reading lower upper fork =>
      simp [rules, Shaped, conditionLists, weightings, Fork.rules_hold, Reading.rule, Metric.rule,
        Reading.Lawful, and_assoc]

theorem check_ok {chains : Table (Node α)} {n : Node α} :
    n.check chains = .ok () ↔ n.Lawful chains := by
  rw [check_eq, enforce_ok, rules_hold]

theorem check_error {chains : Table (Node α)} {n : Node α} {e : Failure} :
    n.check chains = .error e ↔ FirstBroken (n.rules chains) e := by
  rw [check_eq, enforce_error]

end Node
end StrategyTree
