import StrategyTree.Proofs.Condition.Signal
import StrategyTree.Proofs.Evaluation.Simulation
import StrategyTree.Proofs.Outcome
import StrategyTree.Proofs.Strategy.CallGraph
import StrategyTree.Proofs.Strategy.Lawful
/-!
# What validation promises

An accepted strategy has lawful nodes with distinct identifiers and no chain
that reaches itself. A lawful node resolves every indicator that it names, so
the only failure that its evaluation could still raise is a call of a chain on
the path.
-/
namespace StrategyTree

variable {α : Type}

open Outcome

variable [Arith α]

/-- A lawful weighting resolves the indicator that it reads. -/
theorem Weighting.Lawful.resolves {w : Weighting α} (h : w.Lawful) :
    ∃ i, w.volatilityIndicator = .ok i := by
  have hwindow {window : Int} (hw : 1 ≤ window) :
      ∃ i, some <$> Indicator.resolve .stdDevReturn window = .ok i := by
    obtain ⟨i, hi⟩ := Indicator.resolve_ok (.inr hw : Metric.stdDevReturn.Takes window)
    exact ⟨some i, by rw [hi]; rfl⟩
  cases w with
  | equal => exact ⟨_, rfl⟩
  | specified weights => exact ⟨_, rfl⟩
  | capped cap fallback => exact ⟨_, rfl⟩
  | inverseVolatility window => exact hwindow h
  | volatility window => exact hwindow h

theorem Condition.Lawful.resolves {c : Condition α} (h : c.Lawful) : c.Resolves := by
  constructor
  · exact Indicator.resolve_ok h.left
  · intro r heq
    have hright := h.right
    rw [heq] at hright
    exact Indicator.resolve_ok hright

namespace Node

variable {chains : Table (Node α)} {n : Node α}

/-- A lawful node can only fail by calling a chain on the path. -/
theorem Lawful.faults (h : n.Lawful chains) {path : List String} {e : Failure}
    (he : n.Faults chains path e) : ∃ id chain, n = .call id chain ∧ chain ∈ path := by
  cases he with
  | window hi =>
      obtain ⟨i, hok⟩ := Indicator.resolve_ok h.shape.1
      rw [hi] at hok
      cases hok
  | weighting hw hi =>
      obtain ⟨i, hok⟩ := (h.weightings _ hw).resolves
      rw [hi] at hok
      cases hok
  | bounds hb =>
      obtain ⟨-, -, hne⟩ := h.shape
      rw [hb] at hne
      cases hne
  | reading hi =>
      obtain ⟨i, hok⟩ := Indicator.resolve_ok h.shape.1
      rw [Reading.indicator, hok] at hi
      cases hi
  | dangling hc =>
      obtain ⟨root, hroot⟩ := h.shape
      rw [hc] at hroot
      cases hroot
  | cycle hmem => exact ⟨_, _, rfl, hmem⟩

/-- Nodes pass one after the other if each passes and no identifier comes twice. -/
theorem checkAll_ok {seen : List String} {ns : List (Node α)} :
    checkAll chains seen ns = .ok () ↔ (∀ n ∈ ns, n.check chains = .ok ()) ∧
      (ns.map Node.id).Nodup ∧ ∀ n ∈ ns, n.id ∉ seen := by
  induction ns generalizing seen with
  | nil => simp [checkAll]
  | cons n rest ih =>
      simp only [checkAll, then_ok, ensure_ok, ih, List.map_cons, List.nodup_cons, List.mem_map,
        List.mem_cons, not_or, forall_eq_or_imp]
      constructor
      · rintro ⟨hn, hc, hrest, hnodup, hfresh⟩
        refine ⟨⟨hc, hrest⟩, ⟨?_, hnodup⟩, hn, fun m hm => (hfresh m hm).2⟩
        rintro ⟨m, hm, heq⟩
        exact (hfresh m hm).1 heq
      · rintro ⟨⟨hc, hrest⟩, ⟨hid, hnodup⟩, hn, hfresh⟩
        exact ⟨hn, hc, hrest, hnodup, fun m hm => ⟨fun heq => hid ⟨m, hm, heq⟩, hfresh m hm⟩⟩

end Node

namespace Strategy

structure WellFormed (s : Strategy α) : Prop where
  checked {n : Node α} : n ∈ s.nodes → n.check s.chains = .ok ()
  distinct : (s.nodes.map Node.id).Nodup
  acyclic (chain : String) : ¬ Relation.TransGen (CallGraph.Calls s.chains) chain chain

theorem wellFormed_of_validate {s : Strategy α} {anchors : Tickers}
    (h : s.validate = .ok anchors) : s.WellFormed := by
  obtain ⟨hnodes, h⟩ := then_ok.1 h
  obtain ⟨hgraph, -⟩ := then_ok.1 h
  obtain ⟨hchecked, hdistinct, -⟩ := Node.checkAll_ok.1 hnodes
  exact ⟨fun hn => hchecked _ hn, hdistinct, CallGraph.acyclic_of_check hgraph⟩

/-- A strategy is accepted with its own anchors. -/
theorem anchors_of_validate {s : Strategy α} {anchors : Tickers} (h : s.validate = .ok anchors) :
    anchors = s.anchorTickers := by
  obtain ⟨-, h⟩ := then_ok.1 h
  obtain ⟨-, h⟩ := then_ok.1 h
  exact (Except.ok.inj h).symm

/-- Nodes with one identifier are the same node. -/
theorem WellFormed.node_eq {s : Strategy α} (hs : s.WellFormed) {n n' : Node α}
    (hn : n ∈ s.nodes) (hn' : n' ∈ s.nodes) (h : n.id = n'.id) : n = n' :=
  List.inj_on_of_nodup_map hs.distinct hn hn' h

end Strategy
end StrategyTree
