import StrategyTree.Proofs.Evaluation.Depth
import StrategyTree.Proofs.Evaluation.Prefix
import StrategyTree.Proofs.Weighting
/-!
# Bounds of evaluated allocations

In exact arithmetic every node of an accepted strategy yields a bounded allocation
or nothing, and so does the strategy on every day.
-/
namespace StrategyTree

variable {sqrt : ℚ → ℚ≥0} {pow : ℚ → ℚ → ℚ}

/-- The branches of a fork share one. -/
theorem Allocation.bounded_forkParts {share : Exact sqrt pow} (hshare : IsShare share)
    {first second : Option (Allocation (Exact sqrt pow))}
    (hfirst : ∀ b, first = some b → b.Bounded) (hsecond : ∀ b, second = some b → b.Bounded)
    {a : Allocation (Exact sqrt pow)} (h : blend (forkParts share first second) = some a) :
    a.Bounded := by
  obtain ⟨h₀, h₁⟩ := hshare.mem_unit
  have hrest : 0 ≤ (1 - share).value := by
    rw [Exact.value_sub, Exact.value_one]
    linarith
  refine bounded_blend (fun p hp => ?_) ?_ h
  · rcases List.mem_append.1 hp with hp | hp
    · split at hp
      · obtain rfl := List.mem_singleton.1 hp
        exact ⟨h₀, hfirst⟩
      · cases hp
    · split at hp
      · obtain rfl := List.mem_singleton.1 hp
        exact ⟨hrest, hsecond⟩
      · cases hp
  · unfold forkParts
    split <;> split <;> simp [h₁, h₀]

namespace Strategy

variable {s : Strategy (Exact sqrt pow)}

/-- An evaluation beside itself that keeps allocations bounded. -/
def WellFormed.bounded (hs : s.WellFormed) {src : Sources (Exact sqrt pow)} (hsrc : src.Steady) :
    Simulation src src s.chains where
  toCoupling := .self
  covers _ n := n ∈ s.nodes
  good _ a := a.Bounded
  child := child_mem_nodes
  enter _ hroot _ := chain_mem_nodes hroot
  fault _ _ := trivial
  verdict _ _ := hsrc.verdict _ _
  value _ := hsrc.value _ _
  candidates _ := (hsrc.candidates _).mono fun _ _ _ _ => trivial
  held _ ha := Allocation.bounded_ofPosition ha
  settled sigma hn hw hc ha := Weighting.bounded_adjust
    ((Node.check_ok.1 (hs.checked hn)).weightings _ hw) sigma (Weighting.bounded_spread hc ha)
  mixed hshare hfirst hsecond h := Allocation.bounded_forkParts hshare hfirst hsecond h
  narrowed _ ha := ha
  empty := Allocation.bounded_empty

/-- Whatever a node of an accepted strategy yields is bounded, in every state and at every
depth of calls. -/
theorem WellFormed.bounded_evaluateWithin (hs : s.WellFormed) {src : Sources (Exact sqrt pow)}
    (hsrc : src.Steady) {n : Node (Exact sqrt pow)} (hn : n ∈ s.nodes) (day depth : Nat)
    (scope : Scope) (state : RunState (Exact sqrt pow)) {a : Allocation (Exact sqrt pow)}
    (h : (n.evaluateWithin src s.chains day depth scope state).1 = .ok (some a)) : a.Bounded := by
  have hmatch := (hs.bounded hsrc).evaluateWithin day depth n hn scope state state rfl rfl rfl
  have hgood := hmatch.admitted
  rw [h] at hgood
  exact hgood a rfl

theorem WellFormed.bounded_of_evaluateDay (hs : s.WellFormed) {m : PriceMatrix (Exact sqrt pow)}
    {day : Nat} {state : RunState (Exact sqrt pow)} {a : Allocation (Exact sqrt pow)}
    (h : (s.evaluateDay m day state).1 = .ok a) : a.Bounded := by
  have hsrc := Sources.remembering_steady m s.chains day
  have hmatch := (hs.bounded hsrc).evaluateDay s.root_mem_nodes day (rfl : state = state)
  have hgood := hmatch.admitted
  change Coupling.Admits _ _ (s.evaluateDay m day state).1 at hgood
  rw [h] at hgood
  exact hgood

/-- Every decision of a run is bounded. -/
theorem WellFormed.bounded_of_evaluateDays (hs : s.WellFormed)
    {m : PriceMatrix (Exact sqrt pow)} {days : List Nat} {state : RunState (Exact sqrt pow)}
    {ws : List (Allocation (Exact sqrt pow))} (h : (s.evaluateDays m days state).1 = .ok ws) :
    ∀ w ∈ ws, w.Bounded := by
  induction days generalizing state ws with
  | nil =>
      obtain rfl : [] = ws := Except.ok.inj h
      intro w hw
      cases hw
  | cons day rest ih =>
      obtain ⟨a, others, ha, hothers, rfl⟩ := evaluateDays_uncons h
      exact List.forall_mem_cons.2 ⟨hs.bounded_of_evaluateDay ha, ih hothers⟩

/-- The allocation invariant: on every day, after whatever days were evaluated before, an
accepted strategy decides an allocation with positive weights, none of them for cash, and
a sum of at most one. So does every node that yields an allocation on the way. -/
theorem evaluateDay_bounded {anchors : Tickers} (hs : s.validate = .ok anchors)
    (m : PriceMatrix (Exact sqrt pow)) (days : List Nat) (day : Nat) :
    (∃ a, (s.evaluateDay m day (s.stateAfter m days)).1 = .ok a ∧ a.Bounded) ∧
      ∀ n ∈ s.nodes, ∀ (depth : Nat) (scope : Scope) (state : RunState (Exact sqrt pow)) a,
        (n.evaluateWithin (.remembering m s.chains day) s.chains day depth scope state).1 =
          .ok (some a) → a.Bounded := by
  have hs := wellFormed_of_validate hs
  have hsrc := Sources.remembering_steady m s.chains day
  constructor
  · have hmatch := (hs.bounded hsrc).evaluateDay s.root_mem_nodes day
      (rfl : s.stateAfter m days = s.stateAfter m days)
    obtain ⟨⟨a, ha⟩, -⟩ := hs.evaluateDay_ok (hs.faithful_stateAfter m days) day
    have hgood := hmatch.admitted
    change Coupling.Admits _ _ (s.evaluateDay m day (s.stateAfter m days)).1 at hgood
    rw [ha] at hgood
    exact ⟨a, ha, hgood⟩
  · intro n hn depth scope state a ha
    exact hs.bounded_evaluateWithin hsrc hn day depth scope state ha

theorem sample_bounded : ∃ a, ((Sample.strategy "m").evaluateDay Sample.matrix 0
    ((Sample.strategy "m").stateAfter Sample.matrix [0, 7])).1 = .ok a ∧ a.Bounded :=
  (evaluateDay_bounded Sample.strategy_accepted Sample.matrix [0, 7] 0).1

end Strategy
end StrategyTree
