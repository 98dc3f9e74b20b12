import StrategyTree.Proofs.Evaluation.Memory
import StrategyTree.Proofs.Evaluation.Simulation
/-!
# Nested calls

A chain on the path is not called again, so with every nested call there is one chain
less that may still be called. The depth to which calls are followed is never used up,
whatever the strategy and the path: any greater depth, and anything done beyond it,
gives the same evaluation. So the evaluation satisfies its own recursion.
-/
namespace StrategyTree

variable {α β : Type}

namespace Coupling

/-- A run beside itself, which may fail. -/
def self : Coupling α where
  states := Eq
  tolerates _ := True
  holds_eq h := h ▸ rfl
  withHolds h _ := h ▸ rfl
  withPath h _ := h ▸ rfl

theorem admits_self {r : Except Failure β} :
    (self : Coupling α).Admits (fun _ => True) r := by
  cases r <;> trivial

end Coupling

/-- Sources that leave the path of calls as it is. -/
structure Sources.Steady (src : Sources α) : Prop where
  verdict {path : List String} (key : String) (list : List (Condition α)) :
    Run.Coupled .self path (fun _ => True) (src.verdict key list) (src.verdict key list)
  value {path : List String} (ticker : String) (i : Indicator) :
    Run.Coupled .self path (fun _ => True) (src.value ticker i) (src.value ticker i)
  candidates {path : List String} (n : Node α) :
    Run.Coupled .self path (fun _ => True) (src.candidates n) (src.candidates n)

theorem Run.measured_coupled_self (x : Measured α β) {path : List String} :
    Run.Coupled .self path (fun _ => True) (Run.measured x) (Run.measured x) := by
  rintro s t rfl hs ht
  exact ⟨rfl, Coupling.admits_self, rfl, hs, ht⟩

variable [Arith α]

theorem Sources.remembering_steady (m : PriceMatrix α) (chains : Table (Node α)) (day : Nat) :
    (remembering m chains day).Steady where
  verdict {path} key list := by
    have hkept : Run.Coupled .self path (fun _ => True) (rememberedSignal m key list)
        (rememberedSignal m key list) := by
      refine .look fun s t hst hs ht => ?_
      obtain rfl := hst
      cases s.signals.get? key with
      | some signal => exact ⟨rfl, trivial, rfl, hs, ht⟩
      | none =>
          refine Run.Coupled.bind (Run.measured_coupled_self _) (fun signal _ => ?_) s s rfl hs ht
          rintro s t rfl hs ht
          exact ⟨rfl, trivial, rfl, hs, ht⟩
    exact hkept.bind fun _ _ => .result trivial
  value ticker i := Run.measured_coupled_self (ExceptT.lift fun c => c.value m ticker i day)
  candidates n := by
    refine .look fun s t hst hs ht => ?_
    obtain rfl := hst
    cases s.candidates.get? n.id with
    | some tickers => exact ⟨rfl, trivial, rfl, hs, ht⟩
    | none => exact ⟨rfl, trivial, rfl, hs, ht⟩

namespace Node

variable {src : Sources α} {chains : Table (Node α)}

/-- Evaluates a node with at most `depth` trees inside each other. What lies deeper is
evaluated by `beyond`. -/
def evaluateFrom (src : Sources α) (chains : Table (Node α))
    (beyond : Node α → Scope → Run α (Option (Allocation α))) (day : Nat) :
    Nat → Node α → Scope → Run α (Option (Allocation α))
  | 0 => beyond
  | depth + 1 => evaluate src chains (evaluateFrom src chains beyond day depth) day

theorem evaluateFrom_none (src : Sources α) (chains : Table (Node α)) (day depth : Nat) :
    evaluateFrom src chains (fun _ _ => return none) day depth =
      evaluateWithin src chains day depth := by
  induction depth with
  | zero => rfl
  | succ depth ih => rw [evaluateFrom, ih, evaluateWithin]

/-- The chains that may still be called on a path. -/
def uncalled (chains : Table (Node α)) (path : List String) : List String :=
  chains.keys.filter fun chain => decide (chain ∉ path)

omit [Arith α] in
theorem length_uncalled_lt {path : List String} {chain : String} {root : Node α}
    (hroot : chains.get? chain = some root) (hnew : chain ∉ path) :
    (uncalled chains (path ++ [chain])).length < (uncalled chains path).length := by
  have hmem : chain ∈ uncalled chains path :=
    List.mem_filter.2 ⟨Table.mem_keys_iff.2 ⟨root, hroot⟩, decide_eq_true hnew⟩
  have hfilter : uncalled chains (path ++ [chain]) =
      (uncalled chains path).filter fun c => decide (c ≠ chain) := by
    rw [uncalled, uncalled, List.filter_filter]
    refine List.filter_congr fun c _ => ?_
    simp [and_comm]
  rw [hfilter, List.length_filter_lt_length_iff_exists]
  exact ⟨chain, hmem, by simp⟩

/-- An evaluation beside itself, of any node on any path. -/
def beside (hsrc : src.Steady) (chains : Table (Node α)) : Simulation src src chains where
  toCoupling := .self
  covers _ _ := True
  child _ _ := trivial
  enter _ _ _ := trivial
  fault _ _ := trivial
  verdict _ _ := hsrc.verdict _ _
  value _ := hsrc.value _ _
  candidates _ := (hsrc.candidates _).mono fun _ _ _ _ => trivial

variable {beyond beyond' : Node α → Scope → Run α (Option (Allocation α))}

/-- Two depths that both exceed the number of chains that may still be called are alike. -/
theorem evaluateFrom_coupled (hsrc : src.Steady) (day : Nat) {depth depth' : Nat}
    {path : List String} (h : (uncalled chains path).length < depth)
    (h' : (uncalled chains path).length < depth') (n : Node α) (scope : Scope) :
    Run.Coupled .self path ((beside hsrc chains).GoodResult scope)
      (n.evaluateFrom src chains beyond day depth scope)
      (n.evaluateFrom src chains beyond' day depth' scope) := by
  induction depth generalizing depth' path n scope with
  | zero => omega
  | succ depth ih =>
      cases depth' with
      | zero => omega
      | succ depth' =>
          refine (beside hsrc chains).evaluate (fun chain root hroot hnew _ scope => ?_) n trivial
            scope
          have hless := length_uncalled_lt hroot hnew
          exact ih (by omega) (by omega) root scope

/-- One tree inside another for each chain is all that an evaluation takes, from every
state. -/
theorem evaluateFrom_deep (hsrc : src.Steady) (day : Nat) {depth : Nat}
    (hdepth : chains.entries.length < depth) (n : Node α) (scope : Scope) (s : RunState α) :
    n.evaluateFrom src chains beyond day depth scope s =
      n.evaluateWithin src chains day (chains.entries.length + 1) scope s := by
  have hfew : (uncalled chains s.path).length ≤ chains.entries.length := by
    have hle := List.length_filter_le (fun chain => decide (chain ∉ s.path)) chains.keys
    rwa [Table.keys, List.length_map] at hle
  have hcoupled : Run.Coupled .self s.path ((beside hsrc chains).GoodResult scope)
      (n.evaluateFrom src chains (fun _ _ => return none) day (chains.entries.length + 1) scope)
      (n.evaluateFrom src chains beyond day depth scope) :=
    evaluateFrom_coupled hsrc day (Nat.lt_succ_of_le hfew) (Nat.lt_of_le_of_lt hfew hdepth) n scope
  have hmatch := hcoupled s s rfl rfl rfl
  rw [evaluateFrom_none] at hmatch
  exact Prod.ext hmatch.same hmatch.states.symm

/-- An evaluation of all that a node comes to is one of its own recursion. -/
theorem evaluateWithin_unfold (hsrc : src.Steady) (day : Nat) (n : Node α) (scope : Scope)
    (s : RunState α) :
    n.evaluate src chains (evaluateWithin src chains day (chains.entries.length + 1)) day scope s =
      n.evaluateWithin src chains day (chains.entries.length + 1) scope s := by
  have hdeep : n.evaluateFrom src chains (fun _ _ => return none) day
      (chains.entries.length + 2) scope s =
        n.evaluateWithin src chains day (chains.entries.length + 1) scope s :=
    evaluateFrom_deep hsrc day (by omega) n scope s
  rw [← hdeep, evaluateFrom, evaluateFrom_none]

/-- However an evaluation ends, the path is as it was. -/
theorem path_evaluateWithin (hsrc : src.Steady) (day depth : Nat) (n : Node α) (scope : Scope)
    (s : RunState α) : (n.evaluateWithin src chains day depth scope s).2.path = s.path :=
  ((beside hsrc chains).evaluateWithin day depth n trivial scope s s rfl rfl rfl).path_left

end Node
end StrategyTree
