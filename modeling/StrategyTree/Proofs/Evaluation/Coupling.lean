import StrategyTree.Evaluation.State
import StrategyTree.Proofs.Outcome
/-!
# Runs side by side

Two computations of an evaluation are compared step by step. A coupling says
which states may face each other and which failures may end a run. Coupled runs
have the same outcome from coupled states, leave coupled states behind, and put
the path back as they found it, whether they fail or not.
-/
namespace StrategyTree

variable {α β γ : Type}

/-- Which states face each other, and which failures are tolerated. The path is compared
apart, and held flags agree throughout. -/
structure Coupling (α : Type) where
  states : RunState α → RunState α → Prop
  tolerates : Failure → Prop
  holds_eq {s t : RunState α} : states s t → t.holds = s.holds
  withHolds {s t : RunState α} (h : states s t) (holds : Table Hold) :
    states { s with holds } { t with holds }
  withPath {s t : RunState α} (h : states s t) (path : List String) :
    states { s with path } { t with path }

namespace Coupling

/-- An outcome is admitted if it is a tolerated failure or a result with the property. -/
def Admits (C : Coupling α) (good : β → Prop) : Except Failure β → Prop
  | .ok b => good b
  | .error e => C.tolerates e

theorem Admits.mono {C : Coupling α} {good better : β → Prop} (h : ∀ b, good b → better b)
    {r : Except Failure β} (hr : C.Admits good r) : C.Admits better r := by
  cases r with
  | ok b => exact h b hr
  | error e => exact hr

end Coupling

namespace Run

theorem bind_ok {x : Run α β} {f : β → Run α γ} {s s' : RunState α} {b : β}
    (h : x s = (.ok b, s')) : (x >>= f) s = f b s' :=
  Outcome.run_bind_ok h

theorem bind_error {x : Run α β} {f : β → Run α γ} {s s' : RunState α} {e : Failure}
    (h : x s = (.error e, s')) : (x >>= f) s = (.error e, s') :=
  Outcome.run_bind_error h

/-- Runs that do the same from a state do so whatever follows. -/
theorem bind_congr_at {x y : Run α β} {f : β → Run α γ} {s : RunState α} (h : x s = y s) :
    (x >>= f) s = (y >>= f) s := by
  change ExceptT.bindCont f (x s).1 (x s).2 = ExceptT.bindCont f (y s).1 (y s).2
  rw [h]

/-- Two outcomes, each with the state it leaves, that agree. -/
structure Matches (C : Coupling α) (path : List String) (good : β → Prop)
    (p q : Except Failure β × RunState α) : Prop where
  same : q.1 = p.1
  admitted : C.Admits good p.1
  states : C.states p.2 q.2
  path_left : p.2.path = path
  path_right : q.2.path = path

/-- Two runs whose outcomes match from all coupled states on a path. -/
def Coupled (C : Coupling α) (path : List String) (good : β → Prop) (x y : Run α β) : Prop :=
  ∀ s t, C.states s t → s.path = path → t.path = path → Matches C path good (x s) (y t)

namespace Coupled

variable {C : Coupling α} {path : List String} {good : β → Prop} {x y : Run α β}

theorem mono {better : β → Prop} (h : Coupled C path good x y) (hb : ∀ b, good b → better b) :
    Coupled C path better x y := by
  intro s t hst hs ht
  have m := h s t hst hs ht
  exact ⟨m.same, m.admitted.mono hb, m.states, m.path_left, m.path_right⟩

theorem result {b : β} (h : good b) : Coupled C path good (pure b) (pure b) :=
  fun _ _ hst hs ht => ⟨rfl, h, hst, hs, ht⟩

theorem failure {e : Failure} (h : C.tolerates e) : Coupled C path good (throw e) (throw e) :=
  fun _ _ hst hs ht => ⟨rfl, h, hst, hs, ht⟩

/-- Coupled runs stay coupled when they go on in coupled ways. -/
theorem bind {next : γ → Prop} {f g : β → Run α γ} (h : Coupled C path good x y)
    (hf : ∀ b, good b → Coupled C path next (f b) (g b)) :
    Coupled C path next (x >>= f) (y >>= g) := by
  intro s t hst hs ht
  have m := h s t hst hs ht
  rcases hx : x s with ⟨r, s'⟩
  rcases hy : y t with ⟨r', t'⟩
  rw [hx, hy] at m
  obtain rfl : r' = r := m.same
  cases r' with
  | ok b =>
      rw [bind_ok hx, bind_ok hy]
      exact hf b m.admitted s' t' m.states m.path_left m.path_right
  | error e =>
      rw [bind_error hx, bind_error hy]
      exact ⟨rfl, m.admitted, m.states, m.path_left, m.path_right⟩

/-- Runs that are coupled one chain deeper are coupled where the chain is called. -/
theorem inside {chain : String} (h : Coupled C (path ++ [chain]) good x y) :
    Coupled C path good (Run.inside chain x) (Run.inside chain y) := by
  intro s t hst hs ht
  have m := h { s with path := s.path ++ [chain] } { t with path := t.path ++ [chain] }
    (by rw [hs, ht]; exact C.withPath hst _) (by rw [hs]) (by rw [ht])
  refine ⟨m.same, m.admitted, ?_, ?_, ?_⟩
  · change C.states { (x _).2 with path := (x _).2.path.dropLast }
      { (y _).2 with path := (y _).2.path.dropLast }
    rw [m.path_left, m.path_right]
    exact C.withPath m.states _
  · change (x _).2.path.dropLast = path
    rw [m.path_left, List.dropLast_concat]
  · change (y _).2.path.dropLast = path
    rw [m.path_right, List.dropLast_concat]

/-- Runs that first look at their own states are coupled if what they do then is. -/
theorem look {f g : RunState α → Run α β}
    (h : ∀ s t, C.states s t → s.path = path → t.path = path →
      Matches C path good (f s s) (g t t)) :
    Coupled C path good (get >>= f) (get >>= g) :=
  h

end Coupled
end Run
end StrategyTree
