import StrategyTree.Proofs.Evaluation.Safety
import StrategyTree.Proofs.Strategy.Inlining
/-!
# A call is inlining

The inlined form of an accepted strategy evaluates like the strategy. Behind a call
the two differ in the path only, and no chain on the path is called again. What is
remembered is kept by identifiers, which the copies of a chain share, and a ranking
finds the same candidates whether it follows calls or not.
-/
namespace StrategyTree

variable {α β γ : Type}

def RunState.onPath (s : RunState α) (path : List String) : RunState α :=
  { s with path }

namespace Run

/-- Two runs, one on a path and one on none, that agree in all but the path. -/
def AgreeOffPath (path : List String) (good : β → Prop) (x y : Run α β) : Prop :=
  ∀ s : RunState α, ∃ r t, x (s.onPath path) = (r, RunState.onPath t path) ∧
    y (s.onPath []) = (r, RunState.onPath t []) ∧ ∀ b, r = .ok b → good b

namespace AgreeOffPath

variable {path : List String} {good : β → Prop} {x y : Run α β}

theorem bind {next : γ → Prop} {f g : β → Run α γ} (h : AgreeOffPath path good x y)
    (hf : ∀ b, good b → AgreeOffPath path next (f b) (g b)) :
    AgreeOffPath path next (x >>= f) (y >>= g) := by
  intro s
  obtain ⟨r, t, hx, hy, hgood⟩ := h s
  cases r with
  | ok b =>
      rw [bind_ok hx, bind_ok hy]
      exact hf b (hgood b rfl) t
  | error e => exact ⟨.error e, t, bind_error hx, bind_error hy, fun _ h => by cases h⟩

/-- A run behind a call agrees with a run that does not know of the call. -/
theorem inside {chain : String} (h : AgreeOffPath (path ++ [chain]) good x y) :
    AgreeOffPath path good (Run.inside chain x) y := by
  intro s
  obtain ⟨r, t, hx, hy, hgood⟩ := h s
  refine ⟨r, t, ?_, hy, hgood⟩
  change ((x (s.onPath (path ++ [chain]))).1,
    { (x (s.onPath (path ++ [chain]))).2 with
      path := (x (s.onPath (path ++ [chain]))).2.path.dropLast }) = (r, t.onPath path)
  rw [hx]
  simp [RunState.onPath]

/-- Runs that first look at their own states. -/
theorem look {f g : RunState α → Run α β}
    (h : ∀ s : RunState α, AgreeOffPath path good (f (s.onPath path)) (g (s.onPath []))) :
    AgreeOffPath path good (get >>= f) (get >>= g) :=
  fun s => h s s

/-- Runs that change a part of their states that is not the path. -/
theorem change (f : RunState α → RunState α) (hf : ∀ s p, f (s.onPath p) = (f s).onPath p) :
    AgreeOffPath path (fun _ => True) (modify f : Run α PUnit) (modify f) :=
  fun s => ⟨.ok ⟨⟩, f s, congrArg (Prod.mk _) (hf s path), congrArg (Prod.mk _) (hf s []),
    fun _ _ => trivial⟩

theorem result {b : β} (h : good b) : AgreeOffPath (α := α) path good (pure b) (pure b) :=
  fun s => ⟨.ok b, s, rfl, rfl, fun _ hb => by cases hb; exact h⟩

end AgreeOffPath

/-- Runs that agree off the path are a comparison of runs. -/
def offPath (α : Type) (path : List String) : Run.Comparison α where
  rel good x y := AgreeOffPath path good x y
  tolerates _ := True
  result h := .result h
  failure {_ _ e} _ s := ⟨.error e, s, rfl, rfl, fun _ h => by cases h⟩
  bind h hf := h.bind hf

theorem offPath_sameFlags (path : List String) : (offPath α path).SameFlags where
  lookUp _ _ _ h := .look fun _ => h _
  record id hold := .change (fun s => { s with holds := s.holds.insert id hold }) fun _ _ => rfl

theorem measured_agree (x : Measured α β) {path : List String} :
    AgreeOffPath path (fun _ => True) (Run.measured x) (Run.measured x) :=
  fun s => ⟨(x s.cache).1, { s with cache := (x s.cache).2 }, rfl, rfl, fun _ _ => trivial⟩

end Run

variable [Arith α] {path : List String}

namespace Sources

theorem rememberedSignal_agree (m : PriceMatrix α) (key : String) (list : List (Condition α)) :
    Run.AgreeOffPath path (fun _ => True) (rememberedSignal m key list)
      (rememberedSignal m key list) := by
  refine .look fun s => ?_
  simp only [RunState.onPath]
  cases s.signals.get? key with
  | some signal => exact .result trivial
  | none =>
      refine (Run.measured_agree _).bind fun signal _ => ?_
      exact .bind (.change _ fun _ _ => rfl) fun _ _ => .result trivial

omit [Arith α] in
theorem rememberedCandidates_agree (chains : Table (Node α)) {n n' : Node α} (hid : n'.id = n.id)
    (h : n'.positionTickers .empty = n.positionTickers chains) :
    Run.AgreeOffPath path (fun _ => True) (rememberedCandidates chains n)
      (rememberedCandidates .empty n') := by
  unfold rememberedCandidates
  rw [hid, h]
  refine .look fun s => ?_
  simp only [RunState.onPath]
  cases s.candidates.get? n.id with
  | some tickers => exact .result trivial
  | none => exact .bind (.change _ fun _ _ => rfl) fun _ _ => .result trivial

end Sources

namespace Strategy

variable {s : Strategy α} (hs : s.WellFormed) (m : PriceMatrix α) (day : Nat)
include hs

theorem WellFormed.compared_inlineCalls {rounds : Nat} {n : Node α} (h : s.Suffices rounds path n)
    (hcallee : n.callee? = none) :
    n.Compared (Run.offPath α path) (.remembering m s.chains day) (.remembering m .empty day)
      s.chains path (fun _ => True) (fun _ _ => True) (n.inlineCalls s.chains rounds) := by
  have hid : (n.inlineCalls s.chains rounds).id = n.id := by
    rw [Node.inlineCalls_eq hcallee, Node.id_mapChildren]
  have htickers := hs.positionTickers_inlineCalls h
  exact .of_questions (fun _ _ => trivial)
    (fun _ _ _ => (Sources.rememberedSignal_agree m _ _).bind fun _ _ => .result trivial)
    (fun _ _ => Run.measured_agree (ExceptT.lift fun c => c.value m _ _ day))
    fun _ => Sources.rememberedCandidates_agree s.chains hid htickers

/-- A node on a path of calls evaluates like its inlined form, which is on no path. -/
theorem WellFormed.evaluateWithin_agree
    (enter : Node α → Scope → Run α (Option (Allocation α))) {rounds : Nat} {n : Node α}
    (h : s.Suffices rounds path n) (scope : Scope) :
    Run.AgreeOffPath path (IfKept fun _ => True)
      (n.evaluateWithin (.remembering m s.chains day) s.chains day rounds scope)
      ((n.inlineCalls s.chains rounds).evaluate (.remembering m .empty day) .empty enter day
        scope) := by
  refine h.induction_on hs (P := fun rounds path n => ∀ scope,
      Run.AgreeOffPath path (IfKept fun _ => True)
        (n.evaluateWithin (.remembering m s.chains day) s.chains day rounds scope)
        ((n.inlineCalls s.chains rounds).evaluate (.remembering m .empty day) .empty enter day
          scope))
    (fun {rounds path n} h hcallee ih scope => ?_)
    (fun {rounds path id chain root} _ hroot hnew ih scope => ?_) scope
  · have hcompared := hs.compared_inlineCalls m day h hcallee
    rw [Node.inlineCalls_eq hcallee] at hcompared ⊢
    exact Node.Compared.evaluate_map (Run.offPath_sameFlags path) hcallee hcompared ih scope
  · rw [Node.inlineCalls_call hroot]
    intro t
    rw [Node.evaluateWithin, Node.evaluate_call hroot (s := t.onPath path) hnew]
    exact (ih scope).inside t

/-- On every day, from every state, an accepted strategy and its inlined form do the same. -/
theorem WellFormed.evaluateDay_inlined : s.inlined.evaluateDay m day = s.evaluateDay m day := by
  funext state
  obtain ⟨r, t, hcalled, hinlined, -⟩ :=
    hs.evaluateWithin_agree m day (Node.evaluateWithin (.remembering m .empty day) .empty day 0)
      (.root s) none state
  rw [evaluateDay, evaluateDay, evaluateDayWith_apply, evaluateDayWith_apply]
  exact Run.bind_congr_at (hinlined.trans hcalled.symm)

theorem WellFormed.stateAfter_inlined (days : List Nat) :
    s.inlined.stateAfter m days = s.stateAfter m days := by
  simp only [stateAfter, hs.evaluateDay_inlined]

end Strategy

/-- A call is inlining: no call is left in the inlined form of an accepted strategy, and whatever
days were evaluated before, it decides the same allocation on every day and reports the same
held flag for every identifier. -/
theorem Strategy.call_is_inlining {s : Strategy α} {anchors : Tickers}
    (h : s.validate = .ok anchors) (m : PriceMatrix α) (days : List Nat) :
    s.inlined.chains = .empty ∧ s.inlined.root.calls = [] ∧
      (∀ day, ∃ a, (s.evaluateDay m day (s.stateAfter m days)).1 = .ok a ∧
        (s.inlined.evaluateDay m day (s.inlined.stateAfter m days)).1 = .ok a) ∧
      ∀ id, (s.inlined.stateAfter m days).isHeld id = (s.stateAfter m days).isHeld id := by
  have hs := wellFormed_of_validate h
  refine ⟨rfl, hs.calls_inlined, fun day => ?_, fun id => by rw [hs.stateAfter_inlined]⟩
  obtain ⟨⟨a, ha⟩, -⟩ := hs.evaluateDay_ok (hs.faithful_stateAfter m days) day
  refine ⟨a, ha, ?_⟩
  rw [hs.evaluateDay_inlined, hs.stateAfter_inlined]
  exact ha

/-- The sample calls a chain, its inlined form does not, and both decide the same. -/
theorem Strategy.sample_inlined :
    (Sample.strategy "m").root.calls = ["bonds"] ∧ (Sample.strategy "m").inlined.root.calls = [] ∧
      ∃ a, ((Sample.strategy "m").evaluateDay Sample.matrix 0
          ((Sample.strategy "m").stateAfter Sample.matrix [0, 7])).1 = .ok a ∧
        ((Sample.strategy "m").inlined.evaluateDay Sample.matrix 0
          ((Sample.strategy "m").inlined.stateAfter Sample.matrix [0, 7])).1 = .ok a := by
  obtain ⟨-, hcalls, hsame, -⟩ :=
    Strategy.call_is_inlining Sample.strategy_accepted Sample.matrix [0, 7]
  exact ⟨rfl, hcalls, hsame 0⟩

end StrategyTree
