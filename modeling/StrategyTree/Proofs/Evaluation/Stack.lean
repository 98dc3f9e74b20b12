import StrategyTree.Proofs.Evaluation.Covers
import StrategyTree.Proofs.Evaluation.Depth
import StrategyTree.Proofs.Evaluation.Safety
import StrategyTree.Proofs.Evaluation.Tracing
import StrategyTree.Proofs.Strategy.Rules
/-!
# The stack of calls

The path of a state is the stack of the chains that are being called. On every strategy,
also on one that no check accepts, the chains on it differ and are in the table, each is
called by the one before it, and it is put back as it was however a run ends. So a call
that goes round is found where it closes a cycle, and only there.
-/
namespace StrategyTree

open Outcome Relation

variable {α : Type}

/-! ### Failures without a cycle -/

theorem Indicator.resolve_failsWith (metric : Metric) (window : Int) :
    FailsWith [2] (resolve metric window) := by
  by_cases h : metric.Takes window
  · obtain ⟨i, hi⟩ := resolve_ok h
    exact hi ▸ failsWith_ok i
  · rw [resolve_error h]
    exact failsWith_error (by simp [Failure.exitCode])

theorem Weighting.volatilityIndicator_failsWith (w : Weighting α) :
    FailsWith [2] w.volatilityIndicator := by
  cases w with
  | inverseVolatility window => exact (Indicator.resolve_failsWith _ _).map
  | volatility window => exact (Indicator.resolve_failsWith _ _).map
  | _ => exact failsWith_ok _

section Signals
variable [Arith α]

theorem Reading.series_failsWith (m : PriceMatrix α) (r : Reading) :
    RunFailsWith [2] (Reading.series m r) := by
  unfold Reading.series
  refine RunFailsWith.bind (fun _ => ?_) fun i => ?_
  · exact Indicator.resolve_failsWith r.metric r.window
  · exact fun _ => failsWith_ok _

theorem Condition.listSignal_failsWith (m : PriceMatrix α) (list : List (Condition α)) :
    RunFailsWith [2] (listSignal m list) := by
  have hlasting : Measured.Lasting (α := α) fun _ x => RunFailsWith [2] x :=
    ⟨runFailsWith_pure, RunFailsWith.bind⟩
  exact listSignal_lasts hlasting (Reading.series_failsWith m) list

theorem Sources.rememberedSignal_failsWith (m : PriceMatrix α) (key : String)
    (list : List (Condition α)) : RunFailsWith [2] (rememberedSignal m key list) := by
  have hmeasured : RunFailsWith [2] (Run.measured (Condition.listSignal m list)) :=
    fun state => Condition.listSignal_failsWith m list state.cache
  refine RunFailsWith.bind (fun _ => failsWith_ok _) fun state => ?_
  split
  · exact runFailsWith_pure _
  · refine hmeasured.bind fun signal => ?_
    exact RunFailsWith.bind (fun _ => failsWith_ok _) fun _ => runFailsWith_pure _

omit [Arith α] in
theorem Sources.rememberedCandidates_failsWith (chains : Table (Node α)) (n : Node α) :
    RunFailsWith [] (rememberedCandidates chains n) := by
  refine RunFailsWith.bind (fun _ => failsWith_ok _) fun state => ?_
  split
  · exact runFailsWith_pure _
  · exact RunFailsWith.bind (fun _ => failsWith_ok _) fun _ => runFailsWith_pure _

end Signals

/-! ### Stacks -/

namespace Strategy

variable {s : Strategy α} {path : List String}

/-- The stack on which the evaluation of a strategy comes to a node: different chains of the
table. A call below the node ends a walk along calls that starts at the root. -/
structure Stacked (s : Strategy α) (path : List String) (n : Node α) : Prop where
  nodup : path.Nodup
  known : path ⊆ s.chains.keys
  walk {chain : String} : chain ∈ n.calls →
    (path ++ [chain]).IsChain (CallGraph.Calls s.chains)
  start {chain first : String} : chain ∈ n.calls → (path ++ [chain]).head? = some first →
    first ∈ s.root.calls

/-- A chain that calls lead to from the root. -/
def Enters (s : Strategy α) (chain : String) : Prop :=
  ∃ first ∈ s.root.calls, ReflTransGen (CallGraph.Calls s.chains) first chain

namespace Stacked

theorem root (s : Strategy α) : s.Stacked [] s.root where
  nodup := List.nodup_nil
  known := List.nil_subset _
  walk _ := List.isChain_singleton _
  start hchain hfirst := Option.some.inj hfirst ▸ hchain

theorem child {n c : Node α} (h : s.Stacked path n) (hc : c ∈ n.children) : s.Stacked path c where
  nodup := h.nodup
  known := h.known
  walk hchain := h.walk (Node.calls_subset_of_child hc hchain)
  start hchain := h.start (Node.calls_subset_of_child hc hchain)

/-- Behind a call the stack is longer by a chain that was not on it. -/
theorem enter {id chain : String} {root : Node α} (h : s.Stacked path (.call id chain))
    (hroot : s.chains.get? chain = some root) (hnew : chain ∉ path) :
    s.Stacked (path ++ [chain]) root where
  nodup := by simpa using h.nodup.concat hnew
  known := by
    have hchain : chain ∈ s.chains.keys := Table.mem_keys_iff.2 ⟨root, hroot⟩
    exact List.append_subset.2 ⟨h.known, by simpa using hchain⟩
  walk {next} hnext := by
    have hedge : CallGraph.Calls s.chains chain next := by
      simpa [CallGraph.Calls, CallGraph.edges, hroot] using hnext
    rw [List.append_assoc, List.singleton_append, List.isChain_split]
    exact ⟨h.walk (Node.mem_calls_call id chain), by simpa using hedge⟩
  start {next first} _ hfirst := by
    refine h.start (Node.mem_calls_call id chain) ?_
    cases path with
    | nil => exact hfirst
    | cons p rest => exact hfirst

/-- A call of a chain on the stack closes a cycle to which the root leads. -/
theorem cycle {id chain : String} (h : s.Stacked path (.call id chain)) (hmem : chain ∈ path) :
    s.Enters chain ∧ TransGen (CallGraph.Calls s.chains) chain chain := by
  have hwalk := h.walk (Node.mem_calls_call id chain)
  refine ⟨?_, CallGraph.transGen_of_isChain hmem hwalk⟩
  cases path with
  | nil => cases hmem
  | cons first rest =>
      have hfirst : first ∈ s.root.calls := h.start (Node.mem_calls_call id chain) rfl
      have hlast : (first :: (rest ++ [chain])).getLast (List.cons_ne_nil _ _) = chain := by simp
      exact ⟨first, hfirst, List.relationReflTransGen_of_exists_isChain_cons _ hwalk hlast⟩

end Stacked

/-! ### Runs on a stack -/

/-- If a run fails because of a cycle, the last visit is a call of a chain on its stack. -/
def Blames (e : Failure) (visits : List (Visit α)) : Prop :=
  ∀ chain path, e = .callCycle chain path → chain ∈ path ∧
    ∃ id v, visits.getLast? = some v ∧ v.node = .call id chain ∧ v.state.path = path

theorem Blames.append {e : Failure} {visits : List (Visit α)} (h : Blames e visits)
    (before : List (Visit α)) : Blames e (before ++ visits) := by
  intro chain path he
  obtain ⟨hmem, id, v, hlast, hv⟩ := h chain path he
  exact ⟨hmem, id, v, by rw [List.getLast?_append, hlast]; rfl, hv⟩

/-- The outcome of a run that puts the path back, with visits on stacks. -/
structure Kept {β : Type} (s : Strategy α) (path : List String) (good : β → Prop)
    (r : Except Failure β × RunState α) (visits : List (Visit α)) : Prop where
  path_eq : r.2.path = path
  stacked : ∀ v ∈ visits, s.Stacked v.state.path v.node
  ok {b : β} : r.1 = .ok b → good b
  error {e : Failure} : r.1 = .error e → Blames e visits

/-- Runs on a path that put it back. -/
def tracing (s : Strategy α) (path : List String) : Run.Tracing α where
  rel good x log := ∀ state, state.path = path → s.Kept path good (x state) (log state)
  tolerates e := ∀ chain path, e ≠ .callCycle chain path
  result h state hpath := ⟨hpath, by simp, fun hb => Except.ok.inj hb ▸ h, fun he => by cases he⟩
  failure {β good e} h state hpath := by
    refine ⟨hpath, by simp, fun hb => (by cases hb), fun he chain path hcycle => ?_⟩
    exact absurd (Except.error.inj he ▸ hcycle) (h chain path)
  bind {β γ good next x f log behind} hx hf state hpath := by
    have hfirst := hx state hpath
    rcases hrun : x state with ⟨r, t⟩
    rw [hrun] at hfirst
    dsimp only
    cases r with
    | ok b =>
        have hrest := hf b (hfirst.ok rfl) t hfirst.path_eq
        rw [Run.bind_ok hrun, Run.along_ok hrun]
        exact ⟨hrest.path_eq, List.forall_mem_append.2 ⟨hfirst.stacked, hrest.stacked⟩, hrest.ok,
          fun he => (hrest.error he).append _⟩
    | error e =>
        have hnone : Run.along x behind state = [] := by rw [Run.along, hrun]
        rw [Run.bind_error hrun, hnone, List.append_nil]
        exact ⟨hfirst.path_eq, hfirst.stacked, fun hb => (by cases hb),
          fun he => hfirst.error (Except.error.inj he ▸ rfl)⟩

theorem tracing_sameFlags (s : Strategy α) (path : List String) :
    (s.tracing path).quiet.SameFlags where
  lookUp id f g h state hpath := h (((state.holds.get? id).getD .start)) state hpath
  record id hold state hpath := ⟨hpath, by simp, fun _ => trivial, fun he => by cases he⟩

theorem Stacked.visit {n : Node α} (hn : s.Stacked path n) {β : Type} {good : β → Prop} {x : Run α β}
    {log : RunState α → List (Visit α)} (scope : Scope) (h : (s.tracing path).rel good x log) :
    (s.tracing path).rel good x fun state => ⟨n, scope, state⟩ :: log state := by
  intro state hpath
  have hkept := h state hpath
  have hhere : s.Stacked state.path n := hpath ▸ hn
  exact ⟨hkept.path_eq, List.forall_mem_cons.2 ⟨hhere, hkept.stacked⟩, hkept.ok,
    fun he => (hkept.error he).append [_]⟩

theorem tracing_inside {β : Type} {good : β → Prop} {x : Run α β} {chain : String}
    {behind : RunState α → List (Visit α)} (h : (s.tracing (path ++ [chain])).rel good x behind) :
    (s.tracing path).rel good (Run.inside chain x) fun state =>
      behind { state with path := state.path ++ [chain] } := by
  intro state hpath
  have hkept := h { state with path := state.path ++ [chain] } (by rw [hpath])
  refine ⟨?_, hkept.stacked, hkept.ok, hkept.error⟩
  change (x _).2.path.dropLast = path
  rw [hkept.path_eq, List.dropLast_concat]

/-- A run that puts the path back and fails for other reasons than a cycle. -/
theorem tracing_of_failsWith {β : Type} {x : Run α β} {codes : List Nat} (hcodes : 4 ∉ codes)
    (hpath : Run.Coupled .self path (fun _ => True) x x) (hfails : RunFailsWith codes x) :
    (s.tracing path).rel (fun _ => True) x fun _ => [] := by
  intro state h
  refine ⟨(hpath state state rfl h h).path_left, by simp, fun _ => trivial, ?_⟩
  rintro e he chain path rfl
  exact absurd (hfails state _ he) hcodes

theorem ne_callCycle_of_failsWith {β : Type} {r : Except Failure β} (h : FailsWith [2] r)
    {e : Failure} (he : r = .error e) (chain : String) (path : List String) :
    e ≠ .callCycle chain path := by
  rintro rfl
  have hcode := h _ he
  simp [Failure.exitCode] at hcode

variable [Arith α] {n : Node α}

/-- The failures of a node that calls no chain are no cycles. -/
theorem not_cycle_of_faults (hcallee : n.callee? = none) {e : Failure}
    (he : n.Faults s.chains path e) (chain : String) (stack : List String) :
    e ≠ .callCycle chain stack := by
  cases he with
  | window h => exact ne_callCycle_of_failsWith (Indicator.resolve_failsWith _ _) h chain stack
  | weighting _ h => exact ne_callCycle_of_failsWith (Weighting.volatilityIndicator_failsWith _) h chain stack
  | bounds _ => exact nofun
  | reading h => exact ne_callCycle_of_failsWith (Indicator.resolve_failsWith _ _) h chain stack
  | dangling _ => cases hcallee
  | cycle _ => cases hcallee

theorem Stacked.passes (hn : s.Stacked path n) (hcallee : n.callee? = none) (m : PriceMatrix α)
    (day : Nat) :
    (s.tracing path).Passes (.remembering m s.chains day) s.chains path n where
  quiet := by
    have hsrc := Sources.remembering_steady m s.chains day
    exact .of_questions (fun _ => not_cycle_of_faults hcallee)
      (fun _ _ _ => tracing_of_failsWith (by decide) (hsrc.verdict _ _)
        ((Sources.rememberedSignal_failsWith m _ _).bind fun _ => runFailsWith_pure _))
      (fun _ _ => tracing_of_failsWith List.not_mem_nil (hsrc.value _ _) fun _ => failsWith_ok _)
      fun _ => tracing_of_failsWith (by decide) (hsrc.candidates n)
        (Sources.rememberedCandidates_failsWith s.chains n)
  visit := hn.visit

/-- A refused call does not lead out of the stack. One that closes a cycle is to blame. -/
theorem Stacked.refuses {id chain : String} (hn : s.Stacked path (.call id chain)) (scope : Scope)
    {e : Failure} (he : (Node.call id chain).Faults s.chains path e) :
    (s.tracing path).rel (fun _ : Option (Allocation α) => True) (throw e)
      fun state => [⟨.call id chain, scope, state⟩] := by
  cases he with
  | weighting hw _ => cases hw
  | dangling _ => exact hn.visit scope ((s.tracing path).failure nofun)
  | cycle hmem =>
      intro state hpath
      have hhere : s.Stacked state.path (.call id chain) := hpath ▸ hn
      refine ⟨hpath, by simpa using hhere, fun hb => (by cases hb), fun he => ?_⟩
      intro other stack hcycle
      obtain ⟨rfl, rfl⟩ : chain = other ∧ path = stack := by
        simpa using (Except.error.inj he).trans hcycle
      exact ⟨hmem, id, _, rfl, rfl, hpath⟩

/-- Every evaluation of a strategy puts the path back, whatever its nodes and its calls. -/
def stacker (s : Strategy α) (m : PriceMatrix α) (day : Nat) :
    Run.Tracer (.remembering m s.chains day) s.chains day where
  on := s.tracing
  covers := s.Stacked
  child h hc := h.child hc
  enter h hroot hnew := h.enter hroot hnew
  passes h hcallee := h.passes hcallee m day
  decideHold {path _ _ _ _} h :=
    (h.passes rfl m day).quiet.decideHold (tracing_sameFlags s path) rfl day
  congr h hx state hpath := by
    obtain ⟨hrun, hlog⟩ := h state hpath
    rw [hrun, hlog]
    exact hx state hpath
  refuses scope h he := h.refuses scope he
  enters scope h hx := h.visit scope (tracing_inside hx)

/-! ### Days -/

/-- A day fails where its root does. -/
theorem evaluateWithin_of_evaluateDay {m : PriceMatrix α} {day : Nat} {state : RunState α}
    {e : Failure} (h : (s.evaluateDay m day state).1 = .error e) :
    (s.root.evaluateWithin (.remembering m s.chains day) s.chains day
      (s.chains.entries.length + 1) none { state with path := [] }).1 = .error e := by
  rw [evaluateDay, evaluateDayWith_apply] at h
  rcases hroot : s.root.evaluateWithin (.remembering m s.chains day) s.chains day
    (s.chains.entries.length + 1) none { state with path := [] } with ⟨r, t⟩
  cases r with
  | ok a =>
      rw [Run.bind_ok hroot] at h
      cases h
  | error e' =>
      rw [Run.bind_error hroot] at h
      exact congrArg Except.error (Except.error.inj h)

theorem kept_day (s : Strategy α) (m : PriceMatrix α) (day : Nat) (state : RunState α) :
    s.Kept [] (fun _ => True) (s.root.evaluateWithin (.remembering m s.chains day) s.chains day
      (s.chains.entries.length + 1) none { state with path := [] }) (s.visits m day state) :=
  (s.stacker m day).told_within (.root s) _ none { state with path := [] } rfl

/-- A day that fails because of a cycle has come to a call of a chain on its stack. -/
theorem cycle_of_evaluateDay {m : PriceMatrix α} {day : Nat} {state : RunState α}
    {chain : String} (h : (s.evaluateDay m day state).1 = .error (.callCycle chain path)) :
    s.Enters chain ∧ TransGen (CallGraph.Calls s.chains) chain chain := by
  have hkept := s.kept_day m day state
  obtain ⟨hmem, id, v, hlast, hnode, hpath⟩ :=
    hkept.error (evaluateWithin_of_evaluateDay h) chain path rfl
  have hstacked := hkept.stacked v (List.mem_of_getLast? hlast)
  rw [hnode, hpath] at hstacked
  exact hstacked.cycle hmem

/-- The evaluation of a node, with as many trees inside each other as it can come to. -/
def evaluateNode (s : Strategy α) (m : PriceMatrix α) (day : Nat) :
    Node α → Scope → Run α (Option (Allocation α)) :=
  Node.evaluateWithin (.remembering m s.chains day) s.chains day (s.chains.entries.length + 1)

/-- Every evaluation ends and keeps the stack of calls, whatever the strategy and the state. Of
any node, on any stack: what would be done deeper than there are chains is never done, the
evaluation is one of its own recursion, and the stack is put back. Of any day: each visit is on
a stack of different chains of the table, a cycle is reported by a call of a chain on its stack
with that stack, and there is none unless the root leads to a chain that leads to itself. -/
theorem evaluation_keeps_stack (s : Strategy α) (m : PriceMatrix α) (day : Nat) :
    (∀ (n : Node α) (scope : Scope) (state : RunState α),
      (∀ beyond depth, s.chains.keys.length < depth →
        n.evaluateFrom (.remembering m s.chains day) s.chains beyond day depth scope state =
          s.evaluateNode m day n scope state) ∧
      n.evaluate (.remembering m s.chains day) s.chains (s.evaluateNode m day) day scope state =
        s.evaluateNode m day n scope state ∧
      (s.evaluateNode m day n scope state).2.path = state.path) ∧
    ∀ state : RunState α,
      (∀ v ∈ s.visits m day state, v.state.path.Nodup ∧ v.state.path ⊆ s.chains.keys) ∧
      (∀ chain path, (s.evaluateDay m day state).1 = .error (.callCycle chain path) →
        chain ∈ path ∧ ∃ id v, (s.visits m day state).getLast? = some v ∧
          v.node = .call id chain ∧ v.state.path = path) ∧
      ((∀ chain, s.Enters chain → ¬ TransGen (CallGraph.Calls s.chains) chain chain) →
        ∀ chain path, (s.evaluateDay m day state).1 ≠ .error (.callCycle chain path)) := by
  have hsrc := Sources.remembering_steady m s.chains day
  refine ⟨fun n scope state => ⟨fun beyond depth hdepth => ?_, ?_, ?_⟩,
    fun state => ⟨fun v hv => ?_, fun chain path h => ?_, fun hacyclic chain path h => ?_⟩⟩
  · rw [Table.keys, List.length_map] at hdepth
    exact Node.evaluateFrom_deep hsrc day hdepth n scope state
  · exact Node.evaluateWithin_unfold hsrc day n scope state
  · exact Node.path_evaluateWithin hsrc day _ n scope state
  · have hstacked := (s.kept_day m day state).stacked v hv
    exact ⟨hstacked.nodup, hstacked.known⟩
  · exact (s.kept_day m day state).error (evaluateWithin_of_evaluateDay h) chain path rfl
  · obtain ⟨henters, hcycle⟩ := cycle_of_evaluateDay h
    exact hacyclic chain henters hcycle

/-- A chain that comes back to itself behind another one. -/
def sampleRoundabout : Strategy Sample.Number where
  name := "roundabout"
  root := .basic "root" .equal [some (Sample.hold "a" "SPY"), some (.call "b" "outer")]
  chains := Table.ofList [("outer", .basic "c" .equal [some (.call "d" "inner")]),
    ("inner", .call "e" "outer")]

theorem sample_keeps_stack :
    ((sampleRoundabout.evaluateDay Sample.matrix 0 .start).1 =
        .error (.callCycle "outer" ["outer", "inner"]) ∧
      ∃ id v, (sampleRoundabout.visits Sample.matrix 0 .start).getLast? = some v ∧
        v.node = .call id "outer" ∧ v.state.path = ["outer", "inner"]) ∧
    (∀ chain path, ((Sample.strategy "m").evaluateDay Sample.matrix 0 .start).1 ≠
      .error (.callCycle chain path)) ∧
    (sampleRoundabout.root.evaluateFrom (.remembering Sample.matrix sampleRoundabout.chains 0)
        sampleRoundabout.chains (fun _ _ => throw .emptyAnchors) 0 3 none .start).1 =
      .error (.callCycle "outer" ["outer", "inner"]) := by
  obtain ⟨hnodes, hdays⟩ := evaluation_keeps_stack sampleRoundabout Sample.matrix 0
  have hcycle : (sampleRoundabout.evaluateDay Sample.matrix 0 .start).1 =
      .error (.callCycle "outer" ["outer", "inner"]) := rfl
  have hacyclic := (wellFormed_of_validate Sample.strategy_accepted).acyclic
  refine ⟨⟨hcycle, ((hdays .start).2.1 _ _ hcycle).2⟩, ?_, ?_⟩
  · exact ((evaluation_keeps_stack (Sample.strategy "m") Sample.matrix 0).2 .start).2.2
      fun chain _ => hacyclic chain
  · rw [(hnodes _ none .start).1 _ 3 (by decide)]
    rfl

end Strategy

end StrategyTree
