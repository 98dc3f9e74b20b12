import StrategyTree.Proofs.Evaluation.Visits
/-!
# Tracing an evaluation

A tracing says something of a run together with what is visited along it. It lasts when
runs are put together, so the evaluation of a node is traced by the visits of the node as
soon as what it asks for is traced without visits, and the evaluations of its children by
theirs.
-/
namespace StrategyTree

variable {α : Type}

theorem Run.along_nil {β : Type} (x : Run α β) (state : RunState α) :
    Run.along x (fun _ _ => []) state = [] := by
  unfold Run.along
  split <;> rfl

/-- A relation between runs and what is visited along them, with a property of the results,
that lasts when runs are put together. -/
structure Run.Tracing (α : Type) where
  rel {β : Type} : (β → Prop) → Run α β → (RunState α → List (Visit α)) → Prop
  tolerates : Failure → Prop
  result {β : Type} {good : β → Prop} {b : β} : good b → rel good (pure b) fun _ => []
  failure {β : Type} {good : β → Prop} {e : Failure} : tolerates e →
    rel good (throw e) fun _ => []
  bind {β γ : Type} {good : β → Prop} {next : γ → Prop} {x : Run α β} {f : β → Run α γ}
    {log : RunState α → List (Visit α)} {behind : β → RunState α → List (Visit α)} :
    rel good x log → (∀ b, good b → rel next (f b) (behind b)) →
      rel next (x >>= f) fun state => log state ++ Run.along x behind state

namespace Run.Tracing

section Steps
variable {T : Run.Tracing α} {β γ : Type} {good : β → Prop} {next : γ → Prop} {x : Run α β}
  {f : β → Run α γ} {log : RunState α → List (Visit α)}

/-- A run without visits, and what is visited behind it. -/
theorem quiet_bind {behind : β → RunState α → List (Visit α)} (h : T.rel good x fun _ => [])
    (hf : ∀ b, good b → T.rel next (f b) (behind b)) :
    T.rel next (x >>= f) (Run.along x behind) :=
  T.bind h hf

theorem bind_quiet (h : T.rel good x log)
    (hf : ∀ b, good b → T.rel next (f b) fun _ => []) : T.rel next (x >>= f) log := by
  have hbind := T.bind h hf
  simp only [Run.along_nil, List.append_nil] at hbind
  exact hbind

/-- Runs without visits are a comparison of each run with any other. -/
def quiet (T : Run.Tracing α) : Run.Comparison α where
  rel good x _ := T.rel good x fun _ => []
  tolerates := T.tolerates
  result h := T.result h
  failure h := T.failure h
  bind h hf := bind_quiet h hf

end Steps

variable [Arith α]

/-- What a tracing asks of a node: its questions are traced without visits, and it may itself
be visited. -/
structure Passes (T : Run.Tracing α) (src : Sources α) (chains : Table (Node α))
    (path : List String) (n : Node α) : Prop where
  quiet : n.Compared T.quiet src src chains path (fun _ => True) (fun _ _ => True) n
  visit {β : Type} {good : β → Prop} {x : Run α β} {log : RunState α → List (Visit α)}
    (scope : Scope) : T.rel good x log → T.rel good x fun state => ⟨n, scope, state⟩ :: log state

section Tree
variable {T : Run.Tracing α} {src : Sources α} {chains : Table (Node α)} {path : List String}
  {enter : Node α → Scope → Run α (Option (Allocation α))}
  {visitsBehind : Node α → Scope → RunState α → List (Visit α)} {day : Nat} {n : Node α}

/-- The evaluation of a node is traced by its visits, under every scope. -/
def Told (T : Run.Tracing α) (src : Sources α) (chains : Table (Node α))
    (enter : Node α → Scope → Run α (Option (Allocation α)))
    (visitsBehind : Node α → Scope → RunState α → List (Visit α)) (day : Nat) (n : Node α) : Prop :=
  ∀ scope, T.rel (fun _ => True) (n.evaluate src chains enter day scope)
    (n.visits src chains enter visitsBehind day scope)

theorem rel_slot {slot : Slot α}
    (h : ∀ c, some c ∈ slot → T.Told src chains enter visitsBehind day c) (scope : Scope)
    (place : Nat) : T.rel (fun _ => True) (Node.evaluateSlot src chains enter day place slot scope)
      (Node.visitsSlot src chains enter visitsBehind day slot scope) := by
  induction slot generalizing place with
  | nil => exact T.result trivial
  | cons entry rest ih =>
      have hrest := ih fun c hc => h c (List.mem_cons_of_mem _ hc)
      cases entry with
      | none => exact hrest (place + 1)
      | some c =>
          refine T.bind (h c List.mem_cons_self scope) fun r _ => ?_
          exact bind_quiet (hrest (place + 1)) fun others _ => T.result trivial

omit [Arith α] in
theorem rel_branch {p : Prop} [Decidable p] {share : α} {x : Run α (Option (Allocation α))}
    {log : RunState α → List (Visit α)} (h : T.rel (fun _ => True) x log) :
    T.rel (fun _ => True) (branch p share x) fun state => if p then log state else [] := by
  unfold branch
  split
  · exact bind_quiet h fun r _ => T.result trivial
  · exact T.result trivial

variable
  (h : n.Compared T.quiet src src chains path (fun _ => True) (fun _ _ => True) n)
  (ih : ∀ c ∈ n.children, T.Told src chains enter visitsBehind day c) (scope : Scope)
include h ih

theorem rel_fill {w : Weighting α} {slot : Slot α} (hslot : (w, slot) ∈ n.weighed) :
    T.rel (fun _ => True) (Node.fill src chains enter day w slot scope)
      (Node.visitsSlot src chains enter visitsBehind day slot scope) := by
  obtain ⟨hw, hslot⟩ := Node.mem_of_mem_weighed hslot
  have htold : ∀ c, some c ∈ slot → T.Told src chains enter visitsBehind day c :=
    fun c hc => ih c (Node.mem_children.2 ⟨slot, hslot, hc⟩)
  refine bind_quiet (rel_slot htold scope 0) fun children _ => ?_
  have hsettled := h.settle scope hw fun _ (_ : _ ∈ children) => trivial
  exact Run.Comparison.mono hsettled fun _ _ => trivial

theorem rel_fork (fork : Fork α (Node α)) (share : α)
    (hthen : (fork.thenWeighting, fork.thenSlot) ∈ n.weighed)
    (helse : (fork.elseWeighting, fork.elseSlot) ∈ n.weighed) :
    T.rel (fun _ => True) (Node.evaluateFork src chains enter day share fork scope)
      (Node.visitsFork src chains enter visitsBehind day share fork scope) := by
  obtain ⟨v, w, thenSlot, elseSlot⟩ := fork
  rw [Node.evaluateFork_eq]
  refine T.bind (rel_branch (rel_fill h ih scope hthen)) fun first _ => ?_
  refine bind_quiet (rel_branch (rel_fill h ih scope helse)) fun second _ => ?_
  exact T.result trivial

theorem rel_rung {w : Weighting α} {ladder : List (Slot α)}
    (hladder : ∀ slot ∈ ladder, (w, slot) ∈ n.weighed) (k : Nat) :
    T.rel (fun _ => True) (Node.evaluateRung src chains enter day w k ladder scope)
      (Node.visitsRung src chains enter visitsBehind day k ladder scope) := by
  induction ladder generalizing k with
  | nil => exact T.result trivial
  | cons slot rest ihl =>
      cases k with
      | zero => exact rel_fill h ih scope (hladder slot List.mem_cons_self)
      | succ k => exact ihl (fun s hs => hladder s (List.mem_cons_of_mem _ hs)) k

omit h ih scope

theorem told_function {id : String} {metric : Metric} {window : Int} {count : Nat}
    {select : Selection} {w : Weighting α} {next : Slot α}
    (h : T.Passes src chains path (.function id metric window count select w next))
    (ih : ∀ c ∈ (Node.function id metric window count select w next).children,
      T.Told src chains enter visitsBehind day c) :
    T.Told src chains enter visitsBehind day
      (.function id metric window count select w next) := by
  intro scope
  have hselected : T.rel (fun _ => True)
      (src.selected (.function id metric window count select w next) metric window count select
        scope) fun _ => [] :=
    Run.Comparison.mono (K := T.quiet) (h.quiet.selected rfl) fun _ _ => trivial
  have hfilled (selected : List String) : T.rel (fun _ => True)
      (if selected.isEmpty then return none
        else Node.fill src chains enter day w next (some selected))
      fun state => if selected.isEmpty then []
        else Node.visitsSlot src chains enter visitsBehind day next (some selected) state := by
    split
    · exact T.result trivial
    · exact rel_fill h.quiet ih _ (by simp [Node.weighed])
  rw [Node.evaluate_function]
  exact h.visit scope (quiet_bind hselected fun selected _ => hfilled selected)

/-- Where the bounds are equal the node fails before it asks for anything. -/
theorem told_scaling {id : String} {reading : Reading} {lower upper : α} {fork : Fork α (Node α)}
    (h : T.Passes src chains path (.scaling id reading lower upper fork))
    (ih : ∀ c ∈ (Node.scaling id reading lower upper fork).children,
      T.Told src chains enter visitsBehind day c) :
    T.Told src chains enter visitsBehind day (.scaling id reading lower upper fork) := by
  intro scope
  have hvalue : T.rel (fun _ => True)
      (do src.value reading.ticker (← Run.ofExcept reading.indicator)) fun _ => [] := by
    have hi : T.rel (fun _ => True) (Run.ofExcept reading.indicator) fun _ => [] :=
      Run.Comparison.ofExcept (K := T.quiet) (fun _ _ => trivial) fun _ he =>
        h.quiet.fault (.reading he)
    exact bind_quiet hi fun i _ => h.quiet.value trivial
  simp only [Node.evaluate, Node.visits]
  cases hbounds : lower == upper with
  | true =>
      have hfails : T.rel (fun _ => False)
          (throw (.treeInvalid id "scaleFrom and scaleTo must differ") : Run α PUnit) fun _ => [] :=
        T.failure (h.quiet.fault (.bounds hbounds))
      exact h.visit scope (bind_quiet hfails fun _ hfalse => hfalse.elim)
  | false =>
      have hfork := quiet_bind hvalue fun value _ =>
        rel_fork h.quiet ih scope fork (value.elim 0 (scaledShare lower upper))
          (by simp [Node.weighed]) (by simp [Node.weighed])
      simpa using h.visit scope hfork

/-- A node that calls no chain is told, as the nodes below it are. What an `altExit` node
decides has to be traced apart, since it reads and writes a flag. -/
theorem told_of_children (h : T.Passes src chains path n) (hcallee : n.callee? = none)
    (hdecide : ∀ id entry exit fork, n = .altExit id entry exit fork →
      T.rel (fun _ => True) (src.decideHold day id entry exit) fun _ => [])
    (ih : ∀ c ∈ n.children, T.Told src chains enter visitsBehind day c) :
    T.Told src chains enter visitsBehind day n := by
  cases n with
  | basic id w next => exact fun scope => h.visit scope (rel_fill h.quiet ih scope (by simp [Node.weighed]))
  | function id metric window count select w next => exact told_function h ih
  | indicator id conditions fork =>
      intro scope
      refine h.visit scope (quiet_bind (h.quiet.verdict (by simp [Node.keyedLists])) fun _ _ => ?_)
      exact rel_fork h.quiet ih scope fork _ (by simp [Node.weighed]) (by simp [Node.weighed])
  | numbered id items quantifier fork ladder =>
      intro scope
      refine h.visit scope (quiet_bind (h.quiet.countHits id ?_) fun hits _ => ?_)
      · intro item hi
        exact List.mem_map.2 ⟨(toString item.2, item.1), List.mem_map.2 ⟨item, hi, rfl⟩, rfl⟩
      · split
        · exact rel_rung h.quiet ih scope (fun slot hs => by simp [Node.weighed, hs]) hits
        · exact rel_fork h.quiet ih scope fork _ (by simp [Node.weighed]) (by simp [Node.weighed])
  | position id tickers => exact fun scope => h.visit scope (T.result trivial)
  | call id chain => cases hcallee
  | altExit id entry exit fork =>
      intro scope
      refine h.visit scope (quiet_bind (hdecide id entry exit fork rfl) fun held _ => ?_)
      exact rel_fork h.quiet ih scope fork _ (by simp [Node.weighed]) (by simp [Node.weighed])
  | scaling id reading lower upper fork => exact told_scaling h ih

end Tree
end Run.Tracing

/-- Tracings of the nodes that are come to on each path of calls. -/
structure Run.Tracer [Arith α] (src : Sources α) (chains : Table (Node α)) (day : Nat) where
  on : List String → Run.Tracing α
  covers : List String → Node α → Prop
  child {path : List String} {n c : Node α} : covers path n → c ∈ n.children → covers path c
  enter {path : List String} {id chain : String} {root : Node α} : covers path (.call id chain) →
    chains.get? chain = some root → chain ∉ path → covers (path ++ [chain]) root
  passes {path : List String} {n : Node α} : covers path n → n.callee? = none →
    (on path).Passes src chains path n
  decideHold {path : List String} {id : String} {entry exit : List (Condition α)}
    {fork : Fork α (Node α)} : covers path (.altExit id entry exit fork) →
    (on path).rel (fun _ => True) (src.decideHold day id entry exit) fun _ => []
  /-- Only what is done on the path matters. -/
  congr {β : Type} {path : List String} {good : β → Prop} {x y : Run α β}
    {log log' : RunState α → List (Visit α)} :
    (∀ s : RunState α, s.path = path → y s = x s ∧ log' s = log s) →
    (on path).rel good x log → (on path).rel good y log'
  refuses {path : List String} {id chain : String} {e : Failure} (scope : Scope) :
    covers path (.call id chain) → (Node.call id chain).Faults chains path e →
    (on path).rel (fun _ : Option (Allocation α) => True) (throw e)
      fun s => [⟨.call id chain, scope, s⟩]
  /-- A call is traced if the root of the chain is, one chain deeper. -/
  enters {path : List String} {id chain : String} {x : Run α (Option (Allocation α))}
    {log : RunState α → List (Visit α)} (scope : Scope) : covers path (.call id chain) →
    (on (path ++ [chain])).rel (fun _ => True) x log →
    (on path).rel (fun _ => True) (Run.inside chain x)
      fun s => ⟨.call id chain, scope, s⟩ :: log { s with path := s.path ++ [chain] }

namespace Run.Tracer

variable [Arith α] {src : Sources α} {chains : Table (Node α)} {day : Nat}
  (T : Run.Tracer src chains day) {path : List String}

/-- A call is dangling, closes a cycle, or goes on with the root of a chain. -/
theorem told_call {id chain : String} {enter : Node α → Scope → Run α (Option (Allocation α))}
    {visitsBehind : Node α → Scope → RunState α → List (Visit α)}
    (hn : T.covers path (.call id chain))
    (henter : ∀ root, chains.get? chain = some root → chain ∉ path → ∀ scope,
      (T.on (path ++ [chain])).rel (fun _ => True) (enter root scope)
        (visitsBehind root scope)) :
    (T.on path).Told src chains enter visitsBehind day (.call id chain) := by
  intro scope
  cases hroot : chains.get? chain with
  | none =>
      apply T.congr ?_ (T.refuses scope hn (.dangling hroot))
      intro s _
      exact ⟨Node.evaluate_dangling hroot, by simp only [Node.visits, hroot]⟩
  | some root =>
      by_cases hmem : chain ∈ path
      · apply T.congr ?_ (T.refuses scope hn (.cycle hmem))
        intro s hpath
        have hcalled : chain ∈ s.path := hpath ▸ hmem
        rw [Node.evaluate_cycle hroot hcalled, Node.visits_cycle hroot hcalled, hpath]
        exact ⟨rfl, rfl⟩
      · apply T.congr ?_ (T.enters scope hn (henter root hroot hmem scope))
        intro s hpath
        have hnew : chain ∉ s.path := hpath ▸ hmem
        exact ⟨Node.evaluate_call hroot hnew, Node.visits_call hroot hnew⟩

/-- Evaluations are traced as deep as calls are nested. -/
theorem told_within {n : Node α} (hn : T.covers path n) (depth : Nat) (scope : Scope) :
    (T.on path).rel (fun _ => True) (n.evaluateWithin src chains day depth scope)
      (n.visitsWithin src chains day depth scope) := by
  induction depth generalizing path n scope with
  | zero => exact (T.on path).result trivial
  | succ depth ih =>
      revert scope
      induction n using Node.induction_on with
      | step n ihn =>
          cases hcallee : n.callee? with
          | none =>
              refine Run.Tracing.told_of_children (T.passes hn hcallee) hcallee ?_ fun c hc =>
                ihn c hc (T.child hn hc)
              rintro id entry exit fork rfl
              exact T.decideHold hn
          | some chain =>
              obtain ⟨id, rfl⟩ := Node.eq_call_of_callee hcallee
              exact T.told_call hn fun root hroot hnew scope => ih (T.enter hn hroot hnew) scope

end Run.Tracer
end StrategyTree
