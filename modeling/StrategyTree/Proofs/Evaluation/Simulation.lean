import StrategyTree.Proofs.Evaluation.Comparison
import StrategyTree.Proofs.Evaluation.Coupling
/-!
# Simulation of an evaluation

Two evaluations of the same nodes are compared that may differ in their sources,
in their states and in how they go on at a call. A simulation lists what the two
must have in common for the nodes that it covers: alike answers, tolerated
faults, and a property of allocations that every step of the evaluation keeps.
Then whole evaluations are coupled, by induction over the tree and over the
nesting of calls.
-/
namespace StrategyTree

variable {α : Type}

/-- Coupled runs on a path are a comparison of runs. -/
def Coupling.comparison (C : Coupling α) (path : List String) : Run.Comparison α where
  rel good x y := Run.Coupled C path good x y
  tolerates := C.tolerates
  result h := .result h
  failure h := .failure h
  bind h hf := h.bind hf

theorem Coupling.comparison_sameFlags (C : Coupling α) (path : List String) :
    (C.comparison path).SameFlags where
  lookUp id f g h := .look fun s t hst hs ht => by
    rw [C.holds_eq hst]
    exact h _ s t hst hs ht
  record id hold := by
    intro s t hst hs ht
    refine ⟨rfl, trivial, ?_, hs, ht⟩
    change C.states { s with holds := s.holds.insert id hold }
      { t with holds := t.holds.insert id hold }
    rw [C.holds_eq hst]
    exact C.withHolds hst _

variable [Arith α]

/-- A call of a chain that is not on the path goes on with the root of the chain. -/
theorem Node.evaluate_call {src : Sources α} {chains : Table (Node α)}
    {enter : Node α → Scope → Run α (Option (Allocation α))} {day : Nat} {id chain : String}
    {root : Node α} {scope : Scope} {s : RunState α} (hroot : chains.get? chain = some root)
    (hnew : chain ∉ s.path) :
    (call id chain).evaluate src chains enter day scope s =
      Run.inside chain (enter root scope) s := by
  have hget : (get : Run α (RunState α)) s = (.ok s, s) := rfl
  simp only [evaluate, hroot]
  rw [Run.bind_ok hget, if_neg hnew]

theorem Node.evaluate_cycle {src : Sources α} {chains : Table (Node α)}
    {enter : Node α → Scope → Run α (Option (Allocation α))} {day : Nat} {id chain : String}
    {root : Node α} {scope : Scope} {s : RunState α} (hroot : chains.get? chain = some root)
    (hmem : chain ∈ s.path) :
    (call id chain).evaluate src chains enter day scope s =
      (.error (.callCycle chain s.path), s) := by
  have hget : (get : Run α (RunState α)) s = (.ok s, s) := rfl
  simp only [evaluate, hroot]
  rw [Run.bind_ok hget, if_pos hmem]
  rfl

theorem Node.evaluate_dangling {src : Sources α} {chains : Table (Node α)}
    {enter : Node α → Scope → Run α (Option (Allocation α))} {day : Nat} {id chain : String}
    {scope : Scope} {s : RunState α} (hroot : chains.get? chain = none) :
    (call id chain).evaluate src chains enter day scope s =
      (.error (.danglingCall id chain), s) := by
  simp only [evaluate, hroot]
  rfl

/-- Two evaluations of a call are on the same path, so they find the same chain called again.
The chains themselves may differ. -/
theorem Node.coupled_call {C : Coupling α} {src src' : Sources α} {chains chains' : Table (Node α)}
    {enter enter' : Node α → Scope → Run α (Option (Allocation α))} {day : Nat}
    {path : List String} {good : Option (Allocation α) → Prop} {id chain : String} {scope : Scope}
    {g : Node α → Node α} (hchain : chains'.get? chain = (chains.get? chain).map g)
    (hfault : ∀ e, (call id chain).Faults chains path e → C.tolerates e)
    (henter : ∀ root, chains.get? chain = some root → chain ∉ path →
      Run.Coupled C (path ++ [chain]) good (enter root scope) (enter' (g root) scope)) :
    Run.Coupled C path good ((call id chain).evaluate src chains enter day scope)
      ((call id chain).evaluate src' chains' enter' day scope) := by
  simp only [evaluate, hchain]
  cases hroot : chains.get? chain with
  | none => exact .failure (hfault _ (.dangling hroot))
  | some root =>
      refine .look fun s t hst hs ht => ?_
      rw [hs, ht]
      split
      · next hmem => exact ⟨rfl, hfault _ (.cycle hmem), hst, hs, ht⟩
      · next hmem => exact Run.Coupled.inside (henter root hroot hmem) s t hst hs ht

/-- What two evaluations with sources `src` and `src'` have in common. -/
structure Simulation (src src' : Sources α) (chains : Table (Node α)) extends Coupling α where
  /-- The nodes that are evaluated on a path of calls. -/
  covers : List String → Node α → Prop
  /-- The tickers whose indicators are asked for. -/
  reads : String → Prop := fun _ => True
  /-- What holds of every allocation under a scope. -/
  good : Scope → Allocation α → Prop := fun _ _ => True
  child {path : List String} {n c : Node α} : covers path n → c ∈ n.children → covers path c
  enter {path : List String} {id chain : String} {root : Node α} : covers path (.call id chain) →
    chains.get? chain = some root → chain ∉ path → covers (path ++ [chain]) root
  fault {path : List String} {n : Node α} {e : Failure} : covers path n →
    n.Faults chains path e → tolerates e
  verdict {path : List String} {n : Node α} {key : String} {list : List (Condition α)} :
    covers path n → (key, list) ∈ n.keyedLists →
    Run.Coupled toCoupling path (fun _ => True) (src.verdict key list) (src'.verdict key list)
  value {path : List String} {ticker : String} {i : Indicator} : reads ticker →
    Run.Coupled toCoupling path (fun _ => True) (src.value ticker i) (src'.value ticker i)
  candidates {path : List String} {n : Node α} : covers path n →
    Run.Coupled toCoupling path (fun tickers => ∀ t ∈ tickers, reads t) (src.candidates n)
      (src'.candidates n)
  reading {path : List String} {id : String} {r : Reading} {lower upper : α}
    {fork : Fork α (Node α)} : covers path (.scaling id r lower upper fork) → reads r.ticker := by
      intros; trivial
  held {path : List String} {id : String} {tickers : List String} {scope : Scope}
    {a : Allocation α} : covers path (.position id tickers) →
    Allocation.ofPosition cashTicker scope.allows tickers = some a → good scope a := by
      intros; trivial
  asked {path : List String} {n : Node α} {w : Weighting α} {scope : Scope}
    {children : List (Nat × Allocation α)} {a : Allocation α} : covers path n →
    w ∈ n.weightings → (∀ c ∈ children, good scope c.2) → w.spread children = some a →
    w.volatilityIndicator ≠ .ok none → ∀ t ∈ a.keys, reads t := by
      intros; trivial
  settled {path : List String} {n : Node α} {w : Weighting α} {scope : Scope}
    {children : List (Nat × Allocation α)} {a : Allocation α} (sigma : String → Option α) :
    covers path n → w ∈ n.weightings → (∀ c ∈ children, good scope c.2) →
    w.spread children = some a → good scope (w.adjust sigma a) := by
      intros; trivial
  mixed {share : α} {scope : Scope} {first second : Option (Allocation α)} {a : Allocation α} :
    IsShare share → (∀ b, first = some b → good scope b) → (∀ b, second = some b → good scope b) →
    Allocation.blend (forkParts share first second) = some a → good scope a := by
      intros; trivial
  narrowed {scope : Scope} {tickers : List String} {a : Allocation α} :
    (∀ t ∈ tickers, scope.allows t = true) → good (some tickers) a → good scope a := by
      intros; trivial
  empty : good none .empty := by
    intros; trivial

namespace Simulation

variable {src src' : Sources α} {chains : Table (Node α)}

/-- The property of a result: what holds of its allocation, if it is not pruned. -/
def GoodResult (S : Simulation src src' chains) (scope : Scope) (r : Option (Allocation α)) :
    Prop :=
  IfKept (S.good scope) r

variable (S : Simulation src src' chains) {path : List String}

/-- Two simulated evaluations compare at a node that is covered. -/
theorem compared {n : Node α} (hn : S.covers path n) :
    n.Compared (S.comparison path) src src' chains path S.reads S.good n where
  fault h := S.fault hn h
  verdict h := S.verdict hn h
  value h := S.value h
  candidates _ := S.candidates hn
  reading h := S.reading (h ▸ hn)
  held h ha := S.held (h ▸ hn) ha
  asked hw hc ha hi := S.asked hn hw hc ha hi
  settled sigma hw hc ha := S.settled sigma hn hw hc ha
  mixed h hfirst hsecond ha := S.mixed h hfirst hsecond ha
  narrowed h ha := S.narrowed h ha

section Tree
variable {enter enter' : Node α → Scope → Run α (Option (Allocation α))} {day : Nat}

def Evaluates (path : List String) (enter enter' : Node α → Scope → Run α (Option (Allocation α)))
    (day : Nat) (n : Node α) : Prop :=
  ∀ scope, Run.Coupled S.toCoupling path (S.GoodResult scope)
    (n.evaluate src chains enter day scope) (n.evaluate src' chains enter' day scope)

variable {S}

theorem evaluateCall {id chain : String} (hn : S.covers path (.call id chain))
    (henter : ∀ root, chains.get? chain = some root → chain ∉ path →
      S.covers (path ++ [chain]) root → ∀ scope, Run.Coupled S.toCoupling (path ++ [chain])
        (S.GoodResult scope) (enter root scope) (enter' root scope)) :
    S.Evaluates path enter enter' day (.call id chain) :=
  fun scope => Node.coupled_call (g := fun root => root) Option.map_id'.symm
    (fun _ h => S.fault hn h)
    fun root hroot hnew => henter root hroot hnew (S.enter hn hroot hnew) scope

end Tree

/-- Evaluations are coupled at a node if they are at the roots of the chains that calls
below it enter. -/
theorem evaluate {enter enter' : Node α → Scope → Run α (Option (Allocation α))} {day : Nat}
    (henter : ∀ chain root, chains.get? chain = some root → chain ∉ path →
      S.covers (path ++ [chain]) root → ∀ scope, Run.Coupled S.toCoupling (path ++ [chain])
        (S.GoodResult scope) (enter root scope) (enter' root scope))
    (n : Node α) (hn : S.covers path n) : S.Evaluates path enter enter' day n := by
  induction n using Node.induction_on with
  | step n ih =>
      intro scope
      cases hcallee : n.callee? with
      | some chain =>
          obtain ⟨id, rfl⟩ := Node.eq_call_of_callee hcallee
          exact evaluateCall hn (henter chain) scope
      | none =>
          have hchildren : ∀ c ∈ n.children, S.Evaluates path enter enter' day c :=
            fun c hc => ih c hc (S.child hn hc)
          exact (S.compared hn).evaluate_self (S.comparison_sameFlags path) hcallee hchildren scope

theorem evaluateWithin (day depth : Nat) (n : Node α) (hn : S.covers path n) (scope : Scope) :
    Run.Coupled S.toCoupling path (S.GoodResult scope)
      (n.evaluateWithin src chains day depth scope)
      (n.evaluateWithin src' chains day depth scope) := by
  induction depth generalizing path n scope with
  | zero => exact .result fun a h => by cases h
  | succ depth ih => exact S.evaluate (fun chain root _ _ h => ih root h) n hn scope

end Simulation

theorem Strategy.evaluateDayWith_apply (s : Strategy α) (src : Sources α) (day : Nat)
    (t : RunState α) : s.evaluateDayWith src day t =
      (do let r ← s.root.evaluateWithin src s.chains day (s.chains.entries.length + 1) none
          return r.getD .empty : Run α (Allocation α)) { t with path := [] } := rfl

/-- Two simulated evaluations decide the same on a day, and their states stay coupled. -/
theorem Simulation.evaluateDay {s : Strategy α} {src src' : Sources α}
    (S : Simulation src src' s.chains) (hroot : S.covers [] s.root) (day : Nat)
    {t t' : RunState α} (h : S.states t t') :
    Run.Matches S.toCoupling [] (S.good none) (s.evaluateDayWith src day t)
      (s.evaluateDayWith src' day t') := by
  rw [s.evaluateDayWith_apply, s.evaluateDayWith_apply]
  refine (S.evaluateWithin day _ s.root hroot none).bind (fun r hr => .result ?_) _ _
    (S.withPath h []) rfl rfl
  cases r with
  | none => exact S.empty
  | some a => exact hr a rfl

end StrategyTree
