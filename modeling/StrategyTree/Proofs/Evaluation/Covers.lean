import Mathlib.Data.List.Nodup
import StrategyTree.Proofs.Evaluation.Simulation
import StrategyTree.Proofs.Strategy.Validation
/-!
# Nodes on a path of calls

The search for cycles looks at all chains, and the evaluation at the chains that
are being called. Both meet in one invariant: no chain that is called below a
node leads back to a chain on the path. It holds of the root on the empty path
and passes to children and, across calls, to the roots of chains, so checked
nodes never fail, and a depth of one tree for each chain is enough.
-/
namespace StrategyTree

open Relation

variable {α : Type} {s : Strategy α} {path : List String}

theorem Node.calls_subset_of_child {n c : Node α} (hc : c ∈ n.children) : c.calls ⊆ n.calls := by
  intro chain h
  obtain ⟨d, hd, hcallee⟩ := List.mem_filterMap.1 h
  exact List.mem_filterMap.2 ⟨d, walk_subset_of_child hc hd, hcallee⟩

theorem Node.mem_calls_call (id chain : String) : chain ∈ (call id chain : Node α).calls := by
  simp [calls, walk, callee?]

namespace Strategy

/-- A node of the strategy from which no call leads back to the path. -/
structure Covers (s : Strategy α) (path : List String) (n : Node α) : Prop where
  node : n ∈ s.nodes
  apart {chain p : String} : chain ∈ n.calls → p ∈ path →
    ¬ ReflTransGen (CallGraph.Calls s.chains) chain p

namespace Covers

theorem root (s : Strategy α) : s.Covers [] s.root :=
  ⟨s.root_mem_nodes, fun _ hp => absurd hp List.not_mem_nil⟩

theorem child {n c : Node α} (h : s.Covers path n) (hc : c ∈ n.children) : s.Covers path c :=
  ⟨child_mem_nodes h.node hc, fun hchain => h.apart (Node.calls_subset_of_child hc hchain)⟩

variable [Arith α]

/-- Behind a call the path is longer by the chain, which does not lead back to itself. -/
theorem enter (hs : s.WellFormed) {id chain : String} {root : Node α}
    (h : s.Covers path (.call id chain)) (hroot : s.chains.get? chain = some root) :
    s.Covers (path ++ [chain]) root := by
  refine ⟨chain_mem_nodes hroot, fun {next p} hnext hp hreach => ?_⟩
  have hedge : CallGraph.Calls s.chains chain next := by
    simpa [CallGraph.Calls, CallGraph.edges, hroot] using hnext
  rcases List.mem_append.1 hp with hp | hp
  · exact h.apart (Node.mem_calls_call id chain) hp (.head hedge hreach)
  · obtain rfl := List.mem_singleton.1 hp
    exact hs.acyclic p (TransGen.head' hedge hreach)

/-- The evaluation of a node of an accepted strategy raises no failure by itself. -/
theorem not_faults (hs : s.WellFormed) {n : Node α} (h : s.Covers path n) {e : Failure} :
    ¬ n.Faults s.chains path e := by
  intro he
  obtain ⟨id, chain, rfl, hmem⟩ := (Node.check_ok.1 (hs.checked h.node)).faults he
  exact h.apart (Node.mem_calls_call id chain) hmem .refl

end Covers

/-- A depth that is enough for a node on a path of calls. The chains on the path differ, and
with each call there is one more of them and the depth is one less. -/
structure Suffices (s : Strategy α) (depth : Nat) (path : List String) (n : Node α) : Prop where
  covers : s.Covers path n
  nodup : path.Nodup
  known : path ⊆ s.chains.keys
  enough : s.chains.keys.length < depth + path.length

namespace Suffices

variable {depth : Nat} {n : Node α}

theorem root (s : Strategy α) : s.Suffices (s.chains.entries.length + 1) [] s.root :=
  ⟨.root s, List.nodup_nil, List.nil_subset _, by simp [Table.keys]⟩

theorem child (h : s.Suffices depth path n) {c : Node α} (hc : c ∈ n.children) :
    s.Suffices depth path c :=
  { h with covers := h.covers.child hc }

variable [Arith α]

theorem enter (hs : s.WellFormed) {id chain : String} {root : Node α}
    (h : s.Suffices (depth + 1) path (.call id chain)) (hroot : s.chains.get? chain = some root)
    (hnew : chain ∉ path) : s.Suffices depth (path ++ [chain]) root := by
  refine ⟨h.covers.enter hs hroot, by simpa using h.nodup.concat hnew, ?_, ?_⟩
  · have hchain : chain ∈ s.chains.keys := Table.mem_keys_iff.2 ⟨root, hroot⟩
    exact List.append_subset.2 ⟨h.known, by simpa using hchain⟩
  · have henough := h.enough
    rw [List.length_append, List.length_singleton]
    omega

/-- A property of nodes and of the depths that are enough for them holds if it passes from the
children of a node to the node and, one deeper, from the root of a chain to a call. -/
theorem induction_on (hs : s.WellFormed) {P : Nat → List String → Node α → Prop}
    (children : ∀ {depth path n}, s.Suffices (depth + 1) path n → n.callee? = none →
      (∀ c ∈ n.children, P (depth + 1) path c) → P (depth + 1) path n)
    (call : ∀ {depth path id chain root}, s.Suffices (depth + 1) path (.call id chain) →
      s.chains.get? chain = some root → chain ∉ path →
      P depth (path ++ [chain]) root → P (depth + 1) path (.call id chain))
    (h : s.Suffices depth path n) : P depth path n := by
  induction depth generalizing path n with
  | zero =>
      have hlength := h.nodup.length_le_of_subset h.known
      have henough := h.enough
      omega
  | succ depth ih =>
      induction n using Node.induction_on with
      | step n ihn =>
          cases hcallee : n.callee? with
          | none => exact children h hcallee fun c hc => ihn c hc (h.child hc)
          | some chain =>
              obtain ⟨id, rfl⟩ := Node.eq_call_of_callee hcallee
              obtain ⟨root, hroot⟩ := (Node.check_ok.1 (hs.checked h.covers.node)).shape
              have hnew : chain ∉ path :=
                fun hmem => h.covers.apart (Node.mem_calls_call id chain) hmem .refl
              exact call h hroot hnew (ih (h.enter hs hroot hnew))

end Suffices

variable [Arith α]

/-- The conditions of an accepted strategy name indicators only. -/
theorem WellFormed.resolves (hs : s.WellFormed) {n : Node α} (hn : n ∈ s.nodes) {key : String}
    {list : List (Condition α)} (hl : (key, list) ∈ n.keyedLists) : ∀ c ∈ list, c.Resolves :=
  fun c hc => (((Node.check_ok.1 (hs.checked hn)).conditions _
    (Node.mem_conditionLists hl)).lawful c hc).resolves

/-- Sources that answer alike are simulated over an accepted strategy, whatever failures the
coupling tolerates. -/
def WellFormed.simulation (hs : s.WellFormed) {src src' : Sources α} (C : Coupling α)
    (verdict : ∀ {path : List String} {n : Node α} {key : String} {list : List (Condition α)},
      n ∈ s.nodes → (key, list) ∈ n.keyedLists →
        Run.Coupled C path (fun _ => True) (src.verdict key list) (src'.verdict key list))
    (value : ∀ {path : List String} {ticker : String} {i : Indicator},
      Run.Coupled C path (fun _ => True) (src.value ticker i) (src'.value ticker i))
    (candidates : ∀ {path : List String} {n : Node α}, n ∈ s.nodes →
      Run.Coupled C path (fun _ => True) (src.candidates n) (src'.candidates n)) :
    Simulation src src' s.chains where
  toCoupling := C
  covers := s.Covers
  child := Covers.child
  enter h hroot _ := Covers.enter hs h hroot
  fault h he := absurd he (h.not_faults hs)
  verdict h hl := verdict h.node hl
  value _ := value
  candidates h := (candidates h.node).mono fun _ _ _ _ => trivial

end Strategy
end StrategyTree
