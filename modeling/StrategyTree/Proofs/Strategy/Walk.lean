import StrategyTree.Strategy.Basic
/-!
# Trees and walks

An induction over nodes by their children, whatever slots these stand in, and
the walk of a tree as the depth-first order of the nodes that children lead to.
-/
namespace StrategyTree

variable {α : Type}

namespace Node

/-- The children of a node, by the slot that each stands in. -/
theorem mem_children {n c : Node α} : c ∈ n.children ↔ ∃ slot ∈ n.slots, some c ∈ slot := by
  simp [children]

/-- A property holds of all nodes if it passes from the children of a node to the node. -/
theorem induction_on {P : Node α → Prop} (n : Node α)
    (step : ∀ n : Node α, (∀ c ∈ n.children, P c) → P n) : P n := by
  refine @Node.rec α P (fun slot => ∀ c, some c ∈ slot → P c)
    (fun fork => ∀ slot ∈ [fork.thenSlot, fork.elseSlot], ∀ c, some c ∈ slot → P c)
    (fun ladder => ∀ slot ∈ ladder, ∀ c, some c ∈ slot → P c)
    (fun entry => ∀ c, some c = entry → P c)
    ?basic ?function ?indicator ?numbered ?position ?call ?altExit ?scaling
    ?emptySlot ?slot ?fork ?emptyLadder ?ladder ?placeholder ?entry n
  case basic =>
    intro id w next hnext
    refine step _ fun c hc => hnext c ?_
    simpa [mem_children, slots] using hc
  case function =>
    intro id metric window count select w next hnext
    refine step _ fun c hc => hnext c ?_
    simpa [mem_children, slots] using hc
  case indicator =>
    intro id conditions fork hfork
    refine step _ fun c hc => ?_
    obtain ⟨slot, hs, hc⟩ := mem_children.1 hc
    exact hfork slot hs c hc
  case numbered =>
    intro id items quantifier fork ladder hfork hladder
    refine step _ fun c hc => ?_
    obtain ⟨slot, hs, hc⟩ := mem_children.1 hc
    have h : slot ∈ [fork.thenSlot, fork.elseSlot] ++ ladder := by simpa [slots] using hs
    rcases List.mem_append.1 h with h | h
    · exact hfork slot h c hc
    · exact hladder slot h c hc
  case position => exact fun id tickers => step _ fun c hc => by simp [mem_children, slots] at hc
  case call => exact fun id chain => step _ fun c hc => by simp [mem_children, slots] at hc
  case altExit =>
    intro id entry exit fork hfork
    refine step _ fun c hc => ?_
    obtain ⟨slot, hs, hc⟩ := mem_children.1 hc
    exact hfork slot hs c hc
  case scaling =>
    intro id reading lower upper fork hfork
    refine step _ fun c hc => ?_
    obtain ⟨slot, hs, hc⟩ := mem_children.1 hc
    exact hfork slot hs c hc
  case emptySlot => simp
  case slot =>
    intro entry rest hentry hrest c hc
    rcases List.mem_cons.1 hc with hc | hc
    · exact hentry c hc
    · exact hrest c hc
  case fork =>
    intro w₁ w₂ thenSlot elseSlot hthen helse slot hs c hc
    simp only [List.mem_cons, List.not_mem_nil, or_false] at hs
    rcases hs with rfl | rfl
    · exact hthen c hc
    · exact helse c hc
  case emptyLadder => simp
  case ladder =>
    intro first rest hfirst hrest slot hs c hc
    rcases List.mem_cons.1 hs with rfl | hs
    · exact hfirst c hc
    · exact hrest slot hs c hc
  case placeholder => simp
  case entry =>
    intro n hn c hc
    cases hc
    exact hn

theorem mem_walk_self (n : Node α) : n ∈ n.walk := by
  cases n <;> simp [walk]

theorem walkSlot_eq {slot : List (Option (Node α))} :
    walkSlot slot = (slot.filterMap fun entry => entry).flatMap walk := by
  induction slot with
  | nil => rfl
  | cons entry rest ih => cases entry <;> simp [walkSlot, ih]

theorem walkFork_eq {fork : Fork α (Node α)} :
    walkFork fork = walkSlot fork.thenSlot ++ walkSlot fork.elseSlot := by
  cases fork
  rfl

theorem walkLadder_eq {ladder : List (List (Option (Node α)))} :
    walkLadder ladder = ladder.flatMap walkSlot := by
  induction ladder with
  | nil => rfl
  | cons slot rest ih => rw [walkLadder, ih, List.flatMap_cons]

/-- A walk is depth first: the node itself, and then the walks of its children in order. -/
theorem walk_eq (n : Node α) : n.walk = n :: n.children.flatMap walk := by
  have hslots : n.walk = n :: n.slots.flatMap walkSlot := by
    cases n <;> simp [walk, slots, walkFork_eq, walkLadder_eq]
  have hslot : walkSlot (α := α) = fun slot => (slot.filterMap fun entry => entry).flatMap walk :=
    funext fun _ => walkSlot_eq
  rw [hslots, children, List.flatMap_assoc, hslot]

/-- A walk meets the node itself and what the walks of its children meet. -/
theorem mem_walk {n d : Node α} : d ∈ n.walk ↔ d = n ∨ ∃ c ∈ n.children, d ∈ c.walk := by
  rw [walk_eq, List.mem_cons, List.mem_flatMap]

theorem walk_subset_of_child {n c : Node α} (hc : c ∈ n.children) : c.walk ⊆ n.walk :=
  fun _ hd => mem_walk.2 (.inr ⟨c, hc, hd⟩)

theorem mem_walk_of_child {n c : Node α} (hc : c ∈ n.children) : c ∈ n.walk :=
  walk_subset_of_child hc c.mem_walk_self

/-- What is below a node of a walk is in the walk. -/
theorem walk_subset {n d : Node α} (hd : d ∈ n.walk) : d.walk ⊆ n.walk := by
  induction n using induction_on with
  | step n ih =>
      rcases mem_walk.1 hd with rfl | ⟨c, hc, hd⟩
      · exact fun _ h => h
      · exact fun _ h => walk_subset_of_child hc (ih c hc hd h)

end Node

namespace Strategy

def nodes (s : Strategy α) : List (Node α) :=
  s.trees.flatMap Node.walk

theorem mem_nodes {s : Strategy α} {n : Node α} : n ∈ s.nodes ↔ ∃ t ∈ s.trees, n ∈ t.walk := by
  simp [nodes]

theorem root_mem_nodes (s : Strategy α) : s.root ∈ s.nodes :=
  mem_nodes.2 ⟨s.root, by simp [trees], s.root.mem_walk_self⟩

theorem child_mem_nodes {s : Strategy α} {n c : Node α} (hn : n ∈ s.nodes)
    (hc : c ∈ n.children) : c ∈ s.nodes := by
  obtain ⟨t, ht, hn⟩ := mem_nodes.1 hn
  exact mem_nodes.2 ⟨t, ht, Node.walk_subset hn (Node.mem_walk_of_child hc)⟩

theorem chain_mem_nodes {s : Strategy α} {chain : String} {root : Node α}
    (h : s.chains.get? chain = some root) : root ∈ s.nodes := by
  obtain ⟨l, r, he, -⟩ := List.lookup_eq_some_iff.1 h
  refine mem_nodes.2 ⟨root, List.mem_cons_of_mem _ ?_, root.mem_walk_self⟩
  simp [Table.values, he]

end Strategy
end StrategyTree
