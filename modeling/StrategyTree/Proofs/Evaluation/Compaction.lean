import StrategyTree.Proofs.Document.Placeholders
import StrategyTree.Proofs.Evaluation.Depth
import StrategyTree.Proofs.Evaluation.Safety
import StrategyTree.Proofs.Strategy.Compaction
/-!
# Placeholders are no-ops

A strategy and its compacted form do the same on every day, from every state. Behind a
placeholder the nodes of a slot have other places, but a place matters to specified weights
only, and where these are compaction keeps it.
-/
namespace StrategyTree

variable {α : Type} [Arith α]

/-! ### Slots -/

namespace Weighting

/-- Without specified weights, places do not matter. -/
theorem spread_congr {w : Weighting α} (hw : ∀ weights, w ≠ .specified weights)
    {children children' : List (Nat × Allocation α)}
    (h : children.map Prod.snd = children'.map Prod.snd) :
    w.spread children = w.spread children' := by
  have hlength : children.length = children'.length := by
    simpa using congrArg List.length h
  have hempty : children.isEmpty = children'.isEmpty := by
    simpa using congrArg List.isEmpty h
  have hshares : w.shares (children.map Prod.fst) = w.shares (children'.map Prod.fst) := by
    cases w with
    | specified weights => exact absurd rfl (hw weights)
    | _ => simp [shares, hlength]
  rw [spread, spread, hempty, h, hshares]

end Weighting

theorem Sources.settle_congr (src : Sources α) {w : Weighting α}
    (hw : ∀ weights, w ≠ .specified weights) {children children' : List (Nat × Allocation α)}
    (h : children.map Prod.snd = children'.map Prod.snd) :
    src.settle w children = src.settle w children' := by
  unfold settle deviations Weighting.combine
  rw [Weighting.spread_congr hw h]

namespace Node

variable {src : Sources α} {chains : Table (Node α)}
  {enter : Node α → Scope → Run α (Option (Allocation α))} {day : Nat}

theorem evaluateSlot_append {dropped : Slot α} (h : ∀ entry ∈ dropped, entry = none)
    (place : Nat) (slot : Slot α) (scope : Scope) :
    evaluateSlot src chains enter day place (slot ++ dropped) scope =
      evaluateSlot src chains enter day place slot scope := by
  induction slot generalizing place with
  | nil =>
      induction dropped generalizing place with
      | nil => rfl
      | cons entry rest ih =>
          obtain rfl := h entry List.mem_cons_self
          exact ih (fun e he => h e (List.mem_cons_of_mem _ he)) (place + 1)
  | cons entry rest ih =>
      cases entry with
      | none => exact ih (place + 1)
      | some n => simp only [List.cons_append, evaluateSlot, ih]

/-- What does not look at places does the same with a slot and with its nodes alone. -/
theorem evaluateSlot_filter {γ : Type} {f f' : List (Nat × Allocation α) → Run α γ}
    (h : ∀ children children', children.map Prod.snd = children'.map Prod.snd →
      f children = f' children') (place place' : Nat) (slot : Slot α) (scope : Scope) :
    (evaluateSlot src chains enter day place (slot.filter Option.isSome) scope >>= f) =
      evaluateSlot src chains enter day place' slot scope >>= f' := by
  induction slot generalizing place place' f f' with
  | nil => simp [evaluateSlot, h [] [] rfl]
  | cons entry rest ih =>
      cases entry with
      | none => exact ih h place (place' + 1)
      | some n =>
          simp only [List.filter_cons, Option.isSome_some, if_true, evaluateSlot, bind_assoc,
            pure_bind]
          refine bind_congr fun r => ih (fun others others' hothers => h _ _ ?_) _ _
          cases r with
          | none => exact hothers
          | some a => exact congrArg (a :: ·) hothers

theorem fill_prune (w : Weighting α) (slot : Slot α) (scope : Scope) :
    fill src chains enter day w (w.prune slot) scope =
      fill src chains enter day w slot scope := by
  cases w with
  | specified weights =>
      have hparts : slot.rdropWhile Option.isNone ++ slot.rtakeWhile Option.isNone = slot :=
        List.rdropWhile_append_rtakeWhile
      have hdropped : ∀ entry ∈ slot.rtakeWhile Option.isNone, entry = none :=
        fun entry h => Option.isNone_iff_eq_none.1 (List.mem_rtakeWhile_imp h)
      unfold fill
      conv_rhs => rw [← hparts, evaluateSlot_append hdropped]
      rfl
  | _ =>
      exact evaluateSlot_filter (fun _ _ h => src.settle_congr (fun _ heq => by cases heq) h)
        0 0 slot scope

/-- A slot fills as it did before it was compacted. -/
theorem fill_compact (w : Weighting α) (slot : Slot α) (scope : Scope) :
    fill src chains enter day w (w.compact slot) scope =
      fill src chains enter day w slot scope := by
  rw [← fill_prune w slot, Weighting.compact]
  split
  · next hempty =>
      rw [List.isEmpty_iff.1 hempty]
      rfl
  · rfl

/-! ### Nodes -/

theorem compared_compacted (m : PriceMatrix α) (chains : Table (Node α)) (day : Nat) (n : Node α)
    (path : List String) :
    n.Compared (Coupling.self.comparison path) (.remembering m chains day)
      (.remembering m (chains.map fun _ root => root.compacted) day) chains path (fun _ => True)
      (fun _ _ => True) n.compacted := by
  have hsrc := Sources.remembering_steady m chains day
  refine .of_questions (fun _ _ => trivial) (fun _ _ _ => hsrc.verdict _ _)
    (fun _ _ => hsrc.value _ _) fun _ => ?_
  have hsame : Sources.rememberedCandidates (chains.map fun _ root => root.compacted) n.compacted =
      Sources.rememberedCandidates chains n := by
    unfold Sources.rememberedCandidates
    rw [id_compacted, positionTickers_compacted]
  change Run.Coupled .self path _ _ (Sources.rememberedCandidates _ n.compacted)
  rw [hsame]
  exact hsrc.candidates n

/-- A node evaluates as it did before compaction. The induction is on the nesting of calls, and
within a tree on the nodes. -/
theorem evaluateWithin_compacted (m : PriceMatrix α) (chains : Table (Node α)) (day depth : Nat)
    (n : Node α) (path : List String) (scope : Scope) :
    Run.Coupled .self path (IfKept fun _ => True)
      (n.evaluateWithin (.remembering m chains day) chains day depth scope)
      (n.compacted.evaluateWithin (.remembering m (chains.map fun _ root => root.compacted) day)
        (chains.map fun _ root => root.compacted) day depth scope) := by
  induction depth generalizing n path scope with
  | zero => exact .result fun _ h => by cases h
  | succ depth ih =>
      induction n using Node.induction_on generalizing scope with
      | step n ihChildren =>
          cases hcallee : n.callee? with
          | some chain =>
              obtain ⟨id, rfl⟩ := eq_call_of_callee hcallee
              exact coupled_call (g := compacted) (Table.get?_map _ _ _) (fun _ _ => trivial)
                fun root _ _ => ih root _ scope
          | none =>
              have S := compared_compacted m chains day n path
              rw [compacted_eq] at S ⊢
              refine Node.Compared.evaluate_mapSlots (Coupling.comparison_sameFlags _ path) hcallee
                S (fun w slot hslot scope => ?_) scope
              obtain ⟨hw, hslot⟩ := mem_of_mem_weighed hslot
              rw [fill_compact]
              exact S.fill_map hw fun c hc =>
                ihChildren c (mem_children.2 ⟨slot, hslot, hc⟩) scope

end Node

/-! ### Strategies -/

namespace Strategy

/-- On every day, from every state, a strategy and its compacted form do the same. -/
theorem evaluateDay_compacted (s : Strategy α) (m : PriceMatrix α) (day : Nat) :
    s.compacted.evaluateDay m day = s.evaluateDay m day := by
  funext state
  have hlength : s.compacted.chains.entries.length = s.chains.entries.length :=
    List.length_map _
  have hmatch := Node.evaluateWithin_compacted m s.chains day
    (s.chains.entries.length + 1) s.root [] none { state with path := [] }
    { state with path := [] } rfl rfl rfl
  rw [evaluateDay, evaluateDay, evaluateDayWith_apply, evaluateDayWith_apply, hlength]
  exact Run.bind_congr_at (Prod.ext hmatch.same hmatch.states.symm)

theorem stateAfter_compacted (s : Strategy α) (m : PriceMatrix α) (days : List Nat) :
    s.compacted.stateAfter m days = s.stateAfter m days := by
  simp only [stateAfter, evaluateDay_compacted]

/-- Placeholders are no-ops: whatever days were evaluated before, a strategy and its compacted
form decide the same on every day, or fail alike, and report the same held flags. In documents,
of nodes and of strategies, the ways to write a slot without nodes make no difference. -/
theorem placeholders_are_noops (s : Strategy α) (m : PriceMatrix α) (days : List Nat) :
    (∀ day, (s.compacted.evaluateDay m day (s.compacted.stateAfter m days)).1 =
        (s.evaluateDay m day (s.stateAfter m days)).1) ∧
      (∀ id, (s.compacted.stateAfter m days).isHeld id = (s.stateAfter m days).isHeld id) ∧
      (∀ v v' : Json α, v.Alike v' → Node.ofJson v = Node.ofJson v') ∧
      ∀ v v' : Json α, v.StrategiesAlike v' → ofJson v = ofJson v' := by
  refine ⟨fun day => ?_, fun id => by rw [stateAfter_compacted],
    fun _ _ => Node.ofJson_alike, fun _ _ => ofJson_alike⟩
  rw [evaluateDay_compacted, stateAfter_compacted]

/-- A call at the second of two weights, between placeholders, of a chain with others. -/
def sampleSparse : Strategy Sample.Number where
  name := "sparse"
  root := .basic "root" (.specified [1, 3]) [none, some (.call "c" "chain"), none]
  chains := Table.empty.insert "chain" (.basic "b" .equal
    [none, some (Sample.hold "p" "SPY"), none, some (Sample.hold "q" "TLT")])

/-- The members of a numbered node, some of whose slots come before the others and some behind. -/
def sampleMembers (before ladder behind : Members Sample.Number) : Members Sample.Number :=
  before ++ [("id", .text "n"), ("items", .array []), ("kind", .text "numbered")] ++ ladder ++
    [("quantifier", .text "ladder")] ++ behind

def samplePosition : Json Sample.Number :=
  .object [("id", .text "p"), ("kind", .text "position"), ("tickers", .array [.text "SPY"])]

/-- A node whose first branch is empty and whose second is missing. Of the slots of its ladder the
second is missing and the third is empty. -/
def sampleKeys : Json Sample.Number :=
  .object (sampleMembers [] [("ladder-0", .array [samplePosition]), ("ladder-2", .array [])]
    [("then", .array [])])

/-- The same node with its ladder under one key and other slots missing, empty and `null`. -/
def sampleArray : Json Sample.Number :=
  .object (sampleMembers [("else", .null)]
    [("ladder", .array [.array [samplePosition], .array [], .null])] [])

theorem sampleKeys_alike : sampleKeys.Alike sampleArray := by
  have hslots : Members.Alike Json.Alike .numbered
      (sampleMembers [] [("ladder", .array [.array [samplePosition], .null, .array []])]
        [("then", .array [])])
      (sampleMembers [("else", .null)]
        [("ladder", .array [.array [samplePosition], .array [], .null])] []) := by
    refine ⟨rfl, rfl, rfl, ?_, rfl⟩
    simp only [Kind.fields, NodeField.branches, List.cons_append, List.nil_append,
      List.forall_mem_cons]
    refine ⟨rfl, rfl, rfl, rfl, .bare .empty .null, .same .null, .slots ?_, by simp⟩
    exact .cons (.same _) (.cons (.bare .null .empty) (.cons (.bare .empty .null) .nil))
  exact .node (fun _ _ h => h) rfl rfl hslots

theorem sampleSparse_noops :
    sampleSparse.compacted.root = .basic "root" (.specified [1, 3]) [none, some (.call "c" "chain")] ∧
      (∃ a, (sampleSparse.evaluateDay Sample.matrix 0 .start).1 = .ok a ∧
        (sampleSparse.compacted.evaluateDay Sample.matrix 0 .start).1 = .ok a ∧
        a.keys = ["SPY", "TLT"]) ∧
      ∃ n, Node.ofJson sampleKeys = .ok n ∧ Node.ofJson sampleArray = .ok n := by
  obtain ⟨hday, -, hnodes, -⟩ := sampleSparse.placeholders_are_noops Sample.matrix []
  have hresult : (sampleSparse.evaluateDay Sample.matrix 0 .start).1 =
      .ok (Table.ofList [("SPY", 1 / 2), ("TLT", 1 / 2)]) := by
    decide +kernel
  have hread : ∃ n, Node.ofJson sampleKeys = .ok n := ⟨_, rfl⟩
  obtain ⟨n, hn⟩ := hread
  refine ⟨rfl, ⟨_, hresult, (hday 0).trans hresult, rfl⟩, n, hn, ?_⟩
  rw [← hnodes _ _ sampleKeys_alike, hn]

end Strategy
end StrategyTree
