import StrategyTree.Proofs.Document.Acceptance
import StrategyTree.Proofs.Document.Slots
/-!
# Where reading stops

Nothing stops the program while it reads a node but ladder keys with numbers that are too large:
each part of a node reads to its end, with a value or with a fault. So if reading a node stops,
the node is in a numbered object with such a key, or has one in a slot.
-/
namespace StrategyTree

open Outcome

variable {α β γ : Type}

/-! ### Steps -/

/-- If reading stops the program, it does so at a key with a property. -/
def Read.StopsAt (P : String → Prop) (x : Read β) : Prop :=
  ∀ key, x = .error (.ladderTooLong key) → P key

namespace Read

variable {P : String → Prop} {x : Read β}

@[simp] theorem stopsAt_ok (b : β) : StopsAt P (.ok b) := by
  rintro key ⟨⟩

@[simp] theorem stopsAt_pure (b : β) : StopsAt P (pure b) :=
  stopsAt_ok b

@[simp] theorem stopsAt_malformed : StopsAt P (.malformed : Read β) := by
  rintro key ⟨⟩

@[simp] theorem stopsAt_required (o : Option β) : StopsAt P (.required o) := by
  cases o <;> simp [Read.required]

@[simp] theorem stopsAt_bind {f : β → Read γ} :
    StopsAt P (x >>= f) ↔ StopsAt P x ∧ ∀ b, x = .ok b → StopsAt P (f b) := by
  cases x with
  | ok b => simp [StopsAt, bind, Except.bind]
  | error fault => simp [StopsAt, bind, Except.bind]

@[simp] theorem stopsAt_map {f : β → γ} : StopsAt P (f <$> x) ↔ StopsAt P x := by
  cases x <;> simp [StopsAt, Functor.map, Except.map]

theorem stopsAt_mapM {f : β → Read γ} {xs : List β} (h : ∀ x ∈ xs, StopsAt P (f x)) :
    StopsAt P (xs.mapM f) := by
  induction xs with
  | nil => exact stopsAt_ok []
  | cons x rest ih =>
      obtain ⟨hx, hrest⟩ := List.forall_mem_cons.1 h
      simp [List.mapM_cons, hx, ih hrest]

end Read

open Read (StopsAt)

variable {P : String → Prop} {v : Json α} {members : Members α} {key : String}
  {read : Json α → Read β}

/-! ### Values -/

namespace Json

@[simp] theorem stopsAt_readText : StopsAt P v.readText := by
  cases v <;> simp [readText]

@[simp] theorem stopsAt_readNumber [Arith α] : StopsAt P v.readNumber := by
  simp [readNumber]

@[simp] theorem stopsAt_readIntegerTo (limit : Int) : StopsAt P (v.readIntegerTo limit) := by
  unfold readIntegerTo
  split
  · split <;> simp
  · simp

@[simp] theorem stopsAt_readWindow : StopsAt P v.readWindow :=
  stopsAt_readIntegerTo _

@[simp] theorem stopsAt_readCountTo (limit : Nat) : StopsAt P (v.readCountTo limit) := by
  unfold readCountTo
  split
  · split <;> simp
  · simp

@[simp] theorem stopsAt_readCount : StopsAt P v.readCount :=
  stopsAt_readCountTo _

@[simp] theorem stopsAt_readList (h : ∀ v, StopsAt P (read v)) : StopsAt P (v.readList read) := by
  unfold readList
  split
  · exact Read.stopsAt_mapM fun v _ => h v
  · simp

@[simp] theorem stopsAt_readNullable (h : StopsAt P (read v)) :
    StopsAt P (v.readNullable read) := by
  cases v <;> simp [readNullable, h]

@[simp] theorem stopsAt_readRecord (names : List String) : StopsAt P (v.readRecord names) := by
  unfold readRecord
  split
  · simp
  · split <;> simp
  · simp

@[simp] theorem stopsAt_readVariant : StopsAt P v.readVariant := by
  unfold readVariant
  split <;> simp

@[simp] theorem stopsAt_readUnit (loose : Bool) (ofName? : String → Option β) :
    StopsAt P (v.readUnit loose ofName?) := by
  unfold readUnit
  refine Read.stopsAt_bind.2 ⟨stopsAt_readVariant, fun b _ => ?_⟩
  split
  · simp
  · simp
  · split <;> simp
  · simp

@[simp] theorem stopsAt_readContent (loose : Bool) (names : List String) :
    StopsAt P (v.readContent loose names) := by
  unfold readContent
  split
  · simp
  · split <;> simp

end Json

namespace Members

theorem stopsAt_optional : StopsAt P (optional members key read) ↔
    ∀ v, members.lookup key = some v → StopsAt P (read v) := by
  unfold optional
  cases members.lookup key with
  | none => simp
  | some v => simp

@[simp] theorem stopsAt_required :
    StopsAt P (required members key read) ↔ StopsAt P (optional members key read) := by
  simp [required]

@[simp] theorem stopsAt_withDefault (default : β) :
    StopsAt P (withDefault members key read default) ↔ StopsAt P (optional members key read) := by
  simp [withDefault]

/-- A part of which the reader never stops. -/
@[simp] theorem stopsAt_part (h : ∀ v, StopsAt P (read v)) :
    StopsAt P (optional members key read) :=
  stopsAt_optional.2 fun v _ => h v

end Members

/-! ### Parts of nodes -/

@[simp] theorem Metric.stopsAt_ofJson (loose : Bool) : StopsAt P (Metric.ofJson loose v) := by
  simp [Metric.ofJson]

@[simp] theorem Comparator.stopsAt_ofJson : StopsAt P (Comparator.ofJson v) := by
  unfold Comparator.ofJson
  refine Read.stopsAt_bind.2 ⟨Json.stopsAt_readText, fun s _ => ?_⟩
  split
  · simp
  · rintro key ⟨⟩

@[simp] theorem Quantifier.stopsAt_ofJson : StopsAt P (Quantifier.ofJson v) := by
  unfold Quantifier.ofJson
  refine Read.stopsAt_bind.2 ⟨Json.stopsAt_readVariant, fun variant _ => ?_⟩
  split <;> simp

@[simp] theorem Reading.stopsAt_ofMembers (loose : Bool) :
    StopsAt P (Reading.ofMembers loose members) := by
  simp [Reading.ofMembers]

@[simp] theorem Reading.stopsAt_ofJson (loose : Bool) : StopsAt P (Reading.ofJson loose v) := by
  simp [Reading.ofJson]

section Parts
variable [Arith α]

@[simp] theorem Reference.stopsAt_ofJson : StopsAt P (Reference.ofJson v) := by
  unfold Reference.ofJson
  split <;> simp

@[simp] theorem Condition.stopsAt_ofMembers (loose : Bool) :
    StopsAt P (Condition.ofMembers loose members) := by
  simp [Condition.ofMembers]

@[simp] theorem Condition.stopsAt_ofJson (loose : Bool) : StopsAt P (Condition.ofJson loose v) := by
  unfold Condition.ofJson
  split <;> simp

@[simp] theorem Condition.stopsAt_listOfJson (loose : Bool) :
    StopsAt P (Condition.listOfJson loose v) := by
  simp [Condition.listOfJson]

@[simp] theorem stopsAt_itemOfJson : StopsAt P (itemOfJson v) := by
  unfold itemOfJson
  split
  · simp
  · refine Read.stopsAt_bind.2 ⟨Condition.stopsAt_listOfJson true, fun conditions _ => ?_⟩
    split <;> simp
  · simp

@[simp] theorem Weighting.stopsAt_ofJson (loose : Bool) : StopsAt P (Weighting.ofJson loose v) := by
  unfold Weighting.ofJson
  refine Read.stopsAt_bind.2 ⟨Json.stopsAt_readVariant, fun variant _ => ?_⟩
  split <;> simp

end Parts

/-! ### Nodes -/

namespace Node

variable {child : Json α → Read (Node α)}

@[simp] theorem stopsAt_checkKeys (kind : Kind) : StopsAt P (checkKeys kind members) := by
  unfold checkKeys
  split
  · rintro key ⟨⟩
  · simp

theorem stopsAt_readSlot (h : ∀ entry ∈ v.entries, StopsAt P (child entry)) :
    StopsAt P (readSlot child v) := by
  cases v with
  | array items =>
      have hitem : ∀ item ∈ items, StopsAt P (item.readNullable child) := by
        intro item hitem
        cases hnull : item.isNull with
        | true =>
            cases item <;> simp [Json.isNull, Json.readNullable] at hnull ⊢
        | false =>
            exact Json.stopsAt_readNullable (h item (List.mem_filter.2 ⟨hitem, by simp [hnull]⟩))
      simp [readSlot, Read.stopsAt_mapM hitem]
  | _ => simp [readSlot]

theorem stopsAt_slotAt
    (h : ∀ v ∈ (NodeField.slot key).nodes members, StopsAt P (child v)) :
    StopsAt P (slotAt child members key) := by
  refine (Members.stopsAt_withDefault _).2 (Members.stopsAt_optional.2 fun v hv => ?_)
  refine stopsAt_readSlot fun entry hentry => h entry ?_
  simpa [NodeField.nodes, NodeField.slot, hv, Content.nodes] using hentry

theorem stopsAt_ladder (h : ∀ v ∈ NodeField.ladder.nodes members, StopsAt P (child v)) :
    StopsAt P (Members.withDefault members "ladder" (Json.readList (readSlot child)) []) := by
  refine (Members.stopsAt_withDefault _).2 (Members.stopsAt_optional.2 fun v hv => ?_)
  cases v with
  | array slots =>
      refine Read.stopsAt_mapM fun slot hslot => stopsAt_readSlot fun entry hentry => h entry ?_
      simp only [NodeField.nodes, NodeField.ladder, hv, Content.nodes]
      exact List.mem_flatMap.2 ⟨slot, hslot, hentry⟩
  | _ => simp [Json.readList]

variable [Arith α]

/-- Of a node only its slots and its ladder are read for more than data. -/
theorem stopsAt_ofKind {kind : Kind} (id : String)
    (h : ∀ v ∈ kind.nodes members, StopsAt P (child v)) :
    StopsAt P (ofKind child id kind members) := by
  cases kind
  all_goals
    simp only [Kind.nodes, Kind.fields, NodeField.branches, List.cons_append, List.nil_append,
      List.flatMap_cons, List.flatMap_nil, List.forall_mem_append] at h
  case basic =>
    obtain ⟨-, hnext, -⟩ := h
    simp [ofKind, weightingAt, stopsAt_slotAt hnext]
  case function =>
    obtain ⟨-, -, -, -, -, hnext, -⟩ := h
    simp [ofKind, weightingAt, stopsAt_slotAt hnext]
  case indicator =>
    obtain ⟨-, -, -, hthen, helse, -⟩ := h
    simp [ofKind, weightingAt, stopsAt_slotAt hthen, stopsAt_slotAt helse]
  case numbered =>
    obtain ⟨-, -, -, -, hthen, helse, hladder, -⟩ := h
    have hladder := (Members.stopsAt_withDefault _).1 (stopsAt_ladder hladder)
    simp [ofKind, weightingAt, stopsAt_slotAt hthen, stopsAt_slotAt helse, hladder]
  case position => simp [ofKind]
  case call => simp [ofKind]
  case altExit =>
    obtain ⟨-, -, -, -, hthen, helse, -⟩ := h
    simp [ofKind, weightingAt, stopsAt_slotAt hthen, stopsAt_slotAt helse]
  case scaling =>
    obtain ⟨-, -, -, -, -, hthen, helse, -⟩ := h
    simp [ofKind, weightingAt, stopsAt_slotAt hthen, stopsAt_slotAt helse]

theorem stopsAt_ofFields (h : ∀ kind : Kind, ∀ v ∈ kind.nodes members, StopsAt P (child v)) :
    StopsAt P (ofFields child members) := by
  have hkind (id : String) (kind : Kind) : StopsAt P (ofKind child id kind members) :=
    stopsAt_ofKind id (h kind)
  simp [ofFields, hkind]

theorem stopsAt_ofGathered (named : Option Kind)
    (h : ∀ kind : Kind, ∀ v ∈ kind.nodes members, StopsAt P (child v)) :
    StopsAt P (ofGathered child named members) := by
  cases named <;> simp [ofGathered, stopsAt_ofFields h]

/-! ### Trees -/

/-- No field has the key of a rung, and only a ladder has the key of one. -/
theorem key_of_field {kind : Kind} {f : NodeField α} (hf : f ∈ kind.fields) :
    Ladder.isRung f.key = false ∧ (f.key = "ladder" → f = .ladder) := by
  have hkey : f.key ∈ kind.keys := by
    rw [Kind.keys_eq (α := α)]
    exact List.mem_map_of_mem hf
  refine ⟨isRung_key (List.mem_cons_of_mem _ (List.mem_cons_of_mem _ hkey)), ?_⟩
  revert f
  cases kind <;> simp [Kind.fields, NodeField.branches, NodeField.weighting, NodeField.must,
    NodeField.may, NodeField.slot, NodeField.ladder]

omit [Arith α] in
/-- The nodes in a ladder that has been gathered are those of the ladder keys that last. -/
theorem nodes_placed {slots : List (Json α)} {rungs : Members α}
    (h : Ladder.placeAll [] rungs = .ok slots) :
    ∀ slot ∈ slots, ∀ v ∈ slot.entries, v ∈ rungs.lasting.entries := by
  have hnull : ∀ v ∈ (Json.null : Json α).entries, v ∈ rungs.lasting.entries := by
    simp [Json.entries]
  refine (Ladder.forall_mem_placeAll hnull h).2 ⟨by simp [Ladder.Untouched], fun m hm v hv => ?_⟩
  exact List.mem_flatMap.2 ⟨m, hm, hv⟩

/-- What has to be a node after ladder keys have been gathered had to be one before, or is in the
slot of a ladder key. -/
theorem nodes_gathered {read : Members α} (h : gathered members = .ok read) {kind : Kind}
    (hv : v ∈ kind.nodes read) : v ∈ kind.nodes members ++ members.rungs.lasting.entries := by
  have hsame {f : NodeField α} (hf : f ∈ kind.fields)
      (hlookup : read.lookup f.key = members.lookup f.key) (hv : v ∈ f.nodes read) :
      v ∈ kind.nodes members ++ members.rungs.lasting.entries := by
    refine List.mem_append_left _ (List.mem_flatMap.2 ⟨f, hf, ?_⟩)
    rwa [NodeField.nodes, ← hlookup]
  obtain ⟨f, hf, hv⟩ := List.mem_flatMap.1 hv
  unfold gathered at h
  split at h
  · obtain ⟨hrung, honly⟩ := key_of_field hf
    by_cases hladder : f.key = "ladder"
    · obtain rfl := honly hladder
      rcases Ladder.lookup_ladder_gathered h with ⟨-, hlookup⟩ | ⟨-, slots, hslots, hlookup⟩
      · exact hsame hf hlookup hv
      · simp only [NodeField.nodes, NodeField.ladder, hlookup, Content.nodes] at hv
        obtain ⟨slot, hslot, hentry⟩ := List.mem_flatMap.1 hv
        exact List.mem_append_right _ (nodes_placed hslots slot hslot v hentry)
    · exact hsame hf (Ladder.lookup_gathered hladder hrung h) hv
  · obtain rfl := Except.ok.inj h
    exact hsame hf rfl hv

end Node

/-- A ladder in a value asks for more slots than can be built: somewhere among the nodes in it
is a numbered object with a ladder key with too large a number. -/
inductive Json.AsksTooMuch [Arith α] (key : String) : Json α → Prop
  | here {members : Members α} {v : Json α} {index : Nat} :
      Node.named? members = some .numbered → (key, v) ∈ members.rungs →
      Ladder.rungIndex? key = some index → Ladder.maxSlots ≤ index →
      AsksTooMuch key (.object members)
  | inside {kind : Kind} {members : Members α} {v : Json α} :
      v ∈ kind.nodes members ++ members.rungs.lasting.entries → AsksTooMuch key v →
      AsksTooMuch key (.object members)

/-- If gathering stops, then at a ladder key with too large a number. -/
theorem Ladder.stopsAt_gather : StopsAt (fun key => ∃ v index, (key, v) ∈ members.rungs ∧
    rungIndex? key = some index ∧ maxSlots ≤ index) (gather members) := by
  intro key h
  obtain ⟨stop, hsteps⟩ := gather_error_iff.1 h
  obtain ⟨-, v, index, hfirst, hindex, hlarge, -⟩ := gatherSteps_stopped_iff.1 hsteps
  exact ⟨v, index, List.mem_of_find?_eq_some hfirst, hindex, hlarge⟩

namespace Node
variable [Arith α]

theorem stopsAt_gathered :
    StopsAt (fun key => (Json.object members).AsksTooMuch key) (gathered members) := by
  unfold gathered
  split
  · next hnumbered =>
      intro key hstop
      obtain ⟨v, index, hmem, hindex, hlarge⟩ := Ladder.stopsAt_gather key hstop
      exact .here hnumbered hmem hindex hlarge
  · simp

/-- If reading a node stops, then at a key with which one of its ladders asks for too much. -/
theorem stopsAt_ofJsonWithin (levels : Nat) (v : Json α) :
    StopsAt (fun key => v.AsksTooMuch key) (ofJsonWithin levels v) := by
  induction levels generalizing v with
  | zero => simp [ofJsonWithin]
  | succ levels ih =>
      cases v with
      | object members =>
          rw [ofJsonWithin, ofMembers_eq]
          refine Read.stopsAt_bind.2 ⟨stopsAt_gathered, fun read hread => ?_⟩
          refine stopsAt_ofGathered _ fun kind v hv key hstop => ?_
          exact .inside (nodes_gathered hread hv) (ih v key hstop)
      | _ => simp [ofJsonWithin]

theorem stopsAt_ofJson (v : Json α) : StopsAt (fun key => v.AsksTooMuch key) (ofJson v) :=
  stopsAt_ofJsonWithin v.nesting v

end Node
end StrategyTree
