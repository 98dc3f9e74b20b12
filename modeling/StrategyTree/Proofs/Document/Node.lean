import StrategyTree.Proofs.Document.Parts
import StrategyTree.Proofs.Strategy.Walk
/-!
# Nodes in a document

A node that has been read has no empty slots, and its numbers are within their bounds.
Every node of this form reads back as it was written, however deep it is.
-/
namespace StrategyTree.Node

open Outcome

variable {α : Type}

theorem slotToJson_eq (slot : Slot α) :
    slotToJson slot = slot.map fun entry => entry.elim .null toJson := by
  induction slot with
  | nil => rfl
  | cons entry rest ih => cases entry <;> simp [slotToJson, ih]

theorem ladderToJson_eq (ladder : List (Slot α)) :
    ladderToJson ladder = ladder.map fun slot => .array (slotToJson slot) := by
  induction ladder with
  | nil => rfl
  | cons slot rest ih => rw [ladderToJson, ih, List.map_cons]

/-! ### Depth -/

/-- What is written of a slot lies deeper than its node, wherever the slot stands. -/
theorem nesting_slot {n : Node α} {slot : Slot α} (h : slot ∈ n.slots) :
    (Json.array (slotToJson slot)).nesting < n.toJson.nesting := by
  have hfork {fork : Fork α (Node α)} {members : Members α}
      (hthen : ("then", .array (slotToJson fork.thenSlot)) ∈ members)
      (helse : ("else", .array (slotToJson fork.elseSlot)) ∈ members)
      (h : slot ∈ [fork.thenSlot, fork.elseSlot]) :
      (Json.array (slotToJson slot)).nesting < (Json.object members).nesting := by
    simp only [List.mem_cons, List.not_mem_nil, or_false] at h
    rcases h with rfl | rfl
    · exact Json.nesting_lt_of_mem "then" hthen
    · exact Json.nesting_lt_of_mem "else" helse
  cases n with
  | basic id weighting next =>
      obtain rfl := List.mem_singleton.1 h
      exact Json.nesting_lt_of_mem "next" (by simp)
  | function id metric window count select weighting next =>
      obtain rfl := List.mem_singleton.1 h
      exact Json.nesting_lt_of_mem "next" (by simp)
  | numbered id items quantifier fork ladder =>
      have hparts : slot ∈ [fork.thenSlot, fork.elseSlot] ++ ladder := h
      rcases List.mem_append.1 hparts with h | h
      · exact hfork (by simp) (by simp) h
      · have hrung : Json.array (slotToJson slot) ∈ ladderToJson ladder := by
          rw [ladderToJson_eq]
          exact List.mem_map.2 ⟨slot, h, rfl⟩
        have hladder : ladder.isEmpty = false := by
          cases ladder with
          | nil => cases h
          | cons => rfl
        exact Nat.lt_of_le_of_lt (Json.nesting_le_of_mem hrung)
          (Json.nesting_lt_of_mem "ladder" (by simp [hladder]))
  | indicator id conditions fork => exact hfork (by simp) (by simp) h
  | altExit id entry exit fork => exact hfork (by simp) (by simp) h
  | scaling id reading lower upper fork => exact hfork (by simp) (by simp) h
  | position => cases h
  | call => cases h

theorem nesting_child {n c : Node α} (h : c ∈ n.children) :
    c.toJson.nesting < n.toJson.nesting := by
  obtain ⟨slot, hslot, hc⟩ := mem_children.1 h
  have hentry : c.toJson ∈ slotToJson slot := by
    rw [slotToJson_eq]
    exact List.mem_map.2 ⟨some c, hc, rfl⟩
  exact Nat.lt_of_le_of_lt (Json.nesting_le_of_mem hentry) (nesting_slot hslot)

/-! ### Written keys -/

/-- The key of a slot that stands alone is no key of a node. -/
theorem isRung_key {kind : Kind} {key : String} (h : key ∈ "id" :: "kind" :: kind.keys) :
    Ladder.isRung key = false := by
  have hall : ∀ kind ∈ Kind.all, ∀ key ∈ "id" :: "kind" :: kind.keys,
      Ladder.isRung key = false := by decide
  exact hall kind (by cases kind <;> simp [Kind.all]) key h

theorem gather_of_keys {kind : Kind} {members : Members α}
    (h : ∀ m ∈ members, m.1 ∈ "id" :: "kind" :: kind.keys) :
    Ladder.gather members = .ok members := by
  have hnone : members.filter (fun m => Ladder.isRung m.1) = [] :=
    List.filter_eq_nil_iff.2 fun m hm => by simp [isRung_key (h m hm)]
  simp [Ladder.gather, hnone]

theorem checkKeys_of_keys {kind : Kind} {members : Members α}
    (h : ∀ m ∈ members, m.1 ∈ "id" :: "kind" :: kind.keys) :
    checkKeys kind members = .ok () := by
  have hnone : members.find? (fun m => m.1 ≠ "id" ∧ m.1 ≠ "kind" ∧ m.1 ∉ kind.keys) = none := by
    refine List.find?_eq_none.2 fun m hm => ?_
    have hkey := h m hm
    simp only [List.mem_cons] at hkey
    simp only [decide_eq_true_eq]
    tauto
  rw [checkKeys, hnone]

section Back
variable [Arith α] {child : Json α → Read (Node α)}

/-- A node with a name for its kind and no keys of another kind is read by its kind. -/
theorem ofMembers_of_keys (kind : Kind) (id : String) {members : Members α}
    (hkind : members.lookup "kind" = some (.text kind.name))
    (hid : members.lookup "id" = some (.text id))
    (hkeys : ∀ m ∈ members, m.1 ∈ "id" :: "kind" :: kind.keys) :
    ofMembers child members = ofKind child id kind members := by
  have hid : Members.required members "id" Json.readText = .ok id :=
    Members.required_of_lookup hid rfl
  have hchecked : (do
      checkKeys kind members
      let id ← Members.required members "id" Json.readText
      let kind ← Read.required ((members.lookup "kind").bind Kind.ofJson?)
      ofKind child id kind members) = ofKind child id kind members := by
    rw [checkKeys_of_keys hkeys, hid, hkind, Option.bind_some, Kind.ofJson?, Kind.ofName?_name]
    rfl
  unfold ofMembers
  simp only [hkind, Option.bind_some, Json.text?, Kind.ofName?_name]
  split
  · rw [gather_of_keys hkeys]
    exact hchecked
  · exact hchecked

omit [Arith α] in
theorem readSlot_back {slot : Slot α} (hslot : slot ≠ [])
    (h : ∀ c, some c ∈ slot → child c.toJson = .ok c) :
    readSlot child (.array (slotToJson slot)) = .ok slot := by
  have hentries : (slotToJson slot).mapM (Json.readNullable child) = .ok slot := by
    rw [slotToJson_eq, mapM_ok, List.forall₂_map_left_iff, List.forall₂_same]
    intro entry hentry
    cases entry with
    | none => rfl
    | some c => exact Json.readNullable_of_ne (by cases c <;> simp [toJson]) (h c hentry)
  refine bind_ok.2 ⟨slot, hentries, ?_⟩
  rw [if_neg (by simpa using hslot)]
  rfl

variable {members : Members α} {key : String}

omit [Arith α] in
theorem slotAt_back {slot : Slot α}
    (hlookup : members.lookup key = some (.array (slotToJson slot))) (hslot : slot ≠ [])
    (h : ∀ c, some c ∈ slot → child c.toJson = .ok c) : slotAt child members key = .ok slot :=
  Members.withDefault_of_lookup hlookup (readSlot_back hslot h)

theorem weightingAt_back {w : Weighting α} (hlookup : members.lookup key = some w.toJson)
    (hw : w.Fits) : weightingAt members key = .ok w :=
  Members.withDefault_of_lookup hlookup ((Weighting.roundTrip true).back hw)

end Back

/-! ### Nodes -/

/-- The numbers of a node, those of its weightings apart, are within their bounds. -/
def DataFits : Node α → Prop
  | function _ _ window count .. => Json.IsWindow window ∧ Json.IsCount count
  | indicator _ conditions _ => ∀ c ∈ conditions, c.Fits
  | numbered _ items quantifier .. => (∀ cs ∈ items, ∀ c ∈ cs, c.Fits) ∧ quantifier.Fits
  | altExit _ entry exit _ => (∀ c ∈ entry, c.Fits) ∧ ∀ c ∈ exit, c.Fits
  | scaling _ reading .. => reading.Fits
  | basic .. | position .. | call .. => True

/-- A node that can have been read, whatever is below it. -/
structure Fits (n : Node α) : Prop where
  slots : ∀ slot ∈ n.slots, slot ≠ []
  weightings : ∀ w ∈ n.weightings, w.Fits
  data : n.DataFits

variable [Arith α] {child : Json α → Read (Node α)}

omit [Arith α] in
theorem ladder_back {ladder : List (Slot α)}
    (h : ∀ slot ∈ ladder, slot ≠ [] ∧ ∀ c, some c ∈ slot → child c.toJson = .ok c) :
    Json.readList (readSlot child) (.array (ladderToJson ladder)) = .ok ladder := by
  change (ladderToJson ladder).mapM (readSlot child) = .ok ladder
  rw [ladderToJson_eq, mapM_ok, List.forall₂_map_left_iff, List.forall₂_same]
  exact fun slot hslot => readSlot_back (h slot hslot).1 (h slot hslot).2

/-- The reading of a fork after its second slot, from which a node is made. -/
theorem fork_back {fork : Fork α (Node α)} {members : Members α} {n : Node α}
    (hslots : ∀ slot ∈ [fork.thenSlot, fork.elseSlot], slot ≠ [] ∧
      ∀ c, some c ∈ slot → child c.toJson = .ok c)
    (hweightings : ∀ w ∈ [fork.thenWeighting, fork.elseWeighting], w.Fits)
    (hthen : members.lookup "then" = some (.array (slotToJson fork.thenSlot)))
    (hthenWeighting : members.lookup "weightingThen" = some fork.thenWeighting.toJson)
    (helseWeighting : members.lookup "weightingElse" = some fork.elseWeighting.toJson)
    {f : Fork α (Node α) → Read (Node α)} (hf : f fork = .ok n) : (do
      let thenSlot ← slotAt child members "then"
      let elseWeighting ← weightingAt members "weightingElse"
      let thenWeighting ← weightingAt members "weightingThen"
      f { thenWeighting, elseWeighting, thenSlot, elseSlot := fork.elseSlot }) = .ok n := by
  obtain ⟨hnonempty, hchildren⟩ := hslots fork.thenSlot List.mem_cons_self
  refine bind_ok.2 ⟨fork.thenSlot, slotAt_back hthen hnonempty hchildren, ?_⟩
  refine bind_ok.2 ⟨fork.elseWeighting,
    weightingAt_back helseWeighting (hweightings _ (by simp)), ?_⟩
  exact bind_ok.2 ⟨fork.thenWeighting,
    weightingAt_back hthenWeighting (hweightings _ (by simp)), hf⟩

/-- A node is read back by a reader that reads back its children. -/
theorem ofMembers_back {n : Node α} (hn : n.Fits) (hc : ∀ c ∈ n.children, child c.toJson = .ok c) :
    ∃ members, n.toJson = .object members ∧ ofMembers child members = .ok n := by
  have hslots : ∀ slot ∈ n.slots, slot ≠ [] ∧ ∀ c, some c ∈ slot → child c.toJson = .ok c :=
    fun slot h => ⟨hn.slots slot h, fun c hmem => hc c (mem_children.2 ⟨slot, h, hmem⟩)⟩
  have hweightings := hn.weightings
  have hdata := hn.data
  cases n with
  | basic id weighting next =>
      obtain ⟨hnext, hchildren⟩ := hslots next List.mem_cons_self
      refine ⟨_, rfl, ?_⟩
      rw [ofMembers_of_keys .basic id rfl rfl (by simp [Kind.keys])]
      refine bind_ok.2 ⟨next, slotAt_back rfl hnext hchildren, ?_⟩
      exact bind_ok.2 ⟨weighting, weightingAt_back rfl (hweightings _ List.mem_cons_self), rfl⟩
  | function id metric window count select weighting next =>
      obtain ⟨hnext, hchildren⟩ := hslots next List.mem_cons_self
      have hmetric := RoundTrip.unit (α := α) true Metric.ofName?_name
      refine ⟨_, rfl, ?_⟩
      rw [ofMembers_of_keys .function id rfl rfl (by simp [Kind.keys])]
      refine bind_ok.2 ⟨some count,
        Members.optional_of_lookup rfl (RoundTrip.count.back hdata.2), ?_⟩
      refine bind_ok.2 ⟨some metric, Members.optional_of_lookup rfl (hmetric.back trivial), ?_⟩
      refine bind_ok.2 ⟨next, slotAt_back rfl hnext hchildren, ?_⟩
      refine bind_ok.2 ⟨select,
        Members.required_of_lookup rfl (Selection.roundTrip.back trivial), ?_⟩
      refine bind_ok.2 ⟨weighting, weightingAt_back rfl (hweightings _ List.mem_cons_self), ?_⟩
      exact bind_ok.2 ⟨window,
        Members.withDefault_of_lookup rfl (RoundTrip.window.back hdata.1), rfl⟩
  | indicator id conditions fork =>
      obtain ⟨helse, hchildren⟩ := hslots fork.elseSlot (by simp [slots])
      refine ⟨_, rfl, ?_⟩
      rw [ofMembers_of_keys .indicator id rfl rfl (by simp [Kind.keys])]
      refine bind_ok.2 ⟨some conditions,
        Members.optional_of_lookup rfl ((Condition.listRoundTrip true).back hdata), ?_⟩
      refine bind_ok.2 ⟨fork.elseSlot, slotAt_back rfl helse hchildren, ?_⟩
      exact fork_back hslots hweightings rfl rfl rfl
        (f := fun fork => .ok (indicator id conditions fork)) rfl
  | numbered id items quantifier fork ladder =>
      obtain ⟨helse, hchildren⟩ := hslots fork.elseSlot (by simp [slots])
      have hladder := ladder_back fun slot (h : slot ∈ ladder) => hslots slot (by simp [slots, h])
      have hfork : ∀ slot ∈ [fork.thenSlot, fork.elseSlot], slot ≠ [] ∧
          ∀ c, some c ∈ slot → child c.toJson = .ok c :=
        fun slot h => hslots slot (List.mem_append_left ladder h)
      refine ⟨_, rfl, ?_⟩
      -- A ladder without slots leaves no key, so a look-up past its place has two cases.
      rw [ofMembers_of_keys .numbered id ?kind ?id ?keys]
      case kind => cases ladder <;> rfl
      case id => cases ladder <;> rfl
      case keys => cases ladder <;> simp [Kind.keys]
      refine bind_ok.2 ⟨fork.elseSlot, slotAt_back rfl helse hchildren, ?_⟩
      refine bind_ok.2 ⟨some items,
        Members.optional_of_lookup rfl (Condition.itemRoundTrip.list.back hdata.1), ?_⟩
      refine bind_ok.2 ⟨ladder, ?ladder, bind_ok.2 ⟨some quantifier, ?quantifier, ?fork⟩⟩
      case ladder =>
        cases ladder with
        | nil => exact Members.withDefault_of_absent rfl
        | cons slot rest => exact Members.withDefault_of_lookup rfl hladder
      case quantifier =>
        refine Members.optional_of_lookup ?_ (Quantifier.roundTrip.back hdata.2)
        cases ladder <;> rfl
      case fork =>
        refine fork_back hfork hweightings ?_ ?_ ?_
          (f := fun fork => .ok (numbered id items quantifier fork ladder)) rfl
        all_goals cases ladder <;> rfl
  | position id tickers =>
      refine ⟨_, rfl, ?_⟩
      rw [ofMembers_of_keys .position id rfl rfl (by simp [Kind.keys])]
      exact bind_ok.2 ⟨tickers, Members.required_of_lookup rfl
        (RoundTrip.text.list.back fun _ _ => trivial), rfl⟩
  | call id chain =>
      refine ⟨_, rfl, ?_⟩
      rw [ofMembers_of_keys .call id rfl rfl (by simp [Kind.keys])]
      exact bind_ok.2 ⟨chain, Members.required_of_lookup rfl rfl, rfl⟩
  | altExit id entry exit fork =>
      obtain ⟨helse, hchildren⟩ := hslots fork.elseSlot (by simp [slots])
      have hlist := Condition.listRoundTrip (α := α) true
      refine ⟨_, rfl, ?_⟩
      rw [ofMembers_of_keys .altExit id rfl rfl (by simp [Kind.keys])]
      refine bind_ok.2 ⟨fork.elseSlot, slotAt_back rfl helse hchildren, ?_⟩
      refine bind_ok.2 ⟨some entry, Members.optional_of_lookup rfl (hlist.back hdata.1), ?_⟩
      refine bind_ok.2 ⟨some exit, Members.optional_of_lookup rfl (hlist.back hdata.2), ?_⟩
      exact fork_back hslots hweightings rfl rfl rfl
        (f := fun fork => .ok (altExit id entry exit fork)) rfl
  | scaling id reading lower upper fork =>
      obtain ⟨helse, hchildren⟩ := hslots fork.elseSlot (by simp [slots])
      have hnumber := RoundTrip.number (α := α)
      refine ⟨_, rfl, ?_⟩
      rw [ofMembers_of_keys .scaling id rfl rfl (by simp [Kind.keys])]
      refine bind_ok.2 ⟨fork.elseSlot, slotAt_back rfl helse hchildren, ?_⟩
      refine bind_ok.2 ⟨some reading,
        Members.optional_of_lookup rfl ((Reading.roundTrip true).back hdata), ?_⟩
      refine bind_ok.2 ⟨some lower, Members.optional_of_lookup rfl (hnumber.back trivial), ?_⟩
      refine bind_ok.2 ⟨some upper, Members.optional_of_lookup rfl (hnumber.back trivial), ?_⟩
      exact fork_back hslots hweightings rfl rfl rfl
        (f := fun fork => .ok (scaling id reading lower upper fork)) rfl

/-- A tree in which every node fits reads back as it was written. -/
theorem ofJsonWithin_back {n : Node α} (hn : ∀ d ∈ n.walk, d.Fits) {levels : Nat}
    (h : n.toJson.nesting ≤ levels) : ofJsonWithin levels n.toJson = .ok n := by
  induction n using induction_on generalizing levels with
  | step n ih =>
      obtain ⟨members, hmembers⟩ : ∃ members, n.toJson = .object members := by
        cases n <;> exact ⟨_, rfl⟩
      cases levels with
      | zero =>
          rw [hmembers] at h
          cases h
      | succ levels =>
          -- The children are read with one level less, and they lie one level deeper.
          have hchildren (c : Node α) (hc : c ∈ n.children) :
              ofJsonWithin levels c.toJson = .ok c :=
            ih c hc (fun d hd => hn d (walk_subset_of_child hc hd))
              (Nat.le_of_lt_succ (Nat.lt_of_lt_of_le (nesting_child hc) h))
          obtain ⟨members, hmembers, hback⟩ := ofMembers_back (hn n n.mem_walk_self) hchildren
          rw [hmembers, ofJsonWithin, hback]

end StrategyTree.Node
