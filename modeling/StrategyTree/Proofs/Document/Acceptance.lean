import StrategyTree.Binary64
import StrategyTree.Proofs.Document.Ladder
/-!
# What is read as a node

A value is read as a node exactly if the second grammar has it. The reading of one object is
compared with its fields first, whatever reads its entries; the tree follows by induction
over its levels.
-/
namespace StrategyTree

open Outcome

variable {α β : Type}

/-! ### Slots and fields -/

/-- A slot whose entries read in a given way. -/
def Json.IsSlotOf (reads : Json α → Prop) (v : Json α) : Prop :=
  v.IsSlot ∧ ∀ entry ∈ v.entries, reads entry

theorem Members.forall_isSlotOf {rungs : Members α} {reads : Json α → Prop} :
    (∀ m ∈ rungs, m.2.IsSlotOf reads) ↔
      (∀ m ∈ rungs, m.2.IsSlot) ∧ ∀ v ∈ rungs.entries, reads v := by
  simp only [Json.IsSlotOf, Members.entries, List.mem_flatMap]
  constructor
  · exact fun h => ⟨fun m hm => (h m hm).1, fun v ⟨m, hm, hv⟩ => (h m hm).2 v hv⟩
  · exact fun h m hm => ⟨h.1 m hm, fun v hv => h.2 v ⟨m, hm, hv⟩⟩

namespace NodeField

/-- The value of a field reads, the nodes in it in a given way. -/
def Reads (reads : Json α → Prop) (members : Members α) (f : NodeField α) : Prop :=
  f.Holds members ∧ ∀ v ∈ f.nodes members, reads v

variable {reads : Json α → Prop} {members : Members α} {key : String} {read : Json α → Read β}

theorem reads_must : (must key read).Reads reads members ↔
    ∃ b, Members.optional members key read = .ok (some b) := by
  simp only [Reads, Holds, nodes, must, Members.optional_ok_some]
  cases members.lookup key with
  | none => simp
  | some v => simp [Content.Holds, Content.nodes, Succeeds]

theorem reads_may : (may key read).Reads reads members ↔
    Succeeds (Members.optional members key read) := by
  simp only [Reads, Holds, nodes, may, Members.succeeds_optional]
  cases members.lookup key with
  | none => simp
  | some v => simp [Content.Holds, Content.nodes]

theorem reads_slot : (slot key).Reads reads members ↔
    ∀ v, members.lookup key = some v → v.IsSlotOf reads := by
  simp only [Reads, Holds, nodes, slot]
  cases members.lookup key with
  | none => simp
  | some v => simp [Content.Holds, Content.nodes, Json.IsSlotOf]

theorem reads_ladder : ladder.Reads reads members ↔
    ∀ v, members.lookup "ladder" = some v → ∃ slots, v = .array slots ∧
      ∀ slot ∈ slots, slot.IsSlotOf reads := by
  simp only [Reads, Holds, nodes, ladder]
  cases members.lookup "ladder" with
  | none => simp
  | some v =>
      cases v with
      | array slots =>
          simp only [Content.Holds, Content.nodes, List.mem_flatMap, Json.IsSlotOf]
          constructor
          · rintro ⟨hslots, hentries⟩ v hv
            obtain rfl := Option.some.inj hv
            exact ⟨slots, rfl, fun slot h => ⟨hslots slot h, fun v hv => hentries v ⟨slot, h, hv⟩⟩⟩
          · intro h
            obtain ⟨slots', heq, hslots⟩ := h _ rfl
            obtain rfl := Json.array.inj heq
            exact ⟨fun slot h => (hslots slot h).1, fun v ⟨slot, h, hv⟩ => (hslots slot h).2 v hv⟩
      | _ => simp [Content.Holds]

theorem reads_congr {f : NodeField α} {members' : Members α}
    (h : members.lookup f.key = members'.lookup f.key) :
    f.Reads reads members ↔ f.Reads reads members' := by
  simp only [Reads, Holds, nodes, h]

end NodeField

namespace Ladder

/-- Reading the slots that have been gathered is reading those of the ladder keys that last. -/
theorem reads_gathered {reads : Json α → Prop} {members gathered : Members α}
    (h : gather members = .ok gathered) :
    NodeField.ladder.Reads reads gathered ↔
      NodeField.ladder.Reads reads members ∧ ∀ m ∈ members.rungs.lasting, m.2.IsSlotOf reads := by
  rcases lookup_ladder_gathered h with ⟨hrungs, hlookup⟩ | ⟨habsent, slots, hslots, hlookup⟩
  · have hnone : ∀ m ∈ members.rungs.lasting, m.2.IsSlotOf reads := by
      simp [hrungs, Members.lasting]
    rw [NodeField.reads_congr hlookup, and_iff_left hnone]
  · have hnull : Json.IsSlotOf reads (.null : Json α) := ⟨trivial, by simp [Json.entries]⟩
    have hempty : ∀ v, Untouched [] members.rungs v → v.IsSlotOf reads := by
      simp [Untouched]
    rw [NodeField.reads_ladder, NodeField.reads_ladder, habsent, hlookup]
    have hlasting := forall_mem_placeAll hnull hslots
    rw [and_iff_right hempty] at hlasting
    rw [← hlasting]
    simp

end Ladder

namespace Node

variable {child : Json α → Read (Node α)} {members : Members α}

theorem succeeds_readSlot {v : Json α} :
    Succeeds (readSlot child v) ↔ v.IsSlotOf fun entry => Succeeds (child entry) := by
  cases v with
  | array items =>
      have hitem (v : Json α) : Succeeds (Json.readNullable child v) ↔
          (v.isNull = false → Succeeds (child v)) := by
        cases v <;> simp [Json.readNullable, Json.isNull, succeeds_map]
      rw [readSlot, succeeds_bind_of fun _ => iff_of_true (succeeds_pure _) trivial,
        succeeds_mapM]
      simp [Json.IsSlotOf, Json.IsSlot, Json.entries, hitem]
  | _ => simp [readSlot, Json.IsSlotOf, Json.IsSlot, Json.entries, Read.malformed]

theorem succeeds_slot {key : String} :
    Succeeds (Members.optional members key (readSlot child)) ↔
      (NodeField.slot key).Reads (fun v => Succeeds (child v)) members := by
  rw [Members.succeeds_optional, NodeField.reads_slot]
  exact forall₂_congr fun _ _ => succeeds_readSlot

theorem succeeds_ladder :
    Succeeds (Members.optional members "ladder" (Json.readList (readSlot child))) ↔
      NodeField.ladder.Reads (fun v => Succeeds (child v)) members := by
  rw [Members.succeeds_optional, NodeField.reads_ladder]
  refine forall₂_congr fun v _ => ?_
  cases v with
  | array slots => simp [Json.readList, succeeds_mapM, succeeds_readSlot]
  | _ => simp [Json.readList, Read.malformed]

theorem checkKeys_ok {kind : Kind} :
    checkKeys kind members = .ok () ↔ ∀ m ∈ members, m.1 ∈ "id" :: "kind" :: kind.keys := by
  constructor
  · intro h m hm
    unfold checkKeys at h
    split at h
    · cases h
    · next hnone =>
        have hkey := List.find?_eq_none.1 hnone m hm
        simp only [decide_eq_true_eq] at hkey
        simp only [List.mem_cons]
        tauto
  · exact checkKeys_of_keys

theorem succeeds_readText {key : String} :
    Succeeds (Members.required members key Json.readText) ↔
      ∃ s, members.lookup key = some (.text s) := by
  simp only [Succeeds, Members.required_ok, Members.optional_ok_some]
  constructor
  · rintro ⟨s, v, hlookup, hv⟩
    cases v with
    | text s' => exact ⟨s', hlookup⟩
    | _ => cases hv
  · rintro ⟨s, hlookup⟩
    exact ⟨s, .text s, hlookup, rfl⟩

variable [Arith α]

/-- A kind reads exactly if its fields read. -/
theorem succeeds_ofKind (kind : Kind) (id : String) :
    Succeeds (ofKind child id kind members) ↔
      ∀ f ∈ kind.fields, f.Reads (fun v => Succeeds (child v)) members := by
  have hfold {γ : Type} {x : Read γ} : (∃ b, x = .ok b) ↔ Succeeds x := Iff.rfl
  -- Both sides become statements about the same values. They differ in their order, which is
  -- that of the keys on the left, and in where a required value is missed.
  cases kind
  all_goals
    simp only [ofKind, slotAt, weightingAt, succeeds_bind, succeeds_pure, and_true,
      exists_and_right, Read.required_ok, Members.required_ok, hfold,
      Members.succeeds_withDefault, succeeds_slot, succeeds_ladder]
    simp only [Kind.fields, NodeField.branches, NodeField.weighting, List.cons_append,
      List.nil_append, List.forall_mem_cons, List.not_mem_nil, false_implies, implies_true,
      NodeField.reads_must, NodeField.reads_may]
  all_goals grind

/-! ### Objects -/

theorem forall_reads {kind : Kind} {reads : Json α → Prop} :
    (∀ f ∈ kind.fields, f.Reads reads members) ↔
      (∀ f ∈ kind.fields, f.Holds members) ∧ ∀ v ∈ kind.nodes members, reads v := by
  simp only [NodeField.Reads, Kind.nodes, List.mem_flatMap]
  constructor
  · exact fun h => ⟨fun f hf => (h f hf).1, fun v ⟨f, hf, hv⟩ => (h f hf).2 v hv⟩
  · exact fun h f hf => ⟨h.1 f hf, fun v hv => h.2 v ⟨f, hf, hv⟩⟩

/-- Reads a node whose keys need no more attention. -/
def ofFields (child : Json α → Read (Node α)) (members : Members α) : Read (Node α) := do
  let id ← members.required "id" Json.readText
  let kind ← .required ((members.lookup "kind").bind Kind.ofJson?)
  ofKind child id kind members

theorem succeeds_ofFields : Succeeds (ofFields child members) ↔
    (∃ id, members.lookup "id" = some (.text id)) ∧
      ∃ kind, (members.lookup "kind").bind Kind.ofJson? = some kind ∧
        ∀ f ∈ kind.fields, f.Reads (fun v => Succeeds (child v)) members := by
  rw [← succeeds_readText]
  refine succeeds_bind_of fun id => ?_
  simp only [succeeds_bind, Read.required_ok, succeeds_ofKind]

/-- The kind of an object that gives it by name. -/
def named? (members : Members α) : Option Kind :=
  ((members.lookup "kind").bind Json.text?).bind Kind.ofName?

/-- The members of an object as they are read. -/
def gathered (members : Members α) : Read (Members α) :=
  if named? members = some .numbered then Ladder.gather members else .ok members

/-- Reads a node from members that have been gathered. -/
def ofGathered (child : Json α → Read (Node α)) (named : Option Kind) (members : Members α) :
    Read (Node α) := do
  match named with
  | some kind => checkKeys kind members
  | none => pure ()
  ofFields child members

theorem ofMembers_eq :
    ofMembers child members = gathered members >>= ofGathered child (named? members) := by
  unfold ofMembers gathered named?
  cases ((members.lookup "kind").bind Json.text?).bind Kind.ofName? with
  | none => rfl
  | some kind =>
      by_cases hnumbered : kind = .numbered
      · subst hnumbered
        rfl
      · have hsome : some kind ≠ some .numbered := fun h => hnumbered (Option.some.inj h)
        simp only [if_neg hsome]
        rfl

theorem ofMembers_unnamed (h : named? members = none) :
    ofMembers child members = ofFields child members := by
  rw [ofMembers_eq, gathered, h, if_neg (by simp)]
  rfl

omit [Arith α] in
theorem lookup_of_named {kind : Kind} (h : named? members = some kind) :
    members.lookup "kind" = some (.text kind.name) := by
  obtain ⟨s, hs, hkind⟩ := Option.bind_eq_some_iff.1 h
  obtain ⟨v, hlookup, hv⟩ := Option.bind_eq_some_iff.1 hs
  have htext : kind.name = s := by simpa using List.find?_some hkind
  cases v with
  | text s' => rw [hlookup, htext, Option.some.inj hv]
  | _ => cases hv

omit [Arith α] in
theorem named?_of_lookup {kind : Kind} (h : members.lookup "kind" = some (.text kind.name)) :
    named? members = some kind := by
  rw [named?, h]
  exact Kind.ofName?_name kind

theorem ofMembers_named {kind : Kind} (h : members.lookup "kind" = some (.text kind.name)) :
    ofMembers child members = (do
      let gathered ← if kind = .numbered then Ladder.gather members else pure members
      checkKeys kind gathered
      ofFields child gathered) := by
  rw [ofMembers_eq, gathered, named?_of_lookup h]
  simp only [Option.some.injEq]
  split <;> rfl

theorem succeeds_checked {kind : Kind} {gathered : Members α}
    (h : gathered.lookup "kind" = some (.text kind.name)) :
    Succeeds (do
      checkKeys kind gathered
      ofFields child gathered) ↔
      (∀ m ∈ gathered, m.1 ∈ "id" :: "kind" :: kind.keys) ∧
        (∃ id, gathered.lookup "id" = some (.text id)) ∧
          ∀ f ∈ kind.fields, f.Reads (fun v => Succeeds (child v)) gathered := by
  have hkind : (gathered.lookup "kind").bind Kind.ofJson? = some kind := by
    rw [h]
    exact Kind.ofName?_name kind
  rw [succeeds_then, checkKeys_ok, succeeds_ofFields, hkind]
  simp only [Option.some.injEq, exists_eq_left']

/-- A numbered node has a ladder and fields whose keys are no ladder keys. -/
theorem exists_fields_numbered : ∃ plain : List (NodeField α),
    Kind.numbered.fields = plain ++ [.ladder] ∧
      ∀ f ∈ plain, f.key ≠ "ladder" ∧ Ladder.isRung f.key = false := by
  have hkeys : ∀ key ∈ ["items", "quantifier", "weightingThen", "weightingElse", "then", "else"],
      key ≠ "ladder" ∧ Ladder.isRung key = false := by decide
  exact ⟨.must "items" (Json.readList itemOfJson) :: .must "quantifier" Quantifier.ofJson ::
    NodeField.branches, rfl, fun f hf => hkeys f.key (List.mem_map_of_mem hf)⟩

theorem fields_gathered {gathered : Members α} {reads : Json α → Prop}
    (h : Ladder.gather members = .ok gathered) :
    (∀ f ∈ Kind.numbered.fields, f.Reads reads gathered) ↔
      (∀ f ∈ Kind.numbered.fields, f.Reads reads members) ∧
        ∀ m ∈ members.rungs.lasting, m.2.IsSlotOf reads := by
  obtain ⟨plain, hfields, hplain⟩ := exists_fields_numbered (α := α)
  have hlookup : ∀ f ∈ plain, f.Reads reads gathered ↔ f.Reads reads members := fun f hf =>
    NodeField.reads_congr (Ladder.lookup_gathered (hplain f hf).1 (hplain f hf).2 h)
  rw [hfields, List.forall_mem_append, List.forall_mem_append, List.forall_mem_singleton,
    List.forall_mem_singleton, Ladder.reads_gathered h, forall₂_congr hlookup, and_assoc]

theorem succeeds_numbered (h : members.lookup "kind" = some (.text Kind.numbered.name)) :
    Succeeds (ofMembers child members) ↔
      Named .numbered members ∧ members.rungs.Numbered ∧
        (∀ m ∈ members.rungs.lasting, m.2.IsSlot) ∧
        ∀ v ∈ Kind.numbered.nodes members ++ members.rungs.lasting.entries,
          Succeeds (child v) := by
  have hgathered (gathered : Members α) (hok : Ladder.gather members = .ok gathered) :
      Succeeds (do
        checkKeys .numbered gathered
        ofFields child gathered) ↔
        (∀ m ∈ members, Ladder.isRung m.1 = false →
          m.1 ∈ "id" :: "kind" :: Kind.numbered.keys) ∧
        (∃ id, members.lookup "id" = some (.text id)) ∧
        (∀ f ∈ Kind.numbered.fields, f.Reads (fun v => Succeeds (child v)) members) ∧
        ∀ m ∈ members.rungs.lasting, m.2.IsSlotOf fun v => Succeeds (child v) := by
    have hid : gathered.lookup "id" = members.lookup "id" :=
      Ladder.lookup_gathered (by decide) (by decide) hok
    have hkind : gathered.lookup "kind" = members.lookup "kind" :=
      Ladder.lookup_gathered (by decide) (by decide) hok
    rw [succeeds_checked (hkind.trans h), hid, fields_gathered hok,
      Ladder.forall_key_gathered (P := (· ∈ "id" :: "kind" :: Kind.numbered.keys))
        (by simp [Kind.keys]) hok]
  rw [ofMembers_named h, if_pos rfl, succeeds_bind]
  constructor
  · rintro ⟨gathered, hok, hreads⟩
    obtain ⟨hkeys, hid, hfields, hlasting⟩ := (hgathered gathered hok).1 hreads
    obtain ⟨hunmixed, hnumbered⟩ := Ladder.succeeds_gather.1 ⟨gathered, hok⟩
    obtain ⟨hholds, hnodes⟩ := forall_reads.1 hfields
    obtain ⟨hslots, hentries⟩ := Members.forall_isSlotOf.1 hlasting
    exact ⟨⟨hid, h, (Kind.forall_allows_numbered hnumbered).2 hkeys, hunmixed, hholds⟩, hnumbered,
      hslots, List.forall_mem_append.2 ⟨hnodes, hentries⟩⟩
  · rintro ⟨hnamed, hnumbered, hslots, hnodes⟩
    obtain ⟨hnodes, hentries⟩ := List.forall_mem_append.1 hnodes
    obtain ⟨gathered, hok⟩ := Ladder.succeeds_gather.2 ⟨hnamed.unmixed, hnumbered⟩
    exact ⟨gathered, hok, (hgathered gathered hok).2
      ⟨(Kind.forall_allows_numbered hnumbered).1 hnamed.keys, hnamed.ident,
        forall_reads.2 ⟨hnamed.fields, hnodes⟩, Members.forall_isSlotOf.2 ⟨hslots, hentries⟩⟩⟩

theorem succeeds_unladdered {kind : Kind} (hladder : kind ≠ .numbered)
    (h : members.lookup "kind" = some (.text kind.name)) :
    Succeeds (ofMembers child members) ↔
      Named kind members ∧ ∀ v ∈ kind.nodes members, Succeeds (child v) := by
  rw [ofMembers_named h, if_neg hladder, pure_bind, succeeds_checked h, forall_reads]
  have hkeys (m : String × Json α) : kind.Allows (α := α) m.1 ↔
      m.1 ∈ "id" :: "kind" :: kind.keys := by
    simp [Kind.allows_iff, hladder]
  constructor
  · rintro ⟨hallowed, hid, hholds, hnodes⟩
    exact ⟨⟨hid, h, fun m hm => (hkeys m).2 (hallowed m hm), .inl (Members.rungs_of_keys hallowed),
      hholds⟩, hnodes⟩
  · rintro ⟨hnamed, hnodes⟩
    exact ⟨fun m hm => (hkeys m).1 (hnamed.keys m hm), hnamed.ident, hnamed.fields, hnodes⟩

theorem succeeds_named {kind : Kind} (h : members.lookup "kind" = some (.text kind.name)) :
    Succeeds (ofMembers child members) ↔
      Named kind members ∧ members.rungs.Numbered ∧
        (∀ m ∈ members.rungs.lasting, m.2.IsSlot) ∧
        ∀ v ∈ kind.nodes members ++ members.rungs.lasting.entries, Succeeds (child v) := by
  by_cases hladder : kind = .numbered
  · subst hladder
    exact succeeds_numbered h
  · rw [succeeds_unladdered hladder h]
    refine and_congr_right fun hnamed => ?_
    simp [hnamed.rungs_eq hladder, Members.Numbered, Members.lasting, Members.entries]

theorem succeeds_unnamed (h : named? members = none) :
    Succeeds (ofMembers child members) ↔
      ∃ kind, Placed kind members ∧ ∀ v ∈ kind.nodes members, Succeeds (child v) := by
  have hkind (kind : Kind) : (members.lookup "kind").bind Kind.ofJson? = some kind ↔
      ∃ n : Nat, members.lookup "kind" = some (.integer n) ∧ Kind.all[n]? = some kind := by
    constructor
    · intro hofJson
      obtain ⟨v, hlookup, hv⟩ := Option.bind_eq_some_iff.1 hofJson
      unfold Kind.ofJson? at hv
      split at hv
      · simp [named?, hlookup, Json.text?, hv] at h
      · next n => exact ⟨n, hlookup, hv⟩
      · cases hv
    · rintro ⟨n, hlookup, hplace⟩
      rw [hlookup]
      exact hplace
  rw [ofMembers_unnamed h, succeeds_ofFields]
  simp only [hkind, forall_reads]
  constructor
  · rintro ⟨hid, kind, hplace, hholds, hnodes⟩
    exact ⟨kind, ⟨hid, hplace, hholds⟩, hnodes⟩
  · rintro ⟨kind, ⟨hid, hplace, hholds⟩, hnodes⟩
    exact ⟨hid, kind, hplace, hholds, hnodes⟩

/-! ### Trees -/

omit [Arith α] in
theorem nesting_of_mem_entries {v entry : Json α} (h : entry ∈ v.entries) :
    entry.nesting ≤ v.nesting := by
  cases v with
  | array items => exact Json.nesting_le_of_mem (List.mem_filter.1 h).1
  | _ => cases h

omit [Arith α] in
theorem nesting_of_mem_content {content : Content α} {v entry : Json α}
    (h : entry ∈ content.nodes v) : entry.nesting ≤ v.nesting := by
  unfold Content.nodes at h
  split at h
  · exact nesting_of_mem_entries h
  · obtain ⟨slot, hslot, hentry⟩ := List.mem_flatMap.1 h
    exact Nat.le_trans (nesting_of_mem_entries hentry) (Json.nesting_le_of_mem hslot)
  · cases h

/-- What has to be a node lies deeper than the object it is in. -/
theorem nesting_of_mem_nodes {kind : Kind} {v : Json α}
    (h : v ∈ kind.nodes members ++ members.rungs.lasting.entries) :
    v.nesting < (Json.object members).nesting := by
  rcases List.mem_append.1 h with h | h
  · obtain ⟨f, -, hv⟩ := List.mem_flatMap.1 h
    unfold NodeField.nodes at hv
    split at hv
    · next field hlookup =>
        obtain ⟨before, after, heq, -⟩ := List.lookup_eq_some_iff.1 hlookup
        have hmem : (f.key, field) ∈ members := by simp [heq]
        exact Nat.lt_of_le_of_lt (nesting_of_mem_content hv) (Json.nesting_lt_of_mem f.key hmem)
    · cases hv
  · obtain ⟨m, hm, hentry⟩ := List.mem_flatMap.1 h
    have hmem : m ∈ members := (List.mem_filter.1 (Members.mem_of_mem_lasting hm)).1
    exact Nat.lt_of_le_of_lt (nesting_of_mem_entries hentry) (Json.nesting_lt_of_mem m.1 hmem)

/-- An object is read by a reader that takes the right entries. -/
theorem succeeds_ofMembers (h : ∀ v : Json α, v.nesting < (Json.object members).nesting →
    (Succeeds (child v) ↔ v.IsRead)) :
    Succeeds (ofMembers child members) ↔ (Json.object members).IsRead := by
  have hnodes (kind : Kind) : ∀ v ∈ kind.nodes members ++ members.rungs.lasting.entries,
      (Succeeds (child v) ↔ v.IsRead) := fun v hv => h v (nesting_of_mem_nodes hv)
  cases hname : named? members with
  | some kind =>
      have hlookup := lookup_of_named hname
      rw [succeeds_named hlookup, forall₂_congr (hnodes kind)]
      constructor
      · rintro ⟨hnamed, hnumbered, hslots, hread⟩
        exact .named hnamed hnumbered hslots hread
      · intro hread
        cases hread with
        | @named kind' _ hnamed hnumbered hslots hread =>
            obtain rfl := Option.some.inj ((named?_of_lookup hnamed.name).symm.trans hname)
            exact ⟨hnamed, hnumbered, hslots, hread⟩
        | placed hplaced =>
            obtain ⟨n, hplace, -⟩ := hplaced.place
            cases hlookup.symm.trans hplace
  | none =>
      rw [succeeds_unnamed hname]
      constructor
      · rintro ⟨kind, hplaced, hread⟩
        exact .placed hplaced fun v hv => (hnodes kind v (List.mem_append_left _ hv)).1 (hread v hv)
      · intro hread
        cases hread with
        | named hnamed => cases (named?_of_lookup hnamed.name).symm.trans hname
        | @placed kind _ hplaced hread =>
            exact ⟨kind, hplaced,
              fun v hv => (hnodes kind v (List.mem_append_left _ hv)).2 (hread v hv)⟩

theorem succeeds_ofJsonWithin {levels : Nat} {v : Json α} (h : v.nesting ≤ levels) :
    Succeeds (ofJsonWithin levels v) ↔ v.IsRead := by
  induction levels generalizing v with
  | zero =>
      cases v with
      | object members => cases h
      | _ => exact iff_of_false (not_succeeds_error _) (by rintro ⟨⟩)
  | succ levels ih =>
      cases v with
      | object members =>
          rw [ofJsonWithin]
          exact succeeds_ofMembers fun v hv => ih (Nat.le_of_lt_succ (Nat.lt_of_lt_of_le hv h))
      | _ => exact iff_of_false (not_succeeds_error _) (by rintro ⟨⟩)

/-- What is read as a node is what the second grammar has. It is what the grammar has, apart
from kinds that are given by their places, ladder keys that are overwritten before they are
read, and ladders that cannot be built. -/
theorem read_iff_grammar (v : Json α) :
    (Succeeds (ofJson v) ↔ v.IsRead) ∧
      (Succeeds (ofJson v) ∧ ¬v.Slips ↔ v.IsNode ∧ ¬v.Overlong) := by
  have hread : Succeeds (ofJson v) ↔ v.IsRead := succeeds_ofJsonWithin (Nat.le_refl _)
  exact ⟨hread, by rw [hread, Json.isRead_and_not_slips_iff]⟩

/-- An indicator node, by its place among the kinds. The weighting of its first branch is
misspelt. -/
def sampleMisspelt : Json Binary64 :=
  .object [("conditions", .array []), ("id", .text "n"), ("kind", .integer 2),
    ("then", .array [.object [("id", .text "p"), ("kind", .text "position"),
      ("tickers", .array [.text "SPY"])]]),
    ("weigthingThen", .object [("specified", .object [("weights", .array [.integer 1])])])]

theorem sample_misspelt_read : (∃ n, ofJson sampleMisspelt = .ok n ∧
      n.weightings = [.equal, .equal]) ∧ ¬sampleMisspelt.IsNode := by
  refine ⟨⟨_, rfl, rfl⟩, ?_⟩
  intro h
  cases h with
  | object hnamed => cases hnamed.name

end Node
end StrategyTree
