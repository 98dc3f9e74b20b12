import StrategyTree.Proofs.Document.Acceptance
/-!
# Slots without nodes in documents

A slot without nodes may be missing, `null`, empty or a lone placeholder. Documents that
differ in nothing else, anywhere in their trees, are read alike, faults included.
-/
namespace StrategyTree

open Outcome

variable {α : Type}

/-! ### Documents that differ in slots without nodes -/

namespace Json

/-- The values of a slot without nodes. -/
inductive Bare : Json α → Prop
  | null : Bare null
  | empty : Bare (array [])
  | placeholder : Bare (array [.null])

/-- Two slots without nodes, or two whose entries are related one by one. -/
inductive SlotsAlike (R : Json α → Json α → Prop) : Json α → Json α → Prop
  | same (v : Json α) : SlotsAlike R v v
  | bare {v v' : Json α} : Bare v → Bare v' → SlotsAlike R v v'
  | entries {items items' : List (Json α)} : List.Forall₂ R items items' →
      SlotsAlike R (array items) (array items')

/-- Two ladders whose slots are alike one by one. -/
inductive LaddersAlike (R : Json α → Json α → Prop) : Json α → Json α → Prop
  | same (v : Json α) : LaddersAlike R v v
  | slots {slots slots' : List (Json α)} : List.Forall₂ (SlotsAlike R) slots slots' →
      LaddersAlike R (array slots) (array slots')

end Json

/-- What two objects have in a field if they differ in slots without nodes only. A missing slot
counts as `null`, and a missing ladder has no slots. -/
def Content.Alike (R : Json α → Json α → Prop) (v v' : Option (Json α)) : Content α → Prop
  | value _ => v = v'
  | slot => Json.SlotsAlike R (v.getD .null) (v'.getD .null)
  | ladder => Json.LaddersAlike R (v.getD (.array [])) (v'.getD (.array []))

/-- The members that a kind does not know. -/
def Kind.unknown (kind : Kind) (members : Members α) : Members α :=
  members.filter fun m => m.1 ≠ "id" ∧ m.1 ≠ "kind" ∧ m.1 ∉ kind.keys

section Relation
variable [Arith α]

/-- Members of one kind that differ in slots without nodes only. -/
structure Members.Alike (R : Json α → Json α → Prop) (kind : Kind) (members members' : Members α) :
    Prop where
  ofKind : (members.lookup "kind").bind Kind.ofJson? = some kind
  kinds : members.lookup "kind" = members'.lookup "kind"
  ident : members.lookup "id" = members'.lookup "id"
  fields : ∀ f ∈ kind.fields, f.content.Alike R (members.lookup f.key) (members'.lookup f.key)
  unknown : kind.unknown members = kind.unknown members'

/-- Documents of nodes that differ, anywhere in their trees, in slots without nodes only. Ladder
keys are compared after they have been gathered, where a slot that is missing below another is
`null`. If they cannot be gathered nothing else is read of a node. -/
inductive Json.Alike : Json α → Json α → Prop
  | same (v : Json α) : Alike v v
  | node {R : Json α → Json α → Prop} {kind : Kind} {members members' read read' : Members α} :
      (∀ v v', R v v' → Alike v v') → Node.gathered members = .ok read →
      Node.gathered members' = .ok read' → Members.Alike R kind read read' →
      Alike (object members) (object members')
  | faulty {members members' : Members α} {fault : DocumentFault} :
      Node.gathered members = .error fault → Node.gathered members' = .error fault →
      Alike (object members) (object members')

end Relation

/-! ### Fields -/

namespace Node

variable {child child' : Json α → Read (Node α)} {members members' : Members α}

theorem slotAt_eq (child : Json α → Read (Node α)) (members : Members α) (key : String) :
    slotAt child members key = readSlot child ((members.lookup key).getD .null) :=
  Members.withDefault_eq rfl

theorem ladder_eq (child : Json α → Read (Node α)) (members : Members α) (key : String) :
    Members.withDefault members key (Json.readList (readSlot child)) [] =
      Json.readList (readSlot child) ((members.lookup key).getD (.array [])) :=
  Members.withDefault_eq rfl

/-- Two readers of nodes find the same in a field of two objects. -/
def ReadsSame (child child' : Json α → Read (Node α)) (members members' : Members α)
    (f : NodeField α) : Prop :=
  match f.content with
  | .value _ => members.lookup f.key = members'.lookup f.key
  | .slot => readSlot child ((members.lookup f.key).getD .null) =
      readSlot child' ((members'.lookup f.key).getD .null)
  | .ladder => Json.readList (readSlot child) ((members.lookup f.key).getD (.array [])) =
      Json.readList (readSlot child') ((members'.lookup f.key).getD (.array []))

theorem readNullable_congr {v v' : Json α} (h : child v = child' v')
    (hnull : v = .null ↔ v' = .null) :
    Json.readNullable child v = Json.readNullable child' v' := by
  by_cases hv : v = .null
  · rw [hv, hnull.1 hv]
    rfl
  · have hv' : v' ≠ .null := fun h' => hv (hnull.2 h')
    have hread {w : Json α} {f : Json α → Read (Node α)} (hw : w ≠ .null) :
        Json.readNullable f w = some <$> f w := by
      cases w with
      | null => exact absurd rfl hw
      | _ => rfl
    rw [hread hv, hread hv', h]

/-! ### Slots and ladders -/

theorem readSlot_congr {v : Json α} (h : ∀ entry, entry.nesting ≤ v.nesting →
    child entry = child' entry) : readSlot child v = readSlot child' v := by
  cases v with
  | array items =>
      have hitems : items.mapM (Json.readNullable child) =
          items.mapM (Json.readNullable child') :=
        mapM_congr (List.forall₂_same.2 fun entry hentry =>
          readNullable_congr (h entry (Json.nesting_le_of_mem hentry)) Iff.rfl)
      rw [readSlot, readSlot, hitems]
  | _ => rfl

theorem readsSame_congr {bound : Nat} (hmembers : ∀ m ∈ members, m.2.nesting < bound + 1)
    (h : ∀ v, v.nesting < bound + 1 → child v = child' v) (f : NodeField α) :
    ReadsSame child child' members members f := by
  obtain ⟨key, required, content⟩ := f
  have hvalue {v : Json α} (hv : members.lookup key = some v) : v.nesting < bound + 1 := by
    obtain ⟨before, after, heq, -⟩ := List.lookup_eq_some_iff.1 hv
    exact hmembers (key, v) (by simp [heq])
  cases content with
  | value reads => exact rfl
  | slot =>
      change readSlot child ((members.lookup key).getD .null) =
        readSlot child' ((members.lookup key).getD .null)
      cases hv : members.lookup key with
      | none => rfl
      | some v =>
          exact readSlot_congr fun entry hentry => h entry (Nat.lt_of_le_of_lt hentry (hvalue hv))
  | ladder =>
      change Json.readList (readSlot child) ((members.lookup key).getD (.array [])) =
        Json.readList (readSlot child') ((members.lookup key).getD (.array []))
      cases hv : members.lookup key with
      | none => rfl
      | some v =>
          cases v with
          | array slots =>
              refine mapM_congr (List.forall₂_same.2 fun slot hslot =>
                readSlot_congr fun entry hentry => h entry ?_)
              exact Nat.lt_of_le_of_lt (Nat.le_trans hentry (Json.nesting_le_of_mem hslot))
                (hvalue hv)
          | _ => rfl

section Alike
variable {R : Json α → Json α → Prop}

theorem readSlot_bare {v : Json α} (h : v.Bare) : readSlot child v = .ok .placeholder := by
  cases h <;> rfl

theorem readSlot_alike
    (hR : ∀ v v', R v v' → Json.readNullable child v = Json.readNullable child v')
    {v v' : Json α} (h : Json.SlotsAlike R v v') : readSlot child v = readSlot child v' := by
  cases h with
  | same => rfl
  | bare hv hv' => rw [readSlot_bare hv, readSlot_bare hv']
  | entries h =>
      rw [readSlot, readSlot, mapM_congr (h.imp hR)]

theorem readsSame_alike
    (hR : ∀ v v', R v v' → Json.readNullable child v = Json.readNullable child v')
    {f : NodeField α} (h : f.content.Alike R (members.lookup f.key) (members'.lookup f.key)) :
    ReadsSame child child members members' f := by
  obtain ⟨key, required, content⟩ := f
  cases content with
  | value reads => exact h
  | slot => exact readSlot_alike hR h
  | ladder =>
      change Json.LaddersAlike R ((members.lookup key).getD (.array []))
        ((members'.lookup key).getD (.array [])) at h
      change Json.readList _ ((members.lookup key).getD (.array [])) =
        Json.readList _ ((members'.lookup key).getD (.array []))
      generalize (members.lookup key).getD (.array []) = v at h ⊢
      generalize (members'.lookup key).getD (.array []) = v' at h ⊢
      cases h with
      | same => rfl
      | slots h => exact mapM_congr (h.imp fun _ _ => readSlot_alike hR)

end Alike

/-! ### Gathered members -/

theorem checkKeys_congr {kind : Kind} (hid : members.lookup "id" = members'.lookup "id")
    (h : kind.unknown members = kind.unknown members') :
    checkKeys kind members = checkKeys kind members' := by
  have hfind : members.find? (fun m => m.1 ≠ "id" ∧ m.1 ≠ "kind" ∧ m.1 ∉ kind.keys) =
      members'.find? fun m => m.1 ≠ "id" ∧ m.1 ≠ "kind" ∧ m.1 ∉ kind.keys := by
    rw [← List.head?_filter, ← List.head?_filter]
    exact congrArg List.head? h
  unfold checkKeys
  rw [hfind, hid]

/-- Gathering leaves the kind alone. -/
theorem named?_gathered {read : Members α} (h : gathered members = .ok read) :
    named? read = named? members := by
  unfold gathered at h
  split at h
  · rw [named?, Ladder.lookup_gathered (by decide) (by decide) h, named?]
  · rw [Except.ok.inj h]

/-- What has been gathered lies deeper than the object it is from. -/
theorem nesting_gathered {read : Members α} (h : gathered members = .ok read) :
    ∀ m ∈ read, m.2.nesting < (Json.object members).nesting := by
  have hmembers : ∀ m ∈ members, m.2.nesting < (Json.object members).nesting :=
    fun m hm => Json.nesting_lt_of_mem m.1 hm
  unfold gathered at h
  split at h
  · rcases Ladder.gather_ok h with ⟨-, rfl⟩ | ⟨-, slots, before, after, hslots, hfilter, rfl⟩
    · exact hmembers
    · have hplain : ∀ m ∈ before ++ after, m.2.nesting < (Json.object members).nesting :=
        fun m hm => hmembers m (List.mem_filter.1 (hfilter ▸ hm)).1
      have hladder : (Json.array slots).nesting < (Json.object members).nesting := by
        refine Json.nesting_array_lt ((Ladder.forall_mem_placeAll (Nat.succ_pos _) hslots).2
          ⟨by simp [Ladder.Untouched], fun m hm => ?_⟩)
        exact hmembers m (List.mem_filter.1 (Members.mem_of_mem_lasting hm)).1
      rw [List.forall_mem_append] at hplain
      exact List.forall_mem_append.2
        ⟨hplain.1, List.forall_mem_cons.2 ⟨hladder, hplain.2⟩⟩
  · exact Except.ok.inj h ▸ hmembers

/-! ### Objects -/

variable [Arith α]

/-- A node is made of what is found in the fields of its kind. -/
theorem ofKind_congr {kind : Kind} (id : String)
    (h : ∀ f ∈ kind.fields, ReadsSame child child' members members' f) :
    ofKind child id kind members = ofKind child' id kind members' := by
  cases kind
  all_goals
    simp only [Kind.fields, NodeField.branches, NodeField.weighting, List.cons_append,
      List.nil_append, List.forall_mem_cons, ReadsSame, NodeField.must, NodeField.may,
      NodeField.slot, NodeField.ladder] at h
  case basic =>
    obtain ⟨hweighting, hnext, -⟩ := h
    simp only [ofKind, slotAt_eq, hnext, weightingAt, Members.withDefault_congr hweighting]
  case function =>
    obtain ⟨hmetric, hwindow, hcount, hselect, hweighting, hnext, -⟩ := h
    simp only [ofKind, slotAt_eq, hnext, weightingAt, Members.withDefault_congr hweighting,
      Members.withDefault_congr hwindow, Members.optional_congr hmetric,
      Members.optional_congr hcount, Members.required_congr hselect]
  case indicator =>
    obtain ⟨hconditions, hthenWeighting, helseWeighting, hthen, helse, -⟩ := h
    simp only [ofKind, slotAt_eq, hthen, helse, weightingAt,
      Members.withDefault_congr hthenWeighting, Members.withDefault_congr helseWeighting,
      Members.optional_congr hconditions]
  case numbered =>
    obtain ⟨hitems, hquantifier, hthenWeighting, helseWeighting, hthen, helse, hladder, -⟩ := h
    simp only [ofKind, slotAt_eq, ladder_eq, hthen, helse, hladder, weightingAt,
      Members.withDefault_congr hthenWeighting, Members.withDefault_congr helseWeighting,
      Members.optional_congr hitems, Members.optional_congr hquantifier]
  case position =>
    obtain ⟨htickers, -⟩ := h
    simp only [ofKind, Members.required_congr htickers]
  case call =>
    obtain ⟨hcall, -⟩ := h
    simp only [ofKind, Members.required_congr hcall]
  case altExit =>
    obtain ⟨hentry, hexit, hthenWeighting, helseWeighting, hthen, helse, -⟩ := h
    simp only [ofKind, slotAt_eq, hthen, helse, weightingAt,
      Members.withDefault_congr hthenWeighting, Members.withDefault_congr helseWeighting,
      Members.optional_congr hentry, Members.optional_congr hexit]
  case scaling =>
    obtain ⟨hreading, hlower, hupper, hthenWeighting, helseWeighting, hthen, helse, -⟩ := h
    simp only [ofKind, slotAt_eq, hthen, helse, weightingAt,
      Members.withDefault_congr hthenWeighting, Members.withDefault_congr helseWeighting,
      Members.optional_congr hreading, Members.optional_congr hlower,
      Members.optional_congr hupper]

theorem ofFields_congr (hid : members.lookup "id" = members'.lookup "id")
    (hkind : members.lookup "kind" = members'.lookup "kind")
    (h : ∀ kind, (members.lookup "kind").bind Kind.ofJson? = some kind →
      ∀ f ∈ kind.fields, ReadsSame child child' members members' f) :
    ofFields child members = ofFields child' members' := by
  unfold ofFields
  rw [Members.required_congr hid, ← hkind]
  refine bind_congr fun id => ?_
  cases hofJson : (members.lookup "kind").bind Kind.ofJson? with
  | none => rfl
  | some kind => exact ofKind_congr id (h kind hofJson)

/-- An object is read by what reads the values in it. -/
theorem ofMembers_congr
    (h : ∀ v : Json α, v.nesting < (Json.object members).nesting → child v = child' v) :
    ofMembers child members = ofMembers child' members := by
  rw [ofMembers_eq, ofMembers_eq]
  cases hread : gathered members with
  | error fault => rfl
  | ok read =>
      have hfields : ofFields child read = ofFields child' read :=
        ofFields_congr rfl rfl fun _ _ f _ => readsSame_congr (nesting_gathered hread) h f
      change ofGathered child _ read = ofGathered child' _ read
      unfold ofGathered
      rw [hfields]

/-- Objects that are alike once they are gathered are read alike. -/
theorem ofMembers_alike {R : Json α → Json α → Prop}
    (hR : ∀ v v', R v v' → Json.readNullable child v = Json.readNullable child v') {kind : Kind}
    {read read' : Members α} (hread : gathered members = .ok read)
    (hread' : gathered members' = .ok read') (h : Members.Alike R kind read read') :
    ofMembers child members = ofMembers child members' := by
  have hnamed : named? members = named? members' := by
    rw [← named?_gathered hread, ← named?_gathered hread', named?, h.kinds, named?]
  have hkind {k : Kind} (hk : named? members = some k) : k = kind := by
    rw [← named?_gathered hread] at hk
    have hofKind := h.ofKind
    rw [lookup_of_named hk] at hofKind
    exact Option.some.inj ((Kind.ofName?_name k).symm.trans hofKind)
  have hfields : ofFields child read = ofFields child read' := by
    refine ofFields_congr h.ident h.kinds fun k hk f hf => ?_
    obtain rfl := Option.some.inj (hk.symm.trans h.ofKind)
    exact readsSame_alike hR (h.fields f hf)
  rw [ofMembers_eq, ofMembers_eq, hread, hread', ← hnamed]
  change ofGathered child (named? members) read = ofGathered child (named? members) read'
  cases hk : named? members with
  | none => exact hfields
  | some k =>
      obtain rfl := hkind hk
      change (do checkKeys k read; ofFields child read) =
        (do checkKeys k read'; ofFields child read')
      rw [checkKeys_congr h.ident h.unknown, hfields]

/-! ### Trees -/

theorem ofJsonWithin_alike {v v' : Json α} (h : v.Alike v') (levels : Nat) :
    ofJsonWithin levels v = ofJsonWithin levels v' := by
  suffices hboth : (∀ levels, ofJsonWithin levels v = ofJsonWithin levels v') ∧
      (v = .null ↔ v' = .null) from hboth.1 levels
  clear levels
  induction h with
  | same v => exact ⟨fun _ => rfl, Iff.rfl⟩
  | @node R kind members members' read read' _ hread hread' h ih =>
      refine ⟨fun levels => ?_, by simp⟩
      cases levels with
      | zero => rfl
      | succ levels =>
          exact ofMembers_alike
            (fun v v' hv => readNullable_congr ((ih v v' hv).1 levels) (ih v v' hv).2)
            hread hread' h
  | @faulty members members' fault hfault hfault' =>
      refine ⟨fun levels => ?_, by simp⟩
      cases levels with
      | zero => rfl
      | succ levels =>
          rw [ofJsonWithin, ofJsonWithin, ofMembers_eq, ofMembers_eq, hfault, hfault']
          rfl

/-- As many levels as objects are nested are enough to read a document. -/
theorem ofJsonWithin_enough {v : Json α} {levels : Nat} (h : v.nesting ≤ levels) :
    ofJsonWithin levels v = ofJson v := by
  suffices hsame : ∀ {levels' : Nat} {v : Json α}, v.nesting ≤ levels → v.nesting ≤ levels' →
      ofJsonWithin levels v = ofJsonWithin levels' v from hsame h (Nat.le_refl _)
  clear h
  induction levels with
  | zero =>
      intro levels' v h _
      cases v with
      | object members => cases h
      | _ => cases levels' <;> rfl
  | succ levels ih =>
      intro levels' v h h'
      cases v with
      | object members =>
          cases levels' with
          | zero => cases h'
          | succ levels' =>
              rw [ofJsonWithin, ofJsonWithin]
              exact ofMembers_congr fun v hv =>
                ih (Nat.le_of_lt_succ (Nat.lt_of_lt_of_le hv h))
                  (Nat.le_of_lt_succ (Nat.lt_of_lt_of_le hv h'))
      | _ => cases levels' <;> rfl

/-- Documents that differ in slots without nodes only are read as the same node, or have the
same fault. -/
theorem ofJson_alike {v v' : Json α} (h : v.Alike v') : ofJson v = ofJson v' := by
  rw [← ofJsonWithin_enough (Nat.le_max_left v.nesting v'.nesting),
    ← ofJsonWithin_enough (Nat.le_max_right v.nesting v'.nesting), ofJsonWithin_alike h]

end Node

/-! ### Documents of strategies -/

variable [Arith α]

/-- Tables of chains whose nodes are alike one by one. -/
inductive Json.ChainsAlike : Json α → Json α → Prop
  | same (v : Json α) : ChainsAlike v v
  | chains {members members' : Members α} :
      List.Forall₂ (fun m m' => m.1 = m'.1 ∧ Alike m.2 m'.2) members members' →
      ChainsAlike (object members) (object members')

/-- Documents of strategies that differ in slots without nodes only. -/
inductive Json.StrategiesAlike : Json α → Json α → Prop
  | same (v : Json α) : StrategiesAlike v v
  | object {members members' : Members α} :
      (∀ key, key ≠ "root" → key ≠ "chains" → members.lookup key = members'.lookup key) →
      Option.Rel Alike (members.lookup "root") (members'.lookup "root") →
      Option.Rel ChainsAlike (members.lookup "chains") (members'.lookup "chains") →
      StrategiesAlike (object members) (object members')
  | array {name description root root' : Json α} {rest rest' : List (Json α)} :
      Alike root root' → List.Forall₂ ChainsAlike rest rest' →
      StrategiesAlike (array (name :: description :: root :: rest))
        (array (name :: description :: root' :: rest'))

namespace Strategy

theorem chainsOfJson_alike {v v' : Json α} (h : v.ChainsAlike v') :
    chainsOfJson v = chainsOfJson v' := by
  cases h with
  | same => rfl
  | chains h =>
      rw [chainsOfJson, chainsOfJson, mapM_congr (h.imp fun m m' hm => ?_)]
      rw [hm.1, Node.ofJson_alike hm.2]

/-- Documents that differ in slots without nodes only are read as the same strategy, or have the
same fault. -/
theorem ofJson_alike {v v' : Json α} (h : v.StrategiesAlike v') : ofJson v = ofJson v' := by
  cases h with
  | same => rfl
  | object hothers hroot hchains =>
      have hname := hothers "name" (by decide) (by decide)
      have hdescription := hothers "description" (by decide) (by decide)
      have hroot := Members.optional_alike (fun _ _ h => Node.ofJson_alike h) hroot
      have hchains := Members.optional_alike (fun _ _ h => chainsOfJson_alike h) hchains
      simp only [ofJson, Members.optional_congr hname, Members.optional_congr hdescription,
        Members.withDefault, hroot, hchains]
  | array hroot hrest =>
      simp only [ofJson, Node.ofJson_alike hroot]
      cases hrest with
      | nil => rfl
      | cons hchains hrest =>
          cases hrest with
          | nil => simp only [chainsOfJson_alike hchains]
          | cons => rfl

end Strategy
end StrategyTree
