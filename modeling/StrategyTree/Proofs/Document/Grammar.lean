import StrategyTree.Proofs.Document.Node
/-!
# The grammar of nodes

A node is written as an object. Its kind says which fields the object may have, which of
them it must have, and how the value of each has to read; the entries of its slots are
nodes in turn. What is read instead is given by a second grammar that differs in three
points: a kind may be named by its place among the kinds, and then nothing checks the
keys; of ladder keys with one number only the last counts; and a ladder has an end.
-/
namespace StrategyTree

open Outcome

variable {α : Type}

/-! ### Slots -/

namespace Json

def isNull : Json α → Bool
  | null => true
  | _ => false

/-- A slot is a list or `null`. -/
def IsSlot : Json α → Prop
  | null | array _ => True
  | _ => False

/-- The values in a slot that have to be nodes. -/
def entries : Json α → List (Json α)
  | array items => items.filter fun v => !v.isNull
  | _ => []

end Json

/-! ### Fields -/

/-- What the value of a field has to be. -/
inductive Content (α : Type) where
  /-- A value that reads as the type of the field. -/
  | value (reads : Json α → Prop)
  | slot
  /-- A list of slots. -/
  | ladder

namespace Content

def Holds : Content α → Json α → Prop
  | value reads, v => reads v
  | slot, v => v.IsSlot
  | ladder, .array slots => ∀ slot ∈ slots, slot.IsSlot
  | ladder, _ => False

/-- The values in a field that have to be nodes. -/
def nodes : Content α → Json α → List (Json α)
  | slot, v => v.entries
  | ladder, .array slots => slots.flatMap Json.entries
  | _, _ => []

end Content

structure NodeField (α : Type) where
  key : String
  required : Bool
  content : Content α

namespace NodeField

def must {β : Type} (key : String) (read : Json α → Read β) : NodeField α :=
  ⟨key, true, .value fun v => Succeeds (read v)⟩

def may {β : Type} (key : String) (read : Json α → Read β) : NodeField α :=
  ⟨key, false, .value fun v => Succeeds (read v)⟩

def slot (key : String) : NodeField α :=
  ⟨key, false, .slot⟩

def ladder : NodeField α :=
  ⟨"ladder", false, .ladder⟩

/-- A field is there if it has to be, and its value is what it has to be. -/
def Holds (f : NodeField α) (members : Members α) : Prop :=
  match members.lookup f.key with
  | some v => f.content.Holds v
  | none => f.required = false

def nodes (f : NodeField α) (members : Members α) : List (Json α) :=
  match members.lookup f.key with
  | some v => f.content.nodes v
  | none => []

variable [Arith α]

def weighting (key : String) : NodeField α :=
  may key (Weighting.ofJson true)

/-- The fields of a node that decides between two slots. -/
def branches : List (NodeField α) :=
  [weighting "weightingThen", weighting "weightingElse", slot "then", slot "else"]

end NodeField

open NodeField in
def Kind.fields [Arith α] : Kind → List (NodeField α)
  | .basic => [weighting "weighting", slot "next"]
  | .function =>
      [must "metric" (Metric.ofJson true), may "window" Json.readWindow,
        must "count" Json.readCount, must "select" (Json.readUnit true Selection.ofName?),
        weighting "weighting", slot "next"]
  | .indicator => must "conditions" (Condition.listOfJson true) :: branches
  | .numbered =>
      must "items" (Json.readList itemOfJson) :: must "quantifier" Quantifier.ofJson ::
        (branches ++ [ladder])
  | .position => [must "tickers" (Json.readList Json.readText)]
  | .call => [must "callId" Json.readText]
  | .altExit =>
      must "entry" (Condition.listOfJson true) :: must "exit" (Condition.listOfJson true) ::
        branches
  | .scaling =>
      must "indicator" (Reading.ofJson true) :: must "scaleFrom" Json.readNumber ::
        must "scaleTo" Json.readNumber :: branches

/-- The table of keys lists the fields of every kind and nothing else. -/
theorem Kind.keys_eq [Arith α] (kind : Kind) :
    kind.keys = (kind.fields (α := α)).map NodeField.key := by
  cases kind <;> rfl

/-! ### Ladder keys -/

namespace Members

/-- The members with ladder keys. -/
def rungs (members : Members α) : Members α :=
  members.filter fun m => Ladder.isRung m.1

/-- Every ladder key has a number below the most slots. -/
def Numbered (rungs : Members α) : Prop :=
  ∀ m ∈ rungs, ∃ n < Ladder.maxSlots, Ladder.rungIndex? m.1 = some n

/-- Those of a list of ladder keys that no later one with the same number overwrites. -/
def lasting : Members α → Members α
  | [] => []
  | m :: rest =>
      if ∃ later ∈ rest, Ladder.rungIndex? later.1 = Ladder.rungIndex? m.1 then lasting rest
      else m :: lasting rest

theorem mem_of_mem_lasting {members : Members α} {m : String × Json α}
    (h : m ∈ lasting members) : m ∈ members := by
  induction members with
  | nil => cases h
  | cons first rest ih =>
      rw [lasting] at h
      split at h
      · exact List.mem_cons_of_mem _ (ih h)
      · rcases List.mem_cons.1 h with rfl | h
        · exact List.mem_cons_self
        · exact List.mem_cons_of_mem _ (ih h)

/-- The values in the slots of ladder keys that have to be nodes. -/
def entries (rungs : Members α) : List (Json α) :=
  rungs.flatMap fun m => m.2.entries

theorem entries_lasting_subset {rungs : Members α} :
    rungs.lasting.entries ⊆ rungs.entries := by
  intro v hv
  obtain ⟨m, hm, hentry⟩ := List.mem_flatMap.1 hv
  exact List.mem_flatMap.2 ⟨m, mem_of_mem_lasting hm, hentry⟩

end Members

/-! ### Objects -/

section Grammar
variable [Arith α]

/-- The values in the fields of a kind that have to be nodes. -/
def Kind.nodes (kind : Kind) (members : Members α) : List (Json α) :=
  kind.fields.flatMap fun f => f.nodes members

/-- The keys that an object of a kind may have. -/
def Kind.Allows (kind : Kind) (key : String) : Prop :=
  key = "id" ∨ key = "kind" ∨ key ∈ (kind.fields (α := α)).map NodeField.key ∨
    (kind = .numbered ∧ ∃ n, Ladder.rungIndex? key = some n)

/-- The members of a node of a kind that is given by its name. -/
structure Named (kind : Kind) (members : Members α) : Prop where
  ident : ∃ id, members.lookup "id" = some (.text id)
  name : members.lookup "kind" = some (.text kind.name)
  keys : ∀ m ∈ members, kind.Allows (α := α) m.1
  unmixed : members.rungs = [] ∨ members.lookup "ladder" = none
  fields : ∀ f ∈ kind.fields, f.Holds members

/-- The members of a node of a kind that is given by its place. -/
structure Placed (kind : Kind) (members : Members α) : Prop where
  ident : ∃ id, members.lookup "id" = some (.text id)
  place : ∃ n : Nat, members.lookup "kind" = some (.integer n) ∧ Kind.all[n]? = some kind
  fields : ∀ f ∈ kind.fields, f.Holds members

namespace Json

/-- The grammar of nodes. -/
inductive IsNode : Json α → Prop
  | object {kind : Kind} {members : Members α} : Named kind members →
      (∀ m ∈ members.rungs, m.2.IsSlot) →
      (∀ v ∈ kind.nodes members ++ members.rungs.entries, IsNode v) → IsNode (.object members)

/-- What is read as a node. -/
inductive IsRead : Json α → Prop
  | named {kind : Kind} {members : Members α} : Named kind members →
      members.rungs.Numbered → (∀ m ∈ members.rungs.lasting, m.2.IsSlot) →
      (∀ v ∈ kind.nodes members ++ members.rungs.lasting.entries, IsRead v) →
      IsRead (.object members)
  | placed {kind : Kind} {members : Members α} : Placed kind members →
      (∀ v ∈ kind.nodes members, IsRead v) → IsRead (.object members)

/-- Something is read that is not in the grammar: somewhere in the tree a kind is given by its
place, or a ladder key is overwritten that is no slot of nodes. -/
inductive Slips : Json α → Prop
  | placed {kind : Kind} {members : Members α} : Placed kind members → Slips (.object members)
  | overwritten {members : Members α} {m : String × Json α} : m ∈ members.rungs →
      m ∉ members.rungs.lasting → ¬(m.2.IsSlot ∧ ∀ v ∈ m.2.entries, IsNode v) →
      Slips (.object members)
  | inside {kind : Kind} {members : Members α} {v : Json α} : Named kind members →
      v ∈ kind.nodes members ++ members.rungs.lasting.entries → Slips v → Slips (.object members)

/-- Somewhere in the tree a ladder has more slots than can be built. -/
inductive Overlong : Json α → Prop
  | here {kind : Kind} {members : Members α} {m : String × Json α} {n : Nat} :
      Named kind members → m ∈ members.rungs → Ladder.rungIndex? m.1 = some n →
      Ladder.maxSlots ≤ n → Overlong (.object members)
  | inside {kind : Kind} {members : Members α} {v : Json α} : Named kind members →
      v ∈ kind.nodes members ++ members.rungs.lasting.entries → Overlong v →
      Overlong (.object members)

end Json
end Grammar

/-! ### Keys -/

section Keys
variable {members : Members α} {kind : Kind}

theorem Members.rungs_of_keys
    (h : ∀ m ∈ members, m.1 ∈ "id" :: "kind" :: kind.keys) : members.rungs = [] :=
  List.filter_eq_nil_iff.2 fun m hm => by simp [Node.isRung_key (h m hm)]

theorem Ladder.isRung_of_rungIndex? {key : String} {n : Nat} (h : Ladder.rungIndex? key = some n) :
    Ladder.isRung key = true := by
  unfold Ladder.isRung
  cases htext : Ladder.rungText? key with
  | some => rfl
  | none => simp [Ladder.rungIndex?, htext] at h

variable [Arith α]

theorem Kind.allows_iff {key : String} :
    kind.Allows (α := α) key ↔ key ∈ "id" :: "kind" :: kind.keys ∨
      (kind = .numbered ∧ ∃ n, Ladder.rungIndex? key = some n) := by
  simp [Kind.Allows, Kind.keys_eq (α := α), or_assoc]

/-- The keys of a numbered node that are no ladder keys are those in its table. -/
theorem Kind.forall_allows_numbered (h : members.rungs.Numbered) :
    (∀ m ∈ members, Kind.numbered.Allows (α := α) m.1) ↔
      ∀ m ∈ members, Ladder.isRung m.1 = false → m.1 ∈ "id" :: "kind" :: Kind.numbered.keys := by
  refine forall₂_congr fun m hm => ?_
  rw [Kind.allows_iff]
  constructor
  · rintro (hkey | ⟨-, n, hindex⟩) hplain
    · exact hkey
    · rw [Ladder.isRung_of_rungIndex? hindex] at hplain
      cases hplain
  · intro hkey
    cases hrung : Ladder.isRung m.1 with
    | false => exact .inl (hkey hrung)
    | true =>
        obtain ⟨n, -, hindex⟩ := h m (List.mem_filter.2 ⟨hm, hrung⟩)
        exact .inr ⟨rfl, n, hindex⟩

/-- Only a numbered node has ladder keys. -/
theorem Named.rungs_eq (h : Named kind members) (hladder : kind ≠ .numbered) :
    members.rungs = [] := by
  have hkeys : ∀ m ∈ members, m.1 ∈ "id" :: "kind" :: kind.keys := by
    intro m hm
    have hallowed := Kind.allows_iff.1 (h.keys m hm)
    exact hallowed.resolve_right fun hnumbered => hladder hnumbered.1
  exact Members.rungs_of_keys hkeys

theorem Named.exists_rungIndex (h : Named kind members) {m : String × Json α}
    (hm : m ∈ members.rungs) : ∃ n, Ladder.rungIndex? m.1 = some n := by
  obtain ⟨hmem, hrung⟩ := List.mem_filter.1 hm
  rcases Kind.allows_iff.1 (h.keys m hmem) with hkey | ⟨-, hindex⟩
  · rw [Node.isRung_key hkey] at hrung
    cases hrung
  · exact hindex

end Keys

/-! ### Comparison -/

section Comparison
variable [Arith α] {members : Members α} {kind kind' : Kind} {v : Json α}

theorem Named.kind_eq (h : Named kind members) (h' : Named kind' members) : kind = kind' := by
  have hname : kind.name = kind'.name :=
    Json.text.inj (Option.some.inj (h.name.symm.trans h'.name))
  have hofName : some kind = some kind' := by
    rw [← Kind.ofName?_name kind, hname, Kind.ofName?_name]
  exact Option.some.inj hofName

theorem Named.not_placed (h : Named kind members) : ¬Placed kind' members := by
  intro h'
  obtain ⟨n, hplace, -⟩ := h'.place
  cases h.name.symm.trans hplace

namespace Json

theorem IsNode.not_slips (h : v.IsNode) : ¬v.Slips := by
  induction h with
  | object hnamed hslots hnodes ih =>
      intro hslip
      cases hslip with
      | placed hplaced => exact hnamed.not_placed hplaced
      | @overwritten _ m hm _ hbad =>
          refine hbad ⟨hslots m hm, fun v hv => hnodes v (List.mem_append_right _ ?_)⟩
          exact List.mem_flatMap.2 ⟨m, hm, hv⟩
      | @inside _ _ v hnamed' hv hslip =>
          obtain rfl := hnamed.kind_eq hnamed'
          rcases List.mem_append.1 hv with hv | hv
          · exact ih v (List.mem_append_left _ hv) hslip
          · exact ih v (List.mem_append_right _ (Members.entries_lasting_subset hv)) hslip

theorem IsRead.isNode (h : v.IsRead) (hslips : ¬v.Slips) : v.IsNode := by
  induction h with
  | @named kind members hnamed _ hslots _ ih =>
      have hlasting : ∀ v ∈ kind.nodes members ++ members.rungs.lasting.entries, v.IsNode :=
        fun v hv => ih v hv fun hslip => hslips (.inside hnamed hv hslip)
      have hrungs : ∀ m ∈ members.rungs, m.2.IsSlot ∧ ∀ v ∈ m.2.entries, IsNode v := by
        intro m hm
        by_cases hlasts : m ∈ members.rungs.lasting
        · refine ⟨hslots m hlasts, fun v hv => hlasting v (List.mem_append_right _ ?_)⟩
          exact List.mem_flatMap.2 ⟨m, hlasts, hv⟩
        · by_contra hbad
          exact hslips (.overwritten hm hlasts hbad)
      refine .object hnamed (fun m hm => (hrungs m hm).1) fun v hv => ?_
      rcases List.mem_append.1 hv with hv | hv
      · exact hlasting v (List.mem_append_left _ hv)
      · obtain ⟨m, hm, hentry⟩ := List.mem_flatMap.1 hv
        exact (hrungs m hm).2 v hentry
  | placed hplaced => exact absurd (.placed hplaced) hslips

theorem IsNode.isRead (h : v.IsNode) (hlong : ¬v.Overlong) : v.IsRead := by
  induction h with
  | @object kind members hnamed hslots _ ih =>
      have hnumbered : members.rungs.Numbered := by
        intro m hm
        obtain ⟨n, hindex⟩ := hnamed.exists_rungIndex hm
        by_contra hbig
        have hle : Ladder.maxSlots ≤ n := Nat.le_of_not_lt fun hlt => hbig ⟨n, hlt, hindex⟩
        exact hlong (.here hnamed hm hindex hle)
      refine .named hnamed hnumbered (fun m hm => hslots m (Members.mem_of_mem_lasting hm)) ?_
      intro v hv
      have hread : ¬v.Overlong → v.IsRead := by
        rcases List.mem_append.1 hv with hv | hv
        · exact ih v (List.mem_append_left _ hv)
        · exact ih v (List.mem_append_right _ (Members.entries_lasting_subset hv))
      exact hread fun hdeep => hlong (.inside hnamed hv hdeep)

theorem IsRead.not_overlong (h : v.IsRead) : ¬v.Overlong := by
  induction h with
  | named hnamed hnumbered _ _ ih =>
      intro hlong
      cases hlong with
      | @here _ _ m n _ hm hindex hbig =>
          obtain ⟨n', hlt, hindex'⟩ := hnumbered m hm
          obtain rfl := Option.some.inj (hindex.symm.trans hindex')
          omega
      | @inside _ _ v hnamed' hv hlong =>
          obtain rfl := hnamed.kind_eq hnamed'
          exact ih v hv hlong
  | placed hplaced =>
      intro hlong
      cases hlong with
      | here hnamed => exact hnamed.not_placed hplaced
      | inside hnamed => exact hnamed.not_placed hplaced

/-- The two grammars differ in no other point. -/
theorem isRead_and_not_slips_iff : v.IsRead ∧ ¬v.Slips ↔ v.IsNode ∧ ¬v.Overlong :=
  ⟨fun ⟨hread, hslips⟩ => ⟨hread.isNode hslips, hread.not_overlong⟩,
    fun ⟨hnode, hlong⟩ => ⟨hnode.isRead hlong, hnode.not_slips⟩⟩

end Json
end Comparison
end StrategyTree
