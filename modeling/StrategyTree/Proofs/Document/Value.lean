import StrategyTree.Document.Value
import StrategyTree.Document.Writer
import StrategyTree.Proofs.Outcome
/-!
# Reading back what is written

A reader and a writer fit together if the reader gives back what the writer was given. A
number in a document has a bound, so there is a condition on what is written; what has
been read satisfies it.
-/
namespace StrategyTree

open Outcome

variable {α β γ : Type}

/-- A reader gives back what a writer was given, as far as that satisfies a condition, and
it gives nothing else. -/
structure RoundTrip (Fits : β → Prop) (read : Json α → Read β) (write : β → Json α) : Prop where
  back {b : β} : Fits b → read (write b) = .ok b
  fits {v : Json α} {b : β} : read v = .ok b → Fits b

theorem Read.required_ok {o : Option β} {b : β} : Read.required o = .ok b ↔ o = some b := by
  cases o with
  | none => exact ⟨(fun h => by cases h), (fun h => by cases h)⟩
  | some x => exact ⟨fun h => congrArg some (Except.ok.inj h), fun h => Option.some.inj h ▸ rfl⟩

/-- A window has 64 bits, one of them for its sign. -/
def Json.IsWindow (n : Int) : Prop :=
  n ≤ Int.pow 2 63 - 1

def Json.IsCount (n : Nat) : Prop :=
  n ≤ Nat.pow 2 64 - 1

namespace RoundTrip

variable {Fits : β → Prop} {read : Json α → Read β} {write : β → Json α}

theorem text : RoundTrip (α := α) (fun _ => True) Json.readText .text where
  back _ := rfl
  fits _ := trivial

theorem number [Arith α] : RoundTrip (α := α) (fun _ => True) Json.readNumber .real where
  back _ := rfl
  fits _ := trivial

theorem window : RoundTrip (α := α) Json.IsWindow Json.readWindow .integer where
  back h := if_pos h
  fits {v n} hv := by
    cases v with
    | integer x =>
        simp only [Json.readWindow, Json.readIntegerTo] at hv
        split at hv
        · next hx => exact Except.ok.inj hv ▸ hx
        · cases hv
    | _ => cases hv

theorem countTo (limit : Nat) :
    RoundTrip (α := α) (· ≤ limit) (Json.readCountTo limit) .ofNat where
  back h := if_pos h
  fits {v n} hv := by
    simp only [Json.readCountTo] at hv
    split at hv
    · split at hv
      · next hx => exact Except.ok.inj hv ▸ hx
      · cases hv
    · cases hv

theorem count : RoundTrip (α := α) Json.IsCount Json.readCount .ofNat :=
  countTo _

/-- A variant without content is written as its name. -/
theorem unit {ofName? : String → Option β} {name : β → String} (loose : Bool)
    (h : ∀ b, ofName? (name b) = some b) :
    RoundTrip (α := α) (fun _ => True) (Json.readUnit loose ofName?) fun b => .text (name b) where
  back {b} _ := Read.required_ok.2 (h b)
  fits _ := trivial

theorem list (h : RoundTrip Fits read write) : RoundTrip (fun bs => ∀ b ∈ bs, Fits b)
    (Json.readList read) fun bs => .array (bs.map write) where
  back {bs} hbs := by
    change (bs.map write).mapM read = .ok bs
    rw [mapM_ok, List.forall₂_map_left_iff, List.forall₂_same]
    exact fun b hb => h.back (hbs b hb)
  fits {v bs} hv := by
    cases v with
    | array items =>
        intro b hb
        obtain ⟨v, -, hv⟩ := mem_of_mapM hv hb
        exact h.fits hv
    | _ => cases hv

end RoundTrip

theorem Json.of_readUnit {ofName? : String → Option β} {loose : Bool} {v : Json α} {b : β}
    (h : Json.readUnit loose ofName? v = .ok b) : ∃ name, ofName? name = some b := by
  obtain ⟨variant, -, h⟩ := bind_ok.1 h
  split at h
  · exact ⟨_, Read.required_ok.1 h⟩
  · exact ⟨_, Read.required_ok.1 h⟩
  · split at h
    · exact ⟨_, Read.required_ok.1 h⟩
    · cases h
  · cases h

theorem Json.readNullable_of_ne {read : Json α → Read β} {v : Json α} {b : β} (hv : v ≠ .null)
    (h : read v = .ok b) : Json.readNullable read v = .ok (some b) := by
  cases v with
  | null => exact absurd rfl hv
  | _ => exact map_ok.2 ⟨b, h, rfl⟩

theorem Json.of_readNullable {read : Json α → Read β} {v : Json α} {o : Option β} {b : β}
    (h : Json.readNullable read v = .ok o) (hb : o = some b) : read v = .ok b := by
  subst hb
  cases v with
  | null => cases h
  | _ =>
      obtain ⟨c, hc, hsome⟩ := map_ok.1 h
      exact Option.some.inj hsome ▸ hc

theorem Json.nesting_le_of_mem {items : List (Json α)} {v : Json α} (h : v ∈ items) :
    v.nesting ≤ (Json.array items).nesting := by
  change v.nesting ≤ Json.nestingItems items
  induction items with
  | nil => cases h
  | cons first rest ih =>
      rw [Json.nestingItems]
      rcases List.mem_cons.1 h with rfl | h
      · exact Nat.le_max_left _ _
      · exact Nat.le_trans (ih h) (Nat.le_max_right _ _)

theorem Json.nesting_array_lt {items : List (Json α)} {bound : Nat}
    (h : ∀ v ∈ items, v.nesting < bound + 1) : (Json.array items).nesting < bound + 1 := by
  change Json.nestingItems items < bound + 1
  induction items with
  | nil => exact Nat.succ_pos bound
  | cons v rest ih =>
      rw [Json.nestingItems]
      obtain ⟨hv, hrest⟩ := List.forall_mem_cons.1 h
      exact Nat.max_lt.2 ⟨hv, ih hrest⟩

theorem Json.nesting_lt_of_mem {members : Members α} (key : String) {v : Json α}
    (h : (key, v) ∈ members) : v.nesting < (Json.object members).nesting := by
  change v.nesting < Json.nestingMembers members + 1
  rw [Nat.lt_succ_iff]
  induction members with
  | nil => cases h
  | cons first rest ih =>
      rw [Json.nestingMembers]
      rcases List.mem_cons.1 h with rfl | h
      · exact Nat.le_max_left _ _
      · exact Nat.le_trans (ih h) (Nat.le_max_right _ _)

/-! ### Members -/

namespace Members

variable {Fits : β → Prop} {read : Json α → Read β} {write : β → Json α} {members : Members α}
  {key : String} {v : Json α} {b default : β}

theorem optional_of_lookup (h : members.lookup key = some v) (hv : read v = .ok b) :
    Members.optional members key read = .ok (some b) := by
  rw [optional, h]
  exact map_ok.2 ⟨b, hv, rfl⟩

theorem required_of_lookup (h : members.lookup key = some v) (hv : read v = .ok b) :
    Members.required members key read = .ok b :=
  bind_ok.2 ⟨some b, optional_of_lookup h hv, rfl⟩

theorem withDefault_of_lookup (h : members.lookup key = some v) (hv : read v = .ok b) :
    Members.withDefault members key read default = .ok b :=
  bind_ok.2 ⟨some b, optional_of_lookup h hv, rfl⟩

theorem succeeds_optional : Succeeds (Members.optional members key read) ↔
    ∀ v, members.lookup key = some v → Succeeds (read v) := by
  unfold Members.optional
  cases members.lookup key with
  | none => simp
  | some v => simp [succeeds_map]

theorem succeeds_withDefault : Succeeds (Members.withDefault members key read default) ↔
    Succeeds (Members.optional members key read) := by
  rw [withDefault, succeeds_bind_of fun _ => iff_of_true (succeeds_pure _) trivial, and_true]

theorem required_ok : Members.required members key read = .ok b ↔
    Members.optional members key read = .ok (some b) := by
  simp [required, bind_ok, Read.required_ok]

theorem optional_ok_some : Members.optional members key read = .ok (some b) ↔
    ∃ v, members.lookup key = some v ∧ read v = .ok b := by
  unfold Members.optional
  cases members.lookup key with
  | none => simp
  | some v => simp [map_ok]

theorem withDefault_of_absent (h : members.lookup key = none) :
    Members.withDefault members key read default = .ok default := by
  rw [withDefault, optional, h]
  rfl

/-- What is read at a key is what is read from some value. -/
theorem of_optional {o : Option β} (h : Members.optional members key read = .ok o)
    (hb : Read.required o = .ok b) : ∃ v, read v = .ok b := by
  obtain rfl := Read.required_ok.1 hb
  rw [optional] at h
  split at h
  · next v _ =>
      obtain ⟨c, hc, hsome⟩ := map_ok.1 h
      exact ⟨v, Option.some.inj hsome ▸ hc⟩
  · cases h

theorem of_required (h : Members.required members key read = .ok b) : ∃ v, read v = .ok b := by
  obtain ⟨o, ho, h⟩ := bind_ok.1 h
  exact of_optional ho h

theorem of_withDefault (h : Members.withDefault members key read default = .ok b) :
    b = default ∨ ∃ v, read v = .ok b := by
  obtain ⟨o, ho, h⟩ := bind_ok.1 h
  cases o with
  | none => exact .inl (Except.ok.inj h).symm
  | some x => exact .inr (of_optional ho h)

theorem isWindow_of_withDefault {window : Int}
    (h : Members.withDefault members key Json.readWindow 0 = .ok window) :
    Json.IsWindow window := by
  rcases of_withDefault h with rfl | ⟨v, hv⟩
  · exact (by decide : (0 : Int) ≤ Int.pow 2 63 - 1)
  · exact RoundTrip.window.fits hv

section Congr
variable {members' : Members α}

theorem optional_congr (h : members.lookup key = members'.lookup key) (read : Json α → Read β) :
    Members.optional members key read = Members.optional members' key read := by
  rw [optional, optional, h]

/-- A reader that does not tell related values apart finds the same at a key. -/
theorem optional_alike {R : Json α → Json α → Prop}
    (hread : ∀ v v', R v v' → read v = read v')
    (h : Option.Rel R (members.lookup key) (members'.lookup key)) :
    Members.optional members key read = Members.optional members' key read := by
  unfold optional
  generalize members.lookup key = v at h ⊢
  generalize members'.lookup key = v' at h ⊢
  cases h with
  | none => rfl
  | some h => simp only [hread _ _ h]

theorem withDefault_congr (h : members.lookup key = members'.lookup key) (read : Json α → Read β)
    (default : β) :
    Members.withDefault members key read default = Members.withDefault members' key read default := by
  rw [withDefault, withDefault, optional_congr h]

theorem required_congr (h : members.lookup key = members'.lookup key) (read : Json α → Read β) :
    Members.required members key read = Members.required members' key read := by
  rw [required, required, optional_congr h]

/-- A default that is what some value reads as stands for this value. -/
theorem withDefault_eq (h : read v = .ok default) :
    Members.withDefault members key read default = read ((members.lookup key).getD v) := by
  rw [withDefault, optional]
  cases members.lookup key with
  | none => exact h.symm
  | some w =>
      change (do return (← some <$> read w).getD default) = read w
      cases read w <;> rfl

end Congr

end Members
end StrategyTree
