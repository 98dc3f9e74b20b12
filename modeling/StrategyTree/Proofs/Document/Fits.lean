import StrategyTree.Proofs.Document.Node
/-!
# What has been read

Every node that a document gives fits: no slot of it is empty, whether it was missing,
null or an empty list, and its numbers are within their bounds.
-/
namespace StrategyTree.Node

open Outcome

variable {α : Type} {child : Json α → Read (Node α)} {members : Members α} {key : String}

/-- A slot that has been read by a reader of nodes. -/
structure SlotRead (child : Json α → Read (Node α)) (slot : Slot α) : Prop where
  nonempty : slot ≠ []
  entries : ∀ c, some c ∈ slot → ∃ v, child v = .ok c

theorem slotRead_placeholder : SlotRead child .placeholder where
  nonempty := by simp [Slot.placeholder]
  entries c hc := by simp [Slot.placeholder] at hc

theorem slotRead_of_readSlot {v : Json α} {slot : Slot α} (h : readSlot child v = .ok slot) :
    SlotRead child slot := by
  cases v with
  | null =>
      obtain rfl := Except.ok.inj h
      exact slotRead_placeholder
  | array items =>
      obtain ⟨entries, hentries, h⟩ := bind_ok.1 h
      obtain rfl := Except.ok.inj h
      split
      · exact slotRead_placeholder
      · next hnonempty =>
          refine ⟨by simpa using hnonempty, fun c hc => ?_⟩
          obtain ⟨v, -, hv⟩ := mem_of_mapM hentries hc
          exact ⟨v, Json.of_readNullable hv rfl⟩
  | _ => cases h

theorem slotRead_of_slotAt {slot : Slot α} (h : slotAt child members key = .ok slot) :
    SlotRead child slot := by
  rcases Members.of_withDefault h with rfl | ⟨v, hv⟩
  · exact slotRead_placeholder
  · exact slotRead_of_readSlot hv

variable [Arith α]

theorem fits_of_weightingAt {w : Weighting α} (h : weightingAt members key = .ok w) : w.Fits := by
  rcases Members.of_withDefault h with rfl | ⟨v, hv⟩
  · trivial
  · exact (Weighting.roundTrip true).fits hv

/-- A node that has been read, with its children by a reader of nodes. -/
structure ReadBy (child : Json α → Read (Node α)) (n : Node α) : Prop where
  slots : ∀ slot ∈ n.slots, SlotRead child slot
  weightings : ∀ w ∈ n.weightings, w.Fits
  data : n.DataFits

/-- The reading of a fork after its second slot. -/
theorem of_fork {elseSlot : Slot α} {n : Node α} (helse : SlotRead child elseSlot)
    {f : Fork α (Node α) → Read (Node α)} (h : (do
      let thenSlot ← slotAt child members "then"
      let elseWeighting ← weightingAt members "weightingElse"
      let thenWeighting ← weightingAt members "weightingThen"
      f { thenWeighting, elseWeighting, thenSlot, elseSlot }) = .ok n) :
    ∃ fork : Fork α (Node α), (∀ slot ∈ [fork.thenSlot, fork.elseSlot], SlotRead child slot) ∧
      (∀ w ∈ [fork.thenWeighting, fork.elseWeighting], w.Fits) ∧ f fork = .ok n := by
  obtain ⟨thenSlot, hthen, h⟩ := bind_ok.1 h
  obtain ⟨elseWeighting, helseWeighting, h⟩ := bind_ok.1 h
  obtain ⟨thenWeighting, hthenWeighting, h⟩ := bind_ok.1 h
  exact ⟨_, by simpa using ⟨slotRead_of_slotAt hthen, helse⟩,
    by simpa using ⟨fits_of_weightingAt hthenWeighting, fits_of_weightingAt helseWeighting⟩, h⟩

theorem readBy_of_kind {id : String} {kind : Kind} {n : Node α}
    (h : ofKind child id kind members = .ok n) : ReadBy child n := by
  cases kind with
  | basic =>
      obtain ⟨next, hnext, h⟩ := bind_ok.1 h
      obtain ⟨weighting, hweighting, h⟩ := bind_ok.1 h
      obtain rfl := Except.ok.inj h
      exact ⟨by simpa [slots] using slotRead_of_slotAt hnext,
        by simpa [weightings] using fits_of_weightingAt hweighting, trivial⟩
  | function =>
      obtain ⟨count, hcount, h⟩ := bind_ok.1 h
      obtain ⟨metric, -, h⟩ := bind_ok.1 h
      obtain ⟨next, hnext, h⟩ := bind_ok.1 h
      obtain ⟨select, -, h⟩ := bind_ok.1 h
      obtain ⟨weighting, hweighting, h⟩ := bind_ok.1 h
      obtain ⟨window, hwindow, h⟩ := bind_ok.1 h
      obtain ⟨metric', -, h⟩ := bind_ok.1 h
      obtain ⟨count', hcount', h⟩ := bind_ok.1 h
      obtain rfl := Except.ok.inj h
      obtain ⟨v, hv⟩ := Members.of_optional hcount hcount'
      exact ⟨by simpa [slots] using slotRead_of_slotAt hnext,
        by simpa [weightings] using fits_of_weightingAt hweighting,
        Members.isWindow_of_withDefault hwindow, RoundTrip.count.fits hv⟩
  | indicator =>
      obtain ⟨conditions, hconditions, h⟩ := bind_ok.1 h
      obtain ⟨elseSlot, helse, h⟩ := bind_ok.1 h
      obtain ⟨fork, hslots, hweightings, h⟩ := of_fork (slotRead_of_slotAt helse)
        (f := fun fork => do return indicator id (← .required conditions) fork) h
      obtain ⟨conditions', hconditions', h⟩ := bind_ok.1 h
      obtain rfl := Except.ok.inj h
      obtain ⟨v, hv⟩ := Members.of_optional hconditions hconditions'
      exact ⟨hslots, hweightings, (Condition.listRoundTrip true).fits hv⟩
  | numbered =>
      obtain ⟨elseSlot, helse, h⟩ := bind_ok.1 h
      obtain ⟨items, hitems, h⟩ := bind_ok.1 h
      obtain ⟨ladder, hladder, h⟩ := bind_ok.1 h
      obtain ⟨quantifier, hquantifier, h⟩ := bind_ok.1 h
      obtain ⟨fork, hslots, hweightings, h⟩ := of_fork (slotRead_of_slotAt helse)
        (f := fun fork => do
          return numbered id (← .required items) (← .required quantifier) fork ladder) h
      obtain ⟨items', hitems', h⟩ := bind_ok.1 h
      obtain ⟨quantifier', hquantifier', h⟩ := bind_ok.1 h
      obtain rfl := Except.ok.inj h
      obtain ⟨v, hv⟩ := Members.of_optional hitems hitems'
      obtain ⟨w, hw⟩ := Members.of_optional hquantifier hquantifier'
      refine ⟨?_, hweightings, Condition.itemRoundTrip.list.fits hv, Quantifier.roundTrip.fits hw⟩
      have hrungs : ∀ slot ∈ ladder, SlotRead child slot := by
        intro slot hslot
        rcases Members.of_withDefault hladder with rfl | ⟨v, hv⟩
        · cases hslot
        · cases v with
          | array slots =>
              obtain ⟨v, -, hv⟩ := mem_of_mapM hv hslot
              exact slotRead_of_readSlot hv
          | _ => cases hv
      intro slot hslot
      rcases List.mem_append.1 (show slot ∈ [fork.thenSlot, fork.elseSlot] ++ ladder from hslot)
        with hslot | hslot
      · exact hslots slot hslot
      · exact hrungs slot hslot
  | position =>
      obtain ⟨tickers, -, h⟩ := bind_ok.1 h
      obtain rfl := Except.ok.inj h
      exact ⟨by simp [slots], by simp [weightings], trivial⟩
  | call =>
      obtain ⟨chain, -, h⟩ := bind_ok.1 h
      obtain rfl := Except.ok.inj h
      exact ⟨by simp [slots], by simp [weightings], trivial⟩
  | altExit =>
      obtain ⟨elseSlot, helse, h⟩ := bind_ok.1 h
      obtain ⟨entry, hentry, h⟩ := bind_ok.1 h
      obtain ⟨exit, hexit, h⟩ := bind_ok.1 h
      obtain ⟨fork, hslots, hweightings, h⟩ := of_fork (slotRead_of_slotAt helse)
        (f := fun fork => do return altExit id (← .required entry) (← .required exit) fork) h
      obtain ⟨entry', hentry', h⟩ := bind_ok.1 h
      obtain ⟨exit', hexit', h⟩ := bind_ok.1 h
      obtain rfl := Except.ok.inj h
      obtain ⟨v, hv⟩ := Members.of_optional hentry hentry'
      obtain ⟨w, hw⟩ := Members.of_optional hexit hexit'
      exact ⟨hslots, hweightings, (Condition.listRoundTrip true).fits hv,
        (Condition.listRoundTrip true).fits hw⟩
  | scaling =>
      obtain ⟨elseSlot, helse, h⟩ := bind_ok.1 h
      obtain ⟨reading, hreading, h⟩ := bind_ok.1 h
      obtain ⟨lower, -, h⟩ := bind_ok.1 h
      obtain ⟨upper, -, h⟩ := bind_ok.1 h
      obtain ⟨fork, hslots, hweightings, h⟩ := of_fork (slotRead_of_slotAt helse)
        (f := fun fork => do
          return scaling id (← .required reading) (← .required lower) (← .required upper) fork) h
      obtain ⟨reading', hreading', h⟩ := bind_ok.1 h
      obtain ⟨lower', -, h⟩ := bind_ok.1 h
      obtain ⟨upper', -, h⟩ := bind_ok.1 h
      obtain rfl := Except.ok.inj h
      obtain ⟨v, hv⟩ := Members.of_optional hreading hreading'
      exact ⟨hslots, hweightings, (Reading.roundTrip true).fits hv⟩

/-- Whether or not keys are gathered and checked, a node is read by some kind. -/
theorem readBy_of_members {n : Node α} (h : ofMembers child members = .ok n) : ReadBy child n := by
  have hkind {ms : Members α} (h : (do
      let id ← ms.required "id" Json.readText
      let kind ← Read.required ((ms.lookup "kind").bind Kind.ofJson?)
      ofKind child id kind ms) = .ok n) : ReadBy child n := by
    obtain ⟨id, -, h⟩ := bind_ok.1 h
    obtain ⟨kind, -, h⟩ := bind_ok.1 h
    exact readBy_of_kind h
  unfold ofMembers at h
  simp only at h
  split at h <;> obtain ⟨gathered, -, h⟩ := bind_ok.1 h <;> split at h
  · exact hkind (then_ok.1 h).2
  · exact hkind h
  · exact hkind (then_ok.1 h).2
  · exact hkind h

/-- Every node below a node that has been read fits, and so does the node. -/
theorem fits_of_jsonWithin {levels : Nat} {v : Json α} {n : Node α}
    (h : ofJsonWithin levels v = .ok n) : ∀ d ∈ n.walk, d.Fits := by
  induction levels generalizing v n with
  | zero => cases h
  | succ levels ih =>
      cases v with
      | object members =>
          obtain ⟨hslots, hweightings, hdata⟩ := readBy_of_members h
          intro d hd
          rcases mem_walk.1 hd with rfl | ⟨c, hc, hd⟩
          · exact ⟨fun slot hslot => (hslots slot hslot).nonempty, hweightings, hdata⟩
          · obtain ⟨slot, hslot, hentry⟩ := mem_children.1 hc
            obtain ⟨v, hv⟩ := (hslots slot hslot).entries c hentry
            exact ih hv d hd
      | _ => cases h

theorem roundTrip : RoundTrip (α := α) (fun n => ∀ d ∈ n.walk, d.Fits) ofJson toJson where
  back hn := ofJsonWithin_back hn (Nat.le_refl _)
  fits := fits_of_jsonWithin

end StrategyTree.Node
