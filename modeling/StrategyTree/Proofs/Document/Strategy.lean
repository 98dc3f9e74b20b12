import StrategyTree.Binary64
import StrategyTree.Document.Text
import StrategyTree.Proofs.Document.Fits
import StrategyTree.Proofs.Table
/-!
# Documents

A strategy that has been read, from a value or from a text, reads back as it was written.
So writing is a normal form of documents.
-/
namespace StrategyTree.Strategy

open Outcome

variable {α : Type}

/-- Chains that can have been read. -/
def ChainsFit (chains : Table (Node α)) : Prop :=
  ∀ e ∈ chains.entries, ∀ d ∈ e.2.walk, d.Fits

/-- A strategy that can have been read. -/
structure Fits (s : Strategy α) : Prop where
  root : ∀ d ∈ s.root.walk, d.Fits
  chains : ChainsFit s.chains

theorem chainsFit_empty : ChainsFit (α := α) .empty :=
  fun e he => by cases he

variable [Arith α]

/-! ### Values -/

theorem chainsRoundTrip : RoundTrip (α := α) ChainsFit chainsOfJson
    fun chains => .object (chains.map fun _ n => n.toJson).entries where
  back {chains} h := by
    refine bind_ok.2 ⟨chains.entries, ?_, congrArg Except.ok chains.ofList_entries⟩
    change (chains.entries.map fun e => (e.1, e.2.toJson)).mapM _ = _
    rw [mapM_ok, List.forall₂_map_left_iff, List.forall₂_same]
    exact fun e he => bind_ok.2 ⟨e.2, Node.roundTrip.back (h e he), rfl⟩
  fits {v chains} h := by
    cases v with
    | object members =>
        obtain ⟨entries, hentries, h⟩ := bind_ok.1 h
        obtain rfl := Except.ok.inj h
        intro e he
        obtain ⟨m, -, hm⟩ := mem_of_mapM hentries (Table.mem_ofList he)
        obtain ⟨n, hn, h⟩ := bind_ok.1 hm
        obtain rfl := Except.ok.inj h
        exact Node.roundTrip.fits hn
    | _ => cases h

theorem roundTrip : RoundTrip (α := α) Fits ofJson toJson where
  back {s} h := by
    obtain ⟨hroot, hchains⟩ := h
    obtain ⟨name, description, root, chains⟩ := s
    refine bind_ok.2 ⟨chains,
      Members.withDefault_of_lookup rfl (chainsRoundTrip.back hchains), ?_⟩
    refine bind_ok.2 ⟨description, ?description, bind_ok.2 ⟨some name, ?name, bind_ok.2
      ⟨some root, ?root, rfl⟩⟩⟩
    case description =>
      cases description with
      | none => exact Members.withDefault_of_absent rfl
      | some text => exact Members.withDefault_of_lookup rfl rfl
    case name =>
      refine Members.optional_of_lookup (v := .text name) ?_ rfl
      cases description <;> rfl
    case root =>
      refine Members.optional_of_lookup ?_ (Node.roundTrip.back hroot)
      cases description <;> rfl
  fits {v s} h := by
    cases v with
    | object members =>
        obtain ⟨chains, hchains, h⟩ := bind_ok.1 h
        obtain ⟨description, -, h⟩ := bind_ok.1 h
        obtain ⟨name, -, h⟩ := bind_ok.1 h
        obtain ⟨root, hroot, h⟩ := bind_ok.1 h
        obtain ⟨name', -, h⟩ := bind_ok.1 h
        obtain ⟨root', hroot', h⟩ := bind_ok.1 h
        obtain rfl := Except.ok.inj h
        obtain ⟨v, hv⟩ := Members.of_optional hroot hroot'
        refine ⟨Node.roundTrip.fits hv, ?_⟩
        rcases Members.of_withDefault hchains with rfl | ⟨v, hv⟩
        · exact chainsFit_empty
        · exact chainsRoundTrip.fits hv
    | array items =>
        unfold ofJson at h
        split at h
        · cases ‹Json.array items = Json.object _›
        · obtain ⟨name', -, h⟩ := bind_ok.1 h
          obtain ⟨description', -, h⟩ := bind_ok.1 h
          obtain ⟨root', hroot, h⟩ := bind_ok.1 h
          split at h
          · obtain rfl := Except.ok.inj h
            exact ⟨Node.roundTrip.fits hroot, chainsFit_empty⟩
          · obtain ⟨chains, hchains, h⟩ := bind_ok.1 h
            obtain rfl := Except.ok.inj h
            exact ⟨Node.roundTrip.fits hroot, chainsRoundTrip.fits hchains⟩
          · cases h
        · cases h
    | _ => cases h

/-! ### Texts -/

/-- The fields of a document that have been read so far. -/
structure Draft.Fits (d : Draft α) : Prop where
  root : ∀ n, d.root = some n → ∀ x ∈ n.walk, x.Fits
  chains : ∀ t, d.chains = some t → ChainsFit t

omit [Arith α] in
theorem Draft.fits_new : ({} : Draft α).Fits where
  root _ h := by cases h
  chains _ h := by cases h

omit [Arith α] in
theorem Draft.fits_of_complete {d : Draft α} (hd : d.Fits) {s : Strategy α}
    (h : d.complete = .ok s) : s.Fits := by
  obtain ⟨name, -, h⟩ := bind_ok.1 h
  obtain ⟨root, hroot, h⟩ := bind_ok.1 h
  obtain rfl := Except.ok.inj h
  refine ⟨hd.root root (Read.required_ok.1 hroot), ?_⟩
  cases hchains : d.chains with
  | none => exact chainsFit_empty
  | some chains => exact hd.chains chains hchains

namespace Source

theorem of_value {β : Type} {levels : Nat} {read : Json α → Read β} {cs : List Char}
    {r : β × List Char} (h : value levels read cs = .ok r) : ∃ v, read v = .ok r.1 := by
  obtain ⟨⟨v, rest⟩, -, h⟩ := bind_ok.1 h
  obtain ⟨b, hb, h⟩ := bind_ok.1 h
  obtain rfl := Except.ok.inj h
  exact ⟨v, hb⟩

omit [Arith α] in
theorem chainsFit_insert {chains : Table (Node α)} (h : ChainsFit chains) {n : Node α}
    (hn : ∀ d ∈ n.walk, d.Fits) (id : String) : ChainsFit (chains.insert id n) := by
  intro e he
  rcases Table.mem_insert he with rfl | he
  · exact hn
  · exact h e he

theorem chainsFrom_fits {levels fuel : Nat} {chains : Table (Node α)} (hchains : ChainsFit chains)
    {cs : List Char} {r : Table (Node α) × List Char}
    (h : chainsFrom levels fuel chains cs = .ok r) : ChainsFit r.1 := by
  induction fuel generalizing chains cs with
  | zero => cases h
  | succ fuel ih =>
      obtain ⟨⟨id, cs⟩, -, h⟩ := bind_ok.1 h
      obtain ⟨⟨root, cs⟩, hroot, h⟩ := bind_ok.1 h
      obtain ⟨v, hv⟩ := of_value hroot
      have hinsert := chainsFit_insert hchains (Node.roundTrip.fits hv) id
      simp only at h
      split at h
      · exact ih hinsert h
      · obtain rfl := Except.ok.inj h
        exact hinsert
      · cases h

theorem chains_fits {levels : Nat} {cs : List Char} {r : Table (Node α) × List Char}
    (h : chains levels cs = .ok r) : ChainsFit r.1 := by
  unfold chains at h
  split at h
  · split at h
    · obtain rfl := Except.ok.inj h
      exact chainsFit_empty
    · exact chainsFrom_fits chainsFit_empty h
  · cases h

theorem field_fits {levels : Nat} {d : Draft α} (hd : d.Fits) {name : String} {cs : List Char}
    {r : Draft α × List Char} (h : field levels d name cs = .ok r) : r.1.Fits := by
  unfold field at h
  split at h
  · split at h
    · cases h
    · obtain ⟨⟨x, rest⟩, -, h⟩ := bind_ok.1 h
      obtain rfl := Except.ok.inj h
      exact ⟨hd.root, hd.chains⟩
  · split at h
    · cases h
    · obtain ⟨⟨x, rest⟩, -, h⟩ := bind_ok.1 h
      obtain rfl := Except.ok.inj h
      exact ⟨hd.root, hd.chains⟩
  · split at h
    · cases h
    · obtain ⟨⟨root, rest⟩, hroot, h⟩ := bind_ok.1 h
      obtain rfl := Except.ok.inj h
      obtain ⟨v, hv⟩ := of_value hroot
      exact ⟨fun n hn => Option.some.inj hn ▸ Node.roundTrip.fits hv, hd.chains⟩
  · split at h
    · cases h
    · obtain ⟨⟨chains, rest⟩, hchains, h⟩ := bind_ok.1 h
      obtain rfl := Except.ok.inj h
      exact ⟨hd.root, fun t ht => Option.some.inj ht ▸ chains_fits hchains⟩
  · obtain ⟨⟨v, rest⟩, -, h⟩ := bind_ok.1 h
    obtain rfl := Except.ok.inj h
    exact hd

theorem fieldsFrom_fits {levels fuel : Nat} {d : Draft α} (hd : d.Fits) {cs : List Char}
    {r : Draft α × List Char} (h : fieldsFrom levels fuel d cs = .ok r) : r.1.Fits := by
  induction fuel generalizing d cs with
  | zero => cases h
  | succ fuel ih =>
      obtain ⟨⟨name, cs⟩, -, h⟩ := bind_ok.1 h
      obtain ⟨⟨d', cs⟩, hfield, h⟩ := bind_ok.1 h
      have hd' : d'.Fits := field_fits hd hfield
      simp only at h
      split at h
      · exact ih hd' h
      · obtain rfl := Except.ok.inj h
        exact hd'
      · cases h

theorem itemsFrom_fits {levels : Nat} {names : List String} {d : Draft α} (hd : d.Fits)
    {cs : List Char} {r : Draft α × List Char} (h : itemsFrom levels names d cs = .ok r) :
    r.1.Fits := by
  induction names generalizing d cs with
  | nil => cases h
  | cons name names ih =>
      obtain ⟨⟨d', cs⟩, hfield, h⟩ := bind_ok.1 h
      have hd' : d'.Fits := field_fits hd hfield
      simp only at h
      split at h
      · exact ih hd' h
      · obtain rfl := Except.ok.inj h
        exact hd'
      · cases h

theorem document_fits {cs : List Char} {r : Draft α × List Char} (h : document cs = .ok r) :
    r.1.Fits := by
  unfold document at h
  simp only at h
  split at h
  · split at h
    · exact Except.ok.inj h ▸ Draft.fits_new
    · exact fieldsFrom_fits Draft.fits_new h
  · split at h
    · exact Except.ok.inj h ▸ Draft.fits_new
    · exact itemsFrom_fits Draft.fits_new h
  · cases h

end Source

theorem fits_of_text {text : String} {s : Strategy α} (h : ofText text = .ok s) : s.Fits := by
  obtain ⟨⟨d, rest⟩, hdocument, h⟩ := bind_ok.1 h
  obtain ⟨s', hcomplete, h⟩ := bind_ok.1 h
  split at h
  · obtain rfl := Except.ok.inj h
    exact Draft.fits_of_complete (Source.document_fits hdocument) hcomplete
  · cases h

/-- A strategy that has been read, from a text or from a value, reads back as it was written. So
what is read, written and read again is written in the same way. -/
theorem reads_back {s : Strategy α}
    (h : (∃ text, ofText text = .ok s) ∨ ∃ v : Json α, ofJson v = .ok s) :
    ofJson s.toJson = .ok s ∧ toJson <$> ofJson s.toJson = .ok s.toJson := by
  have hs : s.Fits := by
    rcases h with ⟨text, h⟩ | ⟨v, h⟩
    · exact fits_of_text h
    · exact roundTrip.fits h
  have hback := roundTrip.back hs
  exact ⟨hback, map_ok.2 ⟨s, hback, rfl⟩⟩

/-- A ladder whose slots stand alone, the first of them missing. -/
def sampleText : String :=
  "\x7b\"name\":\"m\",\"root\":\x7b\"id\":\"n\",\"kind\":\"numbered\"," ++
  "\"items\":[],\"quantifier\":\x7b\"atMost\":2\x7d," ++
  "\"ladder-1\":[\x7b\"id\":\"p\",\"kind\":\"position\",\"tickers\":[\"SPY\"]\x7d]\x7d\x7d"

theorem sample_reads_back : ∃ s : Strategy Binary64, ofText sampleText = .ok s ∧
    ofJson s.toJson = .ok s := by
  have hread : (ofText (α := Binary64) sampleText).isOk = true := by decide +kernel
  cases h : ofText (α := Binary64) sampleText with
  | ok s => exact ⟨s, rfl, (reads_back (.inl ⟨sampleText, h⟩)).1⟩
  | error fault =>
      rw [h] at hread
      cases hread

end StrategyTree.Strategy
