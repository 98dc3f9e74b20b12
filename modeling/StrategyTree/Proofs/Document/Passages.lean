import StrategyTree.Binary64
import StrategyTree.Document.Text
import StrategyTree.Proofs.Document.Stops
/-!
# Values in a text

The text of a document is read from the left, and what a reader leaves of a text is an end of it.
So whatever is read of a document stands somewhere in its text.
-/
namespace StrategyTree

variable {α β γ : Type}

namespace Json

/-! ### What is left of a text -/

/-- What a reader leaves is an end of the text. -/
def Leaves (cs : List Char) (x : Option (β × List Char)) : Prop :=
  ∀ r, x = some r → r.2 <:+ cs

section Leaves
variable {cs cs' : List Char} {x : Option (β × List Char)}

@[simp] theorem leaves_none : Leaves cs (none : Option (β × List Char)) := by
  rintro r ⟨⟩

@[simp] theorem leaves_some {r : β × List Char} : Leaves cs (some r) ↔ r.2 <:+ cs := by
  simp [Leaves]

theorem leaves_bind {x : Option γ} {f : γ → Option (β × List Char)} :
    Leaves cs (x >>= f) ↔ ∀ c, x = some c → Leaves cs (f c) := by
  cases x <;> simp

theorem Leaves.mono (h : Leaves cs x) (hsuffix : cs <:+ cs') : Leaves cs' x :=
  fun r hr => (h r hr).trans hsuffix

theorem Leaves.map (h : Leaves cs x) (f : β → γ) : Leaves cs (x.map fun r => (f r.1, r.2)) := by
  cases x with
  | none => exact leaves_none
  | some r => exact leaves_some.2 (h r rfl)

/-- A reader goes on with what another has left. -/
theorem Leaves.bind (h : Leaves cs x) {f : β × List Char → Option (γ × List Char)}
    (hf : ∀ r, Leaves r.2 (f r)) : Leaves cs (x >>= f) :=
  leaves_bind.2 fun r hr => (hf r).mono (h r hr)

end Leaves

/-- What has been read is put together with more. -/
theorem Leaves.read {cs : List Char} {x : Option (β × List Char)} (h : Leaves cs x)
    (f : β × List Char → γ) : Leaves cs (x >>= fun r => some (f r, r.2)) :=
  h.bind fun r => leaves_some.2 (List.suffix_refl r.2)

theorem dropSpace_suffix (cs : List Char) : dropSpace cs <:+ cs :=
  List.dropWhile_suffix isSpace

/-- What follows the first character after blanks. -/
theorem suffix_of_dropSpace {cs rest : List Char} {c : Char} (h : dropSpace cs = c :: rest) :
    rest <:+ cs := by
  have hcons : c :: rest <:+ cs := h ▸ dropSpace_suffix cs
  exact (List.suffix_cons c rest).trans hcons

theorem readWord?_suffix {word cs rest : List Char} (h : readWord? word cs = some rest) :
    rest <:+ cs := by
  fun_induction readWord? word cs with
  | case1 cs => exact Option.some.inj h ▸ List.suffix_refl cs
  | case2 word d cs ih => exact (ih h).trans (List.suffix_cons d cs)
  | case3 => cases h
  | case4 => cases h

theorem leaves_readString? (purpose : Purpose) (cs : List Char) :
    Leaves cs (readString? purpose cs) := by
  fun_induction readString? purpose cs with
  | case1 rest => exact leaves_some.2 (List.suffix_cons _ _)
  | case2 a b c d rest ih ihLow =>
      have hrest : rest <:+ '\\' :: 'u' :: a :: b :: c :: d :: rest :=
        ⟨['\\', 'u', a, b, c, d], rfl⟩
      refine leaves_bind.2 fun unit _ => ?_
      split
      · exact ih.mono hrest
      · split
        · split
          · next e f g h rest =>
              have hlow : rest <:+ '\\' :: 'u' :: e :: f :: g :: h :: rest :=
                ⟨['\\', 'u', e, f, g, h], rfl⟩
              refine leaves_bind.2 fun low _ => ?_
              split
              · exact ((ihLow.mono hlow).mono hrest).read _
              · exact leaves_none
          · exact leaves_none
        · split
          · exact leaves_none
          · exact (ih.mono hrest).read _
  | case3 c rest _ ih =>
      have hrest : rest <:+ '\\' :: c :: rest := ⟨['\\', c], rfl⟩
      refine leaves_bind.2 fun escaped _ => ?_
      exact (ih.mono hrest).read _
  | case4 => exact leaves_none
  | case5 c rest _ _ _ _ ih => exact (ih.mono (List.suffix_cons c rest)).read _
  | case6 => exact leaves_none

theorem leaves_readQuoted? (purpose : Purpose) (cs : List Char) :
    Leaves cs (readQuoted? purpose cs) := by
  unfold readQuoted?
  split
  · next rest => exact ((leaves_readString? purpose rest).mono (List.suffix_cons _ _)).map _
  · exact leaves_none

theorem readColon?_suffix {cs rest : List Char} (h : readColon? cs = some rest) : rest <:+ cs := by
  unfold readColon? at h
  split at h
  · next heq => exact Option.some.inj h ▸ suffix_of_dropSpace heq
  · cases h

/-! ### Numbers -/

theorem splitDigits_suffix (cs : List Char) : (Decimal.splitDigits cs).2 <:+ cs :=
  List.dropWhile_suffix Char.isDigit

theorem leaves_readFraction? (cs : List Char) : Leaves cs (Numeral.readFraction? cs) := by
  unfold Numeral.readFraction?
  split
  · next rest =>
      have hrest := (splitDigits_suffix rest).trans (List.suffix_cons '.' rest)
      dsimp only
      split
      · exact leaves_none
      · exact leaves_some.2 hrest
  · exact leaves_some.2 (List.suffix_refl _)

theorem exponentSign_suffix (cs : List Char) : (Numeral.exponentSign cs).2 <:+ cs := by
  unfold Numeral.exponentSign
  split
  · exact List.suffix_cons _ _
  · exact List.suffix_cons _ _
  · exact List.suffix_refl _

theorem leaves_readExponent? (cs : List Char) : Leaves cs (Numeral.readExponent? cs) := by
  unfold Numeral.readExponent?
  split
  · next c rest =>
      have hrest := ((splitDigits_suffix _).trans (exponentSign_suffix rest)).trans
        (List.suffix_cons c rest)
      split
      · dsimp only
        split
        · exact leaves_none
        · exact leaves_some.2 hrest
      · exact leaves_some.2 (List.suffix_refl _)
  · exact leaves_some.2 (List.suffix_refl _)

theorem leaves_numeral (cs : List Char) : Leaves cs (Numeral.read? cs) := by
  unfold Numeral.read?
  split
  next negative unsigned hsign =>
    have hunsigned : unsigned <:+ cs := by
      split at hsign
      · obtain ⟨-, rfl⟩ := Prod.mk.inj hsign
        exact List.suffix_cons _ _
      · obtain ⟨-, rfl⟩ := Prod.mk.inj hsign
        exact List.suffix_refl _
    have hdigits := (splitDigits_suffix unsigned).trans hunsigned
    dsimp only
    split
    · exact leaves_none
    · refine ((leaves_readFraction? _).mono hdigits).bind fun fraction => ?_
      exact (leaves_readExponent? _).read _

variable [Arith α]

theorem leaves_readNumber? (purpose : Purpose) (cs : List Char) :
    Leaves cs (readNumber? (α := α) purpose cs) := by
  unfold readNumber?
  refine (leaves_numeral cs).bind fun r => ?_
  dsimp only
  split
  · exact leaves_some.2 (List.suffix_refl _)
  · cases r.1.value? (α := α) with
    | none => exact leaves_none
    | some v => exact leaves_some.2 (List.suffix_refl _)

/-! ### Values -/

/-- With some fuel, the readers of a value, of items and of members leave an end of the text. -/
structure LeaveEnds (α : Type) [Arith α] (purpose : Purpose) (fuel : Nat) : Prop where
  value (levels : Nat) (cs : List Char) : Leaves cs (readValue? (α := α) purpose fuel levels cs)
  items (levels : Nat) (cs : List Char) : Leaves cs (readItems? (α := α) purpose fuel levels cs)
  members (levels : Nat) (cs : List Char) :
    Leaves cs (readMembers? (α := α) purpose fuel levels cs)

variable {purpose : Purpose} {fuel : Nat}

theorem LeaveEnds.value_succ (h : LeaveEnds α purpose fuel) (levels : Nat) (cs : List Char) :
    Leaves cs (readValue? (α := α) purpose (fuel + 1) levels cs) := by
  rw [readValue?]
  have hword {word rest : List Char} {c : Char} (v : Json α) (hstart : dropSpace cs = c :: rest) :
      Leaves cs ((readWord? word rest).map fun r => (v, r)) := by
    intro r hr
    obtain ⟨left, hleft, rfl⟩ := Option.map_eq_some_iff.1 hr
    exact (readWord?_suffix hleft).trans (suffix_of_dropSpace hstart)
  split
  · exact leaves_none
  · next hstart => exact hword .null hstart
  · next hstart => exact hword (.bool true) hstart
  · next hstart => exact hword (.bool false) hstart
  · next rest hstart =>
      exact ((leaves_readString? purpose rest).mono (suffix_of_dropSpace hstart)).map fun cs =>
        Json.text (String.ofList cs)
  · next rest hstart =>
      split
      · exact leaves_none
      · refine Leaves.mono ?_ (suffix_of_dropSpace hstart)
        split
        · next hclose => exact leaves_some.2 (suffix_of_dropSpace hclose)
        · exact ((h.items (levels - 1) _).mono (dropSpace_suffix rest)).map Json.array
  · next rest hstart =>
      split
      · exact leaves_none
      · refine Leaves.mono ?_ (suffix_of_dropSpace hstart)
        split
        · next hclose => exact leaves_some.2 (suffix_of_dropSpace hclose)
        · exact ((h.members (levels - 1) _).mono (dropSpace_suffix rest)).map ofMembers
  · exact (leaves_readNumber? purpose _).mono (dropSpace_suffix cs)

theorem LeaveEnds.items_succ (h : LeaveEnds α purpose fuel) (levels : Nat) (cs : List Char) :
    Leaves cs (readItems? (α := α) purpose (fuel + 1) levels cs) := by
  rw [readItems?]
  refine (h.value levels cs).bind fun r => ?_
  dsimp only
  split
  · next hclose => exact leaves_some.2 (suffix_of_dropSpace hclose)
  · next hcomma => exact ((h.items levels _).mono (suffix_of_dropSpace hcomma)).read _
  · exact leaves_none

theorem LeaveEnds.members_succ (h : LeaveEnds α purpose fuel) (levels : Nat) (cs : List Char) :
    Leaves cs (readMembers? (α := α) purpose (fuel + 1) levels cs) := by
  rw [readMembers?]
  refine ((leaves_readQuoted? purpose _).mono (dropSpace_suffix cs)).bind fun key => ?_
  refine leaves_bind.2 fun afterColon hcolon => ?_
  refine Leaves.mono ?_ (readColon?_suffix hcolon)
  refine (h.value levels afterColon).bind fun r => ?_
  dsimp only
  split
  · next hclose => exact leaves_some.2 (suffix_of_dropSpace hclose)
  · next hcomma => exact ((h.members levels _).mono (suffix_of_dropSpace hcomma)).read _
  · exact leaves_none

theorem leaveEnds (purpose : Purpose) (fuel : Nat) : LeaveEnds α purpose fuel := by
  induction fuel with
  | zero => exact ⟨fun _ _ => leaves_none, fun _ _ => leaves_none, fun _ _ => leaves_none⟩
  | succ fuel ih => exact ⟨ih.value_succ, ih.items_succ, ih.members_succ⟩

theorem leaves_read? (purpose : Purpose) (levels : Nat) (cs : List Char) :
    Leaves cs (read? (α := α) purpose levels cs) :=
  (leaveEnds purpose _).value levels cs

/-- A value stands somewhere in a text. -/
def StandsIn (cs : List Char) (v : Json α) : Prop :=
  ∃ levels tail rest, tail <:+ cs ∧ read? .keep levels tail = some (v, rest)

theorem StandsIn.mono {cs cs' : List Char} {v : Json α} (h : v.StandsIn cs) (hsuffix : cs <:+ cs') :
    v.StandsIn cs' := by
  obtain ⟨levels, tail, rest, htail, hread⟩ := h
  exact ⟨levels, tail, rest, htail.trans hsuffix, hread⟩

end Json

/-! ### Documents -/

namespace Strategy.Source

open Json (StandsIn)
open Read (StopsAt)

variable [Arith α]

/-- A value in a text asks for more slots than can be built. -/
def AsksTooMuch (α : Type) [Arith α] (cs : List Char) (key : String) : Prop :=
  ∃ v : Json α, v.StandsIn cs ∧ v.AsksTooMuch key

/-- A reader leaves an end of a text, and stops only for a value in it. -/
structure Reads (α : Type) [Arith α] (cs : List Char) (x : Read (β × List Char)) : Prop where
  leaves : ∀ r, x = .ok r → r.2 <:+ cs
  stops : StopsAt (AsksTooMuch α cs) x

section Reads
variable {cs cs' : List Char} {x : Read (β × List Char)}

theorem reads_malformed : Reads α cs (.malformed : Read (β × List Char)) :=
  ⟨(by rintro r ⟨⟩), Read.stopsAt_malformed⟩

theorem reads_ok {r : β × List Char} (h : r.2 <:+ cs) : Reads α cs (.ok r) :=
  ⟨fun _ hr => Except.ok.inj hr ▸ h, Read.stopsAt_ok r⟩

theorem Reads.mono (h : Reads α cs x) (hsuffix : cs <:+ cs') : Reads α cs' x where
  leaves r hr := (h.leaves r hr).trans hsuffix
  stops key hstop := by
    obtain ⟨v, hv, hasks⟩ := h.stops key hstop
    exact ⟨v, hv.mono hsuffix, hasks⟩

/-- A reader goes on with what another has left. -/
theorem Reads.bind (h : Reads α cs x) {f : β × List Char → Read (γ × List Char)}
    (hf : ∀ r, Reads α r.2 (f r)) : Reads α cs (x >>= f) where
  leaves c hc := by
    obtain ⟨r, hr, hc⟩ := Outcome.bind_ok.1 hc
    exact ((hf r).leaves c hc).trans (h.leaves r hr)
  stops := Read.stopsAt_bind.2 ⟨h.stops, fun r hr => ((hf r).mono (h.leaves r hr)).stops⟩

/-- What has been read is put together with more. -/
theorem Reads.kept (h : Reads α cs x) (f : β → γ) :
    Reads α cs (x >>= fun r => pure (f r.1, r.2)) :=
  h.bind fun r => reads_ok (List.suffix_refl r.2)

theorem reads_required {o : Option (β × List Char)} (h : Json.Leaves cs o) :
    Reads α cs (.required o) where
  leaves r hr := h r (Read.required_ok.1 hr)
  stops := Read.stopsAt_required o

end Reads

theorem reads_value (levels : Nat) {read : Json α → Read β}
    (h : ∀ v, StopsAt (fun key => v.AsksTooMuch key) (read v)) (cs : List Char) :
    Reads α cs (value levels read cs) where
  leaves r hr := by
    obtain ⟨⟨v, rest⟩, hread, hr⟩ := Outcome.bind_ok.1 hr
    obtain ⟨b, -, hr⟩ := Outcome.bind_ok.1 hr
    obtain rfl := Except.ok.inj hr
    exact Json.leaves_read? .keep levels cs (v, rest) (Read.required_ok.1 hread)
  stops := by
    refine Read.stopsAt_bind.2 ⟨Read.stopsAt_required _, fun r hread => ?_⟩
    refine Read.stopsAt_bind.2 ⟨fun key hstop => ?_, fun b _ => Read.stopsAt_pure _⟩
    have hstands : r.1.StandsIn cs :=
      ⟨levels, cs, r.2, List.suffix_refl cs, Read.required_ok.1 hread⟩
    exact ⟨r.1, hstands, h r.1 key hstop⟩

theorem reads_key (cs : List Char) : Reads α cs (key cs) := by
  have hquoted := (Json.leaves_readQuoted? .keep _).mono (Json.dropSpace_suffix cs)
  refine (reads_required hquoted).bind fun r => ⟨fun s hs => ?_, ?_⟩
  · obtain ⟨rest, hcolon, hs⟩ := Outcome.bind_ok.1 hs
    obtain rfl := Except.ok.inj hs
    exact Json.readColon?_suffix (Read.required_ok.1 hcolon)
  · simp

/-! #### Fields -/

theorem reads_chainsFrom (levels fuel : Nat) (chains : Table (Node α)) (cs : List Char) :
    Reads α cs (chainsFrom levels fuel chains cs) := by
  induction fuel generalizing chains cs with
  | zero => exact reads_malformed
  | succ fuel ih =>
      rw [chainsFrom]
      refine (reads_key cs).bind fun id => ?_
      refine (reads_value levels Node.stopsAt_ofJson id.2).bind fun root => ?_
      dsimp only
      split
      · next hcomma => exact (ih _ _).mono (Json.suffix_of_dropSpace hcomma)
      · next hclose => exact reads_ok (Json.suffix_of_dropSpace hclose)
      · exact reads_malformed

theorem reads_chains (levels : Nat) (cs : List Char) : Reads α cs (chains (α := α) levels cs) := by
  unfold chains
  split
  · next rest hopen =>
      refine Reads.mono ?_ (Json.suffix_of_dropSpace hopen)
      split
      · next hclose => exact reads_ok (Json.suffix_of_dropSpace hclose)
      · exact (reads_chainsFrom _ _ _ _).mono (Json.dropSpace_suffix rest)
  · exact reads_malformed

/-- A field that has been read is refused the second time. -/
theorem reads_once {cs : List Char} {x : Read (β × List Char)} (h : Reads α cs x)
    {taken : Bool} : Reads α cs (do
      if taken then .malformed
      x) := by
  cases taken with
  | false => exact h
  | true => exact reads_malformed

theorem reads_field (levels : Nat) (d : Draft α) (name : String) (cs : List Char) :
    Reads α cs (field levels d name cs) := by
  unfold field
  split
  · have hname : Reads α cs (value (α := α) levels Json.readText cs) :=
      reads_value levels (fun _ => Json.stopsAt_readText) cs
    exact reads_once (hname.kept fun x => { d with name := some x })
  · have hdescription :
        Reads α cs (value (α := α) levels (Json.readNullable Json.readText) cs) :=
      reads_value levels (fun _ => Json.stopsAt_readNullable Json.stopsAt_readText) cs
    exact reads_once (hdescription.kept fun x => { d with description := some x })
  · have hroot : Reads α cs (value levels Node.ofJson cs) :=
      reads_value levels Node.stopsAt_ofJson cs
    exact reads_once (hroot.kept fun x => { d with root := some x })
  · exact reads_once ((reads_chains levels cs).kept fun x => { d with chains := some x })
  · have hskipped := Json.leaves_read? (α := α) .skip levels cs
    exact (reads_required hskipped).kept fun _ => d

theorem reads_fieldsFrom (levels fuel : Nat) (d : Draft α) (cs : List Char) :
    Reads α cs (fieldsFrom levels fuel d cs) := by
  induction fuel generalizing d cs with
  | zero => exact reads_malformed
  | succ fuel ih =>
      rw [fieldsFrom]
      refine (reads_key cs).bind fun name => ?_
      refine (reads_field levels d name.1 name.2).bind fun next => ?_
      dsimp only
      split
      · next hcomma => exact (ih _ _).mono (Json.suffix_of_dropSpace hcomma)
      · next hclose => exact reads_ok (Json.suffix_of_dropSpace hclose)
      · exact reads_malformed

theorem reads_itemsFrom (levels : Nat) (names : List String) (d : Draft α) (cs : List Char) :
    Reads α cs (itemsFrom levels names d cs) := by
  induction names generalizing d cs with
  | nil => exact reads_malformed
  | cons name names ih =>
      rw [itemsFrom]
      refine (reads_field levels d name cs).bind fun next => ?_
      dsimp only
      split
      · next hcomma => exact (ih _ _).mono (Json.suffix_of_dropSpace hcomma)
      · next hclose => exact reads_ok (Json.suffix_of_dropSpace hclose)
      · exact reads_malformed

theorem reads_document (cs : List Char) : Reads α cs (document (α := α) cs) := by
  unfold document
  dsimp only
  split
  · next rest hopen =>
      refine Reads.mono ?_ (Json.suffix_of_dropSpace hopen)
      split
      · next hclose => exact reads_ok (Json.suffix_of_dropSpace hclose)
      · exact (reads_fieldsFrom _ _ _ _).mono (Json.dropSpace_suffix rest)
  · next rest hopen =>
      refine Reads.mono ?_ (Json.suffix_of_dropSpace hopen)
      split
      · next hclose => exact reads_ok (Json.suffix_of_dropSpace hclose)
      · exact (reads_itemsFrom _ _ _ _).mono (Json.dropSpace_suffix rest)
  · exact reads_malformed

end Strategy.Source

namespace Strategy
variable [Arith α]

theorem stopsAt_ofText (text : String) :
    Read.StopsAt (Source.AsksTooMuch α text.toList) (ofText (α := α) text) := by
  unfold ofText
  refine Read.stopsAt_bind.2 ⟨(Source.reads_document text.toList).stops, fun r _ => ?_⟩
  have hcomplete : Read.StopsAt (Source.AsksTooMuch α text.toList) r.1.complete := by
    simp [Draft.complete]
  refine Read.stopsAt_bind.2 ⟨hcomplete, fun strategy _ => ?_⟩
  split <;> simp

/-- How the reading of a text ends: with a strategy, with a fault that is told, or at a ladder key
of the text with too large a number, where the program stops. -/
inductive ReadingEnds (α : Type) [Arith α] (text : String) : Prop
  | read {s : Strategy α} : ofText text = .ok s → ReadingEnds α text
  | refused {fault : DocumentFault} : (∀ key, fault ≠ .ladderTooLong key) →
      (ofText (α := α) text).mapError Failure.treeParse = .error (.treeParse fault) →
      ReadingEnds α text
  | stopped {key : String} {v : Json α} : ofText (α := α) text = .error (.ladderTooLong key) →
      v.StandsIn text.toList → v.AsksTooMuch key → ReadingEnds α text

theorem readingEnds (text : String) : ReadingEnds α text := by
  cases h : ofText (α := α) text with
  | ok s => exact .read h
  | error fault =>
      by_cases hstop : ∃ key, fault = .ladderTooLong key
      · obtain ⟨key, rfl⟩ := hstop
        obtain ⟨v, hv, hasks⟩ := stopsAt_ofText text key h
        exact .stopped h hv hasks
      · refine .refused (fun key hkey => hstop ⟨key, hkey⟩) ?_
        rw [h]
        rfl

/-- Numbers of slots that can be built never stop the program. Gathering the ladder keys of an
object stops exactly at the first key of no such slot, if that has a number: at the addition or
at the resizing, and never at the assignment, as the addition is checked. What a reader tells is
what the steps come to, and a text is read or refused unless there is such a key in it. -/
theorem reading_stops_only_for_long_ladders :
    (∀ (members : Members α) (key : String) (stop : Ladder.Stop),
      Ladder.gatherSteps members = .error (.stopped key stop) ↔
        members.lookup "ladder" = none ∧ ∃ v index,
          members.rungs.find? (fun m => !Ladder.builds m.1) = some (key, v) ∧
          Ladder.rungIndex? key = some index ∧ Ladder.maxSlots ≤ index ∧
          stop = Ladder.stopAt index) ∧
    (∀ members : Members α,
      Ladder.gather members = (Ladder.gatherSteps members).mapError Ladder.Ending.fault) ∧
    ∀ text, ReadingEnds α text :=
  ⟨fun _ _ _ => Ladder.gatherSteps_stopped_iff, Ladder.gather_eq_gatherSteps, readingEnds⟩

/-! ### A sample -/

/-- A numbered object with a slot of the largest number. -/
def sampleLongest : Members Binary64 :=
  [("id", .text "n"), ("items", .array [.object [("conditions", .array [])]]),
    ("kind", .text "numbered"), ("ladder-18446744073709551615", .array []),
    ("quantifier", .text "ladder")]

/-- A document with such an object. -/
def sampleLongestText : String :=
  "\x7b\"name\":\"s\",\"root\":\x7b\"id\":\"n\",\"kind\":\"numbered\"," ++
    "\"items\":[\x7b\"conditions\":[]\x7d],\"quantifier\":\"ladder\"," ++
    "\"ladder-18446744073709551615\":[]\x7d\x7d"

/-- The number of the slot has 64 bits and one more has not. So the object is neither gathered
nor refused, and neither is the document with it. -/
theorem sampleLongest_stops :
    Ladder.gatherSteps sampleLongest =
      .error (.stopped "ladder-18446744073709551615" .addition) ∧
    ofText (α := Binary64) sampleLongestText =
      .error (.ladderTooLong "ladder-18446744073709551615") := by
  constructor
  · have hfirst : (sampleLongest.rungs.find? fun m => !Ladder.builds m.1).map Prod.fst =
        some "ladder-18446744073709551615" := by decide +kernel
    obtain ⟨⟨key, v⟩, hfind, rfl⟩ := Option.map_eq_some_iff.1 hfirst
    refine Ladder.gatherSteps_stopped_iff.2 ⟨by decide +kernel, v, 18446744073709551615, hfind, ?_⟩
    decide +kernel
  · have hstop : (fun _ => ()) <$> ofText (α := Binary64) sampleLongestText =
        .error (.ladderTooLong "ladder-18446744073709551615") := by decide +kernel
    cases h : ofText (α := Binary64) sampleLongestText with
    | ok s =>
        rw [h] at hstop
        cases hstop
    | error fault =>
        rw [h] at hstop
        exact congrArg Except.error (Except.error.inj hstop)

end Strategy
end StrategyTree
