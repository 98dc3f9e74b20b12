import StrategyTree.Proofs.Document.Ladder
/-!
# Slots in machine words

A value is put into its slot in three steps, and each of them can stop the program: one is added
to the number of the slot, the slots are resized to that sum, and the value is assigned. As long
as no more slots are asked for than can be built, none of them does. A number of 64 bits can ask
for more, and then the program stops: at the addition for the largest number, and at the
resizing for all others. The assignment is always to one of the slots.

The addition here is a checked one. An addition that wraps around makes zero of the largest
number, so there the resizing leaves no slot and the program stops at the assignment instead. For
all other numbers the two are the same.
-/
namespace StrategyTree.Ladder

open Outcome

variable {α : Type}

/-! ### One slot -/

/-- Where the program stops. -/
inductive Stop where
  /-- The sum has more than 64 bits. -/
  | addition
  /-- There is no room for as many slots. -/
  | resizing
  /-- There is no such slot. -/
  | assignment
deriving DecidableEq

def increment (n : Nat) : Except Stop Nat :=
  if n + 1 < Nat.pow 2 64 then .ok (n + 1) else .error .addition

def resize (slots : List (Json α)) (length : Nat) : Except Stop (List (Json α)) :=
  if length ≤ maxSlots then
    .ok (slots.take length ++ List.replicate (length - slots.length) .null)
  else .error .resizing

def assign (slots : List (Json α)) (index : Nat) (v : Json α) : Except Stop (List (Json α)) :=
  if index < slots.length then .ok (slots.set index v) else .error .assignment

/-- Puts a value into a slot, which is built if there are not as many slots yet. -/
def write (slots : List (Json α)) (index : Nat) (v : Json α) : Except Stop (List (Json α)) := do
  let built ← if slots.length ≤ index then increment index >>= resize slots else pure slots
  assign built index v

/-- Where the program stops for a number with which more slots are asked for than can be
built. -/
def stopAt (index : Nat) : Stop :=
  if index + 1 < Nat.pow 2 64 then .resizing else .addition

theorem assign_last (slots : List (Json α)) (before v : Json α) :
    assign (slots ++ [before]) slots.length v = .ok (slots ++ [v]) := by
  unfold assign
  simp

/-- A slot that was just built is the last one. -/
theorem assign_resized {slots : List (Json α)} {index : Nat} (h : slots.length ≤ index)
    (v : Json α) : assign (slots.take (index + 1) ++
      List.replicate (index + 1 - slots.length) .null) index v = .ok (place slots index v) := by
  have hpad : index + 1 - slots.length = index - slots.length + 1 := by omega
  have hlast := assign_last (slots ++ List.replicate (index - slots.length) .null) .null v
  rw [List.length_append, List.length_replicate, Nat.add_sub_of_le h] at hlast
  rw [List.take_of_length_le (by omega), hpad, List.replicate_succ', ← List.append_assoc, hlast,
    place, if_neg (by omega)]

/-- Within the slots that can be built, a value comes into its place or the program stops before
the assignment. -/
theorem write_eq {slots : List (Json α)} (h : slots.length ≤ maxSlots) (index : Nat)
    (v : Json α) : write slots index v =
      if index < maxSlots then .ok (place slots index v) else .error (stopAt index) := by
  have hwords : maxSlots < Nat.pow 2 64 := by decide
  unfold write
  by_cases hthere : index < slots.length
  · have hassigned : assign slots index v = .ok (slots.set index v) := if_pos hthere
    rw [if_neg (by omega), if_pos (by omega), place, if_pos hthere]
    exact hassigned
  · have hnew : slots.length ≤ index := Nat.le_of_not_lt hthere
    rw [if_pos hnew]
    by_cases hfits : index < maxSlots
    · have hsum : increment index = .ok (index + 1) := if_pos (by omega)
      have hbuilt : resize slots (index + 1) = .ok _ := if_pos hfits
      rw [if_pos hfits, hsum, ← assign_resized hnew]
      change resize slots (index + 1) >>= (assign · index v) = _
      rw [hbuilt]
      rfl
    · rw [if_neg hfits, increment, stopAt]
      by_cases hsum : index + 1 < Nat.pow 2 64
      · have hbuilt : resize slots (index + 1) = .error .resizing := if_neg (by omega)
        rw [if_pos hsum, if_pos hsum]
        change resize slots (index + 1) >>= (assign · index v) = _
        rw [hbuilt]
        rfl
      · rw [if_neg hsum, if_neg hsum]
        rfl

/-! ### All slots -/

/-- Why there is no gathered object: it is refused for a fault, or the program stops at a key. -/
inductive Ending where
  | refused (fault : DocumentFault)
  | stopped (key : String) (stop : Stop)
deriving DecidableEq

/-- How an ending is told apart in the answer of a reader. -/
def Ending.fault : Ending → DocumentFault
  | refused fault => fault
  | stopped key _ => .ladderTooLong key

def writeAll : List (Json α) → Members α → Except Ending (List (Json α))
  | slots, [] => .ok slots
  | slots, (key, v) :: rest =>
      match rungIndex? key with
      | none => .error (.refused (.badLadderKey key))
      | some index =>
          match write slots index v with
          | .ok written => writeAll written rest
          | .error stop => .error (.stopped key stop)

/-- Gathers ladder keys, each slot step by step. -/
def gatherSteps (members : Members α) : Except Ending (Members α) :=
  if members.rungs.isEmpty then .ok members
  else if (members.lookup "ladder").isSome then .error (.refused .mixedLadder)
  else do
    let slots ← writeAll [] members.rungs
    return Table.alterEntries "ladder" (fun _ => .array slots)
      (members.filter fun m => !isRung m.1)

/-- The number of a ladder key is that of a slot that can be built. -/
def builds (key : String) : Bool :=
  (rungIndex? key).any (· < maxSlots)

/-- How gathering ends at a key of no slot that can be built. -/
def ending (key : String) : Ending :=
  match rungIndex? key with
  | none => .refused (.badLadderKey key)
  | some index => .stopped key (stopAt index)

/-- A value is placed as long as its slot can be built. At any other key gathering ends. -/
theorem writeAll_cons {slots : List (Json α)} (h : slots.length ≤ maxSlots) (key : String)
    (v : Json α) (rest : Members α) :
    (builds key = true ∧ ∃ written : List (Json α), written.length ≤ maxSlots ∧
      writeAll slots ((key, v) :: rest) = writeAll written rest ∧
      placeAll slots ((key, v) :: rest) = placeAll written rest) ∨
    (builds key = false ∧ writeAll slots ((key, v) :: rest) = .error (ending key) ∧
      placeAll slots ((key, v) :: rest) = .error (ending key).fault) := by
  rw [builds, ending, writeAll, placeAll]
  cases rungIndex? key with
  | none => exact .inr ⟨rfl, rfl, rfl⟩
  | some index =>
      simp only [write_eq h]
      by_cases hfits : index < maxSlots
      · have hlength : (place slots index v).length ≤ maxSlots := by
          rw [length_place]
          omega
        exact .inl ⟨by simpa using hfits, _, hlength, by simp [hfits], by simp [hfits]⟩
      · have hlong : ¬(index < slots.length ∨ index < maxSlots) := by omega
        exact .inr ⟨by simpa using hfits, by simp [hfits], by simp [hlong, Ending.fault]⟩

theorem placeAll_eq_writeAll {slots : List (Json α)} (h : slots.length ≤ maxSlots)
    (rungs : Members α) :
    placeAll slots rungs = (writeAll slots rungs).mapError Ending.fault := by
  induction rungs generalizing slots with
  | nil => rfl
  | cons m rest ih =>
      obtain ⟨-, written, hlength, hwrite, hplace⟩ | ⟨-, hwrite, hplace⟩ :=
        writeAll_cons h m.1 m.2 rest
      · rw [hwrite, hplace, ih hlength]
      · rw [hwrite, hplace]
        rfl

/-- Writing all slots ends at the first key of no slot that can be built. -/
theorem writeAll_error_iff {slots : List (Json α)} (h : slots.length ≤ maxSlots)
    {rungs : Members α} {e : Ending} : writeAll slots rungs = .error e ↔
      ∃ m, rungs.find? (fun m => !builds m.1) = some m ∧ e = ending m.1 := by
  induction rungs generalizing slots with
  | nil => simp [writeAll]
  | cons m rest ih =>
      obtain ⟨hkey, written, hlength, hwrite, -⟩ | ⟨hkey, hwrite, -⟩ :=
        writeAll_cons h m.1 m.2 rest
      · rw [hwrite, ih hlength, List.find?_cons_of_neg (by simp [hkey])]
      · rw [hwrite, List.find?_cons_of_pos (by simp [hkey]), Except.error.injEq]
        simp [eq_comm]

/-! ### Objects -/

variable {members : Members α}

/-- The steps give what a reader gives. -/
theorem gather_eq_gatherSteps (members : Members α) :
    gather members = (gatherSteps members).mapError Ending.fault := by
  have hplaced : placeAll [] members.rungs = _ := placeAll_eq_writeAll (Nat.zero_le _) _
  change (if members.rungs.isEmpty then .ok members
    else if (members.lookup "ladder").isSome then .error .mixedLadder
    else placeAll [] members.rungs >>= _) = _
  unfold gatherSteps
  rw [hplaced]
  split
  · rfl
  · split
    · rfl
    · cases writeAll [] members.rungs <;> rfl

/-- Gathering ends without an object if the two spellings are mixed, and otherwise at the first
key of no slot that can be built. -/
theorem gatherSteps_error_iff {e : Ending} : gatherSteps members = .error e ↔
    (members.rungs ≠ [] ∧ (members.lookup "ladder").isSome = true ∧ e = .refused .mixedLadder) ∨
    (members.lookup "ladder" = none ∧
      ∃ m, members.rungs.find? (fun m => !builds m.1) = some m ∧ e = ending m.1) := by
  unfold gatherSteps
  by_cases hrungs : members.rungs = []
  · simp [hrungs]
  · rw [if_neg (by simpa using hrungs)]
    cases members.lookup "ladder" with
    | some v => simp [hrungs, eq_comm]
    | none =>
        have hwritten : writeAll [] members.rungs = .error e ↔ _ :=
          writeAll_error_iff (Nat.zero_le _)
        rw [if_neg (by simp), ← hwritten]
        cases writeAll [] members.rungs with
        | ok slots => simp [pure, Except.pure, bind, Except.bind]
        | error e' => simp [bind, Except.bind]

theorem ending_eq_stopped_iff {key key' : String} {stop : Stop} :
    ending key' = .stopped key stop ↔
      key' = key ∧ ∃ index, rungIndex? key' = some index ∧ stop = stopAt index := by
  unfold ending
  cases rungIndex? key' <;> simp [eq_comm]

theorem le_of_not_builds {key : String} {index : Nat} (hindex : rungIndex? key = some index)
    (h : builds key = false) : maxSlots ≤ index := by
  simpa [builds, hindex] using h

/-- The program stops at a key exactly if it is the first of no slot that can be built, and it
has a number. -/
theorem gatherSteps_stopped_iff {key : String} {stop : Stop} :
    gatherSteps members = .error (.stopped key stop) ↔ members.lookup "ladder" = none ∧
      ∃ v index, members.rungs.find? (fun m => !builds m.1) = some (key, v) ∧
        rungIndex? key = some index ∧ maxSlots ≤ index ∧ stop = stopAt index := by
  rw [gatherSteps_error_iff]
  constructor
  · rintro (⟨-, -, hmixed⟩ | ⟨hladder, m, hfirst, hstopped⟩)
    · cases hmixed
    · obtain ⟨rfl, index, hindex, hstop⟩ := ending_eq_stopped_iff.1 hstopped.symm
      have hnot : builds m.1 = false := by simpa using List.find?_some hfirst
      exact ⟨hladder, m.2, index, hfirst, hindex, le_of_not_builds hindex hnot, hstop⟩
  · rintro ⟨hladder, v, index, hfirst, hindex, -, hstop⟩
    exact .inr ⟨hladder, _, hfirst, (ending_eq_stopped_iff.2 ⟨rfl, index, hindex, hstop⟩).symm⟩

/-- A reader that tells of too many slots is one that stops. -/
theorem gather_error_iff {key : String} : gather members = .error (.ladderTooLong key) ↔
    ∃ stop, gatherSteps members = .error (.stopped key stop) := by
  rw [gather_eq_gatherSteps]
  cases hsteps : gatherSteps members with
  | ok gathered => simp [Except.mapError]
  | error e =>
      have hfault : e.fault = .ladderTooLong key ↔ ∃ stop, e = .stopped key stop := by
        rcases gatherSteps_error_iff.1 hsteps with ⟨-, -, rfl⟩ | ⟨-, m, -, rfl⟩
        · simp [Ending.fault]
        · unfold ending
          cases rungIndex? m.1 <;> simp [Ending.fault]
      simpa [Except.mapError] using hfault

end StrategyTree.Ladder
