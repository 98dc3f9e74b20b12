import Mathlib.Data.List.Induction
import StrategyTree.Proofs.Window
/-!
# Machines that restart at gaps

The answer of a machine on a day is given by the values since the last gap: what went
before is forgotten. An invariant that relates its state to these values holds on every
day if it holds at the start and each step keeps it.
-/
namespace StrategyTree

namespace Series

variable {β : Type}

theorem mem_of_at? {xs : List (Option β)} {day : Nat} {x : β}
    (h : at? xs day = some x) : some x ∈ xs :=
  List.mem_of_getElem? (Option.join_eq_some_iff.1 h)

/-- The values since the last gap. -/
def recent (xs : List (Option β)) : List β :=
  xs.foldl (fun seen x => match x with
    | none => []
    | some x => seen ++ [x]) []

@[simp] theorem recent_concat_none (xs : List (Option β)) : recent (xs ++ [none]) = [] := by
  rw [recent, List.foldl_append]
  rfl

@[simp] theorem recent_concat_some (xs : List (Option β)) (x : β) :
    recent (xs ++ [some x]) = recent xs ++ [x] := by
  rw [recent, List.foldl_append]
  rfl

theorem recent_suffix (xs : List (Option β)) : (recent xs).map some <:+ xs := by
  induction xs using List.reverseRecOn with
  | nil => exact List.suffix_rfl
  | append_singleton xs x ih =>
      cases x with
      | none => exact recent_concat_none xs ▸ List.nil_suffix
      | some x =>
          obtain ⟨before, h⟩ := ih
          refine ⟨before, ?_⟩
          rw [recent_concat_some, List.map_append, ← List.append_assoc, h]
          rfl

/-- The last `k` entries up to a day are all present. -/
def PresentFor (k day : Nat) (xs : List (Option β)) : Prop :=
  ∀ back < k, back ≤ day ∧ (at? xs (day - back)).isSome

/-- The values since the last gap are the last entries. -/
theorem at?_recent {xs : List (Option β)} {day back : Nat} (hday : day < xs.length)
    (h : back < (recent (xs.take (day + 1))).length) :
    back ≤ day ∧ at? xs (day - back) =
      (recent (xs.take (day + 1)))[(recent (xs.take (day + 1))).length - 1 - back]? := by
  obtain ⟨before, hxs⟩ := recent_suffix (xs.take (day + 1))
  generalize recent (xs.take (day + 1)) = seen at h hxs
  have hlength : before.length + seen.length = day + 1 := by
    have hcount := congrArg List.length hxs
    rw [List.length_append, List.length_map, List.length_take, Nat.min_eq_left hday] at hcount
    exact hcount
  have hplace : day - back - before.length = seen.length - 1 - back := by omega
  have hlt : seen.length - 1 - back < seen.length := by omega
  refine ⟨by omega, ?_⟩
  have hentry : xs[day - back]? = (before ++ seen.map some)[day - back]? := by
    rw [hxs, List.getElem?_take, if_pos (by omega)]
  rw [at?, hentry, List.getElem?_append_right (by omega), hplace, List.getElem?_map,
    List.getElem?_eq_getElem hlt]
  rfl

/-- The last `k` entries are present if there are `k` values since the last gap. -/
theorem presentFor_iff {xs : List (Option β)} {k day : Nat} (hday : day < xs.length) :
    PresentFor k day xs ↔ k ≤ (recent (xs.take (day + 1))).length := by
  constructor
  · intro h
    induction k generalizing day with
    | zero => exact Nat.zero_le _
    | succ k ih =>
        have hlast := (h 0 (Nat.succ_pos k)).2
        rw [Nat.sub_zero, at?, List.getElem?_eq_getElem hday] at hlast
        obtain ⟨x, hx⟩ := Option.isSome_iff_exists.1 hlast
        have hentry : xs[day] = some x := hx
        rw [List.take_succ_eq_append_getElem hday, hentry, recent_concat_some, List.length_append]
        refine Nat.succ_le_succ ?_
        rcases Nat.eq_zero_or_pos k with rfl | hk
        · exact Nat.zero_le _
        · -- the `k` entries before are present up to the day before
          have hbefore : 1 ≤ day := (h 1 (Nat.succ_lt_succ hk)).1
          have hrest := @ih (day - 1) (by omega) fun back hback => by
            obtain ⟨hle, hsome⟩ := h (back + 1) (Nat.succ_lt_succ hback)
            exact ⟨by omega, by rwa [Nat.sub_sub, Nat.add_comm 1 back]⟩
          rwa [Nat.sub_add_cancel hbefore] at hrest
  · intro h back hback
    obtain ⟨hle, hentry⟩ := at?_recent hday (Nat.lt_of_lt_of_le hback h)
    refine ⟨hle, ?_⟩
    rw [hentry, List.getElem?_eq_getElem (by omega)]
    rfl

theorem PresentFor.lt_length {xs : List (Option β)} {k day : Nat} (hk : 0 < k)
    (h : PresentFor k day xs) : day < xs.length := by
  obtain ⟨-, hsome⟩ := h 0 hk
  by_contra hle
  rw [Nat.sub_zero, at?, List.getElem?_eq_none (Nat.le_of_not_lt hle)] at hsome
  exact Bool.false_ne_true hsome

end Series

namespace Machine

variable {σ ι ο : Type} (m : Machine σ ι ο)

/-- The state after one more entry. -/
def advance (s : σ) : Option ι → σ
  | none => m.start
  | some x => (m.step s x).1

/-- The answer to one more entry. -/
def answer (s : σ) : Option ι → Option ο
  | none => none
  | some x => (m.step s x).2

/-- The state after a list of entries. -/
def after (xs : List (Option ι)) : σ :=
  xs.foldl m.advance m.start

theorem after_concat (xs : List (Option ι)) (x : Option ι) :
    m.after (xs ++ [x]) = m.advance (m.after xs) x := by
  rw [after, List.foldl_append]
  rfl

theorem runFrom_append (s : σ) (xs ys : List (Option ι)) :
    m.runFrom s (xs ++ ys) = m.runFrom s xs ++ m.runFrom (xs.foldl m.advance s) ys := by
  induction xs generalizing s with
  | nil => rfl
  | cons x rest ih => cases x <;> simp [runFrom, advance, ih]

theorem run_concat (xs : List (Option ι)) (x : Option ι) :
    m.run (xs ++ [x]) = m.run xs ++ [m.answer (m.after xs) x] := by
  rw [run, runFrom_append]
  cases x <;> rfl

/-- After a gap a machine goes on as from its start. -/
theorem run_gap (before after : List (Option ι)) :
    m.run (before ++ none :: after) = m.run before ++ none :: m.run after := by
  rw [run, runFrom_append]
  rfl

/-- The entry of a run on a day. -/
theorem getElem?_run {xs : List (Option ι)} {day : Nat} {x : Option ι} (h : xs[day]? = some x) :
    (m.run xs)[day]? = some (m.answer (m.after (xs.take day)) x) := by
  obtain ⟨hlt, rfl⟩ := List.getElem?_eq_some_iff.1 h
  have hlast : (m.run (xs.take (day + 1)))[day]? = (m.run xs)[day]? := by
    rw [run_take, List.getElem?_take, if_pos (Nat.lt_succ_self day)]
  have hlength : (m.run (xs.take day)).length = day := by
    rw [length_run, List.length_take, Nat.min_eq_left hlt.le]
  rw [← hlast, List.take_succ_eq_append_getElem hlt, run_concat,
    List.getElem?_append_right hlength.le, hlength, Nat.sub_self]
  rfl

/-- What a machine keeps true of its state and the values since the last gap. -/
structure Tracks (At : List ι → σ → Prop) : Prop where
  start : At [] m.start
  step {seen : List ι} {s : σ} (x : ι) : At seen s → At (seen ++ [x]) (m.step s x).1

variable {m}

theorem Tracks.after {At : List ι → σ → Prop} (h : m.Tracks At) (xs : List (Option ι)) :
    At (Series.recent xs) (m.after xs) := by
  induction xs using List.reverseRecOn with
  | nil => exact h.start
  | append_singleton xs x ih =>
      rw [after_concat]
      cases x with
      | none =>
          rw [Series.recent_concat_none]
          exact h.start
      | some x =>
          rw [Series.recent_concat_some]
          exact h.step x ih

/-- An answer is given to the last of the values since the last gap, in a state that the
invariant allows for those before it. -/
theorem Tracks.entry {At : List ι → σ → Prop} (h : m.Tracks At) {xs : List (Option ι)} {day : Nat}
    {x : ι} (hx : xs[day]? = some (some x)) :
    ∃ seen s, At seen s ∧ Series.recent (xs.take (day + 1)) = seen ++ [x] ∧
      Series.at? (m.run xs) day = (m.step s x).2 := by
  obtain ⟨hlt, hentry⟩ := List.getElem?_eq_some_iff.1 hx
  refine ⟨_, m.after (xs.take day), h.after (xs.take day), ?_, ?_⟩
  · rw [List.take_succ_eq_append_getElem hlt, hentry, Series.recent_concat_some]
  · rw [Series.at?, m.getElem?_run hx]
    rfl

/-- Whatever is answered, is answered to a value. -/
theorem exists_of_answer {xs : List (Option ι)} {day : Nat} {y : ο}
    (h : Series.at? (m.run xs) day = some y) : ∃ x, xs[day]? = some (some x) := by
  rcases hx : xs[day]? with _ | _ | x
  · have hlength : (m.run xs).length ≤ day := by
      rw [length_run]
      exact List.getElem?_eq_none_iff.1 hx
    rw [Series.at?, List.getElem?_eq_none hlength] at h
    cases h
  · rw [Series.at?, m.getElem?_run hx] at h
    cases h
  · exact ⟨x, rfl⟩

/-- A machine that answers from the `n`th value since the last gap on, if the values since then
are fit for it, has an answer on a day if the last `n` entries are present and they are. -/
theorem Tracks.isSome_iff_and {At : List ι → σ → Prop} (h : m.Tracks At) {n : Nat} (hn : 0 < n)
    (Fit : List ι → Prop) (hanswer : ∀ {seen s} (x : ι), At seen s →
      ((m.step s x).2.isSome ↔ n ≤ seen.length + 1 ∧ Fit (seen ++ [x])))
    (xs : List (Option ι)) (day : Nat) :
    (Series.at? (m.run xs) day).isSome ↔
      Series.PresentFor n day xs ∧ Fit (Series.recent (xs.take (day + 1))) := by
  by_cases hentry : ∃ x, xs[day]? = some (some x)
  · obtain ⟨x, hx⟩ := hentry
    obtain ⟨seen, s, hs, hseen, hstep⟩ := h.entry hx
    rw [Series.presentFor_iff (List.getElem?_eq_some_iff.1 hx).1, hseen, List.length_append, hstep]
    exact hanswer x hs
  · constructor
    · intro hsome
      obtain ⟨y, hy⟩ := Option.isSome_iff_exists.1 hsome
      exact absurd (exists_of_answer hy) hentry
    · rintro ⟨hpresent, -⟩
      have hlt := hpresent.lt_length hn
      obtain ⟨x, hx⟩ := Option.isSome_iff_exists.1 (hpresent 0 hn).2
      rw [Nat.sub_zero, Series.at?, List.getElem?_eq_getElem hlt] at hx
      refine absurd ⟨x, ?_⟩ hentry
      rw [List.getElem?_eq_getElem hlt]
      exact congrArg some hx

/-- A machine that answers from the `n`th value since the last gap on has an answer on a day
if the last `n` entries are present. -/
theorem Tracks.isSome_iff {At : List ι → σ → Prop} (h : m.Tracks At) {n : Nat} (hn : 0 < n)
    (hanswer : ∀ {seen s} (x : ι), At seen s → ((m.step s x).2.isSome ↔ n ≤ seen.length + 1))
    (xs : List (Option ι)) (day : Nat) :
    (Series.at? (m.run xs) day).isSome ↔ Series.PresentFor n day xs := by
  rw [h.isSome_iff_and hn (fun _ => True) fun x hs => by rw [hanswer x hs, and_true], and_true]

/-! ### Machines that carry something over a gap -/

/-- Reads a list as `runFrom` does, but at a gap goes on from what `lapse` leaves of the state. -/
def runCarrying (m : Machine σ ι ο) (lapse : σ → σ) : σ → List (Option ι) → List (Option ο)
  | _, [] => []
  | s, none :: rest => none :: m.runCarrying lapse (lapse s) rest
  | s, some x :: rest => (m.step s x).2 :: m.runCarrying lapse (m.step s x).1 rest

/-- The states that `lapse` leaves are as good as the start: related states answer alike. -/
structure Forgets (m : Machine σ ι ο) (lapse : σ → σ) (Alike : σ → σ → Prop) : Prop where
  start : Alike m.start m.start
  lapse (s : σ) : Alike (lapse s) m.start
  step {s t : σ} (x : ι) : Alike s t → Alike (m.step s x).1 (m.step t x).1
  answer {s t : σ} (x : ι) : Alike s t → (m.step s x).2 = (m.step t x).2

/-- What is carried over a gap does not show. -/
theorem Forgets.runCarrying_eq {lapse : σ → σ} {Alike : σ → σ → Prop} (h : m.Forgets lapse Alike)
    (xs : List (Option ι)) : m.runCarrying lapse m.start xs = m.run xs := by
  have key (s t : σ) (hst : Alike s t) : m.runCarrying lapse s xs = m.runFrom t xs := by
    induction xs generalizing s t with
    | nil => rfl
    | cons x rest ih =>
        cases x with
        | none => rw [runCarrying, runFrom, ih _ _ (h.lapse s)]
        | some x => rw [runCarrying, runFrom, h.answer x hst, ih _ _ (h.step x hst)]
  exact key _ _ h.start

end Machine
end StrategyTree
