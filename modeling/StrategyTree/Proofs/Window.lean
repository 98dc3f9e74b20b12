import Mathlib.Data.List.DropRight
import StrategyTree.Proofs.Indicator.Prefix
/-!
# Windows

A window of `n` days holds the last `n` entries of a list. When one more entry comes,
the oldest one leaves, once there are `n`; a delayed series tells which.
-/
namespace StrategyTree.Window

variable {β : Type}

/-- The oldest of the last `n` entries, if there are so many. -/
def leaving (n : Nat) (xs : List β) : Option β :=
  if xs.length < n then none else xs[xs.length - n]?

theorem leaving_eq_none {n : Nat} {xs : List β} (h : xs.length < n) : leaving n xs = none :=
  if_pos h

theorem exists_leaving {n : Nat} (hn : 0 < n) {xs : List β} (h : n ≤ xs.length) :
    ∃ x ∈ xs, leaving n xs = some x := by
  have hlt : xs.length - n < xs.length := by omega
  refine ⟨xs[xs.length - n], List.getElem_mem hlt, ?_⟩
  rw [leaving, if_neg (Nat.not_lt.2 h), List.getElem?_eq_getElem hlt]

/-- One more entry makes room for what left the shorter window. -/
theorem leaving_succ_concat {n : Nat} (hn : 0 < n) (xs : List β) (x : β) :
    leaving (n + 1) (xs ++ [x]) = leaving n xs := by
  rw [leaving, leaving, List.length_append, List.length_singleton, Nat.add_sub_add_right]
  split
  · rw [if_pos (by omega)]
  · rw [if_neg (by omega), List.getElem?_append_left (by omega)]

theorem leaving_map {γ : Type} (n : Nat) (f : β → γ) (xs : List β) :
    leaving n (xs.map f) = (leaving n xs).map f := by
  simp only [leaving, List.length_map, List.getElem?_map]
  split <;> rfl

/-- The window without the entry that leaves it next. -/
theorem rtake_eq_leaving {n : Nat} (hn : 0 < n) (xs : List β) :
    xs.rtake n = (leaving n xs).toList ++ xs.rtake (n - 1) := by
  unfold leaving List.rtake
  by_cases h : xs.length < n
  · have hdrop : xs.length - n = 0 := by omega
    have hdrop' : xs.length - (n - 1) = 0 := by omega
    rw [if_pos h, hdrop, hdrop']
    rfl
  · have hlt : xs.length - n < xs.length := by omega
    have hnext : xs.length - (n - 1) = xs.length - n + 1 := by omega
    rw [if_neg h, List.getElem?_eq_getElem hlt, List.drop_eq_getElem_cons hlt, hnext]
    rfl

theorem rtake_concat {n : Nat} (hn : 0 < n) (xs : List β) (x : β) :
    (xs ++ [x]).rtake n = xs.rtake (n - 1) ++ [x] := by
  obtain ⟨k, rfl⟩ := Nat.exists_eq_succ_of_ne_zero hn.ne'
  exact List.rtake_concat_succ xs k x

theorem length_rtake (n : Nat) (xs : List β) : (xs.rtake n).length = min n xs.length := by
  rw [List.rtake, List.length_drop]
  omega

/-- The entries of a window are those that lie fewer than `n` places back. -/
theorem mem_rtake {n : Nat} {xs : List β} {x : β} :
    x ∈ xs.rtake n ↔ ∃ back < n, back < xs.length ∧ xs[xs.length - 1 - back]? = some x := by
  rw [List.rtake, List.mem_iff_getElem?]
  simp only [List.getElem?_drop]
  constructor
  · rintro ⟨i, hi⟩
    have hlt : xs.length - n + i < xs.length := (List.getElem?_eq_some_iff.1 hi).1
    refine ⟨xs.length - 1 - (xs.length - n + i), by omega, by omega, ?_⟩
    rwa [Nat.sub_sub_self (by omega)]
  · rintro ⟨back, hback, hlt, hx⟩
    refine ⟨xs.length - 1 - back - (xs.length - n), ?_⟩
    rwa [Nat.add_sub_cancel' (by omega)]

/-- What a delayed series gains with one more entry. -/
theorem delayed_concat {n : Nat} (hn : 0 < n) (xs : Series β) (x : Option β) :
    Series.delayed n (xs ++ [x]) = Series.delayed n xs ++ [(leaving n xs).join] := by
  refine List.ext_getElem? fun day => ?_
  rw [Series.getElem?_delayed, List.length_append, List.length_singleton]
  rcases Nat.lt_trichotomy day xs.length with h | rfl | h
  · rw [List.getElem?_append_left (by simpa using h), Series.getElem?_delayed, if_pos (by omega),
      if_pos h, Series.at?, Series.at?, List.getElem?_append_left (by omega)]
  · rw [List.getElem?_append_right (by simp), Series.length_delayed, Nat.sub_self,
      if_pos (Nat.lt_succ_self _)]
    unfold leaving Series.at?
    split
    · rfl
    · rw [List.getElem?_append_left (by omega)]
      rfl
  · rw [if_neg (by omega), List.getElem?_eq_none]
    simpa using Nat.succ_le_of_lt h

end StrategyTree.Window
