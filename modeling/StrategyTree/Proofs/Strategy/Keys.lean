import Mathlib.Data.List.Basic
import StrategyTree.Evaluation.Day
import StrategyTree.Proofs.Strategy.Walk
/-!
# Condition lists and their keys

A node asks for the verdicts of its condition lists under keys that are made from
its identifier. The lists of a numbered or an `altExit` node are its parts. The key
of a part names the node and the part, since no part has a number sign in its name;
the key of an indicator node is any text, which may read like the key of a part.
-/
namespace StrategyTree

variable {α : Type}

theorem toString_injective {i j : Nat} (h : toString i = toString j) : i = j := by
  have hdigits : Nat.toDigits 10 i = Nat.toDigits 10 j := by
    rw [← Nat.toList_repr, ← Nat.toList_repr]
    exact congrArg String.toList h
  rw [← Nat.ofDigitChars_ten_toDigits (n := i), hdigits, Nat.ofDigitChars_ten_toDigits]

/-- Lists are told apart by what stands before and behind their first `a`. -/
theorem append_cons_inj {β : Type} {a : β} {xs xs' ys ys' : List β} (h : a ∉ xs) (h' : a ∉ xs') :
    xs ++ a :: ys = xs' ++ a :: ys' ↔ xs = xs' ∧ ys = ys' := by
  induction xs generalizing xs' with
  | nil =>
      cases xs' with
      | nil => simp
      | cons x' xs' =>
          have hne : a ≠ x' := fun heq => h' (heq ▸ List.mem_cons_self)
          simp [hne]
  | cons x xs ih =>
      have hne : x ≠ a := fun heq => h (heq ▸ List.mem_cons_self)
      cases xs' with
      | nil => simp [hne]
      | cons x' xs' =>
          have ih := ih (fun hmem => h (List.mem_cons_of_mem _ hmem))
            (fun hmem => h' (List.mem_cons_of_mem _ hmem))
          simp [ih, and_assoc]

theorem partKey_inj {id id' part part' : String} (h : '#' ∉ part.toList)
    (h' : '#' ∉ part'.toList) : partKey id part = partKey id' part' ↔ id = id' ∧ part = part' := by
  have hsplit (id part : String) :
      (partKey id part).toList.reverse = part.toList.reverse ++ '#' :: id.toList.reverse := by
    simp [partKey]
  constructor
  · intro heq
    have hlists : (partKey id part).toList.reverse = (partKey id' part').toList.reverse := by
      rw [heq]
    rw [hsplit, hsplit, append_cons_inj (by simpa using h) (by simpa using h')] at hlists
    exact ⟨String.toList_injective (List.reverse_injective hlists.2),
      String.toList_injective (List.reverse_injective hlists.1)⟩
  · rintro ⟨rfl, rfl⟩
    rfl

namespace Node

/-- The condition lists that are told apart by a part of their key. -/
def parts : Node α → List (String × List (Condition α))
  | numbered _ items _ _ _ => items.zipIdx.map fun item => (toString item.2, item.1)
  | altExit _ entry exit _ => [("entry", entry), ("exit", exit)]
  | _ => []

/-- The condition lists of a node, each with the key under which its verdict is asked. -/
def keyedLists : Node α → List (String × List (Condition α))
  | indicator id conditions _ => [(id, conditions)]
  | n => n.parts.map fun part => (partKey n.id part.1, part.2)

def conditionLists : Node α → List (List (Condition α))
  | indicator _ conditions _ => [conditions]
  | numbered _ items _ _ _ => items
  | altExit _ entry exit _ => [entry, exit]
  | _ => []

theorem mem_conditionLists {n : Node α} {key : String} {list : List (Condition α)}
    (h : (key, list) ∈ n.keyedLists) : list ∈ n.conditionLists := by
  have hlists : n.keyedLists.map Prod.snd = n.conditionLists := by
    cases n <;> simp [keyedLists, parts, conditionLists, Function.comp_def]
  exact hlists ▸ List.mem_map_of_mem h

theorem mem_keyedLists {n : Node α} {key : String} {list : List (Condition α)} :
    (key, list) ∈ n.keyedLists ↔ (∃ fork, n = indicator key list fork) ∨
      ∃ part, (part, list) ∈ n.parts ∧ key = partKey n.id part := by
  have hparts : (key, list) ∈ (n.parts.map fun part => (partKey n.id part.1, part.2)) ↔
      ∃ part, (part, list) ∈ n.parts ∧ key = partKey n.id part := by
    simp only [List.mem_map, Prod.mk.injEq, Prod.exists]
    constructor
    · rintro ⟨part, _, hpart, rfl, rfl⟩
      exact ⟨part, hpart, rfl⟩
    · rintro ⟨part, hpart, rfl⟩
      exact ⟨part, list, hpart, rfl, rfl⟩
  cases n with
  | indicator id conditions fork => simp [keyedLists, parts, eq_comm]
  | _ => exact hparts.trans (by simp)

/-- The name of a part has no number sign. -/
theorem not_mem_of_mem_parts {n : Node α} {part : String} {list : List (Condition α)}
    (h : (part, list) ∈ n.parts) : '#' ∉ part.toList := by
  cases n with
  | numbered id items quantifier fork ladder =>
      obtain ⟨item, -, heq⟩ := List.mem_map.1 h
      obtain ⟨rfl, -⟩ := Prod.mk.inj heq
      intro hmem
      have hdigit := Nat.isDigit_of_mem_toDigits (by decide) (by decide)
        (Nat.toList_repr (n := item.2) ▸ hmem)
      exact absurd hdigit (by decide)
  | altExit id entry exit fork =>
      simp only [parts, List.mem_cons, List.not_mem_nil, or_false, Prod.mk.injEq] at h
      rcases h with ⟨rfl, -⟩ | ⟨rfl, -⟩ <;> decide
  | _ => cases h

/-- The parts of a node have different names. -/
theorem parts_unique {n : Node α} {part : String} {list list' : List (Condition α)}
    (h : (part, list) ∈ n.parts) (h' : (part, list') ∈ n.parts) : list = list' := by
  cases n with
  | numbered id items quantifier fork ladder =>
      obtain ⟨item, hitem, heq⟩ := List.mem_map.1 h
      obtain ⟨item', hitem', heq'⟩ := List.mem_map.1 h'
      obtain ⟨hname, rfl⟩ := Prod.mk.inj heq
      obtain ⟨hname', rfl⟩ := Prod.mk.inj heq'
      have hplace : item.2 = item'.2 := toString_injective (hname.trans hname'.symm)
      rw [List.mem_zipIdx_iff_getElem?] at hitem hitem'
      rw [hplace, hitem'] at hitem
      exact (Option.some.inj hitem).symm
  | altExit id entry exit fork =>
      simp only [parts, List.mem_cons, List.not_mem_nil, or_false, Prod.mk.injEq] at h h'
      rcases h with ⟨rfl, rfl⟩ | ⟨rfl, rfl⟩ <;> simpa [eq_comm] using h'
  | _ => cases h

end Node

namespace Strategy

def keyedLists (s : Strategy α) : List (String × List (Condition α)) :=
  s.nodes.flatMap Node.keyedLists

theorem mem_keyedLists {s : Strategy α} {key : String} {list : List (Condition α)} :
    (key, list) ∈ s.keyedLists ↔ ∃ n ∈ s.nodes, (key, list) ∈ n.keyedLists :=
  List.mem_flatMap

/-- No two different lists share a key. -/
def KeysIdentify (s : Strategy α) : Prop :=
  ∀ key list list', (key, list) ∈ s.keyedLists → (key, list') ∈ s.keyedLists → list = list'

end Strategy
end StrategyTree
