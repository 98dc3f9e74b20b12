import Mathlib.Data.Set.Card
import Mathlib.Data.String.Basic
import StrategyTree.Binary64
import StrategyTree.Evaluation.Day
import StrategyTree.Proofs.Exact
/-!
# Selections

A ranking orders tickers by value and then by name, so no two tickers tie. What is
selected are the best of those that have a value, as many as are asked for and there
are. There is one such choice only, so it depends on the tickers and their values,
and not on the list in which they come.
-/
namespace StrategyTree

variable {α : Type} [Arith α]

/-- The order of a ranking: by value, and tickers of the same value by name. -/
def rankOrder : α × String → α × String → Ordering :=
  compareLex (fun a b => Arith.order a.1 b.1) (compareOn Prod.snd)

theorem rankedBefore_eq (a b : α × String) : rankedBefore a b = (rankOrder a b).isLE := by
  have hname : decide (a.2 ≤ b.2) = (compare a.2 b.2).isLE := by
    rw [Bool.eq_iff_iff, decide_eq_true_iff]
    exact Std.LawfulBCmp.isLE_iff_le.symm
  simp only [rankedBefore, rankOrder, compareLex, compareOn, hname]
  cases Arith.order a.1 b.1 <;> rfl

theorem snd_eq_of_rankOrder {a b : α × String} (h : rankOrder a b = .eq) : a.2 = b.2 := by
  have hname : compare a.2 b.2 = .eq := (Ordering.then_eq_eq.1 h).2
  exact Std.LawfulEqCmp.eq_of_compare hname

instance rankOrder_trans [Std.TransCmp (Arith.order (α := α))] :
    Std.TransCmp (rankOrder (α := α)) := by
  have hvalues : Std.TransCmp fun a b : α × String => Arith.order a.1 b.1 :=
    { eq_swap := Std.OrientedCmp.eq_swap
      isLE_trans := Std.TransCmp.isLE_trans }
  unfold rankOrder
  infer_instance

instance Exact.order_trans {sqrt : ℚ → ℚ≥0} {pow : ℚ → ℚ → ℚ} :
    Std.TransCmp (Arith.order (α := Exact sqrt pow)) :=
  inferInstanceAs (Std.TransCmp (compareOn Exact.value))

/-- The values of the program are in a total order, also those that are not numbers. -/
instance Binary64.order_trans : Std.TransCmp (Arith.order (α := Binary64)) :=
  inferInstanceAs (Std.TransCmp (compareOn Binary64.rank))

namespace Selection

/-- A ticker with its value is selected before another: at the top of a ranking the greater
one, at the bottom the smaller. -/
def Beats (s : Selection) (a b : α × String) : Prop :=
  match s with
  | .top => rankOrder a b = .gt
  | .bottom => rankOrder a b = .lt

/-- The tickers of a choice of at most `count` of those that have a value, the best first. -/
structure Chooses (s : Selection) (count : Nat) (valued : String → α → Prop)
    (chosen : List String) : Prop where
  finite : {t | ∃ x, valued t x}.Finite
  nodup : chosen.Nodup
  mem {t : String} : t ∈ chosen → ∃ x, valued t x
  length_eq : chosen.length = min count {t | ∃ x, valued t x}.ncard
  beats {t u : String} {x y : α} : t ∈ chosen → u ∉ chosen → valued t x → valued u y →
    s.Beats (x, t) (y, u)
  ranked : chosen.Pairwise fun t u => ∀ x y, valued t x → valued u y → s.Beats (x, t) (y, u)

/-- Where no ticker has a value none is chosen. -/
theorem Chooses.eq_nil {s : Selection} {count : Nat} {valued : String → α → Prop}
    {chosen : List String} (h : s.Chooses count valued chosen) (hnone : ∀ t x, ¬valued t x) :
    chosen = [] := by
  apply List.eq_nil_iff_forall_not_mem.2
  intro t ht
  obtain ⟨x, hx⟩ := h.mem ht
  exact hnone t x hx

/-- The ranking from the end that is selected. -/
def bestFirst (s : Selection) (values : List (α × String)) : List (α × String) :=
  match s with
  | .top => (values.mergeSort rankedBefore).reverse
  | .bottom => values.mergeSort rankedBefore

variable {s : Selection} {count : Nat} {values : List (α × String)}

theorem select_eq : s.select count values = ((s.bestFirst values).take count).map Prod.snd := by
  cases s <;> rfl

theorem bestFirst_perm : (s.bestFirst values).Perm values := by
  cases s with
  | top => exact (List.reverse_perm _).trans (List.mergeSort_perm values rankedBefore)
  | bottom => exact List.mergeSort_perm values rankedBefore

section Order
variable [Std.TransCmp (Arith.order (α := α))]

theorem Beats.asymm {a b : α × String} (h : s.Beats a b) : ¬s.Beats b a := by
  intro h'
  have hswap : rankOrder a b = (rankOrder b a).swap := Std.OrientedCmp.eq_swap
  cases s with
  | top =>
      have hab : rankOrder a b = .gt := h
      have hba : rankOrder b a = .gt := h'
      rw [hab, hba] at hswap
      cases hswap
  | bottom =>
      have hab : rankOrder a b = .lt := h
      have hba : rankOrder b a = .lt := h'
      rw [hab, hba] at hswap
      cases hswap

/-- Sorting leaves no ties between different names. -/
theorem pairwise_mergeSort_lt (hnames : (values.map Prod.snd).Nodup) :
    (values.mergeSort rankedBefore).Pairwise fun a b => rankOrder a b = .lt := by
  have hsorted : (values.mergeSort rankedBefore).Pairwise fun a b => rankedBefore a b = true := by
    apply List.pairwise_mergeSort
    · intro a b c hab hbc
      rw [rankedBefore_eq] at hab hbc ⊢
      exact Std.TransCmp.isLE_trans hab hbc
    · intro a b
      have hswap : rankOrder b a = (rankOrder a b).swap := Std.OrientedCmp.eq_swap
      rw [rankedBefore_eq, rankedBefore_eq, hswap]
      cases rankOrder a b <;> rfl
  have hdistinct : ((values.mergeSort rankedBefore).map Prod.snd).Nodup :=
    ((List.mergeSort_perm values rankedBefore).map Prod.snd).nodup_iff.2 hnames
  have hdiffer : (values.mergeSort rankedBefore).Pairwise fun a b => a.2 ≠ b.2 :=
    List.pairwise_map.1 hdistinct
  refine (hsorted.and hdiffer).imp ?_
  intro a b hab
  have hle : (rankOrder a b).isLE = true := by
    rw [← rankedBefore_eq]
    exact hab.1
  cases horder : rankOrder a b with
  | lt => rfl
  | eq => exact absurd (snd_eq_of_rankOrder horder) hab.2
  | gt =>
      rw [horder] at hle
      cases hle

theorem bestFirst_beats (hnames : (values.map Prod.snd).Nodup) :
    (s.bestFirst values).Pairwise s.Beats := by
  have hsorted := pairwise_mergeSort_lt hnames
  cases s with
  | top =>
      apply List.pairwise_reverse.2
      apply hsorted.imp
      intro a b hab
      have hswap : rankOrder b a = (rankOrder a b).swap := Std.OrientedCmp.eq_swap
      rw [hab] at hswap
      exact hswap
  | bottom => exact hsorted

/-- What is selected is a choice of the best. -/
theorem chooses_select (hnames : (values.map Prod.snd).Nodup) :
    s.Chooses count (fun t x => (x, t) ∈ values) (s.select count values) := by
  have hsplit : (s.bestFirst values).take count ++ (s.bestFirst values).drop count =
      s.bestFirst values := List.take_append_drop count _
  have hbeats := bestFirst_beats (s := s) hnames
  rw [← hsplit] at hbeats
  obtain ⟨htaken, -, hacross⟩ := List.pairwise_append.1 hbeats
  have htickers : {t | ∃ x, (x, t) ∈ values} = ↑(values.map Prod.snd).toFinset := by
    ext t
    simp
  have hmem {v : α × String} : v ∈ (s.bestFirst values).take count → v ∈ values := by
    intro hv
    exact bestFirst_perm.mem_iff.1 (List.mem_of_mem_take hv)
  -- A name has one value, so a ticker is taken with the value that it has.
  have hvalue {v : α × String} {x : α} (hv : v ∈ (s.bestFirst values).take count)
      (hx : (x, v.2) ∈ values) : (x, v.2) = v :=
    List.inj_on_of_nodup_map hnames hx (hmem hv) rfl
  rw [select_eq]
  constructor
  case finite =>
    rw [htickers]
    exact Finset.finite_toSet _
  case nodup =>
    have hbest : ((s.bestFirst values).map Prod.snd).Nodup :=
      (bestFirst_perm.map Prod.snd).nodup_iff.2 hnames
    exact hbest.sublist ((List.take_sublist count _).map Prod.snd)
  case mem =>
    intro t ht
    obtain ⟨v, hv, rfl⟩ := List.mem_map.1 ht
    exact ⟨v.1, hmem hv⟩
  case length_eq =>
    rw [htickers, Set.ncard_coe_finset, List.toFinset_card_of_nodup hnames, List.length_map,
      List.length_map, List.length_take, bestFirst_perm.length_eq]
  case beats =>
    intro t u x y ht hu hx hy
    obtain ⟨v, hv, rfl⟩ := List.mem_map.1 ht
    have hbest : (y, u) ∈ (s.bestFirst values).take count ++ (s.bestFirst values).drop count := by
      rw [hsplit]
      exact bestFirst_perm.mem_iff.2 hy
    rw [hvalue hv hx]
    cases List.mem_append.1 hbest with
    | inl htake => exact absurd (List.mem_map_of_mem htake) hu
    | inr hdrop => exact hacross v hv (y, u) hdrop
  case ranked =>
    apply List.pairwise_map.2
    apply htaken.imp_of_mem
    intro v w hv hw hbeats x y hx hy
    rw [hvalue hv hx, hvalue hw hy]
    exact hbeats

/-- A ticker of one choice that is not in another would have to beat one that beats it. -/
theorem Chooses.subset {valued : String → α → Prop} {chosen other : List String}
    (h : s.Chooses count valued chosen) (h' : s.Chooses count valued other) : chosen ⊆ other := by
  intro t ht
  by_contra hnot
  have hlength : other.length = chosen.length := h'.length_eq.trans h.length_eq.symm
  have hmissing : ∃ u ∈ other, u ∉ chosen := by
    by_contra hall
    have hsub : other ⊆ chosen := by
      intro u hu
      by_contra hnew
      exact hall ⟨u, hu, hnew⟩
    have hperm : other.Perm chosen :=
      (h'.nodup.subperm hsub).perm_of_length_le hlength.symm.le
    exact hnot (hperm.mem_iff.2 ht)
  obtain ⟨u, hu, hnew⟩ := hmissing
  obtain ⟨x, hx⟩ := h.mem ht
  obtain ⟨y, hy⟩ := h'.mem hu
  exact (h.beats ht hnew hx hy).asymm (h'.beats hu hnot hy hx)

/-- There is one choice only. -/
theorem Chooses.unique {valued : String → α → Prop} {chosen other : List String}
    (h : s.Chooses count valued chosen) (h' : s.Chooses count valued other) : other = chosen := by
  have hperm : other.Perm chosen :=
    (List.perm_ext_iff_of_nodup h'.nodup h.nodup).2 fun t =>
      ⟨fun ht => h'.subset h ht, fun ht => h.subset h' ht⟩
  apply List.Perm.eq_of_pairwise ?_ h'.ranked h.ranked hperm
  intro t u ht hu htu hut
  obtain ⟨x, hx⟩ := h'.mem ht
  obtain ⟨y, hy⟩ := h.mem hu
  exact absurd (hut y x hy hx) (htu x y hx hy).asymm

end Order
end Selection
end StrategyTree
