import Mathlib.Algebra.BigOperators.Group.List.Basic
import Mathlib.Algebra.Order.BigOperators.Group.List
import Mathlib.Tactic.FieldSimp
import Mathlib.Tactic.Linarith
import Mathlib.Tactic.LinearCombination
import Mathlib.Tactic.Ring
/-!
# Statistics of a list of numbers

The mean, the population variance and the slope of the least-squares line, as they are
defined, and the sums from which sliding computations find them.
-/
namespace StrategyTree.Statistics

section Sums

variable {K : Type} [Field K] {xs ys : List K}

def mean (xs : List K) : K :=
  xs.sum / xs.length

/-- The population variance: the mean of the squared distances from the mean. -/
def variance (xs : List K) : K :=
  (xs.map fun x => (x - mean xs) ^ 2).sum / xs.length

/-- The slope of the least-squares line through the points of two lists. -/
def slope (xs ys : List K) : K :=
  (List.zipWith (fun x y => (x - mean xs) * (y - mean ys)) xs ys).sum /
    (xs.map fun x => (x - mean xs) ^ 2).sum

theorem sum_sq_sub (c : K) (xs : List K) : (xs.map fun x => (x - c) ^ 2).sum =
    (xs.map fun x => x * x).sum - 2 * c * xs.sum + xs.length * c ^ 2 := by
  induction xs with
  | nil => simp
  | cons x rest ih =>
      simp only [List.map_cons, List.sum_cons, List.length_cons, Nat.cast_add, Nat.cast_one, ih]
      ring

theorem sum_centred (a b : K) (h : xs.length = ys.length) :
    (List.zipWith (fun x y => (x - a) * (y - b)) xs ys).sum =
      (List.zipWith (· * ·) xs ys).sum - a * ys.sum - b * xs.sum + xs.length * a * b := by
  induction xs generalizing ys with
  | nil =>
      obtain rfl := List.length_eq_zero_iff.1 h.symm
      simp
  | cons x xs ih =>
      obtain ⟨y, ys, rfl⟩ := List.exists_cons_of_length_eq_add_one h.symm
      have hrest := ih (Nat.succ.inj h)
      simp only [List.zipWith_cons_cons, List.sum_cons, List.length_cons, Nat.cast_add,
        Nat.cast_one, hrest]
      ring

/-- The days of a window of `n`, numbered from zero. -/
def days (n : Nat) : List K :=
  (List.range n).map fun day : Nat => (day : K)

@[simp] theorem length_days (n : Nat) : (days n : List K).length = n := by
  rw [days, List.length_map, List.length_range]

theorem days_ne_nil {n : Nat} (hn : 0 < n) : (days n : List K) ≠ [] := by
  rw [← List.length_pos_iff, length_days]
  exact hn

theorem days_succ (n : Nat) : (days (n + 1) : List K) = days n ++ [(n : K)] := by
  rw [days, List.range_succ, List.map_append]
  rfl

theorem days_succ_eq_cons (n : Nat) : (days (n + 1) : List K) = 0 :: (days n).map (· + 1) := by
  rw [days, List.range_succ_eq_map, List.map_cons, List.map_map, days, List.map_map]
  simp

/-- The sum of values, each weighted with its day. -/
def weighted (ys : List K) : K :=
  (List.zipWith (· * ·) (days ys.length) ys).sum

/-- When the oldest value leaves, every day falls by one. -/
theorem weighted_cons (y : K) (ys : List K) : weighted (y :: ys) = weighted ys + ys.sum := by
  have hshift (xs : List K) (h : xs.length = ys.length) :
      (List.zipWith (· * ·) (xs.map (· + 1)) ys).sum =
        (List.zipWith (· * ·) xs ys).sum + ys.sum := by
    induction xs generalizing ys with
    | nil =>
        obtain rfl := List.length_eq_zero_iff.1 h.symm
        simp
    | cons x xs ih =>
        obtain ⟨y, ys, rfl⟩ := List.exists_cons_of_length_eq_add_one h.symm
        have hrest := ih ys (Nat.succ.inj h)
        simp only [List.map_cons, List.zipWith_cons_cons, List.sum_cons, hrest]
        ring
  rw [weighted, List.length_cons, days_succ_eq_cons, List.zipWith_cons_cons, List.sum_cons,
    hshift _ (length_days _), zero_mul, zero_add]
  rfl

theorem weighted_concat (ys : List K) (y : K) :
    weighted (ys ++ [y]) = weighted ys + ys.length * y := by
  rw [weighted, List.length_append, List.length_singleton, days_succ,
    List.zipWith_append (length_days _), List.sum_append]
  simp [weighted]

end Sums

section Ordered

variable {K : Type} [Field K] [LinearOrder K] [IsStrictOrderedRing K] {xs ys : List K}

theorem length_ne_zero (h : xs ≠ []) : (xs.length : K) ≠ 0 := by
  rw [Nat.cast_ne_zero]
  exact mt List.length_eq_zero_iff.1 h

theorem mul_mean (h : xs ≠ []) : xs.length * mean xs = xs.sum :=
  mul_div_cancel₀ xs.sum (length_ne_zero h)

/-- The variance is the mean of the squares less the square of the mean. -/
theorem variance_eq (h : xs ≠ []) :
    variance xs = (xs.map fun x => x * x).sum / xs.length - mean xs * mean xs := by
  have hlength := length_ne_zero h
  rw [variance, sum_sq_sub, ← mul_mean h]
  field_simp
  ring

theorem variance_nonneg (xs : List K) : 0 ≤ variance xs := by
  refine div_nonneg (List.sum_nonneg fun y hy => ?_) (Nat.cast_nonneg _)
  obtain ⟨x, -, rfl⟩ := List.mem_map.1 hy
  exact sq_nonneg _

/-- The slope from the plain sums. -/
theorem slope_eq (hxs : xs ≠ []) (h : xs.length = ys.length) : slope xs ys =
    (xs.length * (List.zipWith (· * ·) xs ys).sum - xs.sum * ys.sum) /
      (xs.length * (xs.map fun x => x * x).sum - xs.sum * xs.sum) := by
  have hys : ys ≠ [] := by
    rintro rfl
    exact hxs (List.length_eq_zero_iff.1 h)
  have hmx := mul_mean hxs
  have hmy := mul_mean hys
  rw [← h] at hmy
  rw [slope, sum_centred _ _ h, sum_sq_sub, ← mul_div_mul_left _ _ (length_ne_zero hxs), ← hmx,
    ← hmy]
  congr 1 <;> ring

theorem sum_days (n : Nat) : (days n : List K).sum = n * (n - 1) / 2 := by
  induction n with
  | zero => simp [days]
  | succ n ih =>
      rw [days_succ, List.sum_append, ih, List.sum_singleton]
      push_cast
      ring

theorem sum_squared_days (n : Nat) :
    ((days n : List K).map fun x => x * x).sum = (n - 1) * n * (2 * n - 1) / 6 := by
  induction n with
  | zero => simp [days]
  | succ n ih =>
      rw [days_succ, List.map_append, List.sum_append, ih, List.map_singleton, List.sum_singleton]
      push_cast
      ring

/-- Two days or more do not lie above each other. -/
theorem spread_days {n : Nat} (hn : 2 ≤ n) :
    0 < n * ((n - 1) * n * (2 * n - 1) / 6) - n * (n - 1) / 2 * (n * (n - 1) / 2 : K) := by
  have hn' : (2 : K) ≤ n := by exact_mod_cast hn
  have heq : (n : K) * ((n - 1) * n * (2 * n - 1) / 6) - n * (n - 1) / 2 * (n * (n - 1) / 2) =
      n * n * (n - 1) * (n + 1) / 12 := by ring
  rw [heq]
  have hpos : (0 : K) < n := by linarith
  have hless : (0 : K) < n - 1 := by linarith
  have hmore : (0 : K) < n + 1 := by linarith
  exact div_pos (mul_pos (mul_pos (mul_pos hpos hpos) hless) hmore) (by norm_num)

/-- The least-squares slope of values over their days. -/
theorem slope_days {n : Nat} (hn : 0 < n) (h : ys.length = n) : slope (days n) ys =
    (n * weighted ys - n * (n - 1) / 2 * ys.sum) /
      (n * ((n - 1) * n * (2 * n - 1) / 6) - n * (n - 1) / 2 * (n * (n - 1) / 2)) := by
  rw [slope_eq (days_ne_nil hn) ((length_days n).trans h.symm), length_days, sum_days,
    sum_squared_days, weighted, h]

/-- The squared distances of two days or more from their mean do not vanish. -/
theorem spread_ne_zero {n : Nat} (hn : 2 ≤ n) :
    ((days n : List K).map fun x => (x - mean (days n)) ^ 2).sum ≠ 0 := by
  have hspread := spread_days (K := K) hn
  have hmean := mul_mean (days_ne_nil (K := K) (by omega : 0 < n))
  rw [length_days, sum_days] at hmean
  rw [sum_sq_sub, length_days, sum_days, sum_squared_days]
  intro hzero
  rw [← hmean] at hspread hzero
  have heq : (n : K) * ((n - 1) * n * (2 * n - 1) / 6) -
      n * mean (days n) * (n * mean (days n)) = 0 := by
    linear_combination (n : K) * hzero
  exact hspread.ne' heq

end Ordered
end StrategyTree.Statistics
