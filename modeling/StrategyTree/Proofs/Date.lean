import Mathlib.Order.Defs.LinearOrder
import StrategyTree.Date
/-!
# The order of dates

Dates are ordered linearly, by year, month and day.
-/
namespace StrategyTree.Date

theorem le_total (a b : Date) : a ≤ b ∨ b ≤ a := by
  simp only [le_def, lt_def]
  omega

theorem le_trans {a b c : Date} (hab : a ≤ b) (hbc : b ≤ c) : a ≤ c := by
  simp only [le_def, lt_def] at *
  omega

theorem lt_iff_le_not_ge (a b : Date) : a < b ↔ a ≤ b ∧ ¬b ≤ a := by
  simp only [le_def, lt_def]
  omega

instance linearOrder : LinearOrder Date where
  le_refl := lt_irrefl
  le_trans _ _ _ := le_trans
  le_antisymm _ _ := le_antisymm
  le_total := le_total
  lt_iff_le_not_ge := lt_iff_le_not_ge
  toDecidableLE := decidableLe
  toDecidableLT := decidableLt
  toDecidableEq := inferInstance

end StrategyTree.Date
