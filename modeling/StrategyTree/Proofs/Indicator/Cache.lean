import StrategyTree.Indicator.Cache
/-!
# Faithful caches

A cache is faithful if it answers what the matrix would answer. Whatever is asked of a
faithful cache, the answer is that of the matrix and the cache stays faithful.
-/
namespace StrategyTree

variable {α β γ : Type} [Arith α] {m : PriceMatrix α}

namespace IndicatorCache

def Faithful (m : PriceMatrix α) (c : IndicatorCache α) : Prop :=
  ∀ ticker i xs, c.find? ticker i = some xs → xs = m.indicator ticker i

theorem faithful_empty : Faithful m empty := by
  intro ticker i xs h
  cases h

theorem Faithful.series {c : IndicatorCache α} (h : c.Faithful m) (ticker : String)
    (i : Indicator) : (c.series m ticker i).1 = m.indicator ticker i ∧
      (c.series m ticker i).2.Faithful m := by
  unfold IndicatorCache.series
  split
  · next xs hfind => exact ⟨h ticker i xs hfind, h⟩
  · refine ⟨rfl, fun t j xs hfind => ?_⟩
    simp only [find?, List.lookup_cons] at hfind
    split at hfind
    · next heq =>
        obtain ⟨rfl, rfl⟩ := Prod.mk.inj (eq_of_beq heq)
        exact (Option.some.inj hfind).symm
    · exact h t j xs hfind

end IndicatorCache

namespace Measured

/-- On every faithful cache a computation has this outcome, and leaves a faithful cache. -/
def Computes (m : PriceMatrix α) (x : Measured α β) (r : Except Failure β) : Prop :=
  ∀ c : IndicatorCache α, c.Faithful m → (x c).1 = r ∧ (x c).2.Faithful m

theorem Computes.result (b : β) : Computes m (pure b) (.ok b) :=
  fun _ hc => ⟨rfl, hc⟩

theorem Computes.ofExcept (r : Except Failure β) : Computes m (liftM r : Measured α β) r :=
  fun _ hc => ⟨rfl, hc⟩

theorem Computes.bind {x : Measured α β} {r : Except Failure β} {f : β → Measured α γ}
    {g : β → Except Failure γ} (hx : Computes m x r)
    (hf : ∀ b, r = .ok b → Computes m (f b) (g b)) : Computes m (x >>= f) (r >>= g) := by
  intro c hc
  obtain ⟨hr, hc'⟩ := hx c hc
  have key : (x >>= f) c = ExceptT.bindCont f (x c).1 (x c).2 := rfl
  rw [key, hr]
  cases r with
  | ok b => exact hf b rfl _ hc'
  | error e => exact ⟨rfl, hc'⟩

theorem Computes.map {x : Measured α β} {r : Except Failure β} (h : Computes m x r) (f : β → γ) :
    Computes m (f <$> x) (f <$> r) := by
  rw [map_eq_pure_bind, map_eq_pure_bind]
  exact h.bind fun b _ => .result (f b)

end Measured
end StrategyTree
