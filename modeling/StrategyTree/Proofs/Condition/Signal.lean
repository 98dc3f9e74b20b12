import StrategyTree.Condition.Signal
import StrategyTree.Proofs.Indicator.Cache
import StrategyTree.Proofs.Indicator.Length
/-!
# Signals without a cache

The signal of a condition list is folded from the signals of its conditions, and
each of these is read off the series of its two sides, whatever the series come
from. Read off the matrix, that is the direct signal of the list. A faithful cache
does not change it.
-/
namespace StrategyTree

variable {α : Type}

/-- A property of computations that lasts when they are put together. -/
structure Measured.Lasting (P : (β : Type) → Measured α β → Prop) : Prop where
  result {β : Type} (b : β) : P β (pure b)
  bind {β γ : Type} {x : Measured α β} {f : β → Measured α γ} : P β x → (∀ b, P γ (f b)) →
    P γ (x >>= f)

namespace Condition

section Fold

variable {μ : Type → Type} [Monad μ]

def otherSide (length : Nat) (series : Reading → μ (Series α)) : Reference α → μ (Series α)
  | .threshold x => return List.replicate length (some x)
  | .reading r => series r

def sides (length : Nat) (series : Reading → μ (Series α)) (c : Condition α) :
    μ (Series α × Series α) := do
  let left ← series c.left
  let right ← otherSide length series c.right
  return (left, right)

def joinFrom (signal : Condition α → μ Signal) : Signal → List (Condition α) → μ Signal
  | before, [] => return before
  | before, c :: rest => do
      let s ← signal c
      joinFrom signal (Signal.join c.connective before s) rest

def foldSignals (length : Nat) (signal : Condition α → μ Signal) : List (Condition α) → μ Signal
  | [] => return List.replicate length (some true)
  | c :: rest => do
      let s ← signal c
      joinFrom signal (Signal.join .first (List.replicate length none) s) rest

end Fold

theorem joinFrom_ok {f : Condition α → Except Failure Signal} (before : Signal)
    {cs : List (Condition α)} (h : ∀ c ∈ cs, ∃ s, f c = .ok s) :
    ∃ s, joinFrom f before cs = .ok s := by
  induction cs generalizing before with
  | nil => exact ⟨before, rfl⟩
  | cons c rest ih =>
      obtain ⟨s, hs⟩ := h c List.mem_cons_self
      rw [joinFrom, hs]
      exact ih _ fun d hd => h d (List.mem_cons_of_mem _ hd)

variable [Arith α]

theorem signal_eq_sides (m : PriceMatrix α) (c : Condition α) : c.signal m =
    (fun p => c.signalOf m.length p.1 p.2) <$> c.sides m.length (Reading.series m) := by
  unfold signal sides otherSide
  cases c.right <;> simp

section Lasting
variable {P : (β : Type) → Measured α β → Prop} (h : Measured.Lasting P) {m : PriceMatrix α}
  (hseries : ∀ r : Reading, P (Series α) (r.series m))
include h hseries

theorem signal_lasts (c : Condition α) : P Signal (c.signal m) := by
  apply h.bind (hseries c.left)
  intro left
  dsimp only
  split
  · exact h.result _
  · exact h.bind (hseries _) fun right => h.result _

theorem joinSignals_lasts (before : Signal) (list : List (Condition α)) :
    P Signal (joinSignals m before list) := by
  induction list generalizing before with
  | nil => exact h.result before
  | cons c rest ih => exact h.bind (signal_lasts h hseries c) fun s => ih _

/-- What holds of the series of all readings holds of the signal of a list of conditions. -/
theorem listSignal_lasts (list : List (Condition α)) : P Signal (listSignal m list) := by
  cases list with
  | nil => exact h.result _
  | cons c rest => exact h.bind (signal_lasts h hseries c) fun s => joinSignals_lasts h hseries _ rest

end Lasting

theorem joinSignals_eq_joinFrom (m : PriceMatrix α) (before : Signal) (cs : List (Condition α)) :
    joinSignals m before cs = joinFrom (signal m) before cs := by
  induction cs generalizing before with
  | nil => rfl
  | cons c rest ih => simp only [joinSignals, joinFrom, ih]

theorem listSignal_eq_foldSignals (m : PriceMatrix α) (cs : List (Condition α)) :
    listSignal m cs = foldSignals m.length (signal m) cs := by
  cases cs with
  | nil => rfl
  | cons c rest => simp only [listSignal, foldSignals, joinSignals_eq_joinFrom]

end Condition

variable [Arith α]

/-- The series of a reading, taken from the matrix. -/
def Reading.directSeries (m : PriceMatrix α) (r : Reading) : Except Failure (Series α) := do
  return m.indicator r.ticker (← r.indicator)

namespace Condition

def directSignal (m : PriceMatrix α) (c : Condition α) : Except Failure Signal :=
  (fun p => c.signalOf m.length p.1 p.2) <$> c.sides m.length (Reading.directSeries m)

def directListSignal (m : PriceMatrix α) : List (Condition α) → Except Failure Signal :=
  foldSignals m.length (directSignal m)

/-- A condition names indicators only, on both sides. -/
structure Resolves (c : Condition α) : Prop where
  left : ∃ i, c.left.indicator = .ok i
  right {r : Reading} : c.right = .reading r → ∃ i, r.indicator = .ok i

variable (m : PriceMatrix α)

/-- Both sides of a condition that names indicators only have a series. -/
theorem Resolves.sides_ok {c : Condition α} (h : c.Resolves) :
    ∃ left right, c.sides m.length (Reading.directSeries m) = .ok (left, right) := by
  have hseries {r : Reading} (hr : ∃ i, r.indicator = .ok i) : ∃ xs, r.directSeries m = .ok xs := by
    obtain ⟨i, hi⟩ := hr
    exact ⟨m.indicator r.ticker i, by rw [Reading.directSeries, hi]; rfl⟩
  obtain ⟨left, hleft⟩ := hseries h.left
  have hright : ∃ right, otherSide m.length (Reading.directSeries m) c.right = .ok right := by
    cases hc : c.right with
    | threshold x => exact ⟨_, rfl⟩
    | reading r => exact hseries (h.right hc)
  obtain ⟨right, hright⟩ := hright
  exact ⟨left, right, by rw [sides, hleft, hright]; rfl⟩

theorem Resolves.directSignal_ok {c : Condition α} (h : c.Resolves) :
    ∃ s, c.directSignal m = .ok s := by
  obtain ⟨left, right, hsides⟩ := h.sides_ok m
  exact ⟨c.signalOf m.length left right, by rw [directSignal, hsides]; rfl⟩

/-- A list of conditions that name indicators only has a signal. -/
theorem directListSignal_ok {cs : List (Condition α)} (h : ∀ c ∈ cs, c.Resolves) :
    ∃ s, directListSignal m cs = .ok s := by
  cases cs with
  | nil => exact ⟨_, rfl⟩
  | cons c rest =>
      obtain ⟨s, hs⟩ := (h c List.mem_cons_self).directSignal_ok m
      rw [directListSignal, foldSignals, hs]
      exact joinFrom_ok _ fun d hd => (h d (List.mem_cons_of_mem _ hd)).directSignal_ok m

end Condition

open Measured

variable {m : PriceMatrix α}

theorem Reading.series_computes (r : Reading) :
    Computes m (r.series m) (r.directSeries m) := by
  refine (Computes.ofExcept r.indicator).bind fun i _ => ?_
  intro c hc
  obtain ⟨hs, hc⟩ := hc.series r.ticker i
  exact ⟨congrArg Except.ok hs, hc⟩

namespace Condition

theorem sides_computes (c : Condition α) : Computes m (c.sides m.length (Reading.series m))
    (c.sides m.length (Reading.directSeries m)) := by
  refine (Reading.series_computes c.left).bind fun left _ => Computes.bind ?_ ?_
  · cases c.right with
    | threshold x => exact .result _
    | reading r => exact r.series_computes
  · exact fun right _ => .result (left, right)

theorem joinFrom_computes {f : Condition α → Measured α Signal}
    {g : Condition α → Except Failure Signal} (before : Signal) {cs : List (Condition α)}
    (h : ∀ c ∈ cs, Computes m (f c) (g c)) :
    Computes m (joinFrom f before cs) (joinFrom g before cs) := by
  induction cs generalizing before with
  | nil => exact .result before
  | cons c rest ih =>
      refine (h c List.mem_cons_self).bind fun s _ => ?_
      exact ih _ fun d hd => h d (List.mem_cons_of_mem _ hd)

theorem foldSignals_computes {f : Condition α → Measured α Signal}
    {g : Condition α → Except Failure Signal} (length : Nat) {cs : List (Condition α)}
    (h : ∀ c ∈ cs, Computes m (f c) (g c)) :
    Computes m (foldSignals length f cs) (foldSignals length g cs) := by
  cases cs with
  | nil => exact .result _
  | cons c rest =>
      refine (h c List.mem_cons_self).bind fun s _ => ?_
      exact joinFrom_computes _ fun d hd => h d (List.mem_cons_of_mem _ hd)

theorem signal_computes (c : Condition α) : Computes m (c.signal m) (c.directSignal m) := by
  rw [signal_eq_sides]
  exact c.sides_computes.map _

/-- What a list of conditions computes through a faithful cache is its direct signal. -/
theorem listSignal_computes (cs : List (Condition α)) :
    Computes m (listSignal m cs) (directListSignal m cs) := by
  rw [listSignal_eq_foldSignals]
  exact foldSignals_computes _ fun c _ => c.signal_computes

end Condition

/-- The answers of direct sources are the direct signals. -/
theorem Condition.listSignal_empty (cs : List (Condition α)) :
    (listSignal m cs .empty).1 = directListSignal m cs :=
  (listSignal_computes cs .empty IndicatorCache.faithful_empty).1

end StrategyTree
