import StrategyTree.Proofs.Condition.Signal
import StrategyTree.Proofs.Outcome
/-!
# Conditions computed by index

Here a signal is computed one day after the other from entries that are looked up
by their index, and computing it fails if an index lies past the end of a series.
On an aligned matrix no look-up fails, and the signal is the same.
-/
namespace StrategyTree

theorem mapM_eq_some_map {β γ : Type} {f : β → Option γ} {g : β → γ} {xs : List β}
    (h : ∀ x ∈ xs, f x = some (g x)) : xs.mapM f = some (xs.map g) := by
  induction xs with
  | nil => rfl
  | cons x rest ih =>
      rw [List.mapM_cons, h x List.mem_cons_self, ih fun y hy => h y (List.mem_cons_of_mem _ hy)]
      rfl

namespace Signal

/-- Where a relation begins to hold, if it reaches as far as the dates do. -/
def crossings? (length : Nat) (relation : Signal) : Option Signal :=
  (List.range length).mapM fun day =>
    if day = 0 then some none
    else do
      let today ← relation[day]?
      let yesterday ← relation[day - 1]?
      return do
        let today ← today
        let yesterday ← yesterday
        some (today && !yesterday)

theorem crossings?_eq {length : Nat} {relation : Signal} (h : length ≤ relation.length) :
    crossings? length relation = some (crossings length relation) := by
  refine mapM_eq_some_map fun day hday => ?_
  have hlt : day < relation.length := Nat.lt_of_lt_of_le (List.mem_range.1 hday) h
  split
  · rfl
  · rw [List.getElem?_eq_getElem hlt, List.getElem?_eq_getElem (Nat.lt_of_le_of_lt (by omega) hlt)]
    rfl

/-- Each verdict with the one `days` days before, once there is one. -/
def entries? (days : Nat) (base : Signal) : Option (List (Verdict × Option Verdict)) :=
  (List.range base.length).mapM fun day => do
    let entering ← base[day]?
    if day < days then return (entering, none)
    return (entering, some (← base[day - days]?))

theorem entries?_eq (days : Nat) (base : Signal) :
    entries? days base = some (base.zip (Series.delayed days (base.map some))) := by
  have hzip : base.zip (Series.delayed days (base.map some)) =
      (List.range base.length).map fun day =>
        (base[day]?.join, if day < days then none else base[day - days]?) := by
    refine List.ext_getElem (by simp) fun day h₁ h₂ => ?_
    have hlt : day < base.length := by simpa using h₂
    have hdelayed := Series.getElem?_delayed days day (base.map some)
    rw [List.length_map, if_pos hlt, List.getElem?_eq_some_iff] at hdelayed
    obtain ⟨_, hentry⟩ := hdelayed
    rw [List.getElem_zip, hentry, List.getElem_map, List.getElem_range,
      List.getElem?_eq_getElem hlt, Series.at?, List.getElem?_map]
    cases base[day - days]? <;> rfl
  rw [hzip]
  refine mapM_eq_some_map fun day hday => ?_
  have hlt := List.mem_range.1 hday
  have hbefore : day - days < base.length := by omega
  rw [List.getElem?_eq_getElem hlt, List.getElem?_eq_getElem hbefore]
  split <;> rfl

/-- Whether a signal was true on each of the last `days` days. -/
def sustain? (days : Nat) (base : Signal) : Option Signal :=
  slide days ⟨0, 0, 0⟩ <$> entries? days base

theorem sustain?_eq (days : Nat) (base : Signal) :
    sustain? days base = some (sustain days base) := by
  rw [sustain?, entries?_eq]
  rfl

end Signal

open Outcome

variable {α : Type} [Arith α]

namespace Condition

/-- The signal of a condition by index, from the series of its two sides. -/
def signalOf? (c : Condition α) (length : Nat) (left right : Series α) : Option Signal := do
  let relation := relation c.comparator left right
  let base ← if c.comparator.isCrossing then Signal.crossings? length relation else some relation
  match c.sustainedDays with
  | some days => if 1 < days then Signal.sustain? days base else return base
  | none => return base

theorem signalOf?_eq (c : Condition α) {length : Nat} {left right : Series α}
    (hl : left.length = length) (hr : right.length = length) :
    c.signalOf? length left right = some (c.signalOf length left right) := by
  have hrelation : length ≤ (relation c.comparator left right).length := by
    rw [relation, List.length_zipWith]
    omega
  simp only [signalOf?, signalOf, Signal.crossings?_eq hrelation]
  cases c.comparator.isCrossing <;> cases c.sustainedDays with
  | none => rfl
  | some days =>
      simp only [Bool.false_eq_true, if_false, if_true, Option.bind_eq_bind, Option.bind_some]
      split
      · exact Signal.sustain?_eq days _
      · rfl

/-- On an aligned matrix both sides of a condition have one entry a date. -/
theorem length_sides {m : PriceMatrix α} (hm : m.Aligned) {c : Condition α}
    {p : Series α × Series α} (h : c.sides m.length (Reading.directSeries m) = .ok p) :
    p.1.length = m.length ∧ p.2.length = m.length := by
  have hseries {r : Reading} {xs : Series α} (h : r.directSeries m = .ok xs) :
      xs.length = m.length := by
    obtain ⟨i, -, h⟩ := bind_ok.1 h
    obtain rfl := Except.ok.inj h
    exact hm.length_indicator r.ticker i
  obtain ⟨left, hleft, h⟩ := bind_ok.1 h
  obtain ⟨right, hright, h⟩ := bind_ok.1 h
  obtain rfl := Except.ok.inj h
  refine ⟨hseries hleft, ?_⟩
  cases hc : c.right with
  | threshold x =>
      rw [hc] at hright
      obtain rfl := Except.ok.inj hright
      exact List.length_replicate
  | reading r =>
      rw [hc] at hright
      exact hseries hright

/-- The signal of a condition by index, which fails with `outOfRange` past the end. -/
def indexedSignal (outOfRange : Failure) (m : PriceMatrix α) (c : Condition α) :
    Measured α Signal := do
  let p ← c.sides m.length (Reading.series m)
  match c.signalOf? m.length p.1 p.2 with
  | some signal => return signal
  | none => throw outOfRange

/-- The signal of a list of conditions, each of which is computed by index. -/
def indexedListSignal (outOfRange : Failure) (m : PriceMatrix α) :
    List (Condition α) → Measured α Signal :=
  foldSignals m.length (indexedSignal outOfRange m)

open Measured

variable {m : PriceMatrix α}

theorem indexedSignal_computes (hm : m.Aligned) (outOfRange : Failure) (c : Condition α) :
    Computes m (c.indexedSignal outOfRange m) (c.directSignal m) := by
  unfold indexedSignal directSignal
  rw [map_eq_pure_bind]
  refine c.sides_computes.bind fun p hp => ?_
  obtain ⟨hl, hr⟩ := length_sides hm hp
  simp only [c.signalOf?_eq hl hr]
  exact .result _

/-- On an aligned matrix a list of conditions is computed by index without a failure to
look up an entry. -/
theorem indexedListSignal_computes (hm : m.Aligned) (outOfRange : Failure)
    (cs : List (Condition α)) :
    Computes m (indexedListSignal outOfRange m cs) (directListSignal m cs) :=
  foldSignals_computes _ fun c _ => c.indexedSignal_computes hm outOfRange

end Condition
end StrategyTree
