import StrategyTree.Proofs.Condition.Signal
import StrategyTree.Proofs.Indicator.Prefix
/-!
# Prefixes of signals

The verdict of a condition list on a day depends on the days up to it only.
-/
namespace StrategyTree

namespace Signal

theorem crossings_take (length k : Nat) (relation : Signal) :
    crossings (min k length) (relation.take k) = (crossings length relation).take k := by
  unfold crossings
  rw [← List.map_take, List.take_range]
  refine List.map_congr_left fun day hday => ?_
  have hk : day < k := by
    rw [List.mem_range] at hday
    omega
  have hk' : day - 1 < k := by omega
  rw [List.getElem?_take, List.getElem?_take, if_pos hk, if_pos hk']

theorem slide_take (days k : Nat) (t : Tally) (ps : List (Verdict × Option Verdict)) :
    slide days t (ps.take k) = (slide days t ps).take k := by
  induction ps generalizing t k with
  | nil => simp [slide]
  | cons p rest ih =>
      cases k with
      | zero => simp [slide]
      | succ k => simp [slide, ih]

theorem sustain_take (days k : Nat) (base : Signal) :
    sustain days (base.take k) = (sustain days base).take k := by
  rw [sustain, sustain, List.map_take, Series.delayed_take, ← slide_take, List.zip_eq_zipWith,
    List.zip_eq_zipWith, List.take_zipWith]

theorem join_take (c : Connective) (k : Nat) (before next : Signal) :
    join c (before.take k) (next.take k) = (join c before next).take k := by
  induction k generalizing before next with
  | zero => simp [join]
  | succ k ih => cases before <;> cases next <;> simp [join, ih]

end Signal

variable {α : Type} [Arith α]

namespace Condition

theorem relation_take (c : Comparator) (k : Nat) (left right : Series α) :
    relation c (left.take k) (right.take k) = (relation c left right).take k :=
  List.take_zipWith.symm

theorem signalOf_take (c : Condition α) (length k : Nat) (left right : Series α) :
    c.signalOf (min k length) (left.take k) (right.take k) =
      (c.signalOf length left right).take k := by
  simp only [signalOf, relation_take, Signal.crossings_take]
  cases c.comparator.isCrossing <;> cases c.sustainedDays with
  | none => rfl
  | some days =>
      simp only [Bool.false_eq_true, if_false, if_true, Signal.sustain_take]
      split <;> rfl

variable (m : PriceMatrix α) (k : Nat)

theorem sides_take (c : Condition α) :
    c.sides (m.take k).length (Reading.directSeries (m.take k)) =
      (fun p => (p.1.take k, p.2.take k)) <$> c.sides m.length (Reading.directSeries m) := by
  have hseries (r : Reading) : r.directSeries (m.take k) = List.take k <$> r.directSeries m := by
    unfold Reading.directSeries
    cases r.indicator with
    | error e => rfl
    | ok i => exact congrArg Except.ok (m.indicator_take k r.ticker i)
  have hother : otherSide (m.take k).length (Reading.directSeries (m.take k)) c.right =
      List.take k <$> otherSide m.length (Reading.directSeries m) c.right := by
    cases c.right with
    | threshold x =>
        refine congrArg Except.ok ?_
        rw [m.length_take, List.take_replicate]
    | reading r => exact hseries r
  rw [sides, sides, hseries, hother]
  cases c.left.directSeries m with
  | error e => rfl
  | ok left => cases otherSide m.length (Reading.directSeries m) c.right <;> rfl

theorem directSignal_take (c : Condition α) :
    c.directSignal (m.take k) = List.take k <$> c.directSignal m := by
  rw [directSignal, directSignal, sides_take]
  cases c.sides m.length (Reading.directSeries m) with
  | error e => rfl
  | ok p =>
      refine congrArg Except.ok ?_
      rw [m.length_take]
      exact c.signalOf_take m.length k p.1 p.2

theorem joinFrom_take (before : Signal) (cs : List (Condition α)) :
    joinFrom (directSignal (m.take k)) (before.take k) cs =
      List.take k <$> joinFrom (directSignal m) before cs := by
  induction cs generalizing before with
  | nil => rfl
  | cons c rest ih =>
      rw [joinFrom, joinFrom, directSignal_take]
      cases c.directSignal m with
      | error e => rfl
      | ok s =>
          change joinFrom _ (Signal.join c.connective (before.take k) (s.take k)) rest = _
          rw [Signal.join_take, ih]
          rfl

/-- No list of conditions looks ahead. -/
theorem directListSignal_take (cs : List (Condition α)) :
    directListSignal (m.take k) cs = List.take k <$> directListSignal m cs := by
  have hreplicate (v : Verdict) :
      List.replicate (m.take k).length v = (List.replicate m.length v).take k := by
    rw [m.length_take, List.take_replicate]
  cases cs with
  | nil => exact congrArg Except.ok (hreplicate _)
  | cons c rest =>
      rw [directListSignal, directListSignal, foldSignals, foldSignals, directSignal_take,
        hreplicate]
      cases c.directSignal m with
      | error e => rfl
      | ok s =>
          change joinFrom _ (Signal.join .first ((List.replicate m.length none).take k) (s.take k))
            rest = _
          rw [Signal.join_take, joinFrom_take]
          rfl

end Condition
end StrategyTree
