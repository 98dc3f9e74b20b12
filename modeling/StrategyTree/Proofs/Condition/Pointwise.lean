import StrategyTree.Proofs.Condition.Tally
import StrategyTree.Proofs.Exact
/-!
# Signals day by day

What a list of conditions says on a day is told from the entries of both sides of each
condition: a relation between the entries of the day, for a crossing also those of the
day before, for a sustained condition those of the last days. The verdicts of a list are
folded from the left, each by its own tag. Undefined lies between false and true; `and`
asks for the lesser of two verdicts, `or` for the greater. The signal that is computed over
the whole matrix, from whatever the cache holds, is this verdict on every day.
-/
namespace StrategyTree

variable {α : Type} [Arith α]

/-! ### Verdicts of one day -/

namespace Verdict

/-- The place of a verdict in the order of false, undefined and true. -/
def rank : Verdict → Nat
  | some false => 0
  | none => 1
  | some true => 2

def lesser (a b : Verdict) : Verdict :=
  if a.rank ≤ b.rank then a else b

def greater (a b : Verdict) : Verdict :=
  if a.rank ≤ b.rank then b else a

/-- The verdict on two parts of a list of which the second is tagged. The tag of a first
condition makes the list begin anew. -/
def joined (c : Connective) (before next : Verdict) : Verdict :=
  match c with
  | .first => next
  | .and => before.lesser next
  | .or => before.greater next

theorem join_eq_joined (c : Connective) (before next : Verdict) :
    join c before next = joined c before next := by
  cases c with
  | first => rfl
  | and | or => rcases before with _ | _ | _ <;> rcases next with _ | _ | _ <;> rfl

end Verdict

namespace Comparator

/-- What a comparator says of two numbers. A crossing says that one is above the other, equality
that they are less than a billionth apart. -/
def Relates (c : Comparator) (left right : α) : Prop :=
  match c with
  | .gt | .crossesAbove => right < left
  | .ge => right ≤ left
  | .lt | .crossesBelow => left < right
  | .le => left ≤ right
  | .eq => Arith.abs (left - right) < 1e-9
  | .ne => 1e-9 ≤ Arith.abs (left - right)

instance (c : Comparator) (left right : α) : Decidable (c.Relates left right) :=
  match c with
  | .gt | .crossesAbove => inferInstanceAs (Decidable (right < left))
  | .ge => inferInstanceAs (Decidable (right ≤ left))
  | .lt | .crossesBelow => inferInstanceAs (Decidable (left < right))
  | .le => inferInstanceAs (Decidable (left ≤ right))
  | .eq => inferInstanceAs (Decidable (Arith.abs (left - right) < 1e-9))
  | .ne => inferInstanceAs (Decidable (1e-9 ≤ Arith.abs (left - right)))

theorem holds_eq_decide (c : Comparator) (left right : α) :
    c.holds left right = decide (c.Relates left right) := by
  cases c <;> rfl

end Comparator

/-- Whether a verdict was true on each of `days` days up to `day`: undefined until there are
so many days or if one of them is. -/
def Signal.heldOn (days : Nat) (base : Nat → Verdict) (day : Nat) : Verdict :=
  if day + 1 < days ∨ ∃ back < days, base (day - back) = none then none
  else some (decide (∀ back < days, base (day - back) = some true))

/-- The entry of a reading on a day. -/
def Reading.on (m : PriceMatrix α) (r : Reading) (day : Nat) : Option α :=
  match r.indicator with
  | .ok i => (m.indicator r.ticker i).at? day
  | .error _ => none

def Reference.on (m : PriceMatrix α) (day : Nat) : Reference α → Option α
  | .threshold x => some x
  | .reading r => r.on m day

namespace Condition

/-- The relation on one day, undefined where one of the sides is. -/
def relationOn (c : Comparator) : Option α → Option α → Verdict
  | some left, some right => some (decide (c.Relates left right))
  | _, _ => none

/-- The verdict on a relation that has to begin today: undefined on the first day, and where
it is undefined today or on the day before. -/
def beginsOn (relation : Nat → Verdict) : Nat → Verdict
  | 0 => none
  | day + 1 =>
      match relation (day + 1), relation day with
      | some today, some yesterday => some (today && !yesterday)
      | _, _ => none

/-- What a condition says on a day before it is sustained. -/
def baseOn (c : Condition α) (left right : Nat → Option α) : Nat → Verdict :=
  let relation := fun day => relationOn c.comparator (left day) (right day)
  match c.comparator with
  | .crossesAbove | .crossesBelow => beginsOn relation
  | .gt | .ge | .lt | .le | .eq | .ne => relation

/-- What a condition says on a day, from the entries of its sides. -/
def verdictOn (c : Condition α) (left right : Nat → Option α) : Nat → Verdict :=
  match c.sustainedDays with
  | some days => if 1 < days then Signal.heldOn days (c.baseOn left right) else c.baseOn left right
  | none => c.baseOn left right

def on (m : PriceMatrix α) (c : Condition α) : Nat → Verdict :=
  c.verdictOn (c.left.on m) (fun day => c.right.on m day)

/-- What a list of conditions says on a day. The first condition counts whatever its tag,
each later one joins those before it by its own, and no conditions always hold. -/
def listOn (m : PriceMatrix α) : List (Condition α) → Nat → Verdict
  | [], _ => some true
  | c :: rest, day =>
      rest.foldl (fun before d => Verdict.joined d.connective before (d.on m day)) (c.on m day)

end Condition

/-! ### Signals of one verdict a day -/

namespace Signal

variable {length : Nat} {f g : Nat → Verdict}

theorem crossings_eq : crossings length ((List.range length).map f) =
    (List.range length).map (Condition.beginsOn f) := by
  refine List.map_congr_left fun day hday => ?_
  have hlt := List.mem_range.1 hday
  cases day with
  | zero => rfl
  | succ day =>
      have hbefore : day < length := by omega
      have htoday : ((List.range length).map f)[day + 1]?.join = f (day + 1) := by simp [hlt]
      have hyesterday : ((List.range length).map f)[day]?.join = f day := by simp [hbefore]
      rw [if_neg (Nat.succ_ne_zero day), Nat.add_sub_cancel, htoday, hyesterday,
        Condition.beginsOn]
      cases f (day + 1) <;> cases f day <;> rfl

/-- The window of a signal that says `f` holds what `f` says on the last days. -/
theorem mem_window {days day : Nat} {v : Verdict} (h : days ≤ day + 1) :
    v ∈ ((List.range (day + 1)).map f).rtake days ↔ ∃ back < days, f (day - back) = v := by
  rw [Window.mem_rtake, List.length_map, List.length_range, Nat.add_sub_cancel]
  have hentry (back : Nat) : ((List.range (day + 1)).map f)[day - back]? = some (f (day - back)) := by
    rw [List.getElem?_map, List.getElem?_range (by omega)]
    rfl
  simp only [hentry, Option.some.injEq]
  exact ⟨fun ⟨back, hback, _, hv⟩ => ⟨back, hback, hv⟩,
    fun ⟨back, hback, hv⟩ => ⟨back, hback, by omega, hv⟩⟩

theorem verdict_window (days day : Nat) :
    (Tally.ofWindow days ((List.range (day + 1)).map f)).verdict days = heldOn days f day := by
  rw [Tally.verdict_ofWindow, heldOn, List.length_map, List.length_range]
  by_cases hfull : day + 1 < days
  · rw [if_pos (.inl hfull), if_pos (.inl hfull)]
  · simp only [hfull, false_or, mem_window (Nat.le_of_not_lt hfull)]
    by_cases hnone : ∃ back < days, f (day - back) = none
    · rw [if_pos hnone, if_pos hnone]
    · rw [if_neg hnone, if_neg hnone]
      -- where no verdict is undefined, one that is not false is true
      refine congrArg some (decide_eq_decide.2 ?_)
      push Not at hnone ⊢
      refine forall_congr' fun back => forall_congr' fun hback => ?_
      have hdefined := hnone back hback
      rcases hv : f (day - back) with _ | _ | _
      · exact absurd hv hdefined
      · simp
      · simp

theorem sustain_eq {days : Nat} (hdays : 0 < days) : sustain days ((List.range length).map f) =
    (List.range length).map (heldOn days f) := by
  refine List.ext_getElem? fun day => ?_
  by_cases h : day < length
  · rw [getElem?_sustain hdays (by simpa using h), ← List.map_take, List.take_range,
      Nat.min_eq_left h, verdict_window, List.getElem?_map, List.getElem?_range h]
    rfl
  · rw [List.getElem?_eq_none (by simpa using h), List.getElem?_eq_none (by simpa using h)]

theorem join_map (c : Connective) (days : List Nat) :
    join c (days.map f) (days.map g) = days.map fun day => Verdict.joined c (f day) (g day) := by
  induction days with
  | nil => rfl
  | cons day rest ih =>
      have hday := Verdict.join_eq_joined c (f day) (g day)
      exact congrArg₂ List.cons hday ih

end Signal

namespace Condition

variable {length : Nat} {f g : Nat → Option α}

theorem relation_map (c : Comparator) (days : List Nat) :
    relation c (days.map f) (days.map g) = days.map fun day => relationOn c (f day) (g day) := by
  induction days with
  | nil => rfl
  | cons day rest ih =>
      have hday : ((f day).bind fun l => (g day).map fun r => c.holds l r) =
          relationOn c (f day) (g day) := by
        cases f day with
        | none => rfl
        | some l =>
            cases g day with
            | none => rfl
            | some r => exact congrArg some (c.holds_eq_decide l r)
      rw [relation] at ih
      rw [relation, List.map_cons, List.map_cons, List.zipWith_cons_cons, hday, ih, List.map_cons]

/-- The signal of a condition says each day what its sides say on that day. -/
theorem signalOf_map (c : Condition α) :
    c.signalOf length ((List.range length).map f) ((List.range length).map g) =
      (List.range length).map (c.verdictOn f g) := by
  have hbase : (if c.comparator.isCrossing then Signal.crossings length
      ((List.range length).map fun day => relationOn c.comparator (f day) (g day))
      else (List.range length).map fun day => relationOn c.comparator (f day) (g day)) =
      (List.range length).map (c.baseOn f g) := by
    rw [Signal.crossings_eq, baseOn]
    cases c.comparator <;> rfl
  simp only [signalOf, verdictOn, relation_map, hbase]
  cases c.sustainedDays with
  | none => rfl
  | some days =>
      dsimp only
      split
      · next hdays => exact Signal.sustain_eq (by omega)
      · rfl

variable {m : PriceMatrix α}

/-- A reading has its entry of the day on every day. -/
theorem directSeries_eq (hm : m.Aligned) {r : Reading} (h : ∃ i, r.indicator = .ok i) :
    r.directSeries m = .ok ((List.range m.length).map (r.on m)) := by
  obtain ⟨i, hi⟩ := h
  have hon : r.on m = (m.indicator r.ticker i).at? := by
    funext day
    rw [Reading.on, hi]
  rw [Reading.directSeries, hi, hon]
  refine congrArg Except.ok (List.ext_getElem? fun day => ?_)
  have hlength := hm.length_indicator r.ticker i
  rw [List.getElem?_map]
  by_cases h : day < m.length
  · have hentry := List.getElem?_eq_getElem (hlength ▸ h : day < (m.indicator r.ticker i).length)
    rw [List.getElem?_range h, Option.map_some, Series.at?, hentry]
    rfl
  · rw [List.getElem?_eq_none (by omega), List.getElem?_eq_none (by simpa using h)]
    rfl

theorem Resolves.directSignal_eq (hm : m.Aligned) {c : Condition α} (h : c.Resolves) :
    c.directSignal m = .ok ((List.range m.length).map (c.on m)) := by
  have hother : otherSide m.length (Reading.directSeries m) c.right =
      .ok ((List.range m.length).map fun day => c.right.on m day) := by
    cases hc : c.right with
    | threshold x =>
        refine congrArg Except.ok ?_
        change _ = (List.range m.length).map fun _ => some x
        rw [List.map_const', List.length_range]
    | reading r => exact directSeries_eq hm (h.right hc)
  rw [directSignal, sides, directSeries_eq hm h.left, hother]
  exact congrArg Except.ok c.signalOf_map

theorem joinFrom_eq (hm : m.Aligned) (f : Nat → Verdict) {cs : List (Condition α)}
    (h : ∀ c ∈ cs, c.Resolves) :
    joinFrom (directSignal m) ((List.range m.length).map f) cs =
      .ok ((List.range m.length).map fun day =>
        cs.foldl (fun before d => Verdict.joined d.connective before (d.on m day)) (f day)) := by
  induction cs generalizing f with
  | nil => rfl
  | cons c rest ih =>
      obtain ⟨hc, hrest⟩ := List.forall_mem_cons.1 h
      rw [joinFrom, hc.directSignal_eq hm]
      change joinFrom _ (Signal.join c.connective ((List.range m.length).map f)
        ((List.range m.length).map (c.on m))) rest = _
      rw [Signal.join_map, ih _ hrest]
      rfl

/-- Without a cache, the signal of a list of conditions is its verdict on every day. -/
theorem directListSignal_eq (hm : m.Aligned) {cs : List (Condition α)}
    (h : ∀ c ∈ cs, c.Resolves) :
    directListSignal m cs = .ok ((List.range m.length).map (listOn m cs)) := by
  cases cs with
  | nil =>
      refine congrArg Except.ok ?_
      change _ = (List.range m.length).map fun _ => some true
      rw [List.map_const', List.length_range]
  | cons c rest =>
      obtain ⟨hc, hrest⟩ := List.forall_mem_cons.1 h
      have hnone : List.replicate m.length (none : Verdict) =
          (List.range m.length).map fun _ => none := by
        rw [List.map_const', List.length_range]
      rw [directListSignal, foldSignals, hc.directSignal_eq hm, hnone]
      change joinFrom _ (Signal.join .first ((List.range m.length).map fun _ => none)
        ((List.range m.length).map (c.on m))) rest = _
      rw [Signal.join_map, joinFrom_eq hm _ hrest]
      rfl

/-! ### By index, with counters that may not fall below zero -/

/-- The signal of a condition by index, from the series of its two sides. -/
def strictSignalOf? (c : Condition α) (length : Nat) (left right : Series α) : Option Signal := do
  let relation := relation c.comparator left right
  let base ← if c.comparator.isCrossing then Signal.crossings? length relation else some relation
  match c.sustainedDays with
  | some days => if 1 < days then Signal.sustainStrictly? days base else return base
  | none => return base

theorem strictSignalOf?_eq (c : Condition α) (length : Nat) (left right : Series α) :
    c.strictSignalOf? length left right = c.signalOf? length left right := by
  have hsustain (days : Nat) (base : Signal) :
      (if 1 < days then Signal.sustainStrictly? days base else return base) =
        if 1 < days then Signal.sustain? days base else return base := by
    split
    · next hdays => rw [Signal.sustainStrictly?_eq (by omega), Signal.sustain?_eq]
    · rfl
  unfold strictSignalOf? signalOf?
  cases c.sustainedDays with
  | none => rfl
  | some days => simp only [hsustain]

/-- The signal of a condition by index, which fails past the end of a series and where a
counter would fall below zero. -/
def strictSignal (failure : Failure) (m : PriceMatrix α) (c : Condition α) :
    Measured α Signal := do
  let p ← c.sides m.length (Reading.series m)
  match c.strictSignalOf? m.length p.1 p.2 with
  | some signal => return signal
  | none => throw failure

/-- The signal of a list of conditions, each of which is computed strictly. -/
def strictListSignal (failure : Failure) (m : PriceMatrix α) :
    List (Condition α) → Measured α Signal :=
  foldSignals m.length (strictSignal failure m)

theorem strictListSignal_eq (failure : Failure) (m : PriceMatrix α) :
    strictListSignal failure m = indexedListSignal failure m := by
  have hsignal : strictSignal failure m = indexedSignal failure m := by
    funext c
    unfold strictSignal indexedSignal
    refine congrArg (_ >>= ·) (funext fun p => ?_)
    exact congrArg (fun signal? => match signal? with
      | some signal => (return signal : Measured α Signal)
      | none => throw failure) (strictSignalOf?_eq c m.length p.1 p.2)
  rw [strictListSignal, indexedListSignal, hsignal]

/-- Whatever a faithful cache holds, the signal of a list of conditions that name indicators
is its verdict on every day of the matrix. It is computed without a look-up past an end and
without a counter that falls below zero, and leaves a faithful cache. -/
theorem listSignal_pointwise (hm : m.Aligned) {cs : List (Condition α)}
    (hcs : ∀ c ∈ cs, c.Resolves) {cache : IndicatorCache α} (hcache : cache.Faithful m)
    (failure : Failure) :
    (listSignal m cs cache).1 = .ok ((List.range m.length).map (listOn m cs)) ∧
      (listSignal m cs cache).2.Faithful m ∧
      (strictListSignal failure m cs cache).1 =
        .ok ((List.range m.length).map (listOn m cs)) := by
  have hdirect := directListSignal_eq hm hcs
  obtain ⟨hsignal, hfaithful⟩ := listSignal_computes cs cache hcache
  obtain ⟨hindexed, -⟩ := indexedListSignal_computes hm failure cs cache hcache
  rw [strictListSignal_eq]
  exact ⟨hsignal.trans hdirect, hfaithful, hindexed.trans hdirect⟩

/-! ### A sample -/

section Sample

/-- One ticker at 1, 3, 5 and 5, with a day without a price after the first. -/
def sampleGap : PriceMatrix (Exact Rat.toNNRat fun x _ => x) where
  dates := [⟨2024, 1, 2⟩, ⟨2024, 1, 3⟩, ⟨2024, 1, 4⟩, ⟨2024, 1, 5⟩, ⟨2024, 1, 8⟩]
  prices := Table.empty.insert "SPY"
    (let xs := [some 1, none, some 3, some 5, some 5]; ⟨xs, xs, xs, xs, xs⟩)
  limiting := none

/-- The price is above 2 or crosses 4, and is at most 3, or has been at least 5 on two days. -/
def sampleRise : List (Condition (Exact Rat.toNNRat fun x _ => x)) :=
  [⟨.and, ⟨.currentPrice, 0, "SPY"⟩, .gt, .threshold 2, none⟩,
    ⟨.or, ⟨.currentPrice, 0, "SPY"⟩, .crossesAbove, .threshold 4, none⟩,
    ⟨.and, ⟨.currentPrice, 0, "SPY"⟩, .le, .threshold 3, none⟩,
    ⟨.or, ⟨.currentPrice, 0, "SPY"⟩, .ge, .threshold 5, some 2⟩]

theorem sampleGap_aligned : sampleGap.Aligned := by
  intro ticker p h
  have hentry : (ticker, p) ∈ sampleGap.prices.entries := Table.get?_eq_some_iff.1 h
  obtain ⟨rfl, rfl⟩ := Prod.mk.inj (List.mem_singleton.1 hentry)
  exact ⟨rfl, rfl, rfl, rfl, rfl⟩

theorem sampleRise_resolves : ∀ c ∈ sampleRise, c.Resolves := by
  intro c hc
  simp only [sampleRise, List.mem_cons, List.not_mem_nil, or_false] at hc
  rcases hc with rfl | rfl | rfl | rfl <;> exact ⟨⟨_, rfl⟩, (fun h => by cases h)⟩

/-- With the price series in the cache. On the third day the last condition is undefined, but what
comes before it is true. On the fourth day the list would hold if `and` were to bind its two
conditions first. -/
theorem sample_pointwise :
    (listSignal sampleGap sampleRise (IndicatorCache.empty.series sampleGap "SPY" .price).2).1 =
      .ok [none, none, some true, some false, some true] := by
  have hcache := (IndicatorCache.faithful_empty (m := sampleGap)).series "SPY" .price
  have hdays : (List.range sampleGap.length).map (listOn sampleGap sampleRise) =
      [none, none, some true, some false, some true] := by decide +kernel
  rw [← hdays]
  exact (listSignal_pointwise sampleGap_aligned sampleRise_resolves hcache.2 .emptyAnchors).1

end Sample

end Condition
end StrategyTree
