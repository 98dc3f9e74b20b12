import StrategyTree.Proofs.ExactArith
import StrategyTree.Proofs.Indicator.Windows
/-!
# Gaps

A missing entry splits a series in two: every indicator has no value on it, has its old
values before it, and after it has the values of the later part alone. This is also so
for loops that keep their running averages over a gap: the averages are overwritten before
they are read again.
-/
namespace StrategyTree

variable {α : Type} [Arith α]

namespace Indicator

open Series

/-- Reads the parts before and after a gap on their own. -/
def Restarts {ο : Type} (f : Series α → List (Option ο)) : Prop :=
  ∀ xs ys g, usable g = none → f (xs ++ g :: ys) = f xs ++ none :: f ys

variable {σ ο ο' : Type}

theorem restarts_run (m : Machine σ α ο) : Restarts fun xs => m.run (xs.map usable) := by
  intro xs ys g hg
  change m.run ((xs ++ g :: ys).map usable) = _
  rw [List.map_append, List.map_cons, hg, m.run_gap]

omit [Arith α] in
theorem replicate_gap (xs ys : Series α) (g : Option α) :
    List.replicate (xs ++ g :: ys).length (none : Option ο) =
      List.replicate xs.length none ++ none :: List.replicate ys.length none := by
  rw [List.length_append, List.length_cons, List.replicate_add, List.replicate_succ]

theorem restarts_none : Restarts fun xs : Series α => List.replicate xs.length (none : Option ο) :=
  fun xs ys g _ => replicate_gap xs ys g

theorem Restarts.map {f : Series α → List (Option ο)} (h : Restarts f) {φ : Option ο → Option ο'}
    (hφ : φ none = none) : Restarts fun xs => (f xs).map φ := by
  intro xs ys g hg
  change (f (xs ++ g :: ys)).map φ = _
  rw [h xs ys g hg, List.map_append, List.map_cons, hφ]

/-- What is read day by day beside the series itself. -/
theorem Restarts.zipWith {f : Series α → List (Option ο)} (h : Restarts f)
    (hlength : ∀ xs, (f xs).length = xs.length) {φ : Option ο → Option α → Option ο'}
    (hφ : ∀ x, φ none x = none) : Restarts fun xs => List.zipWith φ (f xs) xs := by
  intro xs ys g hg
  change List.zipWith φ (f (xs ++ g :: ys)) (xs ++ g :: ys) = _
  rw [h xs ys g hg, List.zipWith_append (hlength xs), List.zipWith_cons_cons, hφ]

theorem Restarts.comp {f : Series α → Series α} {φ : Series α → List (Option ο)}
    (hφ : Restarts φ) (hf : Restarts f) : Restarts fun xs => φ (f xs) := by
  intro xs ys g hg
  change φ (f (xs ++ g :: ys)) = _
  rw [hf xs ys g hg, hφ _ _ none rfl]

theorem Restarts.difference {f g : Series α → Series α} (hf : Restarts f) (hg : Restarts g)
    (hlength : ∀ xs, (f xs).length = (g xs).length) :
    Restarts fun xs => difference (f xs) (g xs) := by
  intro xs ys x hx
  change Indicator.difference (f (xs ++ x :: ys)) (g (xs ++ x :: ys)) = _
  rw [hf xs ys x hx, hg xs ys x hx, Indicator.difference, List.zipWith_append (hlength xs)]
  rfl

variable (n : Nat)

theorem restarts_simpleAverage : Restarts fun xs : Series α => simpleAverage xs n := by
  rcases Nat.eq_zero_or_pos n with rfl | hn
  · exact restarts_none
  · simp only [simpleAverage_eq hn]
    exact restarts_run _

theorem restarts_exponentialAverage : Restarts fun xs : Series α => exponentialAverage xs n := by
  rcases Nat.eq_zero_or_pos n with rfl | hn
  · exact restarts_none
  · simp only [exponentialAverage, if_neg hn.ne']
    exact restarts_run _

theorem restarts_convergenceHistogram (fast slow signal : Nat) :
    Restarts fun xs : Series α => convergenceHistogram xs fast slow signal := by
  by_cases h : fast = 0 ∨ slow = 0 ∨ signal = 0
  · simp only [convergenceHistogram, if_pos h]
    exact restarts_none
  · simp only [convergenceHistogram, if_neg h]
    have hline := (restarts_exponentialAverage (α := α) fast).difference
      (restarts_exponentialAverage slow) (by simp)
    exact hline.difference ((restarts_exponentialAverage signal).comp hline) (by simp)

theorem restarts_relativeStrength : Restarts fun xs : Series α => relativeStrength xs n := by
  rcases Nat.eq_zero_or_pos n with rfl | hn
  · exact restarts_none
  · simp only [relativeStrength, if_neg hn.ne']
    exact restarts_run _

theorem restarts_rollingMoments : Restarts fun xs : Series α => rollingMoments xs n := by
  rcases Nat.eq_zero_or_pos n with rfl | hn
  · exact restarts_none
  · simp only [rollingMoments_eq hn]
    exact restarts_run _

theorem restarts_deviation : Restarts fun xs : Series α => deviation xs n :=
  (restarts_rollingMoments n).map rfl

theorem restarts_percentDeviation : Restarts fun xs : Series α => percentDeviation xs n :=
  (restarts_rollingMoments n).map rfl

theorem restarts_bandPosition (width : Nat) :
    Restarts fun xs : Series α => bandPosition xs n width :=
  (restarts_rollingMoments n).zipWith (fun xs => length_rollingMoments xs n) fun _ => rfl

theorem restarts_lineSlope : Restarts fun xs : Series α => lineSlope xs n := by
  by_cases hn : n < 2
  · simp only [lineSlope, if_pos hn]
    exact restarts_none
  · simp only [lineSlope_eq (Nat.le_of_not_lt hn)]
    exact restarts_run _

theorem restarts_cumulativeChange : Restarts fun xs : Series α => cumulativeChange xs n := by
  rcases Nat.eq_zero_or_pos n with rfl | hn
  · exact restarts_none
  · simp only [cumulativeChange_eq hn]
    exact restarts_run _

theorem restarts_dailyReturns : Restarts (dailyReturns (α := α)) := by
  rw [funext dailyReturns_eq]
  exact restarts_run _

theorem restarts_returnDeviation : Restarts fun xs : Series α => returnDeviation xs n :=
  (restarts_deviation n).comp restarts_dailyReturns

/-! ### Indicators of ranges -/

section Ranges

variable {hs ls cs hs' ls' cs' : Series α} {h l c : Option α}

theorem ranges_gap (hh : hs.length = cs.length) (hl : ls.length = cs.length)
    (hgap : usable h = none ∨ usable l = none ∨ usable c = none) :
    ranges (hs ++ h :: hs') (ls ++ l :: ls') (cs ++ c :: cs') =
      ranges hs ls cs ++ none :: ranges hs' ls' cs' := by
  induction cs generalizing hs ls with
  | nil =>
      obtain rfl := List.length_eq_zero_iff.1 hh
      obtain rfl := List.length_eq_zero_iff.1 hl
      have hnone : ((usable h).bind fun h => (usable l).bind fun l =>
          (usable c).map fun c => (⟨h, l, c⟩ : Range α)) = none := by
        rcases hgap with hgap | hgap | hgap <;> rw [hgap] <;> simp
      exact congrArg (· :: ranges hs' ls' cs') hnone
  | cons c₀ cs ih =>
      obtain ⟨h₀, hs, rfl⟩ := List.exists_cons_of_length_eq_add_one hh
      obtain ⟨l₀, ls, rfl⟩ := List.exists_cons_of_length_eq_add_one hl
      exact congrArg (_ :: ·) (ih (Nat.succ.inj hh) (Nat.succ.inj hl))

theorem averageTrueRange_gap (hh : hs.length = cs.length) (hl : ls.length = cs.length)
    (hgap : usable h = none ∨ usable l = none ∨ usable c = none) :
    averageTrueRange (hs ++ h :: hs') (ls ++ l :: ls') (cs ++ c :: cs') n =
      averageTrueRange hs ls cs n ++ none :: averageTrueRange hs' ls' cs' n := by
  rcases Nat.eq_zero_or_pos n with rfl | hn
  · exact replicate_gap cs cs' c
  · simp only [averageTrueRange, if_neg hn.ne', ranges_gap hh hl hgap, Machine.run_gap]

theorem averageDirection_gap (hh : hs.length = cs.length) (hl : ls.length = cs.length)
    (hgap : usable h = none ∨ usable l = none ∨ usable c = none) :
    averageDirection (hs ++ h :: hs') (ls ++ l :: ls') (cs ++ c :: cs') n =
      averageDirection hs ls cs n ++ none :: averageDirection hs' ls' cs' n := by
  rcases Nat.eq_zero_or_pos n with rfl | hn
  · exact replicate_gap cs cs' c
  · simp only [averageDirection, if_neg hn.ne', ranges_gap hh hl hgap, Machine.run_gap]

end Ranges

/-! ### Loops that keep their averages over a gap -/

/-- What a loop keeps of a smoothing over a gap: the average. -/
def Smoothing.lapse (s : Smoothing α) : Smoothing α :=
  ⟨s.average, 0, 0⟩

/-- Two smoothings count alike, and agree on the seed until it is used and on the average from
then on. -/
def Smoothing.Alike (n : Nat) (s t : Smoothing α) : Prop :=
  s.run = t.run ∧ (s.run < n → s.seed = t.seed) ∧ (n ≤ s.run → s.average = t.average)

theorem forgets_seeded {n : Nat} (hn : 0 < n) (next : α → α → α) :
    (seededMachine n next).Forgets Smoothing.lapse (Smoothing.Alike n) where
  start := ⟨rfl, fun _ => rfl, fun _ => rfl⟩
  lapse _ := ⟨rfl, fun _ => rfl, fun h => absurd h (Nat.not_le.2 hn)⟩
  step := by
    rintro ⟨average, seed, run⟩ ⟨average', seed', _⟩ x ⟨rfl, hseed, haverage⟩
    dsimp only at hseed haverage
    by_cases hlt : run + 1 < n
    · obtain rfl := hseed (by omega)
      simp only [seededMachine, if_pos hlt]
      exact ⟨rfl, fun _ => rfl, fun h => absurd h (Nat.not_le.2 hlt)⟩
    · by_cases heq : run + 1 = n
      · obtain rfl := hseed (by omega)
        simp only [seededMachine, if_neg hlt, if_pos heq]
        exact ⟨rfl, fun _ => rfl, fun _ => rfl⟩
      · obtain rfl := haverage (by omega)
        simp only [seededMachine, if_neg hlt, if_neg heq]
        exact ⟨rfl, fun h => absurd h hlt, fun _ => rfl⟩
  answer := by
    rintro ⟨average, seed, run⟩ ⟨average', seed', _⟩ x ⟨rfl, hseed, haverage⟩
    dsimp only at hseed haverage
    by_cases hlt : run + 1 < n
    · simp only [seededMachine, if_pos hlt]
    · by_cases heq : run + 1 = n
      · obtain rfl := hseed (by omega)
        simp only [seededMachine, if_neg hlt, if_pos heq]
      · obtain rfl := haverage (by omega)
        simp only [seededMachine, if_neg hlt, if_neg heq]

/-- What a loop keeps of gains and losses over a gap: their averages. -/
def GainLoss.lapse (s : GainLoss α) : GainLoss α :=
  ⟨none, 0, 0, 0, s.gain, s.loss⟩

/-- Two states count alike from the same last price, and agree on the seeds until they are
used and on the averages from then on. -/
def GainLoss.Alike (n : Nat) (s t : GainLoss α) : Prop :=
  s.previous = t.previous ∧ s.changes = t.changes ∧
    (s.changes < n → s.gainSeed = t.gainSeed ∧ s.lossSeed = t.lossSeed) ∧
    (n ≤ s.changes → s.gain = t.gain ∧ s.loss = t.loss)

/-- A change keeps what is alike, and is answered alike. -/
theorem GainLoss.Alike.change {n : Nat} {s t : GainLoss α} (h : s.Alike n t) (x : α) :
    (s.change n x).1.Alike n (t.change n x).1 ∧ (s.change n x).2 = (t.change n x).2 := by
  obtain ⟨previous, changes, gainSeed, lossSeed, gain, loss⟩ := s
  obtain ⟨previous', changes', gainSeed', lossSeed', gain', loss'⟩ := t
  obtain ⟨rfl, rfl, hseed, haverage⟩ := h
  dsimp only at hseed haverage
  by_cases hafter : n < changes + 1
  · obtain ⟨rfl, rfl⟩ := haverage (by omega)
    simp only [GainLoss.change, if_pos hafter]
    exact ⟨⟨rfl, rfl, fun h => by dsimp only at h; omega, fun _ => ⟨rfl, rfl⟩⟩, trivial⟩
  · obtain ⟨rfl, rfl⟩ := hseed (by omega)
    by_cases heq : changes + 1 = n
    · simp only [GainLoss.change, if_neg hafter, if_pos heq]
      exact ⟨⟨rfl, rfl, fun _ => ⟨rfl, rfl⟩, fun _ => ⟨rfl, rfl⟩⟩, trivial⟩
    · simp only [GainLoss.change, if_neg hafter, if_neg heq]
      exact ⟨⟨rfl, rfl, fun _ => ⟨rfl, rfl⟩, fun h => by dsimp only at h; omega⟩, trivial⟩

theorem forgets_strength {n : Nat} (hn : 0 < n) :
    (strengthMachine n : Machine (GainLoss α) α α).Forgets GainLoss.lapse (GainLoss.Alike n) where
  start := ⟨rfl, rfl, fun _ => ⟨rfl, rfl⟩, fun _ => ⟨rfl, rfl⟩⟩
  lapse _ := ⟨rfl, rfl, fun _ => ⟨rfl, rfl⟩, fun h => absurd h (Nat.not_le.2 hn)⟩
  step := by
    intro s t x h
    have hprevious := h.1
    unfold strengthMachine
    dsimp only
    rw [← hprevious]
    cases s.previous with
    | none => exact ⟨rfl, h.2⟩
    | some p => exact ⟨rfl, (h.change (x - p)).1.2⟩
  answer := by
    intro s t x h
    have hprevious := h.1
    unfold strengthMachine
    dsimp only
    rw [← hprevious]
    cases s.previous with
    | none => rfl
    | some p => exact (h.change (x - p)).2

/-- The exponential average by a loop that keeps the last average over a gap. -/
def carriedExponentialAverage (xs : Series α) (n : Nat) : Series α :=
  if n = 0 then .undefined xs.length
  else
    let k : α := smoothingFactor n
    let m := seededMachine n fun average x => x * k + average * (1 - k)
    m.runCarrying Smoothing.lapse m.start (xs.map usable)

def carriedHistogram (xs : Series α) (fast slow signal : Nat) : Series α :=
  if fast = 0 ∨ slow = 0 ∨ signal = 0 then .undefined xs.length
  else
    let line := difference (carriedExponentialAverage xs fast) (carriedExponentialAverage xs slow)
    difference line (carriedExponentialAverage line signal)

/-- The relative strength by a loop that keeps the average gain and loss over a gap. -/
def carriedRelativeStrength (xs : Series α) (n : Nat) : Series α :=
  if n = 0 then .undefined xs.length
  else (strengthMachine n).runCarrying GainLoss.lapse (strengthMachine n).start (xs.map usable)

/-- The average true range by a loop that keeps the last average over a gap. -/
def carriedTrueRange (high low close : Series α) (n : Nat) : Series α :=
  if n = 0 then .undefined close.length
  else (seededMachine n (wilder n)).runCarrying Smoothing.lapse (seededMachine n (wilder n)).start
    (trueRangeMachine.run (ranges high low close))

theorem carriedExponentialAverage_eq (xs : Series α) (n : Nat) :
    carriedExponentialAverage xs n = exponentialAverage xs n := by
  unfold carriedExponentialAverage exponentialAverage
  split
  · rfl
  · next hn => exact (forgets_seeded (Nat.pos_of_ne_zero hn) _).runCarrying_eq _

theorem carriedHistogram_eq (xs : Series α) (fast slow signal : Nat) :
    carriedHistogram xs fast slow signal = convergenceHistogram xs fast slow signal := by
  simp only [carriedHistogram, convergenceHistogram, carriedExponentialAverage_eq]

theorem carriedRelativeStrength_eq (xs : Series α) (n : Nat) :
    carriedRelativeStrength xs n = relativeStrength xs n := by
  unfold carriedRelativeStrength relativeStrength
  split
  · rfl
  · next hn => exact (forgets_strength (Nat.pos_of_ne_zero hn)).runCarrying_eq _

theorem carriedTrueRange_eq (high low close : Series α) (n : Nat) :
    carriedTrueRange high low close n = averageTrueRange high low close n := by
  unfold carriedTrueRange averageTrueRange
  split
  · rfl
  · next hn => exact (forgets_seeded (Nat.pos_of_ne_zero hn) _).runCarrying_eq _

end Indicator

/-! ### Indicators of a ticker -/

namespace TickerPrices

open Indicator Series

/-- An indicator by loops that keep their running averages over a gap. -/
def carriedIndicator (p : TickerPrices α) : Indicator → Series α
  | .ema n => carriedExponentialAverage p.adjusted n
  | .rsi n => carriedRelativeStrength p.adjusted n
  | .atr n => carriedTrueRange p.high p.low p.close n
  | .macd => carriedHistogram p.adjusted macdFast macdSlow macdSignal
  | i => p.indicator i

theorem carriedIndicator_eq (p : TickerPrices α) (i : Indicator) :
    p.carriedIndicator i = p.indicator i := by
  cases i with
  | ema n => exact carriedExponentialAverage_eq p.adjusted n
  | rsi n => exact carriedRelativeStrength_eq p.adjusted n
  | atr n => exact carriedTrueRange_eq p.high p.low p.close n
  | macd => exact carriedHistogram_eq p.adjusted _ _ _
  | _ => rfl

end TickerPrices

/-- The prices of one day, each of which may be missing. -/
structure DayPrices (α : Type) where
  opening : Option α
  high : Option α
  low : Option α
  close : Option α
  adjusted : Option α

/-- A day on which a price is missing or not finite that the indicator reads. -/
def DayPrices.IsGap (g : DayPrices α) : Indicator → Prop
  | .atr _ | .adx _ =>
      Series.usable g.high = none ∨ Series.usable g.low = none ∨ Series.usable g.close = none
  | _ => Series.usable g.adjusted = none

namespace TickerPrices

/-- One day between earlier and later prices. -/
def splice (p : TickerPrices α) (g : DayPrices α) (q : TickerPrices α) : TickerPrices α where
  opening := p.opening ++ g.opening :: q.opening
  high := p.high ++ g.high :: q.high
  low := p.low ++ g.low :: q.low
  close := p.close ++ g.close :: q.close
  adjusted := p.adjusted ++ g.adjusted :: q.adjusted

theorem indicator_splice (i : Indicator) {p : TickerPrices α} {length : Nat} (hp : p.Spans length)
    {g : DayPrices α} (hg : g.IsGap i) (q : TickerPrices α) :
    (p.splice g q).indicator i = p.indicator i ++ none :: q.indicator i := by
  have hh : p.high.length = p.close.length := hp.high.trans hp.close.symm
  have hl : p.low.length = p.close.length := hp.low.trans hp.close.symm
  cases i with
  | price =>
      have hday : Series.usable g.adjusted = none := hg
      change (p.adjusted ++ g.adjusted :: q.adjusted).map Series.usable = _
      rw [List.map_append, List.map_cons, hday]
      rfl
  | sma n => exact Indicator.restarts_simpleAverage n _ _ _ hg
  | ema n => exact Indicator.restarts_exponentialAverage n _ _ _ hg
  | rsi n => exact Indicator.restarts_relativeStrength n _ _ _ hg
  | stdDev n => exact Indicator.restarts_percentDeviation n _ _ _ hg
  | bollinger n => exact Indicator.restarts_bandPosition n _ _ _ _ hg
  | atr n => exact Indicator.averageTrueRange_gap n hh hl hg
  | adx n => exact Indicator.averageDirection_gap n hh hl hg
  | macd => exact Indicator.restarts_convergenceHistogram _ _ _ _ _ _ hg
  | slope n => exact Indicator.restarts_lineSlope n _ _ _ hg
  | cumulativeReturn n => exact Indicator.restarts_cumulativeChange n _ _ _ hg
  | stdDevReturn n => exact Indicator.restarts_returnDeviation n _ _ _ hg

/-- A gap is a clean restart. An indicator of any period has no value on a day on which a price
that it reads is missing or not finite, its values before it are those of the earlier days alone
and its values after it those of the later days alone. So it is also by loops that keep their
averages over the gap, and for bands of any width and histograms of any periods. -/
theorem gap_restarts (i : Indicator) {p : TickerPrices α} {length : Nat} (hp : p.Spans length)
    {g : DayPrices α} (hg : g.IsGap i) (q : TickerPrices α) :
    (p.splice g q).indicator i = p.indicator i ++ none :: q.indicator i ∧
      (p.splice g q).carriedIndicator i = p.indicator i ++ none :: q.indicator i ∧
      (∀ n width, Indicator.Restarts fun xs : Series α => Indicator.bandPosition xs n width) ∧
      ∀ fast slow signal, Indicator.Restarts fun xs : Series α =>
        Indicator.convergenceHistogram xs fast slow signal := by
  have hsplice := indicator_splice i hp hg q
  refine ⟨hsplice, ?_, Indicator.restarts_bandPosition, Indicator.restarts_convergenceHistogram⟩
  rw [carriedIndicator_eq, hsplice]

/-- Ranges of 3 and 2 before a halt. -/
def sampleBefore : TickerPrices (Extended Rat.toNNRat fun base _ => base) where
  opening := [some 5, some 6]
  high := [some 7, some 8]
  low := [some 4, some 6]
  close := [some 6, some 7]
  adjusted := [some 6, some 7]

/-- A day of which the high is not a number. -/
def sampleHalt : DayPrices (Extended Rat.toNNRat fun base _ => base) where
  opening := some 7
  high := some .undefined
  low := some 7
  close := some 7
  adjusted := some 7

/-- Ranges of 4 and 2 after the halt, the second one a rise. -/
def sampleAfter : TickerPrices (Extended Rat.toNNRat fun base _ => base) where
  opening := [some 3, some 4]
  high := [some 6, some 7]
  low := [some 2, some 6]
  close := [some 5, some 7]
  adjusted := [some 5, some 7]

theorem sampleHalt_restarts :
    sampleBefore.Spans 2 ∧ sampleHalt.IsGap (.atr 2) ∧
      (sampleBefore.splice sampleHalt sampleAfter).indicator (.atr 2) =
        [none, some 2.5, none, none, some 3] := by
  have hspans : sampleBefore.Spans 2 := ⟨rfl, rfl, rfl, rfl, rfl⟩
  have hgap : sampleHalt.IsGap (.atr 2) := Or.inl rfl
  refine ⟨hspans, hgap, (gap_restarts (.atr 2) hspans hgap sampleAfter).1.trans ?_⟩
  decide +kernel

end TickerPrices
end StrategyTree
