import Mathlib.Analysis.Convex.Basic
import Mathlib.Data.List.MinMax
import Mathlib.Tactic.FieldSimp
import Mathlib.Tactic.Linarith
import Mathlib.Tactic.Positivity
import Mathlib.Tactic.Ring
import StrategyTree.Proofs.ExactArith
import StrategyTree.Proofs.Indicator.Defined
/-!
# Ranges of oscillators

Seeded averages never leave a convex set that holds the values they average, since the
seed is a mean and each later step is a mixture of the last average and one new value. So
an exponential average stays between the values since the last gap, and what is made from
averages that are not negative stays within the bounds that its formula gives.
-/
namespace StrategyTree

namespace Machine

variable {σ ι ο : Type} {m : Machine σ ι ο} {P : ι → Prop} {Inv : σ → Prop} {Good : ο → Prop}

/-- On inputs with a property a machine keeps an invariant, and what it answers is good. -/
structure Stays (m : Machine σ ι ο) (P : ι → Prop) (Inv : σ → Prop) (Good : ο → Prop) : Prop where
  start : Inv m.start
  step {s : σ} {x : ι} : P x → Inv s → Inv (m.step s x).1
  answer {s : σ} {x : ι} {y : ο} : P x → Inv s → (m.step s x).2 = some y → Good y

/-- Only the inputs since the last gap matter. -/
theorem Stays.good (h : m.Stays P Inv Good) {xs : List (Option ι)} {day : Nat} {y : ο}
    (hseen : ∀ v ∈ Series.recent (xs.take (day + 1)), P v)
    (hy : Series.at? (m.run xs) day = some y) : Good y := by
  have htracks : m.Tracks fun seen s => (∀ v ∈ seen, P v) → Inv s := by
    refine ⟨fun _ => h.start, fun {seen s} x hs hall => ?_⟩
    have hbefore := hs fun v hv => hall v (List.mem_append_left _ hv)
    exact h.step (hall x (by simp)) hbefore
  obtain ⟨x, hx⟩ := exists_of_answer hy
  obtain ⟨seen, s, hs, heq, hstep⟩ := htracks.entry hx
  rw [heq] at hseen
  have hbefore := hs fun v hv => hseen v (List.mem_append_left _ hv)
  exact h.answer (hseen x (by simp)) hbefore (hstep.symm.trans hy)

theorem exists_day_of_mem_recent {xs : List (Option ι)} {k : Nat} {v : ι}
    (hv : v ∈ Series.recent (xs.take k)) : ∃ day, Series.at? xs day = some v := by
  have hmem : some v ∈ xs :=
    List.mem_of_mem_take ((Series.recent_suffix _).subset (List.mem_map_of_mem hv))
  obtain ⟨day, hday⟩ := List.mem_iff_getElem?.1 hmem
  exact ⟨day, by rw [Series.at?, hday, Option.join_some]⟩

/-- On the day of an answer there is a value since the last gap. -/
theorem recent_ne_nil_of_answer {xs : List (Option ι)} {day : Nat} {y : ο}
    (hy : Series.at? (m.run xs) day = some y) : Series.recent (xs.take (day + 1)) ≠ [] := by
  intro hnil
  have hnone : m.Stays (fun _ => False) (fun _ => True) fun _ => False :=
    ⟨trivial, fun _ _ => trivial, fun h _ _ => h⟩
  exact hnone.good (by simp [hnil]) hy

end Machine

namespace ExactArith

variable {α K : Type} [Arith α] [Field K] [LinearOrder K] [ExactArith α K] {C : Set K}

/-- A finite value whose number lies in a set. -/
def LiesIn (C : Set K) (x : α) : Prop :=
  ∃ p ∈ C, number? x = some p

/-- A finite value that is the sum of as many numbers of a convex set. -/
def SumsOver (C : Set K) (count : Nat) (x : α) : Prop :=
  ∃ c, (0 < count → c ∈ C) ∧ number? x = some (count * c)

theorem LiesIn.finite {x : α} (h : LiesIn C x) : Arith.isFinite x = true := by
  obtain ⟨p, -, hp⟩ := h
  exact finite_iff.2 ⟨p, hp⟩

theorem sumsOver_zero : SumsOver C 0 (0 : α) := by
  refine ⟨0, fun h => absurd h (Nat.lt_irrefl 0), ?_⟩
  rw [mul_zero]
  exact number_zero

variable [IsStrictOrderedRing K]

theorem SumsOver.add (hC : Convex K C) {count : Nat} {s x : α} (hs : SumsOver C count s)
    (hx : LiesIn C x) : SumsOver C (count + 1) (s + x) := by
  obtain ⟨c, hc, hsum⟩ := hs
  obtain ⟨p, hp, hvalue⟩ := hx
  have hcount : (0 : K) < count + 1 := Nat.cast_add_one_pos count
  -- the new mean is a mixture of the last one and the value
  refine ⟨count / (count + 1) * c + 1 / (count + 1) * p, fun _ => ?_, ?_⟩
  · cases count with
    | zero => simpa using hp
    | succ count =>
        refine hC (hc count.succ_pos) hp (by positivity) (by positivity) ?_
        field_simp
  · rw [number_add hsum hvalue]
    congr 1
    push_cast
    field_simp

theorem SumsOver.mean {count : Nat} {s : α} (hcount : 0 < count) (hs : SumsOver C count s) :
    LiesIn C (s / Arith.ofNat count) := by
  obtain ⟨c, hc, hsum⟩ := hs
  have hne : (count : K) ≠ 0 := Nat.cast_ne_zero.2 hcount.ne'
  refine ⟨c, hc hcount, ?_⟩
  rw [number_div hsum (number_ofNat count) hne, mul_div_cancel_left₀ c hne]

end ExactArith

open ExactArith Machine Series

namespace Indicator

variable {α K : Type} [Arith α] [Field K] [LinearOrder K] [ExactArith α K]
  [IsStrictOrderedRing K] {C : Set K} {n : Nat}

/-! ### Seeded averages -/

/-- Wilder's step mixes the average and the new value. -/
theorem liesIn_wilder (hC : Convex K C) (hn : 0 < n) {a x : α} (ha : LiesIn C a)
    (hx : LiesIn C x) : LiesIn C (wilder n a x) := by
  obtain ⟨p, hp, hpa⟩ := ha
  obtain ⟨q, hq, hqx⟩ := hx
  have hpos : (0 : K) < n := Nat.cast_pos.2 hn
  have hone : (1 : K) ≤ n := Nat.one_le_cast.2 hn
  have hrest : (0 : K) ≤ n - 1 := sub_nonneg.2 hone
  have hnumber : number? (wilder n a x) = some ((p * (n - 1) + q) / n) :=
    number_div (number_add (number_mul hpa (number_sub (number_ofNat n) number_one)) hqx)
      (number_ofNat n) hpos.ne'
  refine ⟨_, ?_, hnumber⟩
  have hmixed : (p * (n - 1) + q) / n = ((n - 1) / n : K) * p + (1 / n : K) * q := by
    field_simp
  have hsum : ((n - 1) / n : K) + 1 / n = 1 := by
    field_simp
    ring
  rw [hmixed]
  exact hC hp hq (div_nonneg hrest hpos.le) (by positivity) hsum

/-- So does the step of an exponential average. -/
theorem liesIn_exponential (hC : Convex K C) (hn : 0 < n) {a x : α} (ha : LiesIn C a)
    (hx : LiesIn C x) : LiesIn C (x * smoothingFactor n + a * (1 - smoothingFactor n)) := by
  obtain ⟨p, hp, hpa⟩ := ha
  obtain ⟨q, hq, hqx⟩ := hx
  have hfactor : number? (smoothingFactor n : α) = some (2 / (n + 1) : K) :=
    number_smoothingFactor n
  have hone : (1 : K) ≤ n := Nat.one_le_cast.2 hn
  have hpos : (0 : K) < n + 1 := Nat.cast_add_one_pos n
  have hle : (2 / (n + 1) : K) ≤ 1 := by
    rw [div_le_one hpos]
    linarith
  refine ⟨_, ?_, number_add (number_mul hqx hfactor)
    (number_mul hpa (number_sub number_one hfactor))⟩
  rw [mul_comm q, mul_comm p]
  exact hC hq hp (by positivity) (sub_nonneg.2 hle) (add_sub_cancel _ _)

/-- The seed is a sum until it is averaged, and from then on there is an average. -/
def Smoothing.Averages (C : Set K) (n : Nat) (s : Smoothing α) : Prop :=
  (s.run < n → SumsOver C s.run s.seed) ∧ (n ≤ s.run → LiesIn C s.average)

/-- An average that is seeded with values of a convex set stays in it, if its step does. -/
theorem stays_seeded (hC : Convex K C) (hn : 0 < n) {advance : α → α → α}
    (hadvance : ∀ {a x}, LiesIn C a → LiesIn C x → LiesIn C (advance a x)) :
    (seededMachine n advance).Stays (LiesIn C) (Smoothing.Averages C n) (LiesIn C) := by
  have hnext {s : Smoothing α} {x : α} (hx : LiesIn C x) (hs : s.Averages C n) :
      ((seededMachine n advance).step s x).1.Averages C n ∧
        ∀ y, ((seededMachine n advance).step s x).2 = some y → LiesIn C y := by
    obtain ⟨hseed, haverage⟩ := hs
    by_cases hfew : s.run + 1 < n
    · have hgrown := (hseed (by omega)).add hC hx
      simp only [seededMachine, if_pos hfew]
      exact ⟨⟨fun _ => hgrown, fun h => absurd h (Nat.not_le.2 hfew)⟩, fun y hy => by cases hy⟩
    · have hlies : LiesIn C (if s.run + 1 = n then
          (if s.run + 1 = n then s.seed + x else s.seed) / Arith.ofNat n
          else advance s.average x) := by
        by_cases hfull : s.run + 1 = n
        · have hgrown := (hseed (by omega)).add hC hx
          rw [if_pos hfull, if_pos hfull]
          rw [hfull] at hgrown
          exact hgrown.mean hn
        · rw [if_neg hfull]
          exact hadvance (haverage (by omega)) hx
      simp only [seededMachine, if_neg hfew]
      exact ⟨⟨fun h => absurd h hfew, fun _ => hlies⟩, fun _ hy => Option.some.inj hy ▸ hlies⟩
  exact {
    start := ⟨fun _ => sumsOver_zero, fun h => absurd h (Nat.not_le.2 hn)⟩
    step := fun hx hs => (hnext hx hs).1
    answer := fun hx hs hy => (hnext hx hs).2 _ hy }

/-- An exponential average lies between the values since the last gap. -/
theorem exponentialAverage_between {xs : Series α} {day : Nat} {y : α}
    (hy : (exponentialAverage xs n).at? day = some y) :
    ∃ lo ∈ xs.seenOn day, ∃ hi ∈ xs.seenOn day,
      (∀ v ∈ xs.seenOn day, number lo ≤ number v ∧ number v ≤ (number hi : K)) ∧
        LiesIn (Set.Icc (number lo) (number hi : K)) y := by
  rcases Nat.eq_zero_or_pos n with rfl | hn
  · rw [exponentialAverage, if_pos rfl, at?_undefined] at hy
    cases hy
  rw [exponentialAverage, if_neg hn.ne'] at hy
  have hne : xs.seenOn day ≠ [] := recent_ne_nil_of_answer hy
  obtain ⟨lo, hlo⟩ := Option.ne_none_iff_exists'.1 (mt List.argmin_eq_none.1 hne :
    (xs.seenOn day).argmin (number : α → K) ≠ none)
  obtain ⟨hi, hhi⟩ := Option.ne_none_iff_exists'.1 (mt List.argmax_eq_none.1 hne :
    (xs.seenOn day).argmax (number : α → K) ≠ none)
  have hbetween : ∀ v ∈ xs.seenOn day, number lo ≤ number v ∧ number v ≤ (number hi : K) :=
    fun v hv => ⟨List.le_of_mem_argmin hv hlo, List.le_of_mem_argmax hv hhi⟩
  refine ⟨lo, List.argmin_mem hlo, hi, List.argmax_mem hhi, hbetween, ?_⟩
  have hconvex : Convex K (Set.Icc (number lo) (number hi : K)) := convex_Icc _ _
  refine (stays_seeded hconvex hn (liesIn_exponential hconvex hn)).good (fun v hv => ?_) hy
  exact ⟨number v, hbetween v hv, number?_eq (finite_of_mem_seenOn hv)⟩

/-! ### Relative strength -/

/-- Numbers that are not negative. -/
abbrev nonneg : Set K := Set.Ici 0

/-- Numbers from zero to a hundred. -/
abbrev percent : Set K := Set.Icc 0 ((100 : Nat) : K)

omit [IsStrictOrderedRing K] in
theorem nonneg_zero : LiesIn nonneg (0 : α) :=
  ⟨0, le_refl (0 : K), number_zero⟩

omit [IsStrictOrderedRing K] in
theorem nonneg_larger {x : α} (hx : Arith.isFinite x = true) :
    LiesIn nonneg (Arith.larger x 0) :=
  ⟨_, le_max_right _ _, number_larger (number?_eq hx) number_zero⟩

theorem nonneg_add {x y : α} (hx : LiesIn nonneg x) (hy : LiesIn nonneg y) :
    LiesIn nonneg (x + y) := by
  obtain ⟨p, hp, hpx⟩ := hx
  obtain ⟨q, hq, hqy⟩ := hy
  exact ⟨_, add_nonneg hp hq, number_add hpx hqy⟩

theorem nonneg_mean {x : α} (hn : 0 < n) (hx : LiesIn nonneg x) :
    LiesIn nonneg (x / Arith.ofNat n) := by
  obtain ⟨p, hp, hpx⟩ := hx
  have hpos : (0 : K) < n := Nat.cast_pos.2 hn
  exact ⟨_, div_nonneg hp hpos.le, number_div hpx (number_ofNat n) hpos.ne'⟩

/-- The index of two averages that are not negative, with no division by zero. -/
theorem percent_strengthIndex {gain loss : α} (hgain : LiesIn nonneg gain)
    (hloss : LiesIn nonneg loss) : LiesIn percent (strengthIndex gain loss) := by
  obtain ⟨g, hg, hgain⟩ := hgain
  obtain ⟨l, hl, hloss⟩ := hloss
  have hundred : number? (100 : α) = some (100 : K) := by
    simpa using number_literal (α := α) 100
  unfold strengthIndex
  split
  · exact ⟨100, ⟨by norm_num, le_refl _⟩, hundred⟩
  · next hzero =>
      have hne : l ≠ 0 := mt (beq_iff hloss number_zero).2 hzero
      have hratio : 0 ≤ g / l := div_nonneg hg hl
      have hpos : 0 < 1 + g / l := by linarith
      refine ⟨_, ?_, number_sub hundred (number_div hundred
        (number_add number_one (number_div hgain hloss hne)) hpos.ne')⟩
      have hle : 100 / (1 + g / l) ≤ 100 := by
        rw [div_le_iff₀ hpos]
        linarith
      have hge : 0 ≤ 100 / (1 + g / l) := by positivity
      exact ⟨by linarith, by linarith⟩

/-- The averages of gains and losses and their seeds are not negative, and the last price is
finite. -/
structure GainLoss.Sound (s : GainLoss α) : Prop where
  previous : ∀ p, s.previous = some p → Arith.isFinite p = true
  gainSeed : LiesIn nonneg s.gainSeed
  lossSeed : LiesIn nonneg s.lossSeed
  gain : LiesIn nonneg s.gain
  loss : LiesIn nonneg s.loss

theorem GainLoss.Sound.change {s : GainLoss α} (hn : 0 < n) (hs : s.Sound) {x : α}
    (hx : Arith.isFinite x = true) :
    (s.change n x).1.Sound ∧ ∀ y, (s.change n x).2 = some y → LiesIn percent y := by
  have hgain : LiesIn nonneg (Arith.larger x 0) := nonneg_larger hx
  have hloss : LiesIn nonneg (Arith.larger (-x) 0) :=
    nonneg_larger (finite_iff.2 ⟨_, number_neg (number?_eq hx)⟩)
  have hconvex : Convex K (nonneg : Set K) := convex_Ici 0
  unfold GainLoss.change
  dsimp only
  split
  · have hup := liesIn_wilder hconvex hn hs.gain hgain
    have hdown := liesIn_wilder hconvex hn hs.loss hloss
    have hindex := percent_strengthIndex hup hdown
    exact ⟨⟨hs.previous, hs.gainSeed, hs.lossSeed, hup, hdown⟩,
      fun _ hy => Option.some.inj hy ▸ hindex⟩
  · have hgains := nonneg_add hs.gainSeed hgain
    have hlosses := nonneg_add hs.lossSeed hloss
    split
    · have hup := nonneg_mean hn hgains
      have hdown := nonneg_mean hn hlosses
      have hindex := percent_strengthIndex hup hdown
      exact ⟨⟨hs.previous, hgains, hlosses, hup, hdown⟩,
        fun _ hy => Option.some.inj hy ▸ hindex⟩
    · exact ⟨⟨hs.previous, hgains, hlosses, hs.gain, hs.loss⟩, fun y hy => by cases hy⟩

theorem stays_strength (hn : 0 < n) :
    (strengthMachine n).Stays (fun x : α => Arith.isFinite x = true) GainLoss.Sound
      (LiesIn percent) := by
  have hnext {s : GainLoss α} {x : α} (hx : Arith.isFinite x = true) (hs : s.Sound) :
      ((strengthMachine n).step s x).1.Sound ∧
        ∀ y, ((strengthMachine n).step s x).2 = some y → LiesIn percent y := by
    have hlast : ∀ p, some x = some p → Arith.isFinite p = true :=
      fun _ hp => Option.some.inj hp ▸ hx
    cases hprevious : s.previous with
    | none =>
        simp only [strengthMachine, hprevious]
        exact ⟨⟨hlast, hs.gainSeed, hs.lossSeed, hs.gain, hs.loss⟩, fun y hy => by cases hy⟩
    | some p =>
        obtain ⟨hsound, hanswer⟩ := hs.change hn (finite_sub hx (hs.previous p hprevious))
        simp only [strengthMachine, hprevious]
        exact ⟨⟨hlast, hsound.gainSeed, hsound.lossSeed, hsound.gain, hsound.loss⟩, hanswer⟩
  exact {
    start := ⟨(fun _ hp => by cases hp), nonneg_zero, nonneg_zero, nonneg_zero, nonneg_zero⟩
    step := fun hx hs => (hnext hx hs).1
    answer := fun hx hs hy => (hnext hx hs).2 _ hy }

/-- A relative strength index is a percentage. -/
theorem percent_relativeStrength {xs : Series α} {day : Nat} {y : α}
    (hy : (relativeStrength xs n).at? day = some y) : LiesIn percent y := by
  rcases Nat.eq_zero_or_pos n with rfl | hn
  · rw [relativeStrength, if_pos rfl, at?_undefined] at hy
    cases hy
  · rw [relativeStrength, if_neg hn.ne'] at hy
    exact (stays_strength hn).good (fun v hv => finite_of_mem_seenOn hv) hy

/-! ### True ranges -/

/-- The figures of a day with a range are finite. -/
structure Range.Finite (r : Range α) : Prop where
  high : Arith.isFinite r.high = true
  low : Arith.isFinite r.low = true
  close : Arith.isFinite r.close = true

omit [IsStrictOrderedRing K] [Field K] [LinearOrder K] [ExactArith α K] in
theorem finite_of_at?_ranges {high low close : Series α} {day : Nat} {r : Range α}
    (h : at? (ranges high low close) day = some r) : r.Finite := by
  rw [at?_ranges] at h
  obtain ⟨x, hx, h⟩ := Option.bind_eq_some_iff.1 h
  obtain ⟨y, hy, h⟩ := Option.bind_eq_some_iff.1 h
  obtain ⟨z, hz, rfl⟩ := Option.map_eq_some_iff.1 h
  exact ⟨(usable_eq_some.1 hx).2, (usable_eq_some.1 hy).2, (usable_eq_some.1 hz).2⟩

/-- A true range after another day is not negative, whatever the high and the low. -/
theorem nonneg_trueRange {r : Range α} (hr : r.Finite) {close : α}
    (hclose : Arith.isFinite close = true) : LiesIn nonneg (r.trueRange close) := by
  have hhigh := number?_eq hr.high
  have hlow := number?_eq hr.low
  have hclose := number?_eq hclose
  refine ⟨_, ?_, number_larger (number_larger (number_sub hhigh hlow)
    (number_abs (number_sub hhigh hclose))) (number_abs (number_sub hlow hclose))⟩
  exact le_max_of_le_right (abs_nonneg _)

theorem stays_trueRange :
    (trueRangeMachine (α := α)).Stays (fun r => r.Finite ∧ r.low ≤ r.high)
      (fun previous => ∀ c, previous = some c → Arith.isFinite c = true) (LiesIn nonneg) where
  start c hc := by cases hc
  step hr _ _ hc := Option.some.inj hc ▸ hr.1.close
  answer {previous r y} hr hprevious hy := by
    rw [← Option.some.inj hy]
    cases previous with
    | none =>
        have hhigh := number?_eq hr.1.high
        have hlow := number?_eq hr.1.low
        exact ⟨_, sub_nonneg.2 ((le_iff hlow hhigh).1 hr.2), number_sub hhigh hlow⟩
    | some c => exact nonneg_trueRange hr.1 (hprevious c rfl)

/-- An average true range is not negative, if no complete day has its low above its high. -/
theorem nonneg_averageTrueRange {high low close : Series α} {day : Nat} {y : α}
    (h : ∀ d r, at? (ranges high low close) d = some r → r.low ≤ r.high)
    (hy : (averageTrueRange high low close n).at? day = some y) : LiesIn nonneg y := by
  rcases Nat.eq_zero_or_pos n with rfl | hn
  · rw [averageTrueRange, if_pos rfl, at?_undefined] at hy
    cases hy
  · rw [averageTrueRange, if_neg hn.ne'] at hy
    have hconvex : Convex K (nonneg : Set K) := convex_Ici 0
    refine (stays_seeded hconvex hn (liesIn_wilder hconvex hn)).good (fun v hv => ?_) hy
    obtain ⟨d, hd⟩ := exists_day_of_mem_recent hv
    refine stays_trueRange.good (fun r hr => ?_) hd
    obtain ⟨e, he⟩ := exists_day_of_mem_recent hr
    exact ⟨finite_of_at?_ranges he, h e r he⟩

/-! ### Directional moves -/

/-- What a directional index keeps: finite figures of the last day and a finite sum of true
ranges, sums of moves that are not negative, and a sum and an average of percentages. -/
structure Direction.Sound (n : Nat) (s : Direction α) : Prop where
  previous : ∀ r, s.previous = some r → r.Finite
  range : Arith.isFinite s.range = true
  up : LiesIn nonneg s.up
  down : LiesIn nonneg s.down
  indexSum : s.indices < n → SumsOver percent s.indices s.indexSum
  average : n ≤ s.indices → LiesIn percent s.average

/-- What fades is only an `n`th of the sum. -/
theorem nonneg_fadingSum (hn : 0 < n) {moves : Nat} {sum x : α} (hsum : LiesIn nonneg sum)
    (hx : LiesIn nonneg x) : LiesIn nonneg (fadingSum n moves sum x) := by
  unfold fadingSum
  split
  · exact nonneg_add hsum hx
  · obtain ⟨p, hp, hpsum⟩ := hsum
    have hone : (1 : K) ≤ n := Nat.one_le_cast.2 hn
    have hpos : (0 : K) < n := Nat.cast_pos.2 hn
    have hle : p / n ≤ p := div_le_self hp hone
    exact nonneg_add ⟨_, sub_nonneg.2 hle,
      number_sub hpsum (number_div hpsum (number_ofNat n) hpos.ne')⟩ hx

include K in
theorem finite_fadingSum (hn : 0 < n) {moves : Nat} {sum x : α}
    (hsum : Arith.isFinite sum = true) (hx : Arith.isFinite x = true) :
    Arith.isFinite (fadingSum n moves sum x) = true := by
  have hne : number (Arith.ofNat n : α) ≠ (0 : K) := by
    rw [number_of_eq (number_ofNat n)]
    exact Nat.cast_ne_zero.2 hn.ne'
  unfold fadingSum
  split
  · exact finite_add hsum hx
  · exact finite_add (finite_sub hsum (finite_div hsum (finite_ofNat n) hne)) hx

omit [IsStrictOrderedRing K] in
/-- Of the two moves of a day each counts only if it is positive. -/
theorem nonneg_directionalMoves {previous r : Range α} (hprevious : previous.Finite)
    (hr : r.Finite) :
    LiesIn nonneg (directionalMoves previous r).1 ∧
      LiesIn nonneg (directionalMoves previous r).2 := by
  have counted {p : Prop} [Decidable p] {x : α} (hx : Arith.isFinite x = true) :
      LiesIn nonneg (if p ∧ 0 < x then x else 0) := by
    split
    · next h => exact ⟨_, ((lt_iff number_zero (number?_eq hx)).1 h.2).le, number?_eq hx⟩
    · exact nonneg_zero
  exact ⟨counted (finite_sub hr.high hprevious.high), counted (finite_sub hprevious.low hr.low)⟩

/-- The index of sums that are not negative, with no division by zero. -/
theorem percent_directionalIndex {range up down : α} (hrange : Arith.isFinite range = true)
    (hup : LiesIn nonneg up) (hdown : LiesIn nonneg down) :
    LiesIn percent (directionalIndex range up down) := by
  have hzero : LiesIn percent (0 : α) := ⟨0, ⟨le_refl _, by norm_num⟩, number_zero⟩
  have hundred : number? (100 : α) = some (100 : K) := by
    simpa using number_literal (α := α) 100
  have hrange := number?_eq hrange
  obtain ⟨u, hu, hup⟩ := hup
  obtain ⟨d, hd, hdown⟩ := hdown
  unfold directionalIndex
  split
  · exact hzero
  · next hpositive =>
      have hpos : 0 < (number range : K) :=
        not_le.1 (mt (le_iff hrange number_zero).2 hpositive)
      have hplus := number_div (number_mul hundred hup) hrange hpos.ne'
      have hminus := number_div (number_mul hundred hdown) hrange hpos.ne'
      have hplus₀ : 0 ≤ 100 * u / (number range : K) := by
        have hu : 0 ≤ u := hu
        positivity
      have hminus₀ : 0 ≤ 100 * d / (number range : K) := by
        have hd : 0 ≤ d := hd
        positivity
      have htotal := number_add hplus hminus
      generalize 100 * u / (number range : K) = plus at hplus hplus₀ htotal
      generalize 100 * d / (number range : K) = minus at hminus hminus₀ htotal
      dsimp only
      split
      · exact hzero
      · next hmoved =>
          have hne : plus + minus ≠ 0 := mt (beq_iff htotal number_zero).2 hmoved
          have htotal₀ : 0 < plus + minus :=
            lt_of_le_of_ne (add_nonneg hplus₀ hminus₀) (Ne.symm hne)
          have hnumber := number_div (number_mul hundred (number_abs (number_sub hplus hminus)))
            htotal hne
          have hle : |plus - minus| ≤ plus + minus := by
            rw [abs_le]
            constructor <;> linarith
          refine ⟨_, ⟨by positivity, ?_⟩, hnumber⟩
          rw [Nat.cast_ofNat, div_le_iff₀ htotal₀]
          linarith

theorem Direction.Sound.move {s : Direction α} (hn : 0 < n) (hs : s.Sound n)
    {previous r : Range α} (hprevious : previous.Finite) (hr : r.Finite) :
    (s.move n previous r).1.Sound n ∧
      ∀ y, (s.move n previous r).2 = some y → LiesIn percent y := by
  obtain ⟨hplus, hminus⟩ := nonneg_directionalMoves hprevious hr
  have hconvex : Convex K (percent : Set K) := convex_Icc _ _
  have hrange : Arith.isFinite (fadingSum n (s.moves + 1) s.range (r.trueRange previous.close)) =
      true := finite_fadingSum hn hs.range (nonneg_trueRange hr hprevious.close).finite
  have hup : LiesIn nonneg (fadingSum n (s.moves + 1) s.up (directionalMoves previous r).1) :=
    nonneg_fadingSum hn hs.up hplus
  have hdown : LiesIn nonneg
      (fadingSum n (s.moves + 1) s.down (directionalMoves previous r).2) :=
    nonneg_fadingSum hn hs.down hminus
  have hindex := percent_directionalIndex hrange hup hdown
  unfold Direction.move
  dsimp only
  split
  · exact ⟨⟨hs.previous, hrange, hup, hdown, hs.indexSum, hs.average⟩, fun y hy => by cases hy⟩
  · split
    · next hmany =>
        have haverage := liesIn_wilder hconvex hn (hs.average (by omega)) hindex
        have hsummed : ¬s.indices + 1 < n := by omega
        exact ⟨⟨hs.previous, hrange, hup, hdown, fun h => absurd h hsummed, fun _ => haverage⟩,
          fun _ hy => Option.some.inj hy ▸ haverage⟩
    · have hsum := (hs.indexSum (by omega)).add hconvex hindex
      split
      · next hfull =>
          rw [hfull] at hsum
          have haverage := hsum.mean hn
          have hsummed : ¬s.indices + 1 < n := by omega
          exact ⟨⟨hs.previous, hrange, hup, hdown, fun h => absurd h hsummed, fun _ => haverage⟩,
            fun _ hy => Option.some.inj hy ▸ haverage⟩
      · exact ⟨⟨hs.previous, hrange, hup, hdown, fun _ => hsum,
          fun h => absurd (show n ≤ s.indices + 1 from h) (by omega)⟩,
          fun y hy => by cases hy⟩

theorem stays_direction (hn : 0 < n) :
    (directionMachine (α := α) n).Stays Range.Finite (Direction.Sound n) (LiesIn percent) := by
  have hnext {s : Direction α} {r : Range α} (hr : r.Finite) (hs : s.Sound n) :
      ((directionMachine n).step s r).1.Sound n ∧
        ∀ y, ((directionMachine n).step s r).2 = some y → LiesIn percent y := by
    have hlast : ∀ p, some r = some p → p.Finite := fun _ hp => Option.some.inj hp ▸ hr
    cases hprevious : s.previous with
    | none =>
        simp only [directionMachine, hprevious]
        exact ⟨{ hs with previous := hlast }, fun y hy => by cases hy⟩
    | some p =>
        obtain ⟨hsound, hanswer⟩ := hs.move hn (hs.previous p hprevious) hr
        simp only [directionMachine, hprevious]
        exact ⟨{ hsound with previous := hlast }, hanswer⟩
  exact {
    start := ⟨(fun _ hp => by cases hp), finite_ofNat 0, nonneg_zero, nonneg_zero,
      fun _ => sumsOver_zero, fun h => absurd h (Nat.not_le.2 hn)⟩
    step := fun hr hs => (hnext hr hs).1
    answer := fun hr hs hy => (hnext hr hs).2 _ hy }

/-- An average directional index is a percentage, whatever the highs and lows are. -/
theorem percent_averageDirection {high low close : Series α} {day : Nat} {y : α}
    (hy : (averageDirection high low close n).at? day = some y) : LiesIn percent y := by
  rcases Nat.eq_zero_or_pos n with rfl | hn
  · rw [averageDirection, if_pos rfl, at?_undefined] at hy
    cases hy
  · rw [averageDirection, if_neg hn.ne'] at hy
    refine (stays_direction hn).good (fun r hr => ?_) hy
    obtain ⟨d, hd⟩ := exists_day_of_mem_recent hr
    exact finite_of_at?_ranges hd

/-- Oscillators stay in their range, whatever gaps their inputs have. A relative strength and an
average directional index are percentages, the latter even where highs lie below lows. An
exponential average lies between the smallest and the largest value since the last gap, and an
average true range is not negative if no complete day has its low above its high. -/
theorem oscillators_in_range (n day : Nat) :
    (∀ (xs : Series α) y, (relativeStrength xs n).at? day = some y → LiesIn percent y) ∧
    (∀ (high low close : Series α) y,
      (averageDirection high low close n).at? day = some y → LiesIn percent y) ∧
    (∀ (xs : Series α) y, (exponentialAverage xs n).at? day = some y →
      ∃ lo ∈ xs.seenOn day, ∃ hi ∈ xs.seenOn day,
        (∀ v ∈ xs.seenOn day, number lo ≤ number v ∧ number v ≤ (number hi : K)) ∧
          LiesIn (Set.Icc (number lo) (number hi : K)) y) ∧
    ∀ high low close : Series α,
      (∀ d r, at? (ranges high low close) d = some r → r.low ≤ r.high) →
      ∀ y, (averageTrueRange high low close n).at? day = some y → LiesIn nonneg y :=
  ⟨fun _ _ hy => percent_relativeStrength hy, fun _ _ _ _ hy => percent_averageDirection hy,
    fun _ _ hy => exponentialAverage_between hy, fun _ _ _ h _ hy => nonneg_averageTrueRange h hy⟩

/-- Closes of four days after a gap. -/
def sampleCloses : Series (Exact Rat.toNNRat fun x _ => x) :=
  [some 9, none, some 1, some 3, some 2, some 2]

def sampleHighs : Series (Exact Rat.toNNRat fun x _ => x) :=
  [some 9, none, some 2, some 4, some 2, some 5]

/-- The true ranges since the gap are 1, 3, 1 and 3 if the closes are the lows. The directional
index is taken with the closes for highs, so that the lows lie above them. -/
theorem sampleCloses_in_range :
    ((relativeStrength sampleCloses 2).at? 5 = some ⟨200 / 3⟩ ∧
      LiesIn percent (⟨200 / 3⟩ : Exact Rat.toNNRat fun x _ => x)) ∧
    (∃ y, (averageDirection sampleCloses sampleHighs sampleCloses 2).at? 5 = some y ∧
      LiesIn percent y) ∧
    (∃ lo ∈ sampleCloses.seenOn 5, ∃ hi ∈ sampleCloses.seenOn 5,
      (exponentialAverage sampleCloses 2).at? 5 = some 2 ∧
        LiesIn (Set.Icc (number lo) (number hi)) (2 : Exact Rat.toNNRat fun x _ => x)) ∧
    (averageTrueRange sampleHighs sampleCloses sampleCloses 2).at? 5 = some ⟨9 / 4⟩ ∧
      LiesIn nonneg (⟨9 / 4⟩ : Exact Rat.toNNRat fun x _ => x) := by
  obtain ⟨hstrength, hdirection, haverage, hrange⟩ :=
    @oscillators_in_range (Exact Rat.toNNRat fun x _ => x) ℚ _ _ _ _ _ 2 5
  have hindex : (relativeStrength sampleCloses 2).at? 5 = some ⟨200 / 3⟩ := by decide +kernel
  have hmoved : ((averageDirection sampleCloses sampleHighs sampleCloses 2).at? 5).isSome := by
    decide +kernel
  obtain ⟨y, hy⟩ := Option.isSome_iff_exists.1 hmoved
  have hmean : (exponentialAverage sampleCloses 2).at? 5 = some 2 := by decide +kernel
  have htrue : (averageTrueRange sampleHighs sampleCloses sampleCloses 2).at? 5 = some ⟨9 / 4⟩ := by
    decide +kernel
  have hbars : (ranges sampleHighs sampleCloses sampleCloses).all
      (fun bar => bar.all fun r => r.low ≤ r.high) = true := by
    decide +kernel
  obtain ⟨lo, hlo, hi, hhi, -, hbetween⟩ := haverage sampleCloses 2 hmean
  refine ⟨⟨hindex, hstrength _ _ hindex⟩, ⟨y, hy, hdirection _ _ _ y hy⟩,
    ⟨lo, hlo, hi, hhi, hmean, hbetween⟩, htrue, hrange _ _ _ (fun d r hr => ?_) _ htrue⟩
  exact of_decide_eq_true (List.all_eq_true.1 hbars (some r) (mem_of_at? hr))

end Indicator
end StrategyTree
