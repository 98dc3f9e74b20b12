import StrategyTree.Proofs.ExactArith
import StrategyTree.Proofs.Indicator.LookBack
import StrategyTree.Proofs.Statistics
/-!
# Sliding statistics

In exact arithmetic, a sum that gains each value that enters a window and loses each that
leaves it is the sum over the window. So the sliding averages, moments and slopes are those
of the last `n` values, as they are defined, after any number of days and of gaps.
-/
namespace StrategyTree

open ExactArith (number number? number?_eq number_ofNat number_add number_sub number_mul
  number_div)

/-- A sum over the last `n` numbers, when one more comes. -/
theorem Window.sum_slide {K : Type} [Field K] {n : Nat} (hn : 0 < n) (φ : K → K) (ws : List K)
    (x : K) : (((ws ++ [x]).rtake n).map φ).sum =
      ((ws.rtake n).map φ).sum + φ x - ((leaving n ws).map φ).getD 0 := by
  rw [rtake_concat hn, rtake_eq_leaving hn ws]
  cases leaving n ws with
  | none => simp
  | some old =>
      simp only [Option.toList_some, List.map_append, List.map_cons, List.map_nil, List.sum_append,
        List.sum_cons, List.sum_nil, Option.map_some, Option.getD_some]
      ring

variable {α K : Type} [Arith α] [Field K] [LinearOrder K] [ExactArith α K]

/-! ### Numbers of a series -/

namespace Series

/-- The number on a day, and zero where it is missing. -/
def numberOn (xs : Series α) (day : Nat) : K :=
  ((xs.at? day).map number).getD 0

/-- The numbers of the last `n` days up to a day, the oldest first. -/
def lastNumbers (n day : Nat) (xs : Series α) : List K :=
  (List.range n).map fun place => xs.numberOn (day + 1 - n + place)

@[simp] theorem length_lastNumbers (n day : Nat) (xs : Series α) :
    (xs.lastNumbers n day).length = n := by
  rw [lastNumbers, List.length_map, List.length_range]

/-- The numbers of the last days are those of the last values since the gap before them. -/
theorem lastNumbers_eq {xs : Series α} {n day : Nat} (hday : day < xs.length)
    (h : n ≤ (xs.seenOn day).length) :
    xs.lastNumbers n day = ((xs.seenOn day).map number).rtake n := by
  refine List.ext_getElem (by simp [Window.length_rtake, h]) fun place hplace _ => ?_
  rw [length_lastNumbers] at hplace
  have hlt : n - 1 - place < (xs.seenOn day).length := by omega
  have hlt' : (xs.seenOn day).length - n + place < (xs.seenOn day).length := by omega
  have hlength : day < (xs.map usable).length := by rwa [List.length_map]
  have hfirst : n - 1 ≤ day := (at?_recent hlength (show n - 1 < (xs.seenOn day).length by omega)).1
  obtain ⟨-, hentry⟩ := at?_recent hlength hlt
  have hback : day - (n - 1 - place) = day + 1 - n + place := by omega
  have hseen : (xs.seenOn day).length - 1 - (n - 1 - place) =
      (xs.seenOn day).length - n + place := by omega
  rw [hback, at?_map_usable] at hentry
  change _ = (xs.seenOn day)[(xs.seenOn day).length - 1 - (n - 1 - place)]? at hentry
  rw [hseen, List.getElem?_eq_getElem hlt'] at hentry
  simp only [lastNumbers, List.getElem_map, List.getElem_range, List.rtake, List.getElem_drop,
    List.length_map, numberOn, (usable_eq_some.1 hentry).1]
  rfl

end Series

/-! ### Sums over a window -/

namespace Window

/-- A total of finite values slides with the window. -/
theorem number_slide {n : Nat} (hn : 0 < n) (f : α → α) (φ : K → K)
    (hf : ∀ {y q}, number? y = some q → number? (f y) = some (φ q)) {seen : List α} {x total : α}
    (hfinite : ∀ v ∈ seen ++ [x], Arith.isFinite v = true)
    (htotal : number? total = some (((seen.map number).rtake n).map φ).sum) :
    number? (if n < seen.length + 1 then total + f x - f ((leaving n seen).getD 0)
      else total + f x) = some ((((seen ++ [x]).map number).rtake n).map φ).sum := by
  have hx : number? x = some (number x) := number?_eq (hfinite x (by simp))
  have hgrown := number_add htotal (hf hx)
  rw [List.map_append, List.map_singleton, sum_slide hn, leaving_map]
  split
  · next hfull =>
      obtain ⟨old, hmem, hold⟩ := exists_leaving hn (Nat.le_of_lt_succ hfull)
      rw [hold]
      exact number_sub hgrown (hf (number?_eq (hfinite old (List.mem_append_left _ hmem))))
  · next hgrows =>
      rw [leaving_eq_none (by omega), hgrown]
      simp

end Window

namespace Indicator

open Machine Series Statistics

/-- The window of a day on which `n` values have been seen since the last gap. -/
theorem window_of_seen {xs : Series α} {n day : Nat} {seen : List α} {x : α}
    (hday : day < xs.length) (hseen : xs.seenOn day = seen ++ [x]) (h : n ≤ seen.length + 1) :
    xs.lastNumbers n day = ((seen ++ [x]).map number).rtake n ∧
      ∀ v ∈ seen ++ [x], Arith.isFinite v = true := by
  have hfull : n ≤ (xs.seenOn day).length := by rwa [hseen, List.length_append]
  refine ⟨?_, fun v hv => ?_⟩
  · rw [lastNumbers_eq hday hfull, hseen]
  · exact finite_of_mem_seenOn (hseen ▸ hv)

variable {n : Nat}

/-! ### What the machines keep of the window -/

/-- The sum is that of the last `n` values since the gap. -/
def SlidingSum.Over (n : Nat) (seen : List α) (s : SlidingSum α) : Prop :=
  s.run = seen.length ∧ ((∀ v ∈ seen, Arith.isFinite v = true) →
    number? s.sum = some ((seen.map number).rtake n).sum)

theorem SlidingSum.Over.slide (hn : 0 < n) {seen : List α} {s : SlidingSum α} (h : s.Over n seen)
    (x : α) : ((simpleMachine n).step s (x, (Window.leaving n seen).getD 0)).1.Over n
      (seen ++ [x]) := by
  refine ⟨by simp [simpleMachine, h.1], fun hfinite => ?_⟩
  have htotal := h.2 fun v hv => hfinite v (List.mem_append_left _ hv)
  have hslide := Window.number_slide hn id id (fun h => h) hfinite
    (by rwa [List.map_id])
  rw [List.map_id] at hslide
  simp only [simpleMachine, h.1]
  exact hslide

theorem tracks_simple (hn : 0 < n) :
    ((simpleMachine n).overWindow n).Tracks fun (seen : List α) s =>
      s.2 = seen ∧ s.1.Over n seen := by
  refine tracks_overWindow ⟨rfl, fun _ => ?_⟩ fun x hs => hs.slide hn x
  simpa [simpleMachine] using ExactArith.number_zero

/-- The sums are those of the last `n` values since the gap and of their squares. -/
def SlidingSquares.Over (n : Nat) (seen : List α) (s : SlidingSquares α) : Prop :=
  s.run = seen.length ∧ ((∀ v ∈ seen, Arith.isFinite v = true) →
    number? s.sum = some ((seen.map number).rtake n).sum ∧
      number? s.squares = some (((seen.map number).rtake n).map fun x => x * x).sum)

theorem SlidingSquares.Over.slide (hn : 0 < n) {seen : List α} {s : SlidingSquares α}
    (h : s.Over n seen) (x : α) :
    ((momentsMachine n).step s (x, (Window.leaving n seen).getD 0)).1.Over n (seen ++ [x]) := by
  refine ⟨by simp [momentsMachine, h.1], fun hfinite => ?_⟩
  obtain ⟨hsum, hsquares⟩ := h.2 fun v hv => hfinite v (List.mem_append_left _ hv)
  have hslide := Window.number_slide hn id id (fun h => h) hfinite
    (by rwa [List.map_id])
  have hslideSquares := Window.number_slide hn (fun v => v * v) (fun v => v * v)
    (fun h => number_mul h h) hfinite hsquares
  rw [List.map_id] at hslide
  simp only [momentsMachine, h.1]
  exact ⟨hslide, hslideSquares⟩

theorem tracks_moments (hn : 0 < n) :
    ((momentsMachine n).overWindow n).Tracks fun (seen : List α) s =>
      s.2 = seen ∧ s.1.Over n seen := by
  refine tracks_overWindow ⟨rfl, fun _ => ?_⟩ fun x hs => hs.slide hn x
  simpa [momentsMachine] using ExactArith.number_zero

/-- The sums are the plain and the weighted one of the last `n` values since the gap. -/
def SlidingLine.Over (n : Nat) (seen : List α) (s : SlidingLine α) : Prop :=
  s.run = seen.length ∧ ((∀ v ∈ seen, Arith.isFinite v = true) →
    number? s.sum = some ((seen.map number).rtake n).sum ∧
      number? s.weighted = some (Statistics.weighted ((seen.map number).rtake n)))

theorem SlidingLine.Over.slide (hn : 0 < n) {seen : List α} {s : SlidingLine α} (h : s.Over n seen)
    (x : α) : ((slopeMachine n).step s (x, (Window.leaving n seen).getD 0)).1.Over n
      (seen ++ [x]) := by
  refine ⟨by rw [(windowed_slope n).step, h.1]; simp, fun hfinite => ?_⟩
  obtain ⟨hsum, hweighted⟩ := h.2 fun v hv => hfinite v (List.mem_append_left _ hv)
  have hx : number? x = some (number x) := number?_eq (hfinite x (by simp))
  have hwindow := Window.rtake_eq_leaving hn (seen.map number)
  have hstays := Window.length_rtake (n - 1) (seen.map number)
  rw [List.map_append, List.map_singleton, Window.rtake_concat hn, List.sum_append,
    List.sum_singleton, weighted_concat]
  rw [hwindow, Window.leaving_map] at hsum hweighted
  generalize (seen.map number).rtake (n - 1) = stays at hstays hsum hweighted
  rw [List.length_map] at hstays
  simp only [slopeMachine, h.1]
  split
  · -- the window is not full yet and nothing leaves it
    next hgrows =>
      have hlength : stays.length = seen.length := by omega
      rw [Window.leaving_eq_none hgrows] at hsum hweighted
      rw [hlength]
      exact ⟨number_add hsum hx, number_add hweighted (number_mul (number_ofNat seen.length) hx)⟩
  · next hfull =>
      obtain ⟨old, hmem, hold⟩ := Window.exists_leaving hn (show n ≤ seen.length by omega)
      have hleaves := number?_eq (hfinite old (List.mem_append_left _ hmem))
      have hlength : (stays.length : K) = n - 1 := by
        rw [show stays.length = n - 1 by omega, Nat.cast_sub hn, Nat.cast_one]
      rw [hold] at hsum hweighted ⊢
      have hrest := number_sub hsum hleaves
      have hlowered := number_sub hweighted hrest
      simp only [Option.map_some, Option.toList_some, List.singleton_append, List.sum_cons,
        weighted_cons, add_sub_cancel_left, add_sub_cancel_right] at hrest hlowered
      rw [hlength]
      exact ⟨number_add hrest hx, number_add hlowered
        (number_mul (number_sub (number_ofNat n) ExactArith.number_one) hx)⟩

theorem tracks_slope (hn : 0 < n) :
    ((slopeMachine n).overWindow n).Tracks fun (seen : List α) s =>
      s.2 = seen ∧ s.1.Over n seen := by
  refine tracks_overWindow ⟨rfl, fun _ => ?_⟩ fun x hs => hs.slide hn x
  simpa [slopeMachine, Statistics.weighted] using ExactArith.number_zero

/-! ### The sliding figures and the direct ones -/

variable [IsStrictOrderedRing K]

/-- The simple average is the mean of the last `n` values. -/
theorem simpleAverage_direct {xs : Series α} {day : Nat} {y : α}
    (h : (simpleAverage xs n).at? day = some y) :
    number? y = some (mean (xs.lastNumbers n day)) := by
  rcases Nat.eq_zero_or_pos n with rfl | hn
  · rw [simpleAverage, if_pos rfl, at?_undefined] at h
    cases h
  rw [simpleAverage_eq hn] at h
  obtain ⟨hday, seen, s, x, hs, hseen, hstep⟩ := exists_step (tracks_simple hn) h
  have hnext := hs.slide hn x
  simp only [simpleMachine, hs.1] at hstep hnext
  split at hstep
  · next hfull =>
      obtain ⟨hwindow, hfinite⟩ := window_of_seen hday hseen hfull
      obtain rfl := Option.some.inj hstep
      have hne : (n : K) ≠ 0 := Nat.cast_ne_zero.2 hn.ne'
      rw [mean, length_lastNumbers, hwindow]
      exact number_div (hnext.2 hfinite) (number_ofNat n) hne
  · cases hstep

/-- A variance that counts: none where it is at most a million millionth of the squared mean. -/
def countedVariance (xs : List K) : K :=
  if variance xs ≤ 1e-12 * mean xs ^ 2 then 0 else variance xs

theorem countedVariance_nonneg (xs : List K) : 0 ≤ countedVariance xs := by
  unfold countedVariance
  split
  · exact le_rfl
  · exact variance_nonneg xs

/-- The moments from the two sums over a window. -/
theorem number_momentsOf {ws : List K} (hws : ws ≠ []) {sum squares : α}
    (hsum : number? sum = some ws.sum)
    (hsquares : number? squares = some (ws.map fun x => x * x).sum) :
    number? (momentsOf ws.length sum squares).mean = some (mean ws) ∧
      number? (momentsOf ws.length sum squares).deviation =
        some (ExactArith.root α (countedVariance ws)) := by
  have hne : (ws.length : K) ≠ 0 := length_ne_zero hws
  have hlength := number_ofNat (α := α) ws.length
  have hmean : number? (sum / Arith.ofNat ws.length) = some (mean ws) :=
    number_div hsum hlength hne
  have hvariance : number? (Arith.larger (squares / Arith.ofNat ws.length -
      sum / Arith.ofNat ws.length * (sum / Arith.ofNat ws.length)) 0) = some (variance ws) := by
    have hlarger := ExactArith.number_larger
      (number_sub (number_div hsquares hlength hne) (number_mul hmean hmean)) ExactArith.number_zero
    rwa [← variance_eq hws, max_eq_left (variance_nonneg ws)] at hlarger
  have hliteral : number? (1e-12 : α) = some (1e-12 : K) :=
    (ExactArith.number_ofScientific 1 true 12).trans (by norm_num)
  have htolerance := number_mul (number_mul hliteral hmean) hmean
  have hle := ExactArith.le_iff hvariance htolerance
  refine ⟨hmean, ExactArith.number_sqrt ?_ (countedVariance_nonneg ws)⟩
  rw [countedVariance, pow_two, ← mul_assoc]
  by_cases hnoise : variance ws ≤ 1e-12 * mean ws * mean ws
  · rw [if_pos (hle.2 hnoise), if_pos hnoise]
    exact ExactArith.number_zero
  · rw [if_neg (mt hle.1 hnoise), if_neg hnoise]
    exact hvariance

/-- The rolling moments are the mean of the last `n` values and the root of their variance. -/
theorem rollingMoments_direct {xs : Series α} {day : Nat} {m : Moments α}
    (h : at? (rollingMoments xs n) day = some m) :
    number? m.mean = some (mean (xs.lastNumbers n day)) ∧
      number? m.deviation =
        some (ExactArith.root α (countedVariance (xs.lastNumbers n day))) := by
  rcases Nat.eq_zero_or_pos n with rfl | hn
  · rw [rollingMoments, if_pos rfl] at h
    cases (at?_undefined xs.length day).symm.trans h
  rw [rollingMoments_eq hn] at h
  obtain ⟨hday, seen, s, x, hs, hseen, hstep⟩ := exists_step (tracks_moments hn) h
  have hnext := hs.slide hn x
  simp only [momentsMachine, hs.1] at hstep hnext
  split at hstep
  · next hfull =>
      obtain ⟨hwindow, hfinite⟩ := window_of_seen hday hseen hfull
      obtain rfl := Option.some.inj hstep
      have hlength := xs.length_lastNumbers n day
      have hws : xs.lastNumbers n day ≠ [] := by
        rw [← List.length_pos_iff, hlength]
        exact hn
      obtain ⟨hsum, hsquares⟩ := hnext.2 hfinite
      rw [← hwindow] at hsum hsquares
      have hmoments := number_momentsOf hws hsum hsquares
      rw [hlength] at hmoments
      exact hmoments
  · cases hstep

theorem number_daySum (n : Nat) : number? (daySum n : α) = some (n * (n - 1) / 2 : K) :=
  number_div (number_mul (number_ofNat n) (number_sub (number_ofNat n) ExactArith.number_one))
    (ExactArith.number_literal 2) two_ne_zero

theorem number_daySquares (n : Nat) :
    number? (daySquares n : α) = some ((n - 1) * n * (2 * n - 1) / 6 : K) := by
  have hless := number_sub (number_ofNat (α := α) n) ExactArith.number_one
  have hodd := number_sub (number_mul (ExactArith.number_literal (α := α) 2) (number_ofNat n))
    ExactArith.number_one
  exact number_div (number_mul (number_mul hless (number_ofNat n)) hodd)
    (ExactArith.number_literal 6) (by norm_num)

/-- What the slope is divided by. -/
theorem number_spread (n : Nat) :
    number? (Arith.ofNat n * daySquares n - daySum n * daySum n : α) =
      some (n * ((n - 1) * n * (2 * n - 1) / 6) - n * (n - 1) / 2 * (n * (n - 1) / 2) : K) :=
  number_sub (number_mul (number_ofNat n) (number_daySquares n))
    (number_mul (number_daySum n) (number_daySum n))

/-- The sliding slope is that of the least-squares line through the last `n` values. -/
theorem lineSlope_direct {xs : Series α} {day : Nat} {y : α}
    (h : (lineSlope xs n).at? day = some y) :
    number? y = some (Statistics.slope (days n) (xs.lastNumbers n day)) := by
  rcases Nat.lt_or_ge n 2 with hn | hn
  · rw [lineSlope, if_pos hn, at?_undefined] at h
    cases h
  have hpos : 0 < n := by omega
  rw [lineSlope_eq hn] at h
  obtain ⟨hday, seen, s, x, hs, hseen, hstep⟩ := exists_step (tracks_slope hpos) h
  have hnext := hs.slide hpos x
  simp only [slopeMachine, hs.1] at hstep hnext
  split at hstep
  · next hfull =>
      obtain ⟨hwindow, hfinite⟩ := window_of_seen hday hseen hfull
      obtain rfl := Option.some.inj hstep
      obtain ⟨hsum, hweighted⟩ := hnext.2 hfinite
      rw [← hwindow] at hsum hweighted
      rw [slope_days hpos (xs.length_lastNumbers n day)]
      exact number_div (number_sub (number_mul (number_ofNat n) hweighted)
        (number_mul (number_daySum n) hsum)) (number_spread n) (spread_days hn).ne'
  · cases hstep

/-- The sliding figures are there once the last `n` values are, and are their direct ones: the
mean, the root of the variance, as far as it counts, and the least-squares slope of two days or
more, of which neither form divides by zero. -/
theorem sliding_direct (xs : Series α) (n day : Nat) :
    ((((simpleAverage xs n).at? day).isSome ↔ 0 < n ∧ PresentFor n day (xs.map usable)) ∧
      ∀ y, (simpleAverage xs n).at? day = some y →
        number? y = some (mean (xs.lastNumbers n day))) ∧
    (((at? (rollingMoments xs n) day).isSome ↔ 0 < n ∧ PresentFor n day (xs.map usable)) ∧
      ∀ m, at? (rollingMoments xs n) day = some m →
        number? m.mean = some (mean (xs.lastNumbers n day)) ∧
          number? m.deviation =
            some (ExactArith.root α (countedVariance (xs.lastNumbers n day)))) ∧
    (2 ≤ n → ((days n : List K).map fun x => (x - mean (days n)) ^ 2).sum ≠ 0 ∧
      (∃ d : K, d ≠ 0 ∧
        number? (Arith.ofNat n * daySquares n - daySum n * daySum n : α) = some d) ∧
      (((lineSlope xs n).at? day).isSome ↔ PresentFor n day (xs.map usable)) ∧
      ∀ y, (lineSlope xs n).at? day = some y →
        number? y = some (Statistics.slope (days n) (xs.lastNumbers n day))) := by
  refine ⟨⟨?_, fun y hy => simpleAverage_direct hy⟩,
    ⟨?_, fun m hm => rollingMoments_direct hm⟩, fun hn => ?_⟩
  · rcases Nat.eq_zero_or_pos n with rfl | hn
    · simp [simpleAverage]
    · rw [isSome_simpleAverage hn, and_iff_right hn]
  · rcases Nat.eq_zero_or_pos n with rfl | hn
    · have hnone : at? (rollingMoments xs 0) day = none := at?_undefined xs.length day
      simp [hnone]
    · rw [isSome_rollingMoments hn, and_iff_right hn]
  · exact ⟨spread_ne_zero hn, ⟨_, (spread_days hn).ne', number_spread n⟩, isSome_lineSlope hn xs,
      fun y hy => lineSlope_direct hy⟩

/-- A trend that rises after a value that is not a number. -/
def sampleTrend : Series (Extended Rat.toNNRat fun base _ => base) :=
  [some (.finite 5), some .undefined, some (.finite 1), some (.finite 2), some (.finite 4),
    some (.finite 6)]

theorem sampleTrend_direct :
    (∃ y, (simpleAverage sampleTrend 3).at? 5 = some y ∧
      number? y = some (mean (sampleTrend.lastNumbers 3 5))) ∧
    (∃ m, at? (rollingMoments sampleTrend 3) 5 = some m ∧
      number? m.mean = some (mean (sampleTrend.lastNumbers 3 5)) ∧
        number? m.deviation = some ((Rat.toNNRat
          (countedVariance (sampleTrend.lastNumbers 3 5)) : ℚ))) ∧
    2 ≤ 3 ∧ ∃ y, (lineSlope sampleTrend 3).at? 5 = some y ∧
      number? y = some (Statistics.slope (days 3) (sampleTrend.lastNumbers 3 5)) := by
  obtain ⟨haverage, hmoments, hslope⟩ := sliding_direct sampleTrend 3 5
  have hdefined : ((simpleAverage sampleTrend 3).at? 5).isSome ∧
      (at? (rollingMoments sampleTrend 3) 5).isSome ∧
      ((lineSlope sampleTrend 3).at? 5).isSome := by decide +kernel
  obtain ⟨⟨y, hy⟩, ⟨m, hm⟩, ⟨z, hz⟩⟩ := by
    simpa only [Option.isSome_iff_exists] using hdefined
  exact ⟨⟨y, hy, haverage.2 y hy⟩, ⟨m, hm, hmoments.2 m hm⟩, by decide, z, hz,
    (hslope (by decide)).2.2.2 z hz⟩

end Indicator
end StrategyTree
