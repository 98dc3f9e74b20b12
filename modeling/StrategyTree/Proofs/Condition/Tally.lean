import StrategyTree.Proofs.Condition.Indexing
import StrategyTree.Proofs.Condition.Prefix
import StrategyTree.Proofs.Window
/-!
# Tallies of a sliding window

A tally counts the false and the undefined verdicts of the last days. Each verdict that
leaves the window was counted when it entered, so no counter falls below zero, and the
verdict of a tally is the verdict of the whole window.
-/
namespace StrategyTree.Signal

namespace Tally

/-- The tally of the last `days` verdicts of a signal. -/
def ofWindow (days : Nat) (seen : Signal) : Tally where
  falses := (seen.rtake days).count (some false)
  undefined := (seen.rtake days).count none
  seen := seen.length

/-- One verdict enters, one may leave, and a day has been seen. -/
def next (t : Tally) (p : Verdict × Option Verdict) : Tally :=
  let t := (t.enter p.1).leave p.2
  { t with seen := t.seen + 1 }

/-- Takes a verdict out of the counters, if they have counted it. -/
def leave? (t : Tally) : Option Verdict → Option Tally
  | some (some false) => if t.falses = 0 then none else some (t.leave (some (some false)))
  | some none => if t.undefined = 0 then none else some (t.leave (some none))
  | old => some (t.leave old)

def next? (t : Tally) (p : Verdict × Option Verdict) : Option Tally :=
  ((t.enter p.1).leave? p.2).map fun t => { t with seen := t.seen + 1 }

theorem next?_eq {t : Tally} {p : Verdict × Option Verdict}
    (h : (t.enter p.1).leave? p.2 = some ((t.enter p.1).leave p.2)) :
    t.next? p = some (t.next p) := by
  rw [next?, h]
  rfl

variable {days : Nat}

/-- Nothing leaves a window that the window has not counted. -/
theorem leave?_ofWindow (hdays : 0 < days) (seen : Signal) (v : Verdict) :
    ((ofWindow days seen).enter v).leave? (Window.leaving days seen) =
      some (((ofWindow days seen).enter v).leave (Window.leaving days seen)) := by
  have hcount (w : Verdict) (h : Window.leaving days seen = some w) :
      0 < (seen.rtake days).count w := by
    rw [List.count_pos_iff, Window.rtake_eq_leaving hdays, h]
    exact List.mem_cons_self
  rcases hold : Window.leaving days seen with _ | _ | _ | _
  · rfl
  · have hpos := hcount none hold
    have hne : ((ofWindow days seen).enter v).undefined ≠ 0 := by
      cases v with
      | none => exact Nat.succ_ne_zero _
      | some b => cases b <;> exact hpos.ne'
    simp only [leave?, if_neg hne]
  · have hpos := hcount (some false) hold
    have hne : ((ofWindow days seen).enter v).falses ≠ 0 := by
      cases v with
      | none => exact hpos.ne'
      | some b => cases b with
        | false => exact Nat.succ_ne_zero _
        | true => exact hpos.ne'
    simp only [leave?, if_neg hne]
  · rfl

/-- The counters follow the window. -/
theorem next_ofWindow (hdays : 0 < days) (seen : Signal) (v : Verdict) :
    (ofWindow days seen).next (v, Window.leaving days seen) = ofWindow days (seen ++ [v]) := by
  have hbefore (w : Verdict) := congrArg (List.count w) (Window.rtake_eq_leaving hdays seen)
  have hafter (w : Verdict) := congrArg (List.count w) (Window.rtake_concat hdays seen v)
  simp only [List.count_append] at hbefore hafter
  simp only [next, ofWindow, hafter, hbefore, List.length_append, List.length_singleton]
  rcases Window.leaving days seen with _ | _ | _ | _ <;> rcases v with _ | _ | _ <;>
    simp [enter, leave] <;> omega

/-- The verdict of a tally is that of the window: undefined until it is full or where a
verdict in it is, and otherwise whether all are true. -/
theorem verdict_ofWindow (seen : Signal) : (ofWindow days seen).verdict days =
    if seen.length < days ∨ none ∈ seen.rtake days then none
    else some (decide (some false ∉ seen.rtake days)) := by
  have hfalses : ((seen.rtake days).count (some false) == 0) =
      decide (some false ∉ seen.rtake days) := by
    rw [Bool.eq_iff_iff, beq_iff_eq, decide_eq_true_iff, List.count_eq_zero]
  simp only [verdict, ofWindow, List.count_pos_iff, hfalses]

end Tally

/-- Each verdict of a signal with the one that leaves the window as it enters. -/
def entries (days : Nat) (base : Signal) : List (Verdict × Option Verdict) :=
  base.zip (Series.delayed days (base.map some))

variable {days : Nat}

theorem entries_concat (hdays : 0 < days) (base : Signal) (v : Verdict) :
    entries days (base ++ [v]) = entries days base ++ [(v, Window.leaving days base)] := by
  have hleaving : (Window.leaving days (base.map some)).join = Window.leaving days base := by
    simp only [Window.leaving, List.length_map]
    split
    · rfl
    · rw [List.getElem?_map]
      cases base[base.length - days]? <;> rfl
  unfold entries
  rw [List.map_append, List.map_singleton, Window.delayed_concat hdays, hleaving,
    List.zip_append (by simp), List.zip_cons_cons, List.zip_nil_right]

/-- After the days of a signal the tally is that of its last days. -/
theorem foldl_entries (hdays : 0 < days) (base : Signal) :
    (entries days base).foldl Tally.next ⟨0, 0, 0⟩ = Tally.ofWindow days base := by
  induction base using List.reverseRecOn with
  | nil => simp [entries, Tally.ofWindow]
  | append_singleton base v ih =>
      rw [entries_concat hdays, List.foldl_append, ih]
      exact Tally.next_ofWindow hdays base v

theorem slide_cons (t : Tally) (p : Verdict × Option Verdict)
    (rest : List (Verdict × Option Verdict)) :
    slide days t (p :: rest) = (t.next p).verdict days :: slide days (t.next p) rest := by
  obtain ⟨v, old⟩ := p
  rw [slide]
  rfl

theorem slide_concat (t : Tally) (ps : List (Verdict × Option Verdict))
    (p : Verdict × Option Verdict) :
    slide days t (ps ++ [p]) = slide days t ps ++ [((ps ++ [p]).foldl Tally.next t).verdict days] := by
  induction ps generalizing t with
  | nil => exact slide_cons t p []
  | cons q rest ih =>
      rw [List.cons_append, slide_cons, ih, slide_cons]
      rfl

theorem sustain_concat (hdays : 0 < days) (base : Signal) (v : Verdict) :
    sustain days (base ++ [v]) =
      sustain days base ++ [(Tally.ofWindow days (base ++ [v])).verdict days] := by
  have hfold := foldl_entries hdays (base ++ [v])
  rw [entries_concat hdays] at hfold
  change slide days _ (entries days _) = slide days _ (entries days _) ++ _
  rw [entries_concat hdays, slide_concat, hfold]

@[simp] theorem length_sustain (days : Nat) (base : Signal) :
    (sustain days base).length = base.length := by
  have hslide (t : Tally) (ps : List (Verdict × Option Verdict)) :
      (slide days t ps).length = ps.length := by
    induction ps generalizing t with
    | nil => rfl
    | cons p rest ih => rw [slide_cons, List.length_cons, ih, List.length_cons]
  rw [sustain, hslide]
  simp

/-- The verdict of a sustained signal on a day is that of the days up to it. -/
theorem getElem?_sustain (hdays : 0 < days) {base : Signal} {day : Nat}
    (h : day < base.length) : (sustain days base)[day]? =
      some ((Tally.ofWindow days (base.take (day + 1))).verdict days) := by
  have htake := sustain_take days (day + 1) base
  have hlast : (sustain days (base.take (day + 1)))[day]? = (sustain days base)[day]? := by
    rw [htake, List.getElem?_take, if_pos (Nat.lt_succ_self day)]
  rw [← hlast, List.take_succ_eq_append_getElem h, sustain_concat hdays]
  have hlength : (sustain days (base.take day)).length = day := by
    rw [length_sustain, List.length_take, Nat.min_eq_left h.le]
  rw [List.getElem?_append_right hlength.le, hlength, Nat.sub_self]
  rfl

/-! ### Counters that may not fall below zero -/

/-- Slides a tally, and fails where a counter would fall below zero. -/
def slide? (days : Nat) : Tally → List (Verdict × Option Verdict) → Option Signal
  | _, [] => some []
  | t, p :: rest => do
      let t ← t.next? p
      return t.verdict days :: (← slide? days t rest)

/-- Whether a signal was true on each of the last `days` days, by index and with counters
that may not fall below zero. -/
def sustainStrictly? (days : Nat) (base : Signal) : Option Signal := do
  slide? days ⟨0, 0, 0⟩ (← entries? days base)

theorem slide?_eq {ps : List (Verdict × Option Verdict)} {t : Tally}
    (h : ∀ before p after, ps = before ++ p :: after →
      (before.foldl Tally.next t).next? p = some ((before.foldl Tally.next t).next p)) :
    slide? days t ps = some (slide days t ps) := by
  induction ps generalizing t with
  | nil => rfl
  | cons p rest ih =>
      have hrest := ih (t := t.next p) fun before q after heq =>
        h (p :: before) q after (congrArg (p :: ·) heq)
      have hfirst : t.next? p = some (t.next p) := h [] p rest rfl
      rw [slide?, hfirst, slide_cons]
      simp only [Option.bind_eq_bind, Option.bind_some, hrest]
      rfl

theorem exists_of_entries {base : Signal} {before after : List (Verdict × Option Verdict)}
    {p : Verdict × Option Verdict} (hdays : 0 < days) (h : entries days base = before ++ p :: after) :
    ∃ (seen : Signal) (v : Verdict), before = entries days seen ∧ p = (v, Window.leaving days seen) := by
  have hlt : before.length < base.length := by
    have hlength := congrArg List.length h
    simp only [entries, List.length_zip, Series.length_delayed, List.length_map,
      List.length_append, List.length_cons] at hlength
    omega
  have hprefix : before ++ [p] = entries days (base.take (before.length + 1)) := by
    have htake : entries days (base.take (before.length + 1)) =
        (entries days base).take (before.length + 1) := by
      rw [entries, entries, List.map_take, Series.delayed_take, List.zip_eq_zipWith,
        List.zip_eq_zipWith, List.take_zipWith]
    rw [htake, h, List.take_append, List.take_of_length_le (Nat.le_succ _), Nat.add_sub_cancel_left,
      List.take_succ_cons, List.take_zero]
  rw [List.take_succ_eq_append_getElem hlt, entries_concat hdays] at hprefix
  obtain ⟨hbefore, hp⟩ := List.append_inj' hprefix rfl
  exact ⟨base.take before.length, base[before.length], hbefore, List.singleton_inj.1 hp⟩

/-- No counter of a sliding window falls below zero, and no look-up fails. -/
theorem sustainStrictly?_eq (hdays : 0 < days) (base : Signal) :
    sustainStrictly? days base = some (sustain days base) := by
  rw [sustainStrictly?, entries?_eq]
  refine slide?_eq fun before p after heq => ?_
  obtain ⟨seen, v, rfl, rfl⟩ := exists_of_entries hdays heq
  rw [foldl_entries hdays]
  exact Tally.next?_eq (Tally.leave?_ofWindow hdays seen v)

end StrategyTree.Signal
