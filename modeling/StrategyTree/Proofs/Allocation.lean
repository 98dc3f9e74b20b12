import Mathlib.Algebra.Order.Field.Basic
import Mathlib.Algebra.Order.Field.Rat
import Mathlib.Tactic.LinearCombination
import Mathlib.Tactic.Linarith
import Mathlib.Tactic.Ring
import StrategyTree.Proofs.Exact
import StrategyTree.Proofs.Holdings
/-!
# Bounded allocations

An allocation is bounded if its weights are positive, none is for cash, and they sum
to at most one. Every step by which an allocation is made from others keeps this
in exact arithmetic: adding a scaled allocation adds its scaled sum, the shares of
a slot sum to one, and what an adjustment takes from one ticker is all that it can
give to another.
-/
namespace StrategyTree

variable {sqrt : ℚ → ℚ≥0} {pow : ℚ → ℚ → ℚ}

namespace Allocation

/-- Positive weights of tickers that are not cash. -/
structure Positive (a : Allocation (Exact sqrt pow)) : Prop where
  positive : ∀ e ∈ a.entries, 0 < e.2
  noCash : cashTicker ∉ a.keys

/-- Positive weights of tickers that are not cash, with a sum of at most one. -/
structure Bounded (a : Allocation (Exact sqrt pow)) : Prop extends Positive a where
  total_le : a.total ≤ 1

def weightSum (xs : List (String × Exact sqrt pow)) : ℚ :=
  (xs.map fun e => e.2.value).sum

@[simp] theorem weightSum_nil : weightSum ([] : List (String × Exact sqrt pow)) = 0 := rfl

@[simp] theorem weightSum_cons (e : String × Exact sqrt pow)
    (xs : List (String × Exact sqrt pow)) : weightSum (e :: xs) = e.2.value + weightSum xs := rfl

theorem value_total (a : Allocation (Exact sqrt pow)) :
    a.total.value = weightSum a.entries := by
  rw [total, Exact.value_sum, Table.values, List.map_map]
  rfl

theorem Positive.within {a : Allocation (Exact sqrt pow)} (ha : a.Positive) :
    a.Within (· ≠ cashTicker) :=
  fun _ ht hcash => ha.noCash (hcash ▸ ht)

theorem weightSum_nonneg {xs : List (String × Exact sqrt pow)} (h : ∀ e ∈ xs, 0 < e.2) :
    0 ≤ weightSum xs := by
  induction xs with
  | nil => exact le_refl 0
  | cons e rest ih =>
      have he : 0 < e.2.value := h e List.mem_cons_self
      have hrest := ih fun d hd => h d (List.mem_cons_of_mem _ hd)
      rw [weightSum_cons]
      exact add_nonneg he.le hrest

theorem weightSum_pos {xs : List (String × Exact sqrt pow)} (h : ∀ e ∈ xs, 0 < e.2)
    (hne : xs ≠ []) : 0 < weightSum xs := by
  obtain ⟨e, rest, rfl⟩ := List.exists_cons_of_ne_nil hne
  have he : 0 < e.2.value := h e List.mem_cons_self
  have hrest := weightSum_nonneg fun d hd => h d (List.mem_cons_of_mem e hd)
  rw [weightSum_cons]
  exact add_pos_of_pos_of_nonneg he hrest

/-! ### Adding a weight -/

/-- The sum of the weights, each times what `g` says of its ticker. -/
def tally (g : String → ℚ) (es : List (String × Exact sqrt pow)) : ℚ :=
  (es.map fun e => g e.1 * e.2.value).sum

@[simp] theorem tally_nil (g : String → ℚ) :
    tally g ([] : List (String × Exact sqrt pow)) = 0 := rfl

@[simp] theorem tally_cons (g : String → ℚ) (e : String × Exact sqrt pow)
    (es : List (String × Exact sqrt pow)) :
    tally g (e :: es) = g e.1 * e.2.value + tally g es := rfl

theorem value_total_eq_tally (a : Allocation (Exact sqrt pow)) :
    a.total.value = tally (fun _ => 1) a.entries := by
  rw [value_total, weightSum, tally]
  simp only [one_mul]

theorem tally_alterEntries (g : String → ℚ) (key : String) (x : Exact sqrt pow)
    (es : List (String × Exact sqrt pow)) :
    tally g (Table.alterEntries key (fun w => w.getD 0 + x) es) = tally g es + g key * x.value := by
  induction es with
  | nil => simp [Table.alterEntries]
  | cons e rest ih =>
      rw [Table.alterEntries, tally_cons]
      split
      · rw [tally_cons, tally_cons, Option.getD_none, Exact.value_add, Exact.value_zero]
        ring
      · next hnot =>
          split
          · rw [tally_cons, ih]
            ring
          · next hnot' =>
              have hkey : e.1 = key :=
                String.le_antisymm (String.not_lt.1 hnot) (String.not_lt.1 hnot')
              rw [tally_cons, Option.getD_some, Exact.value_add, hkey]
              ring

theorem tally_add (g : String → ℚ) (a : Allocation (Exact sqrt pow)) (ticker : String)
    (x : Exact sqrt pow) :
    tally g (a.add ticker x).entries = tally g a.entries + g ticker * x.value :=
  tally_alterEntries g ticker x a.entries

theorem value_total_add (a : Allocation (Exact sqrt pow)) (ticker : String)
    (x : Exact sqrt pow) : (a.add ticker x).total.value = a.total.value + x.value := by
  rw [value_total_eq_tally, value_total_eq_tally, tally_add, one_mul]

theorem forall_pos_add {a : Allocation (Exact sqrt pow)} (ha : ∀ e ∈ a.entries, 0 < e.2)
    {ticker : String} {x : Exact sqrt pow} (hx : 0 < x) :
    ∀ e ∈ (a.add ticker x).entries, 0 < e.2 := by
  intro e he
  rw [← Table.get?_eq_some_iff, Allocation.add, Table.get?_alter] at he
  split at he
  · rw [← Option.some.inj he]
    rw [Exact.lt_iff, Exact.value_zero] at hx ⊢
    cases hw : a.get? ticker with
    | none => simpa [hw] using hx
    | some v =>
        have hv : 0 < v.value := ha _ (Table.get?_eq_some_iff.1 hw)
        simpa [hw] using add_pos hv hx
  · exact ha _ (Table.get?_eq_some_iff.1 he)

theorem Positive.add {a : Allocation (Exact sqrt pow)} (ha : a.Positive) {ticker : String}
    {x : Exact sqrt pow} (hx : 0 < x) (ht : ticker ≠ cashTicker) :
    (a.add ticker x).Positive where
  positive := forall_pos_add ha.positive hx
  noCash h := (Table.mem_keys_alter.1 h).elim (fun hcash => ht hcash.symm) ha.noCash

theorem Positive.map {a : Allocation (Exact sqrt pow)} (ha : a.Positive)
    {f : String → Exact sqrt pow → Exact sqrt pow} (hf : ∀ e ∈ a.entries, 0 < f e.1 e.2) :
    Positive (a.map f) := by
  constructor
  · intro e he
    obtain ⟨d, hd, rfl⟩ := List.mem_map.1 he
    exact hf d hd
  · rw [Table.keys_map]
    exact ha.noCash

theorem positive_empty : Positive (Table.empty : Allocation (Exact sqrt pow)) :=
  ⟨(fun _ he => by cases he), fun h => by cases h⟩

theorem value_total_empty : (total (Table.empty : Allocation (Exact sqrt pow))).value = 0 :=
  value_total _

theorem bounded_empty : Bounded (Table.empty : Allocation (Exact sqrt pow)) := by
  refine ⟨positive_empty, ?_⟩
  rw [Exact.le_iff, value_total_empty]
  exact zero_le_one

/-! ### Adding an allocation -/

/-- A weight that is not negative is left out only where the factor makes it zero. -/
theorem tally_addScaled (g : String → ℚ) {target source : Allocation (Exact sqrt pow)}
    (hs : ∀ e ∈ source.entries, 0 ≤ e.2.value) {factor : Exact sqrt pow} (hf : 0 ≤ factor.value) :
    tally g (target.addScaled source factor).entries =
      tally g target.entries + factor.value * tally g source.entries := by
  unfold Allocation.addScaled
  generalize source.entries = es at hs
  induction es generalizing target with
  | nil => simp
  | cons e rest ih =>
      obtain ⟨he, hrest⟩ := List.forall_mem_cons.1 hs
      rw [List.foldl_cons, ih hrest, tally_cons]
      dsimp only
      split
      · rw [tally_add, Exact.value_mul]
        ring
      · next hx =>
          have hzero : e.2.value * factor.value = 0 :=
            le_antisymm (not_lt.1 hx) (mul_nonneg he hf)
          linear_combination -g e.1 * hzero

theorem forall_pos_addScaled {target : Allocation (Exact sqrt pow)}
    (ht : ∀ e ∈ target.entries, 0 < e.2) (source : Allocation (Exact sqrt pow))
    (factor : Exact sqrt pow) : ∀ e ∈ (target.addScaled source factor).entries, 0 < e.2 := by
  refine List.foldlRecOn (motive := fun b : Allocation (Exact sqrt pow) =>
    ∀ e ∈ b.entries, 0 < e.2) _ _ ht fun b hb e _ => ?_
  dsimp only
  split
  · next hx => exact forall_pos_add hb hx
  · exact hb

theorem Positive.addScaled {target source : Allocation (Exact sqrt pow)} (ht : target.Positive)
    (hs : source.Positive) {factor : Exact sqrt pow} (hf : 0 ≤ factor.value) :
    (target.addScaled source factor).Positive ∧
      (target.addScaled source factor).total.value =
        target.total.value + factor.value * source.total.value := by
  have hpos : ∀ e ∈ source.entries, 0 ≤ e.2.value := fun e he => le_of_lt (hs.positive e he)
  have hcash : (target.addScaled source factor).Within (· ≠ cashTicker) :=
    ht.within.addScaled hs.within factor
  refine ⟨⟨forall_pos_addScaled ht.positive source factor, fun h => hcash _ h rfl⟩, ?_⟩
  rw [value_total_eq_tally, value_total_eq_tally, value_total_eq_tally, tally_addScaled _ hpos hf]

/-- The sum of scaled allocations, ticker by ticker and so in all. -/
theorem tally_foldl_addScaled (g : String → ℚ) {target : Allocation (Exact sqrt pow)}
    {ps : List (Allocation (Exact sqrt pow) × Exact sqrt pow)}
    (hps : ∀ p ∈ ps, (∀ e ∈ p.1.entries, 0 ≤ e.2.value) ∧ 0 ≤ p.2.value) :
    tally g (ps.foldl (fun t p => t.addScaled p.1 p.2) target).entries =
      tally g target.entries + (ps.map fun p => p.2.value * tally g p.1.entries).sum := by
  induction ps generalizing target with
  | nil => simp
  | cons p rest ih =>
      obtain ⟨hp, hrest⟩ := List.forall_mem_cons.1 hps
      rw [List.foldl_cons, ih hrest, tally_addScaled g hp.1 hp.2, List.map_cons, List.sum_cons,
        add_assoc]

theorem forall_pos_foldl_addScaled {target : Allocation (Exact sqrt pow)}
    (ht : ∀ e ∈ target.entries, 0 < e.2)
    (ps : List (Allocation (Exact sqrt pow) × Exact sqrt pow)) :
    ∀ e ∈ (ps.foldl (fun t p => t.addScaled p.1 p.2) target).entries, 0 < e.2 := by
  induction ps generalizing target with
  | nil => exact ht
  | cons p rest ih => exact ih (forall_pos_addScaled ht p.1 p.2)

/-- Bounded allocations with shares of at most one in all make a bounded allocation. -/
theorem foldl_addScaled_le {target : Allocation (Exact sqrt pow)} (ht : target.Positive)
    {ps : List (Allocation (Exact sqrt pow) × Exact sqrt pow)}
    (hps : ∀ p ∈ ps, p.1.Bounded ∧ 0 ≤ p.2.value) :
    let sum := ps.foldl (fun t p => t.addScaled p.1 p.2) target
    sum.Positive ∧ sum.total.value ≤ target.total.value + (ps.map fun p => p.2.value).sum := by
  induction ps generalizing target with
  | nil => exact ⟨ht, by simp⟩
  | cons p rest ih =>
      obtain ⟨hp, hshare⟩ := hps p List.mem_cons_self
      obtain ⟨hpos, hsum⟩ := ht.addScaled hp.toPositive hshare
      obtain ⟨hpos', hsum'⟩ := ih hpos fun q hq => hps q (List.mem_cons_of_mem _ hq)
      refine ⟨hpos', hsum'.trans ?_⟩
      have hle : p.2.value * p.1.total.value ≤ p.2.value :=
        mul_le_of_le_one_right hshare hp.total_le
      rw [hsum, List.map_cons, List.sum_cons]
      linarith

/-! ### Positions and mixtures -/

theorem addTickers_positive {target : Allocation (Exact sqrt pow)} (ht : target.Positive)
    {share : Exact sqrt pow} (hshare : 0 < share) {tickers : List String}
    (h : ∀ t ∈ tickers, t ≠ cashTicker) :
    let sum := tickers.foldl (fun t ticker => Allocation.add t ticker share) target
    sum.Positive ∧ sum.total.value = target.total.value + tickers.length * share.value := by
  induction tickers generalizing target with
  | nil => exact ⟨ht, by simp⟩
  | cons t rest ih =>
      obtain ⟨hpos, hsum⟩ := ih (ht.add hshare (h t List.mem_cons_self))
        fun u hu => h u (List.mem_cons_of_mem _ hu)
      refine ⟨hpos, ?_⟩
      rw [List.foldl_cons, hsum, value_total_add, List.length_cons]
      push_cast
      ring

/-- A position is bounded: its tickers, cash among them, share one. -/
theorem bounded_ofPosition {inScope : String → Bool} {tickers : List String}
    {a : Allocation (Exact sqrt pow)} (h : ofPosition cashTicker inScope tickers = some a) :
    a.Bounded := by
  unfold ofPosition at h
  dsimp only at h
  generalize tickers.filter (fun t => t == cashTicker || inScope t) = kept at h
  split at h
  · cases h
  next hne =>
  obtain rfl := Option.some.inj h
  have hlength : 0 < (kept.length : ℚ) := by
    rw [Nat.cast_pos, List.length_pos_iff]
    simpa using hne
  have hshare : (0 : Exact sqrt pow) < 1 / Arith.ofNat kept.length := by
    rw [Exact.lt_iff, Exact.value_div, Exact.value_ofNat]
    exact div_pos one_pos hlength
  have hother : ∀ t ∈ kept.filter (· ≠ cashTicker), t ≠ cashTicker := by simp
  obtain ⟨hpos, hsum⟩ := addTickers_positive positive_empty hshare hother
  refine ⟨hpos, ?_⟩
  have hfewer : ((kept.filter (· ≠ cashTicker)).length : ℚ) ≤ kept.length :=
    Nat.cast_le.2 (List.length_filter_le _ _)
  rw [Exact.le_iff, hsum, value_total_empty, zero_add, Exact.value_div, Exact.value_ofNat,
    Exact.value_one, mul_one_div, div_le_one hlength]
  exact hfewer

/-- The parts of a mixture that are not pruned, each with its factor. -/
def present (parts : List (Exact sqrt pow × Option (Allocation (Exact sqrt pow)))) :
    List (Allocation (Exact sqrt pow) × Exact sqrt pow) :=
  parts.filterMap fun p => p.2.map fun a => (a, p.1)

theorem blend_eq_foldl (parts : List (Exact sqrt pow × Option (Allocation (Exact sqrt pow)))) :
    blend parts = if parts.all fun p => p.2.isNone then none else
      some ((present parts).foldl (fun t p => t.addScaled p.1 p.2) .empty) := by
  unfold blend
  congr 2
  generalize (Table.empty : Allocation (Exact sqrt pow)) = target
  induction parts generalizing target with
  | nil => rfl
  | cons p rest ih =>
      rw [List.foldl_cons, ih]
      rcases p with ⟨factor, _ | a⟩ <;> rfl

theorem sum_present_le {parts : List (Exact sqrt pow × Option (Allocation (Exact sqrt pow)))}
    (h : ∀ p ∈ parts, 0 ≤ p.1.value) : ((present parts).map fun p => p.2.value).sum ≤
      (parts.map fun p => p.1.value).sum := by
  induction parts with
  | nil => exact le_refl _
  | cons p rest ih =>
      have hp := h p List.mem_cons_self
      have ih := ih fun q hq => h q (List.mem_cons_of_mem _ hq)
      rcases p with ⟨factor, _ | a⟩
      · rw [List.map_cons, List.sum_cons]
        exact ih.trans (le_add_of_nonneg_left hp)
      · exact add_le_add (le_refl factor.value) ih

/-- Bounded parts with factors of at most one in all blend to a bounded allocation. -/
theorem bounded_blend {parts : List (Exact sqrt pow × Option (Allocation (Exact sqrt pow)))}
    (hparts : ∀ p ∈ parts, 0 ≤ p.1.value ∧ ∀ a, p.2 = some a → a.Bounded)
    (hsum : (parts.map fun p => p.1.value).sum ≤ 1) {a : Allocation (Exact sqrt pow)}
    (h : blend parts = some a) : a.Bounded := by
  rw [blend_eq_foldl] at h
  split at h
  · cases h
  obtain rfl := Option.some.inj h
  have hpresent : ∀ p ∈ present parts, p.1.Bounded ∧ 0 ≤ p.2.value := by
    intro p hp
    obtain ⟨q, hq, heq⟩ := List.mem_filterMap.1 hp
    obtain ⟨b, hb, rfl⟩ := Option.map_eq_some_iff.1 heq
    exact ⟨(hparts q hq).2 b hb, (hparts q hq).1⟩
  obtain ⟨hpos, hle⟩ := foldl_addScaled_le positive_empty hpresent
  refine ⟨hpos, hle.trans ?_⟩
  rw [value_total_empty, zero_add]
  exact (sum_present_le fun p hp => (hparts p hp).1).trans hsum

/-! ### Scaling by volatility -/

theorem weightSum_map_mul (c : Exact sqrt pow) (es : List (String × Exact sqrt pow)) :
    weightSum (es.map fun e => (e.1, e.2 * c)) = weightSum es * c.value := by
  induction es with
  | nil => simp
  | cons e rest ih =>
      rw [List.map_cons, weightSum_cons, weightSum_cons, ih, Exact.value_mul]
      ring

/-- Multiplying all weights by one positive number and restoring the sum keeps the sum. -/
theorem value_total_restored {a scaled : Allocation (Exact sqrt pow)}
    (hscaled : 0 < scaled.total.value) :
    (total (scaled.map fun _ w => w * (a.total / scaled.total))).value = a.total.value := by
  have hmap := weightSum_map_mul (a.total / scaled.total) scaled.entries
  rw [value_total]
  refine hmap.trans ?_
  rw [← value_total, Exact.value_div, mul_div_cancel₀ _ hscaled.ne']

/-- Every ticker that is held has a deviation, and none is zero. -/
def Measured (sigma : String → Option (Exact sqrt pow)) (a : Allocation (Exact sqrt pow)) : Prop :=
  ∀ t ∈ a.keys, ∃ x, sigma t = some x ∧ 0 < x

/-- An allocation rescaled by deviations: the tickers and their total stay, and the weights are
in one proportion to `ratio` of weight and deviation, or else nothing changes. -/
structure Rescaled (sigma : String → Option (Exact sqrt pow)) (ratio : ℚ → ℚ → ℚ)
    (before after : Allocation (Exact sqrt pow)) : Prop where
  keys : after.keys = before.keys
  total : after.total.value = before.total.value
  proportional : before.Measured sigma → ∃ c, 0 < c ∧ ∀ t ∈ before.keys, ∀ x, sigma t = some x →
    (after.weight t).value = c * ratio (before.weight t).value x.value
  unchanged : ¬before.Measured sigma → after = before

theorem all_measured_iff {sigma : String → Option (Exact sqrt pow)}
    {a : Allocation (Exact sqrt pow)} :
    (a.keys.all fun t => (sigma t).any (0 < ·)) = true ↔ a.Measured sigma := by
  rw [List.all_eq_true]
  refine forall₂_congr fun t _ => ?_
  cases sigma t <;> simp

section Scaling
variable {sigma : String → Option (Exact sqrt pow)} {factor : Exact sqrt pow → Exact sqrt pow}
  {a : Allocation (Exact sqrt pow)}

/-- The weights times the factors of their deviations. -/
def scaled (sigma : String → Option (Exact sqrt pow)) (factor : Exact sqrt pow → Exact sqrt pow)
    (a : Allocation (Exact sqrt pow)) : Allocation (Exact sqrt pow) :=
  Table.map (fun t w => w * factor ((sigma t).getD 0)) a

theorem scaleByVolatility_of_measured (hinvested : 0 < a.total) (h : a.Measured sigma) :
    a.scaleByVolatility sigma factor =
      Table.map (fun _ w => w * (a.total / (a.scaled sigma factor).total))
        (a.scaled sigma factor) := by
  have hpos : ¬a.total ≤ 0 := not_le.2 (Exact.lt_iff.1 hinvested)
  unfold Allocation.scaleByVolatility
  dsimp only
  rw [if_neg hpos, if_pos (all_measured_iff.2 h)]
  rfl

theorem scaleByVolatility_of_not_measured (h : ¬a.Measured sigma) :
    a.scaleByVolatility sigma factor = a := by
  unfold Allocation.scaleByVolatility
  dsimp only
  rw [if_neg (mt all_measured_iff.1 h), ite_self]

theorem forall_pos_scaled (ha : ∀ e ∈ a.entries, 0 < e.2) (hfactor : ∀ x, 0 < x → 0 < factor x)
    (h : a.Measured sigma) : ∀ e ∈ (a.scaled sigma factor).entries, 0 < e.2 := by
  intro e he
  obtain ⟨d, hd, rfl⟩ := List.mem_map.1 he
  obtain ⟨x, hx, hpos⟩ := h d.1 (List.mem_map_of_mem hd)
  have hweight : 0 < d.2.value := ha d hd
  have hx : (sigma d.1).getD 0 = x := by rw [hx, Option.getD_some]
  dsimp only
  rw [hx]
  exact mul_pos hweight (hfactor x hpos)

/-- Without an investment there is no ticker to rescale. -/
theorem rescaled_scaleByVolatility (ha : ∀ e ∈ a.entries, 0 < e.2)
    (hfactor : ∀ x, 0 < x → 0 < factor x) {ratio : ℚ → ℚ → ℚ}
    (hratio : ∀ (w : ℚ) (x : Exact sqrt pow), w * (factor x).value = ratio w x.value) :
    a.Rescaled sigma ratio (a.scaleByVolatility sigma factor) := by
  by_cases hempty : a.entries = []
  case pos =>
    have htotal : a.total ≤ 0 := by
      rw [Exact.le_iff, value_total, hempty]
      exact le_refl 0
    have hsame : a.scaleByVolatility sigma factor = a := if_pos htotal
    have hkeys : a.keys = [] := by rw [Table.keys, hempty, List.map_nil]
    rw [hsame]
    exact ⟨rfl, rfl, fun _ => ⟨1, one_pos, by simp [hkeys]⟩, fun _ => rfl⟩
  case neg =>
    by_cases h : a.Measured sigma
    case neg =>
      rw [scaleByVolatility_of_not_measured h]
      exact ⟨rfl, rfl, fun hall => absurd hall h, fun _ => rfl⟩
    case pos =>
      have hinvested : 0 < a.total.value := by
        rw [value_total]
        exact weightSum_pos ha hempty
      have hscaled : 0 < (a.scaled sigma factor).total.value := by
        rw [value_total]
        refine weightSum_pos (forall_pos_scaled ha hfactor h) fun hnil => hempty ?_
        exact List.map_eq_nil_iff.1 hnil
      rw [scaleByVolatility_of_measured hinvested h]
      refine ⟨?_, value_total_restored hscaled, fun _ => ?_, fun hnot => absurd h hnot⟩
      · rw [Table.keys_map, Allocation.scaled, Table.keys_map]
      · refine ⟨a.total.value / (a.scaled sigma factor).total.value, div_pos hinvested hscaled, ?_⟩
        intro t ht x hx
        obtain ⟨w, hw⟩ := Table.mem_keys_iff.1 ht
        have hafter : (Table.map (fun _ w => w * (a.total / (a.scaled sigma factor).total))
            (a.scaled sigma factor)).get? t =
              some (w * factor x * (a.total / (a.scaled sigma factor).total)) := by
          rw [Table.get?_map, Allocation.scaled, Table.get?_map, hw, hx]
          rfl
        rw [weight, weight, hafter, hw, Option.getD_some, Option.getD_some, ← hratio, mul_comm]
        rfl

/-- Scaled by positive factors, the weights stay positive, and the sum is restored. -/
theorem Bounded.scaleByVolatility (ha : a.Bounded) (sigma : String → Option (Exact sqrt pow))
    (hfactor : ∀ x, 0 < x → 0 < factor x) : (a.scaleByVolatility sigma factor).Bounded := by
  have hrescaled : a.Rescaled sigma (fun w v => w * (factor ⟨v⟩).value)
      (a.scaleByVolatility sigma factor) :=
    rescaled_scaleByVolatility ha.positive hfactor fun _ _ => rfl
  refine ⟨⟨fun e he => ?_, ?_⟩, ?_⟩
  · have hkey : e.1 ∈ a.keys := hrescaled.keys ▸ List.mem_map_of_mem he
    by_cases h : a.Measured sigma
    · obtain ⟨c, hc, hweights⟩ := hrescaled.proportional h
      obtain ⟨x, hx, hpos⟩ := h e.1 hkey
      obtain ⟨w, hw⟩ := Table.mem_keys_iff.1 hkey
      have hold : 0 < w.value := ha.positive _ (Table.get?_eq_some_iff.1 hw)
      have hnew := hweights e.1 hkey x hx
      rw [weight_of_mem he, weight, hw, Option.getD_some] at hnew
      rw [Exact.lt_iff, hnew]
      exact mul_pos hc (mul_pos hold (hfactor x hpos))
    · rw [hrescaled.unchanged h] at he
      exact ha.positive e he
  · rw [hrescaled.keys]
    exact ha.noCash
  · rw [Exact.le_iff, hrescaled.total]
    exact ha.total_le

end Scaling

/-! ### Capping -/

section Capping
variable {a : Allocation (Exact sqrt pow)} {cap : Exact sqrt pow} {fallback : Option String}

/-- The weights with what lies above the cap cut off. -/
def clipped (cap : Exact sqrt pow) (fallback : Option String) (a : Allocation (Exact sqrt pow)) :
    Allocation (Exact sqrt pow) :=
  Table.map (fun t w => if exceeds cap fallback t w then cap else w) a

theorem cap_lt_of_exceeds {t : String} {w : Exact sqrt pow} (h : exceeds cap fallback t w = true) :
    cap < w := by
  rw [exceeds, Bool.and_eq_true, decide_eq_true_eq] at h
  exact h.1

theorem weightSum_clipped_le (cap : Exact sqrt pow) (fallback : Option String)
    (es : List (String × Exact sqrt pow)) :
    weightSum (es.map fun e => (e.1, if exceeds cap fallback e.1 e.2 then cap else e.2)) ≤
      weightSum es := by
  induction es with
  | nil => exact le_refl 0
  | cons e rest ih =>
      rw [List.map_cons, weightSum_cons, weightSum_cons]
      refine add_le_add ?_ ih
      split
      · next h => exact le_of_lt (cap_lt_of_exceeds h)
      · exact le_refl _

theorem excess_eq (cap : Exact sqrt pow) (fallback : Option String)
    (es : List (String × Exact sqrt pow)) (acc : Exact sqrt pow) :
    (es.foldl (fun x e => if exceeds cap fallback e.1 e.2 then x + (e.2 - cap) else x) acc).value =
      acc.value + (weightSum es -
        weightSum (es.map fun e => (e.1, if exceeds cap fallback e.1 e.2 then cap else e.2))) := by
  induction es generalizing acc with
  | nil => simp
  | cons e rest ih =>
      rw [List.foldl_cons, ih, List.map_cons, weightSum_cons, weightSum_cons]
      split
      · simp only [Exact.value_add, Exact.value_sub]
        ring
      · ring

/-- The excess is what clipping takes from the total. -/
theorem value_excess (a : Allocation (Exact sqrt pow)) (cap : Exact sqrt pow)
    (fallback : Option String) :
    (a.excess cap fallback).value = a.total.value - (a.clipped cap fallback).total.value := by
  rw [excess, excess_eq, Exact.value_zero, zero_add, value_total, value_total]
  rfl

theorem value_total_clipped_le (a : Allocation (Exact sqrt pow)) (cap : Exact sqrt pow)
    (fallback : Option String) : (a.clipped cap fallback).total.value ≤ a.total.value := by
  rw [value_total, value_total]
  exact weightSum_clipped_le cap fallback a.entries

/-- Without a fallback every weight gives up what it has above the cap. -/
theorem value_total_clipped (a : Allocation (Exact sqrt pow)) (cap : Exact sqrt pow) :
    (a.clipped cap none).total.value =
      a.total.value - (a.entries.map fun e => max (e.2.value - cap.value) 0).sum := by
  rw [value_total, value_total, clipped, Table.map]
  dsimp only
  induction a.entries with
  | nil => simp
  | cons e rest ih =>
      have hcut : (if exceeds cap none e.1 e.2 then cap else e.2).value =
          e.2.value - max (e.2.value - cap.value) 0 := by
        split
        · next h =>
            have hlt : cap.value < e.2.value := cap_lt_of_exceeds h
            rw [max_eq_left (sub_nonneg.2 hlt.le), sub_sub_cancel]
        · next h =>
            have hle : e.2.value ≤ cap.value := by simpa [exceeds, Exact.lt_iff] using h
            rw [max_eq_right (sub_nonpos.2 hle), sub_zero]
      rw [List.map_cons, List.map_cons, weightSum_cons, weightSum_cons, List.sum_cons, ih, hcut]
      ring

theorem clipped_le_cap {e : String × Exact sqrt pow} (he : e ∈ (a.clipped cap fallback).entries)
    (hfallback : fallback ≠ some e.1) : e.2 ≤ cap := by
  obtain ⟨d, -, rfl⟩ := List.mem_map.1 he
  dsimp only at hfallback ⊢
  split
  · exact le_refl cap.value
  · next h =>
      have hexempt : ¬cap < d.2 := by simpa [exceeds, hfallback] using h
      exact not_lt.1 (mt Exact.lt_iff.2 hexempt)

theorem clipped_of_le (h : ∀ e ∈ a.entries, fallback ≠ some e.1 → e.2 ≤ cap) :
    a.clipped cap fallback = a := by
  have hkeeps : ∀ e ∈ a.entries,
      (e.1, if exceeds cap fallback e.1 e.2 then cap else e.2) = e := by
    intro e he
    have hnot : ¬exceeds cap fallback e.1 e.2 = true := by
      intro hexceeds
      have hlt := cap_lt_of_exceeds hexceeds
      have hother : fallback ≠ some e.1 := by
        rw [exceeds, Bool.and_eq_true, bne_iff_ne] at hexceeds
        exact hexceeds.2
      exact absurd (h e he hother) (not_le.2 (Exact.lt_iff.1 hlt))
    rw [if_neg hnot]
  exact Table.ext ((List.map_congr_left hkeeps).trans (List.map_id' _))

theorem capped_of_cash (h : (Weighting.capped cap fallback).fallback? = none) :
    a.capped cap fallback = a.clipped cap none := by
  unfold Allocation.capped
  dsimp only
  rw [← fallback?_capped cap, h]
  rfl

theorem capped_of_fallback {t : String}
    (h : (Weighting.capped cap fallback).fallback? = some t) :
    a.capped cap fallback =
      if 0 < a.excess cap (some t) then (a.clipped cap (some t)).add t (a.excess cap (some t))
      else a.clipped cap (some t) := by
  unfold Allocation.capped
  dsimp only
  rw [← fallback?_capped cap, h]
  rfl

theorem ne_cash_of_fallback {t : String}
    (h : (Weighting.capped cap fallback).fallback? = some t) : t ≠ cashTicker := by
  rw [fallback?_capped] at h
  simpa using (Option.filter_eq_some_iff.1 h).2

/-- What a cap takes from the weights is all that it gives to the fallback. -/
theorem value_total_capped {t : String}
    (h : (Weighting.capped cap fallback).fallback? = some t) :
    (a.capped cap fallback).total.value = a.total.value := by
  have hexcess := a.value_excess cap (some t)
  rw [capped_of_fallback h]
  split
  · rw [value_total_add, hexcess, add_sub_cancel]
  · next hx =>
      have hle := a.value_total_clipped_le cap (some t)
      have hnone : (a.excess cap (some t)).value ≤ 0 := not_lt.1 hx
      linarith

/-- Only the fallback is left above the cap. -/
theorem capped_le_cap {e : String × Exact sqrt pow} (he : e ∈ (a.capped cap fallback).entries)
    (hfallback : (Weighting.capped cap fallback).fallback? ≠ some e.1) : e.2 ≤ cap := by
  cases h : (Weighting.capped cap fallback).fallback? with
  | none =>
      rw [capped_of_cash h] at he
      exact clipped_le_cap he (by simp)
  | some t =>
      rw [h] at hfallback
      rw [capped_of_fallback h] at he
      split at he
      · have hother : e.1 ≠ t := fun heq => hfallback (congrArg some heq.symm)
        rw [← Table.get?_eq_some_iff, Allocation.add, Table.get?_alter, if_neg hother,
          Table.get?_eq_some_iff] at he
        exact clipped_le_cap he hfallback
      · exact clipped_le_cap he hfallback

/-- A cap leaves an allocation alone in which nothing lies above it. -/
theorem capped_of_le (h : ∀ e ∈ a.entries,
    (Weighting.capped cap fallback).fallback? ≠ some e.1 → e.2 ≤ cap) :
    a.capped cap fallback = a := by
  have hclipped := clipped_of_le h
  cases hkept : (Weighting.capped cap fallback).fallback? with
  | none => rw [capped_of_cash hkept, ← hkept, hclipped]
  | some t =>
      have hexcess := a.value_excess cap (some t)
      rw [hkept] at hclipped
      rw [hclipped, sub_self] at hexcess
      have hnone : ¬0 < a.excess cap (some t) := by
        rw [Exact.lt_iff, hexcess]
        exact lt_irrefl _
      rw [capped_of_fallback hkept, if_neg hnone, hclipped]

/-- A cap keeps positive weights positive, and never adds to the total. -/
theorem Bounded.capped (ha : a.Bounded) (hcap : 0 < cap) (fallback : Option String) :
    (a.capped cap fallback).Bounded := by
  have hclipped (kept : Option String) : (a.clipped cap kept).Bounded := by
    refine ⟨ha.toPositive.map fun e he => ?_, ?_⟩
    · split
      · exact hcap
      · exact ha.positive e he
    · exact (a.value_total_clipped_le cap kept).trans (Exact.le_iff.1 ha.total_le)
  cases h : (Weighting.capped cap fallback).fallback? with
  | none =>
      rw [capped_of_cash h]
      exact hclipped none
  | some t =>
      have htotal : (a.capped cap fallback).total ≤ 1 := by
        rw [Exact.le_iff, value_total_capped h]
        exact ha.total_le
      rw [capped_of_fallback h] at htotal ⊢
      by_cases hx : 0 < a.excess cap (some t)
      · rw [if_pos hx] at htotal ⊢
        exact ⟨(hclipped _).toPositive.add hx (ne_cash_of_fallback h), htotal⟩
      · rw [if_neg hx]
        exact hclipped _

end Capping
end Allocation
end StrategyTree
