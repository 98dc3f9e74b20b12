import StrategyTree.Proofs.Outcome
import StrategyTree.Strategy.Validation
/-!
# Rules of validation

What a check of one node asks for, as a list of rules, each with the failure that is
told where it is broken. The check of a node enforces its rules in order, so it
accepts if all of them hold and refuses with the failure of the first that does not.
-/
namespace StrategyTree

open Outcome

variable {α : Type}

theorem ensure_ok {p : Prop} [Decidable p] {e : Failure} : ensure p e = .ok () ↔ p := by
  unfold ensure
  split
  · next h => exact iff_of_true rfl h
  · next h => exact iff_of_false (by simp) h

theorem ensure_error {p : Prop} [Decidable p] {e e' : Failure} :
    ensure p e = .error e' ↔ ¬ p ∧ e = e' := by
  unfold ensure
  split
  · next h => simp [h]
  · next h => simp [h]

structure Rule where
  holds : Prop
  [decides : Decidable holds]
  failure : Failure

attribute [instance] Rule.decides

namespace Rule

def enforce (rules : List Rule) : Except Failure Unit :=
  rules.forM fun r => ensure r.holds r.failure

/-- The failure of the first rule that does not hold. -/
def FirstBroken (rules : List Rule) (e : Failure) : Prop :=
  ∃ before r after, rules = before ++ r :: after ∧ (∀ r' ∈ before, r'.holds) ∧
    ¬ r.holds ∧ r.failure = e

section
variable {rules rest : List Rule} {p q : Prop} [Decidable p] [Decidable q] {e : Failure}
  {x y : Except Failure Unit}

theorem ensure_eq (h : p ↔ q) : ensure p e = enforce [⟨q, e⟩] := by
  change ensure p e = (do ensure q e; .ok ())
  by_cases hp : p
  · rw [ensure_ok.2 hp, ensure_ok.2 (h.1 hp)]
    rfl
  · rw [ensure_error.2 ⟨hp, rfl⟩, ensure_error.2 ⟨fun hq => hp (h.2 hq), rfl⟩]
    rfl

theorem enforce_append : enforce (rules ++ rest) = (do enforce rules; enforce rest) := by
  induction rules with
  | nil => rfl
  | cons r rules ih =>
      change (do ensure r.holds r.failure; enforce (rules ++ rest)) =
        (do (do ensure r.holds r.failure; enforce rules); enforce rest)
      rw [ih, bind_assoc]

theorem then_eq (hx : x = enforce rules) (hy : y = enforce rest) :
    (do x; y) = enforce (rules ++ rest) := by
  rw [enforce_append, hx, hy]

theorem ensure_then_eq (h : p ↔ q) (hy : y = enforce rest) :
    (do ensure p e; y) = enforce (⟨q, e⟩ :: rest) :=
  then_eq (ensure_eq h) hy

/-- Checking each element by its rules is enforcing the rules of all. -/
theorem forM_eq {β : Type} {f : β → Except Failure Unit} {g : β → List Rule}
    (h : ∀ x, f x = enforce (g x)) {xs : List β} : xs.forM f = enforce (xs.flatMap g) := by
  induction xs with
  | nil => rfl
  | cons x xs ih =>
      rw [List.flatMap_cons]
      exact then_eq (h x) ih

theorem enforce_ok : enforce rules = .ok () ↔ ∀ r ∈ rules, r.holds := by
  rw [enforce, forM_ok]
  simp only [ensure_ok]

theorem enforce_error : enforce rules = .error e ↔ FirstBroken rules e := by
  rw [enforce, forM_error]
  simp only [FirstBroken, ensure_ok, ensure_error]

end

end Rule

open Rule

/-- Whether a metric may be measured over a window. -/
def Metric.Takes (m : Metric) (window : Int) : Prop :=
  m.ignoresWindow ∨ m.minWindow ≤ window

instance {m : Metric} {window : Int} : Decidable (m.Takes window) :=
  inferInstanceAs (Decidable (_ ∨ _))

def Metric.rule (m : Metric) (window : Int) : Rule :=
  ⟨m.Takes window, .invalidWindow m.title window m.minWindow⟩

def Reading.rule (r : Reading) : Rule :=
  r.metric.rule r.window

theorem Indicator.resolve_ok {m : Metric} {window : Int} (h : m.Takes window) :
    ∃ i, Indicator.resolve m window = .ok i := by
  cases m with
  | currentPrice => exact ⟨_, rfl⟩
  | macdHistogram => exact ⟨_, rfl⟩
  | _ =>
      have hwindow := Int.not_lt.2 (h.resolve_left Bool.false_ne_true)
      simp only [Indicator.resolve, if_neg hwindow]
      exact ⟨_, rfl⟩

theorem Indicator.resolve_error {m : Metric} {window : Int} (h : ¬ m.Takes window) :
    Indicator.resolve m window = .error (.invalidWindow m.title window m.minWindow) := by
  cases m with
  | currentPrice => exact absurd (.inl rfl) h
  | macdHistogram => exact absurd (.inl rfl) h
  | _ =>
      have hwindow := Int.not_le.1 fun hle => h (.inr hle)
      simp only [Indicator.resolve, if_pos hwindow]
      rfl

/-- Resolving an indicator checks its window and nothing else. -/
theorem Indicator.resolve_then_eq {m : Metric} {window : Int} {rest : List Rule}
    {y : Except Failure Unit} (hy : y = enforce rest) :
    (do let _ ← Indicator.resolve m window; y) = enforce (m.rule window :: rest) := by
  change _ = enforce (⟨m.Takes window, .invalidWindow m.title window m.minWindow⟩ :: rest)
  rw [← ensure_then_eq Iff.rfl hy]
  by_cases h : m.Takes window
  · obtain ⟨i, hi⟩ := Indicator.resolve_ok h
    rw [hi, ensure_ok.2 h]
    rfl
  · rw [Indicator.resolve_error h, ensure_error.2 ⟨h, rfl⟩]
    rfl

variable [Arith α]

namespace Weighting

def rules (id : String) : Weighting α → List Rule
  | equal => []
  | inverseVolatility window | volatility window => [Metric.stdDevReturn.rule window]
  | specified weights =>
      [⟨∀ w ∈ weights, Arith.isFinite w ∧ ¬ w < 0,
        .treeInvalid id "specified weights must be non-negative"⟩]
  | capped cap fallback =>
      [⟨Arith.isFinite cap ∧ ¬ cap ≤ 0 ∧ ¬ 1 < cap, .treeInvalid id "cap must be in (0, 1]"⟩,
        ⟨∀ ticker ∈ fallback, ¬ Text.isBlankText ticker,
          .treeInvalid id "capped fallback is blank"⟩]

theorem check_eq {id : String} {w : Weighting α} : w.check id = enforce (w.rules id) := by
  cases w with
  | equal => rfl
  | inverseVolatility window => exact Indicator.resolve_then_eq rfl
  | volatility window => exact Indicator.resolve_then_eq rfl
  | specified weights =>
      apply ensure_eq
      simp
  | capped cap fallback =>
      apply ensure_then_eq
      · simp [and_assoc]
      apply ensure_eq
      cases fallback <;> simp

end Weighting

/-- The rules of the two weightings of a fork. -/
def Fork.rules (id : String) {ν : Type} (fork : Fork α ν) : List Rule :=
  fork.thenWeighting.rules id ++ fork.elseWeighting.rules id

theorem Fork.check_eq {id : String} {ν : Type} {fork : Fork α ν} :
    fork.check id = enforce (fork.rules id) :=
  then_eq Weighting.check_eq Weighting.check_eq

namespace Condition

def referenceRule (id : String) : Reference α → Rule
  | .threshold x => ⟨Arith.isFinite x, .treeInvalid id "condition threshold must be finite"⟩
  | .reading r => r.rule

theorem checkReference_eq {id : String} {reference : Reference α} :
    checkReference id reference = enforce [referenceRule id reference] := by
  cases reference with
  | threshold x => exact ensure_eq Iff.rfl
  | reading r => exact Indicator.resolve_then_eq rfl

def rules (id : String) (c : Condition α) : List Rule :=
  [c.left.rule, referenceRule id c.right,
    ⟨c.sustainedDays ≠ some 0, .treeInvalid id "sustainedDays must be at least 1"⟩]

theorem check_eq {id : String} {c : Condition α} : c.check id = enforce (c.rules id) := by
  apply Indicator.resolve_then_eq
  exact then_eq checkReference_eq (ensure_eq Iff.rfl)

def listRules (id : String) (cs : List (Condition α)) : List Rule :=
  ⟨∀ c ∈ cs.head?, c.connective = .first, .treeInvalid id "first condition must be of type 'if'"⟩ ::
    cs.flatMap (rules id)

theorem checkList_eq {id : String} {cs : List (Condition α)} :
    checkList id cs = enforce (listRules id cs) := by
  apply ensure_then_eq
  · cases cs <;> simp
  · exact forM_eq fun _ => check_eq

end Condition

namespace Node

def ladderRules (id : String) (items : Nat) (quantifier : Quantifier) (fork : Fork α (Node α))
    (slots : Nat) : List Rule :=
  if quantifier = .ladder then
    [⟨slots = items + 1, .treeInvalid id
        s!"ladder needs {items + 1} slots for {items} items, found {slots}"⟩,
      ⟨∀ entry ∈ fork.thenSlot ++ fork.elseSlot, entry.isNone,
        .treeInvalid id "ladder node routes through ladder slots only"⟩]
  else [⟨slots = 0, .treeInvalid id "ladder slots need the ladder quantifier"⟩]

omit [Arith α] in
theorem checkLadder_eq {id : String} {items slots : Nat} {quantifier : Quantifier}
    {fork : Fork α (Node α)} : checkLadder id items quantifier fork slots =
      enforce (ladderRules id items quantifier fork slots) := by
  unfold checkLadder ladderRules
  split
  · apply ensure_then_eq Iff.rfl
    apply ensure_eq
    exact List.all_eq_true
  · exact ensure_eq Iff.rfl

/-- The rule on the number of items that a quantifier asks for. -/
def boundRules (id : String) (items : Nat) (quantifier : Quantifier) : List Rule :=
  match quantifier with
  | .atLeast n | .atMost n | .exactly n =>
      [⟨n ≤ items, .treeInvalid id s!"quantifier needs {n} of {items} items"⟩]
  | .all | .any | .none | .ladder => []

/-- What is asked of a node, in the order in which it is checked. -/
def rules (chains : Table (Node α)) : Node α → List Rule
  | basic id weighting _ => weighting.rules id
  | function id metric window count _ weighting _ =>
      metric.rule window ::
        ⟨count ≠ 0, .treeInvalid id "function count must be at least 1"⟩ :: weighting.rules id
  | indicator id conditions fork => Condition.listRules id conditions ++ fork.rules id
  | numbered id items quantifier fork ladder =>
      ⟨items ≠ [], .treeInvalid id "numbered node needs at least one item"⟩ ::
        (items.flatMap (Condition.listRules id) ++ (boundRules id items.length quantifier ++
          (ladderRules id items.length quantifier fork ladder.length ++ fork.rules id)))
  | position id tickers =>
      [⟨tickers ≠ [], .treeInvalid id "position lists no tickers"⟩,
        ⟨∀ ticker ∈ tickers, ¬ Text.isBlankText ticker,
          .treeInvalid id "position has a blank ticker"⟩]
  | call id chain => [⟨chains.contains chain, .danglingCall id chain⟩]
  | altExit id entry exit fork =>
      Condition.listRules id entry ++ (Condition.listRules id exit ++ fork.rules id)
  | scaling id reading lower upper fork =>
      reading.rule ::
        ⟨Arith.isFinite lower ∧ Arith.isFinite upper,
          .treeInvalid id "scale bounds must be finite"⟩ ::
        ⟨(lower == upper) = false, .treeInvalid id "scaleFrom and scaleTo must differ"⟩ ::
        fork.rules id

theorem check_eq {chains : Table (Node α)} {n : Node α} :
    n.check chains = enforce (n.rules chains) := by
  cases n with
  | basic id weighting next => exact Weighting.check_eq
  | function id metric window count select weighting next =>
      apply Indicator.resolve_then_eq
      exact ensure_then_eq Iff.rfl Weighting.check_eq
  | indicator id conditions fork => exact then_eq Condition.checkList_eq Fork.check_eq
  | numbered id items quantifier fork ladder =>
      apply ensure_then_eq Iff.rfl
      apply then_eq (forM_eq fun _ => Condition.checkList_eq)
      cases quantifier with
      | atLeast k | atMost k | exactly k =>
          simp only [boundRules, List.singleton_append]
          exact ensure_then_eq Iff.rfl (then_eq checkLadder_eq Fork.check_eq)
      | all | any | none | ladder =>
          simp only [boundRules, List.nil_append]
          exact then_eq checkLadder_eq Fork.check_eq
  | position id tickers =>
      apply ensure_then_eq Iff.rfl
      apply ensure_eq
      simp
  | call id chain => exact ensure_eq Iff.rfl
  | altExit id entry exit fork =>
      apply then_eq Condition.checkList_eq
      exact then_eq Condition.checkList_eq Fork.check_eq
  | scaling id reading lower upper fork =>
      apply Indicator.resolve_then_eq
      apply ensure_then_eq
      · simp
      apply ensure_then_eq
      · simp
      exact Fork.check_eq

end Node
end StrategyTree
