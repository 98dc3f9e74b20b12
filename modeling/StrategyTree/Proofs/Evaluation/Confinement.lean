import Mathlib
import StrategyTree.Proofs.Evaluation.Depth
import StrategyTree.Proofs.Evaluation.Safety
import StrategyTree.Proofs.Evaluation.Visits
import StrategyTree.Proofs.Holdings
import StrategyTree.Proofs.Strategy.Collection
/-!
# Confinement to a scope

A ranking hands its selection down as the scope of its slot, in place of the scope that it
was itself given. Only what lies in the scope is ranked, so a scope is never widened on the
way down, through branches, ladders and calls alike. What a node yields lies in its scope,
but for the fallbacks of caps, which are bought without a look at the scope.
-/
namespace StrategyTree

variable {α : Type}

/-- One scope allows no ticker that another does not allow. -/
def Scope.Narrows (inner outer : Scope) : Prop :=
  ∀ t, inner.allows t = true → outer.allows t = true

theorem Scope.Narrows.refl (scope : Scope) : scope.Narrows scope :=
  fun _ h => h

theorem Scope.Narrows.trans {inner middle outer : Scope} (h : inner.Narrows middle)
    (h' : middle.Narrows outer) : inner.Narrows outer :=
  fun t ht => h' t (h t ht)

theorem Scope.allows_some {tickers : List String} {t : String} :
    Scope.allows (some tickers) t = true ↔ t ∈ tickers :=
  List.contains_iff_mem

/-- A ticker is the fallback of a cap at a node that is reached. -/
def Node.BuysBeyond (chains : Table (Node α)) (n : Node α) (t : String) : Prop :=
  ∃ d cap, n.Reaches chains d ∧ .capped cap (some t) ∈ d.weightings ∧ t ≠ cashTicker

variable [Arith α]

/-! ### What a node yields -/

/-- The tickers that a node of an evaluation may hold under a scope, as seen from a node above. -/
def Node.MayHold (chains : Table (Node α)) (n : Node α) (scope : Scope) (t : String) : Prop :=
  scope.allows t = true ∨ n.BuysBeyond chains t

omit [Arith α] in
theorem Node.mayHold_fallback {chains : Table (Node α)} {n d : Node α} {w : Weighting α}
    (hd : n.Reaches chains d) (hw : w ∈ d.weightings) (scope : Scope) {t : String}
    (ht : w.fallback? = some t) : n.MayHold chains scope t := by
  obtain ⟨hcash, cap, rfl⟩ := Node.fallback_eq_some.1 ht
  exact .inr ⟨d, cap, hd, hw, hcash⟩

/-- An evaluation below a node beside itself, which brings in no ticker that the node may not
hold. -/
def Node.confined {src : Sources α} (hsrc : src.Steady) (chains : Table (Node α)) (n : Node α) :
    Simulation src src chains where
  toCoupling := .self
  covers _ d := n.Reaches chains d
  good scope a := a.Within (n.MayHold chains scope)
  child hd hc := hd.tail (.child hc)
  enter hd hroot _ := hd.tail (.call hroot)
  fault _ _ := trivial
  verdict _ _ := hsrc.verdict _ _
  value _ := hsrc.value _ _
  candidates _ := (hsrc.candidates _).mono fun _ _ _ _ => trivial
  held _ ha := Allocation.within_ofPosition (fun _ _ _ hscope => .inl hscope) ha
  settled sigma hd hw hc ha := Weighting.within_adjust (Weighting.within_spread hc ha)
    (fun _ ht => mayHold_fallback hd hw _ ht) sigma
  mixed _ hfirst hsecond h := Allocation.within_blend (forall_mem_forkParts hfirst hsecond) h
  narrowed hscope ha t ht := (ha t ht).imp_left fun h => hscope t (Scope.allows_some.1 h)
  empty := Allocation.within_empty

/-! ### What is visited -/

/-- A comparison of a run with any other, which follows the property of its results only. -/
def Run.answering : Run.Comparison α where
  rel good x _ := ∀ s b, (x s).1 = .ok b → good b
  tolerates _ := True
  result h _ _ hb := by
    cases hb
    exact h
  failure _ _ _ hb := by cases hb
  bind {_ _ _ _ x _ f _} hx hf s c hc := by
    rcases h : x s with ⟨r, t⟩
    cases r with
    | ok b =>
        rw [Run.bind_ok h] at hc
        exact hf b (hx s b (by rw [h])) t c hc
    | error e =>
        rw [Run.bind_error h] at hc
        cases hc

/-- A ranking selects only what the scope allows, whatever its sources answer. -/
theorem Sources.selected_narrows {src : Sources α} {id : String} {metric : Metric} {window : Int}
    {count : Nat} {select : Selection} {w : Weighting α} {next : Slot α} {scope : Scope}
    {s : RunState α} {selected : List String}
    (h : (src.selected (.function id metric window count select w next) metric window count select
      scope s).1 = .ok selected) : Scope.Narrows (some selected) scope := by
  have S : (Node.function id metric window count select w next).Compared Run.answering src src
      .empty [] (fun _ => True) (fun _ _ => True)
      (.function id metric window count select w next) :=
    .of_questions (fun _ _ => trivial) (fun _ _ _ _ _ _ => trivial)
      (fun _ _ _ _ _ => trivial) fun _ _ _ _ => trivial
  intro t ht
  exact S.selected rfl s selected h t (Scope.allows_some.1 ht)

/-- Visits under scopes that are no wider than a given one. -/
def Visit.AllWithin (outer : Scope) (visits : List (Visit α)) : Prop :=
  ∀ v ∈ visits, v.scope.Narrows outer

namespace Visit.AllWithin

variable {outer scope : Scope}

omit [Arith α] in
theorem cons {n : Node α} {s : RunState α} {visits : List (Visit α)}
    (h : AllWithin scope visits) : AllWithin scope (⟨n, scope, s⟩ :: visits) :=
  List.forall_mem_cons.2 ⟨.refl scope, h⟩

omit [Arith α] in
theorem append {first second : List (Visit α)} (h : AllWithin outer first)
    (h' : AllWithin outer second) : AllWithin outer (first ++ second) :=
  List.forall_mem_append.2 ⟨h, h'⟩

omit [Arith α] in
theorem nil : AllWithin outer ([] : List (Visit α)) := by
  intro v hv
  cases hv

omit [Arith α] in
theorem along {β : Type} {x : Run α β} {behind : β → RunState α → List (Visit α)}
    {s : RunState α} (h : ∀ b t, x s = (.ok b, t) → AllWithin outer (behind b t)) :
    AllWithin outer (Run.along x behind s) := by
  unfold Run.along
  split
  · next b t hx => exact h b t hx
  · exact nil

omit [Arith α] in
theorem ite {p : Prop} [Decidable p] {first second : List (Visit α)} (h : AllWithin outer first)
    (h' : AllWithin outer second) : AllWithin outer (if p then first else second) := by
  split
  · exact h
  · exact h'

section Tree
variable {src : Sources α} {chains : Table (Node α)}
  {enter : Node α → Scope → Run α (Option (Allocation α))}
  {visitsBehind : Node α → Scope → RunState α → List (Visit α)} {day : Nat}

theorem slot {slot : Slot α} (h : ∀ c, some c ∈ slot → ∀ s,
      AllWithin scope (c.visits src chains enter visitsBehind day scope s)) (s : RunState α) :
    AllWithin scope (Node.visitsSlot src chains enter visitsBehind day slot scope s) := by
  induction slot generalizing s with
  | nil => exact nil
  | cons entry rest ih =>
      have hrest := ih fun c hc => h c (List.mem_cons_of_mem _ hc)
      cases entry with
      | none => exact hrest s
      | some c =>
          apply append (h c List.mem_cons_self s)
          exact along fun _ t _ => hrest t

theorem fork {v w : Weighting α} {thenSlot elseSlot : Slot α}
    (hthen : ∀ s, AllWithin scope
      (Node.visitsSlot src chains enter visitsBehind day thenSlot scope s))
    (helse : ∀ s, AllWithin scope
      (Node.visitsSlot src chains enter visitsBehind day elseSlot scope s))
    (share : α) (s : RunState α) : AllWithin scope
      (Node.visitsFork src chains enter visitsBehind day share ⟨v, w, thenSlot, elseSlot⟩ scope
        s) := by
  apply append
  · exact ite (hthen s) nil
  · exact along fun _ t _ => ite (helse t) nil

theorem rung {ladder : List (Slot α)} (h : ∀ slot ∈ ladder, ∀ s, AllWithin scope
      (Node.visitsSlot src chains enter visitsBehind day slot scope s)) (k : Nat)
    (s : RunState α) :
    AllWithin scope (Node.visitsRung src chains enter visitsBehind day k ladder scope s) := by
  induction ladder generalizing k with
  | nil => exact nil
  | cons slot rest ih =>
      cases k with
      | zero => exact h slot List.mem_cons_self s
      | succ k => exact ih (fun other hother => h other (List.mem_cons_of_mem _ hother)) k

/-- The visits of a node are under no wider scope than its own, if those behind calls are. -/
theorem visits (hbehind : ∀ root scope s, AllWithin scope (visitsBehind root scope s))
    (n : Node α) (scope : Scope) (s : RunState α) :
    AllWithin scope (n.visits src chains enter visitsBehind day scope s) := by
  induction n using Node.induction_on generalizing scope s with
  | step n ih =>
      have filled (scope : Scope) {slot : Slot α} (hslot : slot ∈ n.slots) (t : RunState α) :
          AllWithin scope (Node.visitsSlot src chains enter visitsBehind day slot scope t) :=
        AllWithin.slot (fun c hc => ih c (Node.mem_children.2 ⟨slot, hslot, hc⟩) scope) t
      cases n with
      | basic id w next => exact cons (filled scope (by simp [Node.slots]) s)
      | function id metric window count select w next =>
          refine cons (along fun selected t hselected => ite nil fun v hv => ?_)
          have hselection := filled (some selected) (by simp [Node.slots]) t v hv
          exact hselection.trans (Sources.selected_narrows (by rw [hselected]))
      | indicator id conditions f =>
          refine cons (along fun _ t _ => fork (filled scope ?_) (filled scope ?_) _ t) <;>
            simp [Node.slots]
      | numbered id items quantifier f ladder =>
          refine cons (along fun hits t _ => ite ?rungs ?branches)
          case rungs =>
            exact rung (fun slot hslot => filled scope (by simp [Node.slots, hslot])) hits t
          case branches =>
            refine fork (filled scope ?_) (filled scope ?_) _ t <;> simp [Node.slots]
      | position id tickers => exact cons nil
      | call id chain =>
          apply cons
          split
          · exact nil
          · exact ite nil (hbehind _ scope _)
      | altExit id entry exit f =>
          refine cons (along fun _ t _ => fork (filled scope ?_) (filled scope ?_) _ t) <;>
            simp [Node.slots]
      | scaling id reading lower upper f =>
          refine cons (ite nil (along fun _ t _ =>
            fork (filled scope ?_) (filled scope ?_) _ t)) <;> simp [Node.slots]

/-- However deep calls are nested, nothing is visited under a wider scope. -/
theorem visitsWithin (src : Sources α) (chains : Table (Node α)) (day depth : Nat) (n : Node α)
    (scope : Scope) (s : RunState α) :
    AllWithin scope (n.visitsWithin src chains day depth scope s) := by
  induction depth generalizing n scope s with
  | zero => exact nil
  | succ depth ih => exact visits ih n scope s

end Tree
end Visit.AllWithin

/-- A visit below an outer scope that cannot bring back what this rejects. -/
structure Visit.Confined (src : Sources α) (outer : Scope) (v : Visit α) : Prop where
  narrows : v.scope.Narrows outer
  selects {id : String} {metric : Metric} {window : Int} {count : Nat} {select : Selection}
    {w : Weighting α} {next : Slot α} {selected : List String} :
    v.node = .function id metric window count select w next →
    (src.selected v.node metric window count select v.scope v.state).1 = .ok selected →
    Scope.Narrows (some selected) v.scope
  holds {id : String} {tickers : List String} {chains : Table (Node α)} {day depth : Nat}
    {a : Allocation α} : v.node = .position id tickers →
    (v.node.evaluateWithin src chains day (depth + 1) v.scope v.state).1 = .ok (some a) →
    ∀ t ∈ a.keys, outer.allows t = true

theorem Visit.confined {src : Sources α} {outer : Scope} {v : Visit α}
    (h : v.scope.Narrows outer) : v.Confined src outer where
  narrows := h
  selects hv hselected := Sources.selected_narrows (hv ▸ hselected)
  holds {id tickers _ _ _ a} hv ha := by
    rw [hv] at ha
    have ha : Allocation.ofPosition cashTicker v.scope.allows tickers = some a := Except.ok.inj ha
    exact Allocation.within_ofPosition (fun t _ _ hscope => h t hscope) ha

namespace Strategy

/-- A scope confines what is evaluated under it. Whatever the state, every ticker that a node
yields is in the scope or is the fallback of a cap at a node that it reaches. On the way no
node is visited under a wider scope: a ranking selects from the scope that it is given, so
scopes only narrow, and no position below holds a ticker that was rejected above. -/
theorem evaluation_confined (s : Strategy α) (m : PriceMatrix α) (day depth : Nat) (n : Node α)
    (scope : Scope) (state : RunState α) :
    (∀ a, (n.evaluateWithin (.remembering m s.chains day) s.chains day depth scope state).1 =
        .ok (some a) → ∀ t ∈ a.keys, scope.allows t = true ∨ n.BuysBeyond s.chains t) ∧
      ∀ v ∈ n.visitsWithin (.remembering m s.chains day) s.chains day depth scope state,
        v.Confined (.remembering m s.chains day) scope := by
  constructor
  · intro a ha
    have hsrc := Sources.remembering_steady m s.chains day
    have hmatch := (n.confined hsrc s.chains).evaluateWithin day depth n .refl scope state state
      rfl rfl rfl
    have hgood := hmatch.admitted
    rw [ha] at hgood
    exact hgood a rfl
  · intro v hv
    exact Visit.confined (Visit.AllWithin.visitsWithin _ _ _ _ _ _ _ v hv)

/-- A ranking behind a call, whose slot is capped and falls back to a bond. -/
def sampleNested : Strategy Sample.Number where
  name := "nested"
  root := .function "outer" .currentPrice 0 1 .top .equal [some (.call "c" "inner")]
  chains := Table.empty.insert "inner"
    (.function "inner" .currentPrice 0 2 .bottom (.capped (1 / 2) (some "TLT"))
      [some (.position "p" ["SPY", "QQQ"])])

/-- The inner ranking would take both tickers of the position, but the outer one has rejected
one of them. The bond was never ranked: it is bought as the fallback. -/
theorem sampleNested_confined : ∃ a,
    (sampleNested.root.evaluateWithin (.remembering Sample.matrix sampleNested.chains 0)
      sampleNested.chains 0 2 (some ["QQQ", "SPY"]) .start).1 = .ok (some a) ∧
    a.keys = ["SPY", "TLT"] ∧ sampleNested.root.BuysBeyond sampleNested.chains "TLT" := by
  have hresult : (sampleNested.root.evaluateWithin
      (.remembering Sample.matrix sampleNested.chains 0) sampleNested.chains 0 2
        (some ["QQQ", "SPY"]) .start).1 =
      .ok (some (Table.ofList [("SPY", 1 / 2), ("TLT", 1 / 2)])) := by
    cbv
  have hyields := (sampleNested.evaluation_confined Sample.matrix 0 2 sampleNested.root
    (some ["QQQ", "SPY"]) .start).1
  have hbond := hyields _ hresult "TLT" (by decide)
  exact ⟨_, hresult, rfl, hbond.resolve_left (by decide)⟩

end Strategy
end StrategyTree
