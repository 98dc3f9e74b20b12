import StrategyTree.Proofs.Strategy.Keys
import StrategyTree.Proofs.Strategy.Reach
/-!
# Comparison of evaluations

Two evaluations are compared node by node. A comparison of runs lasts when runs are
put together, so the evaluations of a node, and of the node with other slots, compare
as soon as the answers of their sources do and what fills the slots. Beside the
outcomes of the two, a property of allocations is followed that every step of the
evaluation keeps.
-/
namespace StrategyTree

variable {α : Type}

/-- A relation between runs, with a property of their results, that lasts when runs are put
together. -/
structure Run.Comparison (α : Type) where
  rel {β : Type} : (β → Prop) → Run α β → Run α β → Prop
  tolerates : Failure → Prop
  result {β : Type} {good : β → Prop} {b : β} : good b → rel good (pure b) (pure b)
  failure {β : Type} {good : β → Prop} {e : Failure} : tolerates e →
    rel good (throw e) (throw e)
  bind {β γ : Type} {good : β → Prop} {next : γ → Prop} {x y : Run α β} {f g : β → Run α γ} :
    rel good x y → (∀ b, good b → rel next (f b) (g b)) → rel next (x >>= f) (y >>= g)

/-- Both sides know the same held flags and write the same. -/
structure Run.Comparison.SameFlags (K : Run.Comparison α) : Prop where
  lookUp {β : Type} {good : β → Prop} (id : String) {f g : Hold → Run α β} :
    (∀ hold, K.rel good (f hold) (g hold)) →
      K.rel good (do f (((← get).holds.get? id).getD .start))
        (do g (((← get).holds.get? id).getD .start))
  record (id : String) (hold : Hold) : K.rel (fun _ => True)
    (modify fun s => { s with holds := s.holds.insert id hold } : Run α PUnit)
    (modify fun s => { s with holds := s.holds.insert id hold } : Run α PUnit)

namespace Run.Comparison

variable {β γ : Type} {K : Run.Comparison α} {good : β → Prop} {x y : Run α β}

theorem mono {better : β → Prop} (h : K.rel good x y) (hb : ∀ b, good b → better b) :
    K.rel better x y := by
  have hbind := K.bind h fun b hg => K.result (hb b hg)
  rwa [bind_pure, bind_pure] at hbind

theorem map {next : γ → Prop} {f : β → γ} (h : K.rel good x y) (hf : ∀ b, good b → next (f b)) :
    K.rel next (f <$> x) (f <$> y) := by
  rw [map_eq_pure_bind, map_eq_pure_bind]
  exact K.bind h fun b hb => K.result (hf b hb)

theorem ofExcept {r : Except Failure β} (hok : ∀ b, r = .ok b → good b)
    (herror : ∀ e, r = .error e → K.tolerates e) :
    K.rel good (Run.ofExcept r) (Run.ofExcept r) := by
  cases r with
  | ok b => exact K.result (hok b rfl)
  | error e => exact K.failure (herror e rfl)

end Run.Comparison

def Fork.mapSlots (f : Weighting α → Slot α → Slot α) (fork : Fork α (Node α)) :
    Fork α (Node α) :=
  { fork with
    thenSlot := f fork.thenWeighting fork.thenSlot
    elseSlot := f fork.elseWeighting fork.elseSlot }

namespace Node

/-- A node with its slots filled anew. Ladder slots have the weighting of the first branch. -/
def mapSlots (f : Weighting α → Slot α → Slot α) : Node α → Node α
  | basic id w next => basic id w (f w next)
  | function id metric window count select w next =>
      function id metric window count select w (f w next)
  | indicator id conditions fork => indicator id conditions (fork.mapSlots f)
  | numbered id items quantifier fork ladder =>
      numbered id items quantifier (fork.mapSlots f) (ladder.map (f fork.thenWeighting))
  | position id tickers => position id tickers
  | call id chain => call id chain
  | altExit id entry exit fork => altExit id entry exit (fork.mapSlots f)
  | scaling id reading lower upper fork => scaling id reading lower upper (fork.mapSlots f)

@[simp] theorem mapSlots_self (n : Node α) : n.mapSlots (fun _ slot => slot) = n := by
  cases n <;> simp [mapSlots, Fork.mapSlots]

/-- The slots of a node, each with its weighting. -/
def weighed : Node α → List (Weighting α × Slot α)
  | basic _ w next | function _ _ _ _ _ w next => [(w, next)]
  | indicator _ _ fork | altExit _ _ _ fork | scaling _ _ _ _ fork =>
      [(fork.thenWeighting, fork.thenSlot), (fork.elseWeighting, fork.elseSlot)]
  | numbered _ _ _ fork ladder =>
      (fork.thenWeighting, fork.thenSlot) :: (fork.elseWeighting, fork.elseSlot) ::
        ladder.map fun slot => (fork.thenWeighting, slot)
  | position .. | call .. => []

theorem mem_of_mem_weighed {n : Node α} {w : Weighting α} {slot : Slot α}
    (h : (w, slot) ∈ n.weighed) : w ∈ n.weightings ∧ slot ∈ n.slots := by
  cases n <;> grind [weighed, weightings, slots]

section
variable (f : Weighting α → Slot α → Slot α) (n : Node α)

@[simp] theorem id_mapSlots : (n.mapSlots f).id = n.id := by
  cases n <;> rfl

@[simp] theorem callee?_mapSlots : (n.mapSlots f).callee? = n.callee? := by
  cases n <;> rfl

@[simp] theorem heldTickers_mapSlots : (n.mapSlots f).heldTickers = n.heldTickers := by
  cases n <;> rfl

theorem slots_eq_map_weighed : n.slots = n.weighed.map Prod.snd := by
  cases n <;> simp [slots, weighed, Function.comp_def]

theorem slots_mapSlots : (n.mapSlots f).slots = n.weighed.map fun p => f p.1 p.2 := by
  cases n <;> simp [mapSlots, Fork.mapSlots, slots, weighed, Function.comp_def]

end

end Node

variable [Arith α]

/-- The failures that the evaluation of a node can raise by itself on a path of calls. -/
inductive Node.Faults (chains : Table (Node α)) (path : List String) : Node α → Failure → Prop
  | window {id metric window count select weighting next e} :
      Indicator.resolve metric window = .error e →
      Faults chains path (function id metric window count select weighting next) e
  | weighting {n w e} : w ∈ n.weightings → w.volatilityIndicator = .error e →
      Faults chains path n e
  | bounds {id reading fork} {lower upper : α} : (lower == upper) = true →
      Faults chains path (scaling id reading lower upper fork)
        (.treeInvalid id "scaleFrom and scaleTo must differ")
  | reading {id reading lower upper fork e} : Reading.indicator reading = .error e →
      Faults chains path (scaling id reading lower upper fork) e
  | dangling {id chain} : chains.get? chain = none →
      Faults chains path (call id chain) (.danglingCall id chain)
  | cycle {id chain} : chain ∈ path → Faults chains path (call id chain) (.callCycle chain path)

/-- The shares of money that a deciding node can give to its first branch. -/
inductive IsShare : α → Prop
  | whole (b : Bool) : IsShare (shareOf b)
  | scaled (lower upper value : α) : IsShare (scaledShare lower upper value)

def forkParts (share : α) (first second : Option (Allocation α)) :
    List (α × Option (Allocation α)) :=
  (if 0 < share then [(share, first)] else []) ++
    (if share < 1 then [(1 - share, second)] else [])

/-- What holds of what the branches yield holds of the parts that have a share. -/
theorem forall_mem_forkParts {share : α} {first second : Option (Allocation α)}
    {P : Allocation α → Prop} (hfirst : ∀ b, first = some b → P b)
    (hsecond : ∀ b, second = some b → P b) :
    ∀ p ∈ forkParts share first second, ∀ b, p.2 = some b → P b := by
  intro p h
  rcases List.mem_append.1 h with h | h
  · split at h
    · exact List.mem_singleton.1 h ▸ hfirst
    · cases h
  · split at h
    · exact List.mem_singleton.1 h ▸ hsecond
    · cases h

/-- A selection is made from the tickers of the ranking. -/
theorem Selection.mem_of_mem_select {s : Selection} {count : Nat} {values : List (α × String)}
    {t : String} (h : t ∈ s.select count values) : ∃ v ∈ values, v.2 = t := by
  obtain ⟨v, hv, rfl⟩ := List.mem_map.1 h
  have hv : v ∈ values.mergeSort rankedBefore := by
    cases s with
    | top => exact List.mem_reverse.1 (List.mem_of_mem_take hv)
    | bottom => exact List.mem_of_mem_take hv
  exact ⟨v, List.mem_mergeSort.1 hv, rfl⟩

/-- Evaluates a slot and settles what its nodes yield. -/
def Node.fill (src : Sources α) (chains : Table (Node α))
    (enter : Node α → Scope → Run α (Option (Allocation α))) (day : Nat) (w : Weighting α)
    (slot : Slot α) (scope : Scope) : Run α (Option (Allocation α)) := do
  src.settle w (← evaluateSlot src chains enter day 0 slot scope)

/-- The tickers that a ranking selects. -/
def Sources.selected (src : Sources α) (n : Node α) (metric : Metric) (window : Int) (count : Nat)
    (select : Selection) (scope : Scope) : Run α (List String) := do
  let i ← Run.ofExcept (Indicator.resolve metric window)
  let candidates ← src.candidates n
  return select.select count (← src.valuesOf i scope candidates)

/-- A ranking that selects nothing is pruned. Otherwise its slot is filled under the selection. -/
theorem Node.evaluate_function (src : Sources α) (chains : Table (Node α))
    (enter : Node α → Scope → Run α (Option (Allocation α))) (day : Nat) {id : String}
    {metric : Metric} {window : Int} {count : Nat} {select : Selection} {w : Weighting α}
    {next : Slot α} (scope : Scope) :
    (function id metric window count select w next).evaluate src chains enter day scope = (do
      let selected ← src.selected (.function id metric window count select w next) metric window
        count select scope
      if selected.isEmpty then return none
      else fill src chains enter day w next (some selected)) := by
  simp only [evaluate, Sources.selected, fill, bind_assoc, pure_bind]

/-- A branch of a fork, which is evaluated only if it has a share. -/
def branch (p : Prop) [Decidable p] (share : α) (x : Run α (Option (Allocation α))) :
    Run α (List (α × Option (Allocation α))) :=
  if p then do return [(share, ← x)] else return []

theorem Node.evaluateFork_eq (src : Sources α) (chains : Table (Node α))
    (enter : Node α → Scope → Run α (Option (Allocation α))) (day : Nat) (share : α)
    (v w : Weighting α) (thenSlot elseSlot : Slot α) (scope : Scope) :
    evaluateFork src chains enter day share ⟨v, w, thenSlot, elseSlot⟩ scope = (do
      let first ← branch (0 < share) share (fill src chains enter day v thenSlot scope)
      let second ← branch (share < 1) (1 - share) (fill src chains enter day w elseSlot scope)
      return Allocation.blend (first ++ second)) := by
  simp only [evaluateFork, branch, fill]
  split <;> split <;> simp only [pure_bind, bind_assoc]

/-- What an `altExit` node decides on a day, given its hold. -/
def Sources.decideFrom (src : Sources α) (day : Nat) (id : String)
    (entry exit : List (Condition α)) (hold : Hold) : Run α Bool := do
  if hold.lastDay = some day then return hold.held
  let held ←
    if hold.held then (· != some true) <$> src.verdict (partKey id "exit") exit
    else (· == some true) <$> src.verdict (partKey id "entry") entry
  modify fun s => { s with holds := s.holds.insert id ⟨held, some day⟩ }
  return held

omit [Arith α] in
theorem Sources.decideHold_eq (src : Sources α) (day : Nat) (id : String)
    (entry exit : List (Condition α)) : src.decideHold day id entry exit =
      (do src.decideFrom day id entry exit (((← get).holds.get? id).getD .start)) := rfl

/-- What two evaluations have in common at a node `n` that stands as `n'` on the other side. -/
structure Node.Compared (K : Run.Comparison α) (src src' : Sources α) (chains : Table (Node α))
    (path : List String) (reads : String → Prop) (good : Scope → Allocation α → Prop)
    (n n' : Node α) : Prop where
  fault {e : Failure} : n.Faults chains path e → K.tolerates e
  verdict {key : String} {list : List (Condition α)} : (key, list) ∈ n.keyedLists →
    K.rel (fun _ => True) (src.verdict key list) (src'.verdict key list)
  value {ticker : String} {i : Indicator} : reads ticker →
    K.rel (fun _ => True) (src.value ticker i) (src'.value ticker i)
  candidates : n.kind = .function →
    K.rel (fun tickers => ∀ t ∈ tickers, reads t) (src.candidates n) (src'.candidates n')
  reading {id : String} {r : Reading} {lower upper : α} {fork : Fork α (Node α)} :
    n = .scaling id r lower upper fork → reads r.ticker
  held {id : String} {tickers : List String} {scope : Scope} {a : Allocation α} :
    n = .position id tickers → Allocation.ofPosition cashTicker scope.allows tickers = some a →
      good scope a
  asked {w : Weighting α} {scope : Scope} {children : List (Nat × Allocation α)}
    {a : Allocation α} : w ∈ n.weightings → (∀ c ∈ children, good scope c.2) →
    w.spread children = some a → w.volatilityIndicator ≠ .ok none → ∀ t ∈ a.keys, reads t
  settled {w : Weighting α} {scope : Scope} {children : List (Nat × Allocation α)}
    {a : Allocation α} (sigma : String → Option α) : w ∈ n.weightings →
    (∀ c ∈ children, good scope c.2) → w.spread children = some a →
      good scope (w.adjust sigma a)
  mixed {share : α} {scope : Scope} {first second : Option (Allocation α)} {a : Allocation α} :
    IsShare share → (∀ b, first = some b → good scope b) → (∀ b, second = some b → good scope b) →
    Allocation.blend (forkParts share first second) = some a → good scope a
  narrowed {scope : Scope} {tickers : List String} {a : Allocation α} :
    (∀ t ∈ tickers, scope.allows t = true) → good (some tickers) a → good scope a

/-- The property of a result: what holds of its allocation, if it is not pruned. -/
def IfKept (good : Allocation α → Prop) (r : Option (Allocation α)) : Prop :=
  ∀ a, r = some a → good a

namespace Node.Compared

variable {K : Run.Comparison α} {src src' : Sources α} {chains chains' : Table (Node α)}
  {path : List String} {reads : String → Prop} {good : Scope → Allocation α → Prop}
  {n n' : Node α} {scope : Scope} {day : Nat}
  {enter enter' : Node α → Scope → Run α (Option (Allocation α))}

/-- Where nothing is said of the tickers that are read and of allocations, two evaluations have
in common what the nodes ask for. -/
theorem of_questions (fault : ∀ e, n.Faults chains path e → K.tolerates e)
    (verdict : ∀ key list, (key, list) ∈ n.keyedLists →
      K.rel (fun _ => True) (src.verdict key list) (src'.verdict key list))
    (value : ∀ ticker i, K.rel (fun _ => True) (src.value ticker i) (src'.value ticker i))
    (candidates : n.kind = .function →
      K.rel (fun _ => True) (src.candidates n) (src'.candidates n')) :
    n.Compared K src src' chains path (fun _ => True) (fun _ _ => True) n' where
  fault := fault _
  verdict := verdict _ _
  value _ := value _ _
  candidates h := Run.Comparison.mono (candidates h) fun _ _ _ _ => trivial
  reading _ := trivial
  held _ _ := trivial
  asked _ _ _ _ _ _ := trivial
  settled _ _ _ _ := trivial
  mixed _ _ _ _ := trivial
  narrowed _ _ := trivial

section
variable (S : Node.Compared K src src' chains path reads good n n')
include S

theorem valuesOf (i : Indicator) {tickers : List String} (h : ∀ t ∈ tickers, reads t) :
    K.rel (fun values => ∀ v ∈ values, scope.allows v.2 = true)
      (src.valuesOf i scope tickers) (src'.valuesOf i scope tickers) := by
  induction tickers with
  | nil => exact K.result (by simp)
  | cons t rest ih =>
      have hrest := ih fun u hu => h u (List.mem_cons_of_mem _ hu)
      simp only [Sources.valuesOf]
      split
      · next hallows =>
          refine K.bind (S.value (h t List.mem_cons_self)) fun value _ => ?_
          refine K.bind hrest fun values hvalues => K.result ?_
          cases value with
          | none => exact hvalues
          | some x => exact List.forall_mem_cons.2 ⟨hallows, hvalues⟩
      · exact hrest

/-- Both sides read the same values, so they stop reading at the same ticker. -/
theorem readPositive (i : Indicator) {tickers : List String} (h : ∀ t ∈ tickers, reads t) :
    K.rel (fun _ => True) (src.readPositive i tickers) (src'.readPositive i tickers) := by
  induction tickers with
  | nil => exact K.result trivial
  | cons t rest ih =>
      have hrest := ih fun u hu => h u (List.mem_cons_of_mem _ hu)
      simp only [Sources.readPositive]
      refine K.bind (S.value (h t List.mem_cons_self)) fun value _ => ?_
      split
      · refine K.bind hrest fun values _ => ?_
        exact K.result trivial
      · exact K.result trivial

theorem deviations (scope : Scope) {w : Weighting α} (hw : w ∈ n.weightings)
    {children : List (Nat × Allocation α)} (hc : ∀ c ∈ children, good scope c.2) :
    K.rel (fun _ => True) (src.deviations w children) (src'.deviations w children) := by
  have hi : K.rel (fun i => w.volatilityIndicator = .ok i) (Run.ofExcept w.volatilityIndicator)
      (Run.ofExcept w.volatilityIndicator) :=
    Run.Comparison.ofExcept (fun _ h => h) fun _ h => S.fault (.weighting hw h)
  refine K.bind hi fun i hi => ?_
  cases i with
  | none => exact K.result trivial
  | some i =>
      cases ha : w.spread children with
      | none => exact K.result trivial
      | some a =>
          have hreads : ∀ t ∈ a.keys, reads t := S.asked hw hc ha (by simp [hi])
          dsimp only
          split
          · exact K.result trivial
          · exact S.readPositive i hreads

theorem settle (scope : Scope) {w : Weighting α} (hw : w ∈ n.weightings)
    {children : List (Nat × Allocation α)} (hc : ∀ c ∈ children, good scope c.2) :
    K.rel (IfKept (good scope)) (src.settle w children) (src'.settle w children) := by
  refine K.bind (S.deviations scope hw hc) fun values _ => K.result fun b hb => ?_
  obtain ⟨a, ha, rfl⟩ := Option.map_eq_some_iff.1 hb
  exact S.settled _ hw hc ha

/-- What is ranked lies in the scope, so the selection does. -/
theorem selected {id : String} {metric : Metric} {window : Int} {count : Nat} {select : Selection}
    {w : Weighting α} {next : Slot α} (hn : n = .function id metric window count select w next) :
    K.rel (fun selected => ∀ t ∈ selected, scope.allows t = true)
      (src.selected n metric window count select scope)
      (src'.selected n' metric window count select scope) := by
  have hi : K.rel (fun _ => True) (Run.ofExcept (Indicator.resolve metric window))
      (Run.ofExcept (Indicator.resolve metric window)) :=
    Run.Comparison.ofExcept (fun _ _ => trivial) fun _ h => S.fault (hn ▸ .window h)
  refine K.bind hi fun i _ => ?_
  refine K.bind (S.candidates (by rw [hn]; rfl)) fun candidates hcandidates => ?_
  refine K.bind (S.valuesOf i hcandidates) fun values hvalues => K.result ?_
  intro t ht
  obtain ⟨v, hv, rfl⟩ := Selection.mem_of_mem_select ht
  exact hvalues v hv

theorem countHits (id : String) {k : Nat} {items : List (List (Condition α))}
    (h : ∀ item ∈ items.zipIdx k, (partKey id (toString item.2), item.1) ∈ n.keyedLists) :
    K.rel (fun _ => True) (src.countHits id k items) (src'.countHits id k items) := by
  induction items generalizing k with
  | nil => exact K.result trivial
  | cons list rest ih =>
      rw [List.zipIdx_cons] at h
      have hlist : (partKey id (toString k), list) ∈ n.keyedLists := h (list, k) List.mem_cons_self
      simp only [Sources.countHits]
      refine K.bind (S.verdict hlist) fun verdict _ => ?_
      refine K.bind (ih fun item hi => h item (List.mem_cons_of_mem _ hi)) fun hits _ => ?_
      exact K.result trivial

/-- Both sides know the same flags, so they ask for the same list and write the same flag. -/
theorem decideHold (hK : K.SameFlags) {id : String} {entry exit : List (Condition α)}
    {fork : Fork α (Node α)} (hn : n = .altExit id entry exit fork) (day : Nat) :
    K.rel (fun _ => True) (src.decideHold day id entry exit)
      (src'.decideHold day id entry exit) := by
  have asks {part : String} {list : List (Condition α)} (h : (part, list) ∈ n.parts)
      (f : Verdict → Bool) :
      K.rel (fun _ => True) (f <$> src.verdict (partKey id part) list)
        (f <$> src'.verdict (partKey id part) list) := by
    refine Run.Comparison.map (S.verdict ?_) fun _ _ => trivial
    exact Node.mem_keyedLists.2 (.inr ⟨part, h, by rw [hn]; rfl⟩)
  rw [Sources.decideHold_eq, Sources.decideHold_eq]
  refine hK.lookUp id fun hold => ?_
  unfold Sources.decideFrom
  have writes (held : Bool) : K.rel (fun _ => True)
      (do modify fun s => { s with holds := s.holds.insert id ⟨held, some day⟩ }
          return held : Run α Bool)
      (do modify fun s => { s with holds := s.holds.insert id ⟨held, some day⟩ }
          return held : Run α Bool) :=
    K.bind (hK.record id ⟨held, some day⟩) fun _ _ => K.result trivial
  split
  · exact K.result trivial
  · split
    · exact K.bind (asks (by simp [hn, Node.parts]) _) fun held _ => writes held
    · exact K.bind (asks (by simp [hn, Node.parts]) _) fun held _ => writes held

end

/-! ### Slots -/

/-- Slots whose nodes compare fill alike, place by place. -/
theorem evaluateSlot_map {g : Node α → Node α} {slot : Slot α}
    (h : ∀ c, some c ∈ slot → K.rel (IfKept (good scope)) (c.evaluate src chains enter day scope)
      ((g c).evaluate src' chains' enter' day scope)) (place : Nat) :
    K.rel (fun children => ∀ c ∈ children, good scope c.2)
      (Node.evaluateSlot src chains enter day place slot scope)
      (Node.evaluateSlot src' chains' enter' day place (slot.map (Option.map g)) scope) := by
  induction slot generalizing place with
  | nil => exact K.result (by simp)
  | cons entry rest ih =>
      have hrest := ih fun c hc => h c (List.mem_cons_of_mem _ hc)
      cases entry with
      | none => exact hrest (place + 1)
      | some c =>
          refine K.bind (h c List.mem_cons_self) fun r hr => ?_
          refine K.bind (hrest (place + 1)) fun others hothers => K.result ?_
          cases r with
          | none => exact hothers
          | some a => exact List.forall_mem_cons.2 ⟨hr a rfl, hothers⟩

theorem fill_map (S : Node.Compared K src src' chains path reads good n n') {g : Node α → Node α}
    {slot : Slot α} {w : Weighting α} (hw : w ∈ n.weightings)
    (h : ∀ c, some c ∈ slot → K.rel (IfKept (good scope)) (c.evaluate src chains enter day scope)
      ((g c).evaluate src' chains' enter' day scope)) :
    K.rel (IfKept (good scope)) (Node.fill src chains enter day w slot scope)
      (Node.fill src' chains' enter' day w (slot.map (Option.map g)) scope) :=
  K.bind (evaluateSlot_map h 0) fun _ hchildren => S.settle _ hw hchildren

section
variable (S : Node.Compared K src src' chains path reads good n n') (day)
include S

theorem evaluateFork {share : α} (hshare : IsShare share) {v w : Weighting α}
    {thenSlot elseSlot thenSlot' elseSlot' : Slot α}
    (hthen : K.rel (IfKept (good scope)) (Node.fill src chains enter day v thenSlot scope)
      (Node.fill src' chains' enter' day v thenSlot' scope))
    (helse : K.rel (IfKept (good scope)) (Node.fill src chains enter day w elseSlot scope)
      (Node.fill src' chains' enter' day w elseSlot' scope)) :
    K.rel (IfKept (good scope))
      (Node.evaluateFork src chains enter day share ⟨v, w, thenSlot, elseSlot⟩ scope)
      (Node.evaluateFork src' chains' enter' day share ⟨v, w, thenSlot', elseSlot'⟩ scope) := by
  have part {p : Prop} [Decidable p] {x : α} {y y' : Run α (Option (Allocation α))}
      (h : K.rel (IfKept (good scope)) y y') :
      K.rel (fun parts => ∃ r, IfKept (good scope) r ∧ parts = if p then [(x, r)] else [])
        (branch p x y) (branch p x y') := by
    unfold branch
    split
    · exact K.bind h fun r hr => K.result ⟨r, hr, rfl⟩
    · exact K.result ⟨none, (fun a h => by cases h), rfl⟩
  rw [Node.evaluateFork_eq, Node.evaluateFork_eq]
  refine K.bind (part hthen) fun first hfirst => ?_
  refine K.bind (part helse) fun second hsecond => K.result ?_
  obtain ⟨a, ha, rfl⟩ := hfirst
  obtain ⟨b, hb, rfl⟩ := hsecond
  exact fun c hc => S.mixed hshare ha hb hc

omit S in
theorem evaluateRung {w : Weighting α} {g : Slot α → Slot α} {ladder : List (Slot α)}
    (h : ∀ slot ∈ ladder, K.rel (IfKept (good scope)) (Node.fill src chains enter day w slot scope)
      (Node.fill src' chains' enter' day w (g slot) scope)) (k : Nat) :
    K.rel (IfKept (good scope)) (Node.evaluateRung src chains enter day w k ladder scope)
      (Node.evaluateRung src' chains' enter' day w k (ladder.map g) scope) := by
  induction ladder generalizing k with
  | nil => exact K.result fun a h => by cases h
  | cons slot rest ih =>
      cases k with
      | zero => exact h slot List.mem_cons_self
      | succ k => exact ih (fun s hs => h s (List.mem_cons_of_mem _ hs)) k

end

/-- What fills the slots of a node, before and after they are filled anew. -/
def Fills (K : Run.Comparison α) (src src' : Sources α) (chains chains' : Table (Node α))
    (enter enter' : Node α → Scope → Run α (Option (Allocation α))) (day : Nat)
    (good : Scope → Allocation α → Prop) (f : Weighting α → Slot α → Slot α) (n : Node α) : Prop :=
  ∀ w slot, (w, slot) ∈ n.weighed → ∀ scope, K.rel (IfKept (good scope))
    (Node.fill src chains enter day w slot scope)
    (Node.fill src' chains' enter' day w (f w slot) scope)

section
variable {f : Weighting α → Slot α → Slot α}

/-- The selection narrows the scope. -/
theorem evaluateFunction {id : String} {metric : Metric} {window : Int} {count : Nat}
    {select : Selection} {w : Weighting α} {next next' : Slot α}
    (S : Node.Compared K src src' chains path reads good
      (.function id metric window count select w next)
      (.function id metric window count select w next'))
    (h : ∀ scope, K.rel (IfKept (good scope)) (Node.fill src chains enter day w next scope)
      (Node.fill src' chains' enter' day w next' scope)) (scope : Scope) :
    K.rel (IfKept (good scope))
      (Node.evaluate src chains enter day (.function id metric window count select w next) scope)
      (Node.evaluate src' chains' enter' day (.function id metric window count select w next')
        scope) := by
  rw [Node.evaluate_function, Node.evaluate_function]
  refine K.bind (S.selected rfl) fun selected hselected => ?_
  split
  · exact K.result fun a h => by cases h
  · exact Run.Comparison.mono (h _) fun r hr a ha => S.narrowed hselected (hr a ha)

/-- The bounds are compared before the reading is resolved. -/
theorem evaluateScaling {id : String} {reading : Reading} {lower upper : α} {v w : Weighting α}
    {thenSlot elseSlot thenSlot' elseSlot' : Slot α}
    (S : Node.Compared K src src' chains path reads good
      (.scaling id reading lower upper ⟨v, w, thenSlot, elseSlot⟩)
      (.scaling id reading lower upper ⟨v, w, thenSlot', elseSlot'⟩))
    (hthen : K.rel (IfKept (good scope)) (Node.fill src chains enter day v thenSlot scope)
      (Node.fill src' chains' enter' day v thenSlot' scope))
    (helse : K.rel (IfKept (good scope)) (Node.fill src chains enter day w elseSlot scope)
      (Node.fill src' chains' enter' day w elseSlot' scope)) :
    K.rel (IfKept (good scope))
      (Node.evaluate src chains enter day
        (.scaling id reading lower upper ⟨v, w, thenSlot, elseSlot⟩) scope)
      (Node.evaluate src' chains' enter' day
        (.scaling id reading lower upper ⟨v, w, thenSlot', elseSlot'⟩) scope) := by
  simp only [Node.evaluate]
  split
  · next hb => exact K.bind (K.failure (S.fault (.bounds hb))) fun _ h => h
  · have hi : K.rel (fun _ => True) (Run.ofExcept reading.indicator)
        (Run.ofExcept reading.indicator) :=
      Run.Comparison.ofExcept (fun _ _ => trivial) fun _ h => S.fault (.reading h)
    refine K.bind hi fun i _ => K.bind (S.value (S.reading rfl)) fun value _ => ?_
    have hshare : IsShare (value.elim 0 (scaledShare lower upper)) := by
      cases value with
      | none => exact .whole false
      | some x => exact .scaled lower upper x
    exact S.evaluateFork day hshare hthen helse

/-- The evaluations of a node that calls no chain compare if its slots fill alike. -/
theorem evaluate_mapSlots (hK : K.SameFlags) (hcallee : n.callee? = none)
    (S : Node.Compared K src src' chains path reads good n (n.mapSlots f))
    (h : Fills K src src' chains chains' enter enter' day good f n) (scope : Scope) :
    K.rel (IfKept (good scope)) (n.evaluate src chains enter day scope)
      ((n.mapSlots f).evaluate src' chains' enter' day scope) := by
  cases n with
  | basic id w next => exact h w next (by simp [weighed]) scope
  | function id metric window count select w next =>
      exact evaluateFunction S (h w next (by simp [weighed])) scope
  | indicator id conditions fork =>
      obtain ⟨v, w, thenSlot, elseSlot⟩ := fork
      refine K.bind (S.verdict (by simp [keyedLists])) fun verdict _ => ?_
      exact S.evaluateFork day (.whole _) (h v thenSlot (by simp [weighed]) scope)
        (h w elseSlot (by simp [weighed]) scope)
  | numbered id items quantifier fork ladder =>
      obtain ⟨v, w, thenSlot, elseSlot⟩ := fork
      refine K.bind (S.countHits id ?_) fun hits _ => ?_
      · intro item hi
        exact List.mem_map.2 ⟨(toString item.2, item.1), List.mem_map.2 ⟨item, hi, rfl⟩, rfl⟩
      · split
        · exact evaluateRung day (fun slot hs => h v slot (by simp [weighed, hs]) scope) hits
        · exact S.evaluateFork day (.whole _) (h v thenSlot (by simp [weighed]) scope)
            (h w elseSlot (by simp [weighed]) scope)
  | position id tickers => exact K.result fun a ha => S.held rfl ha
  | call id chain => cases hcallee
  | altExit id entry exit fork =>
      obtain ⟨v, w, thenSlot, elseSlot⟩ := fork
      refine K.bind (S.decideHold hK rfl day) fun held _ => ?_
      exact S.evaluateFork day (.whole _) (h v thenSlot (by simp [weighed]) scope)
        (h w elseSlot (by simp [weighed]) scope)
  | scaling id reading lower upper fork =>
      obtain ⟨v, w, thenSlot, elseSlot⟩ := fork
      exact evaluateScaling S (h v thenSlot (by simp [weighed]) scope)
        (h w elseSlot (by simp [weighed]) scope)

/-- The evaluations of a node that calls no chain compare if those of its children do. -/
theorem evaluate_map (hK : K.SameFlags) (hcallee : n.callee? = none) {g : Node α → Node α}
    (S : Node.Compared K src src' chains path reads good n
      (n.mapSlots fun _ slot => slot.map (Option.map g)))
    (h : ∀ c ∈ n.children, ∀ scope, K.rel (IfKept (good scope))
      (c.evaluate src chains enter day scope) ((g c).evaluate src' chains' enter' day scope))
    (scope : Scope) :
    K.rel (IfKept (good scope)) (n.evaluate src chains enter day scope)
      ((n.mapSlots fun _ slot => slot.map (Option.map g)).evaluate src' chains' enter' day
        scope) := by
  refine evaluate_mapSlots hK hcallee S (fun w slot hslot scope => ?_) scope
  obtain ⟨hw, hslot⟩ := Node.mem_of_mem_weighed hslot
  exact S.fill_map hw fun c hc => h c (Node.mem_children.2 ⟨slot, hslot, hc⟩) scope

/-- The evaluations of one node that calls no chain compare if those of its children do. -/
theorem evaluate_self (S : Node.Compared K src src' chains path reads good n n)
    (hK : K.SameFlags) (hcallee : n.callee? = none)
    (h : ∀ c ∈ n.children, ∀ scope, K.rel (IfKept (good scope))
      (c.evaluate src chains enter day scope) (c.evaluate src' chains' enter' day scope))
    (scope : Scope) :
    K.rel (IfKept (good scope)) (n.evaluate src chains enter day scope)
      (n.evaluate src' chains' enter' day scope) := by
  have hself : n.mapSlots (fun _ slot => slot.map (Option.map fun c => c)) = n := by simp
  have hmap := evaluate_map (g := fun c => c) hK hcallee (by rwa [hself]) h scope
  rwa [hself] at hmap

end
end Node.Compared
end StrategyTree
