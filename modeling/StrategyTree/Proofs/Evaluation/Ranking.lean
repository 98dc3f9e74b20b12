import Mathlib
import StrategyTree.Proofs.Evaluation.Depth
import StrategyTree.Proofs.Evaluation.Safety
import StrategyTree.Proofs.Evaluation.Selection
import StrategyTree.Proofs.Evaluation.Tracing
import StrategyTree.Proofs.Strategy.Collection
/-!
# Rankings

A function node ranks the tickers of the positions that it reaches, as far as they lie in
its scope and have a value on the day. A run keeps the candidates of a ranking under the
identifier of the node. So in every state that an evaluation comes to, what is kept under
an identifier was collected from a function node with it: the node itself, unless a
strategy that validation refuses gives two of them one identifier.
-/
namespace StrategyTree

variable {α β : Type} [Arith α]

/-- A node may select a ticker with a value. -/
structure Node.Contends (chains : Table (Node α)) (m : PriceMatrix α) (i : Indicator) (day : Nat)
    (scope : Scope) (n : Node α) (t : String) (x : α) : Prop where
  held : ∃ id tickers, n.Reaches chains (.position id tickers) ∧ t ∈ tickers
  not_cash : t ≠ cashTicker
  allowed : scope.allows t = true
  value : (m.indicator t i).at? day = some x

/-! ### Values -/

namespace Sources

variable {m : PriceMatrix α} {state : RunState α}

theorem value_remembered (chains : Table (Node α)) (day : Nat) (ticker : String) (i : Indicator)
    (h : state.cache.Faithful m) : ∃ cache : IndicatorCache α, cache.Faithful m ∧
      (remembering m chains day).value ticker i state =
        (.ok ((m.indicator ticker i).at? day), { state with cache }) := by
  obtain ⟨hseries, hcache⟩ := h.series ticker i
  refine ⟨(state.cache.series m ticker i).2, hcache, ?_⟩
  change (Except.ok ((state.cache.series m ticker i).1.at? day), _) = _
  rw [hseries]

/-- A ticker with its value, if it is ranked. -/
def ranked (m : PriceMatrix α) (day : Nat) (i : Indicator) (scope : Scope) (ticker : String) :
    Option (α × String) :=
  if scope.allows ticker then ((m.indicator ticker i).at? day).map fun x => (x, ticker) else none

theorem ranked_eq_some {day : Nat} {i : Indicator} {scope : Scope} {ticker t : String} {x : α} :
    ranked m day i scope ticker = some (x, t) ↔
      ticker = t ∧ scope.allows t = true ∧ (m.indicator t i).at? day = some x := by
  unfold ranked
  by_cases hallows : scope.allows ticker = true
  · simp only [hallows, if_true, Option.map_eq_some_iff, Prod.mk.injEq]
    constructor
    · rintro ⟨_, hx, rfl, rfl⟩
      exact ⟨rfl, hallows, hx⟩
    · rintro ⟨rfl, -, hx⟩
      exact ⟨x, hx, rfl, rfl⟩
  · simp only [hallows, Bool.false_eq_true, if_false, reduceCtorEq, false_iff]
    rintro ⟨rfl, hallowed, -⟩
    exact hallows hallowed

theorem nodup_ranked (day : Nat) (i : Indicator) (scope : Scope) {tickers : List String}
    (h : tickers.Nodup) : ((tickers.filterMap (ranked m day i scope)).map Prod.snd).Nodup := by
  rw [List.map_filterMap]
  apply h.filterMap
  intro ticker ticker' t ht ht'
  obtain ⟨⟨x, _⟩, hx, rfl⟩ := Option.map_eq_some_iff.1 ht
  obtain ⟨⟨x', _⟩, hx', heq⟩ := Option.map_eq_some_iff.1 ht'
  rw [(ranked_eq_some.1 hx).1, (ranked_eq_some.1 hx').1]
  exact heq.symm

/-- What is ranked of some candidates, read through a faithful cache. -/
theorem valuesOf_remembered (chains : Table (Node α)) (day : Nat) (i : Indicator) (scope : Scope)
    (tickers : List String) (h : state.cache.Faithful m) :
    ∃ cache : IndicatorCache α, cache.Faithful m ∧
      (remembering m chains day).valuesOf i scope tickers state =
        (.ok (tickers.filterMap (ranked m day i scope)), { state with cache }) := by
  induction tickers generalizing state with
  | nil => exact ⟨state.cache, h, rfl⟩
  | cons ticker rest ih =>
      simp only [valuesOf]
      by_cases hallows : scope.allows ticker = true
      · obtain ⟨cache, hcache, hvalue⟩ := value_remembered chains day ticker i h
        have hnext : ({ state with cache } : RunState α).cache.Faithful m := hcache
        obtain ⟨cache', hcache', hrest⟩ := ih hnext
        refine ⟨cache', hcache', ?_⟩
        rw [if_pos hallows, Run.bind_ok hvalue, Run.bind_ok hrest, List.filterMap_cons, ranked,
          if_pos hallows]
        cases (m.indicator ticker i).at? day <;> rfl
      · obtain ⟨cache, hcache, hrest⟩ := ih h
        refine ⟨cache, hcache, ?_⟩
        rw [if_neg hallows, hrest, List.filterMap_cons, ranked, if_neg hallows]

end Sources

/-! ### What is kept -/

namespace Strategy

/-- What a run has kept was computed from the matrix, and collected from function nodes of the
strategy. -/
structure Remembers (s : Strategy α) (m : PriceMatrix α) (state : RunState α) : Prop where
  cache : state.cache.Faithful m
  candidates {id : String} {tickers : List String} : state.candidates.get? id = some tickers →
    ∃ n ∈ s.nodes, n.kind = .function ∧ n.id = id ∧ tickers = (n.positionTickers s.chains).keys

variable {s : Strategy α} {m : PriceMatrix α} {state : RunState α}

theorem remembers_start : s.Remembers m .start :=
  ⟨IndicatorCache.faithful_empty, fun h => by cases h⟩

/-- The candidates of a function node are its own, or those of one that was asked before. -/
theorem Remembers.candidates_of (h : s.Remembers m state) {n : Node α} (hn : n ∈ s.nodes)
    (hkind : n.kind = .function) : ∃ c ∈ s.nodes, c.kind = .function ∧ c.id = n.id ∧
      (state.candidates.get? n.id = none → c = n) ∧ ∃ after : RunState α,
        Sources.rememberedCandidates s.chains n state =
          (.ok (c.positionTickers s.chains).keys, after) ∧ s.Remembers m after ∧
        after.path = state.path := by
  cases hkept : state.candidates.get? n.id with
  | some tickers =>
      obtain ⟨c, hc, hfunction, hid, rfl⟩ := h.candidates hkept
      exact ⟨c, hc, hfunction, hid, nofun, state, Sources.candidates_found hkept, h, rfl⟩
  | none =>
      refine ⟨n, hn, hkind, rfl, fun _ => rfl, _, Sources.candidates_collected hkept, ⟨h.cache, ?_⟩,
        rfl⟩
      intro id tickers hid
      change (state.candidates.insert n.id _).get? id = _ at hid
      rw [Table.get?_insert] at hid
      split at hid
      · next heq =>
          cases hid
          exact ⟨n, hn, hkind, heq.symm, rfl⟩
      · exact h.candidates hid

/-- The outcome of a run on a path that remembers, with visits from states that do. -/
structure Recorded (s : Strategy α) (m : PriceMatrix α) (path : List String) (good : β → Prop)
    (r : Except Failure β × RunState α) (visits : List (Visit α)) : Prop where
  path_eq : r.2.path = path
  remembers : s.Remembers m r.2
  ok {b : β} : r.1 = .ok b → good b
  visits : ∀ v ∈ visits, s.Remembers m v.state

/-- Runs on a path that put it back, from states that remember to states that do. -/
def recording (s : Strategy α) (m : PriceMatrix α) (path : List String) : Run.Tracing α where
  rel good x log := ∀ state, state.path = path → s.Remembers m state →
    s.Recorded m path good (x state) (log state)
  tolerates _ := True
  result h state hpath hstate := ⟨hpath, hstate, fun hb => Except.ok.inj hb ▸ h, by simp⟩
  failure _ state hpath hstate := ⟨hpath, hstate, fun hb => (by cases hb), by simp⟩
  bind {β γ good next x f log behind} hx hf state hpath hstate := by
    have hfirst := hx state hpath hstate
    rcases hrun : x state with ⟨r, after⟩
    rw [hrun] at hfirst
    dsimp only
    cases r with
    | ok b =>
        have hrest := hf b (hfirst.ok rfl) after hfirst.path_eq hfirst.remembers
        rw [Run.bind_ok hrun, Run.along_ok hrun]
        exact ⟨hrest.path_eq, hrest.remembers, hrest.ok,
          List.forall_mem_append.2 ⟨hfirst.visits, hrest.visits⟩⟩
    | error e =>
        have hnone : Run.along x behind state = [] := by rw [Run.along, hrun]
        rw [Run.bind_error hrun, hnone, List.append_nil]
        exact ⟨hfirst.path_eq, hfirst.remembers, fun hb => (by cases hb), hfirst.visits⟩

section Runs
variable {path : List String} {good : β → Prop} {x : Run α β} {log : RunState α → List (Visit α)}

theorem recording_sameFlags : (s.recording m path).quiet.SameFlags where
  lookUp id f g h state hpath hstate := h ((state.holds.get? id).getD .start) state hpath hstate
  record id hold state hpath hstate :=
    ⟨hpath, ⟨hstate.cache, hstate.candidates⟩, fun _ => trivial, by simp⟩

theorem recording_visit {n : Node α} (scope : Scope) (h : (s.recording m path).rel good x log) :
    (s.recording m path).rel good x fun state => ⟨n, scope, state⟩ :: log state := by
  intro state hpath hstate
  have hrecorded := h state hpath hstate
  exact ⟨hrecorded.path_eq, hrecorded.remembers, hrecorded.ok,
    List.forall_mem_cons.2 ⟨hstate, hrecorded.visits⟩⟩

theorem recording_inside {chain : String} (h : (s.recording m (path ++ [chain])).rel good x log) :
    (s.recording m path).rel good (Run.inside chain x) fun state =>
      log { state with path := state.path ++ [chain] } := by
  intro state hpath hstate
  have hrecorded := h { state with path := state.path ++ [chain] } (by rw [hpath])
    ⟨hstate.cache, hstate.candidates⟩
  refine ⟨?_, ⟨hrecorded.remembers.cache, hrecorded.remembers.candidates⟩, hrecorded.ok,
    hrecorded.visits⟩
  change (x _).2.path.dropLast = path
  rw [hrecorded.path_eq, List.dropLast_concat]

theorem recording_kept {y : Measured α Signal} {r : Except Failure Signal}
    (h : Measured.Computes m y r) (key : String) :
    (s.recording m path).rel (fun _ => True) (Sources.kept y key) fun _ => [] := by
  intro state hpath hstate
  cases hkept : state.signals.get? key with
  | some signal =>
      rw [Sources.kept_found hkept]
      exact ⟨hpath, hstate, fun _ => trivial, by simp⟩
  | none =>
      have hcache := (h state.cache hstate.cache).2
      rcases hrun : y state.cache with ⟨result, cache⟩
      rw [hrun] at hcache
      cases result with
      | ok signal =>
          rw [Sources.kept_computed hkept hrun]
          exact ⟨hpath, ⟨hcache, hstate.candidates⟩, fun _ => trivial, by simp⟩
      | error e =>
          rw [Sources.kept_failed hkept hrun]
          exact ⟨hpath, ⟨hcache, hstate.candidates⟩, fun _ => trivial, by simp⟩

theorem recording_verdict (day : Nat) (key : String) (list : List (Condition α)) :
    (s.recording m path).rel (fun _ => True)
      ((Sources.remembering m s.chains day).verdict key list) fun _ => [] := by
  rw [Sources.remembering_verdict]
  have hsignal : (s.recording m path).rel (fun _ => True)
      (Sources.kept (Condition.listSignal m list) key) fun _ => [] :=
    recording_kept (Condition.listSignal_computes list) key
  exact Run.Tracing.bind_quiet hsignal fun _ _ => (s.recording m path).result trivial

theorem recording_value (day : Nat) (ticker : String) (i : Indicator) :
    (s.recording m path).rel (fun _ => True)
      ((Sources.remembering m s.chains day).value ticker i) fun _ => [] := by
  intro state hpath hstate
  obtain ⟨cache, hcache, hvalue⟩ := Sources.value_remembered s.chains day ticker i hstate.cache
  rw [hvalue]
  exact ⟨hpath, ⟨hcache, hstate.candidates⟩, fun _ => trivial, by simp⟩

theorem recording_candidates {n : Node α} (hn : n ∈ s.nodes) (hkind : n.kind = .function) :
    (s.recording m path).rel (fun _ => True) (Sources.rememberedCandidates s.chains n)
      fun _ => [] := by
  intro state hpath hstate
  obtain ⟨c, -, -, -, -, after, hcandidates, hafter, hsame⟩ := hstate.candidates_of hn hkind
  rw [hcandidates]
  exact ⟨hsame.trans hpath, hafter, fun _ => trivial, by simp⟩

/-- What a node asks for is asked without a visit. Candidates are only asked for by function
nodes, so what is kept of them comes from those. -/
theorem recording_passes {n : Node α} (hn : n ∈ s.nodes) (day : Nat) :
    (s.recording m path).Passes (.remembering m s.chains day) s.chains path n where
  quiet := .of_questions (fun _ _ => trivial) (fun _ _ _ => recording_verdict day _ _)
    (fun _ _ => recording_value day _ _) fun hkind => recording_candidates hn hkind
  visit := recording_visit

end Runs

/-- Every evaluation of a strategy goes through states that remember. -/
def recorder (s : Strategy α) (m : PriceMatrix α) (day : Nat) :
    Run.Tracer (.remembering m s.chains day) s.chains day where
  on := s.recording m
  covers _ n := n ∈ s.nodes
  child hn hc := child_mem_nodes hn hc
  enter _ hroot _ := chain_mem_nodes hroot
  passes hn _ := recording_passes hn day
  decideHold {path _ _ _ _} hn := by
    have hpasses : (s.recording m path).Passes _ s.chains path _ := recording_passes hn day
    exact hpasses.quiet.decideHold recording_sameFlags rfl day
  congr h hx state hpath hstate := by
    obtain ⟨hrun, hlog⟩ := h state hpath
    rw [hrun, hlog]
    exact hx state hpath hstate
  refuses scope _ _ := recording_visit scope ((s.recording m _).failure trivial)
  enters scope _ hx := recording_visit scope (recording_inside hx)

/-- A day is evaluated through states that remember. -/
theorem recorded_day (day : Nat) (hstate : s.Remembers m state) :
    s.Recorded m [] (fun _ => True) (s.evaluateDay m day state) (s.visits m day state) := by
  have hroot : (s.recording m []).rel (fun _ => True)
      (s.root.evaluateWithin (.remembering m s.chains day) s.chains day
        (s.chains.entries.length + 1) none)
      (s.root.visitsWithin (.remembering m s.chains day) s.chains day
        (s.chains.entries.length + 1) none) :=
    (s.recorder m day).told_within s.root_mem_nodes _ none
  have hday : (s.recording m []).rel (fun _ => True)
      (do return (← s.root.evaluateWithin (.remembering m s.chains day) s.chains day
        (s.chains.entries.length + 1) none).getD .empty : Run α (Allocation α)) _ :=
    Run.Tracing.bind_quiet hroot fun _ _ => (s.recording m []).result trivial
  rw [evaluateDay, evaluateDayWith_apply]
  exact hday { state with path := [] } rfl ⟨hstate.cache, hstate.candidates⟩

theorem remembers_stateAfter (days : List Nat) : s.Remembers m (s.stateAfter m days) := by
  induction days using List.reverseRecOn with
  | nil => exact remembers_start
  | append_singleton days day ih =>
      rw [stateAfter_concat]
      exact (recorded_day day ih).remembers

/-- A state that the evaluation of days comes to, between two of them or at a visit. -/
inductive Attains (s : Strategy α) (m : PriceMatrix α) : RunState α → Prop
  | after (days : List Nat) : Attains s m (s.stateAfter m days)
  | visit (days : List Nat) (day : Nat) {v : Visit α} :
      v ∈ s.visits m day (s.stateAfter m days) → Attains s m v.state

theorem Attains.remembers (h : s.Attains m state) : s.Remembers m state := by
  cases h with
  | after days => exact remembers_stateAfter days
  | visit days day hv => exact (recorded_day day (remembers_stateAfter days)).visits _ hv

/-! ### What is selected -/

section Selected
variable {n : Node α} {metric : Metric} {window : Int} {i : Indicator} {day : Nat} {scope : Scope}

/-- The entries of a ranking are the tickers that contend, with their values. -/
theorem mem_ranked {t : String} {x : α} :
    (x, t) ∈ (n.positionTickers s.chains).keys.filterMap (Sources.ranked m day i scope) ↔
      n.Contends s.chains m i day scope t x := by
  simp only [List.mem_filterMap, Sources.ranked_eq_some, Node.mem_positionTickers_iff]
  constructor
  · rintro ⟨ticker, ⟨hcash, hheld⟩, rfl, hallowed, hvalue⟩
    exact ⟨hheld, hcash, hallowed, hvalue⟩
  · intro h
    exact ⟨t, ⟨h.not_cash, h.held⟩, rfl, h.allowed, h.value⟩

/-- What a ranking selects is a choice among the candidates that are kept for the node. -/
theorem Remembers.selected [Std.TransCmp (Arith.order (α := α))] (h : s.Remembers m state)
    (hn : n ∈ s.nodes) (hkind : n.kind = .function) (hresolved : Indicator.resolve metric window = .ok i)
    (count : Nat) (select : Selection) (day : Nat) (scope : Scope) :
    ∃ c ∈ s.nodes, c.kind = .function ∧ c.id = n.id ∧
      (state.candidates.get? n.id = none → c = n) ∧ ∃ chosen, ∃ after : RunState α,
        (Sources.remembering m s.chains day).selected n metric window count select scope state =
          (.ok chosen, after) ∧
        select.Chooses count (c.Contends s.chains m i day scope) chosen := by
  obtain ⟨c, hc, hfunction, hid, hfirst, asked, hcandidates, hasked, -⟩ := h.candidates_of hn hkind
  obtain ⟨cache, -, hvalues⟩ := Sources.valuesOf_remembered s.chains day i scope
    (c.positionTickers s.chains).keys hasked.cache
  have hchosen : select.Chooses count
      (fun t x => (x, t) ∈
        (c.positionTickers s.chains).keys.filterMap (Sources.ranked m day i scope)) _ :=
    Selection.chooses_select (Sources.nodup_ranked day i scope (Table.nodup_keys _))
  simp only [mem_ranked] at hchosen
  refine ⟨c, hc, hfunction, hid, hfirst, _, { asked with cache }, ?_, hchosen⟩
  have hi : Run.ofExcept (Indicator.resolve metric window) state = (.ok i, state) := by
    rw [hresolved]
    rfl
  have hasks : (Sources.remembering m s.chains day).candidates n state =
      (.ok (c.positionTickers s.chains).keys, asked) := hcandidates
  rw [Sources.selected, Run.bind_ok hi, Run.bind_ok hasks, Run.bind_ok hvalues]
  rfl

end Selected

/-- A function node selects the best of those that contend, in every state that an evaluation
comes to, whatever the strategy. Under a window that its metric does not take it fails.
Otherwise it passes on to its slot as many of the tickers that contend as it asks for and
there are, of which each beats every ticker that is left out; and it is pruned if none
contends. There is one such choice for the tickers that contend and their values. The
candidates are those of a function node with the identifier of the node: its own in a strategy
that is accepted, and wherever none were asked for under the identifier before. -/
theorem function_selects_best [Std.TransCmp (Arith.order (α := α))] (s : Strategy α)
    (m : PriceMatrix α) {state : RunState α} (hstate : s.Attains m state) {n : Node α}
    (hn : n ∈ s.nodes) {id : String} {metric : Metric} {window : Int} {count : Nat}
    {select : Selection} {w : Weighting α} {next : Slot α}
    (hfunction : n = .function id metric window count select w next) (day : Nat) (scope : Scope) :
    (∀ e, Indicator.resolve metric window = .error e → ∀ enter,
      n.evaluate (.remembering m s.chains day) s.chains enter day scope state =
        (.error e, state)) ∧
    ∀ i, Indicator.resolve metric window = .ok i →
      ∃ c ∈ s.nodes, c.kind = .function ∧ c.id = id ∧
        (state.candidates.get? id = none ∨ (∃ anchors, s.validate = .ok anchors) → c = n) ∧
        ∃ chosen, ∃ after : RunState α,
          (Sources.remembering m s.chains day).selected n metric window count select scope state =
            (.ok chosen, after) ∧
          select.Chooses count (c.Contends s.chains m i day scope) chosen ∧
          (∀ other, select.Chooses count (c.Contends s.chains m i day scope) other →
            other = chosen) ∧
          (∀ enter, n.evaluate (.remembering m s.chains day) s.chains enter day scope state =
            (if chosen.isEmpty then pure none
              else Node.fill (.remembering m s.chains day) s.chains enter day w next (some chosen))
              after) ∧
          ((∀ t x, ¬c.Contends s.chains m i day scope t x) → ∀ enter,
            n.evaluate (.remembering m s.chains day) s.chains enter day scope state =
              (.ok none, after)) := by
  subst hfunction
  constructor
  · intro e hresolved enter
    have hi : Run.ofExcept (Indicator.resolve metric window) state = (.error e, state) := by
      rw [hresolved]
      rfl
    have hselected : (Sources.remembering m s.chains day).selected
        (.function id metric window count select w next) metric window count select scope state =
          (.error e, state) := Run.bind_error hi
    rw [Node.evaluate_function, Run.bind_error hselected]
  · intro i hresolved
    obtain ⟨c, hc, hkind, hid, hfirst, chosen, after, hselected, hchosen⟩ :=
      hstate.remembers.selected hn rfl hresolved count select day scope
    have hevaluate (enter : Node α → Scope → Run α (Option (Allocation α))) :
        (Node.function id metric window count select w next).evaluate (.remembering m s.chains day)
          s.chains enter day scope state =
          (if chosen.isEmpty then pure none
            else Node.fill (.remembering m s.chains day) s.chains enter day w next (some chosen))
            after := by
      rw [Node.evaluate_function, Run.bind_ok hselected]
    refine ⟨c, hc, hkind, hid, ?_, chosen, after, hselected, hchosen,
      fun _ hother => hchosen.unique hother, hevaluate, ?_⟩
    · intro h
      cases h with
      | inl hnone => exact hfirst hnone
      | inr haccepted =>
          obtain ⟨anchors, haccepted⟩ := haccepted
          exact (wellFormed_of_validate haccepted).node_eq hc hn hid
    · intro hnone enter
      rw [hevaluate, hchosen.eq_nil hnone]
      rfl

/-- A ranking of three tickers, two of them with the same price and one named twice. -/
def sampleRanked : Strategy Sample.Number where
  name := "ranked"
  root := .function "f" .currentPrice 0 2 .top .equal
    [some (.position "a" ["TLT", cashTicker]), some (.position "b" ["SPY", "QQQ", "TLT"])]
  chains := .empty

/-- The greater name is selected where the prices are equal. -/
theorem sampleRanked_selects : ∃ after,
    (Sources.remembering Sample.matrix sampleRanked.chains 0).selected sampleRanked.root
      .currentPrice 0 2 .top none (sampleRanked.stateAfter Sample.matrix []) =
        (.ok ["SPY", "TLT"], after) ∧
      Selection.top.Chooses 2
        (sampleRanked.root.Contends sampleRanked.chains Sample.matrix .price 0 none)
        ["SPY", "TLT"] := by
  obtain ⟨c, -, -, -, hown, chosen, after, hselected, hchosen, -⟩ :=
    (sampleRanked.function_selects_best Sample.matrix (.after []) sampleRanked.root_mem_nodes rfl 0
      none).2 .price rfl
  obtain rfl : c = sampleRanked.root := hown (.inl rfl)
  have hresult : ((Sources.remembering Sample.matrix sampleRanked.chains 0).selected
      sampleRanked.root .currentPrice 0 2 .top none (sampleRanked.stateAfter Sample.matrix [])).1 =
        .ok ["SPY", "TLT"] := by
    cbv
  rw [hselected] at hresult
  obtain rfl : chosen = ["SPY", "TLT"] := Except.ok.inj hresult
  exact ⟨after, hselected, hchosen⟩

def sampleTwin (tickers : List String) : Node Sample.Number :=
  .function "f" .currentPrice 0 1 .top .equal [some (.position "p" tickers)]

/-- Two rankings with one identifier, which validation refuses. -/
def sampleTwins : Strategy Sample.Number where
  name := "twins"
  root := .basic "root" .equal [some (sampleTwin ["SPY", "QQQ"]), some (sampleTwin ["TLT"])]
  chains := .empty

/-- The second ranking selects a ticker that does not contend for it, though another does, since
the candidates of the first are kept under its identifier. A ranking over no days is not pruned
but fails. -/
theorem sampleTwins_selects : (∃ v ∈ sampleTwins.visits Sample.matrix 0 .start,
    v.node = sampleTwin ["TLT"] ∧
      v.node.Contends sampleTwins.chains Sample.matrix .price 0 v.scope "TLT" 1 ∧
      ((Sources.remembering Sample.matrix sampleTwins.chains 0).selected v.node .currentPrice 0 1
        .top v.scope v.state).1 = .ok ["SPY"] ∧
      ¬Selection.top.Chooses 1
        (v.node.Contends sampleTwins.chains Sample.matrix .price 0 v.scope) ["SPY"]) ∧
    ∀ enter, ((Node.function "f" .cumulativeReturn 0 1 .top .equal [some (Sample.hold "p" "TLT")])
      |>.evaluate (.remembering Sample.matrix .empty 0) .empty enter 0 none .start).1 =
        .error (.invalidWindow "CumulativeReturn" 0 1) := by
  have hfourth : (sampleTwins.visits Sample.matrix 0 .start)[3]?.map (fun v =>
      (v.node, v.scope, ((Sources.remembering Sample.matrix sampleTwins.chains 0).selected v.node
        .currentPrice 0 1 .top v.scope v.state).1)) =
      some (sampleTwin ["TLT"], none, .ok ["SPY"]) := by
    cbv
  obtain ⟨v, hv, hsome⟩ := Option.map_eq_some_iff.1 hfourth
  obtain ⟨hnode, hscope, hselected⟩ : v.node = sampleTwin ["TLT"] ∧ v.scope = none ∧
      ((Sources.remembering Sample.matrix sampleTwins.chains 0).selected v.node .currentPrice 0 1
        .top v.scope v.state).1 = .ok ["SPY"] := by
    simpa using hsome
  have htickers : ((sampleTwin ["TLT"]).positionTickers sampleTwins.chains).keys = ["TLT"] := rfl
  refine ⟨⟨v, List.mem_of_getElem? hv, hnode, ?_, hselected, ?_⟩, fun _ => rfl⟩
  · rw [hnode, hscope]
    have hheld : "TLT" ∈ ((sampleTwin ["TLT"]).positionTickers sampleTwins.chains).keys := by
      rw [htickers]
      decide
    obtain ⟨hcash, hheld⟩ := Node.mem_positionTickers_iff.1 hheld
    exact ⟨hheld, hcash, rfl, rfl⟩
  · rw [hnode]
    intro hchooses
    obtain ⟨x, hcontends⟩ := hchooses.mem (List.mem_singleton.2 rfl)
    have hheld : "SPY" ∈ ((sampleTwin ["TLT"]).positionTickers sampleTwins.chains).keys :=
      Node.mem_positionTickers_iff.2 ⟨hcontends.not_cash, hcontends.held⟩
    rw [htickers] at hheld
    exact absurd hheld (by decide)

end Strategy
end StrategyTree
