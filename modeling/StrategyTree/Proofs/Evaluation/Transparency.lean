import StrategyTree.Proofs.Evaluation.Safety
/-!
# Remembering and computing anew

A run keeps each signal under a key that is made from the identifier of the node
that asks. Where the condition lists that share a key have the same verdicts, what
is remembered is what would be computed anew, and an accepted strategy decides the
same with both. Distinct identifiers do not ensure it: an indicator node may be
named like a part of another node.
-/
namespace StrategyTree

variable {α : Type} [Arith α]

/-- A question for the verdict of a condition list on a day. -/
structure Question (α : Type) where
  day : Nat
  key : String
  list : List (Condition α)

namespace Sources

def answers (sources : Nat → Sources α) :
    List (Question α) → RunState α → List (Except Failure Verdict)
  | [], _ => []
  | q :: rest, state =>
      let r := (sources q.day).verdict q.key q.list state
      r.1 :: answers sources rest r.2

theorem direct_verdict (m : PriceMatrix α) (chains : Table (Node α)) (day : Nat) (key : String)
    {list : List (Condition α)} {signal : Signal}
    (h : Condition.directListSignal m list = .ok signal) (state : RunState α) :
    (direct m chains day).verdict key list state = (.ok (onDay day signal), state) := by
  change ((Condition.listSignal m list .empty).1.map (onDay day), state) = _
  rw [Condition.listSignal_empty, h]
  rfl

end Sources

namespace Strategy

/-- Lists that share a key have the same verdict on every day. -/
def AgreesOn (s : Strategy α) (m : PriceMatrix α) : Prop :=
  ∀ key list list', (key, list) ∈ s.keyedLists → (key, list') ∈ s.keyedLists → ∀ day,
    (Condition.directListSignal m list).map (Sources.onDay day) =
      (Condition.directListSignal m list').map (Sources.onDay day)

/-- No indicator node is named like a part of another node with another list. -/
def IndicatorsApart (s : Strategy α) : Prop :=
  ∀ id conditions fork, .indicator id conditions fork ∈ s.nodes → ∀ n ∈ s.nodes,
    ∀ part list, (part, list) ∈ n.parts → id = partKey n.id part → conditions = list

theorem KeysIdentify.agreesOn {s : Strategy α} (h : s.KeysIdentify) (m : PriceMatrix α) :
    s.AgreesOn m := by
  intro key list list' hl hl' day
  rw [h key list list' hl hl']

/-- What comes of days that are evaluated one after the other: the decision of each and the
held flags behind it. -/
def outcomes (s : Strategy α) (sources : Nat → Sources α) :
    List Nat → RunState α → List (Except Failure (Allocation α) × Table Hold)
  | [], _ => []
  | day :: rest, state =>
      let r := s.evaluateDayWith (sources day) day state
      (r.1, r.2.holds) :: outcomes s sources rest r.2

/-- The first state remembers what would be computed anew, and both know the same flags. -/
structure Recalls (s : Strategy α) (m : PriceMatrix α) (state state' : RunState α) : Prop where
  cache : state.cache.Faithful m
  signals {key : String} {list : List (Condition α)} {signal : Signal} :
    (key, list) ∈ s.keyedLists → state.signals.get? key = some signal → ∀ day,
      (Condition.directListSignal m list).map (Sources.onDay day) =
        .ok (Sources.onDay day signal)
  candidates {n : Node α} {tickers : List String} : n ∈ s.nodes →
    state.candidates.get? n.id = some tickers → tickers = (n.positionTickers s.chains).keys
  holds : state'.holds = state.holds

theorem recalls_start (s : Strategy α) (m : PriceMatrix α) : s.Recalls m .start .start where
  cache := IndicatorCache.faithful_empty
  signals _ h := by cases h
  candidates _ h := by cases h
  holds := rfl

/-- A run that remembers beside one that computes anew. -/
def recalling (s : Strategy α) (m : PriceMatrix α) : Coupling α where
  states := s.Recalls m
  tolerates _ := False
  holds_eq h := h.holds
  withHolds h _ := ⟨h.cache, h.signals, h.candidates, rfl⟩
  withPath h _ := ⟨h.cache, h.signals, h.candidates, h.holds⟩

theorem recalls_value (s : Strategy α) (m : PriceMatrix α) (day : Nat) (ticker : String)
    (i : Indicator) {path : List String} :
    Run.Coupled (s.recalling m) path (fun _ => True)
      ((Sources.remembering m s.chains day).value ticker i)
      ((Sources.direct m s.chains day).value ticker i) := by
  intro state state' hstate hpath hpath'
  obtain ⟨hv, hcache⟩ := hstate.cache.series ticker i
  refine ⟨?_, trivial, ⟨hcache, hstate.signals, hstate.candidates, hstate.holds⟩, hpath, hpath'⟩
  change Except.ok _ = Except.ok ((state.cache.series m ticker i).1.at? day)
  rw [hv]

namespace WellFormed

variable {s : Strategy α} (hs : s.WellFormed) {m : PriceMatrix α} {path : List String}
include hs

/-- Only the name of an indicator node can make two lists share a key. -/
theorem keysIdentify_iff : s.KeysIdentify ↔ s.IndicatorsApart := by
  constructor
  · intro h id conditions fork hindicator n hn part list hpart hid
    have hl : (id, conditions) ∈ s.keyedLists :=
      mem_keyedLists.2 ⟨_, hindicator, Node.mem_keyedLists.2 (.inl ⟨fork, rfl⟩)⟩
    have hl' : (id, list) ∈ s.keyedLists :=
      mem_keyedLists.2 ⟨n, hn, Node.mem_keyedLists.2 (.inr ⟨part, hpart, hid⟩)⟩
    exact h id conditions list hl hl'
  · intro h key list list' hl hl'
    obtain ⟨n, hn, hl⟩ := mem_keyedLists.1 hl
    obtain ⟨n', hn', hl'⟩ := mem_keyedLists.1 hl'
    rcases Node.mem_keyedLists.1 hl with ⟨fork, rfl⟩ | ⟨part, hpart, hkey⟩
    · rcases Node.mem_keyedLists.1 hl' with ⟨fork', rfl⟩ | ⟨part', hpart', hkey'⟩
      · have heq := hs.node_eq hn hn' rfl
        injection heq
      · exact h key list fork hn n' hn' part' list' hpart' hkey'
    · rcases Node.mem_keyedLists.1 hl' with ⟨fork', rfl⟩ | ⟨part', hpart', hkey'⟩
      · exact (h key list' fork' hn' n hn part list hpart hkey).symm
      · obtain ⟨hid, rfl⟩ := (partKey_inj (Node.not_mem_of_mem_parts hpart)
          (Node.not_mem_of_mem_parts hpart')).1 (hkey.symm.trans hkey')
        obtain rfl := hs.node_eq hn hn' hid
        exact Node.parts_unique hpart hpart'

theorem signal_ok {key : String} {list : List (Condition α)} (h : (key, list) ∈ s.keyedLists) :
    ∃ signal, Condition.directListSignal m list = .ok signal := by
  obtain ⟨n, hn, hl⟩ := mem_keyedLists.1 h
  exact Condition.directListSignal_ok m (hs.resolves hn hl)

/-- A kept signal answers as the list that asks would, for all lists that share the key. -/
theorem recalls_verdict (hm : s.AgreesOn m) (day : Nat) {key : String}
    {list : List (Condition α)} (hl : (key, list) ∈ s.keyedLists) :
    Run.Coupled (s.recalling m) path (fun _ => True)
      ((Sources.remembering m s.chains day).verdict key list)
      ((Sources.direct m s.chains day).verdict key list) := by
  intro state state' hstate hpath hpath'
  obtain ⟨signal, hsignal⟩ := hs.signal_ok (m := m) hl
  rw [Sources.direct_verdict m s.chains day key hsignal, Sources.remembering_verdict]
  cases hkey : state.signals.get? key with
  | some old =>
      rw [Sources.verdict_ok (Sources.kept_found hkey)]
      have hold := hstate.signals hl hkey day
      rw [hsignal] at hold
      exact ⟨hold, trivial, hstate, hpath, hpath'⟩
  | none =>
      obtain ⟨hr, hcache⟩ := Condition.listSignal_computes list state.cache hstate.cache
      rw [hsignal] at hr
      rw [Sources.verdict_ok (Sources.kept_computed hkey (Prod.ext hr rfl))]
      refine ⟨rfl, trivial, ⟨hcache, ?_, hstate.candidates, hstate.holds⟩, hpath, hpath'⟩
      intro key' list' signal' hl' hget
      rw [Table.get?_insert] at hget
      split at hget
      · next heq =>
          obtain rfl := Option.some.inj hget
          subst heq
          intro day
          rw [hm _ _ _ hl' hl day, hsignal]
          rfl
      · exact hstate.signals hl' hget

/-- Candidates are kept by the identifier of the node, which no other node has. -/
theorem recalls_candidates (day : Nat) {n : Node α} (hn : n ∈ s.nodes) :
    Run.Coupled (s.recalling m) path (fun _ => True)
      ((Sources.remembering m s.chains day).candidates n)
      ((Sources.direct m s.chains day).candidates n) := by
  intro state state' hstate hpath hpath'
  change Run.Matches _ _ _ (Sources.rememberedCandidates s.chains n state)
    (.ok (n.positionTickers s.chains).keys, state')
  have hget : (get : Run α (RunState α)) state = (.ok state, state) := rfl
  rw [Sources.rememberedCandidates, Run.bind_ok hget]
  cases hfound : state.candidates.get? n.id with
  | some tickers =>
      obtain rfl := hstate.candidates hn hfound
      exact ⟨rfl, trivial, hstate, hpath, hpath'⟩
  | none =>
      refine ⟨rfl, trivial, ⟨hstate.cache, hstate.signals, ?_, hstate.holds⟩, hpath, hpath'⟩
      intro n' tickers hn' htickers
      change (state.candidates.insert n.id _).get? n'.id = _ at htickers
      rw [Table.get?_insert] at htickers
      split at htickers
      · next heq =>
          rw [hs.node_eq hn' hn heq]
          exact (Option.some.inj htickers).symm
      · exact hstate.candidates hn' htickers

def anew (hm : s.AgreesOn m) (day : Nat) :
    Simulation (.remembering m s.chains day) (.direct m s.chains day) s.chains :=
  hs.simulation (s.recalling m)
    (fun hn hl => hs.recalls_verdict hm day (mem_keyedLists.2 ⟨_, hn, hl⟩))
    (fun {_ ticker i} => recalls_value s m day ticker i)
    (fun hn => hs.recalls_candidates day hn)

theorem outcomes_eq (hm : s.AgreesOn m) (days : List Nat) {state state' : RunState α}
    (h : s.Recalls m state state') :
    s.outcomes (.remembering m s.chains) days state =
      s.outcomes (.direct m s.chains) days state' := by
  induction days generalizing state state' with
  | nil => rfl
  | cons day rest ih =>
      have hmatch := (hs.anew hm day).evaluateDay (.root s) day h
      have hholds := (s.recalling m).holds_eq hmatch.states
      rw [outcomes, outcomes]
      exact congrArg₂ List.cons (Prod.ext hmatch.same.symm hholds.symm) (ih hmatch.states)

theorem answers_eq (hm : s.AgreesOn m) (qs : List (Question α))
    (hqs : ∀ q ∈ qs, (q.key, q.list) ∈ s.keyedLists) {state state' : RunState α}
    (h : s.Recalls m state state') (hpath : state.path = []) (hpath' : state'.path = []) :
    Sources.answers (.remembering m s.chains) qs state =
      Sources.answers (.direct m s.chains) qs state' := by
  induction qs generalizing state state' with
  | nil => rfl
  | cons q rest ih =>
      obtain ⟨hq, hrest⟩ := List.forall_mem_cons.1 hqs
      have hmatch := hs.recalls_verdict hm q.day hq state state' h hpath hpath'
      rw [Sources.answers, Sources.answers]
      exact congrArg₂ List.cons hmatch.same.symm
        (ih hrest hmatch.states hmatch.path_left hmatch.path_right)

/-- The second of two lists that share a key is answered with the signal of the first. -/
theorem agreesOn_of_answers (h : ∀ qs : List (Question α),
    (∀ q ∈ qs, (q.key, q.list) ∈ s.keyedLists) →
      Sources.answers (.remembering m s.chains) qs .start =
        Sources.answers (.direct m s.chains) qs .start) : s.AgreesOn m := by
  intro key list list' hl hl' day
  obtain ⟨signal, hsignal⟩ := hs.signal_ok (m := m) hl
  obtain ⟨signal', hsignal'⟩ := hs.signal_ok (m := m) hl'
  have hasked := h [⟨day, key, list⟩, ⟨day, key, list'⟩] (by simp [hl, hl'])
  let asked : RunState α :=
    { (RunState.start : RunState α) with
      cache := (Condition.listSignal m list .empty).2
      signals := Table.empty.insert key signal }
  have hcomputed : Condition.listSignal m list .empty = (.ok signal, asked.cache) :=
    Prod.ext ((Condition.listSignal_empty list).trans hsignal) rfl
  have hkept : asked.signals.get? key = some signal := by
    change (Table.empty.insert key signal).get? key = some signal
    rw [Table.get?_insert, if_pos rfl]
  have hfirst : (Sources.remembering m s.chains day).verdict key list .start =
      (.ok (Sources.onDay day signal), asked) :=
    Sources.verdict_ok (Sources.kept_computed (Table.get?_empty key) hcomputed)
  have hsecond : (Sources.remembering m s.chains day).verdict key list' asked =
      (.ok (Sources.onDay day signal), asked) :=
    Sources.verdict_ok (Sources.kept_found hkept)
  simp only [Sources.answers, hfirst, hsecond, Sources.direct_verdict m s.chains day key hsignal,
    Sources.direct_verdict m s.chains day key hsignal', List.cons.injEq, and_true, true_and] at hasked
  rw [hsignal, hsignal']
  exact hasked

end WellFormed

/-- When memory is transparent. An accepted strategy has a key of its own for each condition
list, and decides the same with memory as without over every matrix, exactly if no indicator
node is named like a part of another node. Over one matrix, what is remembered answers every
order of questions as computing anew would exactly if lists that share a key have the same
verdicts, and then days in any order have the same decisions and the same held flags. -/
theorem memory_transparent {s : Strategy α} {anchors : Tickers} (hs : s.validate = .ok anchors) :
    (s.IndicatorsApart ↔ s.KeysIdentify ∧ ∀ (m : PriceMatrix α) days,
      s.outcomes (.remembering m s.chains) days .start =
        s.outcomes (.direct m s.chains) days .start) ∧
    ∀ m : PriceMatrix α,
      (s.AgreesOn m ↔ ∀ qs : List (Question α), (∀ q ∈ qs, (q.key, q.list) ∈ s.keyedLists) →
        Sources.answers (.remembering m s.chains) qs .start =
          Sources.answers (.direct m s.chains) qs .start) ∧
      (s.AgreesOn m → ∀ days, s.outcomes (.remembering m s.chains) days .start =
        s.outcomes (.direct m s.chains) days .start) := by
  have hs := wellFormed_of_validate hs
  have hkeys : s.KeysIdentify ↔ s.IndicatorsApart := hs.keysIdentify_iff
  have houtcomes (m : PriceMatrix α) (hm : s.AgreesOn m) (days : List Nat) :
      s.outcomes (.remembering m s.chains) days .start =
        s.outcomes (.direct m s.chains) days .start :=
    hs.outcomes_eq hm days (s.recalls_start m)
  constructor
  · constructor
    · intro hapart
      have hidentify : s.KeysIdentify := hkeys.2 hapart
      exact ⟨hidentify, fun m => houtcomes m (hidentify.agreesOn m)⟩
    · rintro ⟨hidentify, -⟩
      exact hkeys.1 hidentify
  · intro m
    refine ⟨⟨?_, hs.agreesOn_of_answers⟩, houtcomes m⟩
    intro hm qs hqs
    exact hs.answers_eq hm qs hqs (s.recalls_start m) rfl rfl

theorem sample_transparent :
    (Sample.strategy "m").outcomes (.remembering Sample.matrix (Sample.strategy "m").chains)
        [0, 7, 0] .start =
      (Sample.strategy "m").outcomes (.direct Sample.matrix (Sample.strategy "m").chains)
        [0, 7, 0] .start := by
  have hkeys : (Sample.strategy "m").KeysIdentify := by
    have hlists : (Sample.strategy "m").keyedLists =
        [("n#0", [Sample.above "SPY" 3]), ("m", [Sample.above "SPY" 100])] := rfl
    intro key list list' hl hl'
    rw [hlists] at hl hl'
    simp only [List.mem_cons, List.not_mem_nil, or_false, Prod.mk.injEq] at hl hl'
    rcases hl with ⟨rfl, rfl⟩ | ⟨rfl, rfl⟩ <;> simpa [eq_comm] using hl'
  have hapart : (Sample.strategy "m").IndicatorsApart :=
    (wellFormed_of_validate Sample.strategy_accepted).keysIdentify_iff.1 hkeys
  exact ((memory_transparent Sample.strategy_accepted).1.1 hapart).2 Sample.matrix [0, 7, 0]

/-- An indicator node that is named like the first item of the numbered node is answered with
the signal of the item. -/
theorem sample_misled :
    (∃ anchors, (Sample.strategy "n#0").validate = .ok anchors) ∧
      (Sample.strategy "n#0").outcomes (.remembering Sample.matrix (Sample.strategy "n#0").chains)
          [0] .start ≠
        (Sample.strategy "n#0").outcomes (.direct Sample.matrix (Sample.strategy "n#0").chains) [0]
          .start :=
  ⟨⟨_, rfl⟩, by decide +kernel⟩

end Strategy
end StrategyTree
