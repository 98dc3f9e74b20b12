import StrategyTree.Proofs.Evaluation.Holding
/-!
# The life of an `altExit` node

Day after day the flag of an `altExit` node of an accepted strategy moves at most once,
on the first visit of the day, and stays where it is on days without a visit. Every
visit of a day evaluates the branch that the flag after the day names.
-/
namespace StrategyTree

variable {α : Type}

theorem RunState.isHeld_eq (s : RunState α) (id : String) :
    s.isHeld id = ((s.holds.get? id).getD .start).held := by
  unfold isHeld
  cases s.holds.get? id <;> rfl

/-- A second visit on the same day changes nothing. -/
theorem Hold.visited_visited (day : Nat) (entry exit : Verdict) (hold : Option Hold) :
    Hold.visited day entry exit (Hold.visited day entry exit hold) =
      Hold.visited day entry exit hold := by
  by_cases h : (hold.getD .start).lastDay = some day
  · simp [Hold.visited, h]
  · simp [Hold.visited, h]

theorem Hold.lastDay_visited (day : Nat) (entry exit : Verdict) (hold : Option Hold) :
    ((Hold.visited day entry exit hold).getD .start).lastDay = some day := by
  by_cases h : (hold.getD .start).lastDay = some day
  · rwa [Hold.visited, if_pos h]
  · rw [Hold.visited, if_neg h]
    rfl

theorem Hold.held_visited {day : Nat} {entry exit : Verdict} {hold : Option Hold}
    (h : (hold.getD .start).lastDay ≠ some day) :
    ((Hold.visited day entry exit hold).getD .start).held =
      if (hold.getD .start).held then exit != some true else entry == some true := by
  rw [Hold.visited, if_neg h]
  rfl

variable [Arith α]

namespace Watch

variable {W : Watch α} {h h' : Option Hold}

/-- The hold behind visits, whichever of them are visits of the node. -/
theorem Timeline.outcome {vs : List (Visit α)} (ht : W.Timeline h vs h') :
    h' = if ∃ v ∈ vs, v.node.id = W.id then Hold.visited W.day W.entry W.exit h else h := by
  induction vs generalizing h with
  | nil =>
      obtain rfl : h' = h := ht
      simp
  | cons v rest ih =>
      rw [ih ht.2]
      by_cases hv : v.node.id = W.id
      · simp [hv, Hold.visited_visited]
      · simp [hv]

theorem Timeline.split {vs ws : List (Visit α)} (ht : W.Timeline h (vs ++ ws) h') :
    ∃ h₁, W.Timeline h vs h₁ ∧ W.Timeline h₁ ws h' := by
  induction vs generalizing h with
  | nil => exact ⟨h, rfl, ht⟩
  | cons v rest ih =>
      obtain ⟨h₁, hrest, hws⟩ := ih ht.2
      exact ⟨h₁, ⟨ht.1, hrest⟩, hws⟩

/-- The visits of a day tell what becomes of the hold of the watched node. -/
theorem day_told (hs : W.strategy.WellFormed) (hm : W.strategy.AgreesOn W.matrix)
    {entry exit : List (Condition α)} {fork : Fork α (Node α)} (hW : W.Watches entry exit fork)
    {state : RunState α} (h : W.strategy.Recalls W.matrix state state) :
    W.Timeline (state.holds.get? W.id) (W.strategy.visits W.matrix W.day state)
      ((W.strategy.evaluateDay W.matrix W.day state).2.holds.get? W.id) := by
  have hready : W.Ready [] { state with path := [] } :=
    ⟨(W.strategy.recalling W.matrix).withPath h [], rfl⟩
  obtain ⟨r, t, hrun, -, -, htold⟩ :=
    told_within hs hm none hW (.root W.strategy) { state with path := [] } hready
  rw [Strategy.evaluateDay, Strategy.evaluateDayWith_apply]
  exact (Run.bind_ok hrun).symm ▸ htold

end Watch

namespace Strategy

variable {s : Strategy α} {m : PriceMatrix α} {day : Nat}

namespace WellFormed

variable (hs : s.WellFormed) (hm : s.AgreesOn m)
include hs hm

theorem recalls_stateAfter (days : List Nat) :
    s.Recalls m (s.stateAfter m days) (s.stateAfter m days) := by
  induction days using List.reverseRecOn with
  | nil => exact s.recalls_start m
  | append_singleton days day ih =>
      have hmatch := (hs.anew hm day).evaluateDay (.root s) day ih
      rw [stateAfter_concat]
      exact ⟨hmatch.states.cache, hmatch.states.signals, hmatch.states.candidates, rfl⟩

/-- A hold is dated on one of the days before. -/
theorem lastDay_mem {id : String} {entry exit : List (Condition α)} {fork : Fork α (Node α)}
    (hn : .altExit id entry exit fork ∈ s.nodes) (days : List Nat) {day : Nat}
    (h : (((s.stateAfter m days).holds.get? id).getD .start).lastDay = some day) : day ∈ days := by
  induction days using List.reverseRecOn with
  | nil => cases h
  | append_singleton days last ih =>
      obtain ⟨a, b, hentry, hexit⟩ := hs.altExit_verdicts m last hn
      have htold := Watch.day_told (W := ⟨s, m, last, id, a, b⟩) hs hm ⟨hn, hentry, hexit⟩
        (hs.recalls_stateAfter hm days)
      rw [stateAfter_concat, htold.outcome] at h
      rw [List.mem_append, List.mem_singleton]
      split at h
      · rw [Hold.lastDay_visited] at h
        exact .inr (Option.some.inj h).symm
      · exact .inl (ih h)

end WellFormed

/-- What a day does to the flag of an `altExit` node between two states. Where its conditions are
undefined they are not true, and so they do not move it. -/
structure AltExitDay (s : Strategy α) (m : PriceMatrix α) (day : Nat) (before after : RunState α)
    (id : String) (entry exit : List (Condition α)) (fork : Fork α (Node α)) : Prop where
  /-- A visited node that was not held moves exactly if its entry conditions are true. -/
  enters : (∃ v ∈ s.visits m day before, v.node.id = id) → before.isHeld id = false →
    (after.isHeld id = true ↔
      (Condition.directListSignal m entry).map (Sources.onDay day) = .ok (some true))
  leaves : (∃ v ∈ s.visits m day before, v.node.id = id) → before.isHeld id = true →
    (after.isHeld id = false ↔
      (Condition.directListSignal m exit).map (Sources.onDay day) = .ok (some true))
  rests : (∀ v ∈ s.visits m day before, v.node.id ≠ id) → after.isHeld id = before.isHeld id
  /-- The first visit finds the flag as it was, and every other one as it will be. -/
  found {vs ws : List (Visit α)} {v : Visit α} : s.visits m day before = vs ++ v :: ws →
    v.node.id = id → v.state.isHeld id =
      if ∃ u ∈ vs, u.node.id = id then after.isHeld id else before.isHeld id
  /-- Every visit evaluates the branch of the flag after the day. -/
  takes {v : Visit α} (enter : Node α → Scope → Run α (Option (Allocation α))) :
    v ∈ s.visits m day before → v.node.id = id → v.node = .altExit id entry exit fork ∧
      ∃ t : RunState α, t.isHeld id = after.isHeld id ∧
        v.node.evaluate (.remembering m s.chains day) s.chains enter day v.scope v.state =
          Node.evaluateFork (.remembering m s.chains day) s.chains enter day
            (shareOf (after.isHeld id)) fork v.scope t
  /-- The day is noted exactly if the node is visited. -/
  noted : ((after.holds.get? id).getD .start).lastDay = some day ↔
    ∃ v ∈ s.visits m day before, v.node.id = id

theorem WellFormed.altExitDay (hs : s.WellFormed) (hm : s.AgreesOn m) {id : String}
    {entry exit : List (Condition α)} {fork : Fork α (Node α)}
    (hn : .altExit id entry exit fork ∈ s.nodes) {before : RunState α}
    (hbefore : s.Recalls m before before)
    (hday : ((before.holds.get? id).getD .start).lastDay ≠ some day) :
    s.AltExitDay m day before (s.evaluateDay m day before).2 id entry exit fork := by
  obtain ⟨a, b, hentry, hexit⟩ := hs.altExit_verdicts m day hn
  have htold := Watch.day_told (W := ⟨s, m, day, id, a, b⟩) hs hm ⟨hn, hentry, hexit⟩ hbefore
  have hafter := htold.outcome
  dsimp only at hafter
  have hmoved (hvisited : ∃ v ∈ s.visits m day before, v.node.id = id) :
      (s.evaluateDay m day before).2.isHeld id =
        if before.isHeld id then b != some true else a == some true := by
    rw [RunState.isHeld_eq, RunState.isHeld_eq, hafter, if_pos hvisited, Hold.held_visited hday]
  have hfound {vs ws : List (Visit α)} {v : Visit α} (h : s.visits m day before = vs ++ v :: ws) :
      v.node ∈ s.nodes ∧ s.Recalls m v.state v.state ∧ v.state.holds.get? id =
        if ∃ u ∈ vs, u.node.id = id then Hold.visited day a b (before.holds.get? id)
        else before.holds.get? id := by
    obtain ⟨_, hvs, ⟨hnode, hrecalls, hhold⟩, -⟩ := (h ▸ htold).split
    exact ⟨hnode, hrecalls, hhold.trans hvs.outcome⟩
  constructor
  case enters =>
    intro hvisited hheld
    rw [hmoved hvisited, hheld, hentry]
    simp
  case leaves =>
    intro hvisited hheld
    rw [hmoved hvisited, hheld, hexit]
    simp
  case rests =>
    intro hunvisited
    rw [RunState.isHeld_eq, RunState.isHeld_eq, hafter, if_neg (by simpa using hunvisited)]
  case found =>
    intro vs ws v h hid
    obtain ⟨-, -, hhold⟩ := hfound h
    have hvisited : ∃ u ∈ s.visits m day before, u.node.id = id := ⟨v, by simp [h], hid⟩
    rw [RunState.isHeld_eq, hhold]
    split
    · rw [RunState.isHeld_eq, hafter, if_pos hvisited]
    · rw [RunState.isHeld_eq]
  case takes =>
    intro v enter hv hid
    have hvisited : ∃ u ∈ s.visits m day before, u.node.id = id := ⟨v, hv, hid⟩
    obtain ⟨vs, ws, h⟩ := List.append_of_mem hv
    obtain ⟨hnode, hrecalls, hhold⟩ := hfound h
    have hsame : v.node = .altExit id entry exit fork := hs.node_eq hnode hn hid
    have hready : Watch.Ready ⟨s, m, day, id, a, b⟩ v.state.path v.state := ⟨hrecalls, rfl⟩
    obtain ⟨t, hdecide, -, hholds⟩ := Watch.decideHold_ready hs hm hn hentry hexit hready
    have hleft : Hold.visited day a b (v.state.holds.get? id) =
        (s.evaluateDay m day before).2.holds.get? id := by
      rw [hafter, if_pos hvisited, hhold]
      split
      · exact Hold.visited_visited day a b _
      · rfl
    rw [hleft] at hholds hdecide
    refine ⟨hsame, t, ?_, ?_⟩
    · rw [RunState.isHeld_eq, RunState.isHeld_eq, hholds, if_pos rfl]
    · rw [hsame, RunState.isHeld_eq]
      exact Run.bind_ok hdecide
  case noted =>
    rw [hafter]
    split
    · next hvisited => exact iff_of_true (Hold.lastDay_visited day a b _) hvisited
    · next hunvisited => exact iff_of_false hday hunvisited

omit [Arith α] in
/-- Identifiers without a number sign are not read as the key of a part. -/
theorem IndicatorsApart.of_ids {s : Strategy α} (h : ∀ n ∈ s.nodes, '#' ∉ n.id.toList) :
    s.IndicatorsApart := by
  intro id conditions fork hindicator n _ part list _ hid
  refine absurd ?_ (h _ hindicator)
  change '#' ∈ id.toList
  rw [hid]
  simp [partKey]

/-- An `altExit` node is a state machine that moves at most once a day. It starts without being
held, and every day, whatever days were evaluated before it, moves its flag by its own conditions
if the evaluation comes to it, and not otherwise. -/
theorem altExit_moves {s : Strategy α} {anchors : Tickers} (h : s.validate = .ok anchors)
    (hids : ∀ n ∈ s.nodes, '#' ∉ n.id.toList) (m : PriceMatrix α) {id : String}
    {entry exit : List (Condition α)} {fork : Fork α (Node α)}
    (hn : .altExit id entry exit fork ∈ s.nodes) {days : List Nat} {day : Nat}
    (hdays : (days ++ [day]).Pairwise (· < ·)) :
    (s.stateAfter m []).isHeld id = false ∧
      s.AltExitDay m day (s.stateAfter m days) (s.stateAfter m (days ++ [day])) id entry exit
        fork := by
  have hs := wellFormed_of_validate h
  have hm : s.AgreesOn m := (hs.keysIdentify_iff.2 (.of_ids hids)).agreesOn m
  refine ⟨rfl, ?_⟩
  rw [stateAfter_concat]
  refine hs.altExitDay hm hn (hs.recalls_stateAfter hm days) fun hlast => ?_
  have hmem : day ∈ days := hs.lastDay_mem hm hn days hlast
  have hlt : day < day := (List.pairwise_append.1 hdays).2.2 day hmem day (by simp)
  exact Nat.lt_irrefl day hlt

end Strategy

/-! ### A sample -/

namespace Sample

def gate : Node Number :=
  .altExit "g" [above "SPY" 3] [above "SPY" 100] (choose (hold "a" "SPY") (hold "b" "TLT"))

/-- The gate is visited twice a day, in a chain. -/
def gated : Strategy Number where
  name := "gated"
  root := .basic "root" .equal [some (.call "x" "gate"), some (.call "y" "gate")]
  chains := Table.empty.insert "gate" gate

theorem gated_accepted : gated.validate = .ok (Table.ofList [("SPY", ()), ("TLT", ())]) := rfl

theorem gated_ids : ∀ n ∈ gated.nodes, '#' ∉ n.id.toList := by
  have hids : gated.nodes.map Node.id = ["root", "x", "y", "g", "a", "b"] := rfl
  have hplain : ∀ id ∈ gated.nodes.map Node.id, '#' ∉ id.toList := by
    rw [hids]
    decide
  exact fun n hn => hplain n.id (List.mem_map_of_mem hn)

end Sample

/-- The gate opens on the first day, which both visits note, and keeps its flag on a day without
prices. -/
theorem Strategy.sample_moves :
    (Sample.gated.stateAfter Sample.matrix [0]).isHeld "g" = true ∧
      (Sample.gated.stateAfter Sample.matrix []).isHeld "g" = false ∧
      Sample.gated.AltExitDay Sample.matrix 1 (Sample.gated.stateAfter Sample.matrix [0])
        (Sample.gated.stateAfter Sample.matrix [0, 1]) "g" [Sample.above "SPY" 3]
        [Sample.above "SPY" 100] (Sample.choose (Sample.hold "a" "SPY") (Sample.hold "b" "TLT")) :=
  ⟨by decide +kernel, Strategy.altExit_moves Sample.gated_accepted Sample.gated_ids Sample.matrix
    (Strategy.chain_mem_nodes (show Sample.gated.chains.get? "gate" = some Sample.gate from rfl))
    (by decide)⟩

end StrategyTree
