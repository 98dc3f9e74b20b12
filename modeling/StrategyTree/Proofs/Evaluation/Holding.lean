import StrategyTree.Proofs.Evaluation.Tracing
/-!
# Held flags

An `altExit` node moves on the first visit of a day, by its entry conditions if it was
not held and by its exit conditions if it was, and each further visit of the day finds
it decided. No other node touches its flag. So along the visits of a day the flag is
followed by a timeline, which lasts when runs are put together.
-/
namespace StrategyTree

variable {α : Type}

/-- What a visit makes of a hold, given the verdicts of the entry and the exit conditions. -/
def Hold.visited (day : Nat) (entry exit : Verdict) (hold : Option Hold) : Option Hold :=
  if (hold.getD .start).lastDay = some day then hold
  else some ⟨if (hold.getD .start).held then exit != some true else entry == some true, some day⟩

/-- A node whose hold is followed through the evaluation of a day, and the verdicts of its
conditions on that day. -/
structure Watch (α : Type) where
  strategy : Strategy α
  matrix : PriceMatrix α
  day : Nat
  id : String
  entry : Verdict
  exit : Verdict

variable [Arith α]

theorem Strategy.WellFormed.altExit_verdicts {s : Strategy α} (hs : s.WellFormed)
    (m : PriceMatrix α) (day : Nat) {id : String} {entry exit : List (Condition α)}
    {fork : Fork α (Node α)} (hn : .altExit id entry exit fork ∈ s.nodes) : ∃ a b,
      (Condition.directListSignal m entry).map (Sources.onDay day) = .ok a ∧
      (Condition.directListSignal m exit).map (Sources.onDay day) = .ok b := by
  have hverdict {part : String} {list : List (Condition α)}
      (hpart : (part, list) ∈ (Node.altExit id entry exit fork).parts) :
      ∃ v, (Condition.directListSignal m list).map (Sources.onDay day) = .ok v := by
    have hl : (partKey id part, list) ∈ s.keyedLists :=
      mem_keyedLists.2 ⟨_, hn, Node.mem_keyedLists.2 (.inr ⟨part, hpart, rfl⟩)⟩
    obtain ⟨signal, hsignal⟩ := hs.signal_ok (m := m) hl
    exact ⟨Sources.onDay day signal, by rw [hsignal]; rfl⟩
  obtain ⟨a, ha⟩ := hverdict (show ("entry", entry) ∈ _ by simp [Node.parts])
  obtain ⟨b, hb⟩ := hverdict (show ("exit", exit) ∈ _ by simp [Node.parts])
  exact ⟨a, b, ha, hb⟩

namespace Watch

section
variable (W : Watch α)

def sources : Sources α :=
  .remembering W.matrix W.strategy.chains W.day

/-- A state on a path that remembers what would be computed anew. -/
def Ready (path : List String) (state : RunState α) : Prop :=
  W.strategy.Recalls W.matrix state state ∧ state.path = path

/-- Visits along which the hold of the node starts and ends as told: a visit of the node moves
it, and nothing else does. -/
def Timeline : Option Hold → List (Visit α) → Option Hold → Prop
  | h, [], h' => h' = h
  | h, v :: rest, h' =>
      (v.node ∈ W.strategy.nodes ∧ W.strategy.Recalls W.matrix v.state v.state ∧
        v.state.holds.get? W.id = h) ∧
        Timeline (if v.node.id = W.id then Hold.visited W.day W.entry W.exit h else h) rest h'

/-- A run on a path that does not fail, and visits along which the hold is followed. -/
def Follows {β : Type} (path : List String) (good : β → Prop) (x : Run α β)
    (log : RunState α → List (Visit α)) : Prop :=
  ∀ state, W.Ready path state → ∃ b t, x state = (.ok b, t) ∧ good b ∧ W.Ready path t ∧
    W.Timeline (state.holds.get? W.id) (log state) (t.holds.get? W.id)

/-- The watched node, with conditions that have the verdicts of the watch on its day. -/
structure Watches (entry exit : List (Condition α)) (fork : Fork α (Node α)) : Prop where
  node : .altExit W.id entry exit fork ∈ W.strategy.nodes
  entry : (Condition.directListSignal W.matrix entry).map (Sources.onDay W.day) = .ok W.entry
  exit : (Condition.directListSignal W.matrix exit).map (Sources.onDay W.day) = .ok W.exit

end

variable {W : Watch α}

theorem Timeline.append {h h' h'' : Option Hold} {vs ws : List (Visit α)}
    (hvs : W.Timeline h vs h') (hws : W.Timeline h' ws h'') : W.Timeline h (vs ++ ws) h'' := by
  induction vs generalizing h with
  | nil =>
      obtain rfl : h' = h := hvs
      exact hws
  | cons v rest ih => exact ⟨hvs.1, ih hvs.2⟩

namespace Follows

variable {β γ : Type} {path : List String} {good : β → Prop} {next : γ → Prop}
  {x : Run α β} {f : β → Run α γ} {log : RunState α → List (Visit α)}

theorem bind {behind : β → RunState α → List (Visit α)} (h : W.Follows path good x log)
    (hf : ∀ b, good b → W.Follows path next (f b) (behind b)) :
    W.Follows path next (x >>= f) fun state => log state ++ Run.along x behind state := by
  intro state hready
  obtain ⟨b, t, hx, hb, hready, htold⟩ := h state hready
  obtain ⟨c, u, hu, hc, hready, htold'⟩ := hf b hb t hready
  refine ⟨c, u, (Run.bind_ok hx).trans hu, hc, hready, ?_⟩
  dsimp only
  rw [Run.along_ok hx]
  exact htold.append htold'

theorem result {b : β} (h : good b) : W.Follows path good (pure b) fun _ => [] :=
  fun state hready => ⟨b, state, rfl, h, hready, rfl⟩

/-- A run that answers like one that computes anew, and so does not touch the flags. -/
theorem of_recalls {y : Run α β}
    (h : Run.Coupled (W.strategy.recalling W.matrix) path good x y)
    (hy : ∀ state, (y state).2 = state) : W.Follows path good x fun _ => [] := by
  intro state ⟨hrecalls, hpath⟩
  obtain ⟨-, hadmits, hstates, hleft, -⟩ := h state state hrecalls hpath hpath
  rw [hy] at hstates
  rcases hx : x state with ⟨r, t⟩
  rw [hx] at hadmits hstates hleft
  cases r with
  | error e => exact hadmits.elim
  | ok b =>
      have hholds : state.holds = t.holds := hstates.holds
      refine ⟨b, t, rfl, hadmits,
        ⟨⟨hstates.cache, hstates.signals, hstates.candidates, rfl⟩, hleft⟩, ?_⟩
      exact congrArg (Table.get? · W.id) hholds.symm

/-- The visit of a node that is not the one whose hold is followed. -/
theorem visit {n : Node α} (scope : Scope) (hn : n ∈ W.strategy.nodes) (hid : n.id ≠ W.id)
    (h : W.Follows path good x log) :
    W.Follows path good x fun state => ⟨n, scope, state⟩ :: log state := by
  intro state hready
  obtain ⟨b, t, hx, hb, hready', htold⟩ := h state hready
  refine ⟨b, t, hx, hb, hready', ⟨hn, hready.1, rfl⟩, ?_⟩
  rwa [if_neg hid]

theorem inside {chain : String} {behind : RunState α → List (Visit α)}
    (h : W.Follows (path ++ [chain]) good x behind) :
    W.Follows path good (Run.inside chain x) fun state =>
      behind { state with path := state.path ++ [chain] } := by
  intro state ⟨hrecalls, hpath⟩
  obtain ⟨b, t, hx, hb, ⟨ht, hpath'⟩, htold⟩ := h { state with path := state.path ++ [chain] }
    ⟨(W.strategy.recalling W.matrix).withPath hrecalls _, by rw [hpath]⟩
  refine ⟨b, { t with path := t.path.dropLast }, ?_, hb,
    ⟨(W.strategy.recalling W.matrix).withPath ht _, ?_⟩, htold⟩
  · simp only [Run.inside, hx]
  · change t.path.dropLast = path
    rw [hpath', List.dropLast_concat]

end Follows

/-- Runs along which the hold of the node is followed. -/
def tracing (W : Watch α) (path : List String) : Run.Tracing α where
  rel good x log := W.Follows path good x log
  tolerates _ := False
  result h := .result h
  failure h := h.elim
  bind h hf := h.bind hf

section Decision
variable {path : List String} (hs : W.strategy.WellFormed) (hm : W.strategy.AgreesOn W.matrix)
  {state : RunState α}
include hs hm

theorem verdict_ready {key : String} {list : List (Condition α)} {v : Verdict}
    (hl : (key, list) ∈ W.strategy.keyedLists)
    (hv : (Condition.directListSignal W.matrix list).map (Sources.onDay W.day) = .ok v)
    (h : W.Ready path state) : ∃ t, W.sources.verdict key list state = (.ok v, t) ∧
      W.Ready path t ∧ t.holds = state.holds := by
  obtain ⟨signal, hsignal⟩ := hs.signal_ok (m := W.matrix) hl
  have hdirect := Sources.direct_verdict W.matrix W.strategy.chains W.day key hsignal state
  obtain ⟨hsame, -, hstates, hpath, -⟩ :=
    hs.recalls_verdict hm W.day hl state state h.1 h.2 h.2
  rw [hdirect] at hsame hstates
  rw [hsignal] at hv
  refine ⟨_, Prod.ext (hsame.symm.trans hv) rfl, ⟨⟨hstates.cache, hstates.signals,
    hstates.candidates, rfl⟩, hpath⟩, hstates.holds.symm⟩

/-- A decision tells the flag that the visit leaves, and touches no other. -/
theorem decideHold_ready {id : String} {entry exit : List (Condition α)} {fork : Fork α (Node α)}
    {a b : Verdict} (hn : .altExit id entry exit fork ∈ W.strategy.nodes)
    (hentry : (Condition.directListSignal W.matrix entry).map (Sources.onDay W.day) = .ok a)
    (hexit : (Condition.directListSignal W.matrix exit).map (Sources.onDay W.day) = .ok b)
    (h : W.Ready path state) : ∃ t,
      W.sources.decideHold W.day id entry exit state =
        (.ok ((Hold.visited W.day a b (state.holds.get? id)).getD .start).held, t) ∧
      W.Ready path t ∧ ∀ k, t.holds.get? k =
        if k = id then Hold.visited W.day a b (state.holds.get? id) else state.holds.get? k := by
  have asks {part : String} {list : List (Condition α)} {v : Verdict} (f : Verdict → Bool)
      (hpart : (part, list) ∈ (Node.altExit id entry exit fork).parts)
      (hv : (Condition.directListSignal W.matrix list).map (Sources.onDay W.day) = .ok v) :
      ∃ t, (do
          let held ← f <$> W.sources.verdict (partKey id part) list
          modify fun s => { s with holds := s.holds.insert id ⟨held, some W.day⟩ }
          return held : Run α Bool) state = (.ok (f v), t) ∧ W.Ready path t ∧
        ∀ k, t.holds.get? k = if k = id then some ⟨f v, some W.day⟩ else state.holds.get? k := by
    have hl : (partKey id part, list) ∈ W.strategy.keyedLists :=
      Strategy.mem_keyedLists.2 ⟨_, hn, Node.mem_keyedLists.2 (.inr ⟨part, hpart, rfl⟩)⟩
    obtain ⟨t, ht, ⟨hrecalls, hpath⟩, hholds⟩ := verdict_ready hs hm hl hv h
    have hmap : (f <$> W.sources.verdict (partKey id part) list) state = (.ok (f v), t) := by
      rw [map_eq_pure_bind, Run.bind_ok ht]
      rfl
    refine ⟨{ t with holds := t.holds.insert id ⟨f v, some W.day⟩ }, ?_,
      ⟨(W.strategy.recalling W.matrix).withHolds hrecalls _, hpath⟩, fun k => ?_⟩
    · rw [Run.bind_ok hmap]
      rfl
    · rw [Table.get?_insert, hholds]
  have hget : (get : Run α (RunState α)) state = (.ok state, state) := rfl
  rw [Sources.decideHold_eq, Run.bind_ok hget, Sources.decideFrom, Hold.visited]
  by_cases hday : ((state.holds.get? id).getD .start).lastDay = some W.day
  · rw [if_pos hday, if_pos hday]
    refine ⟨state, rfl, h, fun k => ?_⟩
    split
    · next hk => rw [hk]
    · rfl
  · rw [if_neg hday, if_neg hday]
    cases hheld : ((state.holds.get? id).getD .start).held with
    | true => exact asks (· != some true) (by simp [Node.parts]) hexit
    | false => exact asks (· == some true) (by simp [Node.parts]) hentry

end Decision

section Tree
variable {path : List String} (hs : W.strategy.WellFormed) (hm : W.strategy.AgreesOn W.matrix)
  {enter : Node α → Scope → Run α (Option (Allocation α))}
  {visitsBehind : Node α → Scope → RunState α → List (Visit α)} {n : Node α} (scope : Scope)

include hs hm

/-- What a node asks for and settles does not touch the flags. -/
theorem compared_quiet (h : W.strategy.Covers path n) :
    n.Compared (W.tracing path).quiet W.sources W.sources W.strategy.chains path (fun _ => True)
      (fun _ _ => True) n :=
  .of_questions (fun _ he => h.not_faults hs he)
    (fun _ _ hl => .of_recalls
      (hs.recalls_verdict hm W.day (Strategy.mem_keyedLists.2 ⟨n, h.node, hl⟩)) fun _ => rfl)
    (fun _ _ => .of_recalls (W.strategy.recalls_value W.matrix W.day _ _) fun _ => rfl)
    fun _ => .of_recalls (hs.recalls_candidates W.day h.node) fun _ => rfl

/-- A visit of the watched node moves its hold, whichever branch is evaluated then. -/
theorem told_altExit {entry exit entry' exit' : List (Condition α)}
    {fork fork' : Fork α (Node α)} {id : String} (hW : W.Watches entry exit fork)
    (hn : W.strategy.Covers path (.altExit id entry' exit' fork'))
    (ih : ∀ c ∈ (Node.altExit id entry' exit' fork').children,
      (W.tracing path).Told W.sources W.strategy.chains enter visitsBehind W.day c) :
    (W.tracing path).Told W.sources W.strategy.chains enter visitsBehind W.day
      (.altExit id entry' exit' fork') := by
  intro scope state hready
  obtain ⟨a, b, hentry, hexit⟩ := hs.altExit_verdicts W.matrix W.day hn.node
  obtain ⟨t, hdecide, ht, hholds⟩ := decideHold_ready hs hm hn.node hentry hexit hready
  obtain ⟨r, u, hfork, -, hu, htold⟩ := Run.Tracing.rel_fork
    (compared_quiet hs hm hn) ih scope fork'
    (shareOf ((Hold.visited W.day a b (state.holds.get? id)).getD .start).held)
    (by simp [Node.weighed]) (by simp [Node.weighed]) t ht
  refine ⟨r, u, (Run.bind_ok hdecide).trans hfork, trivial, hu, ⟨hn.node, hready.1, rfl⟩, ?_⟩
  rw [Run.along_ok hdecide]
  rw [hholds] at htold
  change W.Timeline (if id = W.id then _ else _) _ _
  split
  · next hid =>
      have heq := hs.node_eq hn.node hW.node hid
      injection heq with _ hentries hexits
      obtain rfl : a = W.entry := Except.ok.inj (hentry.symm.trans (hentries ▸ hW.entry))
      obtain rfl : b = W.exit := Except.ok.inj (hexit.symm.trans (hexits ▸ hW.exit))
      rw [if_pos hid.symm] at htold
      rwa [hid] at htold ⊢
  · next hid => rwa [if_neg (Ne.symm hid)] at htold

/-- A node that calls no chain is told, as the nodes below it are. -/
theorem told {entry exit : List (Condition α)} {fork : Fork α (Node α)}
    (hW : W.Watches entry exit fork) (hn : W.strategy.Covers path n)
    (ih : ∀ c ∈ n.children,
      (W.tracing path).Told W.sources W.strategy.chains enter visitsBehind W.day c)
    (hcallee : n.callee? = none) :
    (W.tracing path).Told W.sources W.strategy.chains enter visitsBehind W.day n := by
  by_cases hexit : ∃ id entry' exit' fork', n = .altExit id entry' exit' fork'
  · obtain ⟨id, entry', exit', fork', rfl⟩ := hexit
    exact told_altExit hs hm hW hn ih
  · have hother : n.id ≠ W.id := by
      intro hid
      exact hexit ⟨_, _, _, _, hs.node_eq hn.node hW.node hid⟩
    have hpasses : (W.tracing path).Passes W.sources W.strategy.chains path n :=
      ⟨compared_quiet hs hm hn, fun scope h => Follows.visit scope hn.node hother h⟩
    refine Run.Tracing.told_of_children hpasses hcallee (fun id entry' exit' fork' h => ?_) ih
    exact absurd ⟨id, entry', exit', fork', h⟩ hexit

/-- The evaluation of a node is followed by its visits, as deep as calls are nested. -/
theorem told_within {entry exit : List (Condition α)} {fork : Fork α (Node α)}
    (hW : W.Watches entry exit fork) {depth : Nat} (h : W.strategy.Suffices depth path n) :
    W.Follows path (fun _ => True)
      (n.evaluateWithin W.sources W.strategy.chains W.day depth scope)
      (n.visitsWithin W.sources W.strategy.chains W.day depth scope) := by
  refine h.induction_on hs (P := fun depth path n => ∀ scope, W.Follows path (fun _ => True)
      (n.evaluateWithin W.sources W.strategy.chains W.day depth scope)
      (n.visitsWithin W.sources W.strategy.chains W.day depth scope))
    (fun {depth path n} h hcallee ih => ?_)
    (fun {depth path id chain root} h hroot hnew ih scope state hready => ?_) scope
  · exact told hs hm hW h.covers ih hcallee
  · have hid : id ≠ W.id := by
      intro hid
      cases hs.node_eq h.covers.node hW.node hid
    have hnew : chain ∉ state.path := by rwa [hready.2]
    obtain ⟨r, t, hcall, hgood, ht, htold⟩ :=
      (ih scope).inside.visit (n := .call id chain) scope h.covers.node hid state hready
    refine ⟨r, t, (Node.evaluate_call hroot hnew).trans hcall, hgood, ht, ?_⟩
    rwa [Node.visitsWithin, Node.visits_call hroot hnew]

end Tree

end Watch
end StrategyTree
