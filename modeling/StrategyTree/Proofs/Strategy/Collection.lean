import StrategyTree.Proofs.Strategy.Keys
import StrategyTree.Proofs.Strategy.Reach
/-!
# Collections of tickers

The tickers that a collection finds, said without the collection: the nodes that are
reached from its start and what each of them names. Chains may call one another in a
circle, or a call may lead nowhere. No chain is entered twice, so calls are never nested
deeper than there are chains, and a collection ends whatever it would do beyond.
-/
namespace StrategyTree

variable {α : Type}

namespace Node

/-- The tickers that a node names by itself, other than cash to hold. -/
inductive Names : Node α → String → Prop where
  | held {id t : String} {tickers : List String} : t ∈ tickers → t ≠ cashTicker →
      Names (position id tickers) t
  | left {n : Node α} {list : List (Condition α)} {c : Condition α} :
      list ∈ n.conditionLists → c ∈ list → Names n c.left.ticker
  | right {n : Node α} {list : List (Condition α)} {c : Condition α} {r : Reading} :
      list ∈ n.conditionLists → c ∈ list → c.right = .reading r → Names n r.ticker
  | scaled {id : String} {reading : Reading} {lower upper : α} {fork : Fork α (Node α)} :
      Names (scaling id reading lower upper fork) reading.ticker
  | fallback {n : Node α} {cap : α} {t : String} :
      .capped cap (some t) ∈ n.weightings → t ≠ cashTicker → Names n t

theorem mem_heldTickers {n : Node α} {t : String} :
    t ∈ n.heldTickers ↔ t ≠ cashTicker ∧ ∃ id tickers, n = position id tickers ∧ t ∈ tickers := by
  cases n with
  | position id tickers => simp [heldTickers, and_comm]
  | _ => simp [heldTickers]

/-- The tickers of the conditions of a node, and that of a scaling. -/
theorem mem_readTickers_iff {n : Node α} {t : String} :
    t ∈ n.readTickers ↔ (∃ list ∈ n.conditionLists, ∃ c ∈ list, t ∈ c.tickers) ∨
      ∃ id reading lower upper fork, n = scaling id reading lower upper fork ∧
        reading.ticker = t := by
  cases n <;> simp [readTickers, conditionLists, or_and_right, exists_or, eq_comm]

theorem mem_conditionTickers {c : Condition α} {t : String} :
    t ∈ c.tickers ↔ c.left.ticker = t ∨ ∃ r, c.right = .reading r ∧ r.ticker = t := by
  rw [Condition.tickers]
  cases c.right <;> simp [eq_comm]

theorem fallback_eq_some {w : Weighting α} {t : String} :
    w.fallback? = some t ↔ t ≠ cashTicker ∧ ∃ cap, w = .capped cap (some t) := by
  cases w with
  | capped cap fallback =>
      cases fallback with
      | none => simp [Weighting.fallback?]
      | some ticker =>
          by_cases hcash : ticker = cashTicker
          · simp [Weighting.fallback?, hcash, eq_comm]
          · simp only [Weighting.fallback?, hcash, if_false, Option.some.injEq,
              Weighting.capped.injEq]
            constructor
            · rintro rfl
              exact ⟨hcash, cap, rfl, rfl⟩
            · rintro ⟨-, -, -, rfl⟩
              rfl
  | _ => simp [Weighting.fallback?]

/-- The tickers that a collection takes from a node are those that the node names. -/
theorem mem_ownTickers_iff {n : Node α} {t : String} : t ∈ n.ownTickers ↔ n.Names t := by
  rw [ownTickers, List.mem_append, List.mem_append, mem_heldTickers, mem_readTickers_iff,
    List.mem_filterMap]
  constructor
  · rintro ((⟨hcash, id, tickers, rfl, ht⟩ | hread) | ⟨w, hw, hfallback⟩)
    · exact .held ht hcash
    · rcases hread with ⟨list, hl, c, hc, ht⟩ | ⟨id, reading, lower, upper, fork, rfl, rfl⟩
      · rcases mem_conditionTickers.1 ht with rfl | ⟨r, hr, rfl⟩
        · exact .left hl hc
        · exact .right hl hc hr
      · exact .scaled
    · obtain ⟨hcash, cap, rfl⟩ := fallback_eq_some.1 hfallback
      exact .fallback hw hcash
  · intro h
    cases h with
    | held ht hcash => exact .inl (.inl ⟨hcash, _, _, rfl, ht⟩)
    | left hl hc => exact .inl (.inr (.inl ⟨_, hl, _, hc, mem_conditionTickers.2 (.inl rfl)⟩))
    | right hl hc hr =>
        exact .inl (.inr (.inl ⟨_, hl, _, hc, mem_conditionTickers.2 (.inr ⟨_, hr, rfl⟩)⟩))
    | scaled => exact .inl (.inr (.inr ⟨_, _, _, _, _, rfl, rfl⟩))
    | fallback hw hcash => exact .inr ⟨_, hw, fallback_eq_some.2 ⟨hcash, _, rfl⟩⟩

section Depth
variable {chains : Table (Node α)} {own : Node α → List String}
  {enter enter' : Node α → Collected → Collected} (hcall : ∀ id chain, own (call id chain) = [])
include hcall

/-- Collections that enter chains alike are alike, as far as calls are nested. -/
theorem collect_congr {reserve : Nat} (hgathers : ∀ root, Gathers chains own reserve enter root)
    (hsame : ∀ root (c : Collected), c.Valid chains →
      chains.keys.length < reserve + c.entered.length → enter root c = enter' root c)
    (n : Node α) {c : Collected} (hc : c.Valid chains)
    (hdepth : chains.keys.length < reserve + 1 + c.entered.length) :
    n.collect chains own enter c = n.collect chains own enter' c := by
  induction n using induction_on generalizing c with
  | step n ih =>
      cases hcallee : n.callee? with
      | none =>
          have hall {ns : List (Node α)} (hns : ∀ m ∈ ns, m ∈ n.children) {c : Collected}
              (hc : c.Valid chains) (hdepth : chains.keys.length < reserve + 1 + c.entered.length) :
              collectAll chains own enter ns c = collectAll chains own enter' ns c := by
            induction ns generalizing c with
            | nil => rfl
            | cons m rest ihrest =>
                obtain ⟨hm, hrest⟩ := List.forall_mem_cons.1 hns
                obtain ⟨hprogress, -⟩ := gathers_collect hcall hgathers m hc hdepth
                have hlength := hprogress.length_le hc
                rw [collectAll, collectAll, List.foldl_cons, List.foldl_cons, ← ih m hm hc hdepth]
                exact ihrest hrest hprogress.valid (by omega)
          rw [collect_eq hcallee, collect_eq hcallee]
          exact hall (fun _ hm => hm) ⟨hc.nodup, hc.known⟩ hdepth
      | some chain =>
          obtain ⟨id, rfl⟩ := eq_call_of_callee hcallee
          simp only [collect]
          split
          · rfl
          · next root hroot =>
              split
              · rfl
              · next hnew =>
                  refine hsame root _ ?_ (by rw [List.length_cons]; omega)
                  exact ⟨List.nodup_cons.2 ⟨hnew, hc.nodup⟩,
                    List.cons_subset.2 ⟨Table.mem_keys_iff.2 ⟨root, hroot⟩, hc.known⟩⟩

/-- Two depths that both exceed the number of chains not entered yet are alike. -/
theorem collectFrom_congr {beyond beyond' : Node α → Collected → Collected} {depth depth' : Nat}
    (n : Node α) {c : Collected} (hc : c.Valid chains)
    (hdepth : chains.keys.length < depth + c.entered.length)
    (hdepth' : chains.keys.length < depth' + c.entered.length) :
    n.collectFrom chains own beyond depth c = n.collectFrom chains own beyond' depth' c := by
  induction depth generalizing depth' n c with
  | zero =>
      have := hc.nodup.length_le_of_subset hc.known
      omega
  | succ depth ih =>
      obtain _ | depth' := depth'
      · have := hc.nodup.length_le_of_subset hc.known
        omega
      have hgathers (root : Node α) : Gathers chains own (min depth depth')
          (collectFrom chains own beyond depth) root :=
        fun hc hd => gathers_collectFrom hcall beyond depth root hc (by omega)
      refine collect_congr hcall hgathers (fun root c hc hd => ?_) n hc (by omega)
      exact ih root hc (by omega) (by omega)

/-- A collection from a node ends above the number of chains, and no chain is entered twice. -/
theorem collectFrom_deep (beyond : Node α → Collected → Collected) {depth : Nat}
    (hdepth : chains.keys.length < depth) (n : Node α) :
    (n.collectFrom chains own beyond depth .start).tickers = n.reachableTickers chains own ∧
      (n.collectFrom chains own beyond depth .start).entered.Nodup := by
  have hstart : Collected.start.Valid chains := ⟨List.nodup_nil, List.nil_subset _⟩
  have hchains : chains.keys.length < chains.entries.length + 1 := by
    rw [Table.keys, List.length_map]
    omega
  constructor
  · rw [reachableTickers, ← collectFrom_unchanged,
      collectFrom_congr hcall n hstart hdepth hchains]
  · exact (gathers_collectFrom hcall beyond depth n hstart hdepth).1.valid.nodup

end Depth

theorem mem_positionTickers_iff {chains : Table (Node α)} {n : Node α} {t : String} :
    t ∈ (n.positionTickers chains).keys ↔ t ≠ cashTicker ∧
      ∃ id tickers, n.Reaches chains (position id tickers) ∧ t ∈ tickers := by
  rw [mem_positionTickers]
  constructor
  · rintro ⟨d, hd, ht⟩
    obtain ⟨hcash, id, tickers, rfl, hheld⟩ := mem_heldTickers.1 ht
    exact ⟨hcash, id, tickers, hd, hheld⟩
  · rintro ⟨hcash, id, tickers, hd, ht⟩
    exact ⟨_, hd, mem_heldTickers.2 ⟨hcash, id, tickers, rfl, ht⟩⟩

end Node

namespace Strategy

/-- Collecting tickers is reachability, whatever the calls of a strategy. From any node, the
tickers of positions are those that the positions reached hold, without cash, and the anchors
are those that the nodes reached from the root name. Both collections end above the number of
chains, whatever they would do there, and enter no chain twice. -/
theorem collection_is_reachability (s : Strategy α) :
    (∀ (n : Node α) t, t ∈ (n.positionTickers s.chains).keys ↔ t ≠ cashTicker ∧
      ∃ id tickers, n.Reaches s.chains (.position id tickers) ∧ t ∈ tickers) ∧
    (∀ t, t ∈ s.anchorTickers.keys ↔ ∃ d, s.root.Reaches s.chains d ∧ d.Names t) ∧
    ∀ beyond depth, s.chains.keys.length < depth →
      (∀ n : Node α,
        (n.collectFrom s.chains Node.heldTickers beyond depth .start).tickers =
          n.positionTickers s.chains ∧
        (n.collectFrom s.chains Node.heldTickers beyond depth .start).entered.Nodup) ∧
      (s.root.collectFrom s.chains Node.ownTickers beyond depth .start).tickers =
        s.anchorTickers ∧
      (s.root.collectFrom s.chains Node.ownTickers beyond depth .start).entered.Nodup := by
  refine ⟨fun n t => Node.mem_positionTickers_iff, fun t => ?_, fun beyond depth hdepth => ?_⟩
  · rw [mem_anchorTickers]
    simp only [Node.mem_ownTickers_iff]
  · exact ⟨fun n => Node.collectFrom_deep (fun _ _ => rfl) beyond hdepth n,
      Node.collectFrom_deep (fun _ _ => rfl) beyond hdepth s.root⟩

/-- Two chains that call each other, one of them from a ladder, and a call that leads nowhere. -/
def sampleRing : Strategy Nat where
  name := "ring"
  root := .basic "root" (.capped 1 (some "SHY")) [some (.call "a" "outer"), some (.call "b" "lost")]
  chains := Table.ofList
    [("outer", .basic "c" .equal [some (.call "d" "inner"), some (.position "e" ["SPY", "Empty"])]),
      ("inner", .numbered "f" [] .ladder ⟨.equal, .equal, [none], [some (.position "g" ["QQQ"])]⟩
        [[some (.call "h" "outer")]])]

theorem sampleRing_collected :
    sampleRing.anchorTickers.keys = ["QQQ", "SHY", "SPY"] ∧
      (∃ d, sampleRing.root.Reaches sampleRing.chains d ∧ d.Names "SHY") ∧
      (∃ id tickers, Node.Reaches sampleRing.chains (.call "d" "inner") (.position id tickers) ∧
        "SPY" ∈ tickers) ∧
      (sampleRing.root.collectFrom sampleRing.chains Node.ownTickers (fun _ _ => .start) 3
        .start).tickers = sampleRing.anchorTickers := by
  obtain ⟨hpositions, hanchors, hends⟩ := collection_is_reachability sampleRing
  have hkeys : sampleRing.anchorTickers.keys = ["QQQ", "SHY", "SPY"] := rfl
  have hspy : "SPY" ∈ ((Node.call "d" "inner").positionTickers sampleRing.chains).keys := by
    decide +kernel
  exact ⟨hkeys, (hanchors "SHY").1 (by simp [hkeys]), ((hpositions _ "SPY").1 hspy).2,
    (hends _ 3 (by decide)).2.1⟩

end Strategy
end StrategyTree
