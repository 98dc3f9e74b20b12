import StrategyTree.Proofs.Strategy.CallGraph
import StrategyTree.Proofs.Strategy.Walk
/-!
# Search by marks

The check of the call graph is a depth-first search in three colours: a chain has no
mark, is being visited, or is done. One table of marks and one path go through the
whole search, over all chains it starts from. The chains being visited are those on
the path, so the list of chains that are done says all that the marks say. The path
has no chain twice, so the search never goes deeper than there are chains, and what
it would do there does not matter.
-/
namespace StrategyTree

open Outcome Relation

variable {α : Type}

namespace Node

/-- A node stands in the tree of another, in whatever slots. -/
def Contains : Node α → Node α → Prop :=
  ReflTransGen fun n c => c ∈ n.children

theorem mem_walk_iff {n d : Node α} : d ∈ n.walk ↔ n.Contains d := by
  constructor
  · intro hd
    induction n using induction_on with
    | step n ih =>
        rcases mem_walk.1 hd with rfl | ⟨c, hc, hd⟩
        · exact .refl
        · exact .head hc (ih c hc hd)
  · intro h
    induction h with
    | refl => exact n.mem_walk_self
    | tail _ hc ih => exact walk_subset ih (mem_walk_of_child hc)

theorem mem_calls_iff {n : Node α} {chain : String} :
    chain ∈ n.calls ↔ ∃ id, n.Contains (call id chain) := by
  rw [calls, List.mem_filterMap]
  constructor
  · rintro ⟨d, hd, hcallee⟩
    cases d with
    | call id callee =>
        obtain rfl : callee = chain := Option.some.inj hcallee
        exact ⟨id, mem_walk_iff.1 hd⟩
    | _ => cases hcallee
  · rintro ⟨id, h⟩
    exact ⟨call id chain, mem_walk_iff.2 h, rfl⟩

end Node

namespace CallGraph

theorem calls_iff {chains : Table (Node α)} {caller callee : String} :
    Calls chains caller callee ↔
      ∃ root id, chains.get? caller = some root ∧ root.Contains (.call id callee) := by
  rw [Calls, edges]
  cases hroot : chains.get? caller with
  | none => simp
  | some root => simp [Node.mem_calls_iff]

inductive Mark where
  | visiting
  | done

/-- What the search in three colours carries along. -/
structure Search where
  marks : Table Mark
  path : List String

namespace Search

def start : Search := ⟨.empty, []⟩

def enter (s : Search) (id : String) : Search :=
  ⟨s.marks.insert id .visiting, s.path ++ [id]⟩

def leave (s : Search) (id : String) : Search :=
  ⟨s.marks.insert id .done, s.path.dropLast⟩

/-- The marks of a search on a path with given chains done. -/
structure Shows (path done : List String) (s : Search) : Prop where
  path_eq : s.path = path
  marks (id : String) : s.marks.get? id =
    if id ∈ done then some .done else if id ∈ path then some .visiting else none

namespace Shows

variable {path done : List String} {s : Search} {id : String}

theorem start : Shows [] [] .start :=
  ⟨rfl, fun _ => by simp [Search.start]⟩

theorem enter (h : Shows path done s) (hnew : id ∉ done) :
    Shows (path ++ [id]) done (s.enter id) := by
  refine ⟨by rw [Search.enter, h.path_eq], fun other => ?_⟩
  rw [Search.enter, Table.get?_insert, h.marks]
  by_cases heq : other = id
  · simp [heq, hnew]
  · simp [heq]

/-- A chain that is left is done, and the path is again what it was. -/
theorem leave (h : Shows (path ++ [id]) done s) : Shows path (id :: done) (s.leave id) := by
  refine ⟨by rw [Search.leave, h.path_eq, List.dropLast_concat], fun other => ?_⟩
  rw [Search.leave, Table.get?_insert, h.marks]
  by_cases heq : other = id
  · simp [heq]
  · simp [heq]

end Shows
end Search

/-- Searches from a chain by marks, at most `depth` deep. What lies deeper is searched by
`beyond`. -/
def visitMarking (edges : String → List String)
    (beyond : Search → String → Except Failure Search) :
    Nat → Search → String → Except Failure Search
  | 0, s, id => beyond s id
  | depth + 1, s, id =>
      match s.marks.get? id with
      | some .done => .ok s
      | some .visiting => .error (.callCycle id s.path)
      | none => do
          let inner ← (edges id).foldlM (visitMarking edges beyond depth) (s.enter id)
          return inner.leave id

def checkMarking (chains : Table (Node α)) (beyond : Search → String → Except Failure Search)
    (depth : Nat) : Except Failure Unit := do
  let _ ← chains.keys.foldlM (visitMarking (edges chains) beyond depth) .start

/-- Two searches with the same failure, or with answers that are related. -/
inductive Agrees {β γ : Type} (rel : β → γ → Prop) :
    Except Failure β → Except Failure γ → Prop where
  | ok {b : β} {c : γ} : rel b c → Agrees rel (.ok b) (.ok c)
  | error (e : Failure) : Agrees rel (.error e) (.error e)

namespace Agrees

variable {β γ : Type} {rel : β → γ → Prop}

theorem eq {x y : Except Failure β} (h : Agrees (fun b c => b = c) x y) : x = y := by
  cases h with
  | ok hbc => rw [hbc]
  | error => rfl

theorem bind {β' γ' : Type} {next : β' → γ' → Prop} {x : Except Failure β}
    {y : Except Failure γ} {f : β → Except Failure β'} {g : γ → Except Failure γ'}
    (h : Agrees rel x y) (hf : ∀ b c, rel b c → Agrees next (f b) (g c)) :
    Agrees next (x >>= f) (y >>= g) := by
  cases h with
  | ok hbc => exact hf _ _ hbc
  | error e => exact .error e

/-- Searches from one chain after the other agree if those from each chain do. -/
theorem foldlM {f : β → String → Except Failure β} {g : γ → String → Except Failure γ}
    {ids : List String} (hstep : ∀ id b c, rel b c → Agrees rel (f b id) (g c id))
    {b : β} {c : γ} (h : rel b c) : Agrees rel (ids.foldlM f b) (ids.foldlM g c) := by
  induction ids generalizing b c with
  | nil => exact .ok h
  | cons id rest ih =>
      rw [List.foldlM_cons, List.foldlM_cons]
      exact (hstep id b c h).bind fun _ _ => ih

end Agrees

/-- Both depths exceed the number of chains that are not on the path, so neither is used up. -/
theorem visitMarking_agrees {edges : String → List String} {keys : List String}
    {beyond : Search → String → Except Failure Search}
    (hkeys : ∀ id, id ∉ keys → edges id = []) {depth depth' : Nat} {path done : List String}
    {s : Search} {id : String} (hnodup : path.Nodup) (hsub : path ⊆ keys)
    (hdepth : keys.length < depth + path.length) (hdepth' : keys.length < depth' + path.length)
    (h : s.Shows path done) :
    Agrees (fun s done => s.Shows path done) (visitMarking edges beyond depth s id)
      (visit edges depth' path done id) := by
  have hfits := hnodup.length_le_of_subset hsub
  induction depth generalizing depth' path done s id with
  | zero => omega
  | succ depth ih =>
      obtain _ | depth' := depth'
      · omega
      rw [visitMarking, visit, h.marks]
      by_cases hdone : id ∈ done
      · simpa [hdone] using .ok h
      by_cases hpath : id ∈ path
      · simpa [hdone, hpath, h.path_eq] using .error _
      simp only [hdone, hpath, if_false]
      have hbelow : Agrees (fun s done => s.Shows (path ++ [id]) done)
          ((edges id).foldlM (visitMarking edges beyond depth) (s.enter id))
          ((edges id).foldlM (visit edges depth' (path ++ [id])) done) := by
        by_cases hk : id ∈ keys
        · have hnodup' : (path ++ [id]).Nodup := by simpa using hnodup.concat hpath
          have hsub' : path ++ [id] ⊆ keys := List.append_subset.2 ⟨hsub, by simpa using hk⟩
          have hlength : (path ++ [id]).length = path.length + 1 := by simp
          refine .foldlM (fun _ _ _ hs => ?_) (h.enter hdone)
          exact ih hnodup' hsub' (by omega) (by omega) hs (hnodup'.length_le_of_subset hsub')
        · rw [hkeys id hk]
          exact .ok (h.enter hdone)
      exact hbelow.bind fun _ _ hs => .ok hs.leave

/-- The search by marks ends above the number of chains, and decides as the check does. -/
theorem checkMarking_eq (chains : Table (Node α))
    (beyond : Search → String → Except Failure Search) {depth : Nat}
    (hdepth : chains.keys.length < depth) : checkMarking chains beyond depth = check chains := by
  have h : Agrees (fun s done => s.Shows [] done)
      (chains.keys.foldlM (visitMarking (edges chains) beyond depth) .start)
      (chains.keys.foldlM (visit (edges chains) (chains.keys.length + 2) []) []) := by
    refine .foldlM (fun _ _ _ hs => ?_) .start
    exact visitMarking_agrees (fun _ => edges_eq_nil) List.nodup_nil (List.nil_subset _)
      (by simpa using hdepth) (by simp) hs
  exact (h.bind fun _ _ _ => .ok rfl).eq

/-- The last chain of a walk that leads to a chain calls it. -/
theorem calls_of_getLast {chains : Table (Node α)} {path : List String} {chain : String}
    (hmem : chain ∈ path) (h : (path ++ [chain]).IsChain (Calls chains)) :
    path.IsChain (Calls chains) ∧ ∃ last, path.getLast? = some last ∧ Calls chains last chain := by
  obtain ⟨before, last, rfl⟩ : ∃ before last, path = before ++ [last] := by
    rcases List.eq_nil_or_concat path with rfl | h
    · cases hmem
    · simpa using h
  rw [List.append_assoc, List.singleton_append, List.isChain_split] at h
  exact ⟨h.1, last, List.getLast?_concat, by simpa using h.2⟩

/-- The check finds exactly the cycles among chains. It comes out as the search by marks
does, which ends whatever is done beyond its depth. It accepts the chains of which none
reaches itself by calls. A refusal names a walk along calls, and a chain of it that its
last chain calls. -/
theorem check_finds_cycles (chains : Table (Node α)) :
    (∀ caller callee, Calls chains caller callee ↔
      ∃ root id, chains.get? caller = some root ∧ root.Contains (.call id callee)) ∧
    (∀ beyond depth, chains.keys.length < depth →
      checkMarking chains beyond depth = check chains) ∧
    (check chains = .ok () ↔ ∀ chain, ¬ TransGen (Calls chains) chain chain) ∧
    ∀ e, check chains = .error e → ∃ chain path last, e = .callCycle chain path ∧
      path.IsChain (Calls chains) ∧ chain ∈ path ∧
      path.getLast? = some last ∧ Calls chains last chain ∧
      TransGen (Calls chains) chain chain := by
  refine ⟨fun _ _ => calls_iff, fun beyond _ => checkMarking_eq chains beyond, check_ok_iff, ?_⟩
  intro e he
  obtain ⟨chain, path, rfl, hmem, hwalk⟩ := check_error he
  obtain ⟨hpath, last, hlast, hcall⟩ := calls_of_getLast hmem hwalk
  exact ⟨chain, path, last, rfl, hpath, hmem, hlast, hcall, transGen_of_isChain hmem hwalk⟩

/-- A chain that calls two others, both of which call a last one. -/
def sampleDiamond (last : Node Nat) : Table (Node Nat) :=
  Table.ofList [("top", .basic "1" .equal [some (.call "2" "left"), some (.call "3" "right")]),
    ("left", .call "4" "last"), ("right", .call "5" "last"), ("last", last)]

theorem sampleDiamond_checked :
    (∀ chain, ¬ TransGen (Calls (sampleDiamond (.position "6" ["SPY"]))) chain chain) ∧
      checkMarking (sampleDiamond (.position "6" ["SPY"])) (fun _ _ => throw .emptyAnchors) 5 =
        .ok () ∧
      check (sampleDiamond (.call "6" "right")) = .error (.callCycle "last" ["last", "right"]) ∧
      TransGen (Calls (sampleDiamond (.call "6" "right"))) "last" "last" := by
  obtain ⟨-, hmarks, hok, -⟩ := check_finds_cycles (sampleDiamond (.position "6" ["SPY"]))
  have haccepted : check (sampleDiamond (.position "6" ["SPY"])) = .ok () := rfl
  have hrefused : check (sampleDiamond (.call "6" "right")) =
      .error (.callCycle "last" ["last", "right"]) := rfl
  obtain ⟨-, -, -, hcycles⟩ := check_finds_cycles (sampleDiamond (.call "6" "right"))
  obtain ⟨chain, path, last, he, -, -, -, -, hcycle⟩ := hcycles _ hrefused
  cases he
  exact ⟨hok.1 haccepted, (hmarks _ 5 (by decide)).trans haccepted, hrefused, hcycle⟩

end CallGraph
end StrategyTree
