import StrategyTree.Proofs.Condition.Signal
import StrategyTree.Proofs.Evaluation.Memory
import StrategyTree.Proofs.Evaluation.Safety
import StrategyTree.Proofs.Evaluation.Tracing
/-!
# Evaluating a day again

An evaluation keeps what it asks for: series, signals, candidates, and the flags that
it decides on a day. None of them changes later on the day. So from every state that
keeps as much as a run has left, the run has the same outcome once more and leaves
that state as it is. A run that fails does so again from the state in which it has
failed, whatever the strategy.
-/
namespace StrategyTree

variable {α β γ : Type}

/-! ### Caches -/

namespace IndicatorCache

/-- Every series of the first cache is in the second. -/
def KeptBy (c d : IndicatorCache α) : Prop :=
  ∀ ticker i xs, c.find? ticker i = some xs → d.find? ticker i = some xs

theorem KeptBy.refl (c : IndicatorCache α) : c.KeptBy c :=
  fun _ _ _ h => h

theorem KeptBy.trans {c d e : IndicatorCache α} (h : c.KeptBy d) (h' : d.KeptBy e) : c.KeptBy e :=
  fun ticker i xs hfind => h' ticker i xs (h ticker i xs hfind)

section
variable [Arith α] {m : PriceMatrix α} {ticker : String} {i : Indicator} {c : IndicatorCache α}

theorem series_found {xs : Series α} (h : c.find? ticker i = some xs) :
    c.series m ticker i = (xs, c) := by
  simp only [series, h]

theorem series_computed (h : c.find? ticker i = none) : c.series m ticker i =
    (m.indicator ticker i, ⟨((ticker, i), m.indicator ticker i) :: c.entries⟩) := by
  simp only [series, h]

end

variable [Arith α] (m : PriceMatrix α) (ticker : String) (i : Indicator)

theorem find?_series (c : IndicatorCache α) :
    (c.series m ticker i).2.find? ticker i = some (c.series m ticker i).1 := by
  cases h : c.find? ticker i with
  | some xs => rw [series_found h, h]
  | none =>
      rw [series_computed h]
      simp [find?]

theorem keptBy_series (c : IndicatorCache α) : c.KeptBy (c.series m ticker i).2 := by
  cases h : c.find? ticker i with
  | some xs =>
      rw [series_found h]
      exact .refl c
  | none =>
      intro ticker' i' xs hfind
      have hne : ((ticker', i') == (ticker, i)) = false := by
        refine beq_false_of_ne fun heq => ?_
        obtain ⟨rfl, rfl⟩ := Prod.mk.inj heq
        rw [h] at hfind
        cases hfind
      rw [series_computed h, find?, List.lookup_cons, hne]
      exact hfind

end IndicatorCache

namespace Measured

/-- A computation that keeps the series of the cache, and that does nothing but answer the same
on every cache that keeps what it has left. -/
def Retraces (x : Measured α β) : Prop :=
  ∀ c : IndicatorCache α, c.KeptBy (x c).2 ∧
    ∀ d : IndicatorCache α, (x c).2.KeptBy d → x d = ((x c).1, d)

theorem Retraces.result (b : β) : Retraces (pure b : Measured α β) :=
  fun c => ⟨.refl c, fun _ _ => rfl⟩

theorem Retraces.ofExcept (r : Except Failure β) : Retraces (liftM r : Measured α β) :=
  fun c => ⟨.refl c, fun _ _ => rfl⟩

theorem Retraces.bind {x : Measured α β} {f : β → Measured α γ} (hx : Retraces x)
    (hf : ∀ b, Retraces (f b)) : Retraces (x >>= f) := by
  intro c
  obtain ⟨hgrows, hagain⟩ := hx c
  rcases hrun : x c with ⟨r, c'⟩
  rw [hrun] at hgrows hagain
  cases r with
  | ok b =>
      obtain ⟨hgrows', hagain'⟩ := hf b c'
      rw [Outcome.run_bind_ok hrun]
      refine ⟨hgrows.trans hgrows', fun d hd => ?_⟩
      rw [Outcome.run_bind_ok (hagain d (hgrows'.trans hd))]
      exact hagain' d hd
  | error e =>
      rw [Outcome.run_bind_error hrun]
      exact ⟨hgrows, fun d hd => Outcome.run_bind_error (hagain d hd)⟩

theorem Retraces.map {x : Measured α β} (h : Retraces x) (f : β → γ) : Retraces (f <$> x) := by
  rw [map_eq_pure_bind]
  exact h.bind fun b => .result (f b)

variable [Arith α] (m : PriceMatrix α)

theorem retraces_series (ticker : String) (i : Indicator) :
    Retraces (ExceptT.lift fun c => c.series m ticker i) := by
  refine fun c => ⟨IndicatorCache.keptBy_series m ticker i c, fun d hd => ?_⟩
  have hfind := hd _ _ _ (IndicatorCache.find?_series m ticker i c)
  change (let p := d.series m ticker i; (Except.ok p.1, p.2)) = _
  rw [IndicatorCache.series_found hfind]
  rfl

theorem retraces_value (ticker : String) (i : Indicator) (day : Nat) :
    Retraces (ExceptT.lift fun c => c.value m ticker i day) :=
  (retraces_series m ticker i).map fun xs => xs.at? day

end Measured

namespace Condition

open Measured

variable [Arith α] (m : PriceMatrix α)

theorem retraces_reading (r : Reading) : Retraces (r.series m) :=
  (Retraces.ofExcept r.indicator).bind fun i => retraces_series m r.ticker i

theorem retraces_listSignal (list : List (Condition α)) : Retraces (listSignal m list) := by
  have hlasting : Lasting (α := α) fun _ x => Retraces x := ⟨.result, .bind⟩
  exact listSignal_lasts hlasting (retraces_reading m) list

end Condition

/-! ### Runs -/

/-- The second state keeps what the first one does, on a day: of the flags, those that were
decided on that day. -/
structure RunState.KeptBy (day : Nat) (s t : RunState α) : Prop where
  cache : s.cache.KeptBy t.cache
  signals {key : String} {signal : Signal} : s.signals.get? key = some signal →
    t.signals.get? key = some signal
  candidates {id : String} {tickers : List String} : s.candidates.get? id = some tickers →
    t.candidates.get? id = some tickers
  holds {id : String} {hold : Hold} : s.holds.get? id = some hold → hold.lastDay = some day →
    t.holds.get? id = some hold

namespace RunState.KeptBy

variable {day : Nat} {s t u : RunState α}

theorem refl (s : RunState α) : s.KeptBy day s :=
  ⟨.refl _, fun h => h, fun h => h, fun h _ => h⟩

theorem trans (h : s.KeptBy day t) (h' : t.KeptBy day u) : s.KeptBy day u where
  cache := h.cache.trans h'.cache
  signals hs := h'.signals (h.signals hs)
  candidates hs := h'.candidates (h.candidates hs)
  holds hs hday := h'.holds (h.holds hs hday) hday

end RunState.KeptBy

theorem RunState.withPath_self {s : RunState α} {path : List String} (h : s.path = path) :
    { s with path } = s := by
  cases s
  subst h
  rfl

/-- What a run on a path does from a state: it puts the path back, and it has the same outcome,
without doing anything more, from every state that keeps what it leaves, or, if it fails, from
the state that it leaves. -/
structure Run.Retraced (day : Nat) (path : List String) (good : β → Prop) (x : Run α β)
    (s : RunState α) : Prop where
  path_eq : (x s).2.path = path
  keeps : s.KeptBy day (x s).2
  ok {b : β} : (x s).1 = .ok b → good b ∧
    ∀ t : RunState α, (x s).2.KeptBy day t → t.path = path → x t = (.ok b, t)
  error {e : Failure} : (x s).1 = .error e → x (x s).2 = (.error e, (x s).2)

namespace Run.Retraced

variable {day : Nat} {path : List String} {good : β → Prop} {x : Run α β} {s t : RunState α}

theorem of_ok {b : β} (hrun : x s = (.ok b, t)) (hpath : t.path = path) (hkeeps : s.KeptBy day t)
    (hgood : good b) (hagain : ∀ u : RunState α, t.KeptBy day u → u.path = path → x u = (.ok b, u)) :
    Retraced day path good x s := by
  constructor <;> rw [hrun]
  case path_eq => exact hpath
  case keeps => exact hkeeps
  case ok =>
    intro b' hb
    obtain rfl := Except.ok.inj hb
    exact ⟨hgood, hagain⟩
  case error =>
    intro e he
    cases he

theorem of_error {e : Failure} (hrun : x s = (.error e, t)) (hpath : t.path = path)
    (hkeeps : s.KeptBy day t) (hagain : x t = (.error e, t)) : Retraced day path good x s := by
  constructor <;> rw [hrun]
  case path_eq => exact hpath
  case keeps => exact hkeeps
  case ok =>
    intro b hb
    cases hb
  case error =>
    intro e' he
    obtain rfl := Except.error.inj he
    exact hagain

theorem again (h : Retraced day path good x s) : x (x s).2 = x s := by
  obtain ⟨hpath, -, hok, herror⟩ := h
  rcases hrun : x s with ⟨r, t⟩
  rw [hrun] at hpath hok herror
  cases r with
  | ok b => exact (hok rfl).2 t (.refl t) hpath
  | error e => exact herror rfl

/-- Runs that do the same from every state on a path. -/
theorem congr {y : Run α β} (h : ∀ t : RunState α, t.path = path → y t = x t)
    (hx : Retraced day path good x s) (hpath : s.path = path) : Retraced day path good y s := by
  obtain ⟨htpath, hkeeps, hok, herror⟩ := hx
  rw [← h s hpath] at htpath hkeeps hok herror
  rw [← h _ htpath] at herror
  refine ⟨htpath, hkeeps, fun hb => ?_, herror⟩
  obtain ⟨hgood, hagain⟩ := hok hb
  exact ⟨hgood, fun t ht hpath => (h t hpath).trans (hagain t ht hpath)⟩

theorem result {b : β} (h : good b) (hpath : s.path = path) : Retraced day path good (pure b) s :=
  of_ok rfl hpath (.refl s) h fun _ _ _ => rfl

theorem failure {e : Failure} (hpath : s.path = path) : Retraced day path good (throw e) s :=
  of_error rfl hpath (.refl s) rfl

/-- The second run finds in the last state what the first step has left. -/
theorem bind {next : γ → Prop} {f : β → Run α γ} (hx : Retraced day path good x s)
    (hf : ∀ b, good b → ∀ t, t.path = path → Retraced day path next (f b) t) :
    Retraced day path next (x >>= f) s := by
  rcases hrun : x s with ⟨r, t⟩
  obtain ⟨htpath, hkeeps, hok, herror⟩ := hx
  rw [hrun] at htpath hkeeps hok herror
  cases r with
  | ok b =>
      obtain ⟨hgood, hagain⟩ := hok rfl
      obtain ⟨hupath, hkeeps', hok', herror'⟩ := hf b hgood t htpath
      have hretrace (u : RunState α) (hu : (f b t).2.KeptBy day u) (hupath : u.path = path) :
          (x >>= f) u = f b u :=
        Run.bind_ok (hagain u (hkeeps'.trans hu) hupath)
      have hbound : (x >>= f) s = f b t := Run.bind_ok hrun
      rcases hrest : f b t with ⟨r', t'⟩
      rw [hrest] at hupath hkeeps' hok' herror' hretrace
      cases r' with
      | ok c =>
          obtain ⟨hgood', hagain'⟩ := hok' rfl
          refine of_ok (hbound.trans hrest) hupath (hkeeps.trans hkeeps') hgood' fun u hu hpath => ?_
          exact (hretrace u hu hpath).trans (hagain' u hu hpath)
      | error e =>
          refine of_error (hbound.trans hrest) hupath (hkeeps.trans hkeeps') ?_
          exact (hretrace t' (.refl t') hupath).trans (herror' rfl)
  | error e =>
      exact of_error (Run.bind_error hrun) htpath hkeeps (Run.bind_error (herror rfl))

theorem measured {x : Measured α β} (h : Measured.Retraces x) (hpath : s.path = path) :
    Retraced day path (fun _ => True) (Run.measured x) s := by
  obtain ⟨hkept, hagain⟩ := h s.cache
  rcases hrun : x s.cache with ⟨r, c⟩
  rw [hrun] at hkept hagain
  have hmeasured : Run.measured x s = (r, { s with cache := c }) := by
    simp only [Run.measured, hrun]
  have hretrace (t : RunState α) (ht : c.KeptBy t.cache) : Run.measured x t = (r, t) := by
    simp only [Run.measured, hagain t.cache ht]
  have hkeeps : s.KeptBy day { s with cache := c } := ⟨hkept, fun h => h, fun h => h, fun h _ => h⟩
  cases r with
  | ok b => exact of_ok hmeasured hpath hkeeps trivial fun t ht _ => hretrace t ht.cache
  | error e => exact of_error hmeasured hpath hkeeps (hretrace _ (.refl c))

/-- Within a call the path is longer, and so it is when the call is retraced. -/
theorem inside {chain : String}
    (h : ∀ s, s.path = path ++ [chain] → Retraced day (path ++ [chain]) good x s)
    (hpath : s.path = path) : Retraced day path good (Run.inside chain x) s := by
  have hinside {s u : RunState α} {r : Except Failure β} (hpath : s.path = path)
      (hx : x { s with path := path ++ [chain] } = (r, u)) (hu : u.path = path ++ [chain]) :
      Run.inside chain x s = (r, { u with path := path }) := by
    rw [Run.inside, hpath, hx]
    dsimp only
    rw [hu, List.dropLast_concat]
  obtain ⟨hupath, hkeeps, hok, herror⟩ := h { s with path := path ++ [chain] } rfl
  rcases hrun : x { s with path := path ++ [chain] } with ⟨r, u⟩
  rw [hrun] at hupath hkeeps hok herror
  have hkept : s.KeptBy day { u with path := path } :=
    ⟨hkeeps.cache, hkeeps.signals, hkeeps.candidates, hkeeps.holds⟩
  cases r with
  | ok b =>
      obtain ⟨hgood, hagain⟩ := hok rfl
      refine of_ok (hinside hpath hrun hupath) rfl hkept hgood fun t ht htpath => ?_
      have hdeeper : u.KeptBy day { t with path := path ++ [chain] } :=
        ⟨ht.cache, ht.signals, ht.candidates, ht.holds⟩
      rw [hinside htpath (hagain _ hdeeper rfl) rfl, ← htpath]
  | error e =>
      refine of_error (hinside hpath hrun hupath) rfl hkept (hinside rfl ?_ hupath)
      rw [← hupath]
      exact herror rfl

end Run.Retraced

/-- Runs that can be retraced. What is visited along them is of no account. -/
def Run.retracing (day : Nat) (path : List String) : Run.Tracing α where
  rel good x _ := ∀ s, s.path = path → Run.Retraced day path good x s
  tolerates _ := True
  result h _ hpath := .result h hpath
  failure _ _ hpath := .failure hpath
  bind hx hf := by exact fun s hpath => (hx s hpath).bind hf

/-! ### Answers -/

namespace Sources

theorem holds_kept (x : Measured α Signal) (key : String) (s : RunState α) :
    (kept x key s).2.holds = s.holds := by
  cases h : s.signals.get? key with
  | some signal => rw [kept_found h]
  | none =>
      rcases hx : x s.cache with ⟨r, c⟩
      cases r with
      | ok signal => rw [kept_computed h hx]
      | error e => rw [kept_failed h hx]

variable {day : Nat} {path : List String} {s : RunState α}

theorem retraced_kept {x : Measured α Signal} (hx : Measured.Retraces x) (key : String)
    (hpath : s.path = path) : Run.Retraced day path (fun _ => True) (kept x key) s := by
  cases h : s.signals.get? key with
  | some signal =>
      refine .of_ok (kept_found h) hpath (.refl s) trivial fun t ht _ => ?_
      exact kept_found (ht.signals h)
  | none =>
      obtain ⟨hcache, hagain⟩ := hx s.cache
      rcases hrun : x s.cache with ⟨r, c⟩
      rw [hrun] at hcache hagain
      cases r with
      | ok signal =>
          have hnew : (s.signals.insert key signal).get? key = some signal := 
            Table.get?_insert_self
          refine .of_ok (kept_computed h hrun) hpath ?_ trivial fun t ht _ => ?_
          · exact ⟨hcache, Table.get?_insert_new h, fun h => h, fun h _ => h⟩
          · exact kept_found (ht.signals hnew)
      | error e =>
          refine .of_error (kept_failed h hrun) hpath ?_ (kept_failed h (hagain c (.refl c)))
          exact ⟨hcache, fun h => h, fun h => h, fun h _ => h⟩

theorem retraced_candidates (chains : Table (Node α)) (n : Node α) (hpath : s.path = path) :
    Run.Retraced day path (fun _ => True) (rememberedCandidates chains n) s := by
  cases h : s.candidates.get? n.id with
  | some tickers =>
      refine .of_ok (candidates_found h) hpath (.refl s) trivial fun t ht _ => ?_
      exact candidates_found (ht.candidates h)
  | none =>
      refine .of_ok (candidates_collected h) hpath ?_ trivial fun t ht _ => ?_
      · exact ⟨.refl _, fun h => h, Table.get?_insert_new h, fun h _ => h⟩
      · exact candidates_found (ht.candidates Table.get?_insert_self)

variable [Arith α]

omit [Arith α] in
/-- A node that was decided on a day answers with its flag. -/
theorem decideHold_decided {src : Sources α} {id : String} {entry exit : List (Condition α)}
    {hold : Hold} (h : s.holds.get? id = some hold) (hday : hold.lastDay = some day) :
    src.decideHold day id entry exit s = (.ok hold.held, s) := by
  have hget : (get : Run α (RunState α)) s = (.ok s, s) := rfl
  rw [decideHold_eq, Run.bind_ok hget, h, decideFrom, Option.getD_some, if_pos hday]
  rfl

omit [Arith α] in
/-- What a node asks for that was not decided on a day, and what the verdict means, follows from
its flag alone. -/
theorem decideHold_asks (src : Sources α) {id : String} (entry exit : List (Condition α))
    (hday : ((s.holds.get? id).getD .start).lastDay ≠ some day) :
    ∃ key list, ∃ f : Verdict → Bool, ∀ t : RunState α, t.holds = s.holds →
      src.decideHold day id entry exit t =
        (do
          let held ← f <$> src.verdict key list
          modify fun s => { s with holds := s.holds.insert id ⟨held, some day⟩ }
          return held : Run α Bool) t := by
  have hget (t : RunState α) : (get : Run α (RunState α)) t = (.ok t, t) := rfl
  cases hheld : ((s.holds.get? id).getD .start).held with
  | true =>
      refine ⟨partKey id "exit", exit, (· != some true), fun t ht => ?_⟩
      rw [decideHold_eq, Run.bind_ok (hget t), ht, decideFrom, if_neg hday, if_pos hheld]
  | false =>
      refine ⟨partKey id "entry", entry, (· == some true), fun t ht => ?_⟩
      rw [decideHold_eq, Run.bind_ok (hget t), ht, decideFrom, if_neg hday, if_neg (by simp [hheld])]

variable (m : PriceMatrix α) (chains : Table (Node α))

theorem retraced_verdict (key : String) (list : List (Condition α)) (hpath : s.path = path) :
    Run.Retraced day path (fun _ => True) ((remembering m chains day).verdict key list) s := by
  rw [remembering_verdict]
  refine (retraced_kept (Condition.retraces_listSignal m list) key hpath).bind ?_
  exact fun signal _ t ht => .result trivial ht

theorem holds_verdict (key : String) (list : List (Condition α)) (s : RunState α) :
    ((remembering m chains day).verdict key list s).2.holds = s.holds := by
  have hholds := holds_kept (Condition.listSignal m list) key s
  rw [remembering_verdict]
  rcases hrun : kept (Condition.listSignal m list) key s with ⟨r, t⟩
  rw [hrun] at hholds
  cases r with
  | ok signal =>
      rw [Run.bind_ok hrun]
      exact hholds
  | error e =>
      rw [Run.bind_error hrun]
      exact hholds

/-- A node that was decided on a day is so on every later visit. One whose conditions have
failed has kept the flag that it had, so it asks for the same conditions again. -/
theorem retraced_decideHold (id : String) (entry exit : List (Condition α))
    (hpath : s.path = path) : Run.Retraced day path (fun _ => True)
      ((remembering m chains day).decideHold day id entry exit) s := by
  by_cases hday : ((s.holds.get? id).getD .start).lastDay = some day
  · obtain ⟨hold, hhold, hlast⟩ : ∃ hold, s.holds.get? id = some hold ∧
        hold.lastDay = some day := by
      cases h : s.holds.get? id with
      | some hold => exact ⟨hold, rfl, by rwa [h] at hday⟩
      | none =>
          rw [h] at hday
          cases hday
    refine .of_ok (decideHold_decided hhold hlast) hpath (.refl s) trivial fun t ht _ => ?_
    exact decideHold_decided (ht.holds hhold hlast) hlast
  · obtain ⟨key, list, f, hasks⟩ := decideHold_asks (remembering m chains day) entry exit hday
    have hretraced : Run.Retraced day path (fun _ => True)
        ((remembering m chains day).verdict key list) s := retraced_verdict m chains key list hpath
    obtain ⟨htpath, hkeeps, -, herror⟩ := hretraced
    have hholds : ((remembering m chains day).verdict key list s).2.holds = s.holds :=
      holds_verdict m chains key list s
    rcases hrun : (remembering m chains day).verdict key list s with ⟨r, t⟩
    rw [hrun] at htpath hkeeps herror hholds
    cases r with
    | ok v =>
        have hmap : (f <$> (remembering m chains day).verdict key list) s = (.ok (f v), t) := by
          rw [map_eq_pure_bind, Run.bind_ok hrun]
          rfl
        have hmoved : (remembering m chains day).decideHold day id entry exit s =
            (.ok (f v), { t with holds := t.holds.insert id ⟨f v, some day⟩ }) := by
          rw [hasks s rfl, Run.bind_ok hmap]
          rfl
        have hnew : (t.holds.insert id ⟨f v, some day⟩).get? id = some ⟨f v, some day⟩ :=
          Table.get?_insert_self
        refine .of_ok hmoved htpath ?_ trivial fun u hu _ => decideHold_decided (hu.holds hnew rfl) rfl
        refine ⟨hkeeps.cache, hkeeps.signals, hkeeps.candidates, fun {k hold} hhold hlast => ?_⟩
        have hne : k ≠ id := by
          rintro rfl
          exact hday (by rw [hhold]; exact hlast)
        change (t.holds.insert id _).get? k = some hold
        rw [Table.get?_insert, if_neg hne]
        exact hkeeps.holds hhold hlast
    | error e =>
        have hfails {u : RunState α} (hu : u.holds = s.holds)
            (hverdict : (remembering m chains day).verdict key list u = (.error e, t)) :
            (remembering m chains day).decideHold day id entry exit u = (.error e, t) := by
          rw [hasks u hu]
          refine Run.bind_error ?_
          rw [map_eq_pure_bind]
          exact Run.bind_error hverdict
        exact .of_error (hfails rfl hrun) htpath hkeeps (hfails hholds (herror rfl))

end Sources

/-! ### Days -/

variable [Arith α]

/-- Every evaluation of a strategy can be retraced, whatever its nodes and its calls. -/
def Sources.retracer (m : PriceMatrix α) (chains : Table (Node α)) (day : Nat) :
    Run.Tracer (.remembering m chains day) chains day where
  on := Run.retracing day
  covers _ _ := True
  child _ _ := trivial
  enter _ _ _ := trivial
  passes {_ n} _ _ :=
    { quiet := .of_questions (fun _ _ => trivial)
        (fun _ _ _ _ hpath => retraced_verdict m chains _ _ hpath)
        (fun _ _ _ hpath => .measured (Measured.retraces_value m _ _ day) hpath)
        fun _ _ hpath => retraced_candidates chains n hpath
      visit := fun _ h => h }
  decideHold _ _ hpath := retraced_decideHold m chains _ _ _ hpath
  congr h hx s hpath := .congr (fun t ht => (h t ht).1) (hx s hpath) hpath
  refuses _ _ _ _ hpath := .failure hpath
  enters _ _ hx _ hpath := .inside hx hpath

namespace Strategy

/-- A day that is evaluated again has the same outcome, a decision or a failure, and leaves what
is remembered and the held flags as they are, however often and whatever came before. So the
flags move on the first attempt at a day, and a failed day may be tried again. -/
theorem evaluateDay_idempotent (s : Strategy α) (m : PriceMatrix α) (day : Nat) :
    (∀ state : RunState α,
      s.evaluateDay m day (s.evaluateDay m day state).2 = s.evaluateDay m day state ∧
      (s.evaluateDay m day state).2.path = []) ∧
    ∀ days times, s.stateAfter m (days ++ List.replicate (times + 1) day) =
      s.stateAfter m (days ++ [day]) := by
  have hagain (state : RunState α) :
      s.evaluateDay m day (s.evaluateDay m day state).2 = s.evaluateDay m day state ∧
        (s.evaluateDay m day state).2.path = [] := by
    have hroot : Run.Retraced day [] (fun _ => True)
        (s.root.evaluateWithin (.remembering m s.chains day) s.chains day
          (s.chains.entries.length + 1) none) { state with path := [] } :=
      (Sources.retracer m s.chains day).told_within trivial _ none { state with path := [] } rfl
    have hday : Run.Retraced day [] (fun _ => True)
        (do return (← s.root.evaluateWithin (.remembering m s.chains day) s.chains day
          (s.chains.entries.length + 1) none).getD .empty : Run α (Allocation α))
        { state with path := [] } :=
      hroot.bind fun _ _ t ht => .result trivial ht
    rw [evaluateDay, evaluateDayWith_apply, evaluateDayWith_apply]
    refine ⟨?_, hday.path_eq⟩
    rw [RunState.withPath_self hday.path_eq]
    exact hday.again
  refine ⟨hagain, fun days times => ?_⟩
  induction times with
  | zero => rfl
  | succ times ih =>
      rw [List.replicate_succ', ← List.append_assoc, stateAfter_concat, ih, stateAfter_concat,
        (hagain _).1]

/-- A gate that opens, and would close again if it moved twice, before a call that leads
nowhere. -/
def sampleLost : Strategy Sample.Number where
  name := "lost"
  root := .basic "root" .equal
    [some (.altExit "g" [Sample.above "SPY" 3] [Sample.above "SPY" 4]
      (Sample.choose (Sample.hold "a" "SPY") (Sample.hold "b" "TLT"))),
      some (.call "c" "nowhere")]
  chains := .empty

example : (sampleLost.evaluateDay Sample.matrix 0 .start).1 = .error (.danglingCall "c" "nowhere") ∧
    (sampleLost.stateAfter Sample.matrix [0, 0]).isHeld "g" = true :=
  ⟨rfl, rfl⟩

end Strategy

end StrategyTree
