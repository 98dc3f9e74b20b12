import StrategyTree.Host
import StrategyTree.Proofs.Outcome
/-!
# Tasks of a session

A task reads if its answer depends on the disk alone and it leaves the disk as it is,
whatever lines it prints. Tasks that read can be put together, and then the answer is
that of their answers.
-/
namespace StrategyTree.Task

variable {β γ : Type}

/-- A task that answers by what is on the disk, and does not change it. -/
def Answers (x : Task (StateM Session) β) (r : Disk → Except Failure β) : Prop :=
  ∀ s : Session, ∃ t : Session, x s = (r s.disk, t) ∧ t.disk = s.disk

/-- The answer of a task in a new session. -/
def onDisk (x : Task (StateM Session) β) (d : Disk) : Except Failure β :=
  (x (Session.start d)).1

def Reads (x : Task (StateM Session) β) : Prop :=
  x.Answers x.onDisk

variable {x : Task (StateM Session) β} {f : β → Task (StateM Session) γ}
  {r : Disk → Except Failure β} {q : β → Disk → Except Failure γ}

theorem Answers.onDisk (h : x.Answers r) : x.onDisk = r := by
  funext d
  obtain ⟨t, ht, -⟩ := h (Session.start d)
  exact congrArg Prod.fst ht

theorem Answers.reads (h : x.Answers r) : x.Reads := by
  rw [Reads, h.onDisk]
  exact h

/-- What comes after a task that has answered starts from the same disk. -/
theorem Answers.goes_on (hx : x.Answers r) {s : Session} {b : β} (h : r s.disk = .ok b) :
    ∃ t : Session, t.disk = s.disk ∧
      ∀ {γ : Type} (f : β → Task (StateM Session) γ), (x >>= f) s = f b t := by
  obtain ⟨t, hxs, ht⟩ := hx s
  exact ⟨t, ht, fun f => Outcome.run_bind_ok (h ▸ hxs)⟩

theorem Answers.stops (hx : x.Answers r) {s : Session} {e : Failure} (h : r s.disk = .error e) :
    ∃ t : Session, t.disk = s.disk ∧
      ∀ {γ : Type} (f : β → Task (StateM Session) γ), (x >>= f) s = (.error e, t) := by
  obtain ⟨t, hxs, ht⟩ := hx s
  exact ⟨t, ht, fun f => Outcome.run_bind_error (h ▸ hxs)⟩

theorem Answers.bind (hx : x.Answers r) (hf : ∀ b, (f b).Answers (q b)) :
    (x >>= f).Answers fun d => r d >>= fun b => q b d := by
  intro s
  simp only
  cases hr : r s.disk with
  | ok b =>
      obtain ⟨t, ht, hgoes⟩ := hx.goes_on hr
      obtain ⟨u, hfs, hu⟩ := hf b t
      rw [ht] at hfs hu
      exact ⟨u, (hgoes f).trans hfs, hu⟩
  | error e =>
      obtain ⟨t, ht, hstops⟩ := hx.stops hr
      exact ⟨t, hstops f, ht⟩

theorem Reads.bind (hx : x.Reads) (hf : ∀ b, (f b).Reads) : (x >>= f).Reads :=
  (Answers.bind hx hf).reads

theorem answers_ofExcept (r : Except Failure β) :
    (ofExcept r : Task (StateM Session) β).Answers fun _ => r :=
  fun s => ⟨s, rfl, rfl⟩

theorem answers_pure (b : β) : (pure b : Task (StateM Session) β).Answers fun _ => .ok b :=
  fun s => ⟨s, rfl, rfl⟩

theorem answers_note (line : String) :
    (Host.note line : Task (StateM Session) Unit).Answers fun _ => .ok () :=
  fun s => ⟨{ s with notes := s.notes ++ [line] }, rfl, rfl⟩

/-- A file is read, and the fault of the reading is a cause of failure. -/
theorem answers_text (path : String) (cause : FileFault → Failure) :
    (orFail (Host.readText path) cause : Task (StateM Session) String).Answers fun d =>
      (d.readText path).mapError cause :=
  fun s => ⟨s, rfl, rfl⟩

theorem reads_text (path : String) (cause : FileFault → Failure) :
    (orFail (Host.readText path) cause : Task (StateM Session) String).Reads :=
  (answers_text path cause).reads

theorem Answers.map (hx : x.Answers r) (g : β → γ) : (g <$> x).Answers fun d => g <$> r d := by
  have hanswers (d : Disk) : g <$> r d = r d >>= fun b => .ok (g b) := by
    cases r d <;> rfl
  simp only [hanswers, map_eq_pure_bind]
  exact hx.bind fun b => answers_pure (g b)

theorem answers_notes (lines : List String) :
    (lines.forM Host.note : Task (StateM Session) Unit).Answers fun _ => .ok () := by
  induction lines with
  | nil => exact answers_pure ()
  | cons line rest ih => exact (answers_note line).bind fun _ => ih

/-- A loop leaves the disk if each round does, and each round answers as it would by itself. -/
theorem mapM_answers {g : β → StateM Session γ} {q : β → Disk → γ}
    (h : ∀ b s, ∃ t, g b s = (q b s.disk, t) ∧ t.disk = s.disk) (bs : List β) (s : Session) :
    ∃ t, bs.mapM g s = (bs.map fun b => q b s.disk, t) ∧ t.disk = s.disk := by
  induction bs generalizing s with
  | nil => exact ⟨s, rfl, rfl⟩
  | cons b rest ih =>
      obtain ⟨t, hb, ht⟩ := h b s
      obtain ⟨u, hrest, hu⟩ := ih t
      refine ⟨u, ?_, hu.trans ht⟩
      rw [List.mapM_cons]
      simp only [bind, StateT.bind, hb, hrest, ht]
      rfl

/-! ### Exit codes -/

/-- Every failure of a task, in whatever session, has one of these exit codes. -/
def FailsWith (codes : List Nat) (x : Task (StateM Session) β) : Prop :=
  ∀ s : Session, Outcome.FailsWith codes (x s).1

variable {codes : List Nat}

theorem Answers.failsWith (hx : x.Answers r) (h : ∀ d, Outcome.FailsWith codes (r d)) :
    x.FailsWith codes := by
  intro s
  obtain ⟨t, hxs, -⟩ := hx s
  exact hxs ▸ h s.disk

theorem FailsWith.bind (hx : x.FailsWith codes) (hf : ∀ b, (f b).FailsWith codes) :
    (x >>= f).FailsWith codes := by
  intro s
  cases hr : x s with
  | mk r t =>
      cases r with
      | ok b => exact Outcome.run_bind_ok hr ▸ hf b t
      | error e =>
          have hfails := hx s
          rw [hr] at hfails
          rw [Outcome.run_bind_error hr]
          exact Outcome.failsWith_error (hfails e rfl)

theorem failsWith_ofExcept {r : Except Failure β} (h : Outcome.FailsWith codes r) :
    (ofExcept r : Task (StateM Session) β).FailsWith codes :=
  fun _ => h

theorem failsWith_pure (b : β) : (pure b : Task (StateM Session) β).FailsWith codes :=
  fun _ => Outcome.failsWith_ok b

/-- An operation of the host does not fail by itself. -/
theorem failsWith_lift (x : StateM Session β) :
    FailsWith codes (ExceptT.lift x) :=
  fun s => Outcome.failsWith_ok (x s).1

theorem failsWith_orFail (x : Task (StateM Session) (Except FileFault β))
    {cause : FileFault → Failure} (hx : x.FailsWith codes)
    (h : ∀ fault, (cause fault).exitCode ∈ codes) : (orFail x cause).FailsWith codes := by
  refine hx.bind fun r => failsWith_ofExcept ?_
  cases r with
  | ok b => exact Outcome.failsWith_ok b
  | error fault => exact Outcome.failsWith_error (h fault)

end StrategyTree.Task
