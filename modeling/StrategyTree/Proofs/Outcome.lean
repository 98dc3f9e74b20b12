import Mathlib.Data.List.Forall2
import StrategyTree.Failure
/-!
# Outcomes

When a computation that may fail succeeds, each of its steps has. When it fails,
one of its steps has.
-/
namespace StrategyTree.Outcome

variable {ε β γ : Type}

theorem bind_ok {x : Except ε β} {f : β → Except ε γ} {c : γ} :
    (x >>= f) = .ok c ↔ ∃ b, x = .ok b ∧ f b = .ok c := by
  cases x with
  | ok b => exact ⟨fun h => ⟨b, rfl, h⟩, fun ⟨_, hb, h⟩ => Except.ok.inj hb ▸ h⟩
  | error e => exact ⟨(fun h => by cases h), fun ⟨_, hb, _⟩ => by cases hb⟩

/-- The computation has a result. -/
def Succeeds (x : Except ε β) : Prop :=
  ∃ b, x = .ok b

@[simp] theorem succeeds_ok (b : β) : Succeeds (.ok b : Except ε β) :=
  ⟨b, rfl⟩

@[simp] theorem succeeds_pure (b : β) : Succeeds (pure b : Except ε β) :=
  ⟨b, rfl⟩

@[simp] theorem not_succeeds_error (e : ε) : ¬Succeeds (.error e : Except ε β) := by
  rintro ⟨b, h⟩
  cases h

theorem succeeds_bind {x : Except ε β} {f : β → Except ε γ} :
    Succeeds (x >>= f) ↔ ∃ b, x = .ok b ∧ Succeeds (f b) := by
  simp only [Succeeds, bind_ok]
  exact ⟨fun ⟨c, b, hb, hc⟩ => ⟨b, hb, c, hc⟩, fun ⟨b, hb, c, hc⟩ => ⟨c, b, hb, hc⟩⟩

/-- Where it does not matter what the first step gives. -/
theorem succeeds_bind_of {x : Except ε β} {f : β → Except ε γ} {p : Prop}
    (h : ∀ b, Succeeds (f b) ↔ p) : Succeeds (x >>= f) ↔ Succeeds x ∧ p := by
  rw [succeeds_bind]
  simp only [h, exists_and_right]
  rfl

theorem succeeds_map {x : Except ε β} {f : β → γ} : Succeeds (f <$> x) ↔ Succeeds x := by
  cases x with
  | ok b => exact iff_of_true ⟨f b, rfl⟩ (succeeds_ok b)
  | error e => exact iff_of_false (not_succeeds_error e) (not_succeeds_error e)

theorem then_ok {x : Except ε Unit} {y : Except ε γ} {c : γ} :
    (x >>= fun _ => y) = .ok c ↔ x = .ok () ∧ y = .ok c :=
  bind_ok.trans ⟨fun ⟨_, hx, hy⟩ => ⟨hx, hy⟩, fun ⟨hx, hy⟩ => ⟨(), hx, hy⟩⟩

theorem succeeds_then {x : Except ε Unit} {y : Except ε γ} :
    Succeeds (x >>= fun _ => y) ↔ x = .ok () ∧ Succeeds y := by
  simp only [Succeeds, then_ok, exists_and_left]

theorem map_ok {x : Except ε β} {f : β → γ} {c : γ} :
    f <$> x = .ok c ↔ ∃ b, x = .ok b ∧ f b = c := by
  cases x with
  | ok b => exact ⟨fun h => ⟨b, rfl, Except.ok.inj h⟩, fun ⟨_, hb, h⟩ => h ▸ hb ▸ rfl⟩
  | error e => exact ⟨(fun h => by cases h), fun ⟨_, hb, _⟩ => by cases hb⟩

theorem map_error {x : Except ε β} {f : β → γ} {e : ε} : f <$> x = .error e ↔ x = .error e := by
  cases x with
  | ok b => exact iff_of_false nofun nofun
  | error e' => exact ⟨fun h => Except.error.inj h ▸ rfl, fun h => h ▸ rfl⟩

theorem mapError_ok {ε' : Type} {x : Except ε β} {cause : ε → ε'} {b : β} :
    x.mapError cause = .ok b ↔ x = .ok b := by
  cases x <;> simp [Except.mapError]

theorem mapError_error {ε' : Type} {x : Except ε β} {cause : ε → ε'} {e : ε'} :
    x.mapError cause = .error e ↔ ∃ fault, x = .error fault ∧ cause fault = e := by
  cases x <;> simp [Except.mapError]

/-- A loop succeeds with what its rounds give. -/
theorem mapM_ok {f : β → Except ε γ} {xs : List β} {ys : List γ} :
    xs.mapM f = .ok ys ↔ List.Forall₂ (fun x y => f x = .ok y) xs ys := by
  induction xs generalizing ys with
  | nil =>
      rw [List.forall₂_nil_left_iff]
      exact ⟨fun h => (Except.ok.inj h).symm, fun h => h ▸ rfl⟩
  | cons x rest ih =>
      rw [List.mapM_cons, bind_ok, List.forall₂_cons_left_iff]
      constructor
      · rintro ⟨y, hy, h⟩
        obtain ⟨ys', hys, h⟩ := bind_ok.1 h
        exact ⟨y, ys', hy, ih.1 hys, (Except.ok.inj h).symm⟩
      · rintro ⟨y, ys', hy, hys, rfl⟩
        exact ⟨y, hy, bind_ok.2 ⟨ys', ih.2 hys, rfl⟩⟩

/-- Two loops whose rounds give the same give the same. -/
theorem mapM_congr {δ : Type} {f : β → Except ε γ} {g : δ → Except ε γ} {xs : List β} {ys : List δ}
    (h : List.Forall₂ (fun x y => f x = g y) xs ys) : xs.mapM f = ys.mapM g := by
  induction h with
  | nil => rfl
  | cons hxy _ ih => rw [List.mapM_cons, List.mapM_cons, hxy, ih]

theorem succeeds_mapM {f : β → Except ε γ} {xs : List β} :
    Succeeds (xs.mapM f) ↔ ∀ x ∈ xs, Succeeds (f x) := by
  induction xs with
  | nil => exact iff_of_true (succeeds_pure []) (by simp)
  | cons x rest ih =>
      rw [List.mapM_cons, List.forall_mem_cons, ← ih]
      refine succeeds_bind_of fun y => ?_
      rw [succeeds_bind_of fun ys => iff_of_true (succeeds_pure _) trivial, and_true]

theorem mem_of_mapM {f : β → Except ε γ} {xs : List β} {ys : List γ} (h : xs.mapM f = .ok ys)
    {y : γ} (hy : y ∈ ys) : ∃ x ∈ xs, f x = .ok y := by
  have hrounds := mapM_ok.1 h
  clear h
  induction hrounds with
  | nil => cases hy
  | cons hx _ ih =>
      rcases List.mem_cons.1 hy with rfl | hy
      · exact ⟨_, List.mem_cons_self, hx⟩
      · obtain ⟨x, hmem, h⟩ := ih hy
        exact ⟨x, List.mem_cons_of_mem _ hmem, h⟩

theorem bind_error {x : Except Failure β} {f : β → Except Failure γ} {e : Failure} :
    (x >>= f) = .error e ↔ x = .error e ∨ ∃ b, x = .ok b ∧ f b = .error e := by
  cases x with
  | ok b =>
      constructor
      · exact fun h => .inr ⟨b, rfl, h⟩
      · rintro (h | ⟨_, hb, h⟩)
        · cases h
        · exact Except.ok.inj hb ▸ h
  | error e' =>
      constructor
      · intro h
        exact .inl (Except.error.inj h ▸ rfl)
      · rintro (h | ⟨_, hb, _⟩)
        · exact Except.error.inj h ▸ rfl
        · cases hb

/-- Of several kinds of faults, the failure of the first that there is. -/
inductive FirstOf : List (Failure → Prop) → Failure → Prop
  | here {fault : Failure → Prop} {rest : List (Failure → Prop)} {e : Failure} :
      fault e → FirstOf (fault :: rest) e
  | later {fault : Failure → Prop} {rest : List (Failure → Prop)} {e : Failure} :
      (∀ e', ¬fault e') → FirstOf rest e → FirstOf (fault :: rest) e

section FirstOf
variable {fault : Failure → Prop} {rest : List (Failure → Prop)} {e : Failure}

/-- What can fail after a first step does not depend on what the step gives. -/
theorem firstOf_bind {x : Except Failure β} {f : β → Except Failure γ}
    (hx : ∀ e, x = .error e ↔ fault e) (hf : ∀ b, f b = .error e ↔ FirstOf rest e) :
    (x >>= f) = .error e ↔ FirstOf (fault :: rest) e := by
  rw [bind_error]
  constructor
  · rintro (h | ⟨b, rfl, h⟩)
    · exact .here ((hx e).1 h)
    · exact .later (fun e' he' => nomatch (hx e').2 he') ((hf b).1 h)
  · intro h
    cases h with
    | here he => exact .inl ((hx e).2 he)
    | later hnone hrest =>
        cases hsucceeds : x with
        | ok b => exact .inr ⟨b, rfl, (hf b).2 hrest⟩
        | error e' => exact (hnone e' ((hx e').1 hsucceeds)).elim

/-- After the last step nothing can fail. -/
theorem firstOf_ok (c : γ) : (.ok c : Except Failure γ) = .error e ↔ FirstOf [] e :=
  iff_of_false nofun nofun

theorem FirstOf.exists_mem {faults : List (Failure → Prop)} (h : FirstOf faults e) :
    ∃ fault ∈ faults, fault e := by
  induction h with
  | here he => exact ⟨_, List.mem_cons_self, he⟩
  | later _ _ ih =>
      obtain ⟨fault, hmem, he⟩ := ih
      exact ⟨fault, List.mem_cons_of_mem _ hmem, he⟩

end FirstOf

/-- Every failure has one of these exit codes. -/
def FailsWith (codes : List Nat) (x : Except Failure β) : Prop :=
  ∀ e, x = .error e → e.exitCode ∈ codes

section FailsWith
variable {codes : List Nat} {x : Except Failure β} {f : β → Except Failure γ}

theorem failsWith_ok (b : β) : FailsWith codes (.ok b : Except Failure β) :=
  fun _ h => by cases h

theorem failsWith_error {e : Failure} (h : e.exitCode ∈ codes) :
    FailsWith codes (.error e : Except Failure β) :=
  fun _ he => Except.error.inj he ▸ h

theorem FailsWith.mono {codes' : List Nat} (h : FailsWith codes x) (hsub : codes ⊆ codes') :
    FailsWith codes' x :=
  fun e he => hsub (h e he)

theorem FailsWith.bind (hx : FailsWith codes x) (hf : ∀ b, x = .ok b → FailsWith codes (f b)) :
    FailsWith codes (x >>= f) := by
  intro e he
  rcases bind_error.1 he with he | ⟨b, hb, he⟩
  · exact hx e he
  · exact hf b hb e he

theorem FailsWith.map {f : β → γ} (hx : FailsWith codes x) : FailsWith codes (f <$> x) := by
  cases x with
  | ok b => exact failsWith_ok (f b)
  | error e => exact failsWith_error (hx e rfl)

end FailsWith

/-- A computation with a state goes on from the state that its first step leaves. -/
theorem run_bind_ok {σ : Type} {x : ExceptT Failure (StateM σ) β}
    {f : β → ExceptT Failure (StateM σ) γ} {s t : σ} {b : β} (h : x s = (.ok b, t)) :
    (x >>= f) s = f b t := by
  change ExceptT.bindCont f (x s).1 (x s).2 = f b t
  rw [h]
  rfl

theorem run_bind_error {σ : Type} {x : ExceptT Failure (StateM σ) β}
    {f : β → ExceptT Failure (StateM σ) γ} {s t : σ} {e : Failure} (h : x s = (.error e, t)) :
    (x >>= f) s = (.error e, t) := by
  change ExceptT.bindCont f (x s).1 (x s).2 = (.error e, t)
  rw [h]
  rfl

/-- From every state, every failure of a computation has one of these exit codes. -/
def RunFailsWith {σ : Type} (codes : List Nat) (x : ExceptT Failure (StateM σ) β) : Prop :=
  ∀ s, FailsWith codes (x s).1

section RunFailsWith
variable {σ : Type} {codes : List Nat} {x : ExceptT Failure (StateM σ) β}
  {f : β → ExceptT Failure (StateM σ) γ}

theorem runFailsWith_pure (b : β) :
    RunFailsWith codes (pure b : ExceptT Failure (StateM σ) β) :=
  fun _ => failsWith_ok b

theorem RunFailsWith.bind (hx : RunFailsWith codes x) (hf : ∀ b, RunFailsWith codes (f b)) :
    RunFailsWith codes (x >>= f) := by
  intro s
  have hfirst := hx s
  rcases hrun : x s with ⟨r, t⟩
  rw [hrun] at hfirst
  cases r with
  | ok b =>
      rw [run_bind_ok hrun]
      exact hf b t
  | error e =>
      rw [run_bind_error hrun]
      exact failsWith_error (hfirst e rfl)

end RunFailsWith

/-- A loop that fails does so in one of its rounds. -/
theorem foldlM_error {f : γ → β → Except Failure γ} {xs : List β} {c : γ} {e : Failure}
    (h : xs.foldlM f c = .error e) : ∃ x ∈ xs, ∃ c', f c' x = .error e := by
  induction xs generalizing c with
  | nil => cases h
  | cons x rest ih =>
      rw [List.foldlM_cons] at h
      rcases bind_error.1 h with h | ⟨next, -, h⟩
      · exact ⟨x, List.mem_cons_self, c, h⟩
      · obtain ⟨y, hy, hfail⟩ := ih h
        exact ⟨y, List.mem_cons_of_mem _ hy, hfail⟩

theorem forM_ok {f : β → Except Failure Unit} {xs : List β} :
    xs.forM f = .ok () ↔ ∀ x ∈ xs, f x = .ok () := by
  induction xs with
  | nil => exact iff_of_true rfl (by simp)
  | cons x rest ih =>
      change (f x >>= fun _ => rest.forM f) = .ok () ↔ _
      rw [then_ok, List.forall_mem_cons, ih]

/-- A loop over checks fails with the first that fails. -/
theorem forM_error {f : β → Except Failure Unit} {xs : List β} {e : Failure} :
    xs.forM f = .error e ↔ ∃ before x after, xs = before ++ x :: after ∧
      (∀ y ∈ before, f y = .ok ()) ∧ f x = .error e := by
  induction xs with
  | nil => exact iff_of_false (by rintro ⟨⟩) (by simp)
  | cons x rest ih =>
      change (f x >>= fun _ => rest.forM f) = .error e ↔ _
      rw [bind_error]
      constructor
      · rintro (hx | ⟨_, hx, hrest⟩)
        · exact ⟨[], x, rest, rfl, by simp, hx⟩
        · obtain ⟨before, y, after, rfl, hbefore, hy⟩ := ih.1 hrest
          exact ⟨x :: before, y, after, rfl, List.forall_mem_cons.2 ⟨hx, hbefore⟩, hy⟩
      · rintro ⟨before, y, after, heq, hbefore, hy⟩
        cases before with
        | nil =>
            obtain ⟨rfl, rfl⟩ := List.cons.inj heq
            exact .inl hy
        | cons z before =>
            obtain ⟨rfl, rfl⟩ := List.cons.inj heq
            obtain ⟨hx, hbefore⟩ := List.forall_mem_cons.1 hbefore
            exact .inr ⟨(), hx, ih.2 ⟨before, y, after, rfl, hbefore, hy⟩⟩

/-- A loop fails with the first of its rounds that does. -/
theorem mapM_error {f : β → Except Failure γ} {xs : List β} {e : Failure} :
    xs.mapM f = .error e ↔ ∃ before x after, xs = before ++ x :: after ∧
      (∀ y ∈ before, Succeeds (f y)) ∧ f x = .error e := by
  induction xs with
  | nil => exact iff_of_false (by rintro ⟨⟩) (by simp)
  | cons x rest ih =>
      rw [List.mapM_cons, bind_error]
      constructor
      · rintro (hx | ⟨c, hx, h⟩)
        · exact ⟨[], x, rest, rfl, by simp, hx⟩
        rcases bind_error.1 h with hrest | ⟨_, _, h⟩
        · obtain ⟨before, y, after, rfl, hbefore, hy⟩ := ih.1 hrest
          exact ⟨x :: before, y, after, rfl, List.forall_mem_cons.2 ⟨⟨c, hx⟩, hbefore⟩, hy⟩
        · cases h
      · rintro ⟨before, y, after, heq, hbefore, hy⟩
        cases before with
        | nil =>
            obtain ⟨rfl, rfl⟩ := List.cons.inj heq
            exact .inl hy
        | cons z before =>
            obtain ⟨rfl, rfl⟩ := List.cons.inj heq
            obtain ⟨⟨c, hx⟩, hbefore⟩ := List.forall_mem_cons.1 hbefore
            have hrest := ih.2 ⟨before, y, after, rfl, hbefore, hy⟩
            exact .inr ⟨c, hx, bind_error.2 (.inl hrest)⟩

end StrategyTree.Outcome
