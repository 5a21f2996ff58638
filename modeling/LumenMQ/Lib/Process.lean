set_option autoImplicit false

/-! # Processes

Computations on a state that may fail, and keep the state they have reached when they do, or may
never return. `wp` is their weakest liberal precondition: what must hold before for a property to
hold after every run that returns. It distributes over the constructs, one equation for each, so
that a computation is taken apart by rewriting. -/

variable {σ ε α β : Type}

/-- Computations on a state `σ` with errors in `ε`; `none` does not return. -/
def Process (σ ε α : Type) := σ → Option (Except ε α × σ)

namespace Process

instance : Monad (Process σ ε) where
  pure a := fun s => some (.ok a, s)
  bind x f := fun s =>
    match x s with
    | none => none
    | some (.ok a, s') => f a s'
    | some (.error e, s') => some (.error e, s')

/-- Fail. -/
def fail (e : ε) : Process σ ε α := fun s => some (.error e, s)

/-- The state. -/
def read : Process σ ε σ := fun s => some (.ok s, s)

/-- Change the state. -/
def update (f : σ → σ) : Process σ ε Unit := fun s => some (.ok (), f s)

/-- Change the state and return a value. -/
def act (f : σ → α × σ) : Process σ ε α := fun s => some (.ok (f s).1, (f s).2)

/-- Change the state by a function that may not return. -/
def tryUpdate (f : σ → Option σ) : Process σ ε Unit := fun s => (f s).map (fun s' => (.ok (), s'))

/-- Run a computation and return its result, an error included. -/
def attempt (x : Process σ ε α) : Process σ ε (Except ε α) := fun s =>
  (x s).map (fun (r, s') => (.ok r, s'))

/-- Run a computation if a condition holds. -/
def when (c : Bool) (x : Process σ ε Unit) : Process σ ε Unit := if c then x else pure ()

/-- Run a computation for every element of a list, up to the first failure. -/
def forEach (f : α → Process σ ε Unit) : List α → Process σ ε Unit
  | [] => pure ()
  | a :: as => do f a; forEach f as

/-- Run a computation for every element of a list and collect the results. -/
def collect (f : α → Process σ ε β) : List α → Process σ ε (List β)
  | [] => pure []
  | a :: as => do
    let b ← f a
    let bs ← collect f as
    pure (b :: bs)

/-! ## Running -/

theorem bind_apply (x : Process σ ε α) (f : α → Process σ ε β) (s : σ) :
    (x >>= f) s = match x s with
      | none => none
      | some (.ok a, s') => f a s'
      | some (.error e, s') => some (.error e, s') := rfl

theorem bind_apply_ok {x : Process σ ε α} {f : α → Process σ ε β} {a : α} {s s1 : σ}
    (h : x s = some (.ok a, s1)) : (x >>= f) s = f a s1 := by
  rw [bind_apply, h]

theorem bind_apply_error {x : Process σ ε α} {f : α → Process σ ε β} {e : ε} {s s1 : σ}
    (h : x s = some (.error e, s1)) : (x >>= f) s = some (.error e, s1) := by
  rw [bind_apply, h]

/-- A composition that returns has a first part that does. -/
theorem of_bind_apply {x : Process σ ε α} {f : α → Process σ ε β} {s s' : σ} {r : Except ε β}
    (h : (x >>= f) s = some (r, s')) : ∃ result, x s = some result := by
  cases hx : x s with
  | none =>
    rw [bind_apply, hx] at h
    cases h
  | some result => exact ⟨result, rfl⟩

theorem read_bind_apply (f : σ → Process σ ε β) (s : σ) :
    (read >>= f : Process σ ε β) s = f s s := rfl

theorem act_bind_apply (g : σ → α × σ) (f : α → Process σ ε β) (s : σ) :
    (act g >>= f : Process σ ε β) s = f (g s).1 (g s).2 := rfl

theorem update_bind_apply (g : σ → σ) (f : Unit → Process σ ε β) (s : σ) :
    (update g >>= f : Process σ ε β) s = f () (g s) := rfl

theorem attempt_bind_apply (x : Process σ ε α) (f : Except ε α → Process σ ε β) (s : σ) :
    (attempt x >>= f : Process σ ε β) s = (x s).bind (fun p => f p.1 p.2) := by
  rw [bind_apply, attempt]
  cases x s <;> rfl

theorem tryUpdate_bind_apply (g : σ → Option σ) (f : Unit → Process σ ε β) (s : σ) :
    (tryUpdate g >>= f : Process σ ε β) s = (g s).bind (fun s' => f () s') := by
  rw [bind_apply, tryUpdate]
  cases g s <;> rfl

/-! ## Weakest preconditions -/

/-- What must hold of the state before for `Q` to hold of the result and the state after. -/
def wp (x : Process σ ε α) (Q : Except ε α → σ → Prop) (s : σ) : Prop :=
  ∀ r s', x s = some (r, s') → Q r s'

/-- What a continuation makes of a postcondition: an error passes it by. -/
def andThen (Q : Except ε α → σ → Prop) (k : β → σ → Prop) : Except ε β → σ → Prop
  | .ok b, s => k b s
  | .error e, s => Q (.error e) s

/-- A computation that returns has one outcome. -/
theorem wp_of_apply {x : Process σ ε α} {Q : Except ε α → σ → Prop} {r : Except ε α} {s s' : σ}
    (hx : x s = some (r, s')) : wp x Q s ↔ Q r s' := by
  constructor
  · intro h
    exact h r s' hx
  · intro h r1 s1 hrun
    cases hx.symm.trans hrun
    exact h

@[simp] theorem wp_pure (a : α) (Q : Except ε α → σ → Prop) (s : σ) :
    wp (pure a : Process σ ε α) Q s ↔ Q (.ok a) s :=
  wp_of_apply rfl

@[simp] theorem wp_fail (e : ε) (Q : Except ε α → σ → Prop) (s : σ) :
    wp (fail e : Process σ ε α) Q s ↔ Q (.error e) s :=
  wp_of_apply rfl

@[simp] theorem wp_read (Q : Except ε σ → σ → Prop) (s : σ) :
    wp (read : Process σ ε σ) Q s ↔ Q (.ok s) s :=
  wp_of_apply rfl

@[simp] theorem wp_update (f : σ → σ) (Q : Except ε Unit → σ → Prop) (s : σ) :
    wp (update f : Process σ ε Unit) Q s ↔ Q (.ok ()) (f s) :=
  wp_of_apply rfl

@[simp] theorem wp_act (f : σ → α × σ) (Q : Except ε α → σ → Prop) (s : σ) :
    wp (act f : Process σ ε α) Q s ↔ Q (.ok (f s).1) (f s).2 :=
  wp_of_apply rfl

@[simp] theorem wp_tryUpdate (f : σ → Option σ) (Q : Except ε Unit → σ → Prop) (s : σ) :
    wp (tryUpdate f : Process σ ε Unit) Q s ↔ ∀ s', f s = some s' → Q (.ok ()) s' := by
  constructor
  · intro h s' hf
    exact h _ _ (by simp [tryUpdate, hf])
  · intro h r s' hrun
    obtain ⟨t, ht, heq⟩ := Option.map_eq_some_iff.1 hrun
    cases heq
    exact h _ ht

theorem wp_bind (x : Process σ ε α) (f : α → Process σ ε β) (Q : Except ε β → σ → Prop) (s : σ) :
    wp (x >>= f) Q s ↔ wp x (andThen Q (fun a => wp (f a) Q)) s := by
  constructor
  · intro h r s' hx
    cases r with
    | ok a =>
      intro r' s'' hf
      exact h r' s'' (by rw [bind_apply, hx]; exact hf)
    | error e => exact h _ _ (by rw [bind_apply, hx])
  · intro h r s' hrun
    rw [bind_apply] at hrun
    cases hx : x s with
    | none => simp [hx] at hrun
    | some p =>
      obtain ⟨r1, s1⟩ := p
      cases r1 with
      | ok a => exact h _ _ hx r s' (by simpa [hx] using hrun)
      | error e =>
        rw [hx] at hrun
        cases hrun
        exact h _ _ hx

@[simp] theorem wp_attempt (x : Process σ ε α) (Q : Except ε (Except ε α) → σ → Prop) (s : σ) :
    wp (attempt x) Q s ↔ wp x (fun r => Q (.ok r)) s := by
  constructor
  · intro h r s' hx
    exact h _ _ (by simp [attempt, hx])
  · intro h r s' hrun
    obtain ⟨⟨r', s''⟩, hx, heq⟩ := Option.map_eq_some_iff.1 hrun
    cases heq
    exact h _ _ hx

/-! A computation that starts with one operation goes on from where that operation leads. -/

theorem wp_read_bind (f : σ → Process σ ε β) (Q : Except ε β → σ → Prop) (s : σ) :
    wp (read >>= f) Q s ↔ wp (f s) Q s := by
  rw [wp_bind, wp_read]
  rfl

theorem wp_update_bind (g : σ → σ) (f : Unit → Process σ ε β) (Q : Except ε β → σ → Prop) (s : σ) :
    wp (update g >>= f) Q s ↔ wp (f ()) Q (g s) := by
  rw [wp_bind, wp_update]
  rfl

theorem wp_act_bind (g : σ → α × σ) (f : α → Process σ ε β) (Q : Except ε β → σ → Prop) (s : σ) :
    wp (act g >>= f) Q s ↔ wp (f (g s).1) Q (g s).2 := by
  rw [wp_bind, wp_act]
  rfl

theorem wp_attempt_bind (x : Process σ ε α) (f : Except ε α → Process σ ε β)
    (Q : Except ε β → σ → Prop) (s : σ) :
    wp (attempt x >>= f) Q s ↔ wp x (fun r => wp (f r) Q) s := by
  rw [wp_bind, wp_attempt]
  rfl

theorem wp_when {c : Bool} {x : Process σ ε Unit} {Q : Except ε Unit → σ → Prop} {s : σ}
    (htrue : c = true → wp x Q s) (hfalse : c = false → Q (.ok ()) s) : wp (when c x) Q s := by
  unfold when
  cases c with
  | true => exact htrue rfl
  | false => exact (wp_pure ..).2 (hfalse rfl)

theorem wp_mono {x : Process σ ε α} {Q Q' : Except ε α → σ → Prop} {s : σ} (h : wp x Q s)
    (himp : ∀ r s', Q r s' → Q' r s') : wp x Q' s :=
  fun r s' hrun => himp r s' (h r s' hrun)

/-- The rule of composition: the second part starts where the first one ends, and an error of the
    first part is the error of the whole. -/
theorem wp_seq {x : Process σ ε α} {f : α → Process σ ε β} {R : Except ε α → σ → Prop}
    {Q : Except ε β → σ → Prop} {s : σ} (hx : wp x R s)
    (hok : ∀ a s', R (.ok a) s' → wp (f a) Q s')
    (herr : ∀ e s', R (.error e) s' → Q (.error e) s') : wp (x >>= f) Q s := by
  rw [wp_bind]
  refine wp_mono hx ?_
  intro r s' hs'
  cases r with
  | ok a => exact hok a s' hs'
  | error e => exact herr e s' hs'

/-! ## Invariants -/

/-- Whatever a computation does, it keeps `I`. -/
def Keeps (I : σ → Prop) (x : Process σ ε α) : Prop := ∀ s, I s → wp x (fun _ => I) s

namespace Keeps

variable {I : σ → Prop}

theorem pure (a : α) : Keeps I (pure a : Process σ ε α) := fun _ h => (wp_pure ..).2 h

theorem fail (e : ε) : Keeps I (fail e : Process σ ε α) := fun _ h => (wp_fail ..).2 h

theorem read : Keeps I (read : Process σ ε σ) := fun _ h => (wp_read ..).2 h

theorem update {f : σ → σ} (h : ∀ s, I s → I (f s)) : Keeps I (update f : Process σ ε Unit) :=
  fun s hs => (wp_update ..).2 (h s hs)

theorem bind {x : Process σ ε α} {f : α → Process σ ε β} (hx : Keeps I x)
    (hf : ∀ a, Keeps I (f a)) : Keeps I (x >>= f) := by
  intro s hs
  exact wp_seq (hx s hs) (fun a s' hs' => hf a s' hs') (fun _ _ hs' => hs')

/-- The state read is one in which the invariant holds. -/
theorem read_bind {f : σ → Process σ ε β} (h : ∀ s, I s → wp (f s) (fun _ => I) s) :
    Keeps I (Process.read >>= f) := by
  intro s hs
  rw [wp_read_bind]
  exact h s hs

/-- The value and the state that an action leads to. -/
theorem act_bind {f : σ → α × σ} {g : α → Process σ ε β}
    (h : ∀ s, I s → wp (g (f s).1) (fun _ => I) (f s).2) : Keeps I (Process.act f >>= g) := by
  intro s hs
  rw [wp_act_bind]
  exact h s hs

theorem attempt {x : Process σ ε α} (hx : Keeps I x) : Keeps I (attempt x) :=
  fun s hs => (wp_attempt ..).2 (hx s hs)

theorem when {c : Bool} {x : Process σ ε Unit} (hx : c = true → Keeps I x) :
    Keeps I (when c x) := by
  unfold Process.when
  by_cases h : c = true
  · rw [if_pos h]
    exact hx h
  · rw [if_neg h]
    exact pure ()

theorem forEach {f : α → Process σ ε Unit} {as : List α} (h : ∀ a ∈ as, Keeps I (f a)) :
    Keeps I (forEach f as) := by
  induction as with
  | nil => exact pure ()
  | cons a as ih =>
    rw [List.forall_mem_cons] at h
    exact bind h.1 (fun _ => ih h.2)

theorem collect {f : α → Process σ ε β} {as : List α} (h : ∀ a ∈ as, Keeps I (f a)) :
    Keeps I (collect f as) := by
  induction as with
  | nil => exact pure []
  | cons a as ih =>
    rw [List.forall_mem_cons] at h
    exact bind h.1 (fun _ => bind (ih h.2) (fun _ => pure _))

end Keeps

/-! ## Termination -/

/-- A computation returns from every state. -/
def Total (x : Process σ ε α) : Prop := ∀ s, (x s).isSome = true

namespace Total

theorem pure (a : α) : Total (pure a : Process σ ε α) := fun _ => rfl

theorem fail (e : ε) : Total (fail e : Process σ ε α) := fun _ => rfl

theorem read : Total (read : Process σ ε σ) := fun _ => rfl

theorem update (f : σ → σ) : Total (update f : Process σ ε Unit) := fun _ => rfl

theorem act (f : σ → α × σ) : Total (act f : Process σ ε α) := fun _ => rfl

theorem attempt {x : Process σ ε α} (hx : Total x) : Total (attempt x) := by
  intro s
  rw [Process.attempt, Option.isSome_map]
  exact hx s

theorem bind {x : Process σ ε α} {f : α → Process σ ε β} (hx : Total x) (hf : ∀ a, Total (f a)) :
    Total (x >>= f) := by
  intro s
  obtain ⟨⟨r, s'⟩, hrun⟩ := Option.isSome_iff_exists.1 (hx s)
  rw [bind_apply, hrun]
  cases r with
  | ok a => exact hf a s'
  | error e => rfl

theorem forEach {f : α → Process σ ε Unit} (h : ∀ a, Total (f a)) (as : List α) :
    Total (forEach f as) := by
  induction as with
  | nil => exact pure ()
  | cons a as ih => exact bind (h a) (fun _ => ih)

/-- Total correctness: the computation returns, and the property holds after it. -/
theorem exists_run {x : Process σ ε α} (hx : Total x) {Q : Except ε α → σ → Prop} {s : σ}
    (hQ : wp x Q s) : ∃ r s', x s = some (r, s') ∧ Q r s' := by
  obtain ⟨⟨r, s'⟩, hrun⟩ := Option.isSome_iff_exists.1 (hx s)
  exact ⟨r, s', hrun, hQ r s' hrun⟩

end Total

end Process
