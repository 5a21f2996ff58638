import Mathlib.Data.List.Basic

set_option autoImplicit false

/-! # Runs

A machine is given by its steps: a function from a state and an event to the next state, or to
nothing when the event is not possible. A run is a sequence of events. This file relates what every
step does to what holds along a run, in particular when the steps meet a condition on the event and
on the state before it. -/

namespace Runs

variable {σ ε : Type} (step : σ → ε → Option σ)

/-- A sequence of steps. -/
def run (s : σ) (es : List ε) : Option σ := es.foldlM step s

/-- Every step of a run meets a condition on the event and on the state before it. -/
def Meets (C : σ → ε → Prop) (s : σ) : List ε → Prop
  | [] => True
  | e :: es => C s e ∧ ∀ s', step s e = some s' → Meets C s' es

/-- A property holds in every state of a run. -/
def Always (J : σ → Prop) (s : σ) : List ε → Prop
  | [] => J s
  | e :: es => J s ∧ ∀ s', step s e = some s' → Always J s' es

/-- Whether every step of a run meets a condition that can be checked. -/
def meets (C : σ → ε → Bool) (s : σ) : List ε → Bool
  | [] => true
  | e :: es => C s e && (step s e).all (fun s' => meets C s' es)

variable {step}

theorem run_cons {s s' : σ} {e : ε} {es : List ε} :
    run step s (e :: es) = some s' ↔ ∃ s1, step s e = some s1 ∧ run step s1 es = some s' := by
  unfold run
  rw [List.foldlM_cons]
  exact Option.bind_eq_some_iff

theorem run_append {s s' : σ} {es es' : List ε} :
    run step s (es ++ es') = some s' ↔ ∃ s1, run step s es = some s1 ∧ run step s1 es' = some s' := by
  unfold run
  rw [List.foldlM_append]
  exact Option.bind_eq_some_iff

/-- A run that was seen to return has a last state. -/
theorem exists_run (step : σ → ε → Option σ) (s : σ) (es : List ε) (p : σ → Bool)
    (h : (run step s es).any p = true) :
    ∃ s', run step s es = some s' ∧ p s' = true :=
  (Option.any_eq_true _ _).1 h

theorem meets_of_check {C : σ → ε → Prop} (check : σ → ε → Bool)
    (hcheck : ∀ s e, check s e = true → C s e) {s : σ} {es : List ε}
    (h : meets step check s es = true) : Meets step C s es := by
  induction es generalizing s with
  | nil => trivial
  | cons e es ih =>
    rw [meets, Bool.and_eq_true] at h
    refine ⟨hcheck s e h.1, fun s' hstep => ih ?_⟩
    simpa [hstep] using h.2

theorem meets_of_forall {C : σ → ε → Prop} (h : ∀ s e, C s e) (s : σ) (es : List ε) :
    Meets step C s es := by
  induction es generalizing s with
  | nil => trivial
  | cons e es ih => exact ⟨h s e, fun s' _ => ih s'⟩

/-- What holds in every state holds in the first one. -/
theorem Always.head {J : σ → Prop} {s : σ} {es : List ε} (h : Always step J s es) : J s := by
  cases es with
  | nil => exact h
  | cons => exact h.1

/-- What holds before every step of a run and at its end always holds. -/
theorem always_of_last {J : σ → Prop} {s s' : σ} {es : List ε}
    (hmeets : Meets step (fun s _ => J s) s es) (hrun : run step s es = some s') (hlast : J s') :
    Always step J s es := by
  induction es generalizing s with
  | nil => exact Option.some.inj hrun ▸ hlast
  | cons e es ih =>
    obtain ⟨s1, h1, hrest⟩ := run_cons.1 hrun
    refine ⟨hmeets.1, fun s2 h2 => ?_⟩
    obtain rfl : s1 = s2 := Option.some.inj (h1.symm.trans h2)
    exact ih (hmeets.2 s1 h1) hrest

/-- What every step keeps that meets the condition is kept along a run. -/
theorem run_invariant {C : σ → ε → Prop} {I : σ → Prop}
    (hstep : ∀ s s' e, I s → C s e → step s e = some s' → I s') {s s' : σ} {es : List ε}
    (hs : I s) (hmeets : Meets step C s es) (hrun : run step s es = some s') : I s' := by
  induction es generalizing s with
  | nil => exact Option.some.inj hrun ▸ hs
  | cons e es ih =>
    obtain ⟨s1, h1, hrest⟩ := run_cons.1 hrun
    exact ih (hstep s s1 e hs hmeets.1 h1) (hmeets.2 s1 h1) hrest

/-- A condition that follows from another one and from what the steps keep that meet it. -/
theorem meets_of_meets {C D : σ → ε → Prop} {I : σ → Prop}
    (hstep : ∀ s s' e, I s → C s e → step s e = some s' → I s')
    (himp : ∀ s e, I s → C s e → D s e) {s : σ} {es : List ε} (hs : I s)
    (hmeets : Meets step C s es) : Meets step D s es := by
  induction es generalizing s with
  | nil => trivial
  | cons e es ih =>
    exact ⟨himp s e hs hmeets.1, fun s' h => ih (hstep s s' e hs hmeets.1 h) (hmeets.2 s' h)⟩

/-- What every step keeps that meets the condition holds all along a run. -/
theorem always_of_meets {C : σ → ε → Prop} {I J : σ → Prop} (hIJ : ∀ s, I s → J s)
    (hstep : ∀ s s' e, I s → C s e → step s e = some s' → I s') {s : σ} {es : List ε}
    (hs : I s) (hmeets : Meets step C s es) : Always step J s es := by
  induction es generalizing s with
  | nil => exact hIJ s hs
  | cons e es ih =>
    exact ⟨hIJ s hs, fun s' h => ih (hstep s s' e hs hmeets.1 h) (hmeets.2 s' h)⟩

/-- What every step between two states with a property keeps is kept along a run in which the
    property always holds. -/
theorem always_invariant {I J : σ → Prop}
    (hstep : ∀ s s' e, I s → J s' → step s e = some s' → I s') {s s' : σ} {es : List ε}
    (hs : I s) (halways : Always step J s es) (hrun : run step s es = some s') : I s' := by
  induction es generalizing s with
  | nil => exact Option.some.inj hrun ▸ hs
  | cons e es ih =>
    obtain ⟨s1, h1, hrest⟩ := run_cons.1 hrun
    have halways1 := halways.2 s1 h1
    exact ih (hstep s s1 e hs halways1.head h1) halways1 hrest

/-- A property that a step leaves true exactly if it meets the condition holds at the end of a run
    exactly if it held at first and every step meets the condition. -/
theorem run_iff {C : σ → ε → Prop} {I J : σ → Prop}
    (hinv : ∀ s s' e, I s → step s e = some s' → I s')
    (hstep : ∀ s s' e, I s → step s e = some s' → (J s' ↔ J s ∧ C s e)) {s s' : σ}
    {es : List ε} (hs : I s) (hrun : run step s es = some s') :
    J s' ↔ J s ∧ Meets step C s es := by
  induction es generalizing s with
  | nil =>
    rw [← Option.some.inj hrun]
    exact (and_iff_left trivial).symm
  | cons e es ih =>
    obtain ⟨s1, h1, hrest⟩ := run_cons.1 hrun
    have hmeets : Meets step C s (e :: es) ↔ C s e ∧ Meets step C s1 es := by
      simp [Meets, h1]
    rw [ih (hinv s s1 e hs h1) hrest, hstep s s1 e hs h1, hmeets, and_assoc]

/-- A property that a step keeps exactly if it meets the condition holds all along a run exactly if
    every step meets the condition. Some of the events may be excluded from the run. -/
theorem run_always_iff {C : σ → ε → Prop} {E : ε → Prop} {I J : σ → Prop}
    (hinv : ∀ s s' e, E e → I s → step s e = some s' → I s')
    (hstep : ∀ s s' e, E e → I s → J s → step s e = some s' → (J s' ↔ C s e)) {s s' : σ}
    {es : List ε} (hes : ∀ e ∈ es, E e) (hs : I s) (hJ : J s) (hrun : run step s es = some s') :
    Always step J s es ↔ Meets step C s es := by
  induction es generalizing s with
  | nil => exact iff_of_true hJ trivial
  | cons e es ih =>
    obtain ⟨s1, h1, hrest⟩ := run_cons.1 hrun
    rw [List.forall_mem_cons] at hes
    have halways : Always step J s (e :: es) ↔ Always step J s1 es := by
      simp [Always, h1, hJ]
    have hmeets : Meets step C s (e :: es) ↔ C s e ∧ Meets step C s1 es := by
      simp [Meets, h1]
    have hI1 := hinv s s1 e hes.1 hs h1
    have hJ1 := hstep s s1 e hes.1 hs hJ h1
    rw [halways, hmeets]
    constructor
    · intro h
      exact ⟨hJ1.1 h.head, (ih hes.2 hI1 h.head hrest).1 h⟩
    · rintro ⟨hC, h⟩
      exact (ih hes.2 hI1 (hJ1.2 hC) hrest).2 h

/-- Two conditions that agree on every step of a run, as long as the first one has held so far. -/
theorem meets_congr {C D : σ → ε → Prop} {I : σ → Prop}
    (hinv : ∀ s s' e, I s → C s e → step s e = some s' → I s')
    (hiff : ∀ s s' e, I s → step s e = some s' → (C s e ↔ D s e)) {s s' : σ} {es : List ε}
    (hs : I s) (hrun : run step s es = some s') : Meets step C s es ↔ Meets step D s es := by
  induction es generalizing s with
  | nil => exact Iff.rfl
  | cons e es ih =>
    obtain ⟨s1, h1, hrest⟩ := run_cons.1 hrun
    have hCD := hiff s s1 e hs h1
    constructor
    · rintro ⟨hC, h⟩
      refine ⟨hCD.1 hC, fun s2 h2 => ?_⟩
      obtain rfl : s1 = s2 := Option.some.inj (h1.symm.trans h2)
      exact (ih (hinv s s1 e hs hC h1) hrest).1 (h s1 h1)
    · rintro ⟨hD, h⟩
      have hC := hCD.2 hD
      refine ⟨hC, fun s2 h2 => ?_⟩
      obtain rfl : s1 = s2 := Option.some.inj (h1.symm.trans h2)
      exact (ih (hinv s s1 e hs hC h1) hrest).2 (h s1 h1)

end Runs
