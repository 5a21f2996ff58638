import Mathlib.Algebra.Order.Field.Basic
import Mathlib.Algebra.Order.Ring.Cast
import Mathlib.Tactic.Linarith

set_option autoImplicit false

/-! # Metering

An allowance fills up at a constant rate to a cap, and every take costs one unit of it. What is left
of it at a time is determined by the takes before: over every stretch of time that ends then, the
takes and what is left come to no more than the cap and what was filled up, and there is such a
stretch for which they come to just that. Whoever takes only while there is something left keeps
within the cap and the rate over every stretch of time. -/

namespace Metering

variable {s : ℕ}

/-- The takes from a time on. -/
def since (taken : List ℕ) (s : ℕ) : ℕ := taken.countP (fun t => s ≤ t)

/-- The takes in a stretch of time. -/
def within (taken : List ℕ) (s e : ℕ) : ℕ := taken.countP (fun t => s ≤ t ∧ t ≤ e)

theorem since_concat (taken : List ℕ) (s now : ℕ) :
    since (taken ++ [now]) s = since taken s + if s ≤ now then 1 else 0 := by
  unfold since
  rw [List.countP_append, List.countP_singleton]
  simp

theorem within_concat (taken : List ℕ) (s e now : ℕ) :
    within (taken ++ [now]) s e = within taken s e + if s ≤ now ∧ now ≤ e then 1 else 0 := by
  unfold within
  rw [List.countP_append, List.countP_singleton]
  simp

theorem within_le_since (taken : List ℕ) (s e : ℕ) : within taken s e ≤ since taken s := by
  refine List.countP_mono_left (fun t _ h => ?_)
  simp only [decide_eq_true_eq] at h ⊢
  exact h.1

theorem within_eq_since {taken : List ℕ} {e : ℕ} (h : ∀ t ∈ taken, t ≤ e) (s : ℕ) :
    within taken s e = since taken s := by
  refine List.countP_congr (fun t ht => ?_)
  simp [h t ht]

theorem within_append_replicate (taken : List ℕ) (n : ℕ) {now : ℕ} (hs : s ≤ now) :
    within (taken ++ List.replicate n now) s now = within taken s now + n := by
  unfold within
  rw [List.countP_append, List.countP_replicate, if_pos (by simpa using hs)]

/-- Takes of several units at a time, as takes of one unit each. -/
def units (takes : List (ℕ × ℕ)) : List ℕ := takes.flatMap (fun x => List.replicate x.2 x.1)

/-- The amounts taken in a stretch of time come to its number of units. -/
theorem within_units (takes : List (ℕ × ℕ)) (s e : ℕ) :
    within (units takes) s e =
      ((takes.filter (fun x => s ≤ x.1 ∧ x.1 ≤ e)).map Prod.snd).sum := by
  induction takes with
  | nil => rfl
  | cons x takes ih =>
    unfold within at ih ⊢
    rw [units, List.flatMap_cons, List.countP_append, List.countP_replicate, ← units, ih]
    by_cases hx : s ≤ x.1 ∧ x.1 ≤ e
    · simp [hx]
    · simp [hx]

theorem since_eq_zero {taken : List ℕ} (h : ∀ t ∈ taken, t < s) : since taken s = 0 := by
  refine List.countP_eq_zero.2 (fun t ht => ?_)
  simpa using h t ht

/-- A stretch of time up to now and one from now on. -/
theorem cast_stretch {R : Type} [Semiring R] {now now' : ℕ} (hs : s ≤ now) (hnow : now ≤ now') :
    ((now' - s : ℕ) : R) = (now - s : ℕ) + (now' - now : ℕ) := by
  rw [← Nat.cast_add]
  congr 1
  omega

variable {𝕜 : Type} [Field 𝕜] [LinearOrder 𝕜] [IsStrictOrderedRing 𝕜]

/-- The allowance at a time, and the takes so far. -/
structure Metered (cap rate : 𝕜) (taken : List ℕ) (now : ℕ) (level : 𝕜) : Prop where
  past : ∀ t ∈ taken, t ≤ now
  nonneg : 0 ≤ level
  le_cap : level ≤ cap
  /-- Takes and allowance come to no more than the cap and what was filled up. -/
  covered : ∀ s ≤ now, (since taken s : 𝕜) + level ≤ cap + rate * (now - s : ℕ)
  /-- There is no less of it than that. -/
  tight : level = cap ∨ ∃ s ≤ now, (since taken s : 𝕜) + level = cap + rate * (now - s : ℕ)
  /-- No stretch of time has more takes than the cap and the rate allow. -/
  bounded : ∀ s e, s ≤ e → (within taken s e : 𝕜) ≤ cap + rate * (e - s : ℕ)

namespace Metered

variable {cap rate level : 𝕜} {taken : List ℕ} {now now' : ℕ}

/-- At first there is all of it. -/
theorem full (hcap : 0 ≤ cap) (hrate : 0 ≤ rate) (now : ℕ) : Metered cap rate [] now cap where
  past := by simp
  nonneg := hcap
  le_cap := le_refl cap
  covered := by
    intro s _
    have hfill : 0 ≤ rate * (now - s : ℕ) := mul_nonneg hrate (Nat.cast_nonneg _)
    simpa [since] using hfill
  tight := .inl rfl
  bounded := by
    intro s e _
    have hfill : 0 ≤ rate * (e - s : ℕ) := mul_nonneg hrate (Nat.cast_nonneg _)
    simpa [within] using add_nonneg hcap hfill

/-- Time passes. -/
theorem wait (h : Metered cap rate taken now level) (hrate : 0 ≤ rate) (hnow : now ≤ now') :
    Metered cap rate taken now' (min (level + rate * (now' - now : ℕ)) cap) where
  past t ht := (h.past t ht).trans hnow
  nonneg := by
    have hgain : 0 ≤ rate * (now' - now : ℕ) := mul_nonneg hrate (Nat.cast_nonneg _)
    exact le_min (add_nonneg h.nonneg hgain) (h.nonneg.trans h.le_cap)
  le_cap := min_le_right _ _
  covered := by
    intro s hs
    by_cases hold : s ≤ now
    · have hcovered := h.covered s hold
      have hmin := min_le_left (level + rate * ((now' - now : ℕ) : 𝕜)) cap
      rw [cast_stretch hold hnow, mul_add]
      linarith
    · -- nothing was taken since
      rw [since_eq_zero (fun t ht => lt_of_le_of_lt (h.past t ht) (not_le.1 hold))]
      have hmin := min_le_right (level + rate * ((now' - now : ℕ) : 𝕜)) cap
      have hgain : 0 ≤ rate * (now' - s : ℕ) := mul_nonneg hrate (Nat.cast_nonneg _)
      rw [Nat.cast_zero]
      linarith
  tight := by
    rcases le_total cap (level + rate * ((now' - now : ℕ) : 𝕜)) with hfull | hfill
    · exact .inl (min_eq_right hfull)
    · rw [min_eq_left hfill]
      rcases h.tight with hcap | ⟨s, hs, htight⟩
      · left
        have hgain : 0 ≤ rate * (now' - now : ℕ) := mul_nonneg hrate (Nat.cast_nonneg _)
        linarith
      · refine .inr ⟨s, hs.trans hnow, ?_⟩
        rw [cast_stretch hs hnow, mul_add]
        linarith
  bounded := h.bounded

/-- One unit is taken. -/
theorem take (h : Metered cap rate taken now level) (hrate : 0 ≤ rate) (hlevel : 1 ≤ level) :
    Metered cap rate (taken ++ [now]) now (level - 1) where
  past := by
    intro t ht
    rcases List.mem_append.1 ht with ht | ht
    · exact h.past t ht
    · exact le_of_eq (List.mem_singleton.1 ht)
  nonneg := sub_nonneg.2 hlevel
  le_cap := (sub_le_self level zero_le_one).trans h.le_cap
  covered := by
    intro s hs
    have hcovered := h.covered s hs
    rw [since_concat, if_pos hs, Nat.cast_add, Nat.cast_one]
    linarith
  tight := by
    right
    rcases h.tight with hcap | ⟨s, hs, htight⟩
    · -- it was all there, so that nothing was taken at the same time
      have hcovered := h.covered now (le_refl now)
      have hzero : (0 : 𝕜) ≤ (since taken now : 𝕜) := Nat.cast_nonneg _
      refine ⟨now, le_refl now, ?_⟩
      rw [since_concat, if_pos (le_refl now), Nat.cast_add, Nat.cast_one]
      rw [Nat.sub_self, Nat.cast_zero, mul_zero] at hcovered ⊢
      linarith
    · refine ⟨s, hs, ?_⟩
      rw [since_concat, if_pos hs, Nat.cast_add, Nat.cast_one]
      linarith
  bounded := by
    intro s e hse
    rw [within_concat]
    split_ifs with hin
    · -- the stretch ends with this take or later
      have hcovered := h.covered s hin.1
      have hwithin : (within taken s e : 𝕜) ≤ since taken s :=
        Nat.cast_le.2 (within_le_since taken s e)
      have hlonger : rate * (now - s : ℕ) ≤ rate * (e - s : ℕ) :=
        mul_le_mul_of_nonneg_left (Nat.cast_le.2 (Nat.sub_le_sub_right hin.2 s)) hrate
      rw [Nat.cast_add, Nat.cast_one]
      linarith
    · exact h.bounded s e hse

/-- Several units are taken at once. -/
theorem takes (h : Metered cap rate taken now level) (hrate : 0 ≤ rate) {n : ℕ} (hn : n ≤ level) :
    Metered cap rate (taken ++ List.replicate n now) now (level - n) := by
  induction n with
  | zero =>
    rw [List.replicate_zero, List.append_nil, Nat.cast_zero, sub_zero]
    exact h
  | succ n ih =>
    rw [Nat.cast_succ] at hn ⊢
    have hone := (ih (by linarith)).take hrate (by linarith)
    rwa [List.append_assoc, ← List.replicate_succ', sub_sub] at hone

/-- If part of the allowance is used up, then as many takes as fill the cap would be too many. -/
theorem exceeds (h : Metered cap rate taken now level) (hlevel : level < cap) :
    ∃ s ≤ now, cap + rate * (now - s : ℕ) < (since taken s : 𝕜) + cap := by
  rcases h.tight with hcap | ⟨s, hs, htight⟩
  · exact absurd hcap hlevel.ne
  · exact ⟨s, hs, by linarith⟩

end Metered

end Metering
