import Mathlib.Order.Basic

set_option autoImplicit false

/-! # While loops

A loop is given by its condition and its body. `within` runs it for a number of rounds, so that a
loop that is over by then has a result and one that never ends has none, whatever the number. A
measure that every round lowers bounds the rounds; a condition that the body keeps true rules out an
end. -/

namespace While

variable {σ : Type} {cond : σ → Bool} {body : σ → σ} {s s' : σ} {I : σ → Prop}

/-- `while cond { body }`, if it is over within a number of rounds. -/
def within (cond : σ → Bool) (body : σ → σ) : Nat → σ → Option σ
  | 0, s => if cond s then none else some s
  | n + 1, s => if cond s then within cond body n (body s) else some s

theorem within_of_false (h : cond s = false) (n : Nat) : within cond body n s = some s := by
  cases n <;> simp [within, h]

/-- **The rule of the loop**: an invariant that the body keeps, and a measure that it lowers. -/
theorem exists_within {μ : σ → Nat}
    (hbody : ∀ s, I s → cond s = true → I (body s) ∧ μ (body s) < μ s) (hs : I s) {n : Nat}
    (hn : μ s ≤ n) : ∃ s', within cond body n s = some s' ∧ I s' ∧ cond s' = false := by
  induction n generalizing s with
  | zero =>
    cases hcond : cond s with
    | false => exact ⟨s, within_of_false hcond 0, hs, hcond⟩
    | true =>
      have hlow := (hbody s hs hcond).2
      omega
  | succ n ih =>
    cases hcond : cond s with
    | false => exact ⟨s, within_of_false hcond _, hs, hcond⟩
    | true =>
      obtain ⟨hkept, hlow⟩ := hbody s hs hcond
      rw [within, if_pos hcond]
      exact ih hkept (by omega)

/-- A loop whose condition stays true has no end. -/
theorem within_eq_none (hloop : ∀ s, I s → cond s = true ∧ I (body s)) (hs : I s) (n : Nat) :
    within cond body n s = none := by
  induction n generalizing s with
  | zero => rw [within, if_pos (hloop s hs).1]
  | succ n ih =>
    rw [within, if_pos (hloop s hs).1]
    exact ih (hloop s hs).2

end While
