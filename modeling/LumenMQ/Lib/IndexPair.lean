import Mathlib.Logic.Function.Basic

set_option autoImplicit false

/-! # Two indexes that are written one after the other

Calls write a value to some keys of an index and then to the same keys of a second index, and other
calls come in between. While two calls that write different values to a key are never under way at
the same time, the indexes differ only at the keys of calls that are between the two, and they agree
when no call is under way. -/

namespace IndexPair

/-- How far a call is: the keys at which the first index already has its value. -/
structure Stage (κ α : Type) where
  written : κ → Prop
  value : α

variable {ι κ α : Type} {first first' second second' : κ → α} {calls : ι → Option (Stage κ α)}

/-- The first index has the value of a call wherever the call has written it, and that of the second
    index everywhere else. -/
structure Coherent (first second : κ → α) (calls : ι → Option (Stage κ α)) : Prop where
  held : ∀ i p, calls i = some p → ∀ k, p.written k → first k = p.value
  agree : ∀ k, (∀ i p, calls i = some p → ¬ p.written k) → first k = second k

namespace Coherent

/-- When no call is under way the indexes agree. -/
theorem eq_of_idle (h : Coherent first second calls) (hidle : ∀ i, calls i = none) :
    first = second := by
  funext k
  refine h.agree k ?_
  intro i p hi
  rw [hidle i] at hi
  simp at hi

variable [DecidableEq ι]

/-- A call begins, or writes to the first index. -/
theorem advance (h : Coherent first second calls) {i : ι} (p' : Stage κ α)
    (hkeep : ∀ p, calls i = some p → ∀ k, p.written k → p'.written k)
    (hin : ∀ k, p'.written k → first' k = p'.value)
    (hout : ∀ k, ¬ p'.written k → first' k = first k)
    (hsame : ∀ j p, j ≠ i → calls j = some p → ∀ k, p.written k → p'.written k →
      p.value = p'.value) :
    Coherent first' second (Function.update calls i (some p')) where
  held := by
    intro j p hj k hk
    by_cases hji : j = i
    · subst hji
      rw [Function.update_self] at hj
      cases hj
      exact hin k hk
    · rw [Function.update_of_ne hji] at hj
      by_cases hk' : p'.written k
      · rw [hin k hk', hsame j p hji hj k hk hk']
      · rw [hout k hk', h.held j p hj k hk]
  agree := by
    intro k hk
    have hk' : ¬ p'.written k := hk i p' (Function.update_self ..)
    rw [hout k hk']
    refine h.agree k ?_
    intro j p hj hwrite
    by_cases hji : j = i
    · subst hji
      exact hk' (hkeep p hj k hwrite)
    · exact hk j p (by rw [Function.update_of_ne hji, hj]) hwrite

/-- A call writes to the second index wherever it has written to the first, and ends. -/
theorem finish (h : Coherent first second calls) {i : ι} (p : Stage κ α) (hi : calls i = some p)
    (hin : ∀ k, p.written k → second' k = p.value)
    (hout : ∀ k, ¬ p.written k → second' k = second k) :
    Coherent first second' (Function.update calls i none) where
  held := by
    intro j p' hj k hk
    by_cases hji : j = i
    · subst hji
      rw [Function.update_self] at hj
      simp at hj
    · rw [Function.update_of_ne hji] at hj
      exact h.held j p' hj k hk
  agree := by
    intro k hk
    by_cases hk' : p.written k
    · rw [hin k hk', h.held i p hi k hk']
    · rw [hout k hk']
      refine h.agree k ?_
      intro j p' hj hwrite
      by_cases hji : j = i
      · subst hji
        obtain rfl : p' = p := Option.some.inj (hj.symm.trans hi)
        exact hk' hwrite
      · exact hk j p' (by rw [Function.update_of_ne hji, hj]) hwrite

end Coherent

end IndexPair
