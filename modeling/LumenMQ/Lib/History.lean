import Mathlib.Data.List.Basic

set_option autoImplicit false

/-! # Histories

A history is a list with the newest entry first. `Extends P h h'` says that `h'` goes on from `h`
with entries that satisfy `P`. -/

variable {α β : Type} {P Q : α → Prop} {h h' h'' : List α}

/-- The history `h'` goes on from `h` with entries that satisfy `P`. -/
def Extends (P : α → Prop) (h h' : List α) : Prop := ∃ es, h' = es ++ h ∧ ∀ e ∈ es, P e

namespace Extends

theorem refl (h : List α) : Extends P h h := ⟨[], rfl, by simp⟩

theorem append {es : List α} (hes : ∀ e ∈ es, P e) (h : List α) : Extends P h (es ++ h) :=
  ⟨es, rfl, hes⟩

theorem cons {e : α} (he : P e) (h : List α) : Extends P h (e :: h) :=
  ⟨[e], rfl, by simpa using he⟩

theorem trans (h1 : Extends P h h') (h2 : Extends P h' h'') : Extends P h h'' := by
  obtain ⟨es1, rfl, hes1⟩ := h1
  obtain ⟨es2, rfl, hes2⟩ := h2
  refine ⟨es2 ++ es1, (List.append_assoc ..).symm, ?_⟩
  intro e he
  rcases List.mem_append.1 he with he | he
  · exact hes2 e he
  · exact hes1 e he

theorem mono (hPQ : ∀ e, P e → Q e) (h1 : Extends P h h') : Extends Q h h' := by
  obtain ⟨es, rfl, hes⟩ := h1
  exact ⟨es, rfl, fun e he => hPQ e (hes e he)⟩

theorem suffix (h1 : Extends P h h') : h <:+ h' := by
  obtain ⟨es, rfl, -⟩ := h1
  exact List.suffix_append ..

theorem mem {e : α} (h1 : Extends P h h') (he : e ∈ h') : e ∈ h ∨ P e := by
  obtain ⟨es, rfl, hes⟩ := h1
  rcases List.mem_append.1 he with he | he
  · exact .inr (hes e he)
  · exact .inl he

/-- What is read off a history does not change by entries that do not count. -/
theorem filterMap_eq {f : α → Option β} (h1 : Extends P h h') (hf : ∀ e, P e → f e = none) :
    h'.filterMap f = h.filterMap f := by
  obtain ⟨es, rfl, hes⟩ := h1
  rw [List.filterMap_append, List.filterMap_eq_nil_iff.2 (fun e he => hf e (hes e he)),
    List.nil_append]

end Extends
