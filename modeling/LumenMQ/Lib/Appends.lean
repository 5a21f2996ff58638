import Mathlib.Data.List.Basic

set_option autoImplicit false

/-! # Writers that append to a buffer or fail

A serialiser is a function on the output buffer that may fail. `Appends w fits bs` says that `w`
appends exactly `bs` when `fits` holds and fails otherwise; the rules below follow a serialiser's
`do` block and collect the condition on the way. -/

variable {α β ε : Type}

/-- `r` is the success `a` when `fits` holds, and a failure otherwise. -/
def OkIff (r : Except ε α) (fits : Prop) (a : α) : Prop :=
  (fits → r = .ok a) ∧ (¬ fits → ∃ e, r = .error e)

/-- A continuation that cannot fail keeps the condition. -/
theorem OkIff.bind_ok {r : Except ε α} {f : α → Except ε β} {fits : Prop} {a : α} {b : β}
    (h : OkIff r fits a) (hf : f a = .ok b) : OkIff (r >>= f) fits b := by
  refine ⟨fun hfits => ?_, fun hfits => ?_⟩
  · rw [h.1 hfits]
    exact hf
  · obtain ⟨e, he⟩ := h.2 hfits
    exact ⟨e, by rw [he]; rfl⟩

/-- `w` appends `bs` when `fits` holds, and fails otherwise. -/
def Appends (w : List α → Except ε (List α)) (fits : Prop) (bs : List α) : Prop :=
  ∀ out, OkIff (w out) fits (out ++ bs)

namespace Appends

variable {fits : Prop}

theorem pure (bs : List α) :
    Appends (fun out => (.ok (out ++ bs) : Except ε (List α))) True bs :=
  fun _ => ⟨fun _ => rfl, fun h => absurd trivial h⟩

theorem nil : Appends (fun out => (.ok out : Except ε (List α))) True [] :=
  fun out => ⟨fun _ => by rw [List.append_nil], fun h => absurd trivial h⟩

theorem congr {w : List α → Except ε (List α)} {fits' : Prop} {bs : List α} (hw : Appends w fits bs)
    (h : fits ↔ fits') : Appends w fits' bs :=
  propext h ▸ hw

theorem bind {w w' : List α → Except ε (List α)} {fits' : Prop} {bs bs' : List α}
    (hw : Appends w fits bs) (hw' : Appends w' fits' bs') :
    Appends (fun out => w out >>= w') (fits ∧ fits') (bs ++ bs') := by
  intro out
  refine ⟨fun h => ?_, fun h => ?_⟩
  · show w out >>= w' = _
    rw [(hw out).1 h.1, ← List.append_assoc]
    exact (hw' _).1 h.2
  · show ∃ e, w out >>= w' = _
    by_cases hfits : fits
    · rw [(hw out).1 hfits]
      exact (hw' _).2 fun h' => h ⟨hfits, h'⟩
    · obtain ⟨e, he⟩ := (hw out).2 hfits
      exact ⟨e, by rw [he]; rfl⟩

/-- Bytes that are written without a check before the rest. -/
theorem prepend {w : List α → Except ε (List α)} {bs : List α} (cs : List α)
    (hw : Appends w fits bs) : Appends (fun out => w (out ++ cs)) fits (cs ++ bs) := by
  intro out
  rw [← List.append_assoc]
  exact hw (out ++ cs)

/-- A loop that appends one piece for every element. -/
theorem foldlM {step : List α → β → Except ε (List α)} {fits : β → Prop} {f : β → List α}
    (hstep : ∀ b, Appends (fun out => step out b) (fits b) (f b)) (bs : List β) :
    Appends (fun out => bs.foldlM step out) (∀ b ∈ bs, fits b) (bs.flatMap f) := by
  induction bs with
  | nil => exact nil.congr (by simp)
  | cons b bs ih =>
    have h := (hstep b).bind ih
    exact h.congr (by simp)

end Appends
