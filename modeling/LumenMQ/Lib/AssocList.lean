import Mathlib.Data.List.Nodup

set_option autoImplicit false

/-! # Association lists

Maps inside a recursive type are plain lists of pairs, read by `List.lookup`. `setEntry` enters or
replaces a value and `removeEntry` takes a key out; neither lets a key occur twice. -/

variable {α β : Type} [DecidableEq α]

/-- Enter or replace the value of a key. -/
def setEntry (a : α) (b : β) : List (α × β) → List (α × β)
  | [] => [(a, b)]
  | (a', b') :: rest => if a' = a then (a, b) :: rest else (a', b') :: setEntry a b rest

/-- Take a key out. -/
def removeEntry (a : α) (entries : List (α × β)) : List (α × β) :=
  entries.filter (fun e => e.1 ≠ a)

theorem lookup_cons_eq_if (a a' : α) (b : β) (rest : List (α × β)) :
    ((a', b) :: rest).lookup a = if a = a' then some b else rest.lookup a := by
  rw [List.lookup_cons]
  by_cases h : a = a'
  · simp [h]
  · simp [h, beq_eq_false_iff_ne.2 h]

theorem lookup_setEntry (a a' : α) (b : β) (entries : List (α × β)) :
    (setEntry a b entries).lookup a' = if a' = a then some b else entries.lookup a' := by
  induction entries with
  | nil => simp [setEntry, lookup_cons_eq_if]
  | cons e rest ih =>
    obtain ⟨k, v⟩ := e
    by_cases hk : k = a
    · subst hk
      by_cases h : a' = k <;> simp [setEntry, lookup_cons_eq_if, h]
    · by_cases h : a' = k
      · subst h
        simp [setEntry, hk]
      · simp [setEntry, lookup_cons_eq_if, hk, h, ih]

/-- Entering the value that is there changes nothing. -/
theorem setEntry_of_lookup {a : α} {b : β} {entries : List (α × β)}
    (h : entries.lookup a = some b) : setEntry a b entries = entries := by
  induction entries with
  | nil => simp at h
  | cons e rest ih =>
    obtain ⟨k, v⟩ := e
    rw [lookup_cons_eq_if] at h
    by_cases hk : k = a
    · subst hk
      rw [if_pos rfl] at h
      cases h
      simp [setEntry]
    · rw [if_neg (Ne.symm hk)] at h
      rw [setEntry, if_neg hk, ih h]

theorem lookup_removeEntry (a a' : α) (entries : List (α × β)) :
    (removeEntry a entries).lookup a' = if a' = a then none else entries.lookup a' := by
  induction entries with
  | nil => simp [removeEntry]
  | cons e rest ih =>
    obtain ⟨k, v⟩ := e
    rw [removeEntry] at ih
    by_cases hk : k = a
    · subst hk
      by_cases h : a' = k
      · simp [removeEntry, h] at ih ⊢
        exact ih
      · simp [removeEntry, lookup_cons_eq_if, h] at ih ⊢
        exact ih
    · by_cases h : a' = k
      · subst h
        simp [removeEntry, hk]
      · simp [removeEntry, lookup_cons_eq_if, hk, h] at ih ⊢
        exact ih

/-! ## Keys -/

theorem mem_keys_setEntry {a a' : α} {b : β} {entries : List (α × β)} :
    a' ∈ (setEntry a b entries).map Prod.fst ↔ a' = a ∨ a' ∈ entries.map Prod.fst := by
  induction entries with
  | nil => simp [setEntry]
  | cons e rest ih =>
    obtain ⟨k, v⟩ := e
    by_cases hk : k = a
    · simp [setEntry, hk]
    · simp only [setEntry, hk, if_false, List.map_cons, List.mem_cons, ih]
      exact or_left_comm

theorem nodup_keys_setEntry {entries : List (α × β)} (h : (entries.map Prod.fst).Nodup) (a : α)
    (b : β) : ((setEntry a b entries).map Prod.fst).Nodup := by
  induction entries with
  | nil => exact List.nodup_singleton a
  | cons e rest ih =>
    obtain ⟨k, v⟩ := e
    rw [List.map_cons, List.nodup_cons] at h
    by_cases hk : k = a
    · rw [setEntry, if_pos hk, List.map_cons, List.nodup_cons]
      exact hk ▸ h
    · rw [setEntry, if_neg hk, List.map_cons, List.nodup_cons]
      refine ⟨fun hmem => ?_, ih h.2⟩
      rcases mem_keys_setEntry.1 hmem with heq | hold
      · exact hk heq
      · exact h.1 hold

theorem nodup_keys_removeEntry {entries : List (α × β)} (h : (entries.map Prod.fst).Nodup) (a : α) :
    ((removeEntry a entries).map Prod.fst).Nodup :=
  h.sublist (List.filter_sublist.map _)

/-- The pairs of a list without repeated keys are those that are looked up. -/
theorem lookup_eq_some_iff_mem {entries : List (α × β)} (h : (entries.map Prod.fst).Nodup) {a : α}
    {b : β} : entries.lookup a = some b ↔ (a, b) ∈ entries := by
  induction entries with
  | nil => simp
  | cons e rest ih =>
    obtain ⟨k, v⟩ := e
    rw [List.map_cons, List.nodup_cons] at h
    rw [lookup_cons_eq_if, List.mem_cons, Prod.mk.injEq]
    by_cases hk : a = k
    · subst hk
      have hout : (a, b) ∉ rest := fun hmem => h.1 (List.mem_map.2 ⟨_, hmem, rfl⟩)
      simp [hout, eq_comm]
    · simp [hk, ih h.2]
