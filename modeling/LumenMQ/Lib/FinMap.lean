import Mathlib.Data.List.AList
import Mathlib.Order.Bounds.Basic

set_option autoImplicit false

/-! # Finite maps

Hash maps are modelled by Mathlib's association lists without duplicate keys. This file names the
pairs of such a map and says how `lookup` sees an update; `foldMax` gathers a list of pairs into the
map of the greatest value seen for each key. -/

variable {α β : Type} [DecidableEq α]

/-- Finite maps from `α` to `β`. -/
abbrev FinMap (α β : Type) := AList (fun _ : α => β)

namespace FinMap

/-- The pairs of a map, in the order they are stored. -/
def toPairs (m : FinMap α β) : List (α × β) := m.entries.map (fun e => (e.1, e.2))

omit [DecidableEq α] in
theorem toPairs_keys (m : FinMap α β) : m.toPairs.map Prod.fst = m.keys := by
  simp [toPairs, AList.keys, List.keys]

omit [DecidableEq α] in
/-- A map lists every key once. -/
theorem toPairs_nodup (m : FinMap α β) : (m.toPairs.map Prod.fst).Nodup := by
  rw [toPairs_keys]
  exact m.keys_nodup

/-- The value of a key. -/
def get (m : FinMap α β) (a : α) : Option β := m.lookup a

theorem mem_toPairs {m : FinMap α β} {a : α} {b : β} :
    (a, b) ∈ m.toPairs ↔ m.get a = some b := by
  rw [get, ← Option.mem_def, AList.mem_lookup_iff, toPairs, List.mem_map]
  constructor
  · rintro ⟨⟨a', b'⟩, he, heq⟩
    simp only [Prod.mk.injEq] at heq
    obtain ⟨rfl, rfl⟩ := heq
    exact he
  · intro h
    exact ⟨⟨a, b⟩, h, rfl⟩

/-- The pair of a key among the pairs of a map. -/
theorem filter_toPairs (m : FinMap α β) (a : α) :
    m.toPairs.filter (fun p => p.1 = a) = (m.get a).toList.map (fun b => (a, b)) := by
  have hlist : ∀ l : List (α × β), (l.map Prod.fst).Nodup → ∀ b, (a, b) ∈ l →
      l.filter (fun p => p.1 = a) = [(a, b)] := by
    intro l
    induction l with
    | nil => exact fun _ b h => absurd h List.not_mem_nil
    | cons p l ih =>
      intro hnd b h
      rw [List.map_cons, List.nodup_cons] at hnd
      rcases List.mem_cons.1 h with rfl | h
      · -- nothing behind has the same key
        rw [List.filter_cons_of_pos (by simp), List.filter_eq_nil_iff.2]
        rintro ⟨a', b'⟩ hmem heq
        exact hnd.1 (List.mem_map.2 ⟨(a', b'), hmem, of_decide_eq_true heq⟩)
      · have hne : p.1 ≠ a := fun heq => hnd.1 (List.mem_map.2 ⟨(a, b), h, heq.symm⟩)
        rw [List.filter_cons_of_neg (by simpa using hne), ih hnd.2 b h]
  cases hget : m.get a with
  | some b => exact hlist m.toPairs m.toPairs_nodup b (mem_toPairs.2 hget)
  | none =>
    refine List.filter_eq_nil_iff.2 ?_
    rintro ⟨a', b⟩ hmem heq
    rw [← of_decide_eq_true heq, mem_toPairs.1 hmem] at hget
    cases hget

@[simp] theorem get_empty (a : α) : get (∅ : FinMap α β) a = none := AList.lookup_empty a

theorem get_insert (m : FinMap α β) (a a' : α) (b : β) :
    get (m.insert a b) a' = if a' = a then some b else m.get a' := by
  by_cases h : a' = a
  · subst h
    simp [get]
  · rw [if_neg h, get, AList.lookup_insert_ne h, get]

@[simp] theorem get_insert_self (m : FinMap α β) (a : α) (b : β) :
    get (m.insert a b) a = some b := by
  rw [get_insert, if_pos rfl]

theorem get_insert_ne (m : FinMap α β) {a a' : α} (b : β) (h : a' ≠ a) :
    get (m.insert a b) a' = m.get a' := by
  rw [get_insert, if_neg h]

theorem get_erase (m : FinMap α β) (a a' : α) :
    get (m.erase a) a' = if a' = a then none else m.get a' := by
  by_cases h : a' = a
  · subst h
    simp [get]
  · rw [if_neg h, get, AList.lookup_erase_ne h, get]

/-- An entry behind an insertion is the one inserted or was there before. -/
theorem get_insert_cases {m : FinMap α β} {a a' : α} {b b' : β}
    (h : get (m.insert a b) a' = some b') : a' = a ∧ b' = b ∨ a' ≠ a ∧ m.get a' = some b' := by
  rw [get_insert] at h
  split_ifs at h with ha
  · exact .inl ⟨ha, (Option.some.inj h).symm⟩
  · exact .inr ⟨ha, h⟩

/-- What is there behind an erasure was there before. -/
theorem get_of_erase {m : FinMap α β} {a a' : α} {b : β} (h : get (m.erase a) a' = some b) :
    m.get a' = some b := by
  rw [get_erase] at h
  split_ifs at h
  exact h

theorem get_foldl_erase (as : List α) (m : FinMap α β) (a : α) :
    get (as.foldl (fun m a => m.erase a) m) a = if a ∈ as then none else m.get a := by
  induction as generalizing m with
  | nil => simp
  | cons x as ih =>
    rw [List.foldl_cons, ih, get_erase]
    by_cases hx : a = x
    · simp [hx]
    · simp [hx]

theorem get_foldl_insert_of_notMem {ps : List (α × β)} {a : α} (h : a ∉ ps.map Prod.fst)
    (m : FinMap α β) : get (ps.foldl (fun m p => m.insert p.1 p.2) m) a = m.get a := by
  induction ps generalizing m with
  | nil => rfl
  | cons p ps ih =>
    rw [List.map_cons, List.mem_cons, not_or] at h
    rw [List.foldl_cons, ih h.2, get_insert_ne m p.2 h.1]

/-- Entering pairs with different keys one after the other. -/
theorem get_foldl_insert_of_mem {ps : List (α × β)} (hnd : (ps.map Prod.fst).Nodup) {a : α}
    {b : β} (h : (a, b) ∈ ps) (m : FinMap α β) :
    get (ps.foldl (fun m p => m.insert p.1 p.2) m) a = some b := by
  induction ps generalizing m with
  | nil => exact absurd h List.not_mem_nil
  | cons p ps ih =>
    rw [List.map_cons, List.nodup_cons] at hnd
    rw [List.foldl_cons]
    rcases List.mem_cons.1 h with rfl | h
    · rw [get_foldl_insert_of_notMem hnd.1, get_insert_self]
    · exact ih hnd.2 h _

theorem get_eq_none_of_entries_nil {m : FinMap α β} (h : m.entries = []) (a : α) :
    m.get a = none := by
  by_contra hne
  obtain ⟨b, hb⟩ := Option.ne_none_iff_exists'.1 hne
  rw [← mem_toPairs, toPairs, h] at hb
  simp at hb

theorem mem_keys {m : FinMap α β} {a : α} : a ∈ m.keys ↔ (m.get a).isSome = true := by
  rw [← toPairs_keys, List.mem_map, Option.isSome_iff_exists]
  constructor
  · rintro ⟨⟨a', b⟩, hab, rfl⟩
    exact ⟨b, mem_toPairs.1 hab⟩
  · rintro ⟨b, hb⟩
    exact ⟨(a, b), mem_toPairs.2 hb, rfl⟩

theorem eq_empty_of_get {m : FinMap α β} (h : ∀ a, m.get a = none) : m = ∅ := by
  refine AList.ext ?_
  show m.entries = []
  refine List.eq_nil_iff_forall_not_mem.2 (fun e he => ?_)
  have hmem : (m.get e.1).isSome = true := mem_keys.1 (List.mem_map_of_mem he)
  rw [h] at hmem
  exact absurd hmem (by simp)

/-- A map whose keys are among those of another is no longer. -/
theorem length_le_of_isSome {m m' : FinMap α β}
    (h : ∀ a, (m'.get a).isSome = true → (m.get a).isSome = true) :
    m'.entries.length ≤ m.entries.length := by
  have hsub : m'.keys ⊆ m.keys := by
    intro a ha
    exact mem_keys.2 (h a (mem_keys.1 ha))
  have hle := (List.subperm_of_subset m'.keys_nodup hsub).length_le
  rwa [← toPairs_keys, ← toPairs_keys, List.length_map, List.length_map, toPairs, toPairs,
    List.length_map, List.length_map] at hle

theorem length_insert_le (m : FinMap α β) (a : α) (b : β) :
    (m.insert a b).entries.length ≤ m.entries.length + 1 := by
  rw [AList.entries_insert, List.length_cons]
  exact Nat.succ_le_succ (List.kerase_sublist a m.entries).length_le

/-! ## Counting -/

section count

/-- The number of values with a property. -/
def count (p : β → Bool) (m : FinMap α β) : Nat := m.entries.countP (fun e => p e.2)

theorem count_eq_zero {p : β → Bool} {m : FinMap α β} (h : ∀ a b, m.get a = some b → p b = false) :
    count p m = 0 := by
  rw [count, List.countP_eq_zero]
  intro e he
  simp [h e.1 e.2 (AList.mem_lookup_iff.2 he)]

/-- Leaving out a key takes away its value, if it has one. -/
theorem count_erase (p : β → Bool) (m : FinMap α β) (a : α) :
    count p (m.erase a) + (if (m.get a).any p then 1 else 0) = count p m := by
  by_cases ha : a ∈ m.keys
  · obtain ⟨b, l1, l2, hnot, hm, herase⟩ := List.exists_of_kerase ha
    have hget : m.get a = some b := by
      rw [get, ← Option.mem_def, AList.mem_lookup_iff, hm]
      simp
    have hcnt : count p (m.erase a) = (l1 ++ l2).countP (fun e => p e.2) := by
      rw [← herase]
      rfl
    rw [hcnt, count, hm, hget]
    simp only [List.countP_append, List.countP_cons, Option.any_some]
    omega
  · have hnone : m.get a = none := by
      rwa [mem_keys, Bool.not_eq_true, Option.isSome_eq_false_iff, Option.isNone_iff_eq_none] at ha
    have herase : (m.erase a).entries = m.entries := List.kerase_of_notMem_keys ha
    rw [count, herase, hnone]
    rfl

/-- Entering a value puts it in the place of the one before it. -/
theorem count_insert (p : β → Bool) (m : FinMap α β) (a : α) (b : β) :
    count p (m.insert a b) + (if (m.get a).any p then 1 else 0) =
      count p m + (if p b then 1 else 0) := by
  have hcnt : count p (m.insert a b) = count p (m.erase a) + (if p b then 1 else 0) := by
    rw [count, AList.entries_insert, List.countP_cons]
    rfl
  rw [hcnt, ← count_erase p m a]
  omega

theorem count_insert_of_none (p : β → Bool) {m : FinMap α β} {a : α} (b : β)
    (h : m.get a = none) : count p (m.insert a b) = count p m + (if p b then 1 else 0) := by
  simpa [h] using count_insert p m a b

/-- A value that is replaced by one alike. -/
theorem count_insert_of_some (p : β → Bool) {m : FinMap α β} {a : α} {b b' : β}
    (h : m.get a = some b) (hp : p b' = p b) : count p (m.insert a b') = count p m := by
  have hcnt := count_insert p m a b'
  rw [h, hp, Option.any_some] at hcnt
  exact Nat.add_right_cancel hcnt

/-- Leaving out keys whose values do not count. -/
theorem count_foldl_erase (p : β → Bool) {as : List α} {m : FinMap α β}
    (h : ∀ a ∈ as, ∀ b, m.get a = some b → p b = false) :
    count p (as.foldl (fun m a => m.erase a) m) = count p m := by
  induction as generalizing m with
  | nil => rfl
  | cons a as ih =>
    rw [List.forall_mem_cons] at h
    rw [List.foldl_cons, ih]
    · have hcnt := count_erase p m a
      have hany : (m.get a).any p = false := by
        cases hget : m.get a with
        | none => rfl
        | some b => exact h.1 b hget
      rwa [hany, if_neg Bool.false_ne_true, Nat.add_zero] at hcnt
    · intro a' ha' b hb
      rw [get_erase] at hb
      split_ifs at hb
      exact h.2 a' ha' b hb

omit [DecidableEq α] in
theorem countP_filter_toPairs (p q : β → Bool) (m : FinMap α β) :
    (m.toPairs.filter (fun e => q e.2)).countP (fun e => p e.2) = count
    (fun b => p b && q b) m := by
  rw [List.countP_filter, toPairs, List.countP_map, count]
  rfl

end count

/-! ## Greatest values -/

section foldMax

variable [LinearOrder β]

/-- One more pair: a new key is entered, a known one keeps the greater value. -/
def keepMax (m : FinMap α β) (p : α × β) : FinMap α β :=
  match m.get p.1 with
  | some b => if p.2 > b then m.insert p.1 p.2 else m
  | none => m.insert p.1 p.2

/-- The greatest value of each key of a list of pairs. -/
def foldMax (ps : List (α × β)) : FinMap α β := ps.foldl keepMax ∅

theorem get_keepMax (m : FinMap α β) (p : α × β) (a : α) :
    get (keepMax m p) a =
      if a = p.1 then some ((m.get a).elim p.2 (max p.2)) else m.get a := by
  by_cases ha : a = p.1
  · subst ha
    rw [if_pos rfl, keepMax]
    cases hl : m.get p.1 with
    | none => simp
    | some b =>
      by_cases hgt : p.2 > b
      · simp [hgt, max_eq_left (le_of_lt hgt)]
      · simp [hgt, hl, max_eq_right (not_lt.1 hgt)]
  · rw [if_neg ha, keepMax]
    cases m.get p.1 with
    | none => simp [get_insert_ne m p.2 ha]
    | some b =>
      by_cases hgt : p.2 > b
      · simp [hgt, get_insert_ne m p.2 ha]
      · simp [hgt]

/-- What the fold has found for a key, from a map that already holds `m.get a`. -/
theorem foldl_keepMax_isGreatest (ps : List (α × β)) (m : FinMap α β) (a : α) (b : β) :
    get (ps.foldl keepMax m) a = some b ↔
      IsGreatest {b | m.get a = some b ∨ (a, b) ∈ ps} b := by
  induction ps generalizing m with
  | nil =>
    simp only [List.foldl_nil, List.not_mem_nil, or_false]
    constructor
    · intro h
      refine ⟨h, ?_⟩
      intro b' hb'
      have heq : some b = some b' := h.symm.trans hb'
      exact le_of_eq (Option.some.inj heq).symm
    · intro h
      exact h.1
  | cons p ps ih =>
    rw [List.foldl_cons, ih]
    -- the new map and the old map with the pair `p` have the same upper bounds and the same maximum
    obtain ⟨k, v⟩ := p
    by_cases hk : a = k
    · subst hk
      simp only [get_keepMax, if_true, Option.some.injEq, List.mem_cons, Prod.mk.injEq, true_and]
      cases hl : m.get a with
      | none =>
        simp [eq_comm]
      | some b0 =>
        simp only [Option.elim_some, Option.some.injEq]
        constructor
        · rintro ⟨hmem, hub⟩
          have hmax : max v b0 ≤ b := hub (.inl rfl)
          refine ⟨?_, ?_⟩
          · rcases hmem with hb | hb
            · rcases le_total v b0 with h | h
              · exact .inl (by rw [← hb, max_eq_right h])
              · exact .inr (.inl (by rw [← hb, max_eq_left h]))
            · exact .inr (.inr hb)
          · rintro b' (rfl | rfl | hb')
            · exact le_trans (le_max_right _ _) hmax
            · exact le_trans (le_max_left _ _) hmax
            · exact hub (.inr hb')
        · rintro ⟨hmem, hub⟩
          have hv : v ≤ b := hub (.inr (.inl rfl))
          have hb0 : b0 ≤ b := hub (.inl rfl)
          refine ⟨?_, ?_⟩
          · rcases hmem with rfl | rfl | hb
            · exact .inl (max_eq_right hv)
            · exact .inl (max_eq_left hb0)
            · exact .inr hb
          · rintro b' (rfl | hb')
            · exact max_le hv hb0
            · exact hub (.inr (.inr hb'))
    · simp [get_keepMax, hk]

theorem foldMax_isGreatest (ps : List (α × β)) (a : α) (b : β) :
    get (foldMax ps) a = some b ↔ IsGreatest {b | (a, b) ∈ ps} b := by
  rw [foldMax, foldl_keepMax_isGreatest]
  simp

end foldMax

/-! ## The pairs in order -/

section sorted

omit [DecidableEq α] in
/-- In a list in strict order an element stands behind those that are less. -/
theorem getElem?_eq_some_iff_countP [LinearOrder α] {l : List α} (h : l.Pairwise (· < ·)) (i : Nat)
    (a : α) : l[i]? = some a ↔ a ∈ l ∧ i = l.countP (fun x => x < a) := by
  induction l generalizing i with
  | nil => simp
  | cons x xs ih =>
    rw [List.pairwise_cons] at h
    obtain ⟨hx, hxs⟩ := h
    -- nothing behind `x` is less than `x`
    have hzero : xs.countP (fun y => y < x) = 0 := by
      rw [List.countP_eq_zero]
      intro y hy
      simpa using le_of_lt (hx y hy)
    cases i with
    | zero =>
      rw [List.getElem?_cons_zero, Option.some.injEq]
      constructor
      · rintro rfl
        simp [hzero]
      · rintro ⟨hmem, hcnt⟩
        rcases List.mem_cons.1 hmem with rfl | hmem
        · rfl
        · simp [hx a hmem] at hcnt
    | succ i =>
      rw [List.getElem?_cons_succ, ih hxs]
      constructor
      · rintro ⟨hmem, rfl⟩
        simp [hmem, hx a hmem]
      · rintro ⟨hmem, hcnt⟩
        rcases List.mem_cons.1 hmem with rfl | hmem
        · simp [hzero] at hcnt
        · refine ⟨hmem, ?_⟩
          simpa [hx a hmem] using hcnt

variable [LinearOrder α]

/-- The pairs of a map in the order of their keys. -/
def sorted (m : FinMap α β) : List (α × β) :=
  m.toPairs.mergeSort (fun x y => decide (x.1 ≤ y.1))

omit [DecidableEq α] in
theorem length_sorted (m : FinMap α β) : (sorted m).length = m.entries.length := by
  rw [sorted, List.length_mergeSort, toPairs, List.length_map]

theorem mem_sorted {m : FinMap α β} {a : α} {b : β} : (a, b) ∈ sorted m ↔ m.get a = some b := by
  rw [sorted, List.mem_mergeSort, mem_toPairs]

omit [DecidableEq α] in
theorem pairwise_sorted (m : FinMap α β) : ((sorted m).map Prod.fst).Pairwise (· < ·) := by
  have hle : ((sorted m).map Prod.fst).Pairwise (· ≤ ·) := by
    rw [List.pairwise_map]
    refine (List.pairwise_mergeSort ?_ ?_ m.toPairs).imp (fun h => of_decide_eq_true h)
    · intro x y z hxy hyz
      simp only [decide_eq_true_eq] at hxy hyz ⊢
      exact le_trans hxy hyz
    · intro x y
      simpa using le_total x.1 y.1
  have hnd : ((sorted m).map Prod.fst).Nodup :=
    ((List.mergeSort_perm m.toPairs _).map Prod.fst).nodup_iff.2 m.toPairs_nodup
  exact hle.and hnd |>.imp (fun h => lt_of_le_of_ne h.1 h.2)

omit [DecidableEq α] in
theorem sorted_keys_perm (m : FinMap α β) : ((sorted m).map Prod.fst).Perm m.keys := by
  rw [← toPairs_keys]
  exact (List.mergeSort_perm m.toPairs _).map Prod.fst

/-- The place of a key among the sorted pairs: the number of keys that are less. -/
theorem sorted_getElem?_iff (m : FinMap α β) (i : Nat) (a : α) (b : β) :
    (sorted m)[i]? = some (a, b) ↔ m.get a = some b ∧ i = m.keys.countP (fun x => x < a) := by
  have hplace := getElem?_eq_some_iff_countP (pairwise_sorted m) i a
  rw [(sorted_keys_perm m).countP_eq, List.getElem?_map] at hplace
  constructor
  · intro h
    have hget := mem_sorted.1 (List.mem_of_getElem? h)
    exact ⟨hget, (hplace.1 (by rw [h]; rfl)).2⟩
  · rintro ⟨hget, hi⟩
    have hmem : a ∈ (sorted m).map Prod.fst := List.mem_map.2 ⟨(a, b), mem_sorted.2 hget, rfl⟩
    obtain ⟨⟨a', b'⟩, hab, rfl⟩ := Option.map_eq_some_iff.1 (hplace.2 ⟨hmem, hi⟩)
    have hget' := mem_sorted.1 (List.mem_of_getElem? hab)
    rw [hab, ← Option.some.inj (hget.symm.trans hget')]

omit [DecidableEq α] in
/-- The keys in order depend on the keys only, not on how the map was built. -/
theorem sorted_keys_congr {m m' : FinMap α β} (h : ∀ a, a ∈ m.keys ↔ a ∈ m'.keys) :
    (sorted m).map Prod.fst = (sorted m').map Prod.fst := by
  have hperm : ((sorted m).map Prod.fst).Perm ((sorted m').map Prod.fst) :=
    ((sorted_keys_perm m).trans ((List.perm_ext_iff_of_nodup m.keys_nodup m'.keys_nodup).2 h)).trans
      (sorted_keys_perm m').symm
  refine hperm.eq_of_pairwise ?_ (pairwise_sorted m) (pairwise_sorted m')
  intro x y _ _ hxy hyx
  exact absurd hyx (lt_asymm hxy)

end sorted

end FinMap
