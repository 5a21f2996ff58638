import Mathlib.Data.List.Lex
import Mathlib.Data.List.Nodup
import Mathlib.Data.List.Pairwise
import Mathlib.Data.List.Sort
import Mathlib.Order.Defs.LinearOrder

set_option autoImplicit false

/-! # Ordered maps

A persistent map whose entries are visited in the order of their keys: a list of entries with
strictly increasing keys. Every operation cuts the list by a comparison with the key, so that the
order of the result is inherited from the order of the entries. -/

/-- Maps from `α` to `β` that are iterated in the order of their keys. -/
structure OrderedMap (α β : Type) [LinearOrder α] where
  entries : List (α × β)
  sorted : entries.Pairwise (fun a b => a.1 < b.1)

namespace OrderedMap

variable {α β : Type} [LinearOrder α]

def empty : OrderedMap α β := ⟨[], List.Pairwise.nil⟩

def get (m : OrderedMap α β) (a : α) : Option β :=
  (m.entries.find? (fun e => e.1 = a)).map Prod.snd

instance : Inhabited (OrderedMap α β) := ⟨empty⟩

/-- Keep the entries that satisfy a test. -/
def filter (m : OrderedMap α β) (p : α × β → Bool) : OrderedMap α β :=
  ⟨m.entries.filter p, m.sorted.filter p⟩

def remove (m : OrderedMap α β) (a : α) : OrderedMap α β := m.filter (fun e => e.1 ≠ a)

theorem sorted_insert (m : OrderedMap α β) (a : α) (b : β) :
    (m.entries.filter (fun e => e.1 < a) ++ (a, b) :: m.entries.filter (fun e => a < e.1)).Pairwise
      (fun x y => x.1 < y.1) := by
  rw [List.pairwise_append, List.pairwise_cons]
  refine ⟨m.sorted.filter _, ⟨?_, m.sorted.filter _⟩, ?_⟩
  · intro e he
    simpa using (List.mem_filter.1 he).2
  · intro x hx y hy
    have hxa : x.1 < a := by simpa using (List.mem_filter.1 hx).2
    rcases List.mem_cons.1 hy with rfl | hy
    · exact hxa
    · have hay : a < y.1 := by simpa using (List.mem_filter.1 hy).2
      exact hxa.trans hay

def insert (m : OrderedMap α β) (a : α) (b : β) : OrderedMap α β :=
  ⟨_, m.sorted_insert a b⟩

/-! ## Membership -/

theorem mem_filter {m : OrderedMap α β} {p : α × β → Bool} {e : α × β} :
    e ∈ (m.filter p).entries ↔ e ∈ m.entries ∧ p e = true :=
  List.mem_filter

theorem mem_remove {m : OrderedMap α β} {a : α} {e : α × β} :
    e ∈ (m.remove a).entries ↔ e ∈ m.entries ∧ e.1 ≠ a := by
  rw [remove, mem_filter]
  simp

theorem mem_insert {m : OrderedMap α β} {a : α} {b : β} {e : α × β} :
    e ∈ (m.insert a b).entries ↔ e = (a, b) ∨ e ∈ m.entries ∧ e.1 ≠ a := by
  simp only [insert, List.mem_append, List.mem_cons, List.mem_filter, decide_eq_true_eq]
  constructor
  · intro h
    rcases h with ⟨he, hlt⟩ | rfl | ⟨he, hlt⟩
    · exact .inr ⟨he, hlt.ne⟩
    · exact .inl rfl
    · exact .inr ⟨he, hlt.ne'⟩
  · intro h
    rcases h with rfl | ⟨he, hne⟩
    · exact .inr (.inl rfl)
    · rcases lt_or_gt_of_ne hne with hlt | hlt
      · exact .inl ⟨he, hlt⟩
      · exact .inr (.inr ⟨he, hlt⟩)

/-! ## Lookup -/

@[simp] theorem get_empty (a : α) : (empty : OrderedMap α β).get a = none := rfl

/-- A key has one entry at most. -/
theorem mem_unique {m : OrderedMap α β} {e e' : α × β} (he : e ∈ m.entries) (he' : e' ∈ m.entries)
    (h : e.1 = e'.1) : e = e' := by
  have hnd : (m.entries.map Prod.fst).Nodup :=
    (List.pairwise_map.2 m.sorted).imp (fun hlt => hlt.ne)
  exact List.inj_on_of_nodup_map hnd he he' h

theorem get_eq_some_iff {m : OrderedMap α β} {a : α} {b : β} :
    m.get a = some b ↔ (a, b) ∈ m.entries := by
  unfold get
  constructor
  · intro h
    obtain ⟨⟨a', b'⟩, hfin, rfl⟩ := Option.map_eq_some_iff.1 h
    have hkey : a' = a := by simpa using List.find?_some hfin
    exact hkey ▸ List.mem_of_find?_eq_some hfin
  · intro h
    cases hfin : m.entries.find? (fun e => e.1 = a) with
    | none =>
      have hne := List.find?_eq_none.1 hfin (a, b) h
      simp at hne
    | some e =>
      have hkey : e.1 = a := by simpa using List.find?_some hfin
      rw [mem_unique (List.mem_of_find?_eq_some hfin) h hkey, Option.map_some]

theorem get_insert (m : OrderedMap α β) (a a' : α) (b : β) :
    (m.insert a b).get a' = if a' = a then some b else m.get a' := by
  refine Option.ext (fun b' => ?_)
  rw [get_eq_some_iff, mem_insert]
  by_cases h : a' = a
  · simp [h, eq_comm]
  · simp [h, get_eq_some_iff]

theorem get_remove (m : OrderedMap α β) (a a' : α) :
    (m.remove a).get a' = if a' = a then none else m.get a' := by
  refine Option.ext (fun b' => ?_)
  rw [get_eq_some_iff, mem_remove]
  by_cases h : a' = a
  · simp [h]
  · simp [h, get_eq_some_iff]

/-! ## A part of the entries -/

/-- Entries in the order of their keys are determined by which they are. -/
theorem entries_eq_of_mem_iff {l l' : List (α × β)} (hl : l.Pairwise (fun a b => a.1 < b.1))
    (hl' : l'.Pairwise (fun a b => a.1 < b.1)) (h : ∀ e, e ∈ l ↔ e ∈ l') : l = l' := by
  have hirrefl : Std.Irrefl (fun a b : α × β => a.1 < b.1) := ⟨fun a => lt_irrefl a.1⟩
  have hantisymm : Std.Antisymm (fun a b : α × β => a.1 < b.1) :=
    ⟨fun a b hab hba => absurd hba hab.not_gt⟩
  exact hl.eq_of_mem_iff hl' h

/-- An entry that fails the test is not seen. -/
theorem filter_insert_of_not {m : OrderedMap α β} {p : α × β → Bool} {a : α} {b : β}
    (hp : ∀ b, p (a, b) = false) : ((m.insert a b).filter p).entries = (m.filter p).entries := by
  refine entries_eq_of_mem_iff (OrderedMap.sorted _) (OrderedMap.sorted _) ?_
  intro e
  rw [mem_filter, mem_filter, mem_insert]
  constructor
  · rintro ⟨rfl | he, htest⟩
    · rw [hp] at htest
      exact absurd htest (by simp)
    · exact ⟨he.1, htest⟩
  · intro he
    refine ⟨.inr ⟨he.1, ?_⟩, he.2⟩
    rintro rfl
    rw [hp] at he
    exact absurd he.2 (by simp)

/-- An entry whose key is greater than those that pass the test comes last. -/
theorem filter_insert_last {m : OrderedMap α β} {p : α × β → Bool} {a : α} {b : β}
    (hp : p (a, b) = true) (hlast : ∀ e ∈ (m.filter p).entries, e.1 < a) :
    ((m.insert a b).filter p).entries = (m.filter p).entries ++ [(a, b)] := by
  refine entries_eq_of_mem_iff (OrderedMap.sorted _) ?_ ?_
  · rw [List.pairwise_append]
    refine ⟨(m.filter p).sorted, List.pairwise_singleton _ _, ?_⟩
    intro e he e' he'
    rw [List.mem_singleton.1 he']
    exact hlast e he
  · intro e
    rw [mem_filter, mem_insert, List.mem_append, List.mem_singleton]
    constructor
    · rintro ⟨rfl | he, htest⟩
      · exact .inr rfl
      · exact .inl (mem_filter.2 ⟨he.1, htest⟩)
    · rintro (he | rfl)
      · have hne := (hlast e he).ne
        rw [mem_filter] at he
        exact ⟨.inr ⟨he.1, hne⟩, he.2⟩
      · exact ⟨.inl rfl, hp⟩

end OrderedMap
