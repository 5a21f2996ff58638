import Mathlib.Data.List.Rotate

set_option autoImplicit false

/-! # Round robin

A counter that is reduced modulo the length of a list and advanced at every turn picks the entries
of the list one after the other. As many turns in a row as the list has entries give the list,
rotated. A cursor that goes through a range of numbers and starts again at its lower end has been
everywhere after as many turns as the range has numbers. -/

namespace RoundRobin

variable {α : Type}
variable {c : Nat}

/-- What `m` turns in a row pick, from a counter that stands at `c`. -/
def picks (l : List α) (c : Nat) : Nat → List α
  | 0 => []
  | m + 1 => l[c % l.length]?.toList ++ picks l (c + 1) m

/-- There is an entry for every turn. -/
theorem getElem?_turn {l : List α} (hl : l ≠ []) (c : Nat) : ∃ a, l[c % l.length]? = some a :=
  ⟨_, List.getElem?_eq_getElem (Nat.mod_lt _ (List.length_pos_iff.mpr hl))⟩

theorem picks_succ {l : List α} {a : α} (ha : l[c % l.length]? = some a) (m : Nat) :
    picks l c (m + 1) = a :: picks l (c + 1) m := by
  rw [picks, ha]
  rfl

theorem getElem?_picks {l : List α} (hl : l ≠ []) {m k : Nat} (hk : k < m) :
    (picks l c m)[k]? = l[(c + k) % l.length]? := by
  induction m generalizing c k with
  | zero => omega
  | succ m ih =>
    obtain ⟨a, ha⟩ := getElem?_turn hl c
    rw [picks_succ ha]
    cases k with
    | zero => rw [List.getElem?_cons_zero, Nat.add_zero, ha]
    | succ k =>
      rw [List.getElem?_cons_succ, ih (by omega)]
      congr 2
      omega

/-- **Fairness.** As many turns in a row as there are entries pick the whole list, each entry as
    often as it occurs in it. -/
theorem picks_window {l : List α} (hl : l ≠ []) {m i : Nat} (hi : i + l.length ≤ m) :
    ((picks l c m).drop i).take l.length = l.rotate (c + i) := by
  refine List.ext_getElem? fun k => ?_
  by_cases hk : k < l.length
  · have hrotate : k < (l.rotate (c + i)).length := by rwa [List.length_rotate]
    rw [List.getElem?_take_of_lt hk, List.getElem?_drop, getElem?_picks hl (by omega),
      List.getElem?_eq_getElem hrotate, List.getElem_rotate,
      List.getElem?_eq_getElem (Nat.mod_lt _ (List.length_pos_iff.mpr hl))]
    congr 2
    congr 1
    omega
  · rw [List.getElem?_take_eq_none (by omega), List.getElem?_eq_none]
    rw [List.length_rotate]
    omega

/-! ## A cursor in a range -/

/-- The number after `v` in the range from `lo` to `hi`, which is followed by `lo`. -/
def next (lo hi v : Nat) : Nat := if hi ≤ v then lo else v + 1

variable {lo hi v : Nat}

theorem next_mem (hlo : lo ≤ v) (hhi : v ≤ hi) : lo ≤ next lo hi v ∧ next lo hi v ≤ hi := by
  unfold next
  split_ifs <;> omega

theorem iterate_next (hlo : lo ≤ v) (hhi : v ≤ hi) (i : Nat) :
    (next lo hi)^[i] v = lo + (v - lo + i) % (hi - lo + 1) := by
  induction i with
  | zero =>
    rw [Function.iterate_zero, id_eq, Nat.add_zero, Nat.mod_eq_of_lt (by omega)]
    omega
  | succ i ih =>
    have hlt : (v - lo + i) % (hi - lo + 1) < hi - lo + 1 := Nat.mod_lt _ (Nat.succ_pos _)
    rw [Function.iterate_succ_apply', ih, next, ← Nat.add_assoc,
      Nat.add_mod (v - lo + i) 1 (hi - lo + 1)]
    generalize (v - lo + i) % (hi - lo + 1) = r at hlt ⊢
    split_ifs with hlast
    · obtain rfl : r = hi - lo := by omega
      by_cases hone : hi - lo + 1 = 1
      · rw [hone, Nat.mod_one, Nat.add_zero]
      · rw [Nat.mod_eq_of_lt (by omega : 1 < hi - lo + 1), Nat.mod_self, Nat.add_zero]
    · rw [Nat.mod_eq_of_lt (by omega : 1 < hi - lo + 1), Nat.mod_eq_of_lt (by omega)]
      omega

/-- Once round, the cursor has been everywhere. -/
theorem exists_iterate_next (hlo : lo ≤ v) (hhi : v ≤ hi) {k : Nat} (hk : lo ≤ k) (hk' : k ≤ hi) :
    ∃ i < hi - lo + 1, (next lo hi)^[i] v = k := by
  refine ⟨(k - lo + (hi - lo + 1 - (v - lo))) % (hi - lo + 1), Nat.mod_lt _ (Nat.succ_pos _), ?_⟩
  rw [iterate_next hlo hhi, Nat.add_mod_mod]
  have hturn : v - lo + (k - lo + (hi - lo + 1 - (v - lo))) = k - lo + (hi - lo + 1) := by omega
  rw [hturn, Nat.add_mod_right, Nat.mod_eq_of_lt (by omega)]
  omega

end RoundRobin
