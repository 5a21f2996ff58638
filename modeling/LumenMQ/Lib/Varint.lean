import Mathlib.Data.Nat.Basic
import Mathlib.Tactic.Ring
import Mathlib.Tactic.NormNum

set_option autoImplicit false

/-! # Variable byte integers

Base-128 integers, least significant group first: every byte carries seven bits and a continuation
bit, set on all bytes but the last. `Varint.encode` is the shortest form, `Varint.value` the number
a form denotes, and `Varint.IsForm` says that a byte string is one whole form. -/

namespace Varint

variable {bs : List UInt8} {n : Nat}

/-- The seven bits a byte contributes. -/
def group (b : UInt8) : Nat := (b &&& 0x7F).toNat

/-- Whether another byte follows. -/
def continues (b : UInt8) : Bool := b &&& 0x80 != 0

theorem group_eq (b : UInt8) : group b = b.toNat % 128 := by
  rw [group, UInt8.toNat_and]
  exact Nat.and_two_pow_sub_one_eq_mod b.toNat 7

theorem continues_iff (b : UInt8) : continues b = true ↔ 128 ≤ b.toNat := by
  have key : ∀ n : Fin 256, (UInt8.ofNat n &&& 0x80 != 0) = decide (128 ≤ n.val) := by
    decide +kernel
  have hb := key ⟨b.toNat, b.toNat_lt⟩
  simp only [UInt8.ofNat_toNat] at hb
  rw [continues, hb, decide_eq_true_iff]

/-- The number a byte string denotes. -/
def value : List UInt8 → Nat
  | [] => 0
  | b :: bs => group b + 128 * value bs

/-- A byte string that is one whole form: all bytes but the last announce another one. -/
def IsForm : List UInt8 → Prop
  | [] => False
  | [b] => continues b = false
  | b :: bs => continues b = true ∧ IsForm bs

theorem IsForm.cons {b : UInt8} (hb : continues b = true) (h : IsForm bs) : IsForm (b :: bs) := by
  cases bs with
  | nil => exact h.elim
  | cons c cs => exact ⟨hb, h⟩

/-- Case analysis on a form: a last byte, or a continuing byte before a form. -/
theorem IsForm.cases_cons {b : UInt8} (h : IsForm (b :: bs)) :
    (bs = [] ∧ continues b = false) ∨ (continues b = true ∧ IsForm bs) := by
  cases bs with
  | nil => exact .inl ⟨rfl, h⟩
  | cons c cs => exact .inr h

theorem IsForm.ne_nil (h : IsForm bs) : bs ≠ [] := by
  rintro rfl
  exact h

/-- The shortest form of a number. -/
def encode (n : Nat) : List UInt8 :=
  if n / 128 > 0 then (UInt8.ofNat (n % 128) ||| 0x80) :: encode (n / 128)
  else [UInt8.ofNat (n % 128)]
termination_by n
decreasing_by omega

/-- A byte with its continuation bit set still carries its seven bits. -/
theorem toNat_or_high (h : n < 128) : (UInt8.ofNat n ||| 0x80).toNat = n + 128 := by
  have key : ∀ i : Fin 128, (UInt8.ofNat i ||| 0x80).toNat = i.val + 128 := by decide +kernel
  exact key ⟨n, h⟩

theorem toNat_ofNat_low (h : n < 128) : (UInt8.ofNat n).toNat = n := by
  simp only [UInt8.toNat_ofNat']
  omega

theorem encode_isForm (n : Nat) : IsForm (encode n) := by
  induction n using encode.induct with
  | case1 n hn ih =>
    rw [encode, if_pos hn]
    refine IsForm.cons ?_ ih
    rw [continues_iff, toNat_or_high (by omega)]
    omega
  | case2 n hn =>
    rw [encode, if_neg hn]
    refine eq_false_of_ne_true fun hc => ?_
    rw [continues_iff, toNat_ofNat_low (by omega)] at hc
    omega

theorem value_encode (n : Nat) : value (encode n) = n := by
  induction n using encode.induct with
  | case1 n hn ih =>
    rw [encode, if_pos hn, value, ih, group_eq, toNat_or_high (by omega)]
    omega
  | case2 n hn =>
    rw [encode, if_neg hn, value, value, group_eq, toNat_ofNat_low (by omega)]
    omega

/-- A number below `128 ^ (k + 1)` takes at most `k + 1` bytes. -/
theorem length_encode_le {k : Nat} (h : n < 128 ^ (k + 1)) : (encode n).length ≤ k + 1 := by
  induction k generalizing n with
  | zero =>
    rw [encode, if_neg (by omega)]
    simp
  | succ k ih =>
    rw [encode]
    split
    · have hlt : n / 128 < 128 ^ (k + 1) := by
        rw [Nat.div_lt_iff_lt_mul (by norm_num), ← Nat.pow_succ]
        exact h
      simpa using ih hlt
    · simp

/-- A form of `k` bytes denotes a number below `128 ^ k`. -/
theorem value_lt (bs : List UInt8) : value bs < 128 ^ bs.length := by
  induction bs with
  | nil => exact Nat.zero_lt_one
  | cons b bs ih =>
    have hgroup : group b < 128 := by
      rw [group_eq]
      exact Nat.mod_lt _ (by norm_num)
    rw [value, List.length_cons, Nat.pow_succ]
    omega

/-- No form of a number is shorter than the encoder's form of a number at most that large. -/
theorem length_encode_le_of_form (hform : IsForm bs) (hn : n ≤ value bs) :
    (encode n).length ≤ bs.length := by
  obtain ⟨k, hk⟩ : ∃ k, bs.length = k + 1 :=
    ⟨bs.length - 1, by have := List.length_pos_iff.mpr hform.ne_nil; omega⟩
  have hlt := value_lt bs
  rw [hk] at hlt ⊢
  exact length_encode_le (lt_of_le_of_lt hn hlt)

end Varint
