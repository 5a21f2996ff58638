import Mathlib.Data.Nat.Basic
import Mathlib.Tactic.Ring
import Mathlib.Tactic.Linarith
import Mathlib.Tactic.Positivity

set_option autoImplicit false

/-! # Big-endian integers

`beBytes k n` is the `k`-byte big-endian form of `n` and `ofBeBytes` reads such a form back. The two
are inverse to each other on `n < 256 ^ k`, and keep the order there. -/

/-- The `k` low-order bytes of `n`, most significant first. -/
def beBytes : Nat → Nat → List UInt8
  | 0, _ => []
  | k + 1, n => UInt8.ofNat (n / 256 ^ k) :: beBytes k n

/-- The number a big-endian byte string denotes. -/
def ofBeBytes (bs : List UInt8) : Nat :=
  bs.foldl (fun acc b => acc * 256 + b.toNat) 0

@[simp] theorem length_beBytes (k n : Nat) : (beBytes k n).length = k := by
  induction k with
  | zero => rfl
  | succ k ih => simp [beBytes, ih]

/-- Reading `beBytes k n` onto an accumulator shifts it by `k` bytes and adds `n` modulo that. -/
theorem foldl_beBytes (k n acc : Nat) :
    (beBytes k n).foldl (fun acc b => acc * 256 + b.toNat) acc = acc * 256 ^ k + n % 256 ^ k := by
  induction k generalizing acc with
  | zero => simp [beBytes, Nat.mod_one]
  | succ k ih =>
    have hbyte : (UInt8.ofNat (n / 256 ^ k)).toNat = n / 256 ^ k % 256 := by simp
    have hsplit : n % 256 ^ (k + 1) = n % 256 ^ k + 256 ^ k * (n / 256 ^ k % 256) := by
      rw [Nat.pow_succ, Nat.mod_mul]
    rw [beBytes, List.foldl_cons, ih, hbyte, hsplit, Nat.pow_succ]
    ring

theorem ofBeBytes_beBytes {k n : Nat} (h : n < 256 ^ k) : ofBeBytes (beBytes k n) = n := by
  rw [ofBeBytes, foldl_beBytes, Nat.zero_mul, Nat.zero_add, Nat.mod_eq_of_lt h]

theorem foldl_ofBeBytes (bs : List UInt8) (acc : Nat) :
    bs.foldl (fun acc b => acc * 256 + b.toNat) acc = acc * 256 ^ bs.length + ofBeBytes bs := by
  induction bs generalizing acc with
  | nil => simp [ofBeBytes]
  | cons b bs ih =>
    rw [ofBeBytes, List.foldl_cons, List.foldl_cons, ih, ih (0 * 256 + b.toNat), List.length_cons,
      Nat.pow_succ]
    ring

theorem ofBeBytes_cons (b : UInt8) (bs : List UInt8) :
    ofBeBytes (b :: bs) = b.toNat * 256 ^ bs.length + ofBeBytes bs := by
  rw [ofBeBytes, List.foldl_cons, foldl_ofBeBytes, Nat.zero_mul, Nat.zero_add]

theorem ofBeBytes_lt (bs : List UInt8) : ofBeBytes bs < 256 ^ bs.length := by
  induction bs with
  | nil => simp [ofBeBytes]
  | cons b bs ih =>
    have hb : (b.toNat + 1) * 256 ^ bs.length ≤ 256 * 256 ^ bs.length :=
      Nat.mul_le_mul_right _ b.toNat_lt
    rw [ofBeBytes_cons, List.length_cons, Nat.pow_succ]
    linarith

/-- The low `k` bytes do not see multiples of `256 ^ k`. -/
theorem beBytes_add_mul (k n m : Nat) : beBytes k (m * 256 ^ k + n) = beBytes k n := by
  induction k generalizing m with
  | zero => rfl
  | succ k ih =>
    have hshift : m * 256 ^ (k + 1) + n = (m * 256) * 256 ^ k + n := by
      rw [Nat.pow_succ]
      ring
    have hbyte : (m * 256 * 256 ^ k + n) / 256 ^ k = m * 256 + n / 256 ^ k := by
      rw [Nat.add_comm, Nat.add_mul_div_right _ _ (by positivity), Nat.add_comm]
    rw [beBytes, beBytes, hshift, ih, hbyte]
    congr 1
    apply UInt8.toNat.inj
    simp

theorem beBytes_ofBeBytes (bs : List UInt8) : beBytes bs.length (ofBeBytes bs) = bs := by
  induction bs with
  | nil => rfl
  | cons b bs ih =>
    have hdiv : (b.toNat * 256 ^ bs.length + ofBeBytes bs) / 256 ^ bs.length = b.toNat := by
      rw [Nat.add_comm, Nat.add_mul_div_right _ _ (by positivity),
        Nat.div_eq_of_lt (ofBeBytes_lt bs), Nat.zero_add]
    rw [ofBeBytes_cons, List.length_cons, beBytes, hdiv, beBytes_add_mul, ih, UInt8.ofNat_toNat]

theorem beBytes_mod (k n : Nat) : beBytes k (n % 256 ^ k) = beBytes k n := by
  have h := beBytes_add_mul k (n % 256 ^ k) (n / 256 ^ k)
  rw [Nat.div_add_mod' n (256 ^ k)] at h
  exact h.symm

/-- Numbers have the same low `k` bytes exactly if they agree modulo `256 ^ k`. -/
theorem beBytes_eq_iff {k n m : Nat} : beBytes k n = beBytes k m ↔ n % 256 ^ k = m % 256 ^ k := by
  constructor
  · intro h
    have hread := congrArg ofBeBytes h
    simpa only [ofBeBytes, foldl_beBytes, Nat.zero_mul, Nat.zero_add] using hread
  · intro h
    rw [← beBytes_mod k n, h, beBytes_mod]

/-- Forms of one length are ordered like the numbers they denote. -/
theorem beBytes_lex {k a b : Nat} (hab : a < b) (hb : b < 256 ^ k) :
    List.Lex (· < ·) (beBytes k a) (beBytes k b) := by
  induction k generalizing a b with
  | zero => omega
  | succ k ih =>
    have hbyte : b / 256 ^ k < 256 := Nat.div_lt_of_lt_mul (by rwa [Nat.pow_succ] at hb)
    rcases Nat.lt_or_eq_of_le (Nat.div_le_div_right (c := 256 ^ k) hab.le) with hlt | heq
    · refine .rel ?_
      rw [UInt8.lt_iff_toNat_lt]
      simp only [UInt8.toNat_ofNat']
      rw [Nat.mod_eq_of_lt (hlt.trans hbyte), Nat.mod_eq_of_lt hbyte]
      exact hlt
    · rw [beBytes, beBytes, heq]
      refine .cons ?_
      rw [← beBytes_mod k a, ← beBytes_mod k b]
      refine ih ?_ (Nat.mod_lt _ (by positivity))
      have hdiv := Nat.div_add_mod' a (256 ^ k)
      have hsplit := Nat.div_add_mod' b (256 ^ k)
      rw [heq] at hdiv
      omega
