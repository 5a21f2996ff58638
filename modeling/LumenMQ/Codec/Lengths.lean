import LumenMQ.Codec.Bounds

set_option autoImplicit false

/-! # Variable byte integers, decoded twice

The length of a packet is decoded by `decode_remaining_length`, the lengths within a packet by
`Reader::read_vbi`. The loops test their limit at different places and count with different
integers; they accept the same forms. The same loops with checked arithmetic show that nothing
overflows. -/

namespace LumenMQ

open Varint Reader

variable {w : Nat}

/-- A result of `w`-bit arithmetic, if it does not overflow. -/
def checked (w n : Nat) : Option Nat := if n < 2 ^ w then some n else none

/-- `decodeRemainingLengthLoop` with `w`-bit arithmetic. -/
def decodeRemainingLengthChecked (w : Nat) : Bytes → (multiplier value idx : Nat) →
    Option (Except CodecError (Option (Nat × Nat)))
  | [], _, _, _ => some (.ok none)
  | byte :: rest, multiplier, value, idx =>
    if multiplier > 128 * 128 * 128 then
      some (.error (.invalidRemainingLength value))
    else do
      let part ← checked w ((byte &&& 0x7F).toNat * multiplier)
      let value ← checked w (value + part)
      let idx ← checked w (idx + 1)
      if byte &&& 0x80 = 0 then
        some (.ok (some (value, idx)))
      else do
        let multiplier ← checked w (multiplier * 128)
        decodeRemainingLengthChecked w rest multiplier value idx

/-- `readVbiLoop` with `w`-bit arithmetic. -/
def readVbiChecked (w : Nat) : Nat → Nat → Nat → Parse (Option Nat)
  | 0, _, _ => throw (.malformedBody "vbi overflow")
  | fuel + 1, multiplier, value => do
    let byte ← readU8
    match (checked w ((byte &&& 0x7F).toNat * multiplier)).bind (checked w <| value + ·) with
    | none => pure none
    | some value =>
      if byte &&& 0x80 = 0 then
        pure (some value)
      else
        match checked w (multiplier * 128) with
        | none => pure none
        | some multiplier =>
          if multiplier > 128 * 128 * 128 then
            throw (.malformedBody "vbi overflow")
          else
            readVbiChecked w fuel multiplier value

theorem checked_eq {n : Nat} (hw : 32 ≤ w) (hn : n < 2 ^ 32) : checked w n = some n :=
  if_pos (Nat.lt_of_lt_of_le hn (Nat.pow_le_pow_right Nat.two_pos hw))

/-- What one round adds stays below the next multiplier. -/
theorem round_lt {j v : Nat} (hv : v < 128 ^ j) (b : UInt8) :
    v + (b &&& 0x7F).toNat * 128 ^ j < 128 ^ (j + 1) := by
  have hgroup : (b &&& 0x7F).toNat ≤ 127 := by
    have h := group_eq b
    rw [group] at h
    omega
  have hmul := Nat.mul_le_mul_right (128 ^ j) hgroup
  rw [Nat.pow_succ]
  omega

theorem pow_lt_of_le_three {j : Nat} (hj : j ≤ 3) : 128 ^ (j + 1) < 2 ^ 32 :=
  Nat.lt_of_le_of_lt (Nat.pow_le_pow_right (by decide) (Nat.succ_le_succ hj)) (by decide)

theorem decodeRemainingLengthChecked_eq (hw : 32 ≤ w) (bs : Bytes) {j v : Nat} (hj : j ≤ 4)
    (hv : v < 128 ^ j) : decodeRemainingLengthChecked w bs (128 ^ j) v (j + 1) =
      some (decodeRemainingLengthLoop bs (128 ^ j) v (j + 1)) := by
  induction bs generalizing j v with
  | nil => rfl
  | cons b bs ih =>
    rw [decodeRemainingLengthChecked, decodeRemainingLengthLoop]
    by_cases hm : 128 ^ j > 128 * 128 * 128
    · rw [if_pos hm, if_pos hm]
    · have hj3 : j ≤ 3 := (Nat.pow_le_pow_iff_right (by decide : 1 < 128)).1 (Nat.le_of_not_lt hm)
      have hsum := round_lt hv b
      have hlt := pow_lt_of_le_three hj3
      rw [if_neg hm, if_neg hm, checked_eq hw (by omega)]
      simp only [Option.bind_eq_bind, Option.bind_some]
      rw [checked_eq hw (by omega), Option.bind_some, checked_eq hw (by omega), Option.bind_some]
      split_ifs
      · rfl
      · rw [← Nat.pow_succ, checked_eq hw hlt, Option.bind_some]
        exact ih (Nat.succ_le_succ hj3) hsum

theorem readVbiChecked_eq (hw : 32 ≤ w) (fuel : Nat) {j v : Nat} (hj : j ≤ 3) (hv : v < 128 ^ j) :
    readVbiChecked w fuel (128 ^ j) v = some <$> readVbiLoop fuel (128 ^ j) v := by
  induction fuel generalizing j v with
  | zero => rfl
  | succ fuel ih =>
    rw [readVbiChecked, readVbiLoop, map_bind]
    refine bind_congr fun b => ?_
    have hsum := round_lt hv b
    have hlt := pow_lt_of_le_three hj
    rw [checked_eq hw (by omega), Option.bind_some, checked_eq hw (by omega), ← Nat.pow_succ,
      checked_eq hw hlt]
    dsimp only
    split_ifs with hbit hm
    · rfl
    · rfl
    · exact ih ((Nat.pow_le_pow_iff_right (by decide : 1 < 128)).1 (Nat.le_of_not_lt hm)) hsum

/-- The forms that both decoders accept: at most four bytes. -/
def Decodes (bs : Bytes) (v k : Nat) : Prop :=
  ∃ form rest, bs = form ++ rest ∧ IsForm form ∧ form.length ≤ 4 ∧ v = value form ∧
    k = form.length

theorem decodeRemainingLength_iff (src : Bytes) (v k : Nat) :
    decodeRemainingLength src = .ok (some (v, 1 + k)) ↔ Decodes (src.drop 1) v k := by
  constructor
  · intro h
    obtain ⟨form, rest, hbs, hfor, hbound, hval, hlen⟩ :=
      decodeRemainingLengthLoop_inv _ 1 0 1 v (1 + k) h
    rw [Nat.one_mul, Nat.pow_le_pow_iff_right (by decide)] at hbound
    exact ⟨form, rest, hbs, hfor, by omega, by omega, by omega⟩
  · rintro ⟨form, rest, hbs, hfor, hlen, rfl, rfl⟩
    rw [decodeRemainingLength, hbs, decodeRemainingLengthLoop_form hfor rest 1 0 1, Nat.zero_add,
      Nat.one_mul]
    rw [Nat.one_mul]
    exact Nat.pow_le_pow_right (by decide) (by omega)

theorem readVbi_iff (bs : Bytes) (v k : Nat) :
    (∃ c, readVbi.run (Cursor.start bs) = .ok (v, c) ∧ c.pos = k) ↔ Decodes bs v k := by
  constructor
  · rintro ⟨c, hrun, rfl⟩
    obtain ⟨form, ⟨hfor, hlen, hval⟩, hrest, -, hpos⟩ := readVbi_consumes _ _ _ hrun
    exact ⟨form, c.rest, hrest, hfor, hlen, hval, hpos.trans (Nat.zero_add _)⟩
  · rintro ⟨form, rest, hbs, hfor, hlen, rfl, rfl⟩
    exact ⟨_, readVbi_reads hfor hlen (Cursor.start bs) rest hbs, Nat.zero_add _⟩

/-- **The two decoders of variable byte integers agree and invert the encoder.** The encoder writes
    the shortest form of a number, of at most four bytes, which both read back whatever follows. On
    any bytes one yields a number exactly if the other does, after as many bytes and never more than
    four; and neither `usize` nor `u32` arithmetic overflows on the way. -/
theorem vbi_decoders_agree :
    (∀ v ≤ 0x0FFFFFFF, ∀ dst, ∃ form, encodeRemainingLength v dst = dst ++ form ∧
      form.length ≤ 4 ∧ IsForm form ∧ value form = v ∧
      (∀ form', IsForm form' → value form' = v → form.length ≤ form'.length) ∧
      (∀ first rest, decodeRemainingLength (first :: (form ++ rest)) =
        .ok (some (v, 1 + form.length))) ∧
      Reads readVbi form v) ∧
    (∀ src v k, decodeRemainingLength src = .ok (some (v, 1 + k)) ↔
      ∃ c, readVbi.run (Cursor.start (src.drop 1)) = .ok (v, c) ∧ c.pos = k) ∧
    (∀ src v k, decodeRemainingLength src = .ok (some (v, 1 + k)) → k ≤ 4) ∧
    (∀ w ≥ 32, ∀ src, decodeRemainingLengthChecked w (src.drop 1) 1 0 1 =
      some (decodeRemainingLength src)) ∧
    readVbiChecked 32 4 1 0 = some <$> readVbi := by
  refine ⟨fun v hv dst => ?_, fun src v k => ?_, fun src v k h => ?_, fun w hw src => ?_, ?_⟩
  · have hlt : v < 128 ^ 4 := by omega
    have hlen : (encode v).length ≤ 4 := length_encode_le (k := 3) hlt
    have hread := readVbi_reads (encode_isForm v) hlen
    rw [value_encode] at hread
    refine ⟨encode v, encodeRemainingLength_eq v dst, hlen, encode_isForm v, value_encode v, ?_,
      fun first rest => decodeRemainingLength_encode hlt first rest, hread⟩
    exact fun form hfor hval => length_encode_le_of_form hfor hval.ge
  · exact (decodeRemainingLength_iff src v k).trans (readVbi_iff _ v k).symm
  · obtain ⟨form, rest, -, -, hlen, -, rfl⟩ := (decodeRemainingLength_iff src v k).1 h
    exact hlen
  · exact decodeRemainingLengthChecked_eq hw (src.drop 1) (j := 0) (Nat.zero_le 4) Nat.one_pos
  · exact readVbiChecked_eq (Nat.le_refl 32) 4 (j := 0) (Nat.zero_le 3) Nat.one_pos

end LumenMQ
