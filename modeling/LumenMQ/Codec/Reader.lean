import LumenMQ.Lib.Cursor
import LumenMQ.Lib.BigEndian
import LumenMQ.Lib.Varint
import LumenMQ.Codec.Packet

set_option autoImplicit false

/-! # The body reader

`Reader` walks over a packet body. Its methods check what is left before they touch the buffer, so
each one is a parser over a cursor that stays inside the body. -/

namespace LumenMQ

open List Varint Cursor Consumes

/-- The source's `Reader { buf, pos }`. -/
abbrev Reader := Cursor UInt8

/-- Computations that move a `Reader` and may fail. -/
abbrev Parse (β : Type) := CursorParser UInt8 CodecError β

/-- `u16::from_be_bytes`. -/
def u16FromBeBytes (bs : Bytes) : UInt16 := UInt16.ofNat (ofBeBytes bs)

/-- `u32::from_be_bytes`. -/
def u32FromBeBytes (bs : Bytes) : UInt32 := UInt32.ofNat (ofBeBytes bs)

theorem u16FromBeBytes_beBytes (v : UInt16) : u16FromBeBytes (beBytes 2 v.toNat) = v := by
  rw [u16FromBeBytes, ofBeBytes_beBytes v.toNat_lt, UInt16.ofNat_toNat]

theorem u32FromBeBytes_beBytes (v : UInt32) : u32FromBeBytes (beBytes 4 v.toNat) = v := by
  rw [u32FromBeBytes, ofBeBytes_beBytes v.toNat_lt, UInt32.ofNat_toNat]

/-- The bytes of a string (`as_bytes`). -/
def stringBytes (s : String) : Bytes := s.toUTF8.data.toList

/-- `std::str::from_utf8`. -/
def fromUtf8 (raw : Bytes) : Option String := String.fromUTF8? ⟨raw.toArray⟩

/-- Fail with `e` when `c` holds: the source's `if c { return Err(e) }`. -/
def failIf (c : Prop) [Decidable c] (e : CodecError) : Parse Unit :=
  if c then throw e else pure ()

/-- Lift a result that does not read (`f(..)?`). -/
def liftResult {β : Type} : Except CodecError β → Parse β
  | .ok a => pure a
  | .error e => throw e

namespace Reader

variable {bs : Bytes}

def readU8 : Parse UInt8 := fun r =>
  if h : r.pos < r.buf.length then
    .ok (r.buf[r.pos], r.advance 1 (by unfold Cursor.remaining; omega))
  else
    .error (.malformedBody "unexpected eof reading u8")

def readU16 : Parse UInt16 := fun r =>
  if h : r.remaining < 2 then
    .error (.malformedBody "unexpected eof reading u16")
  else
    .ok (u16FromBeBytes (r.rest.take 2), r.advance 2 (by omega))

def readBytes (n : Nat) : Parse Bytes := fun r =>
  if h : r.remaining < n then
    .error (.malformedBody s!"unexpected eof reading {n} bytes")
  else
    .ok (r.rest.take n, r.advance n (by omega))

def readString : Parse String := do
  let len ← readU16
  let raw ← readBytes len.toNat
  match fromUtf8 raw with
  | some s => pure s
  | none => throw .malformedUtf8

/-- Binary data with a two-byte length in front. -/
def readBinary : Parse Bytes := do
  let len ← readU16
  readBytes len.toNat

/-- The loop of `readVbi`. A form has at most four bytes: after the fourth the multiplier check
    fails, so four rounds are enough and the last case is never reached from `readVbi`. -/
def readVbiLoop : Nat → Nat → Nat → Parse Nat
  | 0, _, _ => throw (.malformedBody "vbi overflow")
  | fuel + 1, multiplier, value => do
    let byte ← readU8
    let value := value + (byte &&& 0x7F).toNat * multiplier
    if byte &&& 0x80 = 0 then
      pure value
    else if multiplier * 128 > 128 * 128 * 128 then
      throw (.malformedBody "vbi overflow")
    else
      readVbiLoop fuel (multiplier * 128) value

/-- Read a variable byte integer. The `u32` arithmetic of the source stays below `2 ^ 28`. -/
def readVbi : Parse Nat := readVbiLoop 4 1 0

def skip (n : Nat) : Parse Unit := do
  let _ ← readBytes n
  pure ()

/-- The number of unread bytes. -/
def remaining : Parse Nat := do
  let r ← get
  pure r.remaining

/-! ## What the readers accept -/

theorem readU8_reads (b : UInt8) : Reads readU8 [b] b := by
  intro c rest h
  have hlt : c.pos < c.buf.length := by
    have := Cursor.le_remaining_of_rest h
    simp only [List.length_singleton, Cursor.remaining] at this
    omega
  have hget : c.buf[c.pos] = b := by
    have hdrop : c.buf.drop c.pos = b :: rest := h
    rw [List.drop_eq_getElem_cons hlt, List.cons.injEq] at hdrop
    exact hdrop.1
  show readU8 c = _
  rw [readU8, dif_pos hlt, hget]
  rfl

theorem readBytes_reads {n : Nat} (hn : bs.length = n) : Reads (readBytes n) bs bs := by
  intro c rest h
  subst hn
  have hle := le_remaining_of_rest h
  show readBytes bs.length c = _
  rw [readBytes, dif_neg (by omega), h, take_left]

theorem readU16_reads (v : UInt16) : Reads readU16 (beBytes 2 v.toNat) v := by
  intro c rest h
  have hle := le_remaining_of_rest h
  rw [length_beBytes] at hle
  show readU16 c = _
  rw [readU16, dif_neg (by omega), h, take_left' (length_beBytes 2 v.toNat),
    u16FromBeBytes_beBytes]
  simp only [length_beBytes]

/-- A field that `put_string` and `put_binary` write: a two-byte length and the bytes. -/
def lengthPrefixed (bs : Bytes) : Bytes := beBytes 2 bs.length ++ bs

theorem readBinary_reads (h : bs.length ≤ 65535) : Reads readBinary (lengthPrefixed bs) bs := by
  have hlen : (UInt16.ofNat bs.length).toNat = bs.length := by
    rw [UInt16.toNat_ofNat']
    omega
  have hu16 := readU16_reads (UInt16.ofNat bs.length)
  rw [hlen] at hu16
  exact hu16.bind (readBytes_reads hlen.symm)

theorem fromUtf8_stringBytes (s : String) : fromUtf8 (stringBytes s) = some s := by
  simp only [fromUtf8, stringBytes, String.fromUTF8?, Array.toArray_toList]
  exact dif_pos s.isValidUTF8

theorem readString_reads {s : String} (h : (stringBytes s).length ≤ 65535) :
    Reads readString (lengthPrefixed (stringBytes s)) s := by
  have hlen : (UInt16.ofNat (stringBytes s).length).toNat = (stringBytes s).length := by
    rw [UInt16.toNat_ofNat']
    omega
  have hu16 := readU16_reads (UInt16.ofNat (stringBytes s).length)
  rw [hlen] at hu16
  refine hu16.bind ((readBytes_reads hlen.symm).bind_nil ?_)
  rw [fromUtf8_stringBytes]
  exact Reads.pure s

/-- The loop reads a whole form onto the accumulator as long as its last byte is still within the
    multiplier bound. -/
theorem readVbiLoop_reads (hform : Varint.IsForm bs) :
    ∀ (fuel m v : Nat), bs.length ≤ fuel → m * 128 ^ (bs.length - 1) ≤ 128 ^ 3 →
      Reads (readVbiLoop fuel m v) bs (v + m * Varint.value bs) := by
  induction bs with
  | nil => exact hform.elim
  | cons b bs ih =>
    intro fuel m v hfuel hm
    obtain ⟨k, rfl⟩ : ∃ k, fuel = k + 1 := ⟨fuel - 1, by simp at hfuel; omega⟩
    rw [readVbiLoop]
    refine Reads.cons_bind (readU8_reads b) ?_
    rcases hform.cases_cons with ⟨rfl, hlast⟩ | ⟨hcont, hrest⟩
    · have hbit : b &&& 0x80 = 0 := by simpa [continues] using hlast
      rw [if_pos hbit]
      have hval : v + m * value [b] = v + (b &&& 0x7F).toNat * m := by
        simp [value, group, Nat.mul_comm]
      rw [hval]
      exact Reads.pure _
    · have hbit : ¬ b &&& 0x80 = 0 := by simpa [continues] using hcont
      obtain ⟨l, hl⟩ : ∃ l, bs.length = l + 1 :=
        ⟨bs.length - 1, by have := length_pos_of_ne_nil hrest.ne_nil; omega⟩
      have hm' : m * 128 * 128 ^ l ≤ 128 ^ 3 := by
        simp only [length_cons, hl, Nat.add_sub_cancel, Nat.pow_succ] at hm
        rw [Nat.mul_assoc, Nat.mul_comm 128]
        exact hm
      have hle : m * 128 ≤ 128 ^ 3 := le_trans (Nat.le_mul_of_pos_right _ (by positivity)) hm'
      rw [if_neg hbit, if_neg (by omega)]
      have hval : v + m * value (b :: bs)
          = v + (b &&& 0x7F).toNat * m + m * 128 * value bs := by
        simp only [value, group]
        ring
      rw [hval]
      refine ih hrest k (m * 128) _ (by simp at hfuel; omega) ?_
      rw [hl, Nat.add_sub_cancel]
      exact hm'

theorem readVbi_reads (hform : Varint.IsForm bs) (hlen : bs.length ≤ 4) :
    Reads readVbi bs (Varint.value bs) := by
  have hpow : 128 ^ (bs.length - 1) ≤ 128 ^ 3 := Nat.pow_le_pow_right (by norm_num) (by omega)
  have h := readVbiLoop_reads hform 4 1 0 hlen (by rw [Nat.one_mul]; exact hpow)
  rwa [Nat.zero_add, Nat.one_mul] at h

theorem skip_reads {n : Nat} (hn : bs.length = n) : Reads (skip n) bs () :=
  (readBytes_reads hn).bind_nil (Reads.pure ())

theorem failIf_reads {c : Prop} [Decidable c] {e : CodecError} (h : ¬ c) :
    Reads (failIf c e) [] () := by
  rw [failIf, if_neg h]
  exact Reads.pure ()

/-- A continuation that looks at the number of unread bytes, of which `bs` is a part. -/
theorem remaining_reads {β : Type} {k : Nat → Parse β} {b : β}
    (h : ∀ left, bs.length ≤ left → Reads (k left) bs b) : Reads (remaining >>= k) bs b := by
  intro c rest hrest
  exact h c.remaining (le_remaining_of_rest hrest) c rest hrest

theorem remaining_finishes {β : Type} {k : Nat → Parse β} {b : β} (h : Finishes (k bs.length) bs b) :
    Finishes (remaining >>= k) bs b := by
  intro c hrest
  obtain ⟨c', hc'⟩ := h c hrest
  refine ⟨c', ?_⟩
  rw [← hrest, length_rest] at hc'
  exact hc'

/-! ## What the readers have read when they succeed -/

theorem readU8_consumes : Consumes readU8 (fun bs b => bs = [b]) := by
  intro c b c' h
  change readU8 c = _ at h
  rw [readU8] at h
  split at h
  · next hlt =>
    cases h
    exact ⟨_, rfl, drop_eq_getElem_cons hlt, rfl, rfl⟩
  · cases h

theorem readBytes_consumes (n : Nat) :
    Consumes (readBytes n) (fun bs raw => bs = raw ∧ raw.length = n) := by
  intro c raw c' h
  change readBytes n c = _ at h
  rw [readBytes] at h
  split at h
  · cases h
  · next hle =>
    cases h
    have hlen : (c.rest.take n).length = n := by
      rw [length_take, length_rest]
      omega
    refine ⟨c.rest.take n, ⟨rfl, hlen⟩, ?_, rfl, by rw [hlen]; rfl⟩
    rw [advance_rest, take_append_drop]

theorem readU16_consumes : Consumes readU16 (fun bs v => bs = beBytes 2 v.toNat) := by
  intro c v c' h
  change readU16 c = _ at h
  rw [readU16] at h
  split at h
  · cases h
  · next hle =>
    cases h
    have hlen : (c.rest.take 2).length = 2 := by
      rw [length_take, length_rest]
      omega
    have hv : (u16FromBeBytes (c.rest.take 2)).toNat = ofBeBytes (c.rest.take 2) := by
      have hlt := ofBeBytes_lt (c.rest.take 2)
      rw [hlen] at hlt
      rw [u16FromBeBytes, UInt16.toNat_ofNat']
      exact Nat.mod_eq_of_lt hlt
    refine ⟨c.rest.take 2, ?_, ?_, rfl, by rw [hlen]; rfl⟩
    · have hbytes := beBytes_ofBeBytes (c.rest.take 2)
      rw [hlen, ← hv] at hbytes
      exact hbytes.symm
    · rw [advance_rest, take_append_drop]

theorem readBinary_consumes :
    Consumes readBinary (fun bs raw => bs = lengthPrefixed raw ∧ raw.length ≤ 65535) := by
  refine (readU16_consumes.bind fun len => readBytes_consumes len.toNat).mono ?_
  rintro _ raw ⟨len, bs1, bs2, rfl, rfl, rfl, hlen⟩
  have hlt := len.toNat_lt
  exact ⟨by rw [lengthPrefixed, hlen], by omega⟩

theorem stringBytes_of_fromUtf8 {raw : Bytes} {s : String} (h : fromUtf8 raw = some s) :
    stringBytes s = raw := by
  unfold fromUtf8 String.fromUTF8? at h
  split_ifs at h
  rw [← Option.some.inj h]
  exact toList_toArray

theorem readString_consumes :
    Consumes readString (fun bs s =>
      bs = lengthPrefixed (stringBytes s) ∧ (stringBytes s).length ≤ 65535) := by
  let Decoded : Bytes → Bytes → String → Prop := fun raw bs s => bs = [] ∧ stringBytes s = raw
  refine (readU16_consumes.bind fun len =>
    (readBytes_consumes len.toNat).bind (R := Decoded) fun raw => ?_).mono ?_
  · split
    · next s h =>
      refine (pure s).mono ?_
      rintro _ _ ⟨rfl, rfl⟩
      exact ⟨rfl, stringBytes_of_fromUtf8 h⟩
    · exact throw _ _
  rintro _ s ⟨len, bs1, bs2, rfl, rfl, raw, bs3, bs4, rfl, ⟨rfl, hlen⟩, rfl, rfl⟩
  have hlt := len.toNat_lt
  exact ⟨by rw [lengthPrefixed, hlen, append_nil], by omega⟩

theorem readVbiLoop_consumes (fuel m v : Nat) :
    Consumes (readVbiLoop fuel m v)
      (fun bs n => Varint.IsForm bs ∧ bs.length ≤ fuel ∧ n = v + m * Varint.value bs) := by
  induction fuel generalizing m v with
  | zero => exact throw _ _
  | succ fuel ih =>
    -- one byte is read; then the form ends, the bound is hit, or the loop goes on
    let R : UInt8 → Bytes → Nat → Prop := fun b bs n =>
      (bs = [] ∧ continues b = false ∧ n = v + m * value [b]) ∨
      (continues b = true ∧ Varint.IsForm bs ∧ bs.length ≤ fuel ∧
        n = v + m * value (b :: bs))
    refine (readU8_consumes.bind (R := R) fun b => ?_).mono ?_
    · show Consumes (ite _ _ _) _
      split
      · next hbit =>
        refine (pure _).mono ?_
        rintro bs n ⟨rfl, rfl⟩
        refine .inl ⟨rfl, by simpa [continues] using hbit, ?_⟩
        simp [value, group, Nat.mul_comm]
      · next hbit =>
        split
        · exact throw _ _
        · refine (ih (m * 128) _).mono ?_
          rintro bs n ⟨hform, hlen, rfl⟩
          refine .inr ⟨by simpa [continues] using hbit, hform, hlen, ?_⟩
          simp only [value, group]
          ring
    · rintro _ n ⟨b, bs1, bs2, rfl, rfl, ⟨rfl, hc, hn⟩ | ⟨hc, hform, hlen, hn⟩⟩
      · exact ⟨hc, by simp, hn⟩
      · exact ⟨hform.cons hc, by simpa using hlen, hn⟩

theorem readVbi_consumes :
    Consumes readVbi
      (fun bs n => Varint.IsForm bs ∧ bs.length ≤ 4 ∧ n = Varint.value bs) := by
  refine (readVbiLoop_consumes 4 1 0).mono ?_
  rintro bs n ⟨hform, hlen, rfl⟩
  exact ⟨hform, hlen, by rw [Nat.zero_add, Nat.one_mul]⟩

theorem skip_consumes (n : Nat) : Consumes (skip n) (fun bs _ => bs.length = n) := by
  refine ((readBytes_consumes n).bind fun _ => pure ()).mono ?_
  rintro _ _ ⟨raw, bs1, bs2, rfl, ⟨rfl, hlen⟩, rfl, -⟩
  rw [append_nil]
  exact hlen

theorem failIf_consumes (c : Prop) [Decidable c] (e : CodecError) :
    Consumes (failIf c e) (fun bs _ => bs = [] ∧ ¬ c) := by
  rw [failIf]
  split
  · exact throw _ _
  · next h => exact (pure ()).mono fun _ _ hbs => ⟨hbs.1, h⟩

theorem remaining_consumes : Consumes remaining (fun bs _ => bs = []) := by
  intro c n c' h
  change Except.ok (c.remaining, c) = Except.ok (n, c') at h
  cases h
  exact ⟨[], rfl, rfl, rfl, rfl⟩

end Reader

end LumenMQ
