import LumenMQ.Codec.Canonical

set_option autoImplicit false

/-! # Decoding hostile bytes

The decoder indexes, slices and subtracts where the source would panic out of range. Here these
operations fail when they are out of range, and the methods of the reader and `decode` are written
once more with them: they never fail. All other decoders go through those methods, on a `Cursor`
that cannot leave its buffer. -/

namespace LumenMQ

open Reader List Option

/-! ## Operations that panic -/

/-- `buf[i]`. -/
def indexAt (buf : Bytes) (i : Nat) : Option UInt8 := buf[i]?

/-- `buf[i..j]`. -/
def sliceAt (buf : Bytes) (i j : Nat) : Option Bytes :=
  if i ≤ j ∧ j ≤ buf.length then some ((buf.take j).drop i) else none

/-- `a - b` of unsigned integers. -/
def subAt (a b : Nat) : Option Nat := if b ≤ a then some (a - b) else none

/-- `Reader::remaining`. -/
def remainingAt (buf : Bytes) (pos : Nat) : Option Nat := subAt buf.length pos

/-- `Reader::read_u8`: the result with the new position. -/
def readU8At (buf : Bytes) (pos : Nat) : Option (Except CodecError (UInt8 × Nat)) :=
  if pos ≥ buf.length then
    some (.error (.malformedBody "unexpected eof reading u8"))
  else do
    let v ← indexAt buf pos
    some (.ok (v, pos + 1))

/-- `Reader::read_u16`. -/
def readU16At (buf : Bytes) (pos : Nat) : Option (Except CodecError (UInt16 × Nat)) := do
  let left ← remainingAt buf pos
  if left < 2 then
    some (.error (.malformedBody "unexpected eof reading u16"))
  else do
    let hi ← indexAt buf pos
    let lo ← indexAt buf (pos + 1)
    some (.ok (u16FromBeBytes [hi, lo], pos + 2))

/-- `Reader::read_bytes`. -/
def readBytesAt (n : Nat) (buf : Bytes) (pos : Nat) : Option (Except CodecError (Bytes × Nat)) := do
  let left ← remainingAt buf pos
  if left < n then
    some (.error (.malformedBody s!"unexpected eof reading {n} bytes"))
  else do
    let v ← sliceAt buf pos (pos + n)
    some (.ok (v, pos + n))

/-- What a method of the reader returns from a cursor, with the new position. -/
def atPos {β : Type} (p : Parse β) (c : Cursor UInt8) : Except CodecError (β × Nat) :=
  (p.run c).map (fun r => (r.1, r.2.pos))

theorem remainingAt_eq (c : Cursor UInt8) : remainingAt c.buf c.pos = some c.remaining := if_pos c.pos_le

theorem readU8At_eq (c : Cursor UInt8) : readU8At c.buf c.pos = some (atPos readU8 c) := by
  unfold readU8At atPos
  show _ = some ((readU8 c).map _)
  unfold readU8
  by_cases h : c.pos < c.buf.length
  · rw [if_neg (Nat.not_le.2 h), dif_pos h, indexAt, getElem?_eq_getElem h]
    rfl
  · rw [if_pos (Nat.le_of_not_lt h), dif_neg h]
    rfl

theorem readU16At_eq (c : Cursor UInt8) : readU16At c.buf c.pos = some (atPos readU16 c) := by
  unfold readU16At atPos
  show _ = some ((readU16 c).map _)
  unfold readU16
  rw [remainingAt_eq, bind_eq_bind, bind_some]
  by_cases h : c.remaining < 2
  · rw [if_pos h, dif_pos h]
    rfl
  · have hlt : c.pos + 1 < c.buf.length := by
      unfold Cursor.remaining at h
      omega
    have hrest : c.rest.take 2 = [c.buf[c.pos], c.buf[c.pos + 1]] := by
      rw [Cursor.rest, drop_eq_getElem_cons (by omega), drop_eq_getElem_cons hlt]
      rfl
    rw [if_neg h, dif_neg h, indexAt, indexAt, getElem?_eq_getElem (by omega),
      getElem?_eq_getElem hlt, hrest]
    rfl

theorem readBytesAt_eq (n : Nat) (c : Cursor UInt8) :
    readBytesAt n c.buf c.pos = some (atPos (readBytes n) c) := by
  unfold readBytesAt atPos
  show _ = some ((readBytes n c).map _)
  unfold readBytes
  rw [remainingAt_eq, bind_eq_bind, bind_some]
  by_cases h : c.remaining < n
  · rw [if_pos h, dif_pos h]
    rfl
  · have hle : c.pos + n ≤ c.buf.length := by
      have hpos := c.pos_le
      unfold Cursor.remaining at h
      omega
    rw [if_neg h, dif_neg h, sliceAt, if_pos ⟨Nat.le_add_right _ _, hle⟩, drop_take,
      Nat.add_sub_cancel_left]
    rfl

/-! ## Frames -/

namespace MqttCodec

/-- `decode_remaining_length`, with the index into the buffer. -/
def decodeRemainingLengthAt (src : Bytes) (multiplier value idx : Nat) :
    Option (Except CodecError (Option (Nat × Nat))) :=
  if idx ≥ src.length then
    some (.ok none)
  else if multiplier > 128 * 128 * 128 then
    some (.error (.invalidRemainingLength value))
  else do
    let byte ← indexAt src idx
    let value := value + (byte &&& 0x7F).toNat * multiplier
    if byte &&& 0x80 = 0 then
      some (.ok (some (value, idx + 1)))
    else
      decodeRemainingLengthAt src (multiplier * 128) value (idx + 1)
termination_by src.length - idx

/-- The index is within the buffer whenever a byte is read. -/
theorem decodeRemainingLengthAt_eq (src : Bytes) (m v idx : Nat) :
    decodeRemainingLengthAt src m v idx =
      some (decodeRemainingLengthLoop (src.drop idx) m v idx) := by
  fun_induction decodeRemainingLengthAt src m v idx with
  | case1 m v idx hend => rw [drop_of_length_le hend, decodeRemainingLengthLoop]
  | case2 m v idx hin hmul =>
    rw [drop_eq_getElem_cons (Nat.not_le.1 hin), decodeRemainingLengthLoop, if_pos hmul]
  | case3 m v idx hin hmul ih =>
    have hlt : idx < src.length := Nat.not_le.1 hin
    rw [drop_eq_getElem_cons hlt, decodeRemainingLengthLoop, if_neg hmul, indexAt,
      getElem?_eq_getElem hlt, bind_eq_bind, bind_some]
    dsimp only
    rw [ih]
    split_ifs <;> rfl

/-- `decode` with the operations that panic. -/
def decodeAt (self : MqttCodec) (src : Bytes) :
    Option (Except CodecError (Option Packet) × Bytes) :=
  if src.length < 2 then
    some (.ok none, src)
  else do
    match ← decodeRemainingLengthAt src 1 0 1 with
    | .error e => some (.error e, src)
    | .ok none => some (.ok none, src)
    | .ok (some (remainingLen, headerLen)) =>
      let total := headerLen + remainingLen
      if total > self.maxPacketSize then
        some (.error (.malformedBody
          s!"packet length {total} exceeds max {self.maxPacketSize}"), src)
      else if src.length < total then do
        let _ ← subAt total src.length
        some (.ok none, src)
      else do
        let frame ← sliceAt src 0 total
        let src ← sliceAt src total src.length
        let first ← indexAt frame 0
        let payload ← sliceAt frame headerLen frame.length
        match decodePacket first payload with
        | .ok packet => some (.ok (some packet), src)
        | .error e => some (.error e, src)

/-- What `decode` returns and leaves in the buffer. -/
inductive Outcome (codec : MqttCodec) (src : Bytes) :
    Except CodecError (Option Packet) × Bytes → Prop
  | needMore : Outcome codec src (.ok none, src)
  | badLength (e : CodecError) (h : decodeRemainingLength src = .error e) :
      Outcome codec src (.error e, src)
  | oversize (remainingLen headerLen : Nat) (e : CodecError)
      (h : decodeRemainingLength src = .ok (some (remainingLen, headerLen)))
      (hmax : codec.maxPacketSize < headerLen + remainingLen) : Outcome codec src (.error e, src)
  | frame (remainingLen headerLen : Nat) (first : UInt8) (payload : Bytes)
      (h : decodeRemainingLength src = .ok (some (remainingLen, headerLen)))
      (hle : headerLen + remainingLen ≤ src.length) (hlen : payload.length = remainingLen) :
      Outcome codec src (some <$> decodePacket first payload, src.drop (headerLen + remainingLen))

variable (codec : MqttCodec) (src : Bytes)

/-- `decode` is never out of range, and takes a whole frame off the buffer or nothing. -/
theorem decodeAt_eq : codec.decodeAt src = some (codec.decode src) ∧
    Outcome codec src (codec.decode src) := by
  unfold decodeAt decode
  split_ifs with hshort
  · exact ⟨rfl, .needMore⟩
  have hat : decodeRemainingLengthAt src 1 0 1 = some (decodeRemainingLength src) :=
    decodeRemainingLengthAt_eq src 1 0 1
  rw [hat, bind_eq_bind, bind_some]
  rcases hlen : decodeRemainingLength src with e | _ | ⟨remainingLen, headerLen⟩
  · exact ⟨rfl, .badLength e hlen⟩
  · exact ⟨rfl, .needMore⟩
  dsimp only
  split_ifs with hmax hpar
  · exact ⟨rfl, .oversize remainingLen headerLen _ hlen hmax⟩
  · rw [subAt, if_pos (Nat.le_of_lt hpar)]
    exact ⟨rfl, .needMore⟩
  · have hle : headerLen + remainingLen ≤ src.length := Nat.le_of_not_lt hpar
    have hframe : (src.take (headerLen + remainingLen)).length = headerLen + remainingLen :=
      length_take_of_le hle
    have hhead : 0 < headerLen := by
      obtain ⟨form, rest, -, -, -, -, rfl⟩ := decodeRemainingLengthLoop_inv _ _ _ _ _ _ hlen
      omega
    obtain ⟨first, tail, hfirst⟩ := exists_cons_of_length_pos
      (l := src.take (headerLen + remainingLen)) (by omega)
    have hpay : ((src.take (headerLen + remainingLen)).drop headerLen).length = remainingLen := by
      rw [length_drop, hframe, Nat.add_sub_cancel_left]
    rw [sliceAt, if_pos ⟨Nat.zero_le _, hle⟩, sliceAt, if_pos ⟨hle, Nat.le_refl _⟩,
      drop_zero, take_length]
    simp only [bind_eq_bind, bind_some]
    rw [sliceAt, if_pos ⟨by omega, Nat.le_refl _⟩, take_length, hfirst, indexAt]
    rw [hfirst] at hpay
    simp only [getElem?_cons_zero, bind_some, headD_cons]
    have hout : Outcome codec src _ := .frame remainingLen headerLen first _ hlen hle hpay
    cases hp : decodePacket first ((first :: tail).drop headerLen) <;> rw [hp] at hout <;>
      exact ⟨rfl, hout⟩

end MqttCodec

/-! ## Loops -/

/-- Every round reads something. -/
def Advances {β : Type} (p : Parse β) : Prop := Consumes p (fun bs _ => bs ≠ [])

theorem readString_advances : Advances readString :=
  readString_consumes.mono fun bs s h => by simp [h.1, lengthPrefixed, beBytes]

theorem decodeSubscribeTopic_advances : Advances decodeSubscribeTopic := by
  refine decodeSubscribeTopic_consumes.mono ?_
  rintro bs t ⟨-, hlen⟩ rfl
  simp [SubscribeTopic.bytes] at hlen

theorem readU8_advances : Advances readU8 :=
  readU8_consumes.mono fun bs b h => by simp [h]

theorem parseProperty_advances (props : ConnectProperties) : Advances (parseProperty props) := by
  refine (parseProperty_consumes props).mono ?_
  rintro bs props' ⟨s, rfl, -⟩ hnil
  have hpos := s.bytes_ne_nil
  simp [hnil] at hpos

/-- The property loop has rounds to spare: it ends because it has come to the end. -/
theorem parseConnectPropertiesLoop_fuel {stop fuel : Nat} (props : ConnectProperties)
    (c : Cursor UInt8) (hflag : stop - c.pos ≤ fuel) :
    (parseConnectPropertiesLoop stop (fuel + 1) props).run c =
      (parseConnectPropertiesLoop stop fuel props).run c := by
  induction fuel generalizing props c with
  | zero => rw [parseConnectPropertiesLoop_succ, if_neg (by omega)]; rfl
  | succ fuel ih =>
    rw [parseConnectPropertiesLoop_succ, parseConnectPropertiesLoop_succ stop fuel]
    split_ifs with hpos
    · rw [StateT.run_bind, StateT.run_bind]
      cases hrun : (parseProperty props).run c with
      | error e => rfl
      | ok r =>
        obtain ⟨bs, hbs, -, -, hr⟩ := parseProperty_advances props c r.1 r.2 hrun
        have hlen := length_pos_of_ne_nil hbs
        exact ih r.1 r.2 (by omega)
    · rfl

/-- **Decoding hostile bytes is safe.** No method of the reader indexes, slices or subtracts out of
    range, from any position within the buffer, and the position stays within it; nor does `decode`.
    A body decoder ends within the body it was given. Every round of a loop reads something, so the
    loops end, and not for want of rounds. What `decode` takes off the buffer is nothing or exactly
    the header with the length that it announces. -/
theorem decode_safe (codec : MqttCodec) :
    (∀ c : Cursor UInt8, remainingAt c.buf c.pos = some c.remaining ∧
      readU8At c.buf c.pos = some (atPos readU8 c) ∧
      readU16At c.buf c.pos = some (atPos readU16 c) ∧
      ∀ n, readBytesAt n c.buf c.pos = some (atPos (readBytes n) c)) ∧
    (∀ first ptype payload p c,
      (decodeBody ptype (first &&& 0x0F)).run (Cursor.start payload) = .ok (p, c) →
        c.buf = payload ∧ c.pos ≤ payload.length) ∧
    (∀ props, Advances (parseProperty props)) ∧ Advances decodeSubscribeTopic ∧
    Advances readString ∧ Advances readU8 ∧
    (∀ β (body : Parse β), Advances body → ∀ c fuel, c.remaining ≤ fuel →
      (collectFor body (fuel + 1)).run c = (collectFor body fuel).run c) ∧
    (∀ stop fuel props (c : Cursor UInt8), stop - c.pos ≤ fuel →
      (parseConnectPropertiesLoop stop (fuel + 1) props).run c =
        (parseConnectPropertiesLoop stop fuel props).run c) ∧
    ∀ src, codec.decodeAt src = some (codec.decode src) ∧
      codec.Outcome src (codec.decode src) := by
  refine ⟨fun c => ⟨remainingAt_eq c, readU8At_eq c, readU16At_eq c, (readBytesAt_eq · c)⟩, ?_,
    parseProperty_advances, decodeSubscribeTopic_advances, readString_advances, readU8_advances,
    fun _ _ hbody c fuel => collectFor_fuel hbody fuel c,
    fun _ _ props c => parseConnectPropertiesLoop_fuel props c, codec.decodeAt_eq⟩
  intro first ptype payload p c hrun
  have hflags : first &&& 0x0F &&& 0x0F = first &&& 0x0F := by rw [UInt8.and_assoc]; rfl
  obtain ⟨bs, -, -, hbuf, -⟩ := decodeBody_consumes ptype hflags _ _ _ hrun
  exact ⟨hbuf, (hbuf ▸ c.pos_le :)⟩

end LumenMQ
