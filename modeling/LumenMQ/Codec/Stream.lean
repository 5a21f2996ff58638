import LumenMQ.Lib.Stream
import LumenMQ.Codec.Bounds

set_option autoImplicit false

/-! # Decoding a connection's byte stream

A connection appends what the socket delivers to the receive buffer and calls `MqttCodec.decode`
until it asks for more or fails. The decoder stops at four points for want of input, and raises the
oversize and length errors before the body has arrived; none of these verdicts is revised by later
bytes, so the codec is an `IncrementalDecoder` and the packets do not depend on how the bytes
arrive. -/

namespace LumenMQ

/-- A verdict on the remaining length stands, whatever bytes follow. -/
theorem decodeRemainingLengthLoop_append (bs t : Bytes) (m v idx : Nat)
    (h : decodeRemainingLengthLoop bs m v idx ≠ .ok none) :
    decodeRemainingLengthLoop (bs ++ t) m v idx = decodeRemainingLengthLoop bs m v idx := by
  induction bs generalizing m v idx with
  | nil => exact absurd rfl h
  | cons b bs ih =>
    rw [List.cons_append, decodeRemainingLengthLoop, decodeRemainingLengthLoop]
    rw [decodeRemainingLengthLoop] at h
    split
    · rfl
    · next hm =>
      rw [if_neg hm] at h
      simp only at h ⊢
      split
      · rfl
      · next hbit =>
        rw [if_neg hbit] at h
        exact ih _ _ _ h

theorem decodeRemainingLength_append {s : Bytes} (t : Bytes) (hs : ¬ s.length < 2)
    (h : decodeRemainingLength s ≠ .ok none) :
    decodeRemainingLength (s ++ t) = decodeRemainingLength s := by
  rw [decodeRemainingLength, decodeRemainingLength, List.drop_append_of_le_length (by omega)]
  exact decodeRemainingLengthLoop_append _ t 1 0 1 h

namespace MqttCodec

/-- What a call of `decode` can do: ask for more, refuse the header, or take a whole frame off the
    buffer. Nothing but the header and the frame decides which. -/
theorem decode_cases (codec : MqttCodec) (s : Bytes) :
    codec.decode s = (.ok none, s) ∨
    (∃ e, codec.decode s = (.error e, s) ∧ ∀ t, codec.decode (s ++ t) = (.error e, s ++ t)) ∨
    (∃ total verdict, 0 < total ∧ total ≤ s.length ∧ verdict ≠ .ok none ∧
      ∀ t, codec.decode (s ++ t) = (verdict, s.drop total ++ t)) := by
  by_cases hshort : s.length < 2
  · exact .inl (by rw [decode, if_pos hshort])
  have hlong : ∀ t : Bytes, ¬ (s ++ t).length < 2 := by
    intro t
    rw [List.length_append]
    omega
  rcases hlen : decodeRemainingLength s with e | _ | ⟨remainingLen, headerLen⟩
  · refine .inr (.inl ⟨e, by rw [decode, if_neg hshort, hlen], fun t => ?_⟩)
    rw [decode, if_neg (hlong t),
      decodeRemainingLength_append t hshort (by simp [hlen]), hlen]
  · exact .inl (by rw [decode, if_neg hshort, hlen])
  -- the header is complete: its verdict stands, and the frame is there or not
  have happend : ∀ t, decodeRemainingLength (s ++ t) = .ok (some (remainingLen, headerLen)) := by
    intro t
    rw [decodeRemainingLength_append t hshort (by simp [hlen]), hlen]
  obtain ⟨_, _, -, -, -, -, hheader⟩ := decodeRemainingLengthLoop_inv _ _ _ _ _ _ hlen
  by_cases hmax : headerLen + remainingLen > codec.maxPacketSize
  · refine .inr (.inl ⟨_, by rw [decode, if_neg hshort, hlen]; exact if_pos hmax, fun t => ?_⟩)
    rw [decode, if_neg (hlong t), happend t]
    exact if_pos hmax
  by_cases hpart : s.length < headerLen + remainingLen
  · refine .inl ?_
    rw [decode, if_neg hshort, hlen]
    simp only [if_neg hmax, if_pos hpart]
  · let verdict : Except CodecError (Option Packet) :=
      some <$> decodePacket ((s.take (headerLen + remainingLen)).headD 0)
        ((s.take (headerLen + remainingLen)).drop headerLen)
    refine .inr (.inr ⟨headerLen + remainingLen, verdict, by omega, by omega, ?_, fun t => ?_⟩)
    · intro h
      simp only [verdict] at h
      cases hp : decodePacket ((s.take (headerLen + remainingLen)).headD 0)
        ((s.take (headerLen + remainingLen)).drop headerLen) <;> rw [hp] at h <;> cases h
    · rw [decode, if_neg (hlong t), happend t]
      have hfits : ¬ (s ++ t).length < headerLen + remainingLen := by
        rw [List.length_append]
        omega
      simp only [if_neg hmax, if_neg hfits, verdict,
        List.take_append_of_le_length (Nat.le_of_not_lt hpart),
        List.drop_append_of_le_length (Nat.le_of_not_lt hpart)]
      cases decodePacket ((s.take (headerLen + remainingLen)).headD 0)
        ((s.take (headerLen + remainingLen)).drop headerLen) <;> rfl

/-- A packet is taken off the buffer, and later bytes change nothing about it. -/
theorem decode_some (codec : MqttCodec) {s r : Bytes} {p : Packet}
    (h : codec.decode s = (.ok (some p), r)) :
    r.length < s.length ∧ ∀ t, codec.decode (s ++ t) = (.ok (some p), r ++ t) := by
  rcases codec.decode_cases s with hnone | ⟨e, he, -⟩ | ⟨total, verdict, hpos, hle, -, hdec⟩
  · rw [hnone] at h
    cases h
  · rw [he] at h
    cases h
  · have hdec₀ := hdec []
    rw [List.append_nil, h, List.append_nil, Prod.mk.injEq] at hdec₀
    refine ⟨?_, fun t => by rw [hdec t, hdec₀.1, hdec₀.2]⟩
    rw [hdec₀.2, List.length_drop]
    omega

/-- The codec as an incremental decoder. -/
def incremental (codec : MqttCodec) : IncrementalDecoder UInt8 CodecError Packet where
  decode := codec.decode
  none_keeps := by
    intro s r h
    rcases codec.decode_cases s with hnone | ⟨e, he, -⟩ | ⟨total, verdict, -, -, hv, hdec⟩
    · rw [hnone] at h
      exact (Prod.mk.inj h).2.symm
    · rw [he] at h
      cases h
    · have hdec := hdec []
      rw [List.append_nil, h] at hdec
      exact absurd (Prod.mk.inj hdec).1.symm hv
  some_append t h := (codec.decode_some h).2 t
  some_shorter h := (codec.decode_some h).1
  error_append := by
    intro s e r t h
    rcases codec.decode_cases s with hnone | ⟨e', he, hdec⟩ | ⟨total, verdict, -, -, -, hdec⟩
    · rw [hnone] at h
      cases h
    · rw [he, Prod.mk.injEq] at h
      exact ⟨s ++ t, by rw [hdec t, h.1]⟩
    · have hdec₀ := hdec []
      rw [List.append_nil, h, Prod.mk.injEq] at hdec₀
      exact ⟨s.drop total ++ t, by rw [hdec t, hdec₀.1]⟩

/-- **Stream decoding does not depend on how bytes arrive.** Any cut of a byte string into chunks
    gives the packets, and then the error or the remainder, that the whole string gives. Asking for
    more leaves the buffer alone, and neither a packet nor an error is revised by later bytes. -/
theorem feed_chunks (codec : MqttCodec) (chunks : List Bytes) :
    codec.incremental.feed [] chunks = codec.incremental.drain chunks.flatten ∧
    (∀ s r, codec.decode s = (.ok none, r) → r = s) ∧
    (∀ s p r t, codec.decode s = (.ok (some p), r) →
      codec.decode (s ++ t) = (.ok (some p), r ++ t)) ∧
    (∀ s e r t, codec.decode s = (.error e, r) → ∃ r', codec.decode (s ++ t) = (.error e, r')) :=
  ⟨codec.incremental.feed_eq_drain chunks rfl,
    fun _ _ h => codec.incremental.none_keeps h,
    fun _ _ _ t h => codec.incremental.some_append t h,
    fun _ _ _ t h => codec.incremental.error_append t h⟩

end MqttCodec

end LumenMQ
