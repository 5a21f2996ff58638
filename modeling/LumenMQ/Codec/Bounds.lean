import LumenMQ.Codec.RoundTrip

set_option autoImplicit false

/-! # What the decoder reads

The parts that all packets share, the PUBLISH, and the frame: a packet comes from a first byte, one
whole form of its length, and as many bytes as that says. -/

namespace LumenMQ

open List Varint Consumes

variable {codec : MqttCodec} {src rest : Bytes}

open Reader

/-! ## Parts -/

theorem liftResult_consumes {β : Type} (r : Except CodecError β) :
    Consumes (liftResult r) (fun bs a => bs = [] ∧ r = .ok a) := by
  cases r with
  | error e => exact throw _ _
  | ok a =>
    refine (pure a).mono ?_
    rintro _ _ ⟨rfl, rfl⟩
    exact ⟨rfl, rfl⟩

/-- An optional part reads what its own reader reads, or nothing. -/
theorem readOptional_consumes {β : Type} (present : Bool) {read : Parse β}
    {Q : Bytes → β → Prop} (hread : Consumes read Q) :
    Consumes (readOptional present read) (fun bs field => field.isSome = present ∧
      (∀ a ∈ field, Q bs a) ∧ (field = none → bs = [])) := by
  cases present with
  | false =>
    refine (pure none).mono ?_
    rintro _ _ ⟨rfl, rfl⟩
    exact ⟨rfl, by simp, fun _ => rfl⟩
  | true =>
    refine (hread.map some).mono ?_
    rintro _ _ ⟨a, rfl, hQ⟩
    exact ⟨rfl, by simpa using hQ, by simp⟩

theorem readPacketId_consumes :
    Consumes readPacketId (fun bs id => bs = beBytes 2 id.toNat ∧ id ≠ 0) := by
  refine readU16_consumes.andThen ?_
  rintro id _ rfl
  refine (failIf_consumes (id = 0) _).andThen ?_
  rintro _ _ ⟨rfl, hid⟩
  refine (pure id).mono ?_
  rintro _ _ ⟨rfl, rfl⟩
  exact ⟨by simp, hid⟩

/-! ## PUBLISH -/

theorem QoS.eq_asU8_of_fromU8 {v : UInt8} {q : QoS} (h : QoS.fromU8 v = .ok q) : v = q.asU8 := by
  unfold QoS.fromU8 at h
  split at h <;> cases h <;> rfl

/-- The flag bits that give the fields of a PUBLISH are the ones written for them. -/
theorem publishFlags_of_fields {flags : UInt8} {qos : QoS}
    (h : QoS.fromU8 ((flags &&& 0b0110) >>> 1) = .ok qos) :
    publishFlags (flags &&& 0b1000 != 0) qos (flags &&& 0b0001 != 0) = flags &&& 0x0F := by
  have key : ∀ n : Fin 256, ∀ q ∈ [QoS.atMostOnce, .atLeastOnce, .exactlyOnce],
      (UInt8.ofNat n &&& 0b0110) >>> 1 = q.asU8 →
        publishFlags (UInt8.ofNat n &&& 0b1000 != 0) q (UInt8.ofNat n &&& 0b0001 != 0) =
          UInt8.ofNat n &&& 0x0F := by
    decide +kernel
  have hkey := key ⟨flags.toNat, flags.toNat_lt⟩ qos (by cases qos <;> simp)
  simp only [UInt8.ofNat_toNat] at hkey
  exact hkey (QoS.eq_asU8_of_fromU8 h)

/-- The decoder of a PUBLISH reads nothing but the body of the packet it returns, and takes every
    flag bit into it. -/
theorem decodePublish_consumes (flags : UInt8) :
    Consumes (decodePublish flags) (fun bs packet => ∃ p, packet = .publish p ∧ bs = p.body ∧
      packet.WellFormed ∧ packet.FieldsFit ∧ packet.flags = flags &&& 0x0F) := by
  refine (liftResult_consumes _).andThen ?_
  rintro qos _ ⟨rfl, hqos⟩
  refine (failIf_consumes _ _).andThen ?_
  rintro _ _ ⟨rfl, hdup⟩
  refine readString_consumes.andThen ?_
  rintro topic _ ⟨rfl, htop⟩
  refine (readOptional_consumes _ readPacketId_consumes).andThen ?_
  rintro packetId idBytes ⟨hpid, hsome, hnone⟩
  have hid : idBytes = optionalField packetId (fun id => beBytes 2 id.toNat) := by
    cases packetId with
    | none => exact hnone rfl
    | some id => exact (hsome id rfl).1
  subst hid
  refine remaining_consumes.andThen ?_
  rintro left _ rfl
  refine (readBytes_consumes left).andThen ?_
  rintro payload _ ⟨rfl, -⟩
  refine (Consumes.pure _).mono ?_
  rintro _ _ ⟨rfl, rfl⟩
  refine ⟨_, rfl, by simp [Publish.body], ⟨by simp [hpid], fun id h => (hsome id h).2, ?_⟩, ?_, ?_⟩
  · intro hq
    exact Bool.eq_false_of_not_eq_true fun hset => hdup ⟨hq, hset⟩
  · simpa [Packet.FieldsFit, Packet.fields] using htop
  · exact publishFlags_of_fields hqos

/-! ## Frames -/

/-- A packet comes out of the decoder of its body. -/
theorem decodePacket_run {first : UInt8} {payload : Bytes} {packet : Packet}
    (h : decodePacket first payload = .ok packet) :
    ∃ ptype, PacketType.fromU8 (first >>> 4) = .ok ptype ∧
      ∃ c', (decodeBody ptype (first &&& 0x0F)).run (Cursor.start payload) = .ok (packet, c') := by
  unfold decodePacket at h
  cases htype : PacketType.fromU8 (first >>> 4) with
  | error e =>
    rw [htype] at h
    exact nomatch h
  | ok ptype =>
    rw [htype] at h
    cases hrun : (decodeBody ptype (first &&& 0x0F)).run (Cursor.start payload) with
    | error e =>
      simp only [Bind.bind, Except.bind, hrun] at h
      exact nomatch h
    | ok r =>
      simp only [Bind.bind, Except.bind, hrun] at h
      cases h
      exact ⟨ptype, rfl, r.2, hrun⟩

/-- What the loop has read when it succeeds: one whole form, of at most four bytes from the
    start. -/
theorem decodeRemainingLengthLoop_inv (bs : Bytes) (m v idx remainingLen headerLen : Nat)
    (h : decodeRemainingLengthLoop bs m v idx = .ok (some (remainingLen, headerLen))) :
    ∃ form rest, bs = form ++ rest ∧ Varint.IsForm form ∧ m * 128 ^ (form.length - 1) ≤ 128 ^ 3 ∧
      remainingLen = v + m * Varint.value form ∧ headerLen = idx + form.length := by
  induction bs generalizing m v idx with
  | nil => cases h
  | cons b bs ih =>
    rw [decodeRemainingLengthLoop] at h
    split at h
    · cases h
    · next hm =>
      simp only at h
      split at h
      · next hbit =>
        cases h
        refine ⟨[b], bs, rfl, by simpa [Varint.IsForm, continues] using hbit, ?_, ?_,
          rfl⟩
        · simpa using hm
        · simp [value, group, Nat.mul_comm]
      · next hbit =>
        obtain ⟨form, rest, rfl, hform, hbound, rfl, rfl⟩ := ih _ _ _ h
        have hlen := length_pos_of_ne_nil hform.ne_nil
        refine ⟨b :: form, rest, rfl,
          hform.cons (by simpa [continues] using hbit), ?_, ?_, ?_⟩
        · obtain ⟨l, hl⟩ : ∃ l, form.length = l + 1 := ⟨form.length - 1, by omega⟩
          rw [hl, Nat.add_sub_cancel] at hbound
          rw [length_cons, hl, Nat.add_sub_cancel, Nat.pow_succ, Nat.mul_comm (128 ^ l),
            ← Nat.mul_assoc]
          exact hbound
        · simp only [value, group]
          ring
        · rw [length_cons]
          omega

/-- What a packet was decoded from: a first byte, a whole length form of at most four bytes, and a
    body of the length the form denotes, all within the configured size. -/
theorem MqttCodec.decode_inv {packet : Packet} (h : codec.decode src = (.ok (some packet), rest)) :
    ∃ first form payload, src = first :: (form ++ payload) ++ rest ∧ Varint.IsForm form ∧
      form.length ≤ 4 ∧ Varint.value form = payload.length ∧
      (first :: (form ++ payload)).length ≤ codec.maxPacketSize ∧
      decodePacket first payload = .ok packet := by
  unfold MqttCodec.decode at h
  split_ifs at h with hshort
  · simp at h
  rcases hlen : decodeRemainingLength src with e | _ | ⟨remainingLen, headerLen⟩
  · simp [hlen] at h
  · simp [hlen] at h
  simp only [hlen] at h
  split_ifs at h with hmax hpart
  · simp at h
  · simp at h
  obtain ⟨first, tail, rfl⟩ : ∃ first tail, src = first :: tail := by
    cases src with
    | nil => simp at hshort
    | cons first tail => exact ⟨first, tail, rfl⟩
  obtain ⟨form, after, htail, hform, hbound, hval, rfl⟩ :=
    decodeRemainingLengthLoop_inv tail 1 0 1 remainingLen headerLen hlen
  rw [Nat.zero_add, Nat.one_mul] at hval
  subst htail hval
  have hafter : value form ≤ after.length := by
    simp only [length_cons, length_append] at hpart
    omega
  have hfour : form.length ≤ 4 := by
    by_contra hlong
    have := Nat.pow_lt_pow_right (a := 128) (by norm_num) (show 3 < form.length - 1 by omega)
    omega
  have htake : (first :: (form ++ after)).take (1 + form.length + value form) =
      first :: (form ++ after.take (value form)) := by
    rw [show 1 + form.length + value form = form.length + value form + 1 by omega,
      take_succ_cons, take_length_add_append]
  have hdrop : (first :: (form ++ after)).drop (1 + form.length + value form) =
      after.drop (value form) := by
    rw [show 1 + form.length + value form = form.length + value form + 1 by omega,
      drop_succ_cons, drop_length_add_append]
  have hbody : (first :: (form ++ after.take (value form))).drop (1 + form.length) =
      after.take (value form) := by
    rw [Nat.add_comm, drop_succ_cons, drop_left]
  have htaken : (after.take (value form)).length = value form :=
    length_take_of_le hafter
  rw [htake, hdrop, hbody, headD_cons] at h
  refine ⟨first, form, after.take (value form), ?_, hform, hfour, htaken.symm, ?_, ?_⟩
  · split at h <;> simp only [Prod.mk.injEq, reduceCtorEq, false_and] at h
    rw [← h.2, cons_append, append_assoc, take_append_drop]
  · rw [length_cons, length_append, htaken]
    omega
  · split at h
    · next packet' hpkt =>
      simp only [Prod.mk.injEq, Except.ok.injEq, Option.some.injEq] at h
      rw [hpkt, h.1]
    · simp at h

end LumenMQ
