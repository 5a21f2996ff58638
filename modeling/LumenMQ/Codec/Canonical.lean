import LumenMQ.Codec.Bounds

set_option autoImplicit false

/-! # Encoding what was decoded

The decoder takes many byte strings that the encoder would not write: padded lengths, bytes behind
an acknowledgement, skipped properties, reserved bits. Every packet it returns is one the encoder
can write all the same, in no more bytes than were read (`Packet.WrittenWithin`), so encoding what
was decoded gives a frame that decodes to the same packet. The first byte of the frame is where the
two may differ: `decodeBody` looks at the flag bits of some packet types only. -/

namespace LumenMQ

open List Varint Packet Consumes MqttCodec

variable {p : Packet}

open Reader

/-! ## The packets a body decoder returns -/

/-- A packet that the encoder writes and the decoder reads back, in the space of the bytes `bs`. -/
structure Packet.WrittenWithin (p : Packet) (bs : Bytes) : Prop where
  wellFormed : p.WellFormed
  fieldsFit : p.FieldsFit
  length_le : p.body.length ≤ bs.length

/-! ### CONNECT -/

theorem skipProperties_consumes (truncated : String) :
    Consumes (skipProperties truncated) (fun bs _ => 1 ≤ bs.length) := by
  refine readVbi_consumes.andThen ?_
  rintro propsLen form ⟨hform, -, rfl⟩
  have hpos := length_pos_of_ne_nil hform.ne_nil
  refine remaining_consumes.andThen ?_
  rintro left _ rfl
  refine (failIf_consumes _ _).andThen ?_
  rintro _ _ ⟨rfl, -⟩
  refine (skip_consumes _).mono fun bs _ _ => ?_
  rw [length_append]
  omega

/-- A session expiry interval takes the five bytes it is written with, at least. -/
theorem Segment.length_of_lastSessionExpiry {ss : List Segment} {sei : UInt32}
    (h : lastSessionExpiry ss = some sei) : 5 ≤ (ss.flatMap bytes).length := by
  obtain ⟨s, hs, hsei⟩ := mem_filterMap.mp (mem_of_getLast? h)
  rw [sessionExpiry?] at hsei
  split at hsei
  · next hid =>
    have hval := value_length_of_expiry hid
    have hpos := length_pos_of_ne_nil s.idForm.1.ne_nil
    have hle : s.bytes.length ≤ (ss.flatMap bytes).length :=
      (sublist_flatten_of_mem (mem_map_of_mem hs)).length_le
    rw [bytes, length_append] at hle
    omega
  · cases hsei

/-- The property segment as the encoder writes it takes no more bytes than were read. -/
theorem decodeConnectProperties_consumes :
    Consumes decodeConnectProperties (fun bs props =>
      (Varint.encode (connectPropsBody (some props)).length ++
        connectPropsBody (some props)).length ≤ bs.length) := by
  refine readVbi_consumes.andThen ?_
  rintro propsLen form ⟨hform, -, rfl⟩
  have hpos := length_pos_of_ne_nil hform.ne_nil
  refine remaining_consumes.andThen ?_
  rintro left _ rfl
  refine (failIf_consumes _ _).andThen ?_
  rintro _ _ ⟨rfl, -⟩
  refine (parseConnectProperties_consumes _).mono ?_
  rintro _ _ ⟨ss, rfl, rfl⟩
  have hone : ∀ n : Nat, n < 128 → (encode n).length ≤ 1 := fun n hn =>
    length_encode_le (k := 0) hn
  cases hsei : Segment.lastSessionExpiry ss with
  | none =>
    have := hone 0 (by norm_num)
    simp only [connectPropsBody, length_nil, append_nil, nil_append,
      length_append]
    omega
  | some sei =>
    have hfive := Segment.length_of_lastSessionExpiry hsei
    have := hone (0 + 1 + 4) (by norm_num)
    simp only [connectPropsBody, putU32, length_append, length_cons, length_nil,
      length_beBytes, nil_append]
    omega

/-- A will whose strings fit their two-byte lengths. -/
def LastWill.Fits (w : LastWill) : Prop :=
  (stringBytes w.topic).length ≤ 65535 ∧ w.message.length ≤ 65535

theorem decodeWill_consumes (level flags : UInt8) :
    Consumes (decodeWill level flags)
      (fun bs w => w.Fits ∧ (w.bytes level).length ≤ bs.length) := by
  have hskip : Consumes (skipWillProperties level)
      (fun bs _ => (if level = mqtt5Level then encode 0 else []).length ≤ bs.length) := by
    unfold skipWillProperties
    split
    · refine (skipProperties_consumes _).mono fun bs _ h => ?_
      exact (length_encode_le (k := 0) (by norm_num)).trans h
    · refine (pure ()).mono ?_
      rintro _ _ ⟨rfl, -⟩
      exact Nat.le_refl _
  refine (liftResult_consumes _).andThen ?_
  rintro qos _ ⟨rfl, -⟩
  refine hskip.andThen ?_
  rintro _ propsBytes hprops
  refine readString_consumes.andThen ?_
  rintro topic _ ⟨rfl, htop⟩
  refine readBinary_consumes.andThen ?_
  rintro message _ ⟨rfl, hmsg⟩
  refine (pure _).mono ?_
  rintro _ _ ⟨rfl, rfl⟩
  refine ⟨⟨htop, hmsg⟩, ?_⟩
  simp only [LastWill.bytes, length_append, nil_append, append_nil]
  omega

/-- The bytes of an optional field, when those of the field itself are bounded. -/
theorem length_optionalField_le {α : Type} {field : Option α} {f : α → Bytes} {bs : Bytes}
    (h : ∀ a ∈ field, (f a).length ≤ bs.length) : (optionalField field f).length ≤ bs.length := by
  cases field with
  | none => exact Nat.zero_le _
  | some a => exact h a rfl

theorem length_protocolName {name : String} (h : ¬ (name ≠ "MQTT" ∧ name ≠ "MQIsdp")) :
    (lengthPrefixed (stringBytes "MQTT")).length ≤ (lengthPrefixed (stringBytes name)).length := by
  have hname : name = "MQTT" ∨ name = "MQIsdp" := by tauto
  rcases hname with rfl | rfl <;> decide

theorem decodeConnect_consumes :
    Consumes decodeConnect (fun bs p => p.packetType = .connect ∧ p.WrittenWithin bs) := by
  refine readString_consumes.andThen ?_
  rintro name _ ⟨rfl, -⟩
  refine (failIf_consumes _ _).andThen ?_
  rintro _ _ ⟨rfl, hname⟩
  have hname := length_protocolName hname
  refine readU8_consumes.andThen ?_
  rintro level _ rfl
  refine (failIf_consumes _ _).andThen ?_
  rintro _ _ ⟨rfl, hlevel⟩
  refine readU8_consumes.andThen ?_
  rintro flagsByte _ rfl
  refine readU16_consumes.andThen ?_
  rintro keepAlive _ rfl
  refine (readOptional_consumes _ decodeConnectProperties_consumes).andThen ?_
  rintro properties propsBytes ⟨hpresent, hprops, -⟩
  refine readString_consumes.andThen ?_
  rintro clientId _ ⟨rfl, hcid⟩
  refine (readOptional_consumes _ (decodeWill_consumes level flagsByte)).andThen ?_
  rintro will willBytes ⟨-, hwill, -⟩
  refine (readOptional_consumes _ readString_consumes).andThen ?_
  rintro username usernameBytes ⟨-, husername, -⟩
  refine (readOptional_consumes _ readBinary_consumes).andThen ?_
  rintro password passwordBytes ⟨-, hpassword, -⟩
  refine (pure _).mono ?_
  rintro _ _ ⟨rfl, rfl⟩
  let c : Connect :=
    { protocolLevel := level, keepAlive, clientId, will, username, password, properties
      cleanSession := (ConnectFlags.fromBitsTruncate flagsByte).contains ConnectFlags.cleanSession }
  have hwf : c.properties.isSome ↔ c.protocolLevel = mqtt5Level := by
    show properties.isSome ↔ level = mqtt5Level
    rw [hpresent, beq_iff_eq]
  have hfit : (connect c).FieldsFit := by
    simp only [Packet.FieldsFit, fields, mem_cons, mem_append, mem_flatMap,
      Option.mem_toList, mem_map, not_mem_nil, or_false]
    rintro field (rfl | (⟨w, hw, rfl | rfl⟩ | ⟨u, hu, rfl⟩) | hp)
    · exact hcid
    · exact (hwill w hw).1.1
    · exact (hwill w hw).1.2
    · exact (husername u hu).2
    · exact (hpassword field hp).2
  refine ⟨rfl, ⟨?_, hwf⟩, hfit, ?_⟩
  · simp only [mem_cons, not_mem_nil, or_false]
    tauto
  · have hprop := length_optionalField_le hprops
    have hwil := length_optionalField_le fun w hw => (hwill w hw).2
    have huser : (optionalField username fun u => lengthPrefixed (stringBytes u)).length ≤
        usernameBytes.length :=
      length_optionalField_le fun u hu => (congrArg length (husername u hu).1).ge
    have hpass : (optionalField password lengthPrefixed).length ≤ passwordBytes.length :=
      length_optionalField_le fun p hp => (congrArg length (hpassword p hp).1).ge
    show c.body.length ≤ _
    rw [Connect.body, Connect.header, Connect.propsBytes_eq hwf]
    simp only [c, length_append, length_cons, length_nil] at hname ⊢
    omega

/-! ### The other packets -/

theorem decodeConnack_consumes :
    Consumes decodeConnack (fun bs p => p.packetType = .connack ∧ p.WrittenWithin bs) := by
  refine readU8_consumes.andThen ?_
  rintro flagsByte _ rfl
  refine readU8_consumes.andThen ?_
  rintro returnCode _ rfl
  refine remaining_consumes.andThen ?_
  rintro left _ rfl
  refine (readOptional_consumes _ (skipProperties_consumes _)).andThen ?_
  rintro properties propsBytes ⟨-, hprops, -⟩
  refine (pure _).mono ?_
  rintro _ _ ⟨rfl, rfl⟩
  have hzero : (encode 0).length ≤ 1 := length_encode_le (k := 0) (by norm_num)
  refine ⟨rfl, ?_, by simp [Packet.FieldsFit, fields], ?_⟩
  · cases properties <;> simp [Packet.WellFormed]
  · cases properties with
    | none => simp [body, mqtt311Level, mqtt5Level]
    | some u =>
      have hle := hprops u rfl
      simp only [body, Option.isSome_some, if_true, length_append, length_cons,
        length_nil, append_nil]
      omega

theorem decodeSubscribeTopic_consumes :
    Consumes decodeSubscribeTopic (fun bs t =>
      (stringBytes t.topicFilter).length ≤ 65535 ∧ bs.length = t.bytes.length) := by
  refine readString_consumes.andThen ?_
  rintro topicFilter _ ⟨rfl, hfilter⟩
  refine readU8_consumes.andThen ?_
  rintro qosByte _ rfl
  refine (liftResult_consumes _).andThen ?_
  rintro qos _ ⟨rfl, -⟩
  refine (pure _).mono ?_
  rintro _ _ ⟨rfl, rfl⟩
  exact ⟨hfilter, by simp [SubscribeTopic.bytes]⟩

theorem decodeSubscribe_consumes :
    Consumes decodeSubscribe (fun bs p => (p.packetType = .subscribe ∧ p.WrittenWithin bs) ∧
      bs.length = p.body.length) := by
  refine readPacketId_consumes.andThen ?_
  rintro packetId _ ⟨rfl, hid⟩
  refine (collectToEnd_consumes decodeSubscribeTopic_consumes).andThen ?_
  rintro topics entries ⟨hfit, hlen⟩
  refine (failIf_consumes _ _).andThen ?_
  rintro _ _ ⟨rfl, hne⟩
  refine (pure _).mono ?_
  rintro _ _ ⟨rfl, rfl⟩
  have hbody : (beBytes 2 packetId.toNat ++ (entries ++ ([] ++ []))).length =
      (subscribe { packetId, topics }).body.length := by
    simp only [body, length_append, length_nil, hlen]
    omega
  refine ⟨⟨rfl, ⟨hid, hne⟩, ?_, hbody.ge⟩, hbody⟩
  simpa [Packet.FieldsFit, fields] using hfit

theorem decodeSuback_consumes :
    Consumes decodeSuback (fun bs p => p.packetType = .suback ∧ p.WrittenWithin bs) := by
  have hcode : Consumes readU8 (fun bs b => True ∧ bs.length = [b].length) :=
    readU8_consumes.mono fun _ _ h => ⟨trivial, congrArg length h⟩
  refine readPacketId_consumes.andThen ?_
  rintro packetId _ ⟨rfl, hid⟩
  refine (collectToEnd_consumes (f := fun b => [b]) hcode).andThen ?_
  rintro returnCodes entries ⟨-, hlen⟩
  refine (pure _).mono ?_
  rintro _ _ ⟨rfl, rfl⟩
  rw [flatMap_singleton'] at hlen
  refine ⟨rfl, hid, by simp [Packet.FieldsFit, fields], ?_⟩
  simp [body, hlen]

theorem decodeUnsubscribe_consumes :
    Consumes decodeUnsubscribe (fun bs p => p.packetType = .unsubscribe ∧ p.WrittenWithin bs) := by
  have hfilter : Consumes readString (fun bs f => (stringBytes f).length ≤ 65535 ∧
      bs.length = (lengthPrefixed (stringBytes f)).length) :=
    readString_consumes.mono fun _ _ h => ⟨h.2, congrArg length h.1⟩
  refine readPacketId_consumes.andThen ?_
  rintro packetId _ ⟨rfl, hid⟩
  refine (collectToEnd_consumes hfilter).andThen ?_
  rintro topicFilters entries ⟨hfit, hlen⟩
  refine (failIf_consumes _ _).andThen ?_
  rintro _ _ ⟨rfl, hne⟩
  refine (pure _).mono ?_
  rintro _ _ ⟨rfl, rfl⟩
  refine ⟨rfl, ⟨hid, hne⟩, ?_, ?_⟩
  · simpa [Packet.FieldsFit, fields] using hfit
  · simp only [body, length_append, length_nil, nil_append, hlen]
    omega

/-! ### Any body -/

/-- The packet types whose branch of `decodeBody` looks at the flag bits. -/
def PacketType.checksFlags : PacketType → Bool
  | .publish | .pubrel | .subscribe | .unsubscribe | .pingreq | .pingresp | .disconnect => true
  | .connect | .connack | .puback | .pubrec | .pubcomp | .suback | .unsuback => false

/-- The flag bits `validateFlags` lets through for a type other than PUBLISH. -/
def PacketType.reservedFlags : PacketType → UInt8
  | .pubrel | .subscribe | .unsubscribe => 0b0010
  | _ => 0b0000

theorem validateFlags_consumes {ptype : PacketType} (flags : UInt8) (h : ptype ≠ .publish) :
    Consumes (validateFlags ptype flags) (fun bs _ => bs = [] ∧ flags = ptype.reservedFlags) := by
  cases ptype with
  | publish => exact absurd rfl h
  | _ => exact (failIf_consumes _ _).mono fun _ _ h => ⟨h.1, not_not.mp h.2⟩

theorem Packet.flags_eq_reservedFlags (h : p.packetType ≠ .publish) :
    p.flags = p.packetType.reservedFlags := by
  cases p with
  | publish p => exact absurd rfl h
  | _ => rfl

/-- What a body decoder returns: a packet of its type that can be written in the space of what was
    read, with the flag bits of the header if its branch looks at them. -/
structure Packet.DecodedFrom (p : Packet) (ptype : PacketType) (flags : UInt8) (bs : Bytes) :
    Prop where
  packetType_eq : p.packetType = ptype
  writtenWithin : p.WrittenWithin bs
  flags_eq : ptype.checksFlags = true → p.flags = flags

theorem decodedFrom_of_unchecked {read : Parse Packet} {ptype : PacketType} (flags : UInt8)
    (hread : Consumes read (fun bs p => p.packetType = ptype ∧ p.WrittenWithin bs))
    (hunchecked : ptype.checksFlags = false) :
    Consumes read (fun bs p => p.DecodedFrom ptype flags bs) := by
  refine hread.mono ?_
  rintro bs p ⟨htype, hwrite⟩
  exact ⟨htype, hwrite, by simp [hunchecked]⟩

/-- A branch that validates the flag bits first. -/
theorem decodedFrom_of_validated {read : Parse Packet} {ptype : PacketType} (flags : UInt8)
    (hread : Consumes read (fun bs p => p.packetType = ptype ∧ p.WrittenWithin bs))
    (hother : ptype ≠ .publish) :
    Consumes (do validateFlags ptype flags; read) (fun bs p => p.DecodedFrom ptype flags bs) := by
  refine (validateFlags_consumes flags hother).andThen ?_
  rintro _ _ ⟨rfl, rfl⟩
  refine hread.mono ?_
  rintro bs p ⟨rfl, hwrite⟩
  exact ⟨rfl, hwrite, fun _ => flags_eq_reservedFlags hother⟩

/-- A packet that is nothing but its identifier. -/
theorem packetId_consumes {ptype : PacketType} (make : UInt16 → Packet)
    (htype : ∀ id, (make id).packetType = ptype) (hwf : ∀ id, id ≠ 0 → (make id).WellFormed)
    (hfields : ∀ id, (make id).fields = []) (hbody : ∀ id, (make id).body = beBytes 2 id.toNat) :
    Consumes (make <$> readPacketId) (fun bs p => p.packetType = ptype ∧ p.WrittenWithin bs) := by
  refine (readPacketId_consumes.map make).mono ?_
  rintro _ _ ⟨id, rfl, rfl, hid⟩
  exact ⟨htype id, hwf id hid, by simp [Packet.FieldsFit, hfields], by rw [hbody]⟩

/-- A packet without a body. -/
theorem empty_consumes (p : Packet) (hwf : p.WellFormed) (hfields : p.fields = [])
    (hbody : p.body = []) :
    Consumes (pure p : Parse Packet)
      (fun bs q => q.packetType = p.packetType ∧ q.WrittenWithin bs) := by
  refine (pure p).mono ?_
  rintro _ _ ⟨rfl, rfl⟩
  exact ⟨rfl, hwf, by simp [Packet.FieldsFit, hfields], by rw [hbody]⟩

theorem decodeBody_consumes (ptype : PacketType) {flags : UInt8} (hflag : flags &&& 0x0F = flags) :
    Consumes (decodeBody ptype flags) (fun bs p => p.DecodedFrom ptype flags bs) := by
  have hid : ∀ id : UInt16, id ≠ 0 → id ≠ 0 := fun _ h => h
  cases ptype with
  | connect => exact decodedFrom_of_unchecked flags decodeConnect_consumes rfl
  | connack => exact decodedFrom_of_unchecked flags decodeConnack_consumes rfl
  | publish =>
    refine (decodePublish_consumes flags).mono ?_
    rintro _ _ ⟨p, rfl, rfl, hwf, hfit, hbit⟩
    exact ⟨rfl, ⟨hwf, hfit, Nat.le_refl _⟩, fun _ => hbit.trans hflag⟩
  | puback =>
    exact decodedFrom_of_unchecked flags
      (packetId_consumes .puback (fun _ => rfl) hid (fun _ => rfl) fun _ => rfl) rfl
  | pubrec =>
    exact decodedFrom_of_unchecked flags
      (packetId_consumes .pubrec (fun _ => rfl) hid (fun _ => rfl) fun _ => rfl) rfl
  | pubcomp =>
    exact decodedFrom_of_unchecked flags
      (packetId_consumes .pubcomp (fun _ => rfl) hid (fun _ => rfl) fun _ => rfl) rfl
  | unsuback =>
    exact decodedFrom_of_unchecked flags
      (packetId_consumes .unsuback (fun _ => rfl) hid (fun _ => rfl) fun _ => rfl) rfl
  | pubrel =>
    exact decodedFrom_of_validated flags
      (packetId_consumes .pubrel (fun _ => rfl) hid (fun _ => rfl) fun _ => rfl) (by simp)
  | subscribe =>
    exact decodedFrom_of_validated flags (decodeSubscribe_consumes.mono fun _ _ h => h.1)
      (by simp)
  | suback => exact decodedFrom_of_unchecked flags decodeSuback_consumes rfl
  | unsubscribe => exact decodedFrom_of_validated flags decodeUnsubscribe_consumes (by simp)
  | pingreq =>
    exact decodedFrom_of_validated flags (empty_consumes .pingreq trivial rfl rfl) (by simp)
  | pingresp =>
    exact decodedFrom_of_validated flags (empty_consumes .pingresp trivial rfl rfl) (by simp)
  | disconnect =>
    exact decodedFrom_of_validated flags (empty_consumes .disconnect trivial rfl rfl) (by simp)

/-! ## Whole frames -/

/-- The first byte of a packet's frame. -/
def Packet.firstByte (p : Packet) : UInt8 := p.packetType.asU8 <<< 4 ||| (p.flags &&& 0x0F)

/-- The frame the encoder appends for a packet. -/
def Packet.encoding (p : Packet) : Bytes :=
  p.firstByte :: (Varint.encode p.body.length ++ p.body)

theorem MqttCodec.encode_frame (codec : MqttCodec) (hfit : p.FieldsFit)
    (hlen : p.body.length ≤ 0x0FFFFFFF) (dst : Bytes) :
    codec.encode p dst = (.ok (), dst ++ p.encoding) := by
  rw [encode, (encodePacketBody_okIff p).1 hfit]
  simp only [if_neg (Nat.not_lt.mpr hlen), encodeRemainingLength_eq, append_assoc,
    cons_append, nil_append]
  rfl

/-- What a decoded packet owes to its frame: its type and flag bits to the first byte, and no more
    bytes to its body than there were. -/
theorem decodePacket_decodedFrom {first : UInt8} {payload : Bytes}
    (h : decodePacket first payload = .ok p) :
    ∃ ptype, PacketType.fromU8 (first >>> 4) = .ok ptype ∧
      p.DecodedFrom ptype (first &&& 0x0F) payload := by
  obtain ⟨ptype, htype, c', hrun⟩ := decodePacket_run h
  have hnibble : (first &&& 0x0F) &&& 0x0F = first &&& 0x0F := by
    rw [UInt8.and_assoc]
    rfl
  obtain ⟨bs, hfrom, hrest, -⟩ := decodeBody_consumes ptype hnibble _ _ _ hrun
  refine ⟨ptype, htype, hfrom.packetType_eq, ⟨hfrom.writtenWithin.wellFormed,
    hfrom.writtenWithin.fieldsFit, hfrom.writtenWithin.length_le.trans ?_⟩, hfrom.flags_eq⟩
  rw [Cursor.rest_start] at hrest
  rw [hrest, length_append]
  exact Nat.le_add_right _ _

/-- A PUBLISH that was decoded is no longer than its frame. -/
theorem decode_publish_fits {codec : MqttCodec} {src rest : Bytes} {p : Publish}
    (h : codec.decode src = (.ok (some (.publish p)), rest)) :
    (stringBytes p.topic).length ≤ 65535 ∧ p.body.length ≤ 0x0FFFFFFF ∧
      (p.packetId.isSome = true ↔ p.qos ≠ .atMostOnce) := by
  obtain ⟨first, form, payload, -, -, hfour, hlen, -, hpkt⟩ := decode_inv h
  obtain ⟨ptype, -, -, ⟨hwf, hfit, hle⟩, -⟩ := decodePacket_decodedFrom hpkt
  have hval := lt_of_lt_of_le (value_lt form) (Nat.pow_le_pow_right (by norm_num) hfour)
  have hbody : p.body.length ≤ payload.length := hle
  exact ⟨hfit _ (by simp [fields]), by omega, hwf.1⟩

/-- The will of a CONNECT that was decoded fits. -/
theorem decode_connect_will {codec : MqttCodec} {src rest : Bytes} {c : Connect} {w : LastWill}
    (h : codec.decode src = (.ok (some (.connect c)), rest)) (hw : c.will = some w) : w.Fits := by
  obtain ⟨first, form, payload, -, -, -, -, -, hpkt⟩ := decode_inv h
  obtain ⟨ptype, -, -, ⟨-, hfit, -⟩, -⟩ := decodePacket_decodedFrom hpkt
  exact ⟨hfit _ (by simp [fields, hw]), hfit _ (by simp [fields, hw])⟩

/-- **Decoding lands in the encoder's domain.** A packet that was decoded from the first `n` bytes
    of a buffer is one the encoder writes, in at most `n` bytes, and those decode to the same packet
    with nothing left over. -/
theorem MqttCodec.encode_of_decode (codec : MqttCodec) (src rest : Bytes) (p : Packet)
    (h : codec.decode src = (.ok (some p), rest)) :
    ∃ n out, src = src.take n ++ rest ∧ n + rest.length = src.length ∧
      codec.encode p [] = (.ok (), out) ∧ out.length ≤ n ∧
      codec.decode out = (.ok (some p), []) := by
  obtain ⟨first, form, payload, rfl, hform, hfour, hvalue, hsize, hpacket⟩ := decode_inv h
  obtain ⟨ptype, -, -, ⟨hwf, hfit, hle⟩, -⟩ := decodePacket_decodedFrom hpacket
  have hlt := lt_of_lt_of_le (value_lt form) (Nat.pow_le_pow_right (by norm_num) hfour)
  have hshort : (Varint.encode p.body.length).length ≤ form.length :=
    Varint.length_encode_le_of_form hform (by omega)
  have hframe : p.encoding.length ≤ (first :: (form ++ payload)).length := by
    simp only [encoding, length_cons, length_append]
    omega
  refine ⟨(first :: (form ++ payload)).length, p.encoding, by rw [take_left],
    by rw [length_append], codec.encode_frame hfit (by omega) [], hframe, ?_⟩
  have hdecode := codec.decode_frame p.firstByte p.body [] (by omega) (hframe.trans hsize)
    (decodePacket_body hwf hfit)
  rwa [append_nil] at hdecode

/-- A PUBACK with a padded length, a reserved flag bit set and a byte behind the identifier. -/
theorem MqttCodec.encode_of_decode_padded :
    ∃ src p, MqttCodec.decode {} src = (.ok (some p), []) ∧
      ∃ n out, src = src.take n ++ [] ∧ n + 0 = src.length ∧
        MqttCodec.encode {} p [] = (.ok (), out) ∧ out.length ≤ n ∧
        MqttCodec.decode {} out = (.ok (some p), []) :=
  ⟨[0x41, 0x83, 0x00, 0x00, 0x07, 0xFF], .puback 7, rfl,
    encode_of_decode {} _ [] (.puback 7) rfl⟩

/-! ## The first byte -/

/-- The first byte of a frame whose flag bits are in order as far as `decodeBody` does not look:
    they are zero for the packet types whose branch does not validate them. -/
def UncheckedFlagsClear (first : UInt8) : Prop :=
  ∀ ptype, PacketType.fromU8 (first >>> 4) = .ok ptype → ptype.checksFlags = false →
    first &&& 0x0F = 0

/-- The flag bits a packet is to be announced with: those of its fields for a PUBLISH, those that
    `validateFlags` lets through for the others. -/
def Packet.AnnouncedBy (p : Packet) (flags : UInt8) : Prop :=
  (∀ q, p = .publish q → flags = publishFlags q.dup q.qos q.retain) ∧
    ((∀ q, p ≠ .publish q) → Reads (validateFlags p.packetType flags) [] ())

/-- A check that lets its argument through. -/
theorem failIf_reads_iff (c : Prop) [Decidable c] (e : CodecError) :
    Reads (failIf c e) [] () ↔ ¬ c := by
  refine ⟨fun h hc => ?_, failIf_reads⟩
  have hrun := h (Cursor.start []) [] rfl
  rw [failIf, if_pos hc] at hrun
  cases hrun

theorem validateFlags_reads_iff {ptype : PacketType} (flags : UInt8) (h : ptype ≠ .publish) :
    Reads (validateFlags ptype flags) [] () ↔ flags = ptype.reservedFlags := by
  cases ptype with
  | publish => exact absurd rfl h
  | _ => exact (failIf_reads_iff _ _).trans not_not

theorem Packet.announcedBy_iff (p : Packet) (flags : UInt8) :
    p.AnnouncedBy flags ↔ flags = p.flags := by
  by_cases hp : p.packetType = .publish
  · obtain ⟨q, rfl⟩ : ∃ q, p = .publish q := by
      cases p with
      | publish q => exact ⟨q, rfl⟩
      | _ => cases hp
    refine ⟨fun h => h.1 q rfl, fun h => ⟨fun q' hq' => ?_, fun hne => absurd rfl (hne q)⟩⟩
    cases hq'
    exact h
  · have hne : ∀ q, p ≠ .publish q := by
      rintro q rfl
      exact hp rfl
    rw [flags_eq_reservedFlags hp, ← validateFlags_reads_iff flags hp]
    exact ⟨fun h => h.2 hne, fun h => ⟨fun q hq => absurd hq (hne q), fun _ => h⟩⟩

theorem Packet.flags_and (p : Packet) : p.flags &&& 0x0F = p.flags := by
  cases p with
  | publish p => exact publishFlags_and p.dup p.qos p.retain
  | pubrel _ | subscribe _ | unsubscribe _ =>
    show (0b0010 : UInt8) &&& 0x0F = 0b0010
    decide
  | _ =>
    show (0 : UInt8) &&& 0x0F = 0
    decide

/-- A byte is its two halves. -/
theorem firstByte_eq_iff {first : UInt8} {ptype : PacketType} (flags : UInt8)
    (htype : PacketType.fromU8 (first >>> 4) = .ok ptype) :
    ptype.asU8 <<< 4 ||| (flags &&& 0x0F) = first ↔ first &&& 0x0F = flags &&& 0x0F := by
  have hhigh : first >>> 4 = ptype.asU8 := by
    unfold PacketType.fromU8 at htype
    split at htype <;> cases htype <;> assumption
  have hsplit : (first >>> 4) <<< 4 ||| (first &&& 0x0F) = first := by
    have key : ∀ n : Fin 256, (UInt8.ofNat n >>> 4) <<< 4 ||| (UInt8.ofNat n &&& 0x0F) =
        UInt8.ofNat n := by
      decide +kernel
    have h := key ⟨first.toNat, first.toNat_lt⟩
    simp only [UInt8.ofNat_toNat] at h
    exact h
  constructor
  · rintro rfl
    exact (firstByte_fields ptype flags).2
  · intro hlow
    rw [← hhigh, ← hlow, hsplit]

/-- **When the first byte is the encoder's.** For every frame that is accepted, its first byte is
    the one the encoder writes for the packet exactly when its flag bits are the ones the packet is
    to be announced with, and this is so exactly when the flag bits are zero for the seven packet
    types whose branch of the decoder does not look at them. -/
theorem MqttCodec.firstByte_iff (codec : MqttCodec) (first : UInt8) (tail rest : Bytes) (p : Packet)
    (h : codec.decode (first :: tail) = (.ok (some p), rest)) :
    ((∃ out, codec.encode p [] = (.ok (), out) ∧ out.head? = some first) ↔
      UncheckedFlagsClear first) ∧
    (p.AnnouncedBy (first &&& 0x0F) ↔ UncheckedFlagsClear first) := by
  obtain ⟨first', form, payload, hsrc, hform, hfour, hvalue, -, hpacket⟩ := decode_inv h
  obtain rfl : first = first' := (cons.inj hsrc).1
  obtain ⟨ptype, htype, hptype, ⟨-, hfit, hle⟩, hflags⟩ := decodePacket_decodedFrom hpacket
  have hlt := lt_of_lt_of_le (value_lt form) (Nat.pow_le_pow_right (by norm_num) hfour)
  have hencode := codec.encode_frame hfit (by omega) []
  -- the flag bits are the packet's, or its branch has not looked at them
  have hclear : first &&& 0x0F = p.flags ↔ UncheckedFlagsClear first := by
    constructor
    · intro hlow ptype' htype' hunchecked
      obtain rfl : ptype = ptype' := Except.ok.inj (htype.symm.trans htype')
      rw [hlow, flags_eq_reservedFlags (by rw [hptype]; rintro rfl; cases hunchecked),
        hptype]
      cases ptype <;> first | rfl | cases hunchecked
    · intro hclear
      cases hcheck : ptype.checksFlags with
      | true => exact (hflags hcheck).symm
      | false =>
        rw [hclear ptype htype hcheck,
          flags_eq_reservedFlags (by rw [hptype]; rintro rfl; cases hcheck), hptype]
        cases ptype <;> first | rfl | cases hcheck
  have hfirst : p.firstByte = first ↔ first &&& 0x0F = p.flags := by
    rw [firstByte, hptype, firstByte_eq_iff p.flags htype, flags_and]
  refine ⟨?_, (p.announcedBy_iff _).trans hclear⟩
  rw [← hclear, ← hfirst]
  constructor
  · rintro ⟨out, hout, hhead⟩
    rw [hencode] at hout
    cases hout
    exact Option.some.inj hhead
  · intro hbyte
    exact ⟨_, hencode, congrArg some hbyte⟩

theorem MqttCodec.firstByte_iff_pubrel :
    ∃ p, MqttCodec.decode {} [0x62, 0x02, 0x00, 0x07] = (.ok (some p), []) ∧
      ∃ out, MqttCodec.encode {} p [] = (.ok (), out) ∧ out.head? = some 0x62 := by
  refine ⟨.pubrel 7, rfl,
    (firstByte_iff {} 0x62 [0x02, 0x00, 0x07] [] (.pubrel 7) rfl).1.mpr ?_⟩
  intro ptype htype hunchecked
  cases htype
  cases hunchecked

/-- A PUBACK with a reserved flag bit set is accepted; the encoder writes it with the bit clear. -/
theorem MqttCodec.firstByte_puback :
    MqttCodec.decode {} [0x41, 0x02, 0x00, 0x07] = (.ok (some (.puback 7)), []) ∧
    ¬ (∃ out, MqttCodec.encode {} (.puback 7) [] = (.ok (), out) ∧ out.head? = some 0x41) ∧
    ¬ (Packet.puback 7).AnnouncedBy ((0x41 : UInt8) &&& 0x0F) := by
  refine ⟨rfl, ?_, ?_⟩
  · rintro ⟨out, hout, hhead⟩
    have hfit : (puback 7).FieldsFit := by simp [Packet.FieldsFit, fields]
    rw [encode_frame {} hfit (by decide)] at hout
    cases hout
    have hbyte : (puback 7).firstByte = 0x41 := Option.some.inj hhead
    exact absurd hbyte (by decide)
  · rw [announcedBy_iff]
    decide

end LumenMQ
