import LumenMQ.Lib.Appends
import LumenMQ.Codec.Properties

set_option autoImplicit false

/-! # The codec round trip

The encoder and the decoder are two separate case analyses over the fourteen packets. Both are
compared with one explicit byte string per packet, `Packet.body`: the encoder appends it exactly
when every string and binary field fits its two-byte length, and the decoder reads it back. The
fixed header is treated once for all packets. -/

namespace LumenMQ

open List Varint Reads Packet ConnectFlags

variable {p : Packet} {id : UInt16}

open Reader

/-! ## The fixed header -/

theorem encodeRemainingLength_eq (value : Nat) (dst : Bytes) :
    encodeRemainingLength value dst = dst ++ encode value := by
  induction value, dst using encodeRemainingLength.induct with
  | case1 value dst byte hpos ih =>
    rw [encodeRemainingLength, encode, if_pos hpos, if_pos hpos, ih, append_assoc]
    rfl
  | case2 value dst hpos =>
    rw [encodeRemainingLength, encode, if_neg hpos, if_neg hpos]

/-- The loop reads a whole form onto the accumulator as long as its last byte is still within the
    multiplier bound. -/
theorem decodeRemainingLengthLoop_form {bs : Bytes} (hform : IsForm bs) (rest : Bytes) :
    ∀ m v idx : Nat, m * 128 ^ (bs.length - 1) ≤ 128 ^ 3 →
      decodeRemainingLengthLoop (bs ++ rest) m v idx =
        .ok (some (v + m * value bs, idx + bs.length)) := by
  induction bs with
  | nil => exact hform.elim
  | cons b bs ih =>
    intro m v idx hm
    have hle : m ≤ 128 ^ 3 := le_trans (Nat.le_mul_of_pos_right _ (by positivity)) hm
    rw [cons_append, decodeRemainingLengthLoop, if_neg (by omega)]
    rcases hform.cases_cons with ⟨rfl, hlast⟩ | ⟨hcont, hrest⟩
    · have hbit : b &&& 0x80 = 0 := by simpa [continues] using hlast
      rw [if_pos hbit]
      simp [value, group, Nat.mul_comm]
    · have hbit : ¬ b &&& 0x80 = 0 := by simpa [continues] using hcont
      obtain ⟨l, hl⟩ : ∃ l, bs.length = l + 1 :=
        ⟨bs.length - 1, by have := length_pos_of_ne_nil hrest.ne_nil; omega⟩
      have hm' : m * 128 * 128 ^ (bs.length - 1) ≤ 128 ^ 3 := by
        simp only [length_cons, hl, Nat.add_sub_cancel, Nat.pow_succ] at hm ⊢
        rw [Nat.mul_assoc, Nat.mul_comm 128]
        exact hm
      rw [if_neg hbit, ih hrest _ _ _ hm']
      simp only [value, group, length_cons]
      congr 3
      · ring
      · omega

theorem decodeRemainingLength_encode {n : Nat} (hn : n < 128 ^ 4) (first : UInt8) (rest : Bytes) :
    decodeRemainingLength (first :: (encode n ++ rest)) =
      .ok (some (n, 1 + (encode n).length)) := by
  have hlen : (encode n).length ≤ 4 := length_encode_le (k := 3) hn
  have hpow : 128 ^ ((encode n).length - 1) ≤ 128 ^ 3 :=
    Nat.pow_le_pow_right (by norm_num) (by omega)
  show decodeRemainingLengthLoop (encode n ++ rest) 1 0 1 = _
  rw [decodeRemainingLengthLoop_form (encode_isForm n) rest 1 0 1
    (by rw [Nat.one_mul]; exact hpow), value_encode, Nat.zero_add, Nat.one_mul]

/-- Decoding a frame is decoding its body. -/
theorem MqttCodec.decode_frame (codec : MqttCodec) (first : UInt8) (body rest : Bytes)
    (hbody : body.length < 128 ^ 4)
    (hsize : (first :: (Varint.encode body.length ++ body)).length ≤ codec.maxPacketSize)
    (hp : decodePacket first body = .ok p) :
    codec.decode (first :: (Varint.encode body.length ++ body) ++ rest) = (.ok (some p), rest) := by
  have hne := length_pos_of_ne_nil (encode_isForm body.length).ne_nil
  have htotal : 1 + (Varint.encode body.length).length + body.length =
      (first :: (Varint.encode body.length ++ body)).length := by
    simp only [length_cons, length_append]
    omega
  have hheader : (first :: (Varint.encode body.length ++ body)).drop
      (1 + (Varint.encode body.length).length) = body := by
    rw [Nat.add_comm, drop_succ_cons, drop_left]
  have hlen : decodeRemainingLength (first :: (Varint.encode body.length ++ body) ++ rest) =
      .ok (some (body.length, 1 + (Varint.encode body.length).length)) := by
    rw [cons_append, append_assoc]
    exact decodeRemainingLength_encode hbody first (body ++ rest)
  rw [MqttCodec.decode, if_neg (by simp only [length_append, length_cons]; omega), hlen]
  simp only [htotal]
  rw [if_neg (by omega), if_neg (by simp only [length_append]; omega), take_left,
    drop_left, hheader, headD_cons, hp]

/-! ## Bodies -/

/-- The bytes of an optional field. -/
def optionalField {α : Type} (field : Option α) (f : α → Bytes) : Bytes :=
  (field.map f).getD []

/-- The property segment of a CONNECT, with its length in front. -/
def Connect.propsBytes (c : Connect) : Bytes :=
  if c.protocolLevel = mqtt5Level then
    encode (connectPropsBody c.properties).length ++ connectPropsBody c.properties
  else []

/-- The bytes between the protocol name and the client identifier. -/
def Connect.header (c : Connect) : Bytes :=
  [c.protocolLevel, (connectFlags c).bits] ++ beBytes 2 c.keepAlive.toNat ++ c.propsBytes

def LastWill.bytes (level : UInt8) (w : LastWill) : Bytes :=
  (if level = mqtt5Level then encode 0 else []) ++
    (lengthPrefixed (stringBytes w.topic) ++ lengthPrefixed w.message)

def Connect.body (c : Connect) : Bytes :=
  lengthPrefixed (stringBytes "MQTT") ++
    (c.header ++
      (lengthPrefixed (stringBytes c.clientId) ++
        (optionalField c.will (LastWill.bytes c.protocolLevel) ++
          (optionalField c.username (fun u => lengthPrefixed (stringBytes u)) ++
            optionalField c.password lengthPrefixed))))

def Publish.body (p : Publish) : Bytes :=
  lengthPrefixed (stringBytes p.topic) ++
    (optionalField p.packetId (fun id => beBytes 2 id.toNat) ++ p.payload)

def SubscribeTopic.bytes (t : SubscribeTopic) : Bytes :=
  lengthPrefixed (stringBytes t.topicFilter) ++ [t.qos.asU8]

namespace Packet

def packetType : Packet → PacketType
  | .connect _ => .connect
  | .connack _ => .connack
  | .publish _ => .publish
  | .puback _ => .puback
  | .pubrec _ => .pubrec
  | .pubrel _ => .pubrel
  | .pubcomp _ => .pubcomp
  | .subscribe _ => .subscribe
  | .suback _ => .suback
  | .unsubscribe _ => .unsubscribe
  | .unsuback _ => .unsuback
  | .pingreq => .pingreq
  | .pingresp => .pingresp
  | .disconnect => .disconnect

/-- The header flags of a packet. -/
def flags : Packet → UInt8
  | .publish p => publishFlags p.dup p.qos p.retain
  | .pubrel _ | .subscribe _ | .unsubscribe _ => 0b0010
  | _ => 0

/-- The body of a packet on the wire. -/
def body : Packet → Bytes
  | .connect c => c.body
  | .connack c => [if c.sessionPresent then 0x01 else 0x00, c.returnCode] ++
      (if c.protocolLevel = mqtt5Level then encode 0 else [])
  | .publish p => p.body
  | .puback id | .pubrec id | .pubrel id | .pubcomp id | .unsuback id => beBytes 2 id.toNat
  | .subscribe s => beBytes 2 s.packetId.toNat ++ s.topics.flatMap SubscribeTopic.bytes
  | .suback s => beBytes 2 s.packetId.toNat ++ s.returnCodes
  | .unsubscribe u => beBytes 2 u.packetId.toNat ++
      u.topicFilters.flatMap (fun f => lengthPrefixed (stringBytes f))
  | .pingreq | .pingresp | .disconnect => []

/-- The strings and binary fields of a packet, as bytes. -/
def fields : Packet → List Bytes
  | .connect c => stringBytes c.clientId ::
      (c.will.toList.flatMap (fun w => [stringBytes w.topic, w.message]) ++
        c.username.toList.map stringBytes ++ c.password.toList)
  | .publish p => [stringBytes p.topic]
  | .subscribe s => s.topics.map (fun t => stringBytes t.topicFilter)
  | .unsubscribe u => u.topicFilters.map stringBytes
  | _ => []

/-- Every string and binary field fits its two-byte length. -/
def FieldsFit (p : Packet) : Prop := ∀ field ∈ p.fields, field.length ≤ 65535

end Packet

/-! ## The encoder writes the body -/

theorem putBinary_appends (raw : Bytes) :
    Appends (fun out => putBinary out raw) (raw.length ≤ 65535) (lengthPrefixed raw) := by
  intro out
  refine ⟨fun h => ?_, fun h => ⟨_, if_pos (by omega)⟩⟩
  have hlen : (UInt16.ofNat raw.length).toNat = raw.length := by
    rw [UInt16.toNat_ofNat']
    omega
  simp only [putBinary]
  rw [if_neg (by omega), putU16, hlen, append_assoc]
  rfl

theorem putString_appends (s : String) :
    Appends (fun out => putString out s) ((stringBytes s).length ≤ 65535)
      (lengthPrefixed (stringBytes s)) := by
  intro out
  refine ⟨fun h => ?_, fun h => ⟨_, if_pos (by omega)⟩⟩
  have hlen : (UInt16.ofNat (stringBytes s).length).toNat = (stringBytes s).length := by
    rw [UInt16.toNat_ofNat']
    omega
  simp only [putString]
  rw [if_neg (by omega), putU16, hlen, append_assoc]
  rfl

/-- An optional field is written by its own writer, or not at all. -/
theorem encodeOptional_appends {α : Type} (field : Option α)
    {w : α → Bytes → Except CodecError Bytes} {fits : α → Prop} {f : α → Bytes}
    (hw : ∀ a, Appends (w a) (fits a) (f a)) :
    Appends (encodeOptional field w) (∀ a ∈ field, fits a) (optionalField field f) := by
  cases field with
  | none => exact Appends.nil.congr (by simp)
  | some a => exact (hw a).congr (by simp)

theorem encodeWill_appends (level : UInt8) (w : LastWill) :
    Appends (encodeWill level w)
      ((stringBytes w.topic).length ≤ 65535 ∧ w.message.length ≤ 65535) (w.bytes level) := by
  have h := ((putString_appends w.topic).bind (putBinary_appends w.message)).prepend
    (if level = mqtt5Level then encode 0 else [])
  show Appends (fun out => encodeWill level w out) _ _
  by_cases hl : level = mqtt5Level
  · simpa only [LastWill.bytes, encodeWill, if_pos hl, encodeRemainingLength_eq] using h
  · simpa only [LastWill.bytes, encodeWill, if_neg hl, append_nil] using h

theorem putConnectHeader_eq (c : Connect) (out : Bytes) :
    putConnectHeader c out = out ++ c.header := by
  rw [putConnectHeader, Connect.header, Connect.propsBytes]
  split <;> simp [putU16, encodeRemainingLength_eq]

theorem encodeConnect_appends (c : Connect) :
    Appends (encodeConnect c) (connect c).FieldsFit c.body := by
  have hpayload := (putString_appends c.clientId).bind
    ((encodeOptional_appends c.will (encodeWill_appends c.protocolLevel)).bind
      ((encodeOptional_appends c.username putString_appends).bind
        (encodeOptional_appends c.password putBinary_appends)))
  have hall := (putString_appends "MQTT").bind (hpayload.prepend c.header)
  have hmqtt : (stringBytes "MQTT").length ≤ 65535 := by decide
  simp only [← putConnectHeader_eq] at hall
  refine hall.congr ?_
  simp only [FieldsFit, fields]
  cases c.will <;> cases c.username <;> cases c.password <;> simp [hmqtt, and_assoc]

theorem encodeSubscribe_appends (s : Subscribe) :
    Appends (encodeSubscribe s) (subscribe s).FieldsFit (subscribe s).body := by
  have htop : ∀ t : SubscribeTopic, Appends
      (fun out => do let out ← putString out t.topicFilter; pure (out ++ [t.qos.asU8]))
      ((stringBytes t.topicFilter).length ≤ 65535) t.bytes := fun t =>
    ((putString_appends t.topicFilter).bind (Appends.pure [t.qos.asU8])).congr (by simp)
  exact ((Appends.foldlM htop s.topics).prepend (beBytes 2 s.packetId.toNat)).congr
    (by simp [FieldsFit, fields])

theorem encodeUnsubscribe_appends (u : Unsubscribe) :
    Appends (encodeUnsubscribe u) (unsubscribe u).FieldsFit (unsubscribe u).body :=
  ((Appends.foldlM putString_appends u.topicFilters).prepend (beBytes 2 u.packetId.toNat)).congr
    (by simp [FieldsFit, fields])

theorem encodePublish_okIff (p : Publish) (out : Bytes) :
    OkIff (encodePublish p out) (publish p).FieldsFit
      (publishFlags p.dup p.qos p.retain, out ++ p.body) := by
  have htop : Appends (fun out => putString out p.topic) (publish p).FieldsFit
      (lengthPrefixed (stringBytes p.topic)) :=
    (putString_appends p.topic).congr (by simp [FieldsFit, fields])
  refine OkIff.bind_ok (htop out) ?_
  rw [Publish.body, optionalField]
  cases p.packetId <;> simp [putU16, Pure.pure, Except.pure]

/-- The encoder's verdict on a packet: its type, flags and body when every field fits, an error
    otherwise. -/
theorem encodePacketBody_okIff (p : Packet) :
    OkIff (encodePacketBody p []) p.FieldsFit (p.packetType, p.flags, p.body) := by
  -- a packet without length-prefixed fields always fits
  have nofields : ∀ q : Packet, q.fields = [] → q.FieldsFit := by
    intro q hq field hfield
    rw [hq] at hfield
    exact absurd hfield not_mem_nil
  cases p with
  | connect c => exact (encodeConnect_appends c []).bind_ok rfl
  | publish p => exact (encodePublish_okIff p []).bind_ok rfl
  | subscribe s => exact (encodeSubscribe_appends s []).bind_ok rfl
  | unsubscribe u => exact (encodeUnsubscribe_appends u []).bind_ok rfl
  | connack c =>
    refine ⟨fun _ => ?_, fun h => absurd (nofields _ rfl) h⟩
    rw [encodePacketBody, encodeConnack, body]
    split <;> simp [packetType, flags, encodeRemainingLength_eq] <;> rfl
  | _ => exact ⟨fun _ => rfl, fun h => absurd (nofields _ rfl) h⟩

/-! ## The decoder reads the body back -/

/-- What the decoder asks of the packets it returns. -/
def Packet.WellFormed : Packet → Prop
  | .connect c => c.protocolLevel ∈ [mqtt31Level, mqtt311Level, mqtt5Level] ∧
      (c.properties.isSome ↔ c.protocolLevel = mqtt5Level)
  | .connack c => c.protocolLevel ∈ [mqtt311Level, mqtt5Level]
  | .publish p => (p.packetId.isSome ↔ p.qos ≠ .atMostOnce) ∧ (∀ id ∈ p.packetId, id ≠ 0) ∧
      (p.qos = .atMostOnce → p.dup = false)
  | .puback id | .pubrec id | .pubrel id | .pubcomp id | .unsuback id => id ≠ 0
  | .subscribe s => s.packetId ≠ 0 ∧ s.topics ≠ []
  | .suback s => s.packetId ≠ 0
  | .unsubscribe u => u.packetId ≠ 0 ∧ u.topicFilters ≠ []
  | .pingreq | .pingresp | .disconnect => True

theorem readPacketId_reads (h : id ≠ 0) : Reads readPacketId (beBytes 2 id.toNat) id :=
  (readU16_reads id).bind_nil ((failIf_reads h).bind_nil (pure id))

theorem skipProperties_reads (truncated : String) :
    Reads (skipProperties truncated) (encode 0) () := by
  have hvbi := readVbi_reads (encode_isForm 0) (length_encode_le (k := 3) (by norm_num))
  rw [value_encode] at hvbi
  refine hvbi.bind_nil (remaining_reads fun left _ => ?_)
  exact (failIf_reads (Nat.not_lt_zero left)).bind_nil (skip_reads rfl)

/-- The flag byte of a CONNECT gives back which parts are present. -/
theorem connectFlagBits_contains (clean hasUsername hasPassword : Bool)
    (will : Option (QoS × Bool)) :
    let bits := (connectFlagBits clean will hasUsername hasPassword).bits
    let flags := fromBitsTruncate bits
    flags.contains cleanSession = clean ∧
    flags.contains willFlag = will.isSome ∧
    flags.contains username = hasUsername ∧
    flags.contains password = hasPassword ∧
    (∀ w ∈ will, decodeWillQos bits = .ok w.1 ∧ flags.contains willRetain = w.2) := by
  rcases will with _ | ⟨qos, retain⟩
  · revert clean hasUsername hasPassword
    decide
  · revert clean hasUsername hasPassword retain
    cases qos <;> decide

/-- The property segment of a CONNECT is read back. -/
theorem connectProps_reads (props : ConnectProperties) :
    Reads (parseConnectProperties (connectPropsBody (some props)).length)
      (connectPropsBody (some props)) props := by
  rcases props with ⟨_ | sei⟩
  · exact (parseConnectProperties_reads_iff [] _).mpr ⟨[], rfl, rfl⟩
  · rw [parseConnectProperties_reads_iff]
    let s : Segment :=
      { idBytes := [0x11]
        value := beBytes 4 sei.toNat
        idForm := ⟨rfl, by simp⟩
        valueForm := ⟨.fourByte, by decide, length_beBytes 4 _⟩ }
    refine ⟨[s], by simp [s, Segment.bytes, connectPropsBody, putU32], ?_⟩
    exact congrArg (fun v => ConnectProperties.mk (some v)) (u32FromBeBytes_beBytes sei).symm

/-- An optional field is read back from behind its flag. -/
theorem readOptional_reads {α : Type} {flag : Bool} {read : Parse α} {f : α → Bytes}
    (field : Option α) (hflag : flag = field.isSome) (hread : ∀ a ∈ field, Reads read (f a) a) :
    Reads (readOptional flag read) (optionalField field f) field := by
  subst hflag
  cases field with
  | none => exact pure none
  | some a => exact (hread a rfl).map some

theorem decodeConnectProperties_reads (props : ConnectProperties) :
    Reads decodeConnectProperties
      (encode (connectPropsBody (some props)).length ++ connectPropsBody (some props))
      props := by
  have hlen : (connectPropsBody (some props)).length < 128 ^ 4 := by
    rcases props with ⟨_ | sei⟩ <;> simp [connectPropsBody, putU32]
  have hvbi := readVbi_reads (encode_isForm (connectPropsBody (some props)).length)
    (length_encode_le (k := 3) hlen)
  rw [value_encode] at hvbi
  refine hvbi.bind (remaining_reads fun left hleft => ?_)
  exact nil_bind (failIf_reads (by omega)) (connectProps_reads props)

theorem Connect.propsBytes_eq {c : Connect}
    (hprops : c.properties.isSome ↔ c.protocolLevel = mqtt5Level) :
    c.propsBytes = optionalField c.properties (fun props =>
      encode (connectPropsBody (some props)).length ++ connectPropsBody (some props)) := by
  rw [Connect.propsBytes]
  cases hp : c.properties with
  | none => rw [if_neg (by rw [← hprops, hp]; simp)]; rfl
  | some props => rw [if_pos (by rw [← hprops, hp]; rfl)]; rfl

theorem decodeWill_reads {level bits : UInt8} {w : LastWill}
    (hqos : decodeWillQos bits = .ok w.qos)
    (hret : (ConnectFlags.fromBitsTruncate bits).contains ConnectFlags.willRetain = w.retain)
    (htop : (stringBytes w.topic).length ≤ 65535) (hmsg : w.message.length ≤ 65535) :
    Reads (decodeWill level bits) (w.bytes level) w := by
  rw [decodeWill, LastWill.bytes, hqos]
  refine nil_bind (pure w.qos) (bind (a := ()) ?_ ?_)
  · rw [skipWillProperties]
    split
    · exact skipProperties_reads _
    · exact pure ()
  · refine (readString_reads htop).bind ((readBinary_reads hmsg).bind_nil ?_)
    rw [hret]
    exact pure w

theorem decodeConnect_reads {c : Connect} (hwf : (connect c).WellFormed)
    (hfit : (connect c).FieldsFit) : Reads decodeConnect c.body (.connect c) := by
  obtain ⟨hlevel, hprops⟩ := hwf
  obtain ⟨hclean, hwill, husername, hpassword, hbits⟩ := connectFlagBits_contains
    c.cleanSession c.username.isSome c.password.isSome (c.will.map fun w => (w.qos, w.retain))
  rw [Option.isSome_map] at hwill
  have hcid := hfit (stringBytes c.clientId) (by simp [fields])
  have hlens : ∀ w ∈ c.will, (stringBytes w.topic).length ≤ 65535 ∧ w.message.length ≤ 65535 :=
    fun w hw => ⟨hfit _ (by simp_all [fields]), hfit _ (by simp_all [fields])⟩
  rw [Connect.body, Connect.header, connectFlags]
  simp only [append_assoc]
  refine (readString_reads (by decide)).bind ?_
  refine nil_bind (failIf_reads (by decide)) ?_
  refine cons_bind (readU8_reads _) ?_
  refine nil_bind (failIf_reads ?_) ?_
  · simp only [mem_cons, not_mem_nil, or_false] at hlevel
    tauto
  refine cons_bind (readU8_reads _) ?_
  refine (readU16_reads _).bind ?_
  rw [Connect.propsBytes_eq hprops]
  refine bind (a := c.properties) (readOptional_reads _ ?_ fun props _ => ?_) ?_
  · rw [Bool.eq_iff_iff, beq_iff_eq, hprops]
  · exact decodeConnectProperties_reads props
  refine (readString_reads hcid).bind ?_
  refine bind (a := c.will) (readOptional_reads _ hwill fun w hw => ?_) ?_
  · obtain ⟨hqos, hret⟩ := hbits (w.qos, w.retain) (by simp_all)
    exact decodeWill_reads hqos hret (hlens w hw).1 (hlens w hw).2
  refine bind (a := c.username) (readOptional_reads _ husername fun u hu => ?_) ?_
  · exact readString_reads (hfit _ (by simp_all [fields]))
  refine bind_nil (a := c.password) (readOptional_reads _ hpassword fun p hp => ?_) ?_
  · exact readBinary_reads (hfit _ (by simp_all [fields]))
  rw [hclean]
  exact pure _

theorem decodeConnack_finishes {c : Connack} (hwf : (connack c).WellFormed) :
    Finishes decodeConnack (connack c).body (.connack c) := by
  obtain ⟨sessionPresent, returnCode, level⟩ := c
  have hbit : ((if sessionPresent then 0x01 else 0x00 : UInt8) &&& 0x01 != 0) = sessionPresent := by
    cases sessionPresent <;> decide
  refine cons_bind_finishes (readU8_reads _) ?_
  refine cons_bind_finishes (readU8_reads _) (remaining_finishes ?_)
  simp only [hbit]
  -- the level is read off from whether a property segment follows
  rcases mem_cons.mp hwf with hlevel | hlevel
  · obtain rfl : level = mqtt311Level := hlevel
    refine finishes ?_
    exact nil_bind (a := none) (pure none) (pure _)
  · obtain rfl : level = mqtt5Level := mem_singleton.mp hlevel
    have hpos := length_pos_of_ne_nil (encode_isForm 0).ne_nil
    rw [if_pos rfl]
    show Finishes (readOptional (decide ((encode 0).length > 0)) _ >>= _) (encode 0) _
    rw [decide_eq_true hpos]
    refine finishes ?_
    exact bind_nil (a := some ()) ((skipProperties_reads _).map some) (pure _)

/-- The flag bits of a PUBLISH give back its fields. -/
theorem publishFlags_fields (dup : Bool) (qos : QoS) (retain : Bool) :
    (publishFlags dup qos retain &&& 0b1000 != 0) = dup ∧
    QoS.fromU8 ((publishFlags dup qos retain &&& 0b0110) >>> 1) = .ok qos ∧
    (publishFlags dup qos retain &&& 0b0001 != 0) = retain := by
  revert dup retain
  cases qos <;> decide

theorem publishFlags_and (dup : Bool) (qos : QoS) (retain : Bool) :
    publishFlags dup qos retain &&& 0x0F = publishFlags dup qos retain := by
  revert dup retain
  cases qos <;> decide

theorem decodePublish_finishes {p : Publish} (hwf : (publish p).WellFormed)
    (hfit : (publish p).FieldsFit) :
    Finishes (decodePublish (publishFlags p.dup p.qos p.retain)) p.body (.publish p) := by
  obtain ⟨hid, hidN, hdup⟩ := hwf
  obtain ⟨hbit, hbits, hret⟩ := publishFlags_fields p.dup p.qos p.retain
  rw [decodePublish, hbit, hbits, hret, Publish.body]
  refine nil_bind_finishes (pure p.qos) ?_
  refine nil_bind_finishes (failIf_reads ?_) ?_
  · rintro ⟨hqos, hset⟩
    rw [hdup hqos] at hset
    exact Bool.false_ne_true hset
  refine (readString_reads (hfit _ (by simp [fields]))).bind_finishes ?_
  refine bind_finishes (a := p.packetId)
    (readOptional_reads _ ?_ fun id h => readPacketId_reads (hidN id h)) ?_
  · rw [Bool.eq_iff_iff, bne_iff_ne, hid]
  · refine remaining_finishes (finishes ?_)
    exact bind_nil (a := p.payload) (readBytes_reads rfl) (pure _)

theorem decodeSubscribeTopic_reads {t : SubscribeTopic}
    (h : (stringBytes t.topicFilter).length ≤ 65535) :
    Reads decodeSubscribeTopic t.bytes t := by
  have hqos : QoS.fromU8 (t.qos.asU8 &&& 0b00000011) = .ok t.qos := by
    cases t.qos <;> rfl
  refine (readString_reads h).bind ((readU8_reads _).bind_nil ?_)
  rw [hqos]
  exact nil_bind (pure t.qos) (pure t)

/-- A packet identifier and then a list of entries up to the end of the body. -/
theorem packetId_entries_finishes {ι α : Type} (hid : id ≠ 0) {read : Parse α} {f : ι → Bytes}
    {g : ι → α} (hne : ∀ x, f x ≠ []) (xs : List ι) (hread : ∀ x ∈ xs, Reads read (f x) (g x))
    {k : UInt16 → List α → Parse Packet} (hk : Reads (k id (xs.map g)) [] p) :
    Finishes (do let id ← readPacketId; let as ← collectToEnd read; k id as)
      (beBytes 2 id.toNat ++ xs.flatMap f) p := by
  refine (readPacketId_reads hid).bind_finishes ?_
  exact (collectToEnd_finishes hne xs hread).bind fun c => ⟨c, hk c c.rest rfl⟩

theorem packetId_list_finishes {α : Type} (hid : id ≠ 0) {read : Parse α} {f : α → Bytes}
    (hne : ∀ a, f a ≠ []) (as : List α) (hread : ∀ a ∈ as, Reads read (f a) a)
    {k : UInt16 → List α → Parse Packet} (hk : Reads (k id as) [] p) :
    Finishes (do let id ← readPacketId; let as ← collectToEnd read; k id as)
      (beBytes 2 id.toNat ++ as.flatMap f) p := by
  refine packetId_entries_finishes (g := fun a => a) hid hne as hread ?_
  rw [map_id']
  exact hk

/-- The flags of a packet are those its type asks for. -/
theorem validateFlags_reads (p : Packet) :
    Reads (validateFlags p.packetType (p.flags &&& 0x0F)) [] () := by
  cases p with
  | publish p => exact pure ()
  | pubrel id => exact failIf_reads (c := (0b0010 : UInt8) &&& 0x0F ≠ 0b0010) (by decide)
  | subscribe s => exact failIf_reads (c := (0b0010 : UInt8) &&& 0x0F ≠ 0b0010) (by decide)
  | unsubscribe u => exact failIf_reads (c := (0b0010 : UInt8) &&& 0x0F ≠ 0b0010) (by decide)
  | _ => exact failIf_reads (c := (0 : UInt8) &&& 0x0F ≠ 0b0000) (by decide)

/-- The body decoder for the type of `p` reads the body of `p` back. -/
theorem decodeBody_finishes (hwf : p.WellFormed) (hfit : p.FieldsFit) :
    Finishes (decodeBody p.packetType (p.flags &&& 0x0F)) p.body p := by
  have hprefixed : ∀ bs : Bytes, lengthPrefixed bs ≠ [] := by
    intro bs
    simp [lengthPrefixed, beBytes]
  cases p with
  | connect c => exact (decodeConnect_reads hwf hfit).finishes
  | connack c => exact decodeConnack_finishes hwf
  | publish p =>
    have h := decodePublish_finishes hwf hfit
    rw [← publishFlags_and] at h
    exact h
  | puback id => exact ((readPacketId_reads hwf).map puback).finishes
  | pubrec id => exact ((readPacketId_reads hwf).map pubrec).finishes
  | pubrel id =>
    exact (nil_bind (validateFlags_reads (.pubrel id))
      ((readPacketId_reads hwf).map pubrel)).finishes
  | pubcomp id => exact ((readPacketId_reads hwf).map pubcomp).finishes
  | unsuback id => exact ((readPacketId_reads hwf).map unsuback).finishes
  | subscribe s =>
    refine nil_bind_finishes (validateFlags_reads (.subscribe s)) ?_
    refine packetId_list_finishes hwf.1 (by simp [SubscribeTopic.bytes]) s.topics ?_ ?_
    · intro t ht
      exact decodeSubscribeTopic_reads (hfit _ (mem_map_of_mem ht))
    · exact nil_bind (failIf_reads hwf.2) (pure _)
  | suback s =>
    have h := packetId_list_finishes hwf (f := fun b => [b]) (by simp) s.returnCodes
      (fun b _ => readU8_reads b)
      (k := fun packetId returnCodes => pure (.suback { packetId, returnCodes }))
      (pure _)
    rwa [flatMap_singleton'] at h
  | unsubscribe u =>
    refine nil_bind_finishes (validateFlags_reads (.unsubscribe u)) ?_
    refine packetId_list_finishes hwf.1 (fun f => hprefixed _) u.topicFilters ?_ ?_
    · intro f hf
      exact readString_reads (hfit _ (mem_map_of_mem hf))
    · exact nil_bind (failIf_reads hwf.2) (pure _)
  | pingreq => exact ((validateFlags_reads .pingreq).bind_nil (Reads.pure pingreq)).finishes
  | pingresp => exact ((validateFlags_reads .pingresp).bind_nil (Reads.pure pingresp)).finishes
  | disconnect => exact ((validateFlags_reads .disconnect).bind_nil (Reads.pure disconnect)).finishes

/-- The first byte of a frame gives back the packet type and the flags. -/
theorem firstByte_fields (t : PacketType) (flags : UInt8) :
    (t.asU8 <<< 4 ||| (flags &&& 0x0F)) >>> 4 = t.asU8 ∧
    (t.asU8 <<< 4 ||| (flags &&& 0x0F)) &&& 0x0F = flags &&& 0x0F := by
  have key : ∀ n : Fin 16, ∀ m : Fin 15,
      (UInt8.ofNat m <<< 4 ||| UInt8.ofNat n) >>> 4 = UInt8.ofNat m ∧
      (UInt8.ofNat m <<< 4 ||| UInt8.ofNat n) &&& 0x0F = UInt8.ofNat n := by
    decide +kernel
  have hflag : (flags &&& 0x0F).toNat < 16 := by
    rw [UInt8.toNat_and]
    exact Nat.and_lt_two_pow _ (n := 4) (by decide)
  have htype : t.asU8.toNat < 15 := by cases t <;> decide
  have h := key ⟨_, hflag⟩ ⟨_, htype⟩
  simp only [UInt8.ofNat_toNat] at h
  exact h

theorem decodePacket_body (hwf : p.WellFormed) (hfit : p.FieldsFit) :
    decodePacket (p.packetType.asU8 <<< 4 ||| (p.flags &&& 0x0F)) p.body = .ok p := by
  obtain ⟨htype, hflag⟩ := firstByte_fields p.packetType p.flags
  obtain ⟨c', hrun⟩ := decodeBody_finishes hwf hfit (Cursor.start p.body) rfl
  rw [decodePacket, htype, hflag, PacketType.fromU8_asU8]
  show (decodeBody p.packetType (p.flags &&& 0x0F)).run (Cursor.start p.body) >>= _ = _
  rw [hrun]
  rfl

/-- **Round trip with framing.** The encoder refuses a well-formed packet only for a field or a body
    that is too long, and leaves the buffer as it was; otherwise it appends a frame from which the
    decoder reads the packet back, leaving exactly the bytes behind the frame. -/
theorem MqttCodec.encode_decode (codec : MqttCodec) (p : Packet) (hwf : p.WellFormed)
    (dst : Bytes) :
    (∃ e, codec.encode p dst = (.error e, dst) ∧
      ((∃ field ∈ p.fields, 65535 < field.length) ∨
        ∃ ptype flags body, encodePacketBody p [] = .ok (ptype, flags, body) ∧
          0x0FFFFFFF < body.length)) ∨
    (∃ frame, codec.encode p dst = (.ok (), dst ++ frame) ∧
      ∀ rest, frame.length ≤ codec.maxPacketSize →
        codec.decode (frame ++ rest) = (.ok (some p), rest)) := by
  obtain ⟨hok, herr⟩ := encodePacketBody_okIff p
  rw [MqttCodec.encode]
  by_cases hfit : p.FieldsFit
  · rw [hok hfit]
    by_cases hlen : 0x0FFFFFFF < p.body.length
    · exact .inl ⟨_, if_pos hlen, .inr ⟨_, _, _, rfl, hlen⟩⟩
    · refine .inr ⟨(p.packetType.asU8 <<< 4 ||| (p.flags &&& 0x0F)) ::
        (Varint.encode p.body.length ++ p.body), ?_, fun rest hsize => ?_⟩
      · simp only [if_neg hlen, encodeRemainingLength_eq, List.append_assoc, List.cons_append,
          nil_append]
      · exact codec.decode_frame _ p.body rest (by omega) hsize (decodePacket_body hwf hfit)
  · obtain ⟨e, he⟩ := herr hfit
    rw [he]
    refine .inl ⟨e, rfl, .inl ?_⟩
    simpa [FieldsFit] using hfit

/-- A redelivered, retained PUBLISH at QoS 2. -/
def redelivery : Packet :=
  .publish { dup := true, qos := .exactlyOnce, retain := true, topic := "a/b", packetId := some 7,
             payload := [1, 2] }

theorem MqttCodec.encode_decode_redelivery :
    redelivery.WellFormed ∧
    ∃ frame, MqttCodec.encode {} redelivery [0xC0, 0] = (.ok (), [0xC0, 0] ++ frame) ∧
      ∀ rest, frame.length ≤ 1024 * 1024 →
        MqttCodec.decode {} (frame ++ rest) = (.ok (some redelivery), rest) := by
  have hwf : redelivery.WellFormed := by
    simp [redelivery, WellFormed]
  refine ⟨hwf, ?_⟩
  rcases MqttCodec.encode_decode {} redelivery hwf [0xC0, 0] with ⟨e, -, hfield | hbody⟩ | h
  · exact absurd hfield (by decide)
  · obtain ⟨ptype, flags, body, hbody, hlen⟩ := hbody
    cases hbody
    exact absurd hlen (by decide)
  · exact h

end LumenMQ
