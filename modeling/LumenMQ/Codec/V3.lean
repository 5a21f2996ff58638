import LumenMQ.Codec.Reader

set_option autoImplicit false

/-! # The MQTT codec

`MqttCodec.decode` cuts one frame off the front of a receive buffer and decodes it;
`MqttCodec.encode` appends one frame to a send buffer. The buffer a call leaves behind is returned
beside its result, since the source mutates it in place. -/

namespace LumenMQ

open Reader ConnectFlags

/-- Decoder and encoder state: only the configured size limit. -/
structure MqttCodec where
  maxPacketSize : Nat := 1024 * 1024

/-- `{n:02x}`: lower-case hexadecimal, at least two digits. -/
def hex02 (n : Nat) : String :=
  let ds := Nat.toDigits 16 n
  String.ofList (if ds.length < 2 then '0' :: ds else ds)

/-! ## Fixed header -/

/-- The loop of `decodeRemainingLength` over the bytes not yet looked at. -/
def decodeRemainingLengthLoop :
    Bytes → (multiplier value idx : Nat) → Except CodecError (Option (Nat × Nat))
  | [], _, _, _ => .ok none
  | byte :: rest, multiplier, value, idx =>
    if multiplier > 128 * 128 * 128 then
      .error (.invalidRemainingLength value)
    else
      let value := value + (byte &&& 0x7F).toNat * multiplier
      if byte &&& 0x80 = 0 then
        .ok (some (value, idx + 1))
      else
        decodeRemainingLengthLoop rest (multiplier * 128) value (idx + 1)

/-- The remaining length and the size of the fixed header, or `none` when bytes are missing. The
    first byte is the packet type, so the loop starts behind it. -/
def decodeRemainingLength (src : Bytes) : Except CodecError (Option (Nat × Nat)) :=
  decodeRemainingLengthLoop (src.drop 1) 1 0 1

def encodeRemainingLength (value : Nat) (dst : Bytes) : Bytes :=
  let byte := UInt8.ofNat (value % 128)
  if value / 128 > 0 then
    encodeRemainingLength (value / 128) (dst ++ [byte ||| 0x80])
  else
    dst ++ [byte]
termination_by value
decreasing_by omega

/-! ## MQTT 5.0 properties -/

namespace PropId

/-- Session expiry interval (`u32`, seconds). -/
def sessionExpiryInterval : Nat := 0x11

end PropId

/-- String or binary value: a two-byte length and the data. -/
def skipStringOrBinary : Parse Unit := do
  let len ← readU16
  skip len.toNat

/-- User property: two length-prefixed strings. -/
def skipStringPair : Parse Unit := do
  skipStringOrBinary
  skipStringOrBinary

/-- Skip the value of the property `id`, by the value type the source gives that identifier. -/
def skipPropertyValue (id : Nat) : Parse Unit :=
  if id ∈ [0x01, 0x17, 0x19, 0x22, 0x23, 0x26, 0x27, 0x28] then do
    let _ ← readU8
    pure ()
  else if id ∈ [0x13, 0x1E, 0x1F, 0x21] then do
    let _ ← readU16
    pure ()
  else if id ∈ [0x02, 0x11, 0x18, 0x25] then do
    let _ ← readBytes 4
    pure ()
  else if id ∈ [0x0B] then do
    let _ ← readVbi
    pure ()
  else if id ∈ [0x03, 0x08, 0x0C, 0x12, 0x15, 0x1A, 0x1C, 0x1D] then
    skipStringOrBinary
  else if id ∈ [0x09, 0x16] then
    skipStringOrBinary
  else if id ∈ [0x24] then
    skipStringPair
  else
    throw (.malformedBody s!"unknown mqtt5 property id 0x{hex02 id}")

/-- The loop `while r.pos < end` of `parseConnectProperties`. Each round reads at least the
    identifier, so `props_len` rounds are enough. -/
def parseConnectPropertiesLoop (stop : Nat) :
    Nat → ConnectProperties → Parse ConnectProperties
  | 0, props => pure props
  | fuel + 1, props => do
    let r ← get
    if r.pos < stop then
      let id ← readVbi
      if id = PropId.sessionExpiryInterval then
        let left ← remaining
        failIf (left < 4) (.malformedBody "session expiry interval truncated")
        let raw ← readBytes 4
        parseConnectPropertiesLoop stop fuel
          { props with sessionExpiryInterval := some (u32FromBeBytes raw) }
      else
        skipPropertyValue id
        parseConnectPropertiesLoop stop fuel props
    else
      pure props

/-- Read a CONNECT property segment of `propsLen` bytes, keeping the session expiry interval. -/
def parseConnectProperties (propsLen : Nat) : Parse ConnectProperties := do
  let r ← get
  if propsLen = 0 then
    pure {}
  else
    parseConnectPropertiesLoop (r.pos + propsLen) propsLen {}

/-! ## Packet bodies: decoding -/

def validateFlags (ptype : PacketType) (flags : UInt8) : Parse Unit :=
  match ptype with
  | .pubrel | .subscribe | .unsubscribe =>
    failIf (flags ≠ 0b0010) (.invalidFlags ptype.asU8 flags)
  | .publish => pure ()
  | _ => failIf (flags ≠ 0b0000) (.invalidFlags ptype.asU8 flags)

def validatePacketId (pid : UInt16) : Parse UInt16 := do
  failIf (pid = 0) (.malformedBody "packet id must not be zero")
  pure pid

/-- `validate_packet_id(r.read_u16()?)?`. -/
def readPacketId : Parse UInt16 := do
  let pid ← readU16
  validatePacketId pid

/-- The will QoS in the CONNECT flag byte. -/
def decodeWillQos (connectFlagsByte : UInt8) : Except CodecError QoS :=
  match (connectFlagsByte &&& willQosMask.bits) >>> 3 with
  | 0 => .ok .atMostOnce
  | 1 => .ok .atLeastOnce
  | 2 => .ok .exactlyOnce
  | other => .error (.malformedBody s!"invalid will qos {other}")

/-- Skip a property segment whose length is the next variable byte integer. -/
def skipProperties (truncated : String) : Parse Unit := do
  let propsLen ← readVbi
  let left ← remaining
  failIf (left < propsLen) (.malformedBody truncated)
  skip propsLen

/-- A part of the payload that is there when its flag is set. -/
def readOptional {β : Type} (present : Bool) (read : Parse β) : Parse (Option β) :=
  if present then some <$> read else pure none

/-- At level 5 a property segment stands between the keep-alive and the payload. -/
def decodeConnectProperties : Parse ConnectProperties := do
  let propsLen ← readVbi
  let left ← remaining
  failIf (left < propsLen) (.malformedBody "connect properties truncated")
  parseConnectProperties propsLen

/-- The will properties are skipped; only level 5 has them. -/
def skipWillProperties (protocolLevel : UInt8) : Parse Unit :=
  if protocolLevel = mqtt5Level then skipProperties "will properties truncated" else pure ()

def decodeWill (protocolLevel connectFlagsByte : UInt8) : Parse LastWill := do
  let flags := fromBitsTruncate connectFlagsByte
  let qos ← liftResult (decodeWillQos connectFlagsByte)
  skipWillProperties protocolLevel
  let topic ← readString
  let message ← readBinary
  pure { topic, message, qos, retain := flags.contains willRetain }

def decodeConnect : Parse Packet := do
  let protocolName ← readString
  failIf (protocolName ≠ "MQTT" ∧ protocolName ≠ "MQIsdp")
    (.invalidProtocol s!"unknown protocol name '{protocolName}'")
  let protocolLevel ← readU8
  failIf (protocolLevel ≠ mqtt311Level ∧ protocolLevel ≠ mqtt31Level ∧ protocolLevel ≠ mqtt5Level)
    (.unsupportedVersion protocolLevel)
  let connectFlagsByte ← readU8
  let flags := fromBitsTruncate connectFlagsByte
  let keepAlive ← readU16
  let properties ← readOptional (protocolLevel == mqtt5Level) decodeConnectProperties
  let clientId ← readString
  let cleanSession := flags.contains cleanSession
  let will ← readOptional (flags.contains willFlag)
    (decodeWill protocolLevel connectFlagsByte)
  let username ← readOptional (flags.contains username) readString
  let password ← readOptional (flags.contains password) readBinary
  pure (.connect
    { protocolLevel, keepAlive, clientId, cleanSession, will, username, password, properties })

def decodeConnack : Parse Packet := do
  let flagsByte ← readU8
  let sessionPresent := flagsByte &&& 0x01 != 0
  let returnCode ← readU8
  -- the level is inferred: a property segment is there exactly at level 5
  let left ← remaining
  let properties ← readOptional (left > 0) (skipProperties "connack properties truncated")
  let protocolLevel := if properties.isSome then mqtt5Level else mqtt311Level
  pure (.connack { sessionPresent, returnCode, protocolLevel })

def decodePublish (flags : UInt8) : Parse Packet := do
  let dup := flags &&& 0b1000 != 0
  let qos ← liftResult (QoS.fromU8 ((flags &&& 0b0110) >>> 1))
  let retain := flags &&& 0b0001 != 0
  failIf (qos = .atMostOnce ∧ dup = true) (.malformedBody "DUP=1 is invalid for QoS0 PUBLISH")
  let topic ← readString
  let packetId ← readOptional (qos != .atMostOnce) readPacketId
  let left ← remaining
  let payload ← readBytes left
  pure (.publish { dup, qos, retain, topic, packetId, payload })

/-- One entry of a SUBSCRIBE payload. Only the QoS bits of the options byte are read. -/
def decodeSubscribeTopic : Parse SubscribeTopic := do
  let topicFilter ← readString
  let qosByte ← readU8
  let qos ← liftResult (QoS.fromU8 (qosByte &&& 0b00000011))
  pure { topicFilter, qos }

def decodeSubscribe : Parse Packet := do
  let packetId ← readPacketId
  let topics ← collectToEnd decodeSubscribeTopic
  failIf (topics = []) (.malformedBody "subscribe with no topic")
  pure (.subscribe { packetId, topics })

def decodeSuback : Parse Packet := do
  let packetId ← readPacketId
  let returnCodes ← collectToEnd readU8
  pure (.suback { packetId, returnCodes })

def decodeUnsubscribe : Parse Packet := do
  let packetId ← readPacketId
  let topicFilters ← collectToEnd readString
  failIf (topicFilters = []) (.malformedBody "unsubscribe with no topic")
  pure (.unsubscribe { packetId, topicFilters })

/-- The body decoder for a packet type. -/
def decodeBody (ptype : PacketType) (flags : UInt8) : Parse Packet :=
  match ptype with
  | .connect => decodeConnect
  | .connack => decodeConnack
  | .publish => decodePublish flags
  | .puback => .puback <$> readPacketId
  | .pubrec => .pubrec <$> readPacketId
  | .pubrel => do validateFlags ptype flags; .pubrel <$> readPacketId
  | .pubcomp => .pubcomp <$> readPacketId
  | .subscribe => do validateFlags ptype flags; decodeSubscribe
  | .suback => decodeSuback
  | .unsubscribe => do validateFlags ptype flags; decodeUnsubscribe
  | .unsuback => .unsuback <$> readPacketId
  | .pingreq => do validateFlags ptype flags; pure .pingreq
  | .pingresp => do validateFlags ptype flags; pure .pingresp
  | .disconnect => do validateFlags ptype flags; pure .disconnect

def decodePacket (first : UInt8) (payload : Bytes) : Except CodecError Packet := do
  let ptype ← PacketType.fromU8 (first >>> 4)
  let flags := first &&& 0x0F
  let (packet, _) ← (decodeBody ptype flags).run (Cursor.start payload)
  pure packet

/-- Decode one frame from the front of `src`; the second component is what is left in `src`. -/
def MqttCodec.decode (self : MqttCodec) (src : Bytes) :
    Except CodecError (Option Packet) × Bytes :=
  if src.length < 2 then
    (.ok none, src)
  else
    match decodeRemainingLength src with
    | .error e => (.error e, src)
    | .ok none => (.ok none, src)
    | .ok (some (remainingLen, headerLen)) =>
      let total := headerLen + remainingLen
      if total > self.maxPacketSize then
        (.error (.malformedBody s!"packet length {total} exceeds max {self.maxPacketSize}"), src)
      else if src.length < total then
        (.ok none, src)
      else
        let frame := src.take total
        let src := src.drop total
        -- a frame holds at least the two header bytes, so the default is not used
        match decodePacket (frame.headD 0) (frame.drop headerLen) with
        | .ok packet => (.ok (some packet), src)
        | .error e => (.error e, src)

/-! ## Packet bodies: encoding -/

def putU16 (out : Bytes) (v : UInt16) : Bytes := out ++ beBytes 2 v.toNat

def putU32 (out : Bytes) (v : UInt32) : Bytes := out ++ beBytes 4 v.toNat

def putString (out : Bytes) (s : String) : Except CodecError Bytes :=
  let len := (stringBytes s).length
  if len > 65535 then
    .error (.malformedBody s!"string too long: {len} bytes (max 65535)")
  else
    .ok (putU16 out (UInt16.ofNat len) ++ stringBytes s)

def putBinary (out : Bytes) (b : Bytes) : Except CodecError Bytes :=
  if b.length > 65535 then
    .error (.malformedBody s!"binary too long: {b.length} bytes (max 65535)")
  else
    .ok (putU16 out (UInt16.ofNat b.length) ++ b)

/-- The flag bits of a will. -/
def willFlags (qos : QoS) (retain : Bool) : ConnectFlags :=
  let qosFlags :=
    match qos with
    | .atMostOnce => willQos0
    | .atLeastOnce => willQos1
    | .exactlyOnce => willQos2
  let flags := willFlag.union qosFlags
  if retain then flags.union willRetain else flags

/-- The flag byte `encode_connect` builds, from the parts of the packet it looks at. -/
def connectFlagBits (cleanSession : Bool) (will : Option (QoS × Bool))
    (hasUsername hasPassword : Bool) : ConnectFlags :=
  let flags := ConnectFlags.empty
  let flags := if cleanSession then flags.union ConnectFlags.cleanSession else flags
  let flags := match will with
    | some (qos, retain) => flags.union (willFlags qos retain)
    | none => flags
  let flags := if hasUsername then flags.union username else flags
  if hasPassword then flags.union password else flags

def connectFlags (c : Connect) : ConnectFlags :=
  connectFlagBits c.cleanSession (c.will.map fun w => (w.qos, w.retain)) c.username.isSome
    c.password.isSome

/-- The property segment of a CONNECT: the session expiry interval, when there is one. -/
def connectPropsBody (properties : Option ConnectProperties) : Bytes :=
  match properties with
  | some { sessionExpiryInterval := some sei } => putU32 [0x11] sei
  | _ => []

/-- The variable header of a CONNECT behind the protocol name. -/
def putConnectHeader (c : Connect) (out : Bytes) : Bytes :=
  let out := out ++ [c.protocolLevel]
  let out := out ++ [(connectFlags c).bits]
  let out := putU16 out c.keepAlive
  if c.protocolLevel = mqtt5Level then
    let propsBody := connectPropsBody c.properties
    encodeRemainingLength propsBody.length out ++ propsBody
  else
    out

/-- The will of a CONNECT, at level 5 behind an empty property segment. -/
def encodeWill (protocolLevel : UInt8) (will : LastWill) (out : Bytes) :
    Except CodecError Bytes := do
  let out := if protocolLevel = mqtt5Level then encodeRemainingLength 0 out else out
  let out ← putString out will.topic
  putBinary out will.message

/-- An optional field (`if let Some(a) = field { .. }`). -/
def encodeOptional {α : Type} (field : Option α) (write : α → Bytes → Except CodecError Bytes)
    (out : Bytes) : Except CodecError Bytes :=
  match field with
  | some a => write a out
  | none => .ok out

def encodeConnect (c : Connect) (out : Bytes) : Except CodecError Bytes := do
  let out ← putString out "MQTT"
  let out := putConnectHeader c out
  let out ← putString out c.clientId
  let out ← encodeOptional c.will (encodeWill c.protocolLevel) out
  let out ← encodeOptional c.username (fun u out => putString out u) out
  encodeOptional c.password (fun p out => putBinary out p) out

def encodeConnack (c : Connack) (out : Bytes) : Bytes :=
  let out := out ++ [if c.sessionPresent then 0x01 else 0x00]
  let out := out ++ [c.returnCode]
  if c.protocolLevel = mqtt5Level then encodeRemainingLength 0 out else out

/-- The flag bits `encodePublish` returns. -/
def publishFlags (dup : Bool) (qos : QoS) (retain : Bool) : UInt8 :=
  let flags : UInt8 := 0
  let flags := if dup then flags ||| 0b1000 else flags
  let flags := flags ||| ((qos.asU8 &&& 0b11) <<< 1)
  if retain then flags ||| 0b0001 else flags

def encodePublish (p : Publish) (out : Bytes) : Except CodecError (UInt8 × Bytes) := do
  let out ← putString out p.topic
  let out := match p.packetId with
    | some id => putU16 out id
    | none => out
  let out := out ++ p.payload
  pure (publishFlags p.dup p.qos p.retain, out)

def encodeSubscribe (s : Subscribe) (out : Bytes) : Except CodecError Bytes :=
  s.topics.foldlM (fun out t => do
    let out ← putString out t.topicFilter
    pure (out ++ [t.qos.asU8])) (putU16 out s.packetId)

def encodeUnsubscribe (u : Unsubscribe) (out : Bytes) : Except CodecError Bytes :=
  u.topicFilters.foldlM putString (putU16 out u.packetId)

/-- Append the body of `p` to `out`; returns the packet type and the header flags with it. -/
def encodePacketBody (p : Packet) (out : Bytes) :
    Except CodecError (PacketType × UInt8 × Bytes) :=
  match p with
  | .connect c => do let out ← encodeConnect c out; pure (.connect, 0, out)
  | .connack c => pure (.connack, 0, encodeConnack c out)
  | .publish p => do let (flags, out) ← encodePublish p out; pure (.publish, flags, out)
  | .puback id => pure (.puback, 0, putU16 out id)
  | .pubrec id => pure (.pubrec, 0, putU16 out id)
  | .pubrel id => pure (.pubrel, 0b0010, putU16 out id)
  | .pubcomp id => pure (.pubcomp, 0, putU16 out id)
  | .subscribe s => do let out ← encodeSubscribe s out; pure (.subscribe, 0b0010, out)
  | .suback s => pure (.suback, 0, putU16 out s.packetId ++ s.returnCodes)
  | .unsubscribe u => do let out ← encodeUnsubscribe u out; pure (.unsubscribe, 0b0010, out)
  | .unsuback id => pure (.unsuback, 0, putU16 out id)
  | .pingreq => pure (.pingreq, 0, out)
  | .pingresp => pure (.pingresp, 0, out)
  | .disconnect => pure (.disconnect, 0, out)

/-- Append the frame of `item` to `dst`; the second component is `dst` after the call. -/
def MqttCodec.encode (_self : MqttCodec) (item : Packet) (dst : Bytes) :
    Except CodecError Unit × Bytes :=
  match encodePacketBody item [] with
  | .error e => (.error e, dst)
  | .ok (ptype, flags, body) =>
    if body.length > 0x0FFFFFFF then
      (.error (.invalidRemainingLength body.length), dst)
    else
      let firstByte := ptype.asU8 <<< 4 ||| (flags &&& 0x0F)
      (.ok (), encodeRemainingLength body.length (dst ++ [firstByte]) ++ body)

end LumenMQ
