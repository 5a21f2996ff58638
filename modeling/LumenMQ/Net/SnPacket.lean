import LumenMQ.Codec.Reader

set_option autoImplicit false

/-! # MQTT-SN packets

The packets of the UDP gateway and their parser. Names and topics on the wire need not be valid
UTF-8: what is not is replaced, piece by piece, by U+FFFD (`String::from_utf8_lossy`). -/

namespace LumenMQ

/-! ## Lossy UTF-8 -/

/-- A continuation byte. -/
def isCont (b : UInt8) : Bool := b &&& 0xC0 == 0x80

/-- The byte after a byte, or 0 at the end (`safe_get`). -/
def safeGet (bs : Bytes) (i : Nat) : UInt8 := (bs[i]?).getD 0

/-- The second bytes that may follow the first byte of a three-byte character. -/
def second3 (b0 b1 : UInt8) : Bool :=
  if b0 = 0xE0 then 0xA0 ≤ b1 && b1 ≤ 0xBF
  else if b0 = 0xED then 0x80 ≤ b1 && b1 ≤ 0x9F
  else 0x80 ≤ b1 && b1 ≤ 0xBF

/-- The second bytes that may follow the first byte of a four-byte character. -/
def second4 (b0 b1 : UInt8) : Bool :=
  if b0 = 0xF0 then 0x90 ≤ b1 && b1 ≤ 0xBF
  else if b0 = 0xF4 then 0x80 ≤ b1 && b1 ≤ 0x8F
  else 0x80 ≤ b1 && b1 ≤ 0xBF

/-- The character of a code point given by the payload bits of its bytes. -/
def charOfBits (first : Nat) (rest : List UInt8) : Char :=
  Char.ofNat (rest.foldl (fun v b => v * 64 + (b &&& 0x3F).toNat) first)

def replacementChar : Char := Char.ofNat 0xFFFD

/-- One step of the lossy decoder on a non-empty input: the character and how many bytes after the
    first it takes. An invalid piece extends to the byte that breaks it. -/
def lossyStep (b0 : UInt8) (bs : Bytes) : Char × Nat :=
  let b1 := safeGet bs 0
  let b2 := safeGet bs 1
  let b3 := safeGet bs 2
  if b0 < 0x80 then (Char.ofNat b0.toNat, 0)
  else if 0xC2 ≤ b0 && b0 ≤ 0xDF then
    if isCont b1 then (charOfBits (b0 &&& 0x1F).toNat [b1], 1) else (replacementChar, 0)
  else if 0xE0 ≤ b0 && b0 ≤ 0xEF then
    if !second3 b0 b1 then (replacementChar, 0)
    else if isCont b2 then (charOfBits (b0 &&& 0x0F).toNat [b1, b2], 2)
    else (replacementChar, 1)
  else if 0xF0 ≤ b0 && b0 ≤ 0xF4 then
    if !second4 b0 b1 then (replacementChar, 0)
    else if !isCont b2 then (replacementChar, 1)
    else if isCont b3 then (charOfBits (b0 &&& 0x07).toNat [b1, b2, b3], 3)
    else (replacementChar, 2)
  else (replacementChar, 0)

/-- The characters of an input, skipping the bytes that belong to the last one. -/
def lossyChars : Nat → Bytes → List Char
  | _, [] => []
  | skip + 1, _ :: bs => lossyChars skip bs
  | 0, b :: bs => (lossyStep b bs).1 :: lossyChars (lossyStep b bs).2 bs

/-- `String::from_utf8_lossy`. -/
def fromUtf8Lossy (bs : Bytes) : String := String.ofList (lossyChars 0 bs)

/-! ## Packets -/

def rcAccepted : UInt8 := 0x00
def rcCongestion : UInt8 := 0x01
def rcInvalidTopicId : UInt8 := 0x02
def rcNotSupported : UInt8 := 0x03
def rcRejected : UInt8 := 0xFF

def protocolIdMqttsn : UInt8 := 0x01

def topicIdMin : UInt16 := 0x0001
def topicIdMax : UInt16 := 0xFFFE

def flagQosMask : UInt8 := 0b01100000
def flagQosShift : UInt8 := 5
def flagRetain : UInt8 := 0b00010000
def flagClean : UInt8 := 0b00000100
def flagTopicIdTypeMask : UInt8 := 0b00000011
def topicIdTypeShort : UInt8 := 0b10

/-- The QoS in a flag byte; the fourth value is answered with a return code. -/
def flagsToQos (flags : UInt8) : Except UInt8 QoS :=
  match (flags &&& flagQosMask) >>> flagQosShift with
  | 0 => .ok .atMostOnce
  | 1 => .ok .atLeastOnce
  | 2 => .ok .exactlyOnce
  | _ => .error rcNotSupported

def qosToFlags : QoS → UInt8
  | .atMostOnce => 0b00000000
  | .atLeastOnce => 0b00100000
  | .exactlyOnce => 0b01000000

inductive SnPacket where
  | connect (flags protocolId : UInt8) (duration : UInt16) (clientId : String)
  | connack (returnCode : UInt8)
  | register (flags : UInt8) (topicId msgId : UInt16) (topicName : String)
  | regack (flags : UInt8) (topicId msgId : UInt16) (returnCode : UInt8)
  | publish (flags : UInt8) (topicId msgId : UInt16) (data : Bytes)
  | puback (flags : UInt8) (topicId msgId : UInt16) (returnCode : UInt8)
  | subscribe (flags : UInt8) (msgId : UInt16) (topic : Bytes)
  | suback (flags : UInt8) (topicId msgId : UInt16) (returnCode : UInt8)
  | unsubscribe (flags : UInt8) (msgId : UInt16) (topic : Bytes)
  | unsuback (msgId : UInt16)
  | pingreq
  | pingresp
  | disconnect (duration : Option UInt16)
  | unknown (msgType : UInt8)
deriving DecidableEq, Repr

/-! ## Parsing -/

/-- `u16::from_be_bytes([body[i], body[i + 1]])` within the body. -/
def u16At (body : Bytes) (i : Nat) : UInt16 := u16FromBeBytes [body.getD i 0, body.getD (i + 1) 0]

/-- The four packets with the layout flags, topic id, message id, return code. -/
def parseAck (name : String) (make : UInt8 → UInt16 → UInt16 → UInt8 → SnPacket) (body : Bytes) :
    Except String SnPacket :=
  if body.length < 6 then .error (name ++ " body too short")
  else .ok (make (body.getD 0 0) (u16At body 1) (u16At body 3) (body.getD 5 0))

/-- The body of a packet by its type. -/
def parseSnBody (msgType : UInt8) (body : Bytes) : Except String SnPacket :=
  match msgType with
  | 0x04 =>
    if body.length < 4 then .error "connect body too short"
    else .ok (.connect (body.getD 0 0) (body.getD 1 0) (u16At body 2) (fromUtf8Lossy (body.drop 4)))
  | 0x05 => if body = [] then .error "connack body empty" else .ok (.connack (body.getD 0 0))
  | 0x0A =>
    if body.length < 5 then .error "register body too short"
    else .ok (.register (body.getD 0 0) (u16At body 1) (u16At body 3)
      (fromUtf8Lossy (body.drop 5)))
  | 0x0B => parseAck "regack" .regack body
  | 0x0C =>
    if body.length < 5 then .error "publish body too short"
    else .ok (.publish (body.getD 0 0) (u16At body 1) (u16At body 3) (body.drop 5))
  | 0x0D => parseAck "puback" .puback body
  | 0x11 =>
    if body.length < 3 then .error "subscribe body too short"
    else .ok (.subscribe (body.getD 0 0) (u16At body 1) (body.drop 3))
  | 0x12 => parseAck "suback" .suback body
  | 0x13 =>
    if body.length < 3 then .error "unsubscribe body too short"
    else .ok (.unsubscribe (body.getD 0 0) (u16At body 1) (body.drop 3))
  | 0x14 =>
    if body.length < 2 then .error "unsuback body too short" else .ok (.unsuback (u16At body 0))
  | 0x15 => .ok .pingreq
  | 0x16 => .ok .pingresp
  | 0x17 => .ok (.disconnect (if 2 ≤ body.length then some (u16At body 0) else none))
  | _ => .ok (.unknown msgType)

/-- What follows the length field, which is one byte or `0x01` and two bytes. -/
def snHeader (buf : Bytes) : Except String Bytes :=
  if buf.length < 2 then .error "packet too short"
  else if buf.getD 0 0 ≠ 0x01 then
    if buf.length < (buf.getD 0 0).toNat then .error "incomplete packet" else .ok (buf.drop 1)
  else if buf.length < 4 then .error "incomplete long packet"
  else if buf.length < (u16At buf 1).toNat then .error "incomplete long packet"
  else .ok (buf.drop 3)

/-- Parse a datagram. The declared length is compared with the datagram's and not used again. -/
def parsePacket (buf : Bytes) : Except String SnPacket := do
  match ← snHeader buf with
  | [] => .error "empty header"
  | msgType :: body => parseSnBody msgType body

end LumenMQ
