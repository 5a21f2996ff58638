import Mathlib.Order.Basic
import Mathlib.Order.Lattice
import Mathlib.Order.Defs.LinearOrder
import LumenMQ.Utils.Error

set_option autoImplicit false

/-! # MQTT packets

The packet enumeration shared by the encoder and the decoder: packet types, QoS levels, the CONNECT
flag bits, and one constructor of `Packet` for each of the fourteen control packets. Byte strings
(`Bytes`, `Vec<u8>`) are lists of `UInt8`. A Rust `String` is a Lean `String`: both are byte
sequences known to be valid UTF-8. -/

namespace LumenMQ

/-- Byte strings. -/
abbrev Bytes := List UInt8

/-! ## Packet types -/

/-- The packet type in the high four bits of the fixed header. -/
inductive PacketType where
  | connect
  | connack
  | publish
  | puback
  | pubrec
  | pubrel
  | pubcomp
  | subscribe
  | suback
  | unsubscribe
  | unsuback
  | pingreq
  | pingresp
  | disconnect
deriving DecidableEq, Repr

/-- The discriminant of a packet type (`ptype as u8`). -/
def PacketType.asU8 : PacketType → UInt8
  | .connect => 1
  | .connack => 2
  | .publish => 3
  | .puback => 4
  | .pubrec => 5
  | .pubrel => 6
  | .pubcomp => 7
  | .subscribe => 8
  | .suback => 9
  | .unsubscribe => 10
  | .unsuback => 11
  | .pingreq => 12
  | .pingresp => 13
  | .disconnect => 14

def PacketType.fromU8 (v : UInt8) : Except CodecError PacketType :=
  match v with
  | 1 => .ok .connect
  | 2 => .ok .connack
  | 3 => .ok .publish
  | 4 => .ok .puback
  | 5 => .ok .pubrec
  | 6 => .ok .pubrel
  | 7 => .ok .pubcomp
  | 8 => .ok .subscribe
  | 9 => .ok .suback
  | 10 => .ok .unsubscribe
  | 11 => .ok .unsuback
  | 12 => .ok .pingreq
  | 13 => .ok .pingresp
  | 14 => .ok .disconnect
  | other => .error (.invalidPacketType other)

theorem PacketType.fromU8_asU8 (t : PacketType) : PacketType.fromU8 t.asU8 = .ok t := by
  cases t <;> rfl

/-! ## QoS -/

/-- Quality of service levels, ordered by strength. -/
inductive QoS where
  | atMostOnce
  | atLeastOnce
  | exactlyOnce
deriving DecidableEq, Repr

namespace QoS

def asU8 : QoS → UInt8
  | .atMostOnce => 0
  | .atLeastOnce => 1
  | .exactlyOnce => 2

def fromU8 (v : UInt8) : Except CodecError QoS :=
  match v with
  | 0 => .ok .atMostOnce
  | 1 => .ok .atLeastOnce
  | 2 => .ok .exactlyOnce
  | other => .error (.malformedBody s!"invalid qos {other}")

theorem fromU8_asU8 (q : QoS) : fromU8 q.asU8 = .ok q := by
  cases q <;> rfl

theorem toNat_asU8_injective : Function.Injective (fun q : QoS => q.asU8.toNat) := by
  intro a b h
  cases a <;> cases b <;> first | rfl | exact absurd h (by decide)

/-- The derived order of the source: by discriminant. -/
instance : LinearOrder QoS := LinearOrder.lift' (fun q => q.asU8.toNat) toNat_asU8_injective

end QoS

/-! ## CONNECT flags -/

/-- The CONNECT flag byte, restricted to the bits the protocol names. -/
structure ConnectFlags where
  bits : UInt8
deriving DecidableEq, Repr

namespace ConnectFlags

def cleanSession : ConnectFlags := ⟨0b00000010⟩
def willFlag : ConnectFlags := ⟨0b00000100⟩
def willQos0 : ConnectFlags := ⟨0b00000000⟩
def willQos1 : ConnectFlags := ⟨0b00001000⟩
def willQos2 : ConnectFlags := ⟨0b00010000⟩
def willQosMask : ConnectFlags := ⟨0b00011000⟩
def willRetain : ConnectFlags := ⟨0b00100000⟩
def password : ConnectFlags := ⟨0b01000000⟩
def username : ConnectFlags := ⟨0b10000000⟩

def empty : ConnectFlags := ⟨0⟩

/-- Every named bit: all but the reserved lowest one. -/
def all : ConnectFlags := ⟨0b11111110⟩

def fromBitsTruncate (b : UInt8) : ConnectFlags := ⟨b &&& all.bits⟩

def contains (self other : ConnectFlags) : Bool := self.bits &&& other.bits == other.bits

def union (self other : ConnectFlags) : ConnectFlags := ⟨self.bits ||| other.bits⟩

end ConnectFlags

/-! ## Packets -/

def mqtt311Level : UInt8 := 4
def mqtt31Level : UInt8 := 3
def mqtt5Level : UInt8 := 5

/-- The MQTT 5.0 CONNECT properties the broker keeps. -/
structure ConnectProperties where
  /-- Session expiry in seconds; 0 expires at once. -/
  sessionExpiryInterval : Option UInt32 := none
deriving DecidableEq, Repr

/-- A will as it stands in a CONNECT packet. -/
structure LastWill where
  topic : String
  message : Bytes
  qos : QoS
  retain : Bool
deriving DecidableEq, Repr

structure Connect where
  protocolLevel : UInt8
  keepAlive : UInt16
  clientId : String
  cleanSession : Bool
  will : Option LastWill
  username : Option String
  password : Option Bytes
  /-- Present exactly at protocol level 5. -/
  properties : Option ConnectProperties
deriving DecidableEq, Repr

structure Connack where
  sessionPresent : Bool
  returnCode : UInt8
  /-- The client's level, which decides whether a property segment is written. -/
  protocolLevel : UInt8
deriving DecidableEq, Repr

structure Publish where
  dup : Bool
  qos : QoS
  retain : Bool
  topic : String
  packetId : Option UInt16
  payload : Bytes
deriving DecidableEq, Repr

structure SubscribeTopic where
  topicFilter : String
  qos : QoS
deriving DecidableEq, Repr

structure Subscribe where
  packetId : UInt16
  topics : List SubscribeTopic
deriving DecidableEq, Repr

structure Suback where
  packetId : UInt16
  /-- 0, 1 and 2 grant that QoS; 0x80 is a failure. -/
  returnCodes : Bytes
deriving DecidableEq, Repr

structure Unsubscribe where
  packetId : UInt16
  topicFilters : List String
deriving DecidableEq, Repr

/-- The fourteen control packets. -/
inductive Packet where
  | connect (c : Connect)
  | connack (c : Connack)
  | publish (p : Publish)
  | puback (id : UInt16)
  | pubrec (id : UInt16)
  | pubrel (id : UInt16)
  | pubcomp (id : UInt16)
  | subscribe (s : Subscribe)
  | suback (s : Suback)
  | unsubscribe (u : Unsubscribe)
  | unsuback (id : UInt16)
  | pingreq
  | pingresp
  | disconnect
deriving DecidableEq, Repr

end LumenMQ
