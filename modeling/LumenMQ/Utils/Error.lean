set_option autoImplicit false

/-! # Errors

The broker's error types, layered as in the source: protocol coding, authentication, and the
broker-wide `BrokerError` that wraps both. `Display` texts are not modelled; the texts an error
carries are. -/

namespace LumenMQ

/-- Protocol encoding and decoding errors. -/
inductive CodecError where
  | incomplete
  | invalidPacketType (v : UInt8)
  | invalidFlags (ptype flags : UInt8)
  | invalidProtocol (msg : String)
  | invalidRemainingLength (len : Nat)
  | malformedUtf8
  | malformedBody (msg : String)
  | unsupportedVersion (level : UInt8)
deriving DecidableEq, Repr

/-- Authentication errors. -/
inductive AuthError where
  | badCredentials
  | unauthorizedClientId
  | anonymousForbidden
  | tooManyConnections
deriving DecidableEq, Repr

/-- The broker's unified error type. An I/O error is kept as the text it prints. -/
inductive BrokerError where
  | codec (e : CodecError)
  | io (msg : String)
  | connectionClosed (msg : String)
  | connectionReset
  | heartbeatTimeout (client : String)
  | packetTooLarge (size limit : Nat)
  | session (msg : String)
  | subscription (msg : String)
  | invalidTopic (msg : String)
  | invalidClientId
  | invalidQos (v : UInt8)
  | auth (e : AuthError)
  | config (msg : String)
  | storage (msg : String)
  | rateLimited (msg : String)
  | other (msg : String)
deriving DecidableEq, Repr

/-- Results of broker operations. -/
abbrev BrokerResult (α : Type) := Except BrokerError α

end LumenMQ
