import LumenMQ.Broker.State

set_option autoImplicit false

/-! # The admin interface

The requests that change the broker's state. Queries, the dashboard and the token check in front of
them leave it as it is. -/

namespace LumenMQ

/-- What a request is answered with. -/
structure ActionResponse where
  status : Nat := 200
  ok : Bool := true
  message : String
  /-- The error whose text ends the message. -/
  cause : Option BrokerError := none
deriving DecidableEq, Repr

structure ManualPublishRequest where
  topic : String
  payload : String
  qos : UInt8 := 0
  retain : Bool := false
deriving DecidableEq, Repr

/-- The name manual publications go by. -/
def adminClient : String := "admin-api"

namespace BrokerState

/-- Remove an offline session with everything that belongs to it. -/
def deleteSession (b : BrokerState) (clientId : String) : ActionResponse × BrokerState :=
  if b.sessions.isOnline clientId then
    ({ status := 409, ok := false
       message := s!"session '{clientId}' is currently online; disconnect the client first" }, b)
  else
    let b := b.unsubscribeAll clientId
    let b := { b with sessions := (b.sessions.remove clientId).2 }
    ({ message := s!"session '{clientId}' cleaned up" }, b.deleteSessionSnapshot clientId)

def qosOfRequest : UInt8 → Option QoS
  | 0 => some .atMostOnce
  | 1 => some .atLeastOnce
  | 2 => some .exactlyOnce
  | _ => none

/-- A manual publication, as it is routed. -/
def manualRouted (b : BrokerState) (req : ManualPublishRequest) (qos : QoS) : Routed :=
  { ingress := .admin, publisher := adminClient, topic := req.topic
    payload := stringBytes req.payload, qos, retain := req.retain
    security := b.security, plugin := b.plugin
    maxPacketSize := b.config.broker.maxPacketSize, time := b.now }

/-- Publish a message by hand; it goes through the same guards as a PUBLISH. -/
def manualPublish (b : BrokerState) (req : ManualPublishRequest) :
    Option (ActionResponse × BrokerState) :=
  match qosOfRequest req.qos with
  | none => some ({ status := 400, ok := false, message := "qos must be 0, 1, or 2" }, b)
  | some qos =>
    let r := b.manualRouted req qos
    let (checked, security) := b.security.checkPublish b.now adminClient r.payload.length
      b.config.broker.maxPacketSize
    let b := { b with security }
    match checked, b.plugin.checkPublish req.topic r.payload with
    | .error e, _ =>
      some ({ status := 403, ok := false, message := "rejected by security guard: "
              cause := some e }, b)
    | .ok (), .error e =>
      some ({ status := 403, ok := false, message := "rejected by plugin guard: "
              cause := some e }, b)
    | .ok (), .ok () =>
      (b.route r).map (fun b => ({ message := s!"published to '{req.topic}'" }, b))

end BrokerState

end LumenMQ
