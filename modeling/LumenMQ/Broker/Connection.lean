import Mathlib.Data.Finset.Card
import LumenMQ.Lib.Process
import LumenMQ.Codec.V3
import LumenMQ.Broker.State

set_option autoImplicit false

/-! # A connection

The task that serves one MQTT connection over TCP, TLS or WebSocket. It works on the shared state
and on its own: the handshakes in flight, the filters it has subscribed to, the bytes it has
received. The main loop waits for several things at once; each of them is one arm below. An arm that
ends the loop says how, and what is then done about the session is a step of its own.

A handler runs to its end with no other task in between, and `send` is atomic: the transport takes
the whole packet or fails. The program's send may be cancelled by the `select!` around it when the
packet is in the write buffer already; this is not modelled. -/

namespace LumenMQ

open Process

/-! ## State -/

/-- How the main loop ends. -/
inductive Exit where
  /-- The channel is closed: nothing is cleaned up. -/
  | closed
  /-- On the broker's own account. -/
  | shutdown
  /-- The client has sent DISCONNECT. -/
  | disconnect
  | abnormal
deriving DecidableEq, Repr

structure Conn where
  clientId : String
  clean : Bool
  peer : SocketAddr
  keepAlive : UInt16
  lastActivity : Instant
  /-- Bytes received and not decoded yet. -/
  buffer : Bytes := []
  /-- How many more packets the transport takes before it breaks; `none` if it does not. -/
  credit : Option Nat := none
  /-- The messages of the session before that are still to be sent. -/
  replay : List OutboundPublish := []
  myFilters : Finset String := ∅
  nextPid : UInt16 := 1
  inflight : OutboundInflightTable := ∅
  inboundQos2 : InboundQos2Tracker := ∅
  exit : Option Exit := none

/-- Whether nothing was received for one and a half times the keep-alive interval. -/
def Conn.isKeepAliveExpired (c : Conn) (now : Instant) : Bool :=
  if c.keepAlive = 0 then false
  else Duration.fromSecs (c.keepAlive.toNat * 3 / 2 + 1) < now - c.lastActivity

structure Task where
  broker : BrokerState
  epoch : Nat
  conn : Conn

abbrev Handler := Process Task BrokerError

inductive Control where
  | continue
  | disconnect
deriving DecidableEq, Repr

namespace Task

def onBroker (t : Task) (f : BrokerState → BrokerState) : Task := { t with broker := f t.broker }

def onConn (t : Task) (f : Conn → Conn) : Task := { t with conn := f t.conn }

def note (t : Task) (e : Effect) : Task := t.onBroker (fun b => b.note e)

def codec (t : Task) : MqttCodec := { maxPacketSize := t.broker.config.broker.maxPacketSize }

end Task

/-- Leave the main loop. -/
def leave (x : Exit) :
    Handler Unit := update (fun t => t.onConn (fun c => { c with exit := some x }))

/-! ## Sending -/

/-- What keeps a packet from being written: it cannot be encoded, or the transport is broken. -/
def Task.sendError (t : Task) (packet : Packet) : Option BrokerError :=
  match (t.codec.encode packet []).1, t.conn.credit with
  | .error e, _ => some (.codec e)
  | .ok (), some 0 => some (.io "broken pipe")
  | .ok (), _ => none

/-- The packet is on its way. -/
def Task.write (t : Task) (packet : Packet) : Task :=
  (t.note (.wrote t.epoch packet)).onConn (fun c => { c with credit := c.credit.map (· - 1) })

/-- `sink.send`: encode the packet and write it. -/
def send (packet : Packet) : Handler Unit := do
  let t ← read
  match t.sendError packet with
  | some e => do
    update (fun t => t.note (.sendFailed t.epoch packet e))
    fail e
  | none => update (fun t => t.write packet)

/-- Send a packet; if that fails the connection ends. -/
def sendOrLeave (packet : Packet) : Handler Unit := do
  match ← attempt (send packet) with
  | .ok () => pure ()
  | .error _ => leave .abnormal

/-- The PUBLISH packet of a message. -/
def buildPublish (req : OutboundPublish) (packetId : Option UInt16) : Packet :=
  .publish { dup := false, qos := req.qos, retain := req.retain, topic := req.topic, packetId
             payload := req.payload }

namespace Task

/-- There is no room for the message among those in flight. -/
def refuse (t : Task) (req : OutboundPublish) : Task :=
  t.note (.discarded t.conn.clientId req .inflightFull)

/-- Keep the message until it is acknowledged. -/
def store (t : Task) (packetId : UInt16) (req : OutboundPublish) : Task :=
  let entry := OutboundInflight.new req.topic req.payload req.qos req.retain t.broker.now
  t.onConn (fun c => { c with inflight := c.inflight.insert packetId entry })

/-- The PUBLISH packet of a message. Above QoS 0 it gets an identifier and is kept until it is
    acknowledged; `none` if there is no room for that. -/
def buildOutboundPacket (t : Task) (req : OutboundPublish) : Option Packet × Task :=
  if req.qos = .atMostOnce then (some (buildPublish req none), t)
  else if t.broker.config.broker.maxInflight ≤ t.conn.inflight.entries.length then
    (none, t.refuse req)
  else
    let (pid, next) := allocatePid t.conn.nextPid t.conn.inflight
    let t := t.onConn (fun c => { c with nextPid := next })
    if pid = 0 then (none, t.refuse req)
    else (some (buildPublish req (some pid)), t.store pid req)

end Task

/-! ## Inbound publications -/

/-- Ask the security guard; whether it rejects the message. -/
def securityRejects (p : Publish) : Handler Bool :=
  act (fun t =>
    let (result, security) := t.broker.security.checkPublish t.broker.now t.conn.clientId
      p.payload.length t.broker.config.broker.maxPacketSize
    (!result.isOk, t.onBroker (fun b => { b with security })))

/-- Ask the plugin guard, unless the message is rejected already. -/
def pluginRejects (securityRejected : Bool) (p : Publish) : Handler Bool := do
  let t ← read
  pure (!securityRejected && !(t.broker.plugin.checkPublish p.topic p.payload).isOk)

/-- Whether a QoS 2 message is not a repetition; its identifier is entered either way. -/
def firstReceipt (p : Publish) : Handler Bool :=
  match p.qos, p.packetId with
  | .exactlyOnce, some id =>
    act (fun t =>
      let (seen, inboundQos2) := t.conn.inboundQos2.onPublish id
      (!seen, t.onConn (fun c => { c with inboundQos2 })))
  | .exactlyOnce, none => fail (.codec (.malformedBody "QoS2 PUBLISH missing packet_id"))
  | _, _ => pure true

/-- A PUBLISH of a client, as it is routed. -/
def Task.inboundPublish (t : Task) (p : Publish) : Routed :=
  { ingress := .mqtt, publisher := t.conn.clientId, topic := p.topic, payload := p.payload
    qos := p.qos, retain := p.retain
    security := t.broker.security, plugin := t.broker.plugin
    maxPacketSize := t.broker.config.broker.maxPacketSize, time := t.broker.now }

def routeInboundPublish (r : Routed) : Handler Unit :=
  tryUpdate (fun t => (t.broker.route r).map (fun broker => { t with broker }))

/-- The answer a PUBLISH asks for by its QoS. -/
def answerPublish (p : Publish) : Handler Unit :=
  match p.qos, p.packetId with
  | .atLeastOnce, some id => send (.puback id)
  | .exactlyOnce, some id => send (.pubrec id)
  | _, _ => pure ()

/-- Route what has come in; the answer follows even if a guard has rejected it. -/
def handlePublish (p : Publish) : Handler Unit := do
  let arrival ← read
  let securityRejected ← securityRejects p
  let pluginRejected ← pluginRejects securityRejected p
  let fresh ← firstReceipt p
  when (fresh && !securityRejected && !pluginRejected)
    (routeInboundPublish (arrival.inboundPublish p))
  answerPublish p

/-! ## Subscribing -/

def subackFailure : UInt8 := 0x80

/-- One entry of a SUBSCRIBE: its return code, and the filter if it was accepted. -/
def subscribeTopic (s : SubscribeTopic) : Handler (UInt8 × Option (String × QoS)) := do
  let t ← read
  if s.topicFilter ∉ t.conn.myFilters ∧
      t.broker.config.broker.maxSubscriptionsPerClient ≤ t.conn.myFilters.card then
    pure (subackFailure, none)
  else if !(t.broker.plugin.checkSubscribe s.topicFilter).isOk then
    pure (subackFailure, none)
  else match t.broker.subscriptions.subscribe t.conn.clientId s.topicFilter s.qos with
    | (.error _, _) => pure (subackFailure, none)
    | (.ok (), subscriptions) => do
      update (fun t => (t.onBroker (fun b => { b with subscriptions })).onConn
        (fun c => { c with myFilters := insert s.topicFilter c.myFilters }))
      pure (s.qos.asU8, some (s.topicFilter, s.qos))

/-- Take up a retained message for a new subscription. -/
def Task.takeRetained (t : Task) (req : OutboundPublish) : Task :=
  t.note (.taken t.epoch .retained req)

/-- Send a retained message to a new subscriber; one for which there is no room is skipped. -/
def deliverRetained (subQos : QoS) (msg : RetainedMessage) : Handler Unit := do
  let out := RetainStore.buildOutbound msg subQos
  match ← act (fun t => (t.takeRetained out).buildOutboundPacket out) with
  | none => pure ()
  | some packet =>
    match ← attempt (send packet) with
    | .ok () => pure ()
    | .error _ => fail (.connectionClosed "sink closed during retained delivery")

def deliverAllRetained (accepted : String × QoS) : Handler Unit := do
  let t ← read
  forEach (deliverRetained accepted.2) (t.broker.retain.matchesFilter accepted.1)

def persistSnapshot : Handler Unit :=
  update (fun t => t.onBroker (fun b => b.persistSessionSnapshot t.conn.clientId))

def handleSubscribe (s : Subscribe) : Handler Unit := do
  let results ← collect subscribeTopic s.topics
  send (.suback { packetId := s.packetId, returnCodes := results.map Prod.fst })
  forEach deliverAllRetained (results.filterMap Prod.snd)
  persistSnapshot

def unsubscribeFilter (filter : String) : Handler Unit :=
  update (fun t => (t.onBroker (fun b =>
      { b with subscriptions := (b.subscriptions.unsubscribe t.conn.clientId filter).2 })).onConn
    (fun c => { c with myFilters := c.myFilters.erase filter }))

def handleUnsubscribe (u : Unsubscribe) : Handler Unit := do
  forEach unsubscribeFilter u.topicFilters
  send (.unsuback u.packetId)
  persistSnapshot

/-! ## Acknowledgements -/

namespace Task

/-- Note the first answer of the client to a message. -/
def noteAck (t : Task) (e : OutboundInflight) : Task :=
  match e.stage with
  | .waitFirstAck => t.note (.acknowledged t.conn.clientId e.message)
  | .waitPubcomp => t

def removeInflight (t : Task) (id : UInt16) : Task :=
  t.onConn (fun c => { c with inflight := c.inflight.erase id })

/-- The message is released: from now on PUBREL is what would be sent again. -/
def awaitPubcomp (t : Task) (id : UInt16) (e : OutboundInflight) : Task :=
  t.onConn (fun c => { c with
    inflight := c.inflight.insert id { e with stage := .waitPubcomp, lastSentAt := t.broker.now } })

def puback (t : Task) (id : UInt16) : Task :=
  match t.conn.inflight.get id with
  | some e => (t.noteAck e).removeInflight id
  | none => t

def pubrec (t : Task) (id : UInt16) : Task :=
  match t.conn.inflight.get id with
  | some e => (t.noteAck e).awaitPubcomp id e
  | none => t

end Task

def handlePubrec (id : UInt16) : Handler Unit := do
  update (fun t => t.pubrec id)
  send (.pubrel id)

def handlePubrel (id : UInt16) : Handler Unit := do
  update (fun t => t.onConn (fun c => { c with inboundQos2 := (c.inboundQos2.onPubrel id).2 }))
  send (.pubcomp id)

/-! ## Packets -/

def handlePacket (packet : Packet) : Handler Control :=
  match packet with
  | .publish p => do handlePublish p; pure .continue
  | .subscribe s => do handleSubscribe s; pure .continue
  | .unsubscribe u => do handleUnsubscribe u; pure .continue
  | .pingreq => do send .pingresp; pure .continue
  | .disconnect => pure .disconnect
  | .puback id => do update (fun t => t.puback id); pure .continue
  | .pubrec id => do handlePubrec id; pure .continue
  | .pubrel id => do handlePubrel id; pure .continue
  | .pubcomp id => do update (fun t => t.removeInflight id); pure .continue
  | .connect _ | .connack _ | .suback _ | .unsuback _ | .pingresp =>
    fail (.codec (.malformedBody "unexpected packet from client"))

/-! ## The arms of the main loop -/

/-- The shutdown signal. -/
def shutdownArm : Handler Unit := do
  let _ ← attempt (send .disconnect)
  leave .shutdown

def heartbeatArm : Handler Unit := do
  let t ← read
  when (t.conn.isKeepAliveExpired t.broker.now) (leave .abnormal)

namespace Task

/-- The messages of these identifiers that were never acknowledged. -/
def unacknowledged (t : Task) (ids : List UInt16) : List OutboundPublish :=
  ids.filterMap (fun id => match t.conn.inflight.get id with
    | some e => if e.stage = .waitFirstAck then some e.message else none
    | none => none)

/-- `retry_expired` with the configured limits. -/
def retryExpired (t : Task) : OutboundInflightTable.Retry :=
  let config := t.broker.config.broker
  t.conn.inflight.retryExpired t.broker.now (Duration.fromSecs (config.retryIntervalSecs.getD 10))
    (config.maxRetries.getD 3)

/-- What is overdue is sent again or, after too many attempts, dropped. -/
def retry (t : Task) : Task :=
  (t.onBroker (fun b => b.noteDiscarded t.conn.clientId .maxRetries
    (t.unacknowledged t.retryExpired.failed))).onConn
    (fun c => { c with inflight := t.retryExpired.table })

end Task

/-- Retransmission of what is overdue. -/
def retryArm : Handler Unit := do
  let packets ← act (fun t => (t.retryExpired.toResend.map Prod.snd, t.retry))
  match ← attempt (forEach send packets) with
  | .ok () => pure ()
  | .error _ => leave .abnormal

/-- A packet is handled, and the loop goes on or ends as it says. -/
def serve (packet : Packet) : Handler Unit := do
  update (fun t => t.onConn (fun c => { c with lastActivity := t.broker.now }))
  match ← attempt (handlePacket packet) with
  | .ok .continue => pure ()
  | .ok .disconnect => leave .disconnect
  | .error _ => leave .abnormal

/-- What `stream.next()` finds in the bytes received. -/
def nextPacket : Handler (Except CodecError (Option Packet)) :=
  act (fun t =>
    let (result, buffer) := t.codec.decode t.conn.buffer
    (result, t.onConn (fun c => { c with buffer })))

/-- The next packet of the client. Without a complete one there is none as long as the stream is
    open; the end of the stream ends the connection. -/
def inboundArm (streamEnded : Bool) : Handler Unit := do
  match ← nextPacket with
  | .ok (some packet) => serve packet
  | .ok none => when streamEnded (leave .abnormal)
  | .error _ => leave .abnormal

/-- Take the next message out of the connection's channel. -/
def Task.takeChannel (t : Task) (ch : Channel) (req : OutboundPublish)
    (rest : List OutboundPublish) : Task :=
  (t.note (.taken t.epoch .live req)).onBroker (fun b => { b with sessions := { b.sessions with
    channels := b.sessions.channels.insert t.epoch { ch with buffer := rest } } })

/-- Whether the session still holds the sending half of the connection's channel. -/
def Task.senderAlive (t : Task) : Bool :=
  match t.broker.sessions.get t.conn.clientId with
  | some e => e.tx = t.epoch
  | none => false

/-- Send a message that was built, if there was room for it. -/
def sendBuilt : Option Packet → Handler Unit
  | some packet => sendOrLeave packet
  | none => pure ()

/-- The next message from the router. The loop ends when the sender is gone and the channel
    empty. -/
def outboundArm : Handler Unit := do
  let t ← read
  match t.broker.sessions.channels.get t.epoch with
  | none => pure ()
  | some ch =>
    match ch.buffer with
    | [] => when (!t.senderAlive) (leave .closed)
    | req :: rest => do
      let built ← act (fun t => (t.takeChannel ch req rest).buildOutboundPacket req)
      sendBuilt built

inductive Arm where
  | shutdown
  | heartbeat
  | retry
  | inbound
  | streamEnd
  | outbound
deriving DecidableEq, Repr

def Arm.run : Arm → Handler Unit
  | .shutdown => shutdownArm
  | .heartbeat => heartbeatArm
  | .retry => retryArm
  | .inbound => inboundArm false
  | .streamEnd => inboundArm true
  | .outbound => outboundArm

/-! ## The end of a connection -/

/-- What is done about the session once the loop has ended. -/
def BrokerState.afterExit (b : BrokerState) (clientId : String) (epoch : Nat) (clean : Bool) :
    Exit → Option BrokerState
  | .closed => some b
  | .shutdown => some (b.cleanup clientId epoch clean)
  | .disconnect =>
    some ({ b with sessions := b.sessions.clearWill clientId epoch }.cleanup clientId epoch clean)
  | .abnormal => b.onAbnormalDisconnect clientId epoch clean

/-- The task is gone, and with it the receiving half of its channel. -/
def BrokerState.dropConnection (b : BrokerState) (epoch : Nat) (c : Conn) : BrokerState :=
  { b with
    sessions := b.sessions.closeChannel epoch
    security := b.security.onDisconnect c.peer (some c.clientId)
    connectionsCurrent := b.connectionsCurrent - 1 }

/-! ## The start of a connection -/

/-- The return code for a failed authentication. -/
def authCode : AuthError → UInt8
  | .badCredentials => 4
  | .unauthorizedClientId => 2
  | .anonymousForbidden => 5
  | .tooManyConnections => 3

/-- A client without an identifier gets one, unless it wants its session kept. -/
def assignClientId (connect : Connect) (uuid : String) : Except UInt8 Connect :=
  if connect.clientId = "" then
    if connect.cleanSession then .ok { connect with clientId := "auto-" ++ uuid } else .error 2
  else .ok connect

/-- The checks on a CONNECT; the error is the return code of the CONNACK that refuses it. -/
def admitConnect (config : Settings) (connect : Connect) (uuid : String) :
    Except UInt8 Connect := do
  if connect.protocolLevel ≠ mqtt311Level ∧ connect.protocolLevel ≠ mqtt5Level then .error 1
  let connect ← assignClientId connect uuid
  match config.auth.authenticate connect.clientId connect.username connect.password with
  | .ok _ => .ok connect
  | .error e => .error (authCode e)

/-- The messages that a session has kept too long, when it is taken over. -/
def SessionManager.expiredOf (sm : SessionManager) (now : Instant) (clientId : String) :
    List OutboundPublish :=
  match (sm.get clientId).bind SessionEntry.offlineQueue with
  | some q => (q.expired now).map OfflineMessage.payload
  | none => []

/-- Register the session of an accepted CONNECT: whether the CONNACK announces a session that was
    there before, and the new task. -/
def BrokerState.openSession (b : BrokerState) (connect : Connect) (peer : SocketAddr)
    (buffer : Bytes) (credit : Option Nat) : Bool × Task :=
  let clientId := connect.clientId
  let clean := connect.cleanSession
  let r := b.sessions.register b.now clientId clean (b.sessions.epochCounter + 1)
    (connect.will.map WillMessage.ofLastWill) connect.protocolLevel peer
    (connect.properties.bind ConnectProperties.sessionExpiryInterval)
  let capacity := max b.config.broker.maxInflight 16
  (r.sessionPresent && !clean,
    { broker := { b.noteDiscarded clientId .offline (b.sessions.expiredOf b.now clientId) with
        sessions := r.sessions.openChannel r.epoch capacity
        connectionsCurrent := b.connectionsCurrent + 1 }
      epoch := r.epoch
      conn := { clientId, clean, peer, keepAlive := connect.keepAlive, lastActivity := b.now
                buffer, credit, replay := r.drained } })

/-- What happens first while a message is replayed. -/
inductive ReplayArm where
  | send
  /-- The shutdown signal is given. -/
  | shutdown
  /-- The shutdown channel wakes up without a signal. -/
  | wake
  | heartbeat
deriving DecidableEq, Repr

/-- Take up the next message of the session before. -/
def Task.takeReplay (t : Task) (msg : OutboundPublish) (rest : List OutboundPublish) : Task :=
  (t.note (.taken t.epoch .replay msg)).onConn (fun c => { c with replay := rest })

/-- One message of the replay. It is not sent, and stays in flight, when another arm comes first. -/
def replayOne (packet : Packet) : ReplayArm → Handler Unit
  | .send => sendOrLeave packet
  | .shutdown => shutdownArm
  | .wake => pure ()
  | .heartbeat => heartbeatArm

/-- Go on unless the connection has been left. -/
def unlessLeft (x : Handler Unit) : Handler Unit := do
  let t ← read
  when t.conn.exit.isNone x

/-- The offline replay. -/
def replayLoop : List OutboundPublish → List ReplayArm → Handler Unit
  | [], _ => pure ()
  | msg :: rest, arms => do
    match ← act (fun t => (t.takeReplay msg rest).buildOutboundPacket msg) with
    | none => replayLoop rest arms
    | some packet => do
      replayOne packet (arms.headD .send)
      unlessLeft (replayLoop rest arms.tail)

/-- From CONNACK to the main loop. -/
def welcome (connack : Connack) (arms : List ReplayArm) : Handler Unit := do
  match ← attempt (send (.connack connack)) with
  | .error _ => leave .shutdown
  | .ok () => do
    let t ← read
    replayLoop t.conn.replay arms
    unlessLeft (update (fun t => t.onBroker (fun b => b.clearDiskOffline t.conn.clientId)))

end LumenMQ
