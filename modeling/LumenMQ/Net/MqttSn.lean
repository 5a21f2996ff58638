import LumenMQ.Broker.State

set_option autoImplicit false

/-! # The MQTT-SN gateway

Sensor devices reach the broker by datagrams. The gateway keeps one record for each address and
shares the sessions, the subscriptions and the router with the other listeners. What is routed to a
device goes through its session's channel to a forwarder, a task of its own for each CONNECT. -/

namespace LumenMQ

/-! ## Devices -/

structure SnClient where
  clientId : String
  epoch : Nat
  clean : Bool
  keepAliveSecs : UInt16
  lastSeen : Instant
  peer : SocketAddr
  topicToId : FinMap String UInt16 := ∅
  idToTopic : FinMap UInt16 String := ∅
  nextMsgId : UInt16 := 1
  nextTopicId : UInt16 := topicIdMin
  sleeping : Bool := false
  sleepUntil : Option Instant := none

namespace SnClient

def touch (c : SnClient) (now : Instant) : SnClient := { c with lastSeen := now }

/-- The loop of `assignTopicId`: the first identifier that is free. -/
def assignTopicIdLoop (topic : String) : Nat → SnClient → UInt16 × SnClient
  | 0, c => (topicIdMin, c)
  | n + 1, c =>
    let v := c.nextTopicId
    let next := if topicIdMax ≤ c.nextTopicId then topicIdMin else c.nextTopicId + 1
    let c := { c with nextTopicId := next }
    if v = 0 ∨ (c.idToTopic.get v).isSome then assignTopicIdLoop topic n c
    else (v, { c with
      topicToId := c.topicToId.insert topic v
      idToTopic := c.idToTopic.insert v topic })

/-- The identifier of a topic, a new one if it has none yet. -/
def assignTopicId (c : SnClient) (topic : String) : UInt16 × SnClient :=
  match c.topicToId.get topic with
  | some id => (id, c)
  | none => assignTopicIdLoop topic 0xFFFF c

def topicNameOf (c : SnClient) (topicId : UInt16) : Option String := c.idToTopic.get topicId

/-- A message identifier, which is never 0. -/
def allocateMsgId (c : SnClient) : UInt16 × SnClient :=
  (c.nextMsgId, { c with nextMsgId := if c.nextMsgId + 1 = 0 then 1 else c.nextMsgId + 1 })

/-- Forget a topic and its identifier. -/
def dropTopic (c : SnClient) (topic : String) : SnClient :=
  match c.topicToId.get topic with
  | some id => { c with topicToId := c.topicToId.erase topic, idToTopic := c.idToTopic.erase id }
  | none => c

/-- Whether a device has slept or been silent for too long. -/
def isExpired (c : SnClient) (now : Instant) : Bool :=
  if c.sleeping then
    match c.sleepUntil with
    | some until_ => until_ ≤ now
    | none => false
  else if c.keepAliveSecs = 0 then false
  else Duration.fromSecs ((max c.keepAliveSecs.toNat 1 * 3 + 1) / 2) < now - c.lastSeen

end SnClient

/-- The task that passes on what is routed to a device, by the epoch of its session. -/
structure Forwarder where
  peer : SocketAddr
  clientId : String

structure Gateway where
  broker : BrokerState
  clients : FinMap SocketAddr SnClient := ∅
  forwarders : FinMap Nat Forwarder := ∅

namespace Gateway

def onBroker (g : Gateway) (f : BrokerState → BrokerState) : Gateway :=
  { g with broker := f g.broker }

def putClient (g : Gateway) (peer : SocketAddr) (c : SnClient) : Gateway :=
  { g with clients := g.clients.insert peer c }

/-- Send a packet to an address; whether it arrives is not known. -/
def send (g : Gateway) (peer : SocketAddr) (packet : SnPacket) : Gateway :=
  g.onBroker (fun b => b.note (.wroteSn peer packet))

/-- Note that a device has been heard of. -/
def touch (g : Gateway) (peer : SocketAddr) : Gateway :=
  match g.clients.get peer with
  | some c => g.putClient peer (c.touch g.broker.now)
  | none => g

/-! ## Sessions -/

/-- The end of a device's session. The subscriptions of a clean session go with it; the record on
    disk is left alone. -/
def cleanupSession (b : BrokerState) (clientId : String) (epoch : Nat) (clean : Bool) :
    BrokerState :=
  if !b.sessions.owns clientId epoch then b
  else
    let b := if clean then
        let b := b.unsubscribeAll clientId
        { b with sessions := (b.sessions.remove clientId).2 }
      else { b with sessions := b.sessions.markOffline b.now clientId epoch }
    { b with connectionsCurrent := b.connectionsCurrent - 1 }

/-- The return code a CONNECT is refused with, if any. -/
def refusal (g : Gateway) (protocolId : UInt8) (clientId : String) : Option UInt8 :=
  if protocolId ≠ protocolIdMqttsn then some rcNotSupported
  else if !g.broker.config.auth.allowAnonymous then some rcNotSupported
  else if clientId = "" then some rcRejected
  -- the cast to `usize` makes a negative count a huge one
  else if g.broker.connectionsCurrent < 0 ∨
      (g.broker.config.broker.maxConnections : Int) ≤ g.broker.connectionsCurrent then
    some rcCongestion
  else none

/-- Register the session of a device. The messages taken out of the queue of the session before are
    dropped. -/
def register (b : BrokerState) (peer : SocketAddr) (clientId : String) (clean : Bool) :
    Nat × BrokerState :=
  let r := b.sessions.register b.now clientId clean (b.sessions.epochCounter + 1) none mqtt311Level
    peer none
  (r.epoch, { b with
    sessions := r.sessions.openChannel r.epoch (max b.config.broker.maxInflight 16)
    connectionsCurrent := b.connectionsCurrent + 1 })

/-- The session, the record and the forwarder of a device that connects. -/
def registerClient (g : Gateway) (peer : SocketAddr) (clientId : String) (clean : Bool)
    (keepAliveSecs : UInt16) : Gateway :=
  let (epoch, broker) := register g.broker peer clientId clean
  let client : SnClient := { clientId, epoch, clean, keepAliveSecs, lastSeen := broker.now, peer }
  { g with
    broker
    clients := g.clients.insert peer client
    forwarders := g.forwarders.insert epoch { peer, clientId } }

def handleConnect (g : Gateway) (peer : SocketAddr) (flags protocolId : UInt8) (duration : UInt16)
    (clientId : String) : Gateway :=
  match g.refusal protocolId clientId with
  | some code => g.send peer (.connack code)
  | none =>
    let clean : Bool := flags &&& flagClean ≠ 0
    let keepAliveSecs := if duration = 0 then 60 else duration
    (g.registerClient peer clientId clean keepAliveSecs).send peer (.connack rcAccepted)

/-- DISCONNECT with a duration: the device sleeps, its session is offline. -/
def sleep (g : Gateway) (peer : SocketAddr) (duration : UInt16) : Gateway :=
  match g.clients.get peer with
  | none => g
  | some c =>
    let now := g.broker.now
    let g := g.onBroker (fun b => { b with
      sessions := if b.sessions.owns c.clientId c.epoch then
          b.sessions.markOffline now c.clientId c.epoch
        else b.sessions
      connectionsCurrent := b.connectionsCurrent - 1 })
    g.putClient peer { c with
      sleeping := true, sleepUntil := some (now + Duration.fromSecs duration.toNat) }

/-- Forget a device and clean up its session. -/
def dropClient (g : Gateway) (peer : SocketAddr) : Gateway :=
  match g.clients.get peer with
  | none => g
  | some c =>
    { g with
      clients := g.clients.erase peer
      broker := cleanupSession g.broker c.clientId c.epoch c.clean }

/-- One tick of the task that looks for silent devices. -/
def sweep (g : Gateway) : Gateway :=
  ((g.clients.toPairs.filter (fun e => e.2.isExpired g.broker.now)).map Prod.fst).foldl
    (fun g peer => g.dropClient peer) g

/-! ## Packets -/

def handleRegister (g : Gateway) (peer : SocketAddr) (msgId : UInt16) (topicName : String) :
    Gateway :=
  match g.clients.get peer with
  | some c =>
    let (topicId, c) := (c.touch g.broker.now).assignTopicId topicName
    (g.putClient peer c).send peer (.regack 0 topicId msgId rcAccepted)
  | none => g.send peer (.regack 0 0 msgId rcNotSupported)

/-- The topic of a PUBLISH: by its identifier, or the two bytes of the identifier themselves. -/
def publishTopic (c : SnClient) (flags : UInt8) (topicId : UInt16) : Option String :=
  match c.topicNameOf topicId with
  | some topic => some topic
  | none =>
    if flags &&& flagTopicIdTypeMask = topicIdTypeShort ∧ topicId ≠ 0 then
      some (fromUtf8Lossy (beBytes 2 topicId.toNat))
    else none

/-- A PUBLISH of a device, as it is routed. -/
def inboundPublish (b : BrokerState) (clientId topic : String) (payload : Bytes) (qos : QoS)
    (retain : Bool) : Routed :=
  { ingress := .mqttSn, publisher := clientId, topic, payload, qos, retain
    security := b.security, plugin := b.plugin
    maxPacketSize := b.config.broker.maxPacketSize, time := b.now }

/-- Route what a device has published. No guard is asked. -/
def handlePublish (g : Gateway) (peer : SocketAddr) (flags : UInt8) (topicId msgId : UInt16)
    (data : Bytes) : Option Gateway :=
  match flagsToQos flags with
  | .error rc =>
    some (if topicId ≠ 0 then g.send peer (.puback 0 topicId msgId rc) else g)
  | .ok qos =>
    match g.clients.get peer with
    | none => some g
    | some c =>
      let g := g.touch peer
      match publishTopic c flags topicId with
      | none =>
        some (if qos ≠ .atMostOnce then g.send peer (.puback 0 topicId msgId rcInvalidTopicId)
          else g)
      | some topic =>
        let r := inboundPublish g.broker c.clientId topic data qos (flags &&& flagRetain ≠ 0)
        (g.broker.route r).map (fun broker =>
          let g := { g with broker }
          if qos = .atLeastOnce then g.send peer (.puback 0 topicId msgId rcAccepted) else g)

/-- The identifier a SUBACK names: a short topic name is its own. -/
def subscribeTopicId (c : SnClient) (flags : UInt8) (topicName : String) : UInt16 × SnClient :=
  if flags &&& flagTopicIdTypeMask = topicIdTypeShort ∧ (stringBytes topicName).length = 2 then
    (u16FromBeBytes (stringBytes topicName), c)
  else c.assignTopicId topicName

/-- Enter a subscription. No guard is asked, and no retained message is sent. -/
def handleSubscribe (g : Gateway) (peer : SocketAddr) (flags : UInt8) (msgId : UInt16)
    (topic : Bytes) : Gateway :=
  match flagsToQos flags, g.clients.get peer with
  | .error rc, _ => g.send peer (.suback 0 0 msgId rc)
  | .ok _, none => g.send peer (.suback 0 0 msgId rcNotSupported)
  | .ok qos, some c =>
    let topicName := fromUtf8Lossy topic
    let c := c.touch g.broker.now
    match g.broker.subscriptions.subscribe c.clientId topicName qos with
    | (.error _, _) => (g.putClient peer c).send peer (.suback 0 0 msgId rcNotSupported)
    | (.ok (), subscriptions) =>
      let (topicId, c) := subscribeTopicId c flags topicName
      let g := (g.onBroker (fun b => { b with subscriptions })).putClient peer c
      g.send peer (.suback (qosToFlags qos) topicId msgId rcAccepted)

def handleUnsubscribe (g : Gateway) (peer : SocketAddr) (msgId : UInt16) (topic : Bytes) :
    Gateway :=
  let topicName := fromUtf8Lossy topic
  let g := match g.clients.get peer with
    | some c =>
      (g.onBroker (fun b =>
        { b with subscriptions := (b.subscriptions.unsubscribe c.clientId topicName).2 })).putClient
        peer ((c.touch g.broker.now).dropTopic topicName)
    | none => g
  g.send peer (.unsuback msgId)

def handle (g : Gateway) (peer : SocketAddr) (packet : SnPacket) : Option Gateway :=
  match packet with
  | .connect flags protocolId duration clientId =>
    some (g.handleConnect peer flags protocolId duration clientId)
  | .register _ _ msgId topicName => some (g.handleRegister peer msgId topicName)
  | .publish flags topicId msgId data => g.handlePublish peer flags topicId msgId data
  | .subscribe flags msgId topic => some (g.handleSubscribe peer flags msgId topic)
  | .unsubscribe _ msgId topic => some (g.handleUnsubscribe peer msgId topic)
  | .pingreq => some ((g.touch peer).send peer .pingresp)
  | .disconnect (some duration) => some (g.sleep peer duration)
  | .disconnect none => some (g.dropClient peer)
  | .puback .. => some (g.touch peer)
  | .connack _ | .regack .. | .suback .. | .unsuback _ | .pingresp | .unknown _ => some g

/-- A datagram arrives; one that is longer than the buffer is cut off. -/
def datagram (g : Gateway) (peer : SocketAddr) (bytes : Bytes) : Option Gateway :=
  match parsePacket (bytes.take 65535) with
  | .ok packet => g.handle peer packet
  | .error _ => some g

/-! ## The forwarder -/

/-- The forwarder is gone, and with it the receiving half of its channel. -/
def dropForwarder (g : Gateway) (epoch : Nat) : Gateway :=
  { g with
    forwarders := g.forwarders.erase epoch
    broker := { g.broker with sessions := g.broker.sessions.closeChannel epoch } }

/-- The packet a message is sent as. QoS 2 is lowered to QoS 1. -/
def forwardPacket (c : SnClient) (msg : OutboundPublish) : SnPacket × SnClient :=
  let (topicId, c) := c.assignTopicId msg.topic
  let (msgId, c) := if msg.qos = .atMostOnce then (0, c) else c.allocateMsgId
  let qos := if msg.qos = .exactlyOnce then .atLeastOnce else msg.qos
  (.publish (qosToFlags qos &&& ~~~flagTopicIdTypeMask) topicId msgId msg.payload, c)

/-- Take a message out of a channel. -/
def takeChannel (b : BrokerState) (epoch : Nat) (ch : Channel) (rest : List OutboundPublish) :
    BrokerState :=
  { b with sessions := { b.sessions with
    channels := b.sessions.channels.insert epoch { ch with buffer := rest } } }

/-- Pass on a message, unless the session or the address is another's by now: then the message is
    lost and the forwarder ends, as it does when sending fails. -/
def forwardOne (g : Gateway) (epoch : Nat) (f : Forwarder) (msg : OutboundPublish)
    (sendOk : Bool) : Gateway :=
  if !g.broker.sessions.owns f.clientId epoch then g.dropForwarder epoch
  else match g.clients.get f.peer with
    | none => g.dropForwarder epoch
    | some c =>
      if c.epoch ≠ epoch then g.dropForwarder epoch
      else
        let (packet, c) := forwardPacket c msg
        let g := g.putClient f.peer c
        if sendOk then g.send f.peer packet else g.dropForwarder epoch

/-- One round of a forwarder. It ends when the sender is gone and the channel is empty. -/
def forward (g : Gateway) (epoch : Nat) (sendOk : Bool) : Option Gateway := do
  let f ← g.forwarders.get epoch
  let ch ← g.broker.sessions.channels.get epoch
  match ch.buffer with
  | msg :: rest =>
    some ((g.onBroker (fun b => takeChannel b epoch ch rest)).forwardOne epoch f msg sendOk)
  | [] =>
    if (g.broker.sessions.get f.clientId).map SessionEntry.tx = some epoch then none
    else some (g.dropForwarder epoch)

end Gateway

end LumenMQ
