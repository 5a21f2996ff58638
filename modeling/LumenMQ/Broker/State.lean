import LumenMQ.Broker.Qos
import LumenMQ.Broker.Retain
import LumenMQ.Broker.Session
import LumenMQ.Net.SnPacket
import LumenMQ.Plugin.Guard
import LumenMQ.Security.Guard

set_option autoImplicit false

/-! # The broker's shared state

What all connections work on, the router that distributes a publication, the snapshots of persistent
sessions, and the construction of a broker from what is on disk.

The state also keeps a trace of what has happened, newest first. Nothing in the broker reads it; it
is there to say what a run has done. A function that may run into an endless loop returns an
`Option`, and `none` if it does. -/

namespace LumenMQ

/-! ## The trace -/

/-- Where a publication enters the broker. -/
inductive Ingress where
  | mqtt
  | mqttSn
  | admin
  | will
deriving DecidableEq, Repr

/-- A call of `Router::publish`, with the guards as they stood when the message came in. -/
structure Routed where
  ingress : Ingress
  publisher : String
  topic : String
  payload : Bytes
  qos : QoS
  retain : Bool
  security : SecurityGuard
  plugin : PluginGuard
  /-- The broker's packet limit, which the security guard falls back on. -/
  maxPacketSize : Nat
  time : Instant

/-- The limits that may cost a message. -/
inductive Limit where
  /-- Capacity or TTL of the offline queue. -/
  | offline
  | maxRetries
  | inflightFull
deriving DecidableEq, Repr

/-- Where a connection takes a message from. -/
inductive Source where
  /-- Its channel. -/
  | live
  /-- What the session before had queued. -/
  | replay
  | retained
deriving DecidableEq, Repr

inductive Effect where
  | routed (r : Routed)
  /-- `deliver_or_enqueue` has returned `Sent` or `Enqueued`. -/
  | accepted (clientId : String) (msg : OutboundPublish)
  | discarded (clientId : String) (msg : OutboundPublish) (limit : Limit)
  /-- The client has answered with PUBACK or PUBREC. -/
  | acknowledged (clientId : String) (msg : OutboundPublish)
  /-- The connection with this epoch takes up a message to send it. -/
  | taken (epoch : Nat) (source : Source) (msg : OutboundPublish)
  | wrote (epoch : Nat) (packet : Packet)
  | sendFailed (epoch : Nat) (packet : Packet) (error : BrokerError)
  | wroteSn (peer : SocketAddr) (packet : SnPacket)

structure BrokerState where
  config : Settings
  sessions : SessionManager
  subscriptions : SubscriptionTree := {}
  retain : RetainStore
  storage : Option Storage
  security : SecurityGuard
  plugin : PluginGuard
  /-- The metric of this name. -/
  connectionsCurrent : Int := 0
  now : Instant
  trace : List Effect := []

namespace BrokerState

def note (b : BrokerState) (e : Effect) : BrokerState := { b with trace := e :: b.trace }

/-- Note that messages for a client are given up. -/
def noteDiscarded (b : BrokerState) (clientId : String) (limit : Limit)
    (msgs : List OutboundPublish) : BrokerState :=
  { b with trace := msgs.map (fun msg => .discarded clientId msg limit) ++ b.trace }

/-! ## Routing -/

/-- Hand a message to a session; what had to be queued is written to disk as well. -/
def deliver (b : BrokerState) (clientId : String) (req : OutboundPublish) : Option BrokerState :=
  (b.sessions.deliverOrEnqueue b.now clientId req).map (fun d =>
    let b := { b.noteDiscarded clientId .offline d.discarded with sessions := d.sessions }
    match d.outcome with
    | .sent => b.note (.accepted clientId req)
    | .enqueued =>
      { b.note (.accepted clientId req) with
        storage := b.storage.map (fun s => s.pushOffline clientId req) }
    | .channelFull | .dropped | .noSession => b)

/-- `deliver_one`: the message one subscriber gets of a publication. -/
def deliverOne (b : BrokerState) (clientId topic : String) (payload : Bytes) (pubQos subQos : QoS) :
    Option BrokerState :=
  b.deliver clientId { topic, payload, qos := deliveryQos pubQos subQos, retain := false }

/-- The retained message of a topic is set or removed. -/
def setRetained (b : BrokerState) (topic : String) (payload : Bytes) (qos : QoS) : BrokerState :=
  let (retain, storage) := b.retain.set b.storage topic payload qos
  { b with retain, storage }

/-- The subscribers of a topic: the plain ones and one member of each shared group, whose turn is
    then over. -/
def collectSubscribers (b : BrokerState) (topic : String) : List (String × QoS) × BrokerState :=
  let (shared, subscriptions) := b.subscriptions.matchesShared topic
  (b.subscriptions.matchesPlain topic ++ shared, { b with subscriptions })

/-- The loop of `publish` over the subscribers; the publisher is left out. -/
def deliverAll (topic : String) (payload : Bytes) (qos : QoS) (exclude : String) :
    List (String × QoS) → BrokerState → Option BrokerState
  | [], b => some b
  | (clientId, subQos) :: rest, b =>
    if clientId = exclude then deliverAll topic payload qos exclude rest b
    else (b.deliverOne clientId topic payload qos subQos).bind
      (deliverAll topic payload qos exclude rest)

/-- `Router::publish`. Its result is always `Ok`, and every caller names the publisher. -/
def publish (b : BrokerState) (topic : String) (payload : Bytes) (qos : QoS) (retain : Bool)
    (exclude : String) : Option BrokerState :=
  let b := if retain then b.setRetained topic payload qos else b
  let (subscribers, b) := b.collectSubscribers topic
  deliverAll topic payload qos exclude subscribers b

/-- Route a message that has come in, and note it. -/
def route (b : BrokerState) (r : Routed) : Option BrokerState :=
  (b.note (.routed r)).publish r.topic r.payload r.qos r.retain r.publisher

/-! ## Snapshots -/

/-- Write a client's subscriptions to disk, unless its session is clean or it has none. -/
def persistSessionSnapshot (b : BrokerState) (clientId : String) : BrokerState :=
  match b.storage with
  | none => b
  | some s =>
    if b.sessions.isCleanSession clientId then b
    else
      let subscriptions := b.subscriptions.subscriptionsOf clientId
      if subscriptions = [] then b
      else { b with storage := some (s.saveSession clientId { clientId, subscriptions }) }

def deleteSessionSnapshot (b : BrokerState) (clientId : String) : BrokerState :=
  { b with storage := b.storage.map (fun s => ((s.deleteSession clientId).drainOffline clientId).2) }

def clearDiskOffline (b : BrokerState) (clientId : String) : BrokerState :=
  { b with storage := b.storage.map (fun s => (s.drainOffline clientId).2) }

def unsubscribeAll (b : BrokerState) (clientId : String) : BrokerState :=
  { b with subscriptions := b.subscriptions.unsubscribeAll clientId }

/-- The end of a session: its subscriptions and what is on disk go with it. -/
def forget (b : BrokerState) (clientId : String) : BrokerState :=
  (b.unsubscribeAll clientId).deleteSessionSnapshot clientId

/-! ## The end of a connection -/

/-- Clean up after a connection, if the session is still its own. -/
def cleanup (b : BrokerState) (clientId : String) (epoch : Nat) (clean : Bool) : BrokerState :=
  if clean then
    match b.sessions.removeIfEpoch clientId epoch with
    | (none, _) => b
    | (some _, sessions) => { b with sessions }.forget clientId
  else
    let b := { b with sessions := b.sessions.markOffline b.now clientId epoch }
    if !b.sessions.owns clientId epoch then b
    else if b.sessions.isSessionExpired b.now clientId then
      match b.sessions.removeIfEpoch clientId epoch with
      | (none, _) => b
      | (some _, sessions) => { b with sessions }.forget clientId
    else b.persistSessionSnapshot clientId

/-- Publish the will of a connection that ended abnormally, if the session is still its own. No
    guard is asked. -/
def fireWill (b : BrokerState) (clientId : String) (epoch : Nat) : Option BrokerState :=
  if b.sessions.owns clientId epoch then
    match b.sessions.takeWill clientId epoch with
    | (none, sessions) => some { b with sessions }
    | (some will, sessions) => { b with sessions }.route {
        ingress := .will, publisher := clientId, topic := will.topic, payload := will.message
        qos := will.qos, retain := will.retain
        security := b.security, plugin := b.plugin
        maxPacketSize := b.config.broker.maxPacketSize, time := b.now }
  else some b

def onAbnormalDisconnect (b : BrokerState) (clientId : String) (epoch : Nat) (clean : Bool) :
    Option BrokerState :=
  (b.fireWill clientId epoch).map (fun b => b.cleanup clientId epoch clean)

/-! ## Background work and hot reloads -/

/-- One tick of the session expiry sweeper. -/
def sweepExpired (b : BrokerState) : BrokerState :=
  let (expired, sessions) := b.sessions.cleanupExpired b.now
  expired.foldl (fun b clientId => b.forget clientId) { b with sessions }

def reloadSecurity (b : BrokerState) (cfg : SecurityConfig) : BrokerResult Unit × BrokerState :=
  let (result, security) := b.security.reload cfg
  (result, { b with security })

def reloadPlugin (b : BrokerState) (cfg : PluginConfig) : BrokerState :=
  { b with plugin := b.plugin.reload cfg }

/-! ## Construction -/

/-- The address of a session without a connection. -/
def dummyAddr : SocketAddr := ⟨.v4 0, 0⟩

/-- Enter the subscriptions of a snapshot; those that are refused are skipped. -/
def restoreSubscriptions (snap : SessionSnapshot) (t : SubscriptionTree) : SubscriptionTree :=
  snap.subscriptions.foldl (fun t s => (t.subscribe snap.clientId s.1 s.2).2) t

/-- An offline session for a snapshot, with a channel that nobody receives from. What an earlier
    snapshot of the same client had queued is taken out and dropped. -/
def restoreSession (sm : SessionManager) (now : Instant) (clientId : String) : SessionManager :=
  let r := sm.register now clientId false (sm.epochCounter + 1) none mqtt311Level dummyAddr none
  r.sessions.markOffline now clientId r.epoch

/-- Put the messages found on disk into the session's queue. -/
def refill (now : Instant) (clientId : String) (msgs : List OutboundPublish) (sm : SessionManager) :
    Option SessionManager :=
  msgs.foldlM (fun sm msg => (sm.deliverOrEnqueue now clientId msg).map (fun d => d.sessions)) sm

/-- Take a client's offline records off the disk. -/
def drainOffline (b : BrokerState) (clientId : String) : List OutboundPublish × BrokerState :=
  match b.storage with
  | none => ([], b)
  | some s =>
    let (msgs, s) := s.drainOffline clientId
    (msgs, { b with storage := some s })

/-- One round of `load_persistent_sessions`. -/
def loadSession (b : BrokerState) (snap : SessionSnapshot) : Option BrokerState :=
  let b := { b with
    subscriptions := restoreSubscriptions snap b.subscriptions
    sessions := restoreSession b.sessions b.now snap.clientId }
  let (msgs, b) := b.drainOffline snap.clientId
  (refill b.now snap.clientId msgs b.sessions).map (fun sessions => { b with sessions })

def loadPersistentSessions (b : BrokerState) : Option BrokerState :=
  match b.storage with
  | none => some b
  | some s => s.loadAllSessions.foldlM loadSession b

/-- `BrokerState::new` on the storage that was opened, if any. -/
def new (config : Settings) (storage : Option Storage) (now : Instant) : Option BrokerState :=
  let retain : RetainStore := { maxPayloadBytes := config.broker.maxPacketSize }
  loadPersistentSessions {
    config, storage, now
    sessions := {
      maxOfflineMessages := config.storage.maxOfflineMessages
      offlineMessageTtl := Duration.fromSecs config.storage.offlineMessageTtl }
    retain := match storage with
      | some s => retain.loadFromStorage s
      | none => retain
    security := match SecurityGuard.new config.security with
      | .ok g => g
      | .error _ => .disabled
    plugin := .new config.plugin }

end BrokerState

end LumenMQ
