import LumenMQ.Lib.FinMap
import LumenMQ.Broker.Auth
import LumenMQ.Broker.StoreMsg

set_option autoImplicit false

/-! # Sessions

The table of sessions, keyed by client. An entry belongs to the connection that registered it last,
told apart by its epoch; a connection that has been taken over still runs, and finds out by
comparing epochs. Every method of the source is a function on the table, run to completion.

The entry's sending half of the connection's channel is the number of the channel. The buffers of
the channels are kept with the table; a channel whose receiver is gone has none. -/

namespace LumenMQ

/-- A bounded channel (`tokio::sync::mpsc`). -/
structure Channel where
  buffer : List OutboundPublish := []
  capacity : Nat
deriving DecidableEq, Repr

structure SessionEntry where
  clientId : String
  cleanSession : Bool
  /-- The channel of the connection that owns the entry. -/
  tx : Nat
  will : Option WillMessage
  protocolLevel : UInt8
  peerAddr : SocketAddr
  connectedAt : Instant
  epoch : Nat
  connected : Bool
  /-- Absent for a clean session. -/
  offlineQueue : Option OfflineQueue
  /-- In seconds; `none` never expires. -/
  sessionExpiry : Option UInt32
  offlineAt : Option Instant
deriving DecidableEq, Repr

/-- Whether the session is past its expiry interval; a connected one never is. -/
def SessionEntry.isExpired (e : SessionEntry) (now : Instant) : Bool :=
  if e.connected then false
  else match e.sessionExpiry, e.offlineAt with
    | some 0, _ => true
    | some secs, some at_ => secs.toNat ≤ Duration.asSecs (now - at_)
    | _, _ => false

/-- The messages a session hands over when it is replaced: those still in its queue, unless it is
    clean. -/
def SessionEntry.handover (e : SessionEntry) (now : Instant) : List OutboundPublish :=
  match e.cleanSession, e.offlineQueue with
  | false, some q => q.drain now
  | _, _ => []

inductive DeliveryOutcome where
  | sent
  | enqueued
  | channelFull
  | dropped
  | noSession
deriving DecidableEq, Repr

/-- The lower of the two QoS levels. -/
def deliveryQos (pubQos subQos : QoS) : QoS :=
  match pubQos, subQos with
  | .atMostOnce, _ | _, .atMostOnce => .atMostOnce
  | .atLeastOnce, _ | _, .atLeastOnce => .atLeastOnce
  | .exactlyOnce, .exactlyOnce => .exactlyOnce

theorem deliveryQos_le (pubQos subQos : QoS) : deliveryQos pubQos subQos ≤ pubQos := by
  cases pubQos <;> cases subQos <;> decide

structure SessionManager where
  sessions : FinMap String SessionEntry := ∅
  epochCounter : Nat := 0
  maxOfflineMessages : Nat
  offlineMessageTtl : Duration
  onlineCount : UInt64 := 0
  /-- The channels whose receiver is alive. -/
  channels : FinMap Nat Channel := ∅

namespace SessionManager

variable {sm : SessionManager} {c : String}

def get (sm : SessionManager) (clientId : String) : Option SessionEntry := sm.sessions.get clientId

/-- Replace the entry of a client. -/
def put (sm : SessionManager) (clientId : String) (e : SessionEntry) : SessionManager :=
  { sm with sessions := sm.sessions.insert clientId e }

/-! ## Registering -/

/-- The entry a registering connection brings. -/
def newEntry (sm : SessionManager) (now : Instant) (clientId : String) (cleanSession : Bool)
    (tx : Nat) (will : Option WillMessage) (protocolLevel : UInt8) (peerAddr : SocketAddr)
    (epoch : Nat) (sessionExpiry : Option UInt32) : SessionEntry :=
  { clientId, cleanSession, tx, will, protocolLevel, peerAddr, connectedAt := now, epoch
    connected := true
    offlineQueue :=
      if cleanSession then none
      else some { maxMessages := sm.maxOfflineMessages, ttl := sm.offlineMessageTtl }
    sessionExpiry := if cleanSession then none else sessionExpiry
    offlineAt := none }

/-- What `register` returns. -/
structure Registered where
  epoch : Nat
  sessionPresent : Bool
  /-- The messages taken out of the queue of the session before. -/
  drained : List OutboundPublish
  sessions : SessionManager

/-- Enter a session, taking over the one that is there. -/
def register (sm : SessionManager) (now : Instant) (clientId : String) (cleanSession : Bool)
    (tx : Nat) (will : Option WillMessage) (protocolLevel : UInt8) (peerAddr : SocketAddr)
    (sessionExpiry : Option UInt32) : Registered :=
  let epoch := sm.epochCounter + 1
  let entry := sm.newEntry now clientId cleanSession tx will protocolLevel peerAddr epoch
    sessionExpiry
  let (sessionPresent, drained, incOnline) : Bool × List OutboundPublish × Bool :=
    match sm.get clientId with
    | some old => (!old.cleanSession, old.handover now, !old.connected)
    | none => (false, [], true)
  { epoch, sessionPresent, drained
    sessions := { sm.put clientId entry with
      epochCounter := epoch
      onlineCount := if incOnline then sm.onlineCount + 1 else sm.onlineCount } }

/-! ## The owner's operations -/

def owns (sm : SessionManager) (clientId : String) (epoch : Nat) : Bool :=
  match sm.get clientId with
  | some e => e.epoch = epoch
  | none => false

def isCleanSession (sm : SessionManager) (clientId : String) : Bool :=
  ((sm.get clientId).map SessionEntry.cleanSession).getD false

def isOnline (sm : SessionManager) (clientId : String) : Bool :=
  ((sm.get clientId).map SessionEntry.connected).getD false

def remove (sm : SessionManager) (clientId : String) : Option SessionEntry × SessionManager :=
  match sm.get clientId with
  | some e =>
    (some e, { sm with
      sessions := sm.sessions.erase clientId
      onlineCount := if e.connected then sm.onlineCount - 1 else sm.onlineCount })
  | none => (none, sm)

def removeIfEpoch (sm : SessionManager) (clientId : String) (epoch : Nat) :
    Option SessionEntry × SessionManager :=
  if sm.owns clientId epoch then sm.remove clientId else (none, sm)

def markOffline (sm : SessionManager) (now : Instant) (clientId : String) (epoch : Nat) :
    SessionManager :=
  match sm.get clientId with
  | some e =>
    if e.epoch = epoch ∧ e.connected = true then
      { sm.put clientId { e with connected := false, offlineAt := some now } with
        onlineCount := sm.onlineCount - 1 }
    else sm
  | none => sm

def markOnline (sm : SessionManager) (clientId : String) (epoch : Nat) : SessionManager :=
  match sm.get clientId with
  | some e =>
    if e.epoch = epoch ∧ e.connected = false then
      { sm.put clientId { e with connected := true, offlineAt := none } with
        onlineCount := sm.onlineCount + 1 }
    else sm
  | none => sm

def isSessionExpired (sm : SessionManager) (now : Instant) (clientId : String) : Bool :=
  ((sm.get clientId).map (fun e => e.isExpired now)).getD false

/-- Take the will out of the entry, if it is still the connection's. -/
def takeWill (sm : SessionManager) (clientId : String) (epoch : Nat) :
    Option WillMessage × SessionManager :=
  match sm.get clientId with
  | some e =>
    if e.epoch = epoch then (e.will, sm.put clientId { e with will := none }) else (none, sm)
  | none => (none, sm)

def clearWill (sm : SessionManager) (clientId : String) (epoch : Nat) : SessionManager :=
  (sm.takeWill clientId epoch).2

/-- Remove the offline sessions that are past their expiry. -/
def cleanupExpired (sm : SessionManager) (now : Instant) : List String × SessionManager :=
  let expired := (sm.sessions.toPairs.filter (fun e => e.2.isExpired now)).map Prod.fst
  (expired, { sm with sessions := expired.foldl (fun m clientId => m.erase clientId) sm.sessions })

/-! ## Delivering -/

/-- What `deliverOrEnqueue` returns, with the messages a queue has given up for the new one. -/
structure Delivery where
  outcome : DeliveryOutcome
  discarded : List OutboundPublish := []
  sessions : SessionManager

/-- Put a message into the entry's offline queue; without one the outcome is `otherwise`. -/
def enqueueOr (sm : SessionManager) (now : Instant) (clientId : String) (e : SessionEntry)
    (msg : OutboundPublish) (otherwise : DeliveryOutcome) : Option Delivery :=
  match e.offlineQueue with
  | some q => (q.enqueue now msg).map (fun (out, q) =>
    { outcome := .enqueued
      discarded := out.map OfflineMessage.payload
      sessions := sm.put clientId { e with offlineQueue := some q } })
  | none => some { outcome := otherwise, sessions := sm }

/-- Hand a message to a session: through its channel when it is connected, into its offline queue
    when it is not or when the channel does not take it. `none` when the queue does not return. -/
def deliverOrEnqueue (sm : SessionManager) (now : Instant) (clientId : String)
    (msg : OutboundPublish) : Option Delivery :=
  match sm.get clientId with
  | none => some { outcome := .noSession, sessions := sm }
  | some e =>
    if e.connected then
      match sm.channels.get e.tx with
      | none => sm.enqueueOr now clientId e msg .dropped
      | some ch =>
        if ch.buffer.length < ch.capacity then
          let ch := { ch with buffer := ch.buffer ++ [msg] }
          some { outcome := .sent, sessions := { sm with channels := sm.channels.insert e.tx ch } }
        else sm.enqueueOr now clientId e msg .channelFull
    else sm.enqueueOr now clientId e msg .dropped

/-! ## Channels -/

/-- A new channel and its number. -/
def openChannel (sm : SessionManager) (id capacity : Nat) : SessionManager :=
  { sm with channels := sm.channels.insert id { capacity } }

/-- The receiver is gone, and what was in the buffer with it. -/
def closeChannel (sm : SessionManager) (id : Nat) : SessionManager :=
  { sm with channels := sm.channels.erase id }

/-! ## What the operations do to the table -/

theorem get_put (sm : SessionManager) (c c' : String) (e : SessionEntry) :
    (sm.put c e).get c' = if c' = c then some e else sm.get c' :=
  FinMap.get_insert ..

@[simp] theorem get_put_self (sm : SessionManager) (c : String) (e : SessionEntry) :
    (sm.put c e).get c = some e := by
  rw [get_put, if_pos rfl]

section register

variable (sm : SessionManager) (now : Instant) (c : String) (clean : Bool) (tx : Nat)
  (will : Option WillMessage) (level : UInt8) (peer : SocketAddr) (expiry : Option UInt32)

@[simp] theorem register_epoch :
    (sm.register now c clean tx will level peer expiry).epoch = sm.epochCounter + 1 := rfl

@[simp] theorem register_channels :
    (sm.register now c clean tx will level peer expiry).sessions.channels = sm.channels := rfl

theorem register_get (c' : String) :
    (sm.register now c clean tx will level peer expiry).sessions.get c' =
      if c' = c then
        some (sm.newEntry now c clean tx will level peer (sm.epochCounter + 1) expiry)
      else sm.get c' :=
  get_put ..

theorem register_drained :
    (sm.register now c clean tx will level peer expiry).drained =
      ((sm.get c).map (fun e => e.handover now)).getD [] := by
  unfold register
  cases sm.get c <;> rfl

end register

/-- The entry of a client is changed if it meets a condition; nothing else changes. -/
theorem get_of_change {sm' : SessionManager} (cond : SessionEntry → Prop) [DecidablePred cond]
    (f : SessionEntry → SessionEntry) (hnone : sm.get c = none → sm'.sessions = sm.sessions)
    (hsome : ∀ e, sm.get c = some e →
      sm'.sessions = if cond e then sm.sessions.insert c (f e) else sm.sessions) (c' : String) :
    sm'.get c' = (sm.get c').map (fun e => if c' = c ∧ cond e then f e else e) := by
  unfold get at hnone hsome ⊢
  cases hget : sm.sessions.get c with
  | none =>
    rw [hnone hget]
    by_cases hc : c' = c
    · simp [hc, hget]
    · simp [hc]
  | some e =>
    rw [hsome e hget]
    by_cases hcond : cond e
    · rw [if_pos hcond, FinMap.get_insert]
      by_cases hc : c' = c
      · simp [hc, hget, hcond]
      · simp [hc]
    · rw [if_neg hcond]
      by_cases hc : c' = c
      · simp [hc, hget, hcond]
      · simp [hc]

/-- A connected entry of the right epoch goes offline; nothing else changes. -/
theorem markOffline_get (sm : SessionManager) (now : Instant) (c c' : String) (epoch : Nat) :
    (sm.markOffline now c epoch).get c' =
      (sm.get c').map (fun e =>
        if c' = c ∧ e.epoch = epoch ∧ e.connected = true then
          { e with connected := false, offlineAt := some now }
        else e) := by
  refine get_of_change (fun e => e.epoch = epoch ∧ e.connected = true) _ ?_ ?_ c'
  · intro hget
    simp only [markOffline, hget]
  · intro e hget
    simp only [markOffline, hget]
    split_ifs <;> rfl

theorem markOnline_get (sm : SessionManager) (c c' : String) (epoch : Nat) :
    (sm.markOnline c epoch).get c' =
      (sm.get c').map (fun e =>
        if c' = c ∧ e.epoch = epoch ∧ e.connected = false then
          { e with connected := true, offlineAt := none }
        else e) := by
  refine get_of_change (fun e => e.epoch = epoch ∧ e.connected = false) _ ?_ ?_ c'
  · intro hget
    simp only [markOnline, hget]
  · intro e hget
    simp only [markOnline, hget]
    split_ifs <;> rfl

@[simp] theorem markOffline_channels (sm : SessionManager) (now : Instant) (c : String)
    (epoch : Nat) : (sm.markOffline now c epoch).channels = sm.channels := by
  unfold markOffline
  cases sm.get c with
  | none => rfl
  | some e =>
    dsimp only
    split_ifs <;> rfl

@[simp] theorem markOffline_limits (sm : SessionManager) (now : Instant) (c : String)
    (epoch : Nat) :
    (sm.markOffline now c epoch).epochCounter = sm.epochCounter ∧
      (sm.markOffline now c epoch).maxOfflineMessages = sm.maxOfflineMessages ∧
      (sm.markOffline now c epoch).offlineMessageTtl = sm.offlineMessageTtl := by
  unfold markOffline
  cases sm.get c with
  | none => exact ⟨rfl, rfl, rfl⟩
  | some e =>
    dsimp only
    split_ifs <;> exact ⟨rfl, rfl, rfl⟩

theorem takeWill_get (sm : SessionManager) (c c' : String) (epoch : Nat) :
    (sm.takeWill c epoch).2.get c' =
      (sm.get c').map (fun e => if c' = c ∧ e.epoch = epoch then { e with will := none } else e) := by
  refine get_of_change (fun e => e.epoch = epoch) _ ?_ ?_ c'
  · intro hget
    simp only [takeWill, hget]
  · intro e hget
    simp only [takeWill, hget]
    split_ifs <;> rfl

/-- Taking a will changes nothing but the entry. -/
theorem takeWill_frame (sm : SessionManager) (c : String) (epoch : Nat) :
    (sm.takeWill c epoch).2.epochCounter = sm.epochCounter ∧
      (sm.takeWill c epoch).2.maxOfflineMessages = sm.maxOfflineMessages ∧
      (sm.takeWill c epoch).2.channels = sm.channels := by
  unfold takeWill
  split
  · split_ifs <;> exact ⟨rfl, rfl, rfl⟩
  · exact ⟨rfl, rfl, rfl⟩

theorem get_remove (sm : SessionManager) (c c' : String) :
    (sm.remove c).2.get c' = if c' = c then none else sm.get c' := by
  unfold remove
  cases hget : sm.get c with
  | some e => exact FinMap.get_erase ..
  | none =>
    by_cases hc : c' = c
    · rw [if_pos hc, hc]
      exact hget
    · rw [if_neg hc]

theorem get_of_removeIfEpoch {sm' : SessionManager} {epoch : Nat} {e : SessionEntry}
    (h : sm.removeIfEpoch c epoch = (some e, sm')) : sm'.get c = none := by
  unfold removeIfEpoch at h
  split_ifs at h
  · rw [show sm' = (sm.remove c).2 by rw [h], get_remove, if_pos rfl]
  · simp at h

/-- The connection that a session belongs to can remove it. -/
theorem removeIfEpoch_of_owns {epoch : Nat} (h : sm.owns c epoch = true) :
    ∃ e, sm.removeIfEpoch c epoch = (some e, (sm.remove c).2) := by
  unfold removeIfEpoch
  rw [if_pos h]
  unfold owns at h
  unfold remove
  cases hget : sm.get c with
  | none => simp [hget] at h
  | some e => exact ⟨e, rfl⟩

@[simp] theorem remove_channels (sm : SessionManager) (c : String) :
    (sm.remove c).2.channels = sm.channels := by
  unfold remove
  split <;> rfl

/-- Whether the channel of a session takes another message. -/
def hasRoom (sm : SessionManager) (e : SessionEntry) : Bool :=
  e.connected && (sm.channels.get e.tx).any (fun ch => ch.buffer.length < ch.capacity)

/-- What can come of a delivery. -/
inductive Delivers (sm : SessionManager) (now : Instant) (c : String) (msg : OutboundPublish) :
    Delivery → Prop
  | noSession (hget : sm.get c = none) :
      Delivers sm now c msg { outcome := .noSession, sessions := sm }
  | sent (e : SessionEntry) (ch : Channel) (hget : sm.get c = some e)
      (hconnected : e.connected = true) (hch : sm.channels.get e.tx = some ch)
      (hroom : ch.buffer.length < ch.capacity) :
      Delivers sm now c msg
        { outcome := .sent
          sessions := { sm with
            channels := sm.channels.insert e.tx { ch with buffer := ch.buffer ++ [msg] } } }
  | enqueued (e : SessionEntry) (q q' : OfflineQueue) (out : List OfflineMessage)
      (hget : sm.get c = some e) (hqueue : e.offlineQueue = some q)
      (henqueue : q.enqueue now msg = some (out, q')) (hfull : sm.hasRoom e = false) :
      Delivers sm now c msg
        { outcome := .enqueued
          discarded := out.map OfflineMessage.payload
          sessions := sm.put c { e with offlineQueue := some q' } }
  | lost (e : SessionEntry) (outcome : DeliveryOutcome) (hget : sm.get c = some e)
      (hqueue : e.offlineQueue = none) (hlost : outcome = .channelFull ∨ outcome = .dropped) :
      Delivers sm now c msg { outcome, sessions := sm }

theorem enqueueOr_delivers {now : Instant} {e : SessionEntry} {msg : OutboundPublish}
    {otherwise : DeliveryOutcome} {d : Delivery} (hget : sm.get c = some e)
    (hfull : sm.hasRoom e = false) (hlost : otherwise = .channelFull ∨ otherwise = .dropped)
    (h : sm.enqueueOr now c e msg otherwise = some d) : Delivers sm now c msg d := by
  unfold enqueueOr at h
  cases hq : e.offlineQueue with
  | none =>
    simp only [hq, Option.some.injEq] at h
    subst h
    exact .lost e otherwise hget hq hlost
  | some q =>
    simp only [hq, Option.map_eq_some_iff] at h
    obtain ⟨⟨out, q'⟩, henq, rfl⟩ := h
    exact .enqueued e q q' out hget hq henq hfull

theorem deliverOrEnqueue_delivers {now : Instant} {msg : OutboundPublish} {d : Delivery}
    (h : sm.deliverOrEnqueue now c msg = some d) : Delivers sm now c msg d := by
  unfold deliverOrEnqueue at h
  cases hget : sm.get c with
  | none =>
    simp only [hget, Option.some.injEq] at h
    subst h
    exact .noSession hget
  | some e =>
    simp only [hget] at h
    by_cases hc : e.connected = true
    · rw [if_pos hc] at h
      cases hch : sm.channels.get e.tx with
      | none =>
        simp only [hch] at h
        exact enqueueOr_delivers hget (by simp [hasRoom, hch]) (.inr rfl) h
      | some ch =>
        simp only [hch] at h
        by_cases hroom : ch.buffer.length < ch.capacity
        · rw [if_pos hroom, Option.some.injEq] at h
          subst h
          exact .sent e ch hget hc hch hroom
        · rw [if_neg hroom] at h
          exact enqueueOr_delivers hget (by simp [hasRoom, hch, not_lt.1 hroom]) (.inl rfl) h
    · rw [if_neg hc] at h
      exact enqueueOr_delivers hget (by simp [hasRoom, hc]) (.inr rfl) h

end SessionManager

end LumenMQ
