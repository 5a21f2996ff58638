import Mathlib.Logic.Relation
import LumenMQ.Lib.History
import LumenMQ.Broker.Connection

set_option autoImplicit false

/-! # Moves

Every function of the broker changes the state by a few elementary moves. This file names them, once
for the shared state and once for a connection's task, and takes the functions apart into them; an
invariant is then proved by looking at the moves. A scope says which moves are considered: what is
routed, to whom it is delivered, whose session is removed, which handshakes are completed. -/

namespace LumenMQ

open Option List SessionManager

open Relation (ReflTransGen)
open Process

/-- What a sequence of moves may do. -/
structure Scope where
  /-- The publications that may reach the router. -/
  routes : Routed → Prop := fun _ => True
  /-- The clients a publication may be delivered to. -/
  delivers : String → Prop := fun _ => True
  /-- The clients whose session may be removed. -/
  removes : String → Prop := fun _ => True
  /-- The clients that may connect as devices of the gateway. -/
  registers : String → Prop := fun _ => True
  /-- The CONNECT packets that may be accepted. -/
  opens : Connect → Prop := fun _ => True
  /-- The clients that may subscribe. -/
  subscribes : String → Prop := fun _ => True
  /-- The clients that may unsubscribe. -/
  unsubscribes : String → Prop := fun _ => True
  /-- The clients whose offline records may be taken off the disk while their session stays. -/
  clears : String → Prop := fun _ => True
  /-- The connections whose tasks may act. -/
  acts : Nat → Prop := fun _ => True
  /-- The packets that a connection may take. -/
  takes : Packet → Prop := fun _ => True
  /-- Where a connection may take a message from. -/
  takesUp : Source → Prop := fun _ => True
  /-- Whether what is overdue may be sent again or given up. -/
  retries : Prop := True
  /-- Whether a connection may enter more filters than the limit allows; no step does. -/
  exceeds : Prop := True
  /-- The entries of a connection's table that a PUBCOMP may remove. -/
  completes : Option OutboundInflight → Prop := fun _ => True
  /-- The connections whose task may end. -/
  closes : Nat → Prop := fun _ => True
  /-- Whether devices may fall asleep or leave; the gauge of connections is set only then. -/
  departs : Prop := True
  /-- Whether the process may be started again. -/
  restarts : Prop := True

/-- Both guards accept the publication, as they stood when it came in. -/
def Routed.Passes (r : Routed) : Prop :=
  (r.security.checkPublish r.time r.publisher r.payload.length r.maxPacketSize).1 = .ok () ∧
    r.plugin.checkPublish r.topic r.payload = .ok ()

/-- The connection that an effect is about. -/
def Effect.epoch : Effect → Option Nat
  | .taken k _ _ | .wrote k _ | .sendFailed k _ _ => some k
  | .routed _ | .accepted _ _ | .discarded _ _ _ | .acknowledged _ _ | .wroteSn _ _ => none

/-- The publication that an effect notes. -/
def Effect.publication : Effect → Option Routed
  | .routed r => some r
  | _ => none

/-! ## The shared state -/

namespace BrokerState

variable {b b' : BrokerState} {c : String} {r : Routed}

inductive Move (S : Scope) (b : BrokerState) : BrokerState → Prop
  | routed (r : Routed) (hr : S.routes r) : Move S b (b.note (.routed r))
  | setRetained (r : Routed) (hr : .routed r ∈ b.trace) :
      Move S b (b.setRetained r.topic r.payload r.qos)
  /-- The shared groups take turns. -/
  | turns (r : Routed) (hr : S.routes r) : Move S b (b.collectSubscribers r.topic).2
  | deliver (r : Routed) (clientId : String) (subQos : QoS) (b' : BrokerState)
      (hr : .routed r ∈ b.trace) (hne : clientId ≠ r.publisher) (hto : S.delivers clientId)
      (hdeliver : b.deliverOne clientId r.topic r.payload r.qos subQos = some b') : Move S b b'
  | subscribe (clientId filter : String) (qos : QoS) (subscriptions : SubscriptionTree)
      (hsub : S.subscribes clientId)
      (hok : b.subscriptions.subscribe clientId filter qos = (.ok (), subscriptions)) :
      Move S b { b with subscriptions }
  | unsubscribe (clientId filter : String) (hunsub : S.unsubscribes clientId) :
      Move S b { b with subscriptions := (b.subscriptions.unsubscribe clientId filter).2 }
  | unsubscribeAll (clientId : String) (hremove : S.removes clientId) :
      Move S b (b.unsubscribeAll clientId)
  | markOffline (clientId : String) (epoch : Nat) :
      Move S b { b with sessions := b.sessions.markOffline b.now clientId epoch }
  | takeWill (clientId : String) (epoch : Nat) :
      Move S b { b with sessions := (b.sessions.takeWill clientId epoch).2 }
  | removeSession (clientId : String) (hremove : S.removes clientId) :
      Move S b { b with sessions := (b.sessions.remove clientId).2 }
  | persist (clientId : String)
      (h : S.removes clientId ∨ S.subscribes clientId ∨ S.unsubscribes clientId) :
      Move S b (b.persistSessionSnapshot clientId)
  | deleteSnapshot (clientId : String) (hremove : S.removes clientId) :
      Move S b (b.deleteSessionSnapshot clientId)
  | clearDisk (clientId : String) (h : S.clears clientId) : Move S b (b.clearDiskOffline clientId)
  | guards (security : SecurityGuard) (plugin : PluginGuard) :
      Move S b { b with security, plugin }
  | count (connectionsCurrent : Int) (hdepart : S.departs) : Move S b { b with connectionsCurrent }
  | wroteSn (peer : SocketAddr) (packet : SnPacket) : Move S b (b.note (.wroteSn peer packet))

/-- A sequence of moves. -/
abbrev Moves (S : Scope) : BrokerState → BrokerState → Prop := ReflTransGen (Move S)

variable {S : Scope}

/-! ### Routing -/

/-- A snapshot is a change of the storage. -/
theorem persistSessionSnapshot_eq (b : BrokerState) (c : String) :
    ∃ storage, b.persistSessionSnapshot c = { b with storage } := by
  unfold persistSessionSnapshot
  split
  · exact ⟨b.storage, rfl⟩
  · dsimp only
    split_ifs
    · exact ⟨b.storage, rfl⟩
    · exact ⟨b.storage, rfl⟩
    · exact ⟨_, rfl⟩

/-- What a delivery does to the shared state. -/
inductive Delivered (b : BrokerState) (c : String) (req : OutboundPublish) : BrokerState → Prop
  | sent (e : SessionEntry) (ch : Channel) (hget : b.sessions.get c = some e)
      (hconnected : e.connected = true) (hch : b.sessions.channels.get e.tx = some ch)
      (hroom : ch.buffer.length < ch.capacity) :
      Delivered b c req { b.note (.accepted c req) with
        sessions := { b.sessions with
          channels := b.sessions.channels.insert e.tx { ch with buffer := ch.buffer ++ [req] } } }
  | enqueued (e : SessionEntry) (q q' : OfflineQueue) (out : List OfflineMessage)
      (hget : b.sessions.get c = some e) (hqueue : e.offlineQueue = some q)
      (henqueue : q.enqueue b.now req = some (out, q')) (hfull : b.sessions.hasRoom e = false) :
      Delivered b c req {
        (b.noteDiscarded c .offline (out.map OfflineMessage.payload)).note (.accepted c req) with
        sessions := b.sessions.put c { e with offlineQueue := some q' }
        storage := b.storage.map (fun s => s.pushOffline c req) }
  | lost : Delivered b c req b

theorem deliver_delivered {req : OutboundPublish} (h : b.deliver c req = some b') :
    b.Delivered c req b' := by
  unfold deliver at h
  obtain ⟨d, hd, rfl⟩ := map_eq_some_iff.1 h
  cases deliverOrEnqueue_delivers hd with
  | noSession hget => exact .lost
  | lost e outcome hget hq hlost =>
    rcases hlost with rfl | rfl
    · exact .lost
    · exact .lost
  | sent e ch hget hconn hch hroom => exact .sent e ch hget hconn hch hroom
  | enqueued e q q' out hget hq henq hfull =>
    exact .enqueued e q q' out hget hq henq hfull

/-- What routing a message may add to the trace: its deliveries, and what they cost. -/
inductive Spreads (S : Scope) : Effect → Prop
  /-- What is delivered is not marked as retained. -/
  | accepted (clientId : String) (msg : OutboundPublish) (hto : S.delivers clientId)
      (hretain : msg.retain = false) : Spreads S (.accepted clientId msg)
  | discarded (clientId : String) (msg : OutboundPublish) :
      Spreads S (.discarded clientId msg .offline)

/-- What a move may add to the trace. -/
inductive Adds (S : Scope) : Effect → Prop
  | routed (r : Routed) (hr : S.routes r) : Adds S (.routed r)
  /-- What is delivered is not marked as retained. -/
  | accepted (clientId : String) (msg : OutboundPublish) (hto : S.delivers clientId)
      (hretain : msg.retain = false) : Adds S (.accepted clientId msg)
  | discarded (clientId : String) (msg : OutboundPublish) : Adds S (.discarded clientId msg .offline)
  | wroteSn (peer : SocketAddr) (packet : SnPacket) : Adds S (.wroteSn peer packet)

theorem Adds.epoch_eq {x : Effect} (h : Adds S x) : x.epoch = none := by
  cases h <;> rfl

theorem Spreads.adds {x : Effect} (h : Spreads S x) : Adds S x := by
  cases h with
  | accepted c msg hto hret => exact .accepted c msg hto hret
  | discarded c msg => exact .discarded c msg

theorem extends_noteDiscarded (b : BrokerState) (c : String) (msgs : List OutboundPublish) :
    Extends (Spreads S) b.trace (b.noteDiscarded c .offline msgs).trace := by
  refine .append ?_ b.trace
  intro e he
  obtain ⟨msg, -, rfl⟩ := mem_map.1 he
  exact .discarded c msg

theorem deliver_extends {req : OutboundPublish} (hto : S.delivers c) (hret : req.retain = false)
    (h : b.deliver c req = some b') : Extends (Spreads S) b.trace b'.trace := by
  cases deliver_delivered h with
  | sent => exact .cons (.accepted c req hto hret) _
  | enqueued e q q' out =>
    exact (extends_noteDiscarded b c _).trans (.cons (.accepted c req hto hret) _)
  | lost => exact .refl _

theorem deliverAll_extends (hto : ∀ c, S.delivers c) {topic exclude : String} {payload : Bytes}
    {qos : QoS} {subscribers : List (String × QoS)}
    (h : deliverAll topic payload qos exclude subscribers b = some b') :
    Extends (Spreads S) b.trace b'.trace := by
  induction subscribers generalizing b with
  | nil => exact some.inj h ▸ .refl _
  | cons s rest ih =>
    obtain ⟨c, subQos⟩ := s
    unfold deliverAll at h
    split_ifs at h
    · exact ih h
    · obtain ⟨b1, hone, hrest⟩ := bind_eq_some_iff.1 h
      exact (deliver_extends (hto c) rfl hone).trans (ih hrest)

/-- Routing a message notes it, once, and then its deliveries. -/
theorem route_extends (h : b.route r = some b') :
    Extends (Spreads {}) (.routed r :: b.trace) b'.trace := by
  unfold route publish at h
  by_cases hret : r.retain = true
  · simp only [if_pos hret] at h
    exact deliverAll_extends (fun _ => trivial) h
  · simp only [if_neg hret] at h
    exact deliverAll_extends (fun _ => trivial) h

/-- A move adds to the trace, at its front. -/
theorem Move.extends (h : b.Move S b') : Extends (Adds S) b.trace b'.trace := by
  cases h with
  | deliver r c subQos b' hr hne hto hdel =>
    exact (deliver_extends hto rfl hdel).mono (fun e he => he.adds)
  | routed r hr => exact .cons (.routed r hr) _
  | wroteSn peer packet => exact .cons (.wroteSn peer packet) _
  | persist c =>
    obtain ⟨storage, hb⟩ := persistSessionSnapshot_eq b c
    rw [hb]
    exact .refl _
  | _ => exact .refl _

/-- What is not done by a connection is not noted as its effect. -/
theorem moves_epoch (h : Moves S b b') : Extends (fun x => x.epoch = none) b.trace b'.trace := by
  induction h with
  | refl => exact .refl _
  | tail _ hmove ih => exact ih.trans (hmove.extends.mono (fun x hx => hx.epoch_eq))

theorem Move.trace (h : b.Move S b') : b.trace <:+ b'.trace :=
  h.extends.suffix

/-- Whether a client is among the subscribers that a message on this topic goes to. -/
def reaches (b : BrokerState) (topic c : String) : Bool :=
  (b.collectSubscribers topic).1.any (fun s => s.1 == c)

theorem deliverAll_moves {subscribers : List (String × QoS)}
    (hto : ∀ c, c ≠ r.publisher → subscribers.any (fun s => s.1 == c) = true → S.delivers c)
    (hr : .routed r ∈ b.trace)
    (h : deliverAll r.topic r.payload r.qos r.publisher subscribers b = some b') :
    Moves S b b' := by
  induction subscribers generalizing b with
  | nil =>
    have hb : b = b' := some.inj h
    exact hb ▸ .refl
  | cons s rest ih =>
    obtain ⟨c, subQos⟩ := s
    have hto' : ∀ c, c ≠ r.publisher → rest.any (fun s => s.1 == c) = true → S.delivers c :=
      fun c' hc' hmem => hto c' hc' (by rw [any_cons, hmem, Bool.or_true])
    unfold deliverAll at h
    split_ifs at h with hc
    · exact ih hto' hr h
    · obtain ⟨b1, hone, hrest⟩ := bind_eq_some_iff.1 h
      have hself := hto c hc (by simp)
      exact .head (.deliver r c subQos b1 hr hc hself hone)
        (ih hto' ((deliver_extends hself rfl hone).suffix.subset hr) hrest)

theorem publish_moves (hr : .routed r ∈ b.trace) (hroute : S.routes r)
    (hto : ∀ c, c ≠ r.publisher → b.reaches r.topic c = true → S.delivers c)
    (h : b.publish r.topic r.payload r.qos r.retain r.publisher = some b') : Moves S b b' := by
  unfold publish at h
  by_cases hret : r.retain = true
  · simp only [if_pos hret] at h
    exact .head (.setRetained r hr) (.head (.turns r hroute) (deliverAll_moves hto hr h))
  · simp only [if_neg hret] at h
    exact .head (.turns r hroute) (deliverAll_moves hto hr h)

theorem route_moves (hroute : S.routes r)
    (hto : ∀ c, c ≠ r.publisher → b.reaches r.topic c = true → S.delivers c)
    (h : b.route r = some b') : Moves S b b' :=
  .head (.routed r hroute) (publish_moves mem_cons_self hroute hto h)

theorem moves_trace (h : Moves S b b') : b.trace <:+ b'.trace := by
  induction h with
  | refl => exact suffix_rfl
  | tail _ hstep ih => exact ih.trans hstep.trace

/-- What is routed is noted. -/
theorem mem_trace_route (h : b.route r = some b') : .routed r ∈ b'.trace :=
  (moves_trace (publish_moves (S := {}) mem_cons_self trivial (fun _ _ _ => trivial) h)).subset
    mem_cons_self

/-! ### The end of a session -/

theorem forget_moves (b : BrokerState) (hrem : S.removes c) : Moves S b (b.forget c) :=
  .head (.unsubscribeAll c hrem) (.single (.deleteSnapshot c hrem))

theorem removeIfEpoch_moves {epoch : Nat} {e : SessionEntry} {sessions : SessionManager}
    (hrem : S.removes c) (h : b.sessions.removeIfEpoch c epoch = (some e, sessions)) :
    Moves S b ({ b with sessions }.forget c) := by
  unfold removeIfEpoch at h
  split_ifs at h with hown
  · refine .head ?_ (forget_moves _ hrem)
    rw [show sessions = (b.sessions.remove c).2 by rw [h]]
    exact .removeSession c hrem
  · simp at h

theorem cleanup_moves (b : BrokerState) {epoch : Nat} {clean : Bool} (hrem : S.removes c) :
    Moves S b (b.cleanup c epoch clean) := by
  unfold cleanup
  by_cases hclean : clean = true
  · rw [if_pos hclean]
    split
    · exact .refl
    · next heq => exact removeIfEpoch_moves hrem heq
  · rw [if_neg hclean]
    refine .head (.markOffline c epoch) ?_
    dsimp only
    split_ifs
    · exact .refl
    · split
      · exact .refl
      · next heq => exact removeIfEpoch_moves hrem heq
    · exact .single (.persist c (.inl hrem))

/-- The will of a session, as it is routed. -/
def willRouted (b : BrokerState) (c : String) (will : WillMessage) : Routed :=
  { ingress := .will, publisher := c, topic := will.topic, payload := will.message
    qos := will.qos, retain := will.retain
    security := b.security, plugin := b.plugin
    maxPacketSize := b.config.broker.maxPacketSize, time := b.now }

/-- The will that a connection would leave behind. -/
def pendingWill (b : BrokerState) (c : String) (epoch : Nat) : Option WillMessage :=
  (b.sessions.takeWill c epoch).1

theorem fireWill_moves {epoch : Nat}
    (hwill : ∀ w, b.pendingWill c epoch = some w → S.routes (b.willRouted c w))
    (hto : ∀ w, b.pendingWill c epoch = some w →
      ∀ c', c' ≠ c → b.reaches w.topic c' = true → S.delivers c') (h : b.fireWill c epoch = some b') :
    Moves S b b' := by
  unfold fireWill at h
  split_ifs at h with hown
  · refine .head (.takeWill c epoch) ?_
    unfold pendingWill at hwill hto
    rcases hw : b.sessions.takeWill c epoch with ⟨_ | w, sessions⟩
    · simp only [hw, some.injEq] at h
      exact h ▸ .refl
    · simp only [hw] at h hwill hto
      exact route_moves (hwill w rfl) (hto w rfl) h
  · exact some.inj h ▸ .refl

theorem afterExit_moves {epoch : Nat} {clean : Bool} {x : Exit} (hrem : S.removes c)
    (hwill : x = .abnormal → ∀ w, b.pendingWill c epoch = some w → S.routes (b.willRouted c w))
    (hto : x = .abnormal → ∀ w, b.pendingWill c epoch = some w →
      ∀ c', c' ≠ c → b.reaches w.topic c' = true → S.delivers c')
    (h : b.afterExit c epoch clean x = some b') : Moves S b b' := by
  cases x with
  | closed => exact some.inj h ▸ .refl
  | shutdown => exact some.inj h ▸ cleanup_moves b hrem
  | disconnect => exact some.inj h ▸ .head (.takeWill c epoch) (cleanup_moves _ hrem)
  | abnormal =>
    obtain ⟨b1, hfire, rfl⟩ := map_eq_some_iff.1 h
    exact (fireWill_moves (hwill rfl) (hto rfl) hfire).trans (cleanup_moves b1 hrem)

/-! ### Entries -/

/-- An entry of the same session later on. -/
structure Continues (e e' : SessionEntry) : Prop where
  cleanSession : e'.cleanSession = e.cleanSession
  tx : e'.tx = e.tx
  epoch : e'.epoch = e.epoch
  connected : e'.connected = true → e.connected = true
  sessionExpiry : e'.sessionExpiry = e.sessionExpiry
  will : ∀ w, e'.will = some w → e.will = some w
  offlineQueue : e'.offlineQueue.isSome = e.offlineQueue.isSome

theorem Continues.refl (e : SessionEntry) : Continues e e :=
  ⟨rfl, rfl, rfl, id, rfl, fun _ h => h, rfl⟩

theorem Continues.trans {e1 e2 e3 : SessionEntry} (h : Continues e1 e2) (h' : Continues e2 e3) :
    Continues e1 e3 :=
  ⟨h'.cleanSession.trans h.cleanSession, h'.tx.trans h.tx, h'.epoch.trans h.epoch,
    fun hc => h.connected (h'.connected hc), h'.sessionExpiry.trans h.sessionExpiry,
    fun w hw => h.will w (h'.will w hw), h'.offlineQueue.trans h.offlineQueue⟩

/-- A move opens no session: every entry continues one that was there. -/
theorem Move.entry (h : b.Move S b') {e' : SessionEntry} (he' : b'.sessions.get c = some e') :
    ∃ e, b.sessions.get c = some e ∧ Continues e e' := by
  cases h with
  | deliver r c1 subQos b' hr hne hto hdel =>
    cases deliver_delivered hdel with
    | sent => exact ⟨e', he', .refl e'⟩
    | enqueued e q q' out hget hq henq =>
      change (b.sessions.put c1 _).get c = some e' at he'
      rw [get_put] at he'
      split_ifs at he' with hc
      · refine ⟨e, hc ▸ hget, ?_⟩
        rw [← some.inj he']
        exact { Continues.refl e with offlineQueue := by rw [hq]; rfl }
      · exact ⟨e', he', .refl e'⟩
    | lost => exact ⟨e', he', .refl e'⟩
  | markOffline c1 epoch =>
    rw [markOffline_get] at he'
    obtain ⟨e, hget, rfl⟩ := map_eq_some_iff.1 he'
    refine ⟨e, hget, ?_⟩
    split_ifs
    · exact { Continues.refl e with connected := fun h => by simp at h }
    · exact .refl e
  | takeWill c1 epoch =>
    rw [takeWill_get] at he'
    obtain ⟨e, hget, rfl⟩ := map_eq_some_iff.1 he'
    refine ⟨e, hget, ?_⟩
    split_ifs
    · exact { Continues.refl e with will := fun _ h => by simp at h }
    · exact .refl e
  | removeSession c1 hrem =>
    rw [get_remove] at he'
    split_ifs at he'
    exact ⟨e', he', .refl e'⟩
  | persist c1 =>
    refine ⟨e', ?_, .refl e'⟩
    obtain ⟨storage, hb⟩ := persistSessionSnapshot_eq b c1
    rw [hb] at he'
    exact he'
  | _ => exact ⟨e', he', .refl e'⟩

/-- A session that may not be removed stays. -/
theorem Move.isSome (h : b.Move S b') (hrem : ¬ S.removes c)
    (hc : (b.sessions.get c).isSome = true) : (b'.sessions.get c).isSome = true := by
  cases h with
  | deliver r c1 subQos b' hr hne hto hdel =>
    cases deliver_delivered hdel with
    | sent | lost => exact hc
    | enqueued e q q' out hget hq henq =>
      change ((b.sessions.put c1 _).get c).isSome = true
      rw [get_put]
      split_ifs
      · rfl
      · exact hc
  | markOffline c1 epoch => rwa [markOffline_get, isSome_map]
  | takeWill c1 epoch => rwa [takeWill_get, isSome_map]
  | removeSession c1 hrem1 =>
    rw [get_remove, if_neg]
    · exact hc
    · rintro rfl
      exact hrem hrem1
  | persist c1 =>
    obtain ⟨storage, hb⟩ := persistSessionSnapshot_eq b c1
    rwa [hb]
  | _ => exact hc

/-! ### Counters -/

/-- A move opens no session. -/
theorem Move.epochCounter_eq (h : b.Move S b') :
    b'.sessions.epochCounter = b.sessions.epochCounter := by
  cases h with
  | deliver r c subQos b' hr hne hto hdel => cases deliver_delivered hdel <;> rfl
  | markOffline c epoch => exact (markOffline_limits ..).1
  | takeWill c epoch => exact (takeWill_frame ..).1
  | removeSession c hrem =>
    change (b.sessions.remove c).2.epochCounter = _
    unfold remove
    split <;> rfl
  | persist c =>
    obtain ⟨storage, hb⟩ := persistSessionSnapshot_eq b c
    rw [hb]
  | _ => rfl

/-- The settings, the limits and the clock are no business of a move. -/
theorem Move.limits_eq (h : b.Move S b') : b'.config = b.config ∧ b'.now = b.now ∧
      b'.sessions.maxOfflineMessages = b.sessions.maxOfflineMessages := by
  cases h with
  | deliver r c subQos b' hr hne hto hdel =>
    cases deliver_delivered hdel <;> exact ⟨rfl, rfl, rfl⟩
  | markOffline c epoch => exact ⟨rfl, rfl, (markOffline_limits ..).2.1⟩
  | takeWill c epoch => exact ⟨rfl, rfl, (takeWill_frame ..).2.1⟩
  | removeSession c hrem =>
    refine ⟨rfl, rfl, ?_⟩
    show (b.sessions.remove c).2.maxOfflineMessages = _
    unfold remove
    split <;> rfl
  | persist c =>
    obtain ⟨storage, hb⟩ := persistSessionSnapshot_eq b c
    rw [hb]
    exact ⟨rfl, rfl, rfl⟩
  | _ => exact ⟨rfl, rfl, rfl⟩

/-- The gauge of connections is set only when a device falls asleep or leaves. -/
theorem Move.connectionsCurrent_eq (h : b.Move S b') (hdepart : ¬ S.departs) :
    b'.connectionsCurrent = b.connectionsCurrent := by
  cases h with
  | deliver r c subQos b' hr hne hto hdel => cases deliver_delivered hdel <;> rfl
  | persist c =>
    obtain ⟨storage, hb⟩ := persistSessionSnapshot_eq b c
    rw [hb]
  | count _ hdep => exact absurd hdep hdepart
  | _ => rfl

theorem moves_connectionsCurrent (h : Moves S b b') (hdep : ¬ S.departs) :
    b'.connectionsCurrent = b.connectionsCurrent := by
  induction h with
  | refl => rfl
  | tail _ hmove ih => exact (hmove.connectionsCurrent_eq hdep).trans ih

/-! ### Sweeping -/

theorem remove_of_offline {sm : SessionManager} {e : SessionEntry} (hget : sm.get c = some e)
    (hoff : e.connected = false) :
    (sm.remove c).2 = { sm with sessions := sm.sessions.erase c } := by
  unfold remove
  simp [hget, hoff]

/-- Removing offline sessions one after the other. -/
theorem eraseAll_moves {cs : List String} (hnd : cs.Nodup) (hrem : ∀ c ∈ cs, S.removes c)
    (hoff : ∀ c ∈ cs, ∃ e, b.sessions.get c = some e ∧ e.connected = false) :
    Moves S b { b with sessions := { b.sessions with
      sessions := cs.foldl (fun m c => m.erase c) b.sessions.sessions } } := by
  induction cs generalizing b with
  | nil => exact .refl
  | cons c rest ih =>
    rw [nodup_cons] at hnd
    rw [forall_mem_cons] at hrem hoff
    obtain ⟨e, hget, hc⟩ := hoff.1
    refine .head (.removeSession c hrem.1) ?_
    rw [remove_of_offline hget hc]
    refine ih hnd.2 hrem.2 ?_
    intro c' hc'
    obtain ⟨e', hget', hoff'⟩ := hoff.2 c' hc'
    have hne : c' ≠ c := fun h => hnd.1 (h ▸ hc')
    exact ⟨e', (FinMap.get_erase ..).trans (by rw [if_neg hne]; exact hget'), hoff'⟩

theorem forgetAll_moves {cs : List String} (b : BrokerState) (hrem : ∀ c ∈ cs, S.removes c) :
    Moves S b (cs.foldl (fun b c => b.forget c) b) := by
  induction cs generalizing b with
  | nil => exact .refl
  | cons c rest ih =>
    rw [forall_mem_cons] at hrem
    exact (forget_moves b hrem.1).trans (ih _ hrem.2)

theorem mem_cleanupExpired {sm : SessionManager} {now : Instant} :
    c ∈ (sm.cleanupExpired now).1 ↔ ∃ e, sm.get c = some e ∧ e.isExpired now = true := by
  simp only [SessionManager.cleanupExpired, List.mem_map, List.mem_filter, Prod.exists,
    FinMap.mem_toPairs, exists_and_right, exists_eq_right, SessionManager.get]

theorem sweepExpired_moves (b : BrokerState)
    (hrem : ∀ c e, b.sessions.get c = some e → e.isExpired b.now = true → S.removes c) :
    Moves S b b.sweepExpired := by
  have hgone : ∀ c ∈ (b.sessions.cleanupExpired b.now).1, S.removes c := by
    intro c hc
    obtain ⟨e, hget, hexp⟩ := mem_cleanupExpired.1 hc
    exact hrem c e hget hexp
  unfold sweepExpired
  refine ReflTransGen.trans ?_ (forgetAll_moves _ hgone)
  refine eraseAll_moves ?_ hgone ?_
  · exact (b.sessions.sessions.toPairs_nodup.sublist (List.Sublist.map _ filter_sublist))
  · intro c hc
    obtain ⟨e, hget, hexp⟩ := mem_cleanupExpired.1 hc
    refine ⟨e, hget, ?_⟩
    by_contra hconn
    simp [SessionEntry.isExpired, hconn] at hexp

end BrokerState

end LumenMQ
