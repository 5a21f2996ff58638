import LumenMQ.Broker.Moves

set_option autoImplicit false

/-! # The moves of a connection

What a connection's task does to the shared state and to its own, move by move, and that every arm
of its main loop, and the way into it, is a sequence of such moves. -/

namespace LumenMQ

open Relation (ReflTransGen)
open Process

/-- The message, if a connection takes it up from the session before. -/
def Effect.replayOf (epoch : Nat) : Effect → Option OutboundPublish
  | .taken k .replay msg => if k = epoch then some msg else none
  | _ => none

namespace Task

variable {t t' : Task} {id : UInt16} {packet : Packet}

/-- The packets a task has reason to write: a PUBLISH without an identifier carries a message that
    it has taken up, one with an identifier is that of a message in flight. -/
def Writable (t : Task) (packet : Packet) : Prop :=
  ∀ p, packet = .publish p →
    (∃ source req, .taken t.epoch source req ∈ t.broker.trace ∧ req.qos = .atMostOnce ∧
      packet = buildPublish req none) ∨
    (∃ id e dup, t.conn.inflight.get id = some e ∧ packet = e.buildPacket id dup)

/-- Two records of a connection that agree on the messages it holds, on its handshakes and on
    whether it has left its loop. -/
structure SameMessages (c c' : Conn) : Prop where
  clientId : c'.clientId = c.clientId
  clean : c'.clean = c.clean
  peer : c'.peer = c.peer
  replay : c'.replay = c.replay
  nextPid : c'.nextPid = c.nextPid
  inflight : c'.inflight = c.inflight
  inboundQos2 : c'.inboundQos2 = c.inboundQos2
  exit : c'.exit = c.exit

/-- The identifier of a QoS 2 message is seen. -/
def receipt (t : Task) (id : UInt16) : Task :=
  t.onConn (fun c => { c with inboundQos2 := (c.inboundQos2.onPublish id).2 })

/-- The identifier of a QoS 2 message may be used again. -/
def release (t : Task) (id : UInt16) : Task :=
  t.onConn (fun c => { c with inboundQos2 := (c.inboundQos2.onPubrel id).2 })

/-- The task has left its loop. -/
def left (t : Task) (x : Exit) : Task := t.onConn (fun c => { c with exit := some x })

inductive Move (S : Scope) (t : Task) : Task → Prop
  | broker (b : BrokerState) (hb : t.broker.Move S b) : Move S t { t with broker := b }
  | write (packet : Packet) (hw : t.Writable packet) (hok : t.sendError packet = none) :
      Move S t (t.write packet)
  | fail (packet : Packet) (e : BrokerError) (hw : t.Writable packet)
      (herr : t.sendError packet = some e) : Move S t (t.note (.sendFailed t.epoch packet e))
  /-- A message is taken out of the channel. -/
  | live (ch : Channel) (req : OutboundPublish) (rest : List OutboundPublish)
      (hch : t.broker.sessions.channels.get t.epoch = some ch) (hbuf : ch.buffer = req :: rest)
      (hsource : S.takesUp .live) :
      Move S t ((t.takeChannel ch req rest).buildOutboundPacket req).2
  /-- A message of the session before is taken up. -/
  | replay (msg : OutboundPublish) (rest : List OutboundPublish)
      (hreplay : t.conn.replay = msg :: rest) (hsource : S.takesUp .replay) :
      Move S t ((t.takeReplay msg rest).buildOutboundPacket msg).2
  /-- A retained message is taken up. -/
  | retained (msg : RetainedMessage) (subQos : QoS) (topic : String)
      (hmsg : t.broker.retain.map.get topic = some msg) (hsource : S.takesUp .retained) :
      Move S t ((t.takeRetained (RetainStore.buildOutbound msg subQos)).buildOutboundPacket
        (RetainStore.buildOutbound msg subQos)).2
  | puback (id : UInt16) (htakes : S.takes (.puback id)) : Move S t (t.puback id)
  | pubrec (id : UInt16) (htakes : S.takes (.pubrec id)) : Move S t (t.pubrec id)
  | pubcomp (id : UInt16) (h : S.completes (t.conn.inflight.get id))
      (htakes : S.takes (.pubcomp id)) : Move S t (t.removeInflight id)
  | retry (hretries : S.retries) : Move S t t.retry
  /-- The identifier of a QoS 2 message is entered. -/
  | receipt (p : Publish) (id : UInt16) (hqos : p.qos = .exactlyOnce) (hid : p.packetId = some id)
      (htakes : S.takes (.publish p)) : Move S t (t.receipt id)
  /-- The identifier of a QoS 2 message is released. -/
  | release (id : UInt16) (htakes : S.takes (.pubrel id)) : Move S t (t.release id)
  /-- The loop is left, on account of the channel only if nobody can send to it any more. -/
  | leave (x : Exit) (h : x = .closed → t.senderAlive = false) : Move S t (t.left x)
  /-- Neither messages nor handshakes are concerned. -/
  | books (c : Conn) (h : SameMessages t.conn c) (hfilters : S.exceeds ∨ c.myFilters.card ≤
      max t.conn.myFilters.card t.broker.config.broker.maxSubscriptionsPerClient) :
      Move S t { t with conn := c }

abbrev Moves (S : Scope) : Task → Task → Prop := ReflTransGen (Move S)

variable {S : Scope} {t₀ : Task}

theorem broker_moves {b : BrokerState} (h : t.broker.Moves S b) :
    Moves S t { t with broker := b } := by
  induction h with
  | refl => exact .refl
  | tail _ hstep ih => exact ih.tail (.broker _ hstep)

/-! ## Building and sending -/

/-- What can come of building a packet. -/
inductive Builds (t : Task) (req : OutboundPublish) : Option Packet × Task → Prop
  | plain (hqos : req.qos = .atMostOnce) : Builds t req (some (buildPublish req none), t)
  /-- There is no room, or no identifier. -/
  | refused (hqos : req.qos ≠ .atMostOnce) (next : UInt16) :
      Builds t req (none, (t.onConn (fun c => { c with nextPid := next })).refuse req)
  | stored (hqos : req.qos ≠ .atMostOnce) (pid next : UInt16) (hpid : pid ≠ 0)
      (hroom : t.conn.inflight.entries.length < t.broker.config.broker.maxInflight)
      (hfree : t.conn.inflight.get pid = none) :
      Builds t req (some (buildPublish req (some pid)),
        (t.onConn (fun c => { c with nextPid := next })).store pid req)

theorem buildOutboundPacket_builds (t : Task) (req : OutboundPublish) :
    t.Builds req (t.buildOutboundPacket req) := by
  unfold buildOutboundPacket
  split_ifs with hqos hfull
  · exact .plain hqos
  · exact .refused hqos t.conn.nextPid
  · dsimp only
    split_ifs with hpid
    · exact .refused hqos _
    · exact .stored hqos _ _ hpid (not_le.1 hfull) (get_allocatePid hpid)

/-- Nothing differs but the handshakes in flight, the next identifier and the trace. -/
def Exchanges (t t' : Task) : Prop :=
  ∃ nextPid inflight trace, t' = { t with
    broker := { t.broker with trace }, conn := { t.conn with nextPid, inflight } }

theorem exchanges_buildOutboundPacket (t : Task) (req : OutboundPublish) :
    t.Exchanges (t.buildOutboundPacket req).2 := by
  have hbuild := t.buildOutboundPacket_builds req
  generalize t.buildOutboundPacket req = built at hbuild ⊢
  cases hbuild <;> exact ⟨_, _, _, rfl⟩

theorem exchanges_puback (t : Task) (id : UInt16) : t.Exchanges (t.puback id) := by
  unfold puback noteAck
  split
  · split <;> exact ⟨_, _, _, rfl⟩
  · exact ⟨_, _, _, rfl⟩

theorem exchanges_pubrec (t : Task) (id : UInt16) : t.Exchanges (t.pubrec id) := by
  unfold pubrec noteAck
  split
  · split <;> exact ⟨_, _, _, rfl⟩
  · exact ⟨_, _, _, rfl⟩

namespace Exchanges

variable (h : t.Exchanges t')

include h

theorem epoch : t'.epoch = t.epoch := by
  obtain ⟨_, _, _, rfl⟩ := h
  rfl

theorem broker : ∃ trace, t'.broker = { t.broker with trace } := by
  obtain ⟨_, _, trace, rfl⟩ := h
  exact ⟨trace, rfl⟩

theorem clientId : t'.conn.clientId = t.conn.clientId := by
  obtain ⟨_, _, _, rfl⟩ := h
  rfl

theorem replay : t'.conn.replay = t.conn.replay := by
  obtain ⟨_, _, _, rfl⟩ := h
  rfl

end Exchanges

/-- What building a packet does to the trace, and what it builds. -/
theorem buildOutboundPacket_frame (t : Task) (req : OutboundPublish) :
    t.broker.trace <:+ (t.buildOutboundPacket req).2.broker.trace ∧
      ∀ packet, (t.buildOutboundPacket req).1 = some packet →
        ∃ pid, (pid.isSome = true ↔ req.qos ≠ .atMostOnce) ∧ packet = buildPublish req pid := by
  have hbuild := t.buildOutboundPacket_builds req
  generalize t.buildOutboundPacket req = built at hbuild ⊢
  cases hbuild with
  | plain hqos =>
    exact ⟨List.suffix_rfl, fun packet h => ⟨none, by simp [hqos], (Option.some.inj h).symm⟩⟩
  | refused hqos next => exact ⟨List.suffix_cons _ _, fun packet h => absurd h (by simp)⟩
  | stored hqos pid next =>
    exact ⟨List.suffix_rfl, fun packet h =>
      ⟨some pid, by simp [hqos], (Option.some.inj h).symm⟩⟩

theorem Move.epoch_eq (h : t.Move S t') : t'.epoch = t.epoch := by
  cases h with
  | live | replay | retained => exact (exchanges_buildOutboundPacket ..).epoch
  | puback id => exact (t.exchanges_puback id).epoch
  | pubrec id => exact (t.exchanges_pubrec id).epoch
  | _ => rfl

/-- The messages of the session before that the connection has taken up, newest first. -/
def replayed (t : Task) : List OutboundPublish := t.broker.trace.filterMap (Effect.replayOf t.epoch)

theorem noteAck_conn (t : Task) (e : OutboundInflight) : (t.noteAck e).conn = t.conn := by
  unfold noteAck
  split <;> rfl

theorem Move.clientId_eq (h : t.Move S t') : t'.conn.clientId = t.conn.clientId := by
  cases h with
  | live | replay | retained => exact (exchanges_buildOutboundPacket ..).clientId
  | puback id => exact (t.exchanges_puback id).clientId
  | pubrec id => exact (t.exchanges_pubrec id).clientId
  | books c hsame => exact hsame.clientId
  | _ => rfl

theorem moves_epoch (h : Moves S t t') : t'.epoch = t.epoch := by
  induction h with
  | refl => rfl
  | tail _ hstep ih => exact hstep.epoch_eq.trans ih

theorem moves_clientId (h : Moves S t t') : t'.conn.clientId = t.conn.clientId := by
  induction h with
  | refl => rfl
  | tail _ hstep ih => exact hstep.clientId_eq.trans ih

/-- What a move may add to the trace. -/
inductive Adds (S : Scope) (t : Task) : Effect → Prop
  | broker (e : Effect) (h : BrokerState.Adds S e) : Adds S t e
  | wrote (packet : Packet) (hw : t.Writable packet) (hok : t.sendError packet = none) :
      Adds S t (.wrote t.epoch packet)
  | sendFailed (packet : Packet) (error : BrokerError) (hw : t.Writable packet)
      (herr : t.sendError packet = some error) : Adds S t (.sendFailed t.epoch packet error)
  | taken (source : Source) (msg : OutboundPublish)
      (h : source = .replay → msg ∈ t.conn.replay) (hsource : S.takesUp source) :
      Adds S t (.taken t.epoch source msg)
  | acknowledged (msg : OutboundPublish) : Adds S t (.acknowledged t.conn.clientId msg)
  | discarded (msg : OutboundPublish) (limit : Limit) :
      Adds S t (.discarded t.conn.clientId msg limit)

theorem Adds.epoch_eq {x : Effect} (h : t.Adds S x) : x.epoch = none ∨ x.epoch = some t.epoch := by
  cases h with
  | broker x h => exact .inl h.epoch_eq
  | acknowledged | discarded => exact .inl rfl
  | wrote | sendFailed | taken => exact .inr rfl

theorem buildOutboundPacket_extends (t : Task) (req : OutboundPublish) :
    Extends (fun e => e = .discarded t.conn.clientId req .inflightFull) t.broker.trace
      (t.buildOutboundPacket req).2.broker.trace := by
  have hbuild := t.buildOutboundPacket_builds req
  generalize t.buildOutboundPacket req = built at hbuild ⊢
  cases hbuild with
  | plain | stored => exact .refl _
  | refused => exact .cons (P := fun e => e = _) rfl t.broker.trace

theorem noteAck_extends (t : Task) (e : OutboundInflight) :
    Extends (Adds S t) t.broker.trace (t.noteAck e).broker.trace := by
  unfold noteAck
  split
  · exact .cons (.acknowledged e.message) _
  · exact .refl _

/-- A move adds to the trace, at its front. -/
theorem Move.extends (h : t.Move S t') : Extends (Adds S t) t.broker.trace t'.broker.trace := by
  -- a message is taken up and a packet built for it
  have hbuilt : ∀ (t1 : Task) {source : Source} {req : OutboundPublish},
      t1.broker.trace = .taken t.epoch source req :: t.broker.trace →
      t1.conn.clientId = t.conn.clientId → (source = .replay → req ∈ t.conn.replay) →
      S.takesUp source →
      Extends (Adds S t) t.broker.trace (t1.buildOutboundPacket req).2.broker.trace := by
    intro t1 source req htrace hcl hrep hsrc
    have htaken : Extends (Adds S t) t.broker.trace t1.broker.trace :=
      htrace ▸ .cons (.taken source req hrep hsrc) _
    refine htaken.trans ((t1.buildOutboundPacket_extends req).mono ?_)
    rintro e rfl
    exact hcl ▸ .discarded req _
  cases h with
  | broker b hb => exact hb.extends.mono (fun e he => .broker e he)
  | write packet hw hok => exact .cons (.wrote packet hw hok) _
  | fail packet error hw herr => exact .cons (.sendFailed packet error hw herr) _
  | live ch req rest hch hbuf hsrc =>
    exact hbuilt (t.takeChannel ch req rest) rfl rfl (by simp) hsrc
  | replay msg rest hrep hsrc =>
    exact hbuilt (t.takeReplay msg rest) rfl rfl (fun _ => hrep ▸ List.mem_cons_self) hsrc
  | retained msg subQos topic hmsg hsrc =>
    exact hbuilt (t.takeRetained _) rfl rfl (by simp) hsrc
  | puback id =>
    unfold Task.puback
    split
    · exact noteAck_extends ..
    · exact .refl _
  | pubrec id =>
    unfold Task.pubrec
    split
    · exact noteAck_extends ..
    · exact .refl _
  | retry =>
    refine .append ?_ _
    intro e he
    obtain ⟨msg, -, rfl⟩ := List.mem_map.1 he
    exact .discarded msg _
  | pubcomp | receipt | release | leave | books => exact .refl _

theorem Move.trace (h : t.Move S t') : t.broker.trace <:+ t'.broker.trace :=
  h.extends.suffix

/-- A move of a connection is one of the shared state, or changes nothing there but the channels and
    the trace. -/
theorem Move.shared (h : t.Move S t') : t.broker.Move S t'.broker ∨ ∃ channels trace,
      t'.broker = { t.broker with sessions := { t.broker.sessions with channels }, trace } := by
  have hbuilt : ∀ (t1 : Task) (req : OutboundPublish) {channels : FinMap Nat Channel}
      {trace : List Effect},
      t1.broker = { t.broker with sessions := { t.broker.sessions with channels }, trace } →
      ∃ channels trace, (t1.buildOutboundPacket req).2.broker =
        { t.broker with sessions := { t.broker.sessions with channels }, trace } := by
    intro t1 req channels trace h1
    obtain ⟨trace', hbr⟩ := (t1.exchanges_buildOutboundPacket req).broker
    exact ⟨channels, trace', by rw [hbr, h1]⟩
  cases h with
  | broker b hb => exact .inl hb
  | live ch req rest => exact .inr (hbuilt (t.takeChannel ch req rest) req rfl)
  | replay msg rest => exact .inr (hbuilt (t.takeReplay msg rest) msg rfl)
  | retained msg subQos topic => exact .inr (hbuilt (t.takeRetained _) _ rfl)
  | puback id => exact .inr ⟨t.broker.sessions.channels, (t.exchanges_puback id).broker⟩
  | pubrec id => exact .inr ⟨t.broker.sessions.channels, (t.exchanges_pubrec id).broker⟩
  | write | fail | retry | pubcomp | receipt | release | leave | books => exact .inr ⟨_, _, rfl⟩

theorem Move.config_eq (h : t.Move S t') : t'.broker.config = t.broker.config := by
  rcases h.shared with hb | ⟨channels, trace, hb⟩
  · exact hb.limits_eq.1
  · rw [hb]

/-! ### The handshakes in flight -/

theorem store_get (t : Task) (pid id : UInt16) (req : OutboundPublish) :
    (t.store pid req).conn.inflight.get id =
      if id = pid then
        some (OutboundInflight.new req.topic req.payload req.qos req.retain t.broker.now)
      else t.conn.inflight.get id :=
  FinMap.get_insert ..

/-- An entry that a retry leaves has the message it had. -/
theorem get_retry {e' : OutboundInflight} (h : t.retry.conn.inflight.get id = some e') :
    ∃ e, t.conn.inflight.get id = some e ∧ e'.message = e.message := by
  change t.retryExpired.table.get id = some e' at h
  unfold Task.retryExpired at h
  rw [OutboundInflightTable.get_retryExpired] at h
  obtain ⟨e, hget, h⟩ := Option.bind_eq_some_iff.1 h
  refine ⟨e, hget, ?_⟩
  split at h
  · simp at h
  · rw [← Option.some.inj h]
    split <;> rfl

/-! ### Sending -/

/-- A packet that was built from a message taken up may be written. -/
theorem writable_built (source : Source) {req : OutboundPublish}
    (htaken : .taken t.epoch source req ∈ t.broker.trace)
    (h : (t.buildOutboundPacket req).1 = some packet) :
    (t.buildOutboundPacket req).2.Writable packet := by
  have hbuild := t.buildOutboundPacket_builds req
  generalize t.buildOutboundPacket req = built at hbuild h ⊢
  intro p _
  cases hbuild with
  | plain hqos => exact .inl ⟨source, req, htaken, hqos, (Option.some.inj h).symm⟩
  | refused => simp at h
  | stored hqos pid next =>
    refine .inr ⟨pid, _, false, (store_get ..).trans (if_pos rfl), ?_⟩
    exact (Option.some.inj h).symm

theorem writable_of_ne_publish (h : ∀ p, packet ≠ .publish p) : t.Writable packet :=
  fun p hp => absurd hp (h p)

/-- What writing, or failing to, leaves alone. -/
structure Undisturbed (t t' : Task) : Prop where
  epoch : t'.epoch = t.epoch
  inflight : t'.conn.inflight = t.conn.inflight
  replay : t'.conn.replay = t.conn.replay
  retain : t'.broker.retain = t.broker.retain
  trace : t.broker.trace <:+ t'.broker.trace
  replayed : t'.replayed = t.replayed

theorem Undisturbed.refl (t : Task) : Undisturbed t t :=
  ⟨rfl, rfl, rfl, rfl, List.suffix_rfl, rfl⟩

theorem Undisturbed.trans {t1 t2 t3 : Task} (h : Undisturbed t1 t2) (h' : Undisturbed t2 t3) :
    Undisturbed t1 t3 :=
  ⟨h'.epoch.trans h.epoch, h'.inflight.trans h.inflight, h'.replay.trans h.replay,
    h'.retain.trans h.retain, h.trace.trans h'.trace, h'.replayed.trans h.replayed⟩

theorem undisturbed_leave (t : Task) (x : Exit) : Undisturbed t (t.left x) :=
  ⟨rfl, rfl, rfl, rfl, List.suffix_rfl, rfl⟩

theorem Undisturbed.writable (hu : Undisturbed t t') (h : t.Writable packet) :
    t'.Writable packet := by
  intro p hp
  rcases h p hp with ⟨source, req, htaken, hqos, hpkt⟩ | hold
  · exact .inl ⟨source, req, hu.epoch.symm ▸ hu.trace.subset htaken, hqos, hpkt⟩
  · exact .inr (hu.inflight.symm ▸ hold)

/-- A packet that the encoder accepts can be sent as long as the transport lasts. -/
theorem sendError_of_encode (hok : (t.codec.encode packet []).1 = .ok ()) :
    t.sendError packet = if t.conn.credit = some 0 then some (.io "broken pipe") else none := by
  unfold sendError
  rw [hok]
  rcases t.conn.credit with _ | _ | n <;> simp

/-- The transport takes so many packets, of which this is one. -/
theorem sendError_of_credit {n : Nat} (hok : (t.codec.encode packet []).1 = .ok ())
    (hcredit : ∀ k, t.conn.credit = some k → n + 1 ≤ k) : t.sendError packet = none := by
  rw [sendError_of_encode hok, if_neg]
  intro h
  exact absurd (hcredit 0 h) (Nat.not_succ_le_zero n)

theorem write_credit {n : Nat} (hcredit : ∀ k, t.conn.credit = some k → n + 1 ≤ k) (packet : Packet) :
    ∀ k, (t.write packet).conn.credit = some k → n ≤ k := by
  intro k hk
  obtain ⟨k0, hk0, rfl⟩ := Option.map_eq_some_iff.1 hk
  have hle := hcredit k0 hk0
  omega

/-- What `send` comes to: the packet is written, or the failure is noted. -/
theorem wp_send_cases {Q : Except BrokerError Unit → Task → Prop}
    (hwrite : t.sendError packet = none → Q (.ok ()) (t.write packet))
    (hfail : ∀ e, t.sendError packet = some e →
      Q (.error e) (t.note (.sendFailed t.epoch packet e))) : wp (send packet) Q t := by
  unfold send
  rw [wp_read_bind]
  cases herr : t.sendError packet with
  | none => exact (wp_update ..).2 (hwrite herr)
  | some e =>
    dsimp only
    rw [wp_update_bind]
    exact (wp_fail ..).2 (hfail e herr)

/-- What is left to do is done unless the connection is on its way out. -/
theorem wp_unlessLeft {x : Handler Unit} {Q : Except BrokerError Unit → Task → Prop}
    (hin : t.conn.exit = none → wp x Q t) (hleft : t.conn.exit ≠ none → Q (.ok ()) t) :
    wp (unlessLeft x) Q t := by
  unfold unlessLeft
  rw [wp_read_bind]
  refine wp_when (fun h => hin (Option.isNone_iff_eq_none.1 h)) (fun h => hleft ?_)
  intro hnone
  rw [hnone] at h
  exact absurd h (by simp)

/-- Sending a packet there is reason to write. -/
theorem wp_send (ht : Moves S t₀ t) (hw : t.Writable packet) :
    wp (send packet) (fun _ t' => Moves S t₀ t' ∧ Undisturbed t t') t := by
  refine wp_send_cases (fun herr => ?_) (fun e herr => ?_)
  · exact ⟨ht.tail (.write packet hw herr), rfl, rfl, rfl, rfl, List.suffix_cons _ _, rfl⟩
  · exact ⟨ht.tail (.fail packet e hw herr), rfl, rfl, rfl, rfl, List.suffix_cons _ _, rfl⟩

theorem keeps_send (h : ∀ p, packet ≠ .publish p) : Keeps (Moves S t₀) (send packet) :=
  fun _ ht => wp_mono (wp_send ht (writable_of_ne_publish h)) (fun _ _ h => h.1)

theorem leave_moves {x : Exit} (ht : Moves S t₀ t) (hx : x ≠ .closed) : Moves S t₀ (t.left x) :=
  ht.tail (.leave x (fun h => absurd h hx))

theorem keeps_leave {x : Exit} (hx : x ≠ .closed) : Keeps (Moves S t₀) (leave x) :=
  Keeps.update (fun _ ht => leave_moves ht hx)

theorem wp_sendOrLeave (ht : Moves S t₀ t) (hw : t.Writable packet) :
    wp (sendOrLeave packet) (fun r t' => r = .ok () ∧ Moves S t₀ t' ∧ Undisturbed t t') t := by
  unfold sendOrLeave
  rw [wp_attempt_bind]
  refine wp_mono (wp_send ht hw) ?_
  intro r t' h
  cases r with
  | ok _ => exact (wp_pure ..).2 ⟨rfl, h⟩
  | error _ =>
    exact (wp_update ..).2 ⟨rfl, leave_moves h.1 (by simp), h.2.trans (undisturbed_leave t' _)⟩

theorem wp_sendBuilt {built : Option Packet} (ht : Moves S t₀ t)
    (hw : ∀ packet, built = some packet → t.Writable packet) :
    wp (sendBuilt built) (fun _ => Moves S t₀) t := by
  cases built with
  | none => exact (wp_pure ..).2 ht
  | some packet => exact wp_mono (wp_sendOrLeave ht (hw packet rfl)) (fun _ _ h => h.2.1)

/-! ## Inbound publications -/

theorem keeps_firstReceipt (p : Publish) (htake : S.takes (.publish p)) (b : BrokerState) :
    Keeps (fun t => Moves S t₀ t ∧ t.broker = b) (firstReceipt p) := by
  unfold firstReceipt
  cases hqos : p.qos with
  | exactlyOnce =>
    cases hid : p.packetId with
    | some id =>
      intro t ht
      rw [wp_act]
      exact ⟨ht.1.tail (.receipt p id hqos hid htake), ht.2⟩
    | none => exact Keeps.fail _
  | atMostOnce | atLeastOnce => exact Keeps.pure _

theorem wp_routeInboundPublish {r : Routed} (ht : Moves S t₀ t) (hroute : S.routes r)
    (hto : ∀ c, c ≠ r.publisher → t.broker.reaches r.topic c = true → S.delivers c) :
    wp (routeInboundPublish r) (fun _ => Moves S t₀) t := by
  unfold routeInboundPublish
  rw [wp_tryUpdate]
  intro t' h
  obtain ⟨b, hb, rfl⟩ := Option.map_eq_some_iff.1 h
  exact ht.trans (broker_moves (BrokerState.route_moves hroute hto hb))

theorem keeps_answerPublish (p : Publish) : Keeps (Moves S t₀) (answerPublish p) := by
  unfold answerPublish
  split
  · exact keeps_send (by simp)
  · exact keeps_send (by simp)
  · exact Keeps.pure _

theorem wp_securityRejects (p : Publish) (ht : Moves S t₀ t) :
    wp (securityRejects p) (fun r t' => Moves S t₀ t' ∧
      (∃ security, t'.broker = { t.broker with security }) ∧
      (r = .ok false → (t.broker.security.checkPublish t.broker.now t.conn.clientId
        p.payload.length t.broker.config.broker.maxPacketSize).1 = .ok ())) t := by
  unfold securityRejects
  rw [wp_act]
  generalize t.broker.security.checkPublish t.broker.now t.conn.clientId p.payload.length
    t.broker.config.broker.maxPacketSize = checked
  refine ⟨ht.tail (.broker _ (.guards _ t.broker.plugin)), ⟨_, rfl⟩, ?_⟩
  intro h
  rcases hcheck : checked.1 with e | ⟨⟨⟩⟩
  · simp [hcheck, Except.isOk, Except.toBool] at h
  · rfl

theorem wp_pluginRejects (t : Task) (securityRejected : Bool) (p : Publish) :
    wp (pluginRejects securityRejected p) (fun r t' => t' = t ∧
      (r = .ok false → securityRejected = false →
        t.broker.plugin.checkPublish p.topic p.payload = .ok ())) t := by
  unfold pluginRejects
  rw [wp_read_bind, wp_pure]
  refine ⟨rfl, ?_⟩
  rintro h rfl
  rcases hcheck : t.broker.plugin.checkPublish p.topic p.payload with e | ⟨⟨⟩⟩
  · simp [hcheck, Except.isOk, Except.toBool] at h
  · rfl

/-- A PUBLISH is routed only if both guards accept it. -/
theorem wp_handlePublish {p : Publish} (ht : Moves S t₀ t) (htake : S.takes (.publish p))
    (hroute : (t.inboundPublish p).Passes → S.routes (t.inboundPublish p))
    (hto : ∀ c, c ≠ t.conn.clientId → t.broker.reaches p.topic c = true → S.delivers c) :
    wp (handlePublish p) (fun _ => Moves S t₀) t := by
  unfold handlePublish
  rw [wp_read_bind]
  refine wp_seq (wp_securityRejects p ht) ?_ (fun _ _ h => h.1)
  rintro securityRejected t1 ⟨ht1, ⟨security, hb1⟩, hsec⟩
  refine wp_seq (wp_pluginRejects t1 securityRejected p) ?_ (fun _ _ h => h.1 ▸ ht1)
  rintro pluginRejected t2 ⟨rfl, hpass⟩
  refine wp_seq (keeps_firstReceipt p htake t2.broker t2 ⟨ht1, rfl⟩) ?_ (fun _ _ h => h.1)
  rintro fresh t3 ⟨ht3, hb3⟩
  -- the message is routed on the subscriptions that it has found
  have hrouted : wp (when (fresh && !securityRejected && !pluginRejected)
      (routeInboundPublish (t.inboundPublish p))) (fun _ => Moves S t₀) t3 := by
    refine wp_when (fun hall => ?_) (fun _ => ht3)
    simp only [Bool.and_eq_true, Bool.not_eq_true'] at hall
    obtain ⟨⟨-, rfl⟩, rfl⟩ := hall
    have hacc : t.broker.plugin.checkPublish p.topic p.payload = .ok () := by
      rw [show t.broker.plugin = t2.broker.plugin by rw [hb1]]
      exact hpass rfl rfl
    refine wp_routeInboundPublish ht3 (hroute ⟨hsec rfl, hacc⟩) (fun c hc hreach => ?_)
    rw [hb3, hb1] at hreach
    exact hto c hc hreach
  exact wp_seq hrouted (fun _ t4 ht4 => keeps_answerPublish p t4 ht4) (fun _ _ ht4 => ht4)

/-! ## Subscribing -/

theorem keeps_subscribeTopic (s : SubscribeTopic) (hsub : S.subscribes t₀.conn.clientId) :
    Keeps (Moves S t₀) (subscribeTopic s) := by
  refine Keeps.read_bind ?_
  intro t ht
  split_ifs with hfull
  · exact (wp_pure ..).2 ht
  · exact (wp_pure ..).2 ht
  · split
    · exact (wp_pure ..).2 ht
    · next heq =>
      rw [wp_update_bind, wp_pure]
      refine (ht.tail (.broker _ (.subscribe _ _ _ _ (moves_clientId ht ▸ hsub) heq))).tail
        (.books _ ⟨rfl, rfl, rfl, rfl, rfl, rfl, rfl, rfl⟩ (.inr (le_max_iff.2 ?_)))
      by_cases hmem : s.topicFilter ∈ t.conn.myFilters
      · exact .inl (Finset.card_insert_of_mem hmem).le
      · refine .inr ((Finset.card_insert_le ..).trans ?_)
        exact not_le.1 (fun hle => hfull ⟨hmem, hle⟩)

theorem keeps_persistSnapshot
    (h : S.subscribes t₀.conn.clientId ∨ S.unsubscribes t₀.conn.clientId) :
    Keeps (Moves S t₀) persistSnapshot :=
  Keeps.update (fun _ ht => ht.tail (.broker _ (.persist _ (.inr (moves_clientId ht ▸ h)))))

/-- The retained messages stay what they are while some of them are delivered. -/
theorem keeps_deliverRetained {retain : RetainStore} {msg : RetainedMessage} {topic : String}
    (subQos : QoS) (hsrc : S.takesUp .retained) (hmsg : retain.map.get topic = some msg) :
    Keeps (fun t => Moves S t₀ t ∧ t.broker.retain = retain) (deliverRetained subQos msg) := by
  refine Keeps.act_bind ?_
  rintro t ⟨ht, rfl⟩
  have ht' := ht.tail (.retained msg subQos topic hmsg hsrc)
  have hret : ((t.takeRetained (RetainStore.buildOutbound msg subQos)).buildOutboundPacket
      (RetainStore.buildOutbound msg subQos)).2.broker.retain = t.broker.retain := by
    obtain ⟨trace, hbr⟩ := (exchanges_buildOutboundPacket ..).broker
    rw [hbr]
    rfl
  rcases hbuilt : ((t.takeRetained (RetainStore.buildOutbound msg subQos)).buildOutboundPacket
    (RetainStore.buildOutbound msg subQos)).1 with _ | packet
  · exact (wp_pure ..).2 ⟨ht', hret⟩
  · have hw := writable_built .retained List.mem_cons_self hbuilt
    dsimp only
    rw [wp_attempt_bind]
    refine wp_mono (wp_send ht' hw) ?_
    intro r t1 h1
    cases r with
    | ok _ => exact (wp_pure ..).2 ⟨h1.1, h1.2.retain.trans hret⟩
    | error _ => exact (wp_fail ..).2 ⟨h1.1, h1.2.retain.trans hret⟩

theorem keeps_deliverAllRetained (accepted : String × QoS) (hsrc : S.takesUp .retained) :
    Keeps (Moves S t₀) (deliverAllRetained accepted) := by
  refine Keeps.read_bind ?_
  intro t ht
  have hkeeps : Keeps (fun t' => Moves S t₀ t' ∧ t'.broker.retain = t.broker.retain)
      (forEach (deliverRetained accepted.2) (t.broker.retain.matchesFilter accepted.1)) := by
    refine Keeps.forEach ?_
    intro msg hmsg
    simp only [RetainStore.matchesFilter, List.mem_filter, List.mem_map, Prod.exists,
      FinMap.mem_toPairs, exists_eq_right] at hmsg
    obtain ⟨⟨topic, hget⟩, _⟩ := hmsg
    exact keeps_deliverRetained accepted.2 hsrc hget
  exact wp_mono (hkeeps t ⟨ht, rfl⟩) (fun _ _ h => h.1)

theorem keeps_handleSubscribe (s : Subscribe) (hsub : S.subscribes t₀.conn.clientId)
    (hsrc : S.takesUp .retained) : Keeps (Moves S t₀) (handleSubscribe s) := by
  refine Keeps.bind (Keeps.collect (fun a _ => keeps_subscribeTopic a hsub)) (fun results => ?_)
  refine Keeps.bind (keeps_send (by simp)) (fun _ => ?_)
  exact Keeps.bind (Keeps.forEach (fun a _ => keeps_deliverAllRetained a hsrc))
    (fun _ => keeps_persistSnapshot (.inl hsub))

theorem keeps_unsubscribeFilter (filter : String) (hunsub : S.unsubscribes t₀.conn.clientId) :
    Keeps (Moves S t₀) (unsubscribeFilter filter) :=
  Keeps.update (fun _ ht =>
    (ht.tail (.broker _ (.unsubscribe _ filter (moves_clientId ht ▸ hunsub)))).tail
      (.books _ ⟨rfl, rfl, rfl, rfl, rfl, rfl, rfl, rfl⟩
        (.inr (le_max_of_le_left (Finset.card_erase_le ..)))))

theorem keeps_handleUnsubscribe (u : Unsubscribe) (hunsub : S.unsubscribes t₀.conn.clientId) :
    Keeps (Moves S t₀) (handleUnsubscribe u) :=
  Keeps.bind (Keeps.forEach (fun f _ => keeps_unsubscribeFilter f hunsub))
    (fun _ => Keeps.bind (keeps_send (by simp)) (fun _ => keeps_persistSnapshot (.inr hunsub)))

/-! ## Packets -/

theorem keeps_handlePubrec (htake : S.takes (.pubrec id)) : Keeps (Moves S t₀) (handlePubrec id) :=
  Keeps.bind (Keeps.update (fun _ ht => ht.tail (.pubrec id htake))) (fun _ => keeps_send (by simp))

theorem keeps_handlePubrel (htake : S.takes (.pubrel id)) : Keeps (Moves S t₀) (handlePubrel id) :=
  Keeps.bind (Keeps.update (fun _ ht => ht.tail (.release id htake)))
    (fun _ => keeps_send (by simp))

/-- What a packet that comes in at `t` may do. -/
structure Serves (S : Scope) (t : Task) (packet : Packet) : Prop where
  takes : S.takes packet
  routes : ∀ p, packet = .publish p → (t.inboundPublish p).Passes → S.routes (t.inboundPublish p)
  delivers : ∀ p, packet = .publish p → ∀ c, c ≠ t.conn.clientId →
    t.broker.reaches p.topic c = true → S.delivers c
  subscribes : ∀ s, packet = .subscribe s → S.subscribes t.conn.clientId
  retained : ∀ s, packet = .subscribe s → S.takesUp .retained
  unsubscribes : ∀ u, packet = .unsubscribe u → S.unsubscribes t.conn.clientId
  completes : ∀ id, packet = .pubcomp id → S.completes (t.conn.inflight.get id)

theorem wp_handlePacket (ht : Moves S t₀ t) (h : Serves S t packet) :
    wp (handlePacket packet) (fun _ => Moves S t₀) t := by
  unfold handlePacket
  cases packet with
  | publish p =>
    exact wp_seq (wp_handlePublish ht h.takes (h.routes p rfl) (h.delivers p rfl))
      (fun _ _ ht' => (wp_pure ..).2 ht') (fun _ _ ht' => ht')
  | subscribe s =>
    exact Keeps.bind (keeps_handleSubscribe s (moves_clientId ht ▸ h.subscribes s rfl)
      (h.retained s rfl)) (fun _ => Keeps.pure _) t ht
  | unsubscribe u =>
    exact Keeps.bind (keeps_handleUnsubscribe u (moves_clientId ht ▸ h.unsubscribes u rfl))
      (fun _ => Keeps.pure _) t ht
  | pingreq => exact Keeps.bind (keeps_send (by simp)) (fun _ => Keeps.pure _) t ht
  | disconnect => exact (wp_pure ..).2 ht
  | puback id =>
    exact Keeps.bind (Keeps.update (fun _ ht => ht.tail (.puback id h.takes)))
      (fun _ => Keeps.pure _) t ht
  | pubrec id => exact Keeps.bind (keeps_handlePubrec h.takes) (fun _ => Keeps.pure _) t ht
  | pubrel id => exact Keeps.bind (keeps_handlePubrel h.takes) (fun _ => Keeps.pure _) t ht
  | pubcomp id =>
    dsimp only
    rw [wp_update_bind, wp_pure]
    exact ht.tail (.pubcomp id (h.completes id rfl) h.takes)
  | connect _ | connack _ | suback _ | unsuback _ | pingresp => exact (wp_fail ..).2 ht

/-- The time of the last packet plays no part in what a packet may do. -/
theorem wp_serve (ht : Moves S t₀ t) (h : Serves S t packet) :
    wp (serve packet) (fun _ => Moves S t₀) t := by
  unfold serve
  rw [wp_update_bind, wp_attempt_bind]
  have ht' := ht.tail (.books { t.conn with lastActivity := t.broker.now }
    ⟨rfl, rfl, rfl, rfl, rfl, rfl, rfl, rfl⟩ (.inr (le_max_left ..)))
  refine wp_mono (wp_handlePacket ht' ⟨h.takes, h.routes, h.delivers, h.subscribes, h.retained,
    h.unsubscribes, h.completes⟩) ?_
  intro r t1 ht1
  rcases r with e | ⟨_ | _⟩
  · exact keeps_leave (by simp) t1 ht1
  · exact (wp_pure ..).2 ht1
  · exact keeps_leave (by simp) t1 ht1

/-! ## The arms -/

/-- The packet at the front of the bytes received. -/
def nextInbound (t : Task) : Option Packet :=
  match (t.codec.decode t.conn.buffer).1 with
  | .ok (some packet) => some packet
  | _ => none

theorem wp_inboundArm (streamEnded : Bool) (ht : Moves S t₀ t)
    (h : ∀ packet, t.nextInbound = some packet → Serves S t packet) :
    wp (inboundArm streamEnded) (fun _ => Moves S t₀) t := by
  unfold inboundArm nextPacket
  rw [wp_act_bind]
  unfold nextInbound at h
  rcases hdec : t.codec.decode t.conn.buffer with ⟨result, buffer⟩
  simp only [hdec] at h
  have ht' := ht.tail (.books { t.conn with buffer } ⟨rfl, rfl, rfl, rfl, rfl, rfl, rfl, rfl⟩
    (.inr (le_max_left ..)))
  change wp _ _ _
  rcases result with e | _ | packet
  · exact keeps_leave (by simp) _ ht'
  · exact Keeps.when (fun _ => keeps_leave (by simp)) _ ht'
  · obtain ⟨htake, hroutes, hdel, hsub, hret, hunsub, hcomp⟩ := h packet rfl
    exact wp_serve ht' ⟨htake, hroutes, hdel, hsub, hret, hunsub, hcomp⟩

/-- What the loop makes of a packet that has been handled. -/
def afterPacket (t : Task) : Except BrokerError Control → Task
  | .ok .continue => t
  | .ok .disconnect => t.left .disconnect
  | .error _ => t.left .abnormal

/-- The task once it has taken the packet at the front of the bytes received. -/
def received (t : Task) : Task :=
  t.onConn (fun c =>
    { c with buffer := (t.codec.decode t.conn.buffer).2, lastActivity := t.broker.now })

/-- A complete packet is handled, whatever it is. -/
theorem inboundArm_eq (streamEnded : Bool) (hnext : t.nextInbound = some packet) :
    inboundArm streamEnded t =
      (handlePacket packet t.received).map (fun result => (.ok (), result.2.afterPacket result.1)) := by
  unfold nextInbound at hnext
  unfold inboundArm nextPacket
  rw [act_bind_apply]
  rcases hdec : t.codec.decode t.conn.buffer with ⟨result, buffer⟩
  rw [hdec] at hnext
  rcases result with e | _ | packet'
  · simp at hnext
  · simp at hnext
  · rw [Option.some.injEq] at hnext
    subst hnext
    show serve packet' (t.onConn (fun c => { c with buffer })) = _
    unfold serve received
    rw [update_bind_apply, attempt_bind_apply, hdec]
    show (handlePacket packet' _).bind _ = _
    rw [Option.map_eq_bind]
    refine Option.bind_congr ?_
    rintro ⟨r, t'⟩ -
    rcases r with e | _ | _ <;> rfl

theorem sameMessages_received (t : Task) : SameMessages t.conn t.received.conn :=
  ⟨rfl, rfl, rfl, rfl, rfl, rfl, rfl, rfl⟩

theorem wp_inboundArm_next {Q : Task → Prop} (streamEnded : Bool)
    (hnext : t.nextInbound = some packet) (hhandle : ∀ conn, SameMessages t.conn conn →
      wp (handlePacket packet) (fun r t' => Q (t'.afterPacket r)) { t with conn }) :
    wp (inboundArm streamEnded) (fun _ => Q) t := by
  intro r t' hrun
  rw [inboundArm_eq streamEnded hnext] at hrun
  obtain ⟨⟨r1, t1⟩, hrun1, heq⟩ := Option.map_eq_some_iff.1 hrun
  cases heq
  exact hhandle t.received.conn t.sameMessages_received r1 t1 hrun1

theorem keeps_shutdownArm : Keeps (Moves S t₀) shutdownArm :=
  Keeps.bind (Keeps.attempt (keeps_send (by simp))) (fun _ => keeps_leave (by simp))

theorem keeps_heartbeatArm : Keeps (Moves S t₀) heartbeatArm :=
  Keeps.bind Keeps.read (fun _ => Keeps.when (fun _ => keeps_leave (by simp)))

/-- What is sent again is in flight. -/
theorem writable_retry (h : (id, packet) ∈ t.retryExpired.toResend) : t.retry.Writable packet := by
  obtain ⟨e, dup, hget, hpkt⟩ := OutboundInflightTable.get_of_mem_toResend _ _ _ _ h
  exact fun p _ => .inr ⟨id, e, dup, hget, hpkt⟩

/-- Sending packets that there is reason to write, one after the other. -/
theorem wp_forEach_send {packets : List Packet} (ht : Moves S t₀ t)
    (hw : ∀ packet ∈ packets, t.Writable packet) :
    wp (forEach send packets) (fun _ => Moves S t₀) t := by
  induction packets generalizing t with
  | nil => exact (wp_pure ..).2 ht
  | cons packet rest ih =>
    rw [List.forall_mem_cons] at hw
    unfold forEach
    refine wp_seq (wp_send ht hw.1) ?_ (fun _ _ h => h.1)
    intro _ t' h
    exact ih h.1 (fun p hp => h.2.writable (hw.2 p hp))

theorem keeps_retryArm (hret : S.retries) : Keeps (Moves S t₀) retryArm := by
  refine Keeps.act_bind ?_
  intro t ht
  rw [wp_attempt_bind]
  refine wp_mono (wp_forEach_send (ht.tail (.retry hret)) ?_) ?_
  · intro packet hp
    obtain ⟨⟨id, _⟩, hmem, rfl⟩ := List.mem_map.1 hp
    exact writable_retry hmem
  · intro r t' ht'
    rcases r with e | _
    · exact keeps_leave (by simp) t' ht'
    · exact (wp_pure ..).2 ht'

theorem keeps_outboundArm (hsrc : S.takesUp .live) : Keeps (Moves S t₀) outboundArm := by
  refine Keeps.read_bind ?_
  intro t ht
  split
  · exact (wp_pure ..).2 ht
  · next ch hch =>
    split
    · unfold Process.when
      by_cases halive : t.senderAlive = true
      · rw [if_neg (by simp [halive])]
        exact (wp_pure ..).2 ht
      · rw [if_pos (by simp [halive])]
        exact (wp_update ..).2 (ht.tail (.leave .closed (fun _ => Bool.not_eq_true _ ▸ halive)))
    · next req rest hbuf =>
      rw [wp_act_bind]
      refine wp_sendBuilt (ht.tail (.live ch req rest hch hbuf hsrc)) ?_
      intro packet hbuilt
      exact writable_built .live List.mem_cons_self hbuilt

/-- What an arm that is taken at `t` may do. -/
structure Permits (S : Scope) (t : Task) (a : Arm) : Prop where
  serves : a = .inbound ∨ a = .streamEnd →
    ∀ packet, t.nextInbound = some packet → Serves S t packet
  retries : a = .retry → S.retries
  live : a = .outbound → S.takesUp .live

/-- Nothing is asked of an arm's moves. -/
theorem permits_all (t : Task) (a : Arm) : Permits {} t a :=
  ⟨fun _ _ _ => ⟨trivial, fun _ _ _ => trivial, fun _ _ _ _ _ => trivial, fun _ _ => trivial,
    fun _ _ => trivial, fun _ _ => trivial, fun _ _ => trivial⟩, fun _ => trivial, fun _ => trivial⟩

/-- **Every arm of the main loop is a sequence of moves.** -/
theorem wp_arm (a : Arm) (h : Permits S t a) : wp a.run (fun _ => Moves S t) t := by
  cases a with
  | shutdown => exact keeps_shutdownArm t .refl
  | heartbeat => exact keeps_heartbeatArm t .refl
  | retry => exact keeps_retryArm (h.retries rfl) t .refl
  | inbound => exact wp_inboundArm false .refl (h.serves (.inl rfl))
  | streamEnd => exact wp_inboundArm true .refl (h.serves (.inr rfl))
  | outbound => exact keeps_outboundArm (h.live rfl) t .refl

/-! ## The way into the main loop -/

/-- What a new connection takes over. -/
theorem openSession_replay (b : BrokerState) (connect : Connect) (peer : SocketAddr)
    (buffer : Bytes) (credit : Option Nat) :
    (b.openSession connect peer buffer credit).2.conn.replay =
      ((b.sessions.get connect.clientId).map (fun e => e.handover b.now)).getD [] := by
  unfold BrokerState.openSession
  dsimp only
  rw [SessionManager.register_drained]

theorem openSession_inflight (b : BrokerState) (connect : Connect) (peer : SocketAddr)
    (buffer : Bytes) (credit : Option Nat) :
    (b.openSession connect peer buffer credit).2.conn.inflight = ∅ := rfl

theorem wp_replayOne (arm : ReplayArm) (ht : Moves S t₀ t) (hw : t.Writable packet) :
    wp (replayOne packet arm) (fun r t' => r = .ok () ∧ Moves S t₀ t' ∧ Undisturbed t t') t := by
  cases arm with
  | send => exact wp_sendOrLeave ht hw
  | shutdown =>
    unfold replayOne shutdownArm
    rw [wp_attempt_bind]
    refine wp_mono (wp_send ht (writable_of_ne_publish (by simp))) ?_
    intro r t' h
    exact (wp_update ..).2
      ⟨rfl, leave_moves h.1 (by simp), h.2.trans (undisturbed_leave t' _)⟩
  | wake => exact (wp_pure ..).2 ⟨rfl, ht, .refl t⟩
  | heartbeat =>
    unfold replayOne heartbeatArm
    rw [wp_read_bind]
    unfold Process.when
    by_cases hexp : t.conn.isKeepAliveExpired t.broker.now = true
    · rw [if_pos hexp]
      exact (wp_update ..).2 ⟨rfl, leave_moves ht (by simp), undisturbed_leave t _⟩
    · rw [if_neg hexp]
      exact (wp_pure ..).2 ⟨rfl, ht, .refl t⟩

/-- A message of the session before is taken up. -/
theorem replayed_takeReplay (t : Task) (msg : OutboundPublish) (rest : List OutboundPublish) :
    ((t.takeReplay msg rest).buildOutboundPacket msg).2.replayed = msg :: t.replayed := by
  have hext := (t.takeReplay msg rest).buildOutboundPacket_extends msg
  have hep := ((t.takeReplay msg rest).exchanges_buildOutboundPacket msg).epoch
  unfold replayed
  rw [hext.filterMap_eq (fun e he => by rw [he]; rfl), hep]
  simp [takeReplay, note, onBroker, onConn, BrokerState.note, Effect.replayOf]

/-- The replay takes up the messages of the session before; all of them, unless the connection is
    left on the way. -/
theorem wp_replayLoop {msgs : List OutboundPublish} {arms : List ReplayArm}
    (hsrc : S.takesUp .replay) (ht : Moves S t₀ t) (hrep : t.conn.replay = msgs) :
    wp (replayLoop msgs arms) (fun _ t' => Moves S t₀ t' ∧
      (t'.conn.exit = none → t'.conn.replay = [] ∧ t'.replayed = msgs.reverse ++ t.replayed)) t := by
  induction msgs generalizing arms t with
  | nil => exact (wp_pure ..).2 ⟨ht, fun _ => ⟨hrep, rfl⟩⟩
  | cons msg rest ih =>
    unfold replayLoop
    rw [wp_act_bind]
    have hone := ht.tail (.replay msg rest hrep hsrc)
    have hrest : ((t.takeReplay msg rest).buildOutboundPacket msg).2.conn.replay = rest :=
      (exchanges_buildOutboundPacket ..).replay
    have htaken := t.replayed_takeReplay msg rest
    -- what the rest of the loop adds to any state that is reached with the message taken up
    have hloop : ∀ {arms : List ReplayArm} {t1 : Task}, Moves S t₀ t1 → t1.conn.replay = rest →
        t1.replayed = msg :: t.replayed →
        wp (replayLoop rest arms) (fun _ t' => Moves S t₀ t' ∧
          (t'.conn.exit = none → t'.conn.replay = [] ∧
            t'.replayed = (msg :: rest).reverse ++ t.replayed)) t1 := by
      intro arms t1 ht1 hr1 htaken1
      refine wp_mono (ih ht1 hr1) ?_
      intro _ t' h
      refine ⟨h.1, fun hexit => ⟨(h.2 hexit).1, ?_⟩⟩
      rw [(h.2 hexit).2, htaken1, List.reverse_cons, List.append_assoc]
      rfl
    rcases hbuilt : ((t.takeReplay msg rest).buildOutboundPacket msg).1 with _ | packet
    · exact hloop hone hrest htaken
    · dsimp only
      rw [wp_bind]
      have hw := writable_built .replay List.mem_cons_self hbuilt
      refine wp_mono (wp_replayOne (arms.headD .send) hone hw) ?_
      rintro r t2 ⟨rfl, h2, hu2⟩
      refine wp_unlessLeft (fun _ => ?_) (fun hexit => ?_)
      · exact hloop h2 (hu2.replay.trans hrest) (hu2.replayed.trans htaken)
      · exact ⟨h2, fun hnone => absurd hnone hexit⟩

/-- **The way into the main loop is a sequence of moves.** When the loop is entered, every message
    of the session before has been taken up. -/
theorem wp_welcome {connack : Connack} {arms : List ReplayArm} (hclear : S.clears t.conn.clientId)
    (hsrc : S.takesUp .replay) : wp (welcome connack arms) (fun _ t' => Moves S t t' ∧
      (t'.conn.exit = none → t'.conn.replay = [] ∧
        t'.replayed = t.conn.replay.reverse ++ t.replayed)) t := by
  unfold welcome
  rw [wp_attempt_bind]
  refine wp_mono (wp_send (S := S) .refl (writable_of_ne_publish (by simp))) ?_
  intro r t1 h1
  rcases r with e | _
  · refine (wp_update ..).2 ⟨leave_moves h1.1 (by simp), ?_⟩
    intro hexit
    exact absurd hexit (by simp [Task.onConn])
  · dsimp only
    rw [wp_read_bind]
    rw [wp_bind]
    refine wp_mono (wp_replayLoop hsrc h1.1 rfl) ?_
    intro r t2 h2
    rw [h1.2.replay, h1.2.replayed] at h2
    rcases r with e | _
    · exact h2
    refine wp_unlessLeft (fun _ => ?_) (fun _ => h2)
    have hclear2 : S.clears t2.conn.clientId := moves_clientId h2.1 ▸ hclear
    exact (wp_update ..).2 ⟨h2.1.tail (.broker _ (.clearDisk _ hclear2)), h2.2⟩

end Task

end LumenMQ
