import LumenMQ.Broker.Handshakes

set_option autoImplicit false

/-! # Inbound messages of QoS 2

The tracker of a connection against the packets that it has received: an identifier is in it exactly
if a PUBLISH of QoS 2 has come in with it since the last PUBREL. What the connection does with the
next packet, on the broker and towards the client. -/

namespace LumenMQ

open Process List

/-! ## The tracker -/

/-- A PUBLISH of QoS 2 with the identifier. -/
def Packet.IsQos2 (id : UInt16) (packet : Packet) : Prop :=
  ∃ p : Publish, packet = .publish p ∧ p.qos = .exactlyOnce ∧ p.packetId = some id

namespace InboundQos2Tracker

/-- What a packet does to the tracker. -/
def track (seen : InboundQos2Tracker) : Packet → InboundQos2Tracker
  | .publish p =>
    match p.qos, p.packetId with
    | .exactlyOnce, some id => (seen.onPublish id).2
    | _, _ => seen
  | .pubrel id => (seen.onPubrel id).2
  | _ => seen

/-- A PUBLISH of QoS 2 with the identifier has been received since the last PUBREL for it. -/
def Pending (id : UInt16) (packets : List Packet) : Prop :=
  ∃ before after packet, packets = before ++ packet :: after ∧ packet.IsQos2 id ∧
    .pubrel id ∉ after

theorem mem_track (seen : InboundQos2Tracker) (id : UInt16) (packet : Packet) :
    id ∈ seen.track packet ↔ packet.IsQos2 id ∨ id ∈ seen ∧ packet ≠ .pubrel id := by
  cases packet with
  | publish p =>
    have hqos2 : (Packet.publish p).IsQos2 id ↔ p.qos = .exactlyOnce ∧ p.packetId = some id := by
      simp [Packet.IsQos2]
    rw [hqos2]
    cases hqos : p.qos <;> cases hid : p.packetId <;>
      simp [track, onPublish, hqos, hid, eq_comm]
  | pubrel id' =>
    simp [track, onPubrel, Packet.IsQos2, and_comm, eq_comm]
  | _ => simp [track, Packet.IsQos2]

theorem pending_concat (id : UInt16) (packets : List Packet) (packet : Packet) :
    Pending id (packets ++ [packet]) ↔
      packet.IsQos2 id ∨ Pending id packets ∧ packet ≠ .pubrel id := by
  constructor
  · rintro ⟨before, after, opener, heq, hop, hafter⟩
    rcases eq_nil_or_concat after with rfl | ⟨after', last, rfl⟩
    · obtain ⟨-, hlast⟩ := append_inj' heq rfl
      exact .inl (singleton_inj.1 hlast ▸ hop)
    · rw [concat_eq_append] at heq hafter
      have hsnoc : packets ++ [packet] = (before ++ opener :: after') ++ [last] := by
        simpa using heq
      obtain ⟨hinit, hlast⟩ := append_inj' hsnoc rfl
      obtain rfl := singleton_inj.1 hlast
      rw [mem_append, not_or, mem_singleton] at hafter
      exact .inr ⟨⟨before, after', opener, hinit, hop, hafter.1⟩, Ne.symm hafter.2⟩
  · rintro (hop | ⟨⟨before, after, opener, rfl, hop, hafter⟩, hne⟩)
    · exact ⟨packets, [], packet, rfl, hop, by simp⟩
    · refine ⟨before, after ++ [packet], opener, by simp, hop, ?_⟩
      rw [mem_append, not_or, mem_singleton]
      exact ⟨hafter, Ne.symm hne⟩

/-- **The tracker holds the identifiers that are pending.** -/
theorem mem_foldl_track (id : UInt16) (packets : List Packet) :
    id ∈ packets.foldl track ∅ ↔ Pending id packets := by
  induction packets using reverseRecOn with
  | nil => simp [Pending]
  | append_singleton packets packet ih =>
    rw [foldl_concat, mem_track, pending_concat, ih]

end InboundQos2Tracker

/-! ## Answers -/

namespace Task

variable {t t' : Task} {id : UInt16}
variable {a : Arm}

/-- A packet is handed to the transport: it is written, unless the transport is broken. -/
def Hands (t : Task) (packet : Packet) (x : Effect) : Prop :=
  x = .wrote t.epoch packet ∨
    t.conn.credit = some 0 ∧ x = .sendFailed t.epoch packet (.io "broken pipe")

theorem send_hands {packet : Packet} (t : Task) (hok : (t.codec.encode packet []).1 = .ok ()) :
    ∃ r t' x, send packet t = some (r, t') ∧ t.Hands packet x ∧
      t'.broker.trace = x :: t.broker.trace ∧ t'.conn.inboundQos2 = t.conn.inboundQos2 := by
  unfold send
  rw [read_bind_apply]
  cases herr : t.sendError packet with
  | none => exact ⟨_, _, _, rfl, .inl rfl, rfl, rfl⟩
  | some e =>
    rw [sendError_of_encode hok] at herr
    split_ifs at herr with hbroken
    exact ⟨_, _, _, rfl, .inr ⟨hbroken, by rw [← Option.some.inj herr]⟩, rfl, rfl⟩

/-- The task routes publications and then answers with one packet. -/
def Answers (t t' : Task) (routed : List Routed) (packet : Packet) : Prop :=
  ∃ x newer, t'.broker.trace = x :: (newer ++ t.broker.trace) ∧ t.Hands packet x ∧
    newer.filterMap Effect.publication = routed ∧ ∀ y ∈ newer, y.epoch = none

theorem encode_pubrec (t : Task) (id : UInt16) : (t.codec.encode (.pubrec id) []).1 = .ok () := rfl

theorem encode_pubcomp (t : Task) (id : UInt16) :
    (t.codec.encode (.pubcomp id) []).1 = .ok () := rfl

/-! ## A PUBLISH of QoS 2 -/

/-- Both guards accept the message. -/
def accepts (t : Task) (p : Publish) : Bool :=
  (t.broker.security.checkPublish t.broker.now t.conn.clientId p.payload.length
    t.broker.config.broker.maxPacketSize).1.isOk &&
    (t.broker.plugin.checkPublish p.topic p.payload).isOk

theorem accepts_iff (t : Task) (p : Publish) :
    t.accepts p = true ↔ (t.inboundPublish p).Passes := by
  have hok : ∀ {ε : Type} (x : Except ε Unit), x.isOk = true ↔ x = .ok () := by
    intro ε x
    cases x <;> simp [Except.isOk, Except.toBool]
  unfold accepts Routed.Passes inboundPublish
  rw [Bool.and_eq_true, hok, hok]

/-- The task once the guards have been asked and the identifier is entered. -/
def entered (t : Task) (p : Publish) (id : UInt16) : Task :=
  { t with
    broker := { t.broker with security := (t.broker.security.checkPublish t.broker.now
      t.conn.clientId p.payload.length t.broker.config.broker.maxPacketSize).2 }
    conn := { t.conn with inboundQos2 := (t.conn.inboundQos2.onPublish id).2 } }

/-- What becomes of a PUBLISH of QoS 2: it is routed if its identifier is new and the guards accept
    it, and answered in any case. -/
theorem handlePublish_eq (t : Task) {p : Publish} (hqos : p.qos = .exactlyOnce)
    (hid : p.packetId = some id) :
    handlePublish p t =
      if id ∉ t.conn.inboundQos2 ∧ t.accepts p = true then
        ((t.entered p id).broker.route (t.inboundPublish p)).bind
          (fun b => send (.pubrec id) { t.entered p id with broker := b })
      else send (.pubrec id) (t.entered p id) := by
  have hanswer : answerPublish p = send (.pubrec id) := by
    unfold answerPublish
    rw [hqos, hid]
  have hrec : firstReceipt p = act (fun t =>
      (!(t.conn.inboundQos2.onPublish id).1,
        t.onConn (fun c => { c with inboundQos2 := (t.conn.inboundQos2.onPublish id).2 }))) := by
    unfold firstReceipt
    rw [hqos, hid]
  unfold handlePublish
  rw [hanswer, hrec, read_bind_apply]
  unfold securityRejects
  rw [act_bind_apply]
  show (act _ >>= fun fresh => when _ _ >>= fun _ => send (.pubrec id)) _ = _
  rw [act_bind_apply]
  -- what the guards said, and whether the identifier is new
  have hcond : ∀ seen security plugin : Bool,
      (!seen && !!security && !(!!security && !plugin)) = (!seen && (security && plugin)) := by
    decide
  show (when (!decide (id ∈ t.conn.inboundQos2) && !!_ && !(!!_ && !_))
    (routeInboundPublish (t.inboundPublish p)) >>= fun _ => send (.pubrec id)) (t.entered p id) = _
  rw [hcond]
  show (when (!decide (id ∈ t.conn.inboundQos2) && t.accepts p)
    (routeInboundPublish (t.inboundPublish p)) >>= fun _ => send (.pubrec id)) (t.entered p id) = _
  by_cases h : id ∉ t.conn.inboundQos2 ∧ t.accepts p = true
  · have htrue : (!decide (id ∈ t.conn.inboundQos2) && t.accepts p) = true := by simp [h]
    rw [if_pos h, htrue]
    show (routeInboundPublish (t.inboundPublish p) >>= fun _ => send (.pubrec id)) _ = _
    unfold routeInboundPublish
    rw [tryUpdate_bind_apply]
    exact Option.bind_map ..
  · have hfalse : (!decide (id ∈ t.conn.inboundQos2) && t.accepts p) = false := by
      simpa using h
    rw [if_neg h, hfalse]
    rfl

/-- The PUBLISH is to be routed: its identifier is new, and the guards accept it. -/
def Fresh (t : Task) (p : Publish) (id : UInt16) : Prop :=
  id ∉ t.conn.inboundQos2 ∧ (t.inboundPublish p).Passes

/-- What comes of a PUBLISH of QoS 2. -/
inductive Receives (t : Task) (p : Publish) (id : UInt16) :
    Option (Except BrokerError Unit × Task) → Prop
  | routed (t' : Task) (hfresh : t.Fresh p id) (hanswers : t.Answers t' [t.inboundPublish p] (.pubrec id))
      (hseen : t'.conn.inboundQos2 = insert id t.conn.inboundQos2) : Receives t p id (some (.ok (), t'))
  | dropped (t' : Task) (hstale : ¬ t.Fresh p id) (hanswers : t.Answers t' [] (.pubrec id))
      (hseen : t'.conn.inboundQos2 = insert id t.conn.inboundQos2) : Receives t p id (some (.ok (), t'))
  /-- The router does not return. -/
  | stuck (hfresh : t.Fresh p id)
      (hroute : (t.entered p id).broker.route (t.inboundPublish p) = none) : Receives t p id none

theorem afterPacket_trace (t : Task) (r : Except BrokerError Control) :
    (t.afterPacket r).broker.trace = t.broker.trace := by
  rcases r with _ | _ | _ <;> rfl

theorem afterPacket_inboundQos2 (t : Task) (r : Except BrokerError Control) :
    (t.afterPacket r).conn.inboundQos2 = t.conn.inboundQos2 := by
  rcases r with _ | _ | _ <;> rfl

/-- An arm whose packet is dealt with by sending an answer from a task with the same transport. -/
theorem arm_answers {packet answer : Packet} {x : Handler Unit} (t1 : Task) (newer : List Effect)
    (hpkt : t.packetOf a = some packet) (hhandle : handlePacket packet = (do x; pure .continue))
    (hx : x t.received = send answer t1) (hok : (t1.codec.encode answer []).1 = .ok ())
    (hep : t1.epoch = t.epoch) (hcredit : t1.conn.credit = t.conn.credit)
    (htrace : t1.broker.trace = newer ++ t.broker.trace) (hnew : ∀ y ∈ newer, y.epoch = none) :
    ∃ t', a.run t = some (.ok (), t') ∧
      t.Answers t' (newer.filterMap Effect.publication) answer ∧
      t'.conn.inboundQos2 = t1.conn.inboundQos2 := by
  obtain ⟨r, t2, y, hsend, hhands, htrace2, hseen⟩ := send_hands t1 hok
  have hrun : ∃ r', handlePacket packet t.received = some (r', t2) := by
    rw [hhandle, bind_apply, hx, hsend]
    cases r with
    | ok _ => exact ⟨_, rfl⟩
    | error e => exact ⟨_, rfl⟩
  obtain ⟨r', hrun⟩ := hrun
  refine ⟨t2.afterPacket r', by rw [arm_eq hpkt, hrun, Option.map_some], ?_, ?_⟩
  · refine ⟨y, newer, ?_, ?_, rfl, hnew⟩
    · rw [afterPacket_trace, htrace2, htrace]
    · unfold Hands at hhands ⊢
      rwa [hep, hcredit] at hhands
  · rw [afterPacket_inboundQos2, hseen]

/-- **A PUBLISH of QoS 2 is routed if it is fresh, and answered by one PUBREC in any case.** -/
theorem arm_publish {p : Publish} (hpkt : t.packetOf a = some (.publish p))
    (hqos : p.qos = .exactlyOnce) (hid : p.packetId = some id) : t.Receives p id (a.run t) := by
  have heq := handlePublish_eq t.received hqos hid
  by_cases hfresh : t.Fresh p id
  · rw [if_pos ⟨hfresh.1, (accepts_iff _ _).2 hfresh.2⟩] at heq
    cases hroute : (t.entered p id).broker.route (t.inboundPublish p) with
    | none =>
      have hnone : handlePublish p t.received = none := by
        rw [heq]
        exact congrArg (Option.bind · _) hroute
      have hrun : a.run t = none := by
        rw [arm_eq hpkt]
        show Option.map _ ((handlePublish p >>= fun _ => pure Control.continue) t.received) = none
        rw [bind_apply, hnone]
        rfl
      rw [hrun]
      exact .stuck hfresh hroute
    | some b =>
      obtain ⟨es, htrace, hes⟩ := BrokerState.route_extends hroute
      have hpubs : (es ++ [Effect.routed (t.inboundPublish p)]).filterMap Effect.publication =
          [t.inboundPublish p] := by
        rw [filterMap_append, filterMap_eq_nil_iff.2, nil_append]
        · rfl
        · intro y hy
          cases hes y hy <;> rfl
      obtain ⟨t', hrun, hanswers, hseen⟩ :=
        arm_answers { t.received.entered p id with broker := b }
          (es ++ [.routed (t.inboundPublish p)]) hpkt rfl
          (by rw [heq]; exact congrArg (Option.bind · _) hroute) (encode_pubrec _ id) rfl rfl
          (by rw [htrace]; simp; rfl)
          (by
            intro y hy
            rcases mem_append.1 hy with hy | hy
            · exact (hes y hy).adds.epoch_eq
            · rw [mem_singleton.1 hy]
              rfl)
      rw [hpubs] at hanswers
      rw [hrun]
      exact .routed t' hfresh hanswers hseen
  · have hnot : ¬ (id ∉ t.received.conn.inboundQos2 ∧ t.received.accepts p = true) := by
      rw [accepts_iff]
      exact hfresh
    rw [if_neg hnot] at heq
    obtain ⟨t', hrun, hanswers, hseen⟩ :=
      arm_answers (t.received.entered p id) [] hpkt rfl heq (encode_pubrec _ id)
        rfl rfl rfl (by simp)
    rw [hrun]
    exact .dropped t' hfresh hanswers hseen

/-- **A PUBREL is answered by one PUBCOMP.** -/
theorem arm_pubrel (hpkt : t.packetOf a = some (.pubrel id)) :
    ∃ t', a.run t = some (.ok (), t') ∧ t.Answers t' [] (.pubcomp id) ∧
      t'.conn.inboundQos2 = t.conn.inboundQos2.erase id :=
  arm_answers (x := handlePubrel id)
    (t.received.onConn (fun c => { c with inboundQos2 := (c.inboundQos2.onPubrel id).2 }))
    [] hpkt rfl rfl (encode_pubcomp _ id) rfl rfl rfl (by simp)

/-! ## Other packets -/

theorem Exchanges.inboundQos2 (h : t.Exchanges t') : t'.conn.inboundQos2 = t.conn.inboundQos2 := by
  obtain ⟨_, _, _, rfl⟩ := h
  rfl

theorem Move.inboundQos2_eq {S : Scope} (h : t.Move S t')
    (hpub : ∀ id packet, packet.IsQos2 id → ¬ S.takes packet)
    (hrel : ∀ id, ¬ S.takes (.pubrel id)) : t'.conn.inboundQos2 = t.conn.inboundQos2 := by
  cases h with
  | receipt p id hqos hid htake => exact absurd htake (hpub id _ ⟨p, rfl, hqos, hid⟩)
  | release id htake => exact absurd htake (hrel id)
  | live | replay | retained => exact (exchanges_buildOutboundPacket ..).inboundQos2
  | puback id => exact (t.exchanges_puback id).inboundQos2
  | pubrec id => exact (t.exchanges_pubrec id).inboundQos2
  | books c hsame => exact hsame.inboundQos2
  | broker | write | fail | pubcomp | retry | leave => rfl

/-- Without PUBLISH of QoS 2 and PUBREL the tracker stays as it is. -/
theorem moves_inboundQos2 {S : Scope} (h : Moves S t t')
    (hpub : ∀ id packet, packet.IsQos2 id → ¬ S.takes packet)
    (hrel : ∀ id, ¬ S.takes (.pubrel id)) : t'.conn.inboundQos2 = t.conn.inboundQos2 := by
  induction h with
  | refl => rfl
  | tail _ hmove ih => exact (hmove.inboundQos2_eq hpub hrel).trans ih

/-- **What an arm does to the tracker is what the packet that it takes does to it.** -/
theorem arm_track {r : Except BrokerError Unit} (hrun : a.run t = some (r, t')) :
    t'.conn.inboundQos2 = (t.packetOf a).toList.foldl InboundQos2Tracker.track t.conn.inboundQos2 := by
  cases hpkt : t.packetOf a with
  | none =>
    exact moves_inboundQos2 (arm_moves hrun) (by simp [armScope, hpkt]) (by simp [armScope, hpkt])
  | some packet =>
    show t'.conn.inboundQos2 = t.conn.inboundQos2.track packet
    by_cases hqos2 : ∃ id, packet.IsQos2 id
    · obtain ⟨id, p, rfl, hqos, hid⟩ := hqos2
      have hrcv := arm_publish hpkt hqos hid
      rw [hrun] at hrcv
      have hsends : t'.conn.inboundQos2 = insert id t.conn.inboundQos2 := by
        cases hrcv with
        | routed _ _ _ hsends => exact hsends
        | dropped _ _ _ hsends => exact hsends
      simp only [InboundQos2Tracker.track, hqos, hid, InboundQos2Tracker.onPublish, hsends]
    by_cases hrel : ∃ id, packet = .pubrel id
    · obtain ⟨id, rfl⟩ := hrel
      obtain ⟨t1, hrun1, -, hsends⟩ := arm_pubrel hpkt
      rw [hrun, Option.some.injEq, Prod.mk.injEq] at hrun1
      rw [hrun1.2, hsends]
      rfl
    · push Not at hqos2 hrel
      rw [moves_inboundQos2 (arm_moves hrun)]
      · ext id
        simp [InboundQos2Tracker.mem_track, hqos2 id, hrel id]
      · rintro id packet' hpkt' heq
        exact hqos2 id (Option.some.inj (hpkt.symm.trans heq) ▸ hpkt')
      · intro id heq
        exact hrel id (Option.some.inj (hpkt.symm.trans heq))

end Task

end LumenMQ
