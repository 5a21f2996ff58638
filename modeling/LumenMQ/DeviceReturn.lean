import LumenMQ.SystemMoves

set_option autoImplicit false

/-! # The return of a device

While a device is offline, what is routed to it waits in the queue of its session. When it connects
again, the session is registered anew and the queue is taken out of the old entry; the gateway does
nothing with it. This file says what is left of the messages after the CONNECT. -/

namespace LumenMQ

open SessionManager

/-- The messages in the channel of a client's session. -/
def SessionManager.buffered (sm : SessionManager) (c : String) : List OutboundPublish :=
  match (sm.get c).bind (fun e => sm.channels.get e.tx) with
  | some ch => ch.buffer
  | none => []

/-- The messages in a client's queue that are within their TTL. -/
def BrokerState.waiting (b : BrokerState) (c : String) : List OutboundPublish :=
  match (b.sessions.get c).bind SessionEntry.offlineQueue with
  | some q => (q.inner.filter (fun m => b.now - m.enqueuedAt < q.ttl)).map OfflineMessage.payload
  | none => []

namespace Sys

variable {s : Sys}

/-- A datagram brings back a device whose session is persistent and offline: its CONNECT asks for
    the session to be kept, and is accepted. -/
structure Returns (s : Sys) (bytes : Bytes) (c : String) (e : SessionEntry) : Prop where
  connect : ∃ flags protocolId duration,
    parsePacket (bytes.take 65535) = .ok (.connect flags protocolId duration c) ∧
      flags &&& flagClean = 0 ∧ s.refusal protocolId c = none
  entry : s.broker.sessions.get c = some e
  persistent : e.cleanSession = false
  offline : e.connected = false

/-- A message is in the channel or the queue of the client's session, or it has been sent to the
    device in a PUBLISH since then. -/
def Survives (s s' : Sys) (peer : SocketAddr) (c : String) (m : OutboundPublish) : Prop :=
  m ∈ s'.broker.sessions.buffered c ∨ m ∈ s'.broker.sessions.queued c ∨
    ∃ flags topicId msgId, .wroteSn peer (.publish flags topicId msgId m.payload) ∈ added s s'

/-- A session that was registered has an empty channel and an empty queue. -/
theorem register_empty (b : BrokerState) (peer : SocketAddr) (c : String) :
    (Gateway.register b peer c false).2.sessions.buffered c = [] ∧
      (Gateway.register b peer c false).2.sessions.queued c = [] := by
  have hget : (Gateway.register b peer c false).2.sessions.get c =
      some (b.sessions.newEntry b.now c false (b.sessions.epochCounter + 1) none mqtt311Level peer
        (b.sessions.epochCounter + 1) none) := by
    change (register ..).sessions.get c = _
    rw [register_get, if_pos rfl]
  have hchannel : (Gateway.register b peer c false).2.sessions.channels.get
      (b.sessions.epochCounter + 1) = some { capacity := max b.config.broker.maxInflight 16 } :=
    FinMap.get_insert_self ..
  unfold buffered queued
  rw [hget]
  simp [newEntry, hchannel]

/-- What the CONNECT of a device that returns leaves behind. -/
theorem Returns.step_eq {s' : Sys} {peer : SocketAddr} {bytes : Bytes} {c : String}
    {e : SessionEntry} (h : s.Returns bytes c e) (hstep : s.step (.datagram peer bytes) = some s') :
    s'.broker = (Gateway.register s.broker peer c false).2.note (.wroteSn peer (.connack rcAccepted)) := by
  obtain ⟨flags, protocolId, duration, hparse, hclean, href⟩ := h.connect
  obtain ⟨g, hg, rfl⟩ := Option.map_eq_some_iff.1 hstep
  unfold Gateway.datagram at hg
  rw [hparse] at hg
  rw [← Option.some.inj hg]
  unfold Gateway.handleConnect
  rw [href]
  simp only [hclean, ne_eq, not_true_eq_false, decide_false]
  rfl

/-- After the CONNECT the session holds nothing, and the only packet that was sent is the
    CONNACK. -/
theorem Returns.not_survives {s' : Sys} {peer : SocketAddr} {bytes : Bytes} {c : String}
    {e : SessionEntry} (h : s.Returns bytes c e) (hstep : s.step (.datagram peer bytes) = some s')
    (m : OutboundPublish) : ¬ Survives s s' peer c m := by
  have hb := h.step_eq hstep
  obtain ⟨hbuf, hqueued⟩ := register_empty s.broker peer c
  rintro (hin | hin | ⟨flags, topicId, msgId, hsent⟩)
  · rw [hb] at hin
    exact absurd hin (hbuf ▸ List.not_mem_nil)
  · rw [hb] at hin
    exact absurd hin (hqueued ▸ List.not_mem_nil)
  · have htrace : s'.broker.trace = [.wroteSn peer (.connack rcAccepted)] ++ s.broker.trace := by
      rw [hb]
      rfl
    have hadded : added s s' = [.wroteSn peer (.connack rcAccepted)] :=
      List.append_cancel_right ((added_append hstep).symm.trans htrace)
    rw [hadded] at hsent
    simp at hsent

/-- **What was queued for a device survives its return only if nothing was**: the messages are gone
    at once, and they do not come back. -/
theorem survives_return_iff {s s' : Sys} {peer : SocketAddr} {bytes : Bytes} {c : String}
    {e : SessionEntry} (hreturn : s.Returns bytes c e)
    (hstep : s.step (.datagram peer bytes) = some s') :
    (∀ m ∈ s.broker.waiting c, ∀ es s'', s'.run es = some s'' → Survives s s'' peer c m) ↔
      s.broker.waiting c = [] := by
  constructor
  · intro h
    rw [List.eq_nil_iff_forall_not_mem]
    intro m hm
    exact hreturn.not_survives hstep m (h m hm [] s' rfl)
  · intro h m hm
    rw [h] at hm
    exact absurd hm List.not_mem_nil

/-- A device subscribes and goes to sleep, and a client publishes to it. -/
def sleeperRun : List Event :=
  deviceOpens false :: .datagram deviceAddr [7, 0x11, 0x20, 0, 1, 0x61, 0x62] :: deviceSleeps ::
    opens "a" true :: sends 2 (.publish {
      dup := false, qos := .atLeastOnce, retain := false, topic := "ab", packetId := some 1
      payload := [0x78] })

/-- Whether the device is offline with a message in its queue when it returns. -/
def returnsToMail (s : Sys) : Bool :=
  (s.refusal protocolIdMqttsn "d").isNone &&
    (s.broker.sessions.get "d").any (fun e => !e.cleanSession && !e.connected) &&
    s.broker.waiting "d" == [{ topic := "ab", payload := [0x78], qos := .atLeastOnce, retain := false }]

theorem returns_of_check (h : s.returnsToMail = true) :
    ∃ e, s.Returns [7, 0x04, 0, protocolIdMqttsn, 0, 60, 0x64] "d" e ∧ s.broker.waiting "d" ≠ [] := by
  simp only [returnsToMail, Bool.and_eq_true, Option.isNone_iff_eq_none, Bool.not_eq_true',
    beq_iff_eq, Option.any_eq_true] at h
  obtain ⟨⟨href, e, hget, hclean, hoff⟩, hwaiting⟩ := h
  refine ⟨e, ⟨⟨0, protocolIdMqttsn, 60, ?_, rfl, href⟩, hget, hclean, hoff⟩, ?_⟩
  · decide +kernel
  · simp [hwaiting]

theorem survives_return_iff_sleeper : ∃ s s' e, Reachable s ∧
    s.Returns [7, 0x04, 0, protocolIdMqttsn, 0, 60, 0x64] "d" e ∧
    s.step (deviceOpens false) = some s' ∧
    ((∀ m ∈ s.broker.waiting "d", ∀ es s'', s'.run es = some s'' →
      Survives s s'' deviceAddr "d" m) ↔ s.broker.waiting "d" = []) := by
  obtain ⟨s, s', hreach, hstep, h⟩ := exists_step {} 0 sleeperRun (deviceOpens false)
    (fun s _ => s.returnsToMail) (by decide +kernel)
  obtain ⟨e, hreturn, -⟩ := returns_of_check h
  exact ⟨s, s', e, hreach, hreturn, hstep, survives_return_iff hreturn hstep⟩

/-- **A message that was queued for a sleeping device is lost when it wakes up.** -/
theorem queued_lost_on_return : ∃ s s' e, Reachable s ∧
    s.Returns [7, 0x04, 0, protocolIdMqttsn, 0, 60, 0x64] "d" e ∧
    s.step (deviceOpens false) = some s' ∧
    ∃ m ∈ s.broker.waiting "d", ¬ Survives s s' deviceAddr "d" m := by
  obtain ⟨s, s', hreach, hstep, h⟩ := exists_step {} 0 sleeperRun (deviceOpens false)
    (fun s _ => s.returnsToMail) (by decide +kernel)
  obtain ⟨e, hreturn, hwaiting⟩ := returns_of_check h
  obtain ⟨m, hm⟩ := List.exists_mem_of_ne_nil _ hwaiting
  exact ⟨s, s', e, hreach, hreturn, hstep, m, hm, hreturn.not_survives hstep m⟩

end Sys

end LumenMQ
