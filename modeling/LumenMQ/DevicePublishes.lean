import LumenMQ.SystemMoves

set_option autoImplicit false

/-! # What a device is answered when it publishes

The documentation of the gateway says that a PUBLISH with QoS 2 is refused. The code refuses only
the fourth value of the QoS bits: a PUBLISH with QoS 2 is routed, and nothing is answered. -/

namespace LumenMQ

open Option Sys

/-- The packet that an effect notes as sent to an address. -/
def Effect.packetTo (peer : SocketAddr) : Effect → Option SnPacket
  | .wroteSn peer' packet => if peer' = peer then some packet else none
  | _ => none

structure DevicePublish where
  flags : UInt8
  topicId : UInt16
  msgId : UInt16
  data : Bytes
deriving DecidableEq, Repr

namespace Gateway

variable {g g' : Gateway} {peer : SocketAddr} {p : DevicePublish}

def publishFrom (peer : SocketAddr) (g : Gateway) (p : DevicePublish) : Option Gateway :=
  g.handle peer (.publish p.flags p.topicId p.msgId p.data)

/-- What was sent to the address and what was routed between two states. -/
def Does (peer : SocketAddr) (g g' : Gateway) (replies : List SnPacket) (routed : List Routed) :
    Prop :=
  g'.broker.trace.filterMap (Effect.packetTo peer) =
      replies ++ g.broker.trace.filterMap (Effect.packetTo peer) ∧
    g'.broker.trace.filterMap Effect.publication =
      routed ++ g.broker.trace.filterMap Effect.publication

theorem Does.unique {replies replies' : List SnPacket} {routed routed' : List Routed}
    (h : Does peer g g' replies routed) (h' : Does peer g g' replies' routed') :
    replies = replies' ∧ routed = routed' :=
  ⟨List.append_cancel_right (h.1.symm.trans h'.1), List.append_cancel_right (h.2.symm.trans h'.2)⟩

/-- The answer to a PUBLISH, as it is documented: one PUBACK for QoS 1, which says whether the
    message was routed; one that refuses QoS 2; none for QoS 0. -/
def Documented (peer : SocketAddr) (g g' : Gateway) (p : DevicePublish) : Prop :=
  ∃ replies routed, Does peer g g' replies routed ∧
    match flagsToQos p.flags with
    | .ok .atMostOnce => replies = []
    | .ok .atLeastOnce => ∃ code, replies = [.puback 0 p.topicId p.msgId code] ∧
        (code = rcAccepted ↔ routed ≠ []) ∧
        (code = rcInvalidTopicId ↔
          ∀ c, g.clients.get peer = some c → publishTopic c p.flags p.topicId = none)
    | .ok .exactlyOnce => replies = [.puback 0 p.topicId p.msgId rcNotSupported] ∧ routed = []
    | .error _ => True

/-- The PUBACKs that answer a PUBLISH of a device, and what is routed. -/
def outcome (g : Gateway) (peer : SocketAddr) (p : DevicePublish) : List SnPacket × List Routed :=
  let puback := SnPacket.puback 0 p.topicId p.msgId
  match flagsToQos p.flags with
  | .error code => (if p.topicId ≠ 0 then [puback code] else [], [])
  | .ok qos =>
    match g.publicationOf peer p.flags p.topicId p.data with
    | none => (if qos ≠ .atMostOnce then [puback rcInvalidTopicId] else [], [])
    | some r => (if qos = .atLeastOnce then [puback rcAccepted] else [], [r])

theorem does_of_trace {replies : List SnPacket} {routed : List Routed} (es : List Effect)
    (htrace : g'.broker.trace = es ++ g.broker.trace)
    (hrep : es.filterMap (Effect.packetTo peer) = replies)
    (hroute : es.filterMap Effect.publication = routed) : Does peer g g' replies routed := by
  unfold Does
  rw [htrace, List.filterMap_append, List.filterMap_append, hrep, hroute]
  exact ⟨rfl, rfl⟩

/-- What routing a message adds: one publication, and nothing for an address. -/
theorem route_trace {b b' : BrokerState} {r : Routed} (peer : SocketAddr)
    (h : b.route r = some b') : ∃ es, b'.trace = es ++ b.trace ∧
      es.filterMap (Effect.packetTo peer) = [] ∧ es.filterMap Effect.publication = [r] := by
  obtain ⟨es, htrace, hes⟩ := BrokerState.route_extends h
  refine ⟨es ++ [.routed r], by simpa using htrace, ?_, ?_⟩
  · rw [List.filterMap_append, List.filterMap_eq_nil_iff.2]
    · rfl
    · intro e he
      cases hes e he <;> rfl
  · rw [List.filterMap_append, List.filterMap_eq_nil_iff.2]
    · rfl
    · intro e he
      cases hes e he <;> rfl

theorem touch_isSome {c : SnClient} (hc : g.clients.get peer = some c) :
    ((g.touch peer).clients.get peer).isSome = true := by
  simp [touch, putClient, hc]

/-- A PUBLISH of a connected device does what `outcome` says; the device stays connected. -/
theorem publishFrom_spec {c : SnClient} (hc : g.clients.get peer = some c)
    (h : publishFrom peer g p = some g') :
    (g'.clients.get peer).isSome = true ∧
      Does peer g g' (g.outcome peer p).1 (g.outcome peer p).2 := by
  have hsent : ∀ code, (Effect.wroteSn peer (.puback 0 p.topicId p.msgId code)).packetTo peer =
      some (.puback 0 p.topicId p.msgId code) := fun code => if_pos rfl
  have htouch := touch_isSome hc
  have hbr := touch_broker g peer
  unfold publishFrom handle handlePublish at h
  unfold outcome publicationOf
  cases hqos : flagsToQos p.flags with
  | error code =>
    simp only [hqos, some.injEq] at h
    subst h
    have hconn : (g.clients.get peer).isSome = true := by rw [hc]; rfl
    split_ifs with hid
    · exact ⟨hconn, does_of_trace [_] rfl (by simp [hsent]) rfl⟩
    · exact ⟨hconn, does_of_trace [] rfl rfl rfl⟩
  | ok qos =>
    cases htop : publishTopic c p.flags p.topicId with
    | none =>
      simp only [hqos, hc, htop, some.injEq] at h
      subst h
      simp only [hc, htop, map_none]
      split_ifs
      · exact ⟨htouch, does_of_trace [_] (congrArg (_ :: BrokerState.trace ·) hbr)
          (by simp [hsent]) rfl⟩
      · exact ⟨htouch, does_of_trace [] (congrArg BrokerState.trace hbr) rfl rfl⟩
    | some topic =>
      simp only [hqos, hc, htop] at h
      obtain ⟨b, hb, rfl⟩ := map_eq_some_iff.1 h
      rw [hbr] at hb
      obtain ⟨es, htrace, hrep, hroute⟩ := route_trace peer hb
      simp only [hc, htop, map_some]
      split_ifs
      · exact ⟨htouch, does_of_trace (_ :: es) (congrArg (_ :: ·) htrace) (by simp [hsent, hrep]) hroute⟩
      · exact ⟨htouch, does_of_trace es htrace hrep hroute⟩

theorem publicationOf_eq_none_iff {c : SnClient} {qos : QoS} (hc : g.clients.get peer = some c)
    (hqos : flagsToQos p.flags = .ok qos) :
    g.publicationOf peer p.flags p.topicId p.data = none ↔
      publishTopic c p.flags p.topicId = none := by
  simp [publicationOf, hc, hqos]

/-- A PUBLISH is answered as it is documented exactly if it does not ask for QoS 2. -/
theorem documented_iff {c : SnClient} (hc : g.clients.get peer = some c)
    (h : publishFrom peer g p = some g') :
    Documented peer g g' p ↔ flagsToQos p.flags ≠ .ok .exactlyOnce := by
  have hdoes := (publishFrom_spec hc h).2
  have hdoc : Documented peer g g' p ↔ _ :=
    ⟨fun ⟨replies, routed, hd, hp⟩ => by
        obtain ⟨rfl, rfl⟩ := hd.unique hdoes
        exact hp,
      fun hp => ⟨_, _, hdoes, hp⟩⟩
  rw [hdoc]
  unfold outcome
  cases hqos : flagsToQos p.flags with
  | error code => simp
  | ok qos =>
    have hnone := publicationOf_eq_none_iff hc hqos
    cases hpub : g.publicationOf peer p.flags p.topicId p.data with
    | none =>
      rw [hpub] at hnone
      cases qos <;> simp [hc, hnone.1 rfl, rcAccepted, rcInvalidTopicId, rcNotSupported]
    | some r =>
      rw [hpub] at hnone
      have htop : publishTopic c p.flags p.topicId ≠ none := fun h => some_ne_none r (hnone.2 h)
      cases qos <;> simp [hc, htop, rcAccepted, rcInvalidTopicId, rcNotSupported]

/-- **Every PUBLISH of a connected device is answered as it is documented exactly if none asks for
    QoS 2.** -/
theorem documented_always_iff {ps : List DevicePublish}
    (hc : (g.clients.get peer).isSome = true) (hrun : Runs.run (publishFrom peer) g ps = some g') :
    Runs.Meets (publishFrom peer)
        (fun g p => ∀ g', publishFrom peer g p = some g' → Documented peer g g' p) g ps ↔
      Runs.Meets (publishFrom peer) (fun _ p => flagsToQos p.flags ≠ .ok .exactlyOnce) g ps := by
  refine Runs.meets_congr (I := fun g => (g.clients.get peer).isSome = true) ?_ ?_ hc hrun
  · intro g g' p hg _ hstep
    obtain ⟨c, hc⟩ := isSome_iff_exists.1 hg
    exact (publishFrom_spec hc hstep).1
  · intro g g' p hg hstep
    obtain ⟨c, hc⟩ := isSome_iff_exists.1 hg
    constructor
    · intro h
      exact (documented_iff hc hstep).1 (h g' hstep)
    · intro hqos g'' hstep'
      exact (documented_iff hc hstep').2 hqos

/-- A message on the short topic `t1`. -/
def shortPublish (qos : QoS) : DevicePublish :=
  { flags := qosToFlags qos ||| topicIdTypeShort, topicId := 0x7431, msgId := 7, data := [1] }

/-- The device `d` publishes with QoS 0, with QoS 1 and on a topic it has not registered. -/
def supportedPublishes : List DevicePublish :=
  [shortPublish .atMostOnce, shortPublish .atLeastOnce, ⟨0x20, 5, 8, []⟩]

theorem documented_always_iff_supported : ∃ s : Sys, ∃ g', Reachable s ∧
    (s.clients.get deviceAddr).isSome = true ∧
    Runs.run (publishFrom deviceAddr) s.toGateway supportedPublishes = some g' ∧
    Runs.Meets (publishFrom deviceAddr) (fun g p => ∀ g',
      publishFrom deviceAddr g p = some g' → Documented deviceAddr g g' p) s.toGateway
      supportedPublishes := by
  obtain ⟨s₀, s, h₀, hrun, h⟩ := exists_run {} 0 [deviceOpens true] (fun s =>
    (s.clients.get deviceAddr).isSome &&
      (Runs.run (publishFrom deviceAddr) s.toGateway supportedPublishes).isSome &&
      Runs.meets (publishFrom deviceAddr) (fun _ p => flagsToQos p.flags ≠ .ok .exactlyOnce)
        s.toGateway supportedPublishes) (by decide +kernel)
  simp only [Bool.and_eq_true] at h
  obtain ⟨⟨hc, hps⟩, hqos⟩ := h
  obtain ⟨g', hps⟩ := isSome_iff_exists.1 hps
  exact ⟨s, g', ⟨{}, 0, s₀, _, h₀, hrun⟩, hc, hps, (documented_always_iff hc hps).2
    (Runs.meets_of_check _ (fun _ _ h => of_decide_eq_true h) hqos)⟩

/-- A PUBLISH with QoS 2 is routed, and the device is not answered. -/
theorem qos2_routed_unanswered : ∃ s : Sys, Reachable s ∧ ∃ g' r,
    publishFrom deviceAddr s.toGateway (shortPublish .exactlyOnce) = some g' ∧
    Does deviceAddr s.toGateway g' [] [r] ∧ r.topic = "t1" ∧ r.qos = .exactlyOnce ∧
    ¬ Documented deviceAddr s.toGateway g' (shortPublish .exactlyOnce) := by
  let p := shortPublish .exactlyOnce
  obtain ⟨s₀, s, h₀, hrun, h⟩ := exists_run {} 0 [deviceOpens true] (fun s =>
    (s.clients.get deviceAddr).isSome && (publishFrom deviceAddr s.toGateway p).isSome &&
      (s.publicationOf deviceAddr p.flags p.topicId p.data).any
        (fun r => r.topic = "t1" && r.qos = .exactlyOnce)) (by decide +kernel)
  simp only [Bool.and_eq_true, isSome_iff_exists, any_eq_true] at h
  obtain ⟨⟨⟨c, hc⟩, g', hg'⟩, r, hr, htopic, hqos⟩ := h
  have hp : flagsToQos p.flags = .ok .exactlyOnce := by decide
  have hdoes := (publishFrom_spec hc hg').2
  simp only [outcome, hp, hr] at hdoes
  exact ⟨s, ⟨{}, 0, s₀, _, h₀, hrun⟩, g', r, hg', hdoes, of_decide_eq_true htopic,
    of_decide_eq_true hqos, fun hdoc => (documented_iff hc hg').1 hdoc hp⟩

end Gateway

end LumenMQ
