import LumenMQ.Codec.Canonical
import LumenMQ.Guarding
import LumenMQ.Handshakes

set_option autoImplicit false

/-! # What the encoder accepts

A message reaches a subscriber as a PUBLISH packet, and a packet that the encoder refuses ends the
connection it was meant for. What a connection has received fits again, and so does a will. A device
and an administrator may bring in more than fits. -/

namespace LumenMQ

open Option List BrokerState

variable {t : Task} {e : Event} {b : BrokerState}

/-! ## Messages that fit -/

/-- The PUBLISH that is built for the message, on whatever connection, can be encoded. -/
def OutboundPublish.Encodable (m : OutboundPublish) : Prop :=
  ∀ (t : Task) (packet : Packet), (t.buildOutboundPacket m).1 = some packet →
    (t.codec.encode packet []).1 = .ok ()

/-- The topic fits its two-byte length, and the packet the fixed header. -/
def OutboundPublish.Fits (m : OutboundPublish) : Prop :=
  (stringBytes m.topic).length ≤ 65535 ∧
    2 + (stringBytes m.topic).length + (if m.qos = .atMostOnce then 0 else 2) + m.payload.length ≤
      0x0FFFFFFF

/-- The message a subscriber of this QoS gets. -/
def Routed.outbound (r : Routed) (subQos : QoS) : OutboundPublish :=
  { topic := r.topic, payload := r.payload, qos := deliveryQos r.qos subQos, retain := false }

/-- The publication as a message of its own QoS. -/
def Routed.message (r : Routed) : OutboundPublish :=
  { topic := r.topic, payload := r.payload, qos := r.qos, retain := r.retain }

/-- A message of the same content and no higher QoS fits as well. -/
theorem OutboundPublish.Fits.lower {m m' : OutboundPublish} (h : m.Fits)
    (htop : m.topic = m'.topic) (hpayload : m.payload = m'.payload) (hqos : m'.qos ≤ m.qos) :
    m'.Fits := by
  obtain ⟨hlen, hbody⟩ := h
  unfold Fits
  rw [← htop, ← hpayload]
  refine ⟨hlen, ?_⟩
  by_cases hzero : m'.qos = .atMostOnce
  · rw [if_pos hzero]
    split_ifs at hbody <;> omega
  · have hne : m.qos ≠ .atMostOnce := by
      intro heq
      rw [heq] at hqos
      revert hqos hzero
      cases m'.qos <;> decide
    rw [if_neg hne] at hbody
    rw [if_neg hzero]
    exact hbody

/-- The encoder's verdict on a packet. -/
theorem encode_ok_iff (codec : MqttCodec) (packet : Packet) (dst : Bytes) :
    (codec.encode packet dst).1 = .ok () ↔
      packet.FieldsFit ∧ packet.body.length ≤ 0x0FFFFFFF := by
  obtain ⟨hok, herr⟩ := encodePacketBody_okIff packet
  rw [MqttCodec.encode]
  by_cases hfit : packet.FieldsFit
  · rw [hok hfit]
    by_cases hlen : packet.body.length > 0x0FFFFFFF
    · simp [hlen, Nat.not_le.2 hlen]
    · simp [hlen, hfit, Nat.not_lt.1 hlen]
  · obtain ⟨e, he⟩ := herr hfit
    rw [he]
    simp [hfit]

/-- A CONNACK is always encoded. -/
theorem encode_connack (codec : MqttCodec) (c : Connack) (dst : Bytes) :
    (codec.encode (.connack c) dst).1 = .ok () := by
  refine (encode_ok_iff ..).2 ⟨by simp [Packet.FieldsFit, Packet.fields], ?_⟩
  show ([_, _] ++ if c.protocolLevel = mqtt5Level then Varint.encode 0 else []).length ≤ 0x0FFFFFFF
  have hzero : (Varint.encode 0).length ≤ 4 := Varint.length_encode_le (by decide)
  rw [length_append, length_cons, length_cons, length_nil]
  by_cases hlevel : c.protocolLevel = mqtt5Level
  · rw [if_pos hlevel]
    omega
  · rw [if_neg hlevel, length_nil]
    omega

/-- The encoder's verdict on a PUBLISH. -/
theorem encode_publish_iff (codec : MqttCodec) (p : Publish) (dst : Bytes) :
    (codec.encode (.publish p) dst).1 = .ok () ↔
      (stringBytes p.topic).length ≤ 65535 ∧ p.body.length ≤ 0x0FFFFFFF := by
  rw [encode_ok_iff]
  have hfields : (Packet.publish p).FieldsFit ↔ (stringBytes p.topic).length ≤ 65535 := by
    simp [Packet.FieldsFit, Packet.fields]
  rw [hfields]
  rfl

theorem length_body (p : Publish) :
    p.body.length = 2 + (stringBytes p.topic).length + (if p.packetId.isSome then 2 else 0) +
      p.payload.length := by
  cases hpid : p.packetId <;> simp [Publish.body, Reader.lengthPrefixed, optionalField, hpid] <;> omega

/-- A PUBLISH with an identifier exactly above QoS 0 is encoded if its message fits. -/
theorem encode_of_fits {codec : MqttCodec} {p : Publish}
    (hpid : p.packetId.isSome = true ↔ p.qos ≠ .atMostOnce) (dst : Bytes) :
    (codec.encode (.publish p) dst).1 = .ok () ↔ p.message.Fits := by
  rw [encode_publish_iff, length_body]
  unfold OutboundPublish.Fits Publish.message
  by_cases hqos : p.qos = .atMostOnce
  · have hnone : p.packetId.isSome = false := by
      rw [← Bool.not_eq_true, hpid]
      exact not_not_intro hqos
    simp [hqos, hnone]
  · simp [hqos, hpid.2 hqos]

/-- A connection with nothing in flight. -/
def idleTask : Task :=
  { broker := {
      config := {}
      sessions := { maxOfflineMessages := 0, offlineMessageTtl := 0 }
      retain := {}
      storage := none
      security := .disabled
      plugin := {}
      now := 0 }
    epoch := 1
    conn := { clientId := "", clean := true, peer := ⟨.v4 0, 0⟩, keepAlive := 0, lastActivity := 0 } }

/-- An idle connection has room for any message. -/
theorem idleTask_builds (m : OutboundPublish) :
    ∃ pid, (pid.isSome = true ↔ m.qos ≠ .atMostOnce) ∧
      (idleTask.buildOutboundPacket m).1 = some (buildPublish m pid) := by
  by_cases hqos : m.qos = .atMostOnce
  · exact ⟨none, by simp [hqos], by rw [Task.buildOutboundPacket, if_pos hqos]⟩
  · have hpid : allocatePid idleTask.conn.nextPid idleTask.conn.inflight = (1, 2) := rfl
    refine ⟨some 1, by simp [hqos], ?_⟩
    rw [Task.buildOutboundPacket, if_neg hqos, if_neg (by decide), hpid]
    rfl

theorem encodable_iff_fits (m : OutboundPublish) : m.Encodable ↔ m.Fits := by
  constructor
  · intro h
    obtain ⟨pid, hpid, hbuilt⟩ := idleTask_builds m
    exact (encode_of_fits hpid []).1 (h idleTask _ hbuilt)
  · intro h t packet hbuilt
    obtain ⟨pid, hpid, rfl⟩ := (t.buildOutboundPacket_frame m).2 packet hbuilt
    exact (encode_of_fits hpid []).2 h

/-! ## Failures to send -/

/-- Why a packet could not be sent: the transport is broken, or the encoder refuses it. -/
def Effect.Explained (e : Effect) : Prop :=
  ∀ k packet error, e = .sendFailed k packet error →
    error = .io "broken pipe" ∨ ∃ codec : MqttCodec, (codec.encode packet []).1 ≠ .ok ()

/-- A failure to send is explained where it happens. -/
theorem Task.Adds.explained {S : Scope} {e : Effect} (h : t.Adds S e) : e.Explained := by
  rintro k packet error rfl
  cases h with
  | broker _ h => cases h
  | sendFailed _ _ hw herr =>
    unfold Task.sendError at herr
    split at herr
    · next e' he' => exact .inr ⟨t.codec, by simp [he']⟩
    · exact .inl (some.inj herr).symm
    · simp at herr

theorem Sys.Adds.explained {S : Scope} {s : Sys} {e : Effect} (h : s.Adds S e) : e.Explained := by
  cases h with
  | broker _ h =>
    rintro k packet error rfl
    cases h
  | task k c _ hc h => exact h.explained

theorem Sys.Reachable.explained {s : Sys} (h : Reachable s) :
    ∀ e ∈ s.broker.trace, e.Explained := by
  refine h.moves_invariant (I := fun s => ∀ e ∈ s.broker.trace, e.Explained) ?_ ?_
  · intro config now s0 h0
    simp [init_trace h0]
  · intro s s' hs hmove e he
    exact (hmove.extends.mem he).elim (hs e) Adds.explained

/-! ## Wills -/

theorem admitConnect_will {config : Settings} {c c' : Connect} {uuid : String}
    (h : admitConnect config c uuid = .ok c') : c'.will = c.will := by
  have hassign : ∀ c1, assignClientId c uuid = .ok c1 → c1.will = c.will := by
    intro c1 h1
    unfold assignClientId at h1
    split_ifs at h1
    · cases h1
      rfl
    · cases h1
      rfl
  unfold admitConnect at h
  split_ifs at h
  · exact nomatch h
  cases h1 : assignClientId c uuid with
  | error e =>
    rw [h1] at h
    exact nomatch h
  | ok c1 =>
    simp only [h1, Bind.bind, Except.bind] at h
    split at h
    · cases h
      exact hassign _ h1
    · exact nomatch h

namespace Sys

variable {s s' : Sys}

/-- The wills that connections have left fit. -/
def WillsFit (s : Sys) : Prop :=
  ∀ c e w, s.broker.sessions.get c = some e → e.will = some w →
    (stringBytes w.topic).length ≤ 65535 ∧ w.message.length ≤ 65535

/-- A CONNECT that is accepted was decoded. -/
theorem connection_will {c : Connect} (h : s.connection e = some c) : ∀ w ∈ c.will, w.Fits := by
  unfold connection at h
  split at h
  · split at h
    · simp at h
    · obtain ⟨⟨c', rest⟩, haccs, rfl⟩ := map_eq_some_iff.1 h
      unfold accepts at haccs
      dsimp only at haccs
      split at haccs
      · next c0 rest0 hdec =>
        split at haccs
        · next c1 hadmit =>
          cases haccs
          intro w hw
          rw [admitConnect_will hadmit] at hw
          exact decode_connect_will hdec hw
        · simp at haccs
      · simp at haccs
  · simp at h

theorem Move.willsFit (hmove : s.Move { opens := fun c => ∀ w ∈ c.will, w.Fits } s')
    (h : s.WillsFit) : s'.WillsFit := by
  intro c e' w he' hw
  cases hmove.entry he' with
  | continues e hget hcont => exact h c e w hget (hcont.will w hw)
  | opened connect hopen hc hclean hwill =>
    rw [hwill] at hw
    obtain ⟨lw, hlw, rfl⟩ := map_eq_some_iff.1 hw
    exact hopen lw hlw
  | registered hreg hwill => simp [hwill] at hw
  | restored sm hrestored => simp [hrestored.will] at hw

theorem step_willsFit (hstep : s.step e = some s') (h : s.WillsFit) : s'.WillsFit :=
  moves_invariant (fun _ _ hs hmove => hmove.willsFit hs)
    (step_moves { allows_all s e with opens := fun _ hc => connection_will hc } hstep) h

theorem init_willsFit {config : Settings} {now : Instant} (h : init config now = some s) :
    s.WillsFit := by
  obtain ⟨b, hb, rfl⟩ := map_eq_some_iff.1 h
  intro c e w he hw
  simp [(new_restored hb he).will] at hw

end Sys

/-! ## What comes in -/

namespace Sys

variable {s s' : Sys}

/-- What a device publishes, and what an administrator publishes and the guards accept, fits. -/
def Fitting (s : Sys) (e : Event) : Prop :=
  ∀ r, s.publication e = some r → r.ingress = .mqttSn ∨ (r.ingress = .admin ∧ r.Passes) →
    r.message.Fits

/-- What a subscriber may be sent can be encoded, and nothing but the transport keeps a PUBLISH from
    being sent. -/
structure Sendable (s : Sys) : Prop where
  routed : ∀ r, .routed r ∈ s.broker.trace → ∀ subQos, (r.outbound subQos).Encodable
  retained : ∀ topic msg, s.broker.retain.map.get topic = some msg → ∀ subQos,
    (RetainStore.buildOutbound msg subQos).Encodable
  failed : ∀ k p error, .sendFailed k (.publish p) error ∈ s.broker.trace →
    error = .io "broken pipe"

/-- What a client has sent fits again. -/
theorem fits_of_nextInbound {p : Publish} (h : t.nextInbound = some (.publish p)) :
    (t.inboundPublish p).message.Fits := by
  unfold Task.nextInbound at h
  split at h
  · next packet hdec =>
    cases h
    obtain ⟨htop, hbody, hpid⟩ := decode_publish_fits
      (show t.codec.decode t.conn.buffer = (.ok (some (.publish p)), _) from
        Prod.ext hdec rfl)
    have hencode : (t.codec.encode (.publish p) []).1 = .ok () :=
      (encode_publish_iff t.codec p []).2 ⟨htop, hbody⟩
    exact (encode_of_fits hpid []).1 hencode
  · simp at h

theorem fits_of_pendingWill {c : String} {epoch : Nat} {w : WillMessage} (hwills : s.WillsFit)
    (h : s.broker.pendingWill c epoch = some w) : (s.broker.willRouted c w).message.Fits := by
  unfold pendingWill SessionManager.takeWill at h
  split at h
  · next e hget =>
    split_ifs at h
    obtain ⟨htop, hmsg⟩ := hwills c e w hget h
    refine ⟨htop, ?_⟩
    have hid : (if w.qos = .atMostOnce then 0 else 2) ≤ 2 := by split_ifs <;> omega
    change 2 + (stringBytes w.topic).length + (if w.qos = .atMostOnce then 0 else 2) +
      w.message.length ≤ 0x0FFFFFFF
    omega
  · simp at h

/-- What the guards accept of an administrator is routed. -/
theorem mem_trace_manualPublish {b' : BrokerState} {req : ManualPublishRequest} {qos : QoS}
    {response : ActionResponse} (hqos : BrokerState.qosOfRequest req.qos = some qos)
    (hpass : (b.manualRouted req qos).Passes) (h : b.manualPublish req = some (response, b')) :
    .routed (b.manualRouted req qos) ∈ b'.trace := by
  obtain ⟨hnone, -⟩ | ⟨qos', security, hqos', hroute⟩ := manualPublish_cases h
  · simp [hqos] at hnone
  · obtain rfl : qos' = qos := some.inj (hqos'.symm.trans hqos)
    rcases hroute with ⟨hno, -⟩ | ⟨-, hroute⟩
    · exact absurd hpass hno
    · exact mem_trace_route hroute

/-- After a step everything routed fits exactly if that was so before and the step brings in nothing
    else. -/
theorem allFit_step_iff (hwills : s.WillsFit) (hstep : s.step e = some s') :
    AllRouted (fun r => r.message.Fits) s'.broker.trace ↔
      AllRouted (fun r => r.message.Fits) s.broker.trace ∧ s.Fitting e := by
  constructor
  · intro h
    refine ⟨fun r hr => h r ((step_trace hstep).subset hr), ?_⟩
    rintro r hpub (hdev | ⟨hadmin, hpass⟩)
    · exact h r (mem_trace_step hstep hpub (by rw [hdev]; exact not_false))
    · cases publication_published hpub with
      | admin req qos hqos hr =>
        subst hr
        obtain ⟨⟨response, b⟩, hb, rfl⟩ := map_eq_some_iff.1 hstep
        exact h _ (mem_trace_manualPublish hqos hpass hb)
      | packet k a c p ha hc hnext hr => simp [hr, Task.inboundPublish] at hadmin
      | will k c w hc hw hr => simp [hr, willRouted] at hadmin
      | device peer bytes hr => simp [Gateway.publication_ingress hr] at hadmin
  · rintro ⟨h, hcond⟩
    refine step_allRouted hstep (fun r hpub hguard => ?_) h
    cases publication_published hpub with
    | packet k a c p ha hc hnext hr => exact hr ▸ fits_of_nextInbound hnext
    | will k c w hc hw hr => exact hr ▸ fits_of_pendingWill hwills hw
    | device peer bytes hr => exact hcond r hpub (.inl (Gateway.publication_ingress hr))
    | admin req qos hqos hr =>
      subst hr
      exact hcond _ hpub (.inr ⟨rfl, hguard trivial⟩)

/-- **A publisher cannot break a subscriber's connection, exactly if what devices and administrators
    publish fits.** -/
theorem sendable_iff {config : Settings} {now : Instant} {s₀ s : Sys} {es : List Event}
    (h₀ : init config now = some s₀) (hrun : s₀.run es = some s) :
    s.Sendable ↔ s₀.Meets Fitting es := by
  have hinit : AllRouted (fun r => r.message.Fits) s₀.broker.trace := by
    intro r hr
    simp [init_trace h₀] at hr
  have hiff := run_iff (J := fun s => AllRouted (fun r => r.message.Fits) s.broker.trace)
    (fun _ _ _ hs hstep => step_willsFit hstep hs) (fun _ _ _ hs hstep => allFit_step_iff hs hstep)
    (init_willsFit h₀) hrun
  rw [and_iff_right hinit] at hiff
  rw [← hiff]
  have hreach : Reachable s := ⟨config, now, s₀, es, h₀, hrun⟩
  constructor
  · intro h r hr
    -- a subscriber of QoS 2 gets the publication at its own QoS
    have hqos : deliveryQos r.qos .exactlyOnce = r.qos := by cases r.qos <;> rfl
    have hfits := (encodable_iff_fits _).1 (h.routed r hr .exactlyOnce)
    exact hfits.lower rfl rfl hqos.ge
  · intro h
    have hsourced : ∀ m, s.Holds m → m.Fits := by
      intro m hm
      obtain ⟨r, hr, htopic, hpayload, hqos⟩ := hreach.sourced m hm
      exact (h r hr).lower htopic hpayload hqos
    refine ⟨?_, ?_, ?_⟩
    · intro r hr subQos
      exact (encodable_iff_fits _).2 ((h r hr).lower rfl rfl (deliveryQos_le ..))
    · intro topic msg hmsg subQos
      have hfits := hsourced msg.message (.broker (.retained topic msg hmsg))
      exact (encodable_iff_fits _).2 (hfits.lower rfl rfl (min_le_left _ _))
    · intro k p error hfailed
      have hfits := hsourced p.message (.broker (.trace _ p.message hfailed rfl))
      have hnumbered := hreach.numbered.2 _ hfailed k p (.inr ⟨error, rfl⟩)
      rcases hreach.explained _ hfailed k _ error rfl with hio | ⟨codec, hcodec⟩
      · exact hio
      · exact absurd ((encode_of_fits hnumbered []).2 hfits) hcodec

theorem sendable_iff_deviceRun : ∃ s₀ s, init {} 0 = some s₀ ∧ s₀.run deviceRun = some s ∧
    (s.Sendable ↔ s₀.Meets Fitting deviceRun) := by
  obtain ⟨s₀, s, h₀, hrun, -⟩ := exists_run {} 0 deviceRun (fun _ => true) (by decide +kernel)
  exact ⟨s₀, s, h₀, hrun, sendable_iff h₀ hrun⟩

end Sys

/-! ## A topic that does not fit -/

theorem length_stringBytes_replicate (n : Nat) :
    (stringBytes (String.ofList (List.replicate n 'a'))).length = n := by
  have hsize : ∀ n, (replicate n 'a').utf8Encode.size = n := by
    intro n
    induction n with
    | zero => rfl
    | succ n ih =>
      rw [replicate_succ, utf8Encode_cons, ByteArray.size_append, ih]
      exact Nat.add_comm 1 n
  simp [stringBytes, hsize]

/-- A topic of 65536 bytes. -/
def longTopic : String := String.ofList (List.replicate 65536 'a')

theorem length_longTopic : (stringBytes longTopic).length = 65536 :=
  length_stringBytes_replicate 65536

/-- Nobody is there to deliver to. -/
theorem BrokerState.deliverAll_of_no_session (hnone : ∀ c, b.sessions.get c = none) (topic : String)
    (payload : Bytes) (qos : QoS) (exclude : String) (subscribers : List (String × QoS)) :
    deliverAll topic payload qos exclude subscribers b = some b := by
  induction subscribers with
  | nil => rfl
  | cons subscriber rest ih =>
    obtain ⟨c, subQos⟩ := subscriber
    unfold deliverAll
    split_ifs
    · exact ih
    · have hdel : b.deliverOne c topic payload qos subQos = some b := by
        simp [deliverOne, deliver, SessionManager.deliverOrEnqueue, hnone c, noteDiscarded]
      rw [hdel]
      exact ih

theorem BrokerState.exists_route_of_no_session (hnone : ∀ c, b.sessions.get c = none) (r : Routed) :
    ∃ b', b.route r = some b' := by
  have hpub : ∀ b1 : BrokerState, b1.sessions = b.sessions → ∃ b', deliverAll r.topic r.payload
      r.qos r.publisher (b1.collectSubscribers r.topic).1 (b1.collectSubscribers r.topic).2 =
        some b' := by
    intro b1 hsame
    refine ⟨_, deliverAll_of_no_session (fun c => ?_) ..⟩
    exact (congrArg (fun sm => sm.get c) hsame).trans (hnone c)
  unfold route publish
  by_cases hret : r.retain = true
  · simp only [if_pos hret]
    exact hpub _ rfl
  · simp only [if_neg hret]
    exact hpub _ rfl

/-- The broker of a default configuration, without storage. -/
def freshBroker : BrokerState :=
  { config := {}
    sessions := { maxOfflineMessages := 1000, offlineMessageTtl := Duration.fromSecs 86400 }
    retain := { maxPayloadBytes := 1024 * 1024 }
    storage := none
    security := .disabled
    plugin := .new {}
    now := 0 }

/-- Whatever topic an administrator publishes on, without a policy it is routed. -/
theorem manual_topic_routed (topic : String) :
    ∃ s0 s r, Sys.init {} 0 = some s0 ∧
      s0.run [.manualPublish { topic, payload := "" }] = some s ∧
      .routed r ∈ s.broker.trace ∧ r.topic = topic := by
  let req : ManualPublishRequest := { topic, payload := "" }
  let r := freshBroker.manualRouted req .atMostOnce
  obtain ⟨b, hb⟩ := freshBroker.exists_route_of_no_session (fun _ => rfl) r
  have hstep : freshBroker.manualPublish req =
      (freshBroker.route r).map (fun b => ({ message := s!"published to '{topic}'" }, b)) := rfl
  refine ⟨{ broker := freshBroker }, { broker := b }, r, rfl, ?_, mem_trace_route hb, rfl⟩
  refine Runs.run_cons.2 ⟨{ broker := b }, ?_, rfl⟩
  change (freshBroker.manualPublish req).map _ = _
  rw [hstep, hb]
  rfl

/-- **A topic that no PUBLISH can carry is routed**, when an administrator publishes on it. -/
theorem long_manual_topic_not_sendable : ∃ s₀ s, Sys.init {} 0 = some s₀ ∧
    s₀.run [.manualPublish { topic := longTopic, payload := "" }] = some s ∧ ¬ s.Sendable := by
  obtain ⟨s₀, s, r, h₀, hrun, hr, htopic⟩ := manual_topic_routed longTopic
  refine ⟨s₀, s, h₀, hrun, fun h => ?_⟩
  have hfits : (r.outbound .atMostOnce).Fits := (encodable_iff_fits _).1 (h.routed r hr .atMostOnce)
  have hlen : (stringBytes r.topic).length ≤ 65535 := hfits.1
  rw [htopic, length_longTopic] at hlen
  exact absurd hlen (by decide)

end LumenMQ
