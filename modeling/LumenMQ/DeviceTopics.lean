import LumenMQ.Epochs

set_option autoImplicit false

/-! # The topic identifiers a device has been told

A device learns the identifier of a topic from the REGACK or the SUBACK that answers its request.
The forwarder numbers topics as well, when a message is on a topic that the device has no identifier
for, and tells the device nothing. To say what a device has been told, the system is run with a list
of the bindings that were sent since the last start. -/

namespace LumenMQ

open Option List FinMap Gateway

/-- In the session with this epoch, an identifier stands for a topic. -/
structure Binding where
  epoch : Nat
  topicId : UInt16
  topic : String
deriving DecidableEq, Repr

namespace SnClient

variable {c : SnClient} {topic topic' : String} {id : UInt16}

theorem get_assignTopicIdLoop (n : Nat)
    (h : (assignTopicIdLoop topic n c).2.topicToId.get topic' = some id) :
    c.topicToId.get topic' = some id ∨
      topic' = topic ∧ id = (assignTopicIdLoop topic n c).1 := by
  induction n generalizing c with
  | zero => exact .inl h
  | succ n ih =>
    unfold assignTopicIdLoop at h ⊢
    dsimp only at h ⊢
    generalize (if topicIdMax ≤ c.nextTopicId then topicIdMin else c.nextTopicId + 1) = next at h ⊢
    by_cases htaken : c.nextTopicId = 0 ∨ (c.idToTopic.get c.nextTopicId).isSome = true
    · rw [if_pos htaken] at h ⊢
      exact ih (c := { c with nextTopicId := next }) h
    · rw [if_neg htaken] at h ⊢
      rcases get_insert_cases h with ⟨htop, rfl⟩ | ⟨-, h⟩
      · exact .inr ⟨htop, rfl⟩
      · exact .inl h

/-- A topic has the identifier it had, or is the one that was asked for. -/
theorem get_assignTopicId (h : (c.assignTopicId topic).2.topicToId.get topic' = some id) :
    c.topicToId.get topic' = some id ∨ topic' = topic ∧ id = (c.assignTopicId topic).1 := by
  unfold assignTopicId at h ⊢
  split at h
  · exact .inl h
  · exact get_assignTopicIdLoop _ h

/-- A topic that has an identifier keeps it. -/
theorem assignTopicId_of_some (h : c.topicToId.get topic = some id) :
    c.assignTopicId topic = (id, c) := by
  simp only [assignTopicId, h]

theorem get_dropTopic (h : (c.dropTopic topic).topicToId.get topic' = some id) :
    c.topicToId.get topic' = some id := by
  unfold dropTopic at h
  split at h
  · exact get_of_erase h
  · exact h

end SnClient

namespace Gateway

variable {g g' : Gateway} {T : List Binding}
variable {peer : SocketAddr} {epoch : Nat} {sendOk : Bool} {c : SnClient} {msg : OutboundPublish}
  {T' : List Binding}

/-! ## What is told and what is used -/

/-- The binding that the answer to a packet tells the device: a REGACK for the topic of its
    REGISTER, a SUBACK for the filter of its SUBSCRIBE, if it is accepted. -/
def tells (g : Gateway) (peer : SocketAddr) (packet : SnPacket) : Option Binding :=
  match packet, g.clients.get peer with
  | .register _ _ _ topicName, some c =>
    some ⟨c.epoch, ((c.touch g.broker.now).assignTopicId topicName).1, topicName⟩
  | .subscribe flags _ topic, some c =>
    let topicName := fromUtf8Lossy topic
    match flagsToQos flags with
    | .error _ => none
    | .ok qos =>
      match (g.broker.subscriptions.subscribe c.clientId topicName qos).1 with
      | .error _ => none
      | .ok () =>
        some ⟨c.epoch, (subscribeTopicId (c.touch g.broker.now) flags topicName).1, topicName⟩
  | _, _ => none

/-- The message that a forwarder sends to its device next, and the device's record. -/
def sends (g : Gateway) (epoch : Nat) (sendOk : Bool) : Option (SnClient × OutboundPublish) := do
  let f ← g.forwarders.get epoch
  let ch ← g.broker.sessions.channels.get epoch
  let msg ← ch.buffer.head?
  let c ← g.clients.get f.peer
  if g.broker.sessions.owns f.clientId epoch ∧ c.epoch = epoch ∧ sendOk then some (c, msg) else none

/-- What a device is told is in the packet that answers its own. -/
theorem handle_tells {packet : SnPacket} {binding : Binding}
    (htells : g.tells peer packet = some binding) (h : g.handle peer packet = some g') :
    ∃ c flags msgId, g.clients.get peer = some c ∧ c.epoch = binding.epoch ∧
      (g'.broker.trace.head? = some (.wroteSn peer (.regack flags binding.topicId msgId rcAccepted)) ∨
        g'.broker.trace.head? =
          some (.wroteSn peer (.suback flags binding.topicId msgId rcAccepted))) := by
  unfold tells at htells
  split at htells
  · next msgId topicName c hc =>
    cases htells
    refine ⟨c, 0, msgId, hc, rfl, .inl ?_⟩
    rw [← some.inj h]
    simp only [handleRegister, hc]
    rfl
  · next flags msgId topic c hc =>
    dsimp only at htells
    split at htells
    · cases htells
    · next qos hqos =>
      split at htells
      · cases htells
      · next hok =>
        cases htells
        refine ⟨c, qosToFlags qos, msgId, hc, rfl, .inr ?_⟩
        rw [← some.inj h]
        have hcl : (c.touch g.broker.now).clientId = c.clientId := rfl
        rcases hsub : g.broker.subscriptions.subscribe c.clientId (fromUtf8Lossy topic) qos with
          ⟨_ | ⟨⟩, subscriptions⟩
        · rw [hsub] at hok
          cases hok
        · simp only [handleSubscribe, hqos, hc, hcl, hsub]
          rfl
  · cases htells

theorem sends_cases (h : g.sends epoch sendOk = some (c, msg)) :
    ∃ f ch rest, g.forwarders.get epoch = some f ∧ g.broker.sessions.channels.get epoch = some ch ∧
      ch.buffer = msg :: rest ∧ g.clients.get f.peer = some c ∧ c.epoch = epoch ∧
      g.broker.sessions.owns f.clientId epoch = true ∧ sendOk = true := by
  unfold sends at h
  obtain ⟨f, hf, h⟩ := bind_eq_some_iff.1 h
  obtain ⟨ch, hch, h⟩ := bind_eq_some_iff.1 h
  obtain ⟨msg', hmsg, h⟩ := bind_eq_some_iff.1 h
  obtain ⟨rest, hbuf⟩ := head?_eq_some_iff.1 hmsg
  obtain ⟨c', hc, h⟩ := bind_eq_some_iff.1 h
  split_ifs at h with hcond
  obtain ⟨hown, hep, hok⟩ := hcond
  cases h
  exact ⟨f, ch, rest, hf, hch, hbuf, hc, hep, hown, hok⟩

theorem forwardOne_sends {f : Forwarder} (hown : g.broker.sessions.owns f.clientId epoch = true)
    (hc : g.clients.get f.peer = some c) (hep : c.epoch = epoch) (hok : sendOk = true) :
    (g.forwardOne epoch f msg sendOk).broker.trace.head? =
      some (.wroteSn f.peer (forwardPacket c msg).1) := by
  simp [forwardOne, hown, hc, hep, hok, send, onBroker, BrokerState.note]

/-- What is said to be sent is written to the device. -/
theorem forward_sends (hsends : g.sends epoch sendOk = some (c, msg))
    (h : g.forward epoch sendOk = some g') :
    ∃ f, g.forwarders.get epoch = some f ∧ g.clients.get f.peer = some c ∧
      g'.broker.trace.head? = some (.wroteSn f.peer (forwardPacket c msg).1) := by
  obtain ⟨f, ch, rest, hf, hch, hbuf, hc, hep, hown, hok⟩ := sends_cases hsends
  refine ⟨f, hf, hc, ?_⟩
  have hforward : g.forward epoch sendOk =
      some ((g.onBroker (fun b => takeChannel b epoch ch rest)).forwardOne epoch f msg sendOk) := by
    simp [forward, hf, hch, hbuf]
  rw [← some.inj (hforward.symm.trans h)]
  exact forwardOne_sends hown hc hep hok

/-! ## The records -/

/-- Whatever a record with a forwarder has an identifier for, its device has been told. -/
def Told (T : List Binding) (g : Gateway) : Prop :=
  ∀ peer c, g.clients.get peer = some c → (g.forwarders.get c.epoch).isSome = true →
    ∀ topic id, c.topicToId.get topic = some id → ⟨c.epoch, id, topic⟩ ∈ T

/-- Records and forwarders may go; the bindings that are new are told. -/
theorem Told.mono (hg : g.Told T) (hT : T ⊆ T')
    (hforwarder : ∀ k, (g'.forwarders.get k).isSome = true → (g.forwarders.get k).isSome = true)
    (hrec : ∀ peer c', g'.clients.get peer = some c' →
      (g'.forwarders.get c'.epoch).isSome = true →
      ∃ c, g.clients.get peer = some c ∧ c'.epoch = c.epoch ∧
        ∀ topic id, c'.topicToId.get topic = some id →
          c.topicToId.get topic = some id ∨ ⟨c.epoch, id, topic⟩ ∈ T') : g'.Told T' := by
  intro peer c' hc' hfwd topic id hid
  obtain ⟨c, hc, hep, hids⟩ := hrec peer c' hc' hfwd
  rw [hep]
  rcases hids topic id hid with hold | hnew
  · exact hT (hg peer c hc (hep ▸ hforwarder _ hfwd) topic id hold)
  · exact hnew

/-- The record of a device is replaced. -/
theorem Told.put (hg : g.Told T) (c' : SnClient) (hT : T ⊆ T') (hc : g.clients.get peer = some c)
    (hep : c'.epoch = c.epoch) (hids : ∀ topic id, c'.topicToId.get topic = some id →
      c.topicToId.get topic = some id ∨ ⟨c.epoch, id, topic⟩ ∈ T') :
    (g.putClient peer c').Told T' := by
  refine hg.mono hT (fun _ h => h) (fun peer1 c1 hc1 _ => ?_)
  rcases get_insert_cases hc1 with ⟨hpeer, rfl⟩ | ⟨-, hc1⟩
  · exact ⟨c, hpeer ▸ hc, hep, hids⟩
  · exact ⟨c1, hc1, rfl, fun _ _ h => .inl h⟩

theorem Told.touch (hg : g.Told T) (peer : SocketAddr) : (g.touch peer).Told T := by
  unfold Gateway.touch
  split
  · next c hc => exact hg.put _ (List.Subset.refl T) hc rfl (fun _ _ h => .inl h)
  · exact hg

theorem Told.dropClient (hg : g.Told T) (peer : SocketAddr) : (g.dropClient peer).Told T := by
  have hforwarders : (g.dropClient peer).forwarders = g.forwarders := by
    unfold Gateway.dropClient
    split <;> rfl
  refine hg.mono (List.Subset.refl T) (fun k h => hforwarders ▸ h) (fun peer1 c hc _ => ?_)
  exact ⟨c, dropClient_clients hc, rfl, fun _ _ h => .inl h⟩

theorem Told.sweep (hg : g.Told T) : g.sweep.Told T :=
  sweep_invariant (fun _ peer hg => hg.dropClient peer) hg

theorem Told.dropForwarder (hg : g.Told T) (epoch : Nat) : (g.dropForwarder epoch).Told T := by
  refine hg.mono (List.Subset.refl T) ?_ (fun _ c hc _ => ⟨c, hc, rfl, fun _ _ h => .inl h⟩)
  intro k hk
  change (get (g.forwarders.erase epoch) k).isSome = true at hk
  rw [get_erase] at hk
  split_ifs at hk
  · simp at hk
  · exact hk

/-- A device that connects has been told nothing, and its record is empty. -/
theorem Told.registerClient (hg : g.Told T)
    (hdrawn : ∀ peer c, g.clients.get peer = some c → c.epoch ≤ g.broker.sessions.epochCounter)
    (peer : SocketAddr) (clientId : String) (clean : Bool) (keepAliveSecs : UInt16) :
    (g.registerClient peer clientId clean keepAliveSecs).Told T := by
  intro peer1 c hc hfwd topic id hid
  rcases get_insert_cases hc with ⟨-, rfl⟩ | ⟨-, hc⟩
  · simp at hid
  · have hne : c.epoch ≠ g.broker.sessions.epochCounter + 1 :=
      fun h => absurd (h ▸ hdrawn peer1 c hc) (Nat.not_succ_le_self _)
    have hold : (g.forwarders.get c.epoch).isSome = true := by
      change (get (g.forwarders.insert (g.broker.sessions.epochCounter + 1) _)
        c.epoch).isSome = true at hfwd
      rwa [get_insert, if_neg hne] at hfwd
    exact hg peer1 c hc hold topic id hid

theorem Told.weaken (hg : g.Told T) (hT : T ⊆ T') : g.Told T' :=
  fun peer c hc hfwd topic id hid => hT (hg peer c hc hfwd topic id hid)

/-! ## Packets -/

theorem handleRegister_told (hg : g.Told T) (peer : SocketAddr) (flags : UInt8)
    (topicId msgId : UInt16) (topicName : String) :
    (g.handleRegister peer msgId topicName).Told
      ((g.tells peer (.register flags topicId msgId topicName)).toList ++ T) := by
  unfold handleRegister tells
  cases hc : g.clients.get peer with
  | none => exact hg
  | some c =>
    have hsame := (touch_same c g.broker.now).trans (assignTopicId_same _ topicName)
    refine (hg.put _ (subset_append_right _ _) hc hsame.epoch (fun topic id hid => ?_) :)
    rcases SnClient.get_assignTopicId hid with hold | ⟨rfl, rfl⟩
    · exact .inl hold
    · exact .inr mem_cons_self

theorem subscribeTopicId_same (c : SnClient) (flags : UInt8) (topicName : String) :
    SameDevice c (subscribeTopicId c flags topicName).2 := by
  unfold subscribeTopicId
  split_ifs
  · exact .refl c
  · exact assignTopicId_same c topicName

theorem get_subscribeTopicId {flags : UInt8} {topicName topic : String} {id : UInt16}
    (h : (subscribeTopicId c flags topicName).2.topicToId.get topic = some id) :
    c.topicToId.get topic = some id ∨
      topic = topicName ∧ id = (subscribeTopicId c flags topicName).1 := by
  unfold subscribeTopicId at h ⊢
  split_ifs at h ⊢
  · exact .inl h
  · exact SnClient.get_assignTopicId h

theorem handleSubscribe_told (hg : g.Told T) (peer : SocketAddr) (flags : UInt8) (msgId : UInt16)
    (topic : Bytes) :
    (g.handleSubscribe peer flags msgId topic).Told
      ((g.tells peer (.subscribe flags msgId topic)).toList ++ T) := by
  have hkept := hg.weaken (subset_append_right
    (g.tells peer (.subscribe flags msgId topic)).toList T)
  unfold handleSubscribe
  split
  · exact hkept
  · exact hkept
  · next qos c hqos hc =>
    dsimp only
    split
    · exact (hkept.put (c.touch g.broker.now) (List.Subset.refl _) hc rfl
        (fun _ _ h => .inl h) :)
    · next subscriptions hsub =>
      have htells : g.tells peer (.subscribe flags msgId topic) = some ⟨c.epoch,
          (subscribeTopicId (c.touch g.broker.now) flags (fromUtf8Lossy topic)).1,
          fromUtf8Lossy topic⟩ := by
        have hsub' : g.broker.subscriptions.subscribe c.clientId (fromUtf8Lossy topic) qos =
            (.ok (), subscriptions) := hsub
        simp only [tells, hc, hqos, hsub']
      have hsame := (touch_same c g.broker.now).trans
        (subscribeTopicId_same _ flags (fromUtf8Lossy topic))
      rw [htells]
      refine (hg.put _ (subset_append_right _ _) hc hsame.epoch (fun topic' id hid => ?_) :)
      rcases get_subscribeTopicId hid with hold | ⟨rfl, rfl⟩
      · exact .inl hold
      · exact .inr mem_cons_self

theorem handleUnsubscribe_told (hg : g.Told T) (peer : SocketAddr) (msgId : UInt16)
    (topic : Bytes) : (g.handleUnsubscribe peer msgId topic).Told T := by
  unfold handleUnsubscribe
  dsimp only
  split
  · next c hc =>
    have hsame := (touch_same c g.broker.now).trans (dropTopic_same _ (fromUtf8Lossy topic))
    refine (hg.put _ (List.Subset.refl T) hc hsame.epoch (fun topic' id hid => .inl ?_) :)
    exact (SnClient.get_dropTopic hid :)
  · exact hg

theorem sleep_told (hg : g.Told T) (peer : SocketAddr) (duration : UInt16) :
    (g.sleep peer duration).Told T := by
  unfold sleep
  split
  · exact hg
  · next c hc =>
    let until_ := g.broker.now + Duration.fromSecs duration.toNat
    exact (hg.put { c with sleeping := true, sleepUntil := some until_ } (List.Subset.refl T) hc rfl
      (fun _ _ h => .inl h) :)

theorem handlePublish_told {flags : UInt8} {topicId msgId : UInt16} {data : Bytes} (hg : g.Told T)
    (h : g.handlePublish peer flags topicId msgId data = some g') : g'.Told T := by
  obtain ⟨g1, hanswer, hg1⟩ := handlePublish_cases h
  have hg1 : g1.Told T := by
    rcases hg1 with ⟨-, rfl | rfl⟩ | ⟨r, b, -, -, rfl⟩
    · exact hg
    · exact hg.touch peer
    · exact (hg.touch peer :)
  rcases hanswer with rfl | ⟨code, rfl⟩ <;> exact hg1

theorem handle_told {packet : SnPacket} (hg : g.Told T)
    (hdrawn : ∀ peer c, g.clients.get peer = some c → c.epoch ≤ g.broker.sessions.epochCounter)
    (h : g.handle peer packet = some g') : g'.Told ((g.tells peer packet).toList ++ T) := by
  have hweaken : g'.Told T → g'.Told ((g.tells peer packet).toList ++ T) :=
    fun h => h.weaken (subset_append_right _ _)
  cases packet with
  | connect flags protocolId duration clientId =>
    refine hweaken (some.inj h ▸ ?_)
    unfold handleConnect
    split
    · exact hg
    · exact (hg.registerClient hdrawn peer clientId _ _ :)
  | register flags topicId msgId topicName =>
    exact some.inj h ▸ handleRegister_told hg peer flags topicId msgId topicName
  | publish => exact hweaken (handlePublish_told hg h)
  | subscribe flags msgId topic =>
    exact some.inj h ▸ handleSubscribe_told hg peer flags msgId topic
  | unsubscribe flags msgId topic =>
    exact hweaken (some.inj h ▸ handleUnsubscribe_told hg peer msgId topic)
  | pingreq | puback => exact hweaken (some.inj h ▸ hg.touch peer)
  | disconnect duration =>
    cases duration with
    | some duration => exact hweaken (some.inj h ▸ sleep_told hg peer duration)
    | none => exact hweaken (some.inj h ▸ hg.dropClient peer)
  | connack | regack | suback | unsuback | pingresp | unknown =>
    exact hweaken (some.inj h ▸ hg)

/-! ## The forwarder -/

/-- The forwarder of a device numbers no topic, or ends. -/
theorem forwardOne_told {f : Forwarder} (hg : g.Told T)
    (hknow : ∀ c, g.clients.get f.peer = some c → g.broker.sessions.owns f.clientId epoch = true →
      c.epoch = epoch → sendOk = true → (c.topicToId.get msg.topic).isSome = true) :
    (g.forwardOne epoch f msg sendOk).Told T := by
  unfold forwardOne
  split
  · exact hg.dropForwarder epoch
  · next hown =>
    split
    · exact hg.dropForwarder epoch
    · next c hc =>
      dsimp only
      split_ifs with hep hsend
      · exact hg.dropForwarder epoch
      · rw [not_not] at hep
        obtain ⟨id, hid⟩ := isSome_iff_exists.1
          (hknow c hc (by simpa using hown) hep hsend)
        have hrec : (forwardPacket c msg).2.topicToId = c.topicToId := by
          unfold forwardPacket
          rw [SnClient.assignTopicId_of_some hid]
          dsimp only
          split_ifs <;> rfl
        refine (hg.put _ (List.Subset.refl T) hc (forwardPacket_same c msg).epoch ?_ :)
        intro topic id' h
        exact .inl (hrec ▸ h)
      · -- what the record gained is not told, and its forwarder is gone
        rw [not_not] at hep
        intro peer1 c1 hc1 hfwd
        have hne : c1.epoch ≠ epoch := by
          intro heq
          change (get (g.forwarders.erase epoch) c1.epoch).isSome = true at hfwd
          rw [get_erase, if_pos heq] at hfwd
          simp at hfwd
        have hold : (g.forwarders.get c1.epoch).isSome = true := by
          change (get (g.forwarders.erase epoch) c1.epoch).isSome = true at hfwd
          rwa [get_erase, if_neg hne] at hfwd
        rcases get_insert_cases hc1 with ⟨-, rfl⟩ | ⟨-, hc1⟩
        · refine absurd ?_ hne
          rw [(forwardPacket_same c msg).epoch]
          exact hep
        · exact hg peer1 c1 hc1 hold

theorem forward_told (hg : g.Told T) (hknow : ∀ c msg, g.sends epoch sendOk = some (c, msg) →
      (c.topicToId.get msg.topic).isSome = true) (h : g.forward epoch sendOk = some g') :
    g'.Told T := by
  unfold forward at h
  obtain ⟨f, hf, h⟩ := bind_eq_some_iff.1 h
  obtain ⟨ch, hch, h⟩ := bind_eq_some_iff.1 h
  cases hbuf : ch.buffer with
  | nil =>
    simp only [hbuf] at h
    split_ifs at h
    exact some.inj h ▸ hg.dropForwarder epoch
  | cons msg rest =>
    simp only [hbuf, some.injEq] at h
    rw [← h]
    refine forwardOne_told hg (fun c hc hown hep hsend => ?_)
    refine hknow c msg ?_
    have hc' : g.clients.get f.peer = some c := hc
    have hown' : g.broker.sessions.owns f.clientId epoch = true := hown
    simp [sends, hf, hch, hbuf, hc', hown', hep, hsend]

end Gateway

/-! ## Runs -/

/-- The system with the bindings that devices have been told since the last start. -/
structure Informed extends Sys where
  told : List Binding := []

namespace Informed

variable {w w' : Informed}

/-- What devices have been told after an event. -/
def tells (w : Informed) : Event → List Binding
  | .datagram peer bytes =>
    match parsePacket (bytes.take 65535) with
    | .ok packet => (w.toGateway.tells peer packet).toList ++ w.told
    | .error _ => w.told
  | .restart _ => []
  | _ => w.told

def step (w : Informed) (e : Event) : Option Informed :=
  (w.toSys.step e).map (fun s => { s with told := w.tells e })

/-- The message that an event sends to a device, and the device's record. -/
def sends (w : Informed) : Event → Option (SnClient × OutboundPublish)
  | .forward k sendOk => w.toGateway.sends k sendOk
  | _ => none

/-- The identifier of every PUBLISH that is sent to a device stands for the topic of the message:
    the device has been told so in this session. -/
def Announced (w : Informed) (e : Event) : Prop :=
  ∀ c msg, w.sends e = some (c, msg) → ∀ flags topicId msgId data,
    (Gateway.forwardPacket c msg).1 = .publish flags topicId msgId data →
      ⟨c.epoch, topicId, msg.topic⟩ ∈ w.told

/-- A message is sent only on topics for which the device has an identifier. -/
def numbered (w : Informed) (e : Event) : Bool :=
  (w.sends e).all (fun (c, msg) => (c.topicToId.get msg.topic).isSome)

theorem step_told {e : Event} (hreach : w.toSys.Reachable) (hw : w.toGateway.Told w.told)
    (hcond : w.numbered e = true) (hstep : w.step e = some w') : w'.toGateway.Told w'.told := by
  obtain ⟨s, hs, rfl⟩ := map_eq_some_iff.1 hstep
  show s.Told (w.tells e)
  cases e with
  | datagram peer bytes =>
    obtain ⟨g, hg, rfl⟩ := map_eq_some_iff.1 hs
    show g.Told (w.tells (.datagram peer bytes))
    unfold datagram at hg
    unfold tells
    dsimp only
    cases hparse : parsePacket (bytes.take 65535) with
    | ok packet =>
      rw [hparse] at hg
      exact handle_told hw hreach.epochs.clients hg
    | error e =>
      rw [hparse] at hg
      exact some.inj hg ▸ hw
  | forward k sendOk =>
    obtain ⟨g, hg, rfl⟩ := map_eq_some_iff.1 hs
    refine forward_told hw (fun c msg hsends => ?_) hg
    simpa [numbered, sends, hsends] using hcond
  | sweepDevices =>
    rw [← some.inj hs]
    exact hw.sweep
  | restart config =>
    obtain ⟨b, -, rfl⟩ := Sys.restart_cases hs
    intro peer c hc
    simp at hc
  | connect peer bytes uuid credit arms =>
    cases hconn : w.toSys.connection (.connect peer bytes uuid credit arms) with
    | none =>
      obtain ⟨security, rfl⟩ := Sys.connect_refused hconn hs
      exact hw
    | some connect =>
      obtain ⟨_, _, _, _, t, -, rfl⟩ := Sys.connect_task hconn hs
      exact hw
  | arm k a =>
    obtain ⟨c, r, t, -, -, rfl⟩ := Sys.runArm_task hs
    exact hw
  | finish k =>
    obtain ⟨c, x, b, -, -, -, rfl⟩ := Sys.finish_cases hs
    exact hw
  | receive | transport | manualPublish =>
    obtain ⟨_, -, rfl⟩ := map_eq_some_iff.1 hs
    exact hw
  | _ =>
    rw [← some.inj hs]
    exact hw

/-- What a device has an identifier for it has been told, and the PUBLISH uses that identifier. -/
theorem announced_of_numbered {e : Event} (hw : w.toGateway.Told w.told)
    (hcond : w.numbered e = true) : w.Announced e := by
  intro c msg hsends flags topicId msgId data hpkt
  have hnum : (c.topicToId.get msg.topic).isSome = true := by
    simpa [numbered, hsends] using hcond
  obtain ⟨id, hid⟩ := isSome_iff_exists.1 hnum
  obtain rfl : id = topicId := by
    unfold forwardPacket at hpkt
    rw [SnClient.assignTopicId_of_some hid] at hpkt
    injection hpkt
  cases e with
  | forward k sendOk =>
    obtain ⟨f, _, _, hf, -, -, hc, hep, -⟩ :=
      sends_cases (g := w.toGateway) hsends
    refine hw f.peer c hc ?_ msg.topic id hid
    rw [hep, hf]
    rfl
  | _ => simp [sends] at hsends

/-- **The gateway only uses identifiers the device has been told along every run in which it only
    sends messages on topics for which the device has one.** -/
theorem announced_of_numbered_run {config : Settings} {now : Instant} {s₀ : Sys} {es : List Event}
    (h₀ : Sys.init config now = some s₀)
    (hmeets : Runs.Meets step (fun w e => w.numbered e = true) { s₀ with told := [] } es) :
    Runs.Meets step Announced { s₀ with told := [] } es := by
  refine Runs.meets_of_meets (I := fun w : Informed =>
    w.toSys.Reachable ∧ w.toGateway.Told w.told) ?_ ?_ ⟨⟨config, now, s₀, [], h₀, rfl⟩, ?_⟩ hmeets
  · intro w w' e hw hcond hstep
    refine ⟨?_, step_told hw.1 hw.2 hcond hstep⟩
    obtain ⟨s, hs, rfl⟩ := map_eq_some_iff.1 hstep
    exact hw.1.step hs
  · exact fun w e hw hcond => announced_of_numbered hw.2 hcond
  · obtain ⟨b, -, rfl⟩ := map_eq_some_iff.1 h₀
    intro peer c hc
    simp at hc

/-- The device subscribes to a filter of one character. -/
def subscribesTo (filter : UInt8) : Event :=
  .datagram Sys.deviceAddr [6, 0x11, 0x20, 0, 1, filter]

/-- A device subscribes, and a message is published on the topic `t`. -/
def publishedTo (filter : UInt8) : List Event :=
  [Sys.deviceOpens true, subscribesTo filter,
    .manualPublish { topic := "t", payload := "x", qos := 1 }]

/-- The device has subscribed to `t` itself, so the SUBACK has told it the identifier. -/
theorem announced_of_numbered_run_subscribed : ∃ s₀ w, Sys.init {} 0 = some s₀ ∧
    Runs.run step { s₀ with told := [] } (publishedTo 0x74) = some w ∧
    w.told = [⟨1, 1, "t"⟩] ∧ (w.sends (.forward 1 true)).isSome = true ∧
    Runs.Meets step Announced { s₀ with told := [] } (publishedTo 0x74 ++ [.forward 1 true]) := by
  have h : (Sys.init {} 0).any (fun s₀ =>
      Runs.meets step numbered { s₀ with told := [] } (publishedTo 0x74 ++ [.forward 1 true]) &&
        (Runs.run step { s₀ with told := [] } (publishedTo 0x74)).any (fun w =>
          w.told = [⟨1, 1, "t"⟩] && (w.sends (.forward 1 true)).isSome)) = true := by
    decide +kernel
  obtain ⟨s₀, h₀, h⟩ := (any_eq_true _ _).1 h
  obtain ⟨hmeets, hrun⟩ := Bool.and_eq_true_iff.1 h
  obtain ⟨w, hrun, hw⟩ := (any_eq_true _ _).1 hrun
  obtain ⟨htold, hsends⟩ := Bool.and_eq_true_iff.1 hw
  exact ⟨s₀, w, h₀, hrun, of_decide_eq_true htold, hsends, announced_of_numbered_run h₀
    (Runs.meets_of_check numbered (fun _ _ h => h) hmeets)⟩

/-- **A device that subscribes to a wildcard is sent identifiers it has not been told**: the SUBACK
    has named an identifier of the filter, and the PUBLISH bears a new one that no REGISTER
    announces. -/
theorem wildcard_not_announced : ∃ s₀ w c msg, Sys.init {} 0 = some s₀ ∧
    Runs.run step { s₀ with told := [] } (publishedTo 0x23) = some w ∧
    w.told = [⟨1, 1, "#"⟩] ∧ w.sends (.forward 1 true) = some (c, msg) ∧
    (Gateway.forwardPacket c msg).1 = .publish 0x20 2 1 [0x78] ∧
    ¬ w.Announced (.forward 1 true) := by
  have h : (Sys.init {} 0).any (fun s₀ =>
      (Runs.run step { s₀ with told := [] } (publishedTo 0x23)).any (fun w =>
        w.told = [⟨1, 1, "#"⟩] && (w.sends (.forward 1 true)).any (fun (c, msg) =>
          (forwardPacket c msg).1 = .publish 0x20 2 1 [0x78]))) = true := by
    decide +kernel
  obtain ⟨s₀, h₀, h⟩ := (any_eq_true _ _).1 h
  obtain ⟨w, hrun, hw⟩ := (any_eq_true _ _).1 h
  obtain ⟨htold, hsends⟩ := Bool.and_eq_true_iff.1 hw
  obtain ⟨⟨c, msg⟩, hsends, hpacket⟩ := (any_eq_true _ _).1 hsends
  refine ⟨s₀, w, c, msg, h₀, hrun, of_decide_eq_true htold, hsends, of_decide_eq_true hpacket,
    fun hannounced => ?_⟩
  have hmem := hannounced c msg hsends _ _ _ _ (of_decide_eq_true hpacket)
  rw [of_decide_eq_true htold] at hmem
  simp at hmem

end Informed

end LumenMQ
