import LumenMQ.Broker.Moves
import LumenMQ.Net.MqttSn

set_option autoImplicit false

/-! # The moves of the gateway

What the gateway does to the shared state, move by move. Besides the moves it shares with the other
listeners it registers sessions, and its forwarders take messages out of the channels. -/

namespace LumenMQ

open Option

open Relation (ReflTransGen)

/-! ## Records -/

/-- What happens to the record of a device. -/
inductive SnOp where
  | register (now : Instant) (topicName : String)
  /-- A SUBSCRIBE that the subscription tree has accepted. -/
  | subscribe (now : Instant) (flags : UInt8) (topicName : String)
  | unsubscribe (now : Instant) (topicName : String)
  /-- The forwarder takes up a message. -/
  | deliver (msg : OutboundPublish)
  | touch (now : Instant)
  | sleep (until_ : Instant)

namespace SnClient

def new (clientId : String) (epoch : Nat) (clean : Bool) (keepAliveSecs : UInt16)
    (peer : SocketAddr) (now : Instant) : SnClient :=
  { clientId, epoch, clean, keepAliveSecs, lastSeen := now, peer }

def exec (c : SnClient) : SnOp → SnClient
  | .register now topicName => ((c.touch now).assignTopicId topicName).2
  | .subscribe now flags topicName => (Gateway.subscribeTopicId (c.touch now) flags topicName).2
  | .unsubscribe now topicName => (c.touch now).dropTopic topicName
  | .deliver msg => (Gateway.forwardPacket c msg).2
  | .touch now => c.touch now
  | .sleep until_ => { c with sleeping := true, sleepUntil := some until_ }

def run (c : SnClient) (ops : List SnOp) : SnClient := ops.foldl exec c

/-- The record of a device that has connected some time ago. -/
def Reached (c : SnClient) : Prop :=
  ∃ clientId epoch clean keepAliveSecs peer now ops,
    c = (new clientId epoch clean keepAliveSecs peer now).run ops

theorem Reached.exec {c : SnClient} (h : c.Reached) (op : SnOp) : (c.exec op).Reached := by
  obtain ⟨clientId, epoch, clean, keepAliveSecs, peer, now, ops, rfl⟩ := h
  refine ⟨clientId, epoch, clean, keepAliveSecs, peer, now, ops ++ [op], ?_⟩
  rw [run, run, List.foldl_append]
  rfl

end SnClient

namespace Gateway

variable {g g' : Gateway} {c : SnClient} {peer : SocketAddr} {epoch : Nat} {flags : UInt8}
  {msgId : UInt16}

/-- Two records of a device in the same state of its connection. -/
structure SameDevice (c c' : SnClient) : Prop where
  clientId : c'.clientId = c.clientId
  epoch : c'.epoch = c.epoch
  clean : c'.clean = c.clean
  sleeping : c'.sleeping = c.sleeping
  sleepUntil : c'.sleepUntil = c.sleepUntil

inductive Move (S : Scope) (g : Gateway) : Gateway → Prop
  | broker (b : BrokerState) (hb : g.broker.Move S b) : Move S g { g with broker := b }
  | books (peer : SocketAddr) (c c' : SnClient) (hc : g.clients.get peer = some c)
      (h : SameDevice c c') (hop : ∃ op, c' = c.exec op) : Move S g (g.putClient peer c')
  | asleep (peer : SocketAddr) (c : SnClient) (until_ : Instant) (hc : g.clients.get peer = some c)
      (hdepart : S.departs) :
      Move S g (g.putClient peer { c with sleeping := true, sleepUntil := some until_ })
  | leave (peer : SocketAddr) (c : SnClient) (hc : g.clients.get peer = some c)
      (hdepart : S.departs) : Move S g { g with clients := g.clients.erase peer }
  /-- A device connects: its session and its forwarder begin. -/
  | register (peer : SocketAddr) (clientId : String) (clean : Bool) (keepAliveSecs : UInt16)
      (h : S.registers clientId) : Move S g (g.registerClient peer clientId clean keepAliveSecs)
  /-- A forwarder takes a message out of its channel. -/
  | take (epoch : Nat) (f : Forwarder) (ch : Channel) (msg : OutboundPublish)
      (rest : List OutboundPublish) (hf : g.forwarders.get epoch = some f)
      (hch : g.broker.sessions.channels.get epoch = some ch) (hbuf : ch.buffer = msg :: rest) :
      Move S g { g with broker := takeChannel g.broker epoch ch rest }
  | dropForwarder (epoch : Nat) (f : Forwarder) (hf : g.forwarders.get epoch = some f) :
      Move S g (g.dropForwarder epoch)

abbrev Moves (S : Scope) : Gateway → Gateway → Prop := ReflTransGen (Move S)

variable {S : Scope}

theorem broker_moves {b : BrokerState} (h : g.broker.Moves S b) :
    Moves S g { g with broker := b } := by
  induction h with
  | refl => exact .refl
  | tail _ hstep ih => exact ih.tail (.broker _ hstep)

theorem send_moves (g : Gateway) (peer : SocketAddr) (packet : SnPacket) :
    Moves S g (g.send peer packet) :=
  .single (.broker _ (.wroteSn peer packet))

theorem SameDevice.refl (c : SnClient) : SameDevice c c := ⟨rfl, rfl, rfl, rfl, rfl⟩

theorem SameDevice.trans {a b : SnClient} (h : SameDevice a b) (h' : SameDevice b c) :
    SameDevice a c :=
  ⟨h'.clientId.trans h.clientId, h'.epoch.trans h.epoch, h'.clean.trans h.clean,
    h'.sleeping.trans h.sleeping, h'.sleepUntil.trans h.sleepUntil⟩

theorem putClient_moves (op : SnOp) (hc : g.clients.get peer = some c)
    (h : SameDevice c (c.exec op)) : Moves S g (g.putClient peer (c.exec op)) :=
  .single (.books peer c _ hc h ⟨op, rfl⟩)

theorem touch_same (c : SnClient) (now : Instant) : SameDevice c (c.touch now) :=
  ⟨rfl, rfl, rfl, rfl, rfl⟩

theorem assignTopicIdLoop_same (topic : String) (n : Nat) (c : SnClient) :
    SameDevice c (SnClient.assignTopicIdLoop topic n c).2 := by
  induction n generalizing c with
  | zero => exact .refl c
  | succ n ih =>
    unfold SnClient.assignTopicIdLoop
    dsimp only
    generalize (if topicIdMax ≤ c.nextTopicId then topicIdMin else c.nextTopicId + 1) = next
    split_ifs
    · exact SameDevice.trans (b := { c with nextTopicId := next }) ⟨rfl, rfl, rfl, rfl, rfl⟩ (ih _)
    · exact ⟨rfl, rfl, rfl, rfl, rfl⟩

theorem assignTopicId_same (c : SnClient) (topic : String) :
    SameDevice c (c.assignTopicId topic).2 := by
  unfold SnClient.assignTopicId
  split
  · exact .refl c
  · exact assignTopicIdLoop_same ..

theorem dropTopic_same (c : SnClient) (topic : String) : SameDevice c (c.dropTopic topic) := by
  unfold SnClient.dropTopic
  split
  · exact ⟨rfl, rfl, rfl, rfl, rfl⟩
  · exact .refl c

theorem forwardPacket_same (c : SnClient) (msg : OutboundPublish) :
    SameDevice c (forwardPacket c msg).2 := by
  obtain ⟨h1, h2, h3, h4, h5⟩ := assignTopicId_same c msg.topic
  unfold forwardPacket
  dsimp only
  split_ifs <;> exact ⟨h1, h2, h3, h4, h5⟩

theorem touch_moves (g : Gateway) (peer : SocketAddr) : Moves S g (g.touch peer) := by
  unfold touch
  split
  · next c hc => exact putClient_moves (.touch _) hc (touch_same ..)
  · exact .refl

/-- Every record is one of a device that has connected. -/
def Booked (g : Gateway) : Prop := ∀ peer c, g.clients.get peer = some c → c.Reached

theorem Booked.put (hg : g.Booked) (peer : SocketAddr) (hc : c.Reached) :
    (g.putClient peer c).Booked := by
  intro peer1 c1 hc1
  rcases FinMap.get_insert_cases hc1 with ⟨-, rfl⟩ | ⟨-, hc1⟩
  · exact hc
  · exact hg peer1 c1 hc1

theorem Move.booked (h : g.Move S g') (hg : g.Booked) : g'.Booked := by
  cases h with
  | books peer c c' hc h hop =>
    obtain ⟨op, rfl⟩ := hop
    exact hg.put peer ((hg peer c hc).exec op)
  | asleep peer c until_ hc => exact hg.put peer ((hg peer c hc).exec (.sleep until_))
  | leave peer c hc =>
    intro peer1 c1 hc1
    exact hg peer1 c1 (FinMap.get_of_erase hc1)
  | register peer clientId clean keepAliveSecs =>
    exact (hg.put (g := g) peer ⟨clientId, _, clean, keepAliveSecs, peer, _, [], rfl⟩ :)
  | broker | take | dropForwarder => exact hg

/-! ## Sessions -/

theorem cleanupSession_moves {b : BrokerState} {c : String} {clean : Bool} (hrem : S.removes c)
    (hdep : S.departs) : b.Moves S (cleanupSession b c epoch clean) := by
  unfold cleanupSession
  split_ifs
  · exact .refl
  · exact .head (.unsubscribeAll c hrem)
      (.head (.removeSession c hrem) (.single (.count _ hdep)))
  · exact .head (.markOffline c epoch) (.single (.count _ hdep))

theorem handleConnect_moves {protocolId : UInt8} {duration : UInt16} {c : String}
    (hreg : S.registers c) : Moves S g (g.handleConnect peer flags protocolId duration c) := by
  unfold handleConnect
  split
  · exact send_moves ..
  · exact .head (.register peer c _ _ hreg) (send_moves ..)

theorem sleep_moves (g : Gateway) (peer : SocketAddr) (duration : UInt16) (hdep : S.departs) :
    Moves S g (g.sleep peer duration) := by
  unfold sleep
  split
  · exact .refl
  · next c hc =>
    refine ReflTransGen.trans (broker_moves ?_) (.single (.asleep peer c _ hc hdep))
    dsimp only
    split_ifs
    · exact .head (.markOffline _ _) (.single (.count _ hdep))
    · exact .single (.count _ hdep)

theorem dropClient_moves (hrem : ∀ c, g.clients.get peer = some c → S.removes c.clientId)
    (hdep : S.departs) : Moves S g (g.dropClient peer) := by
  unfold dropClient
  split
  · exact .refl
  · next c hc =>
    refine .head (.leave peer c hc hdep) (broker_moves ?_)
    exact cleanupSession_moves (hrem c hc) hdep

theorem dropClient_clients {peer' : SocketAddr} (h : (g.dropClient peer).clients.get peer' = some c) :
    g.clients.get peer' = some c := by
  unfold dropClient at h
  split at h
  · exact h
  · exact FinMap.get_of_erase h

/-- What holds whichever device is dropped holds after the silent ones are. -/
theorem sweep_invariant {I : Gateway → Prop} (hdrop : ∀ g peer, I g → I (g.dropClient peer))
    (hg : I g) : I g.sweep := by
  unfold sweep
  generalize (g.clients.toPairs.filter (fun e => e.2.isExpired g.broker.now)).map Prod.fst = peers
  induction peers generalizing g with
  | nil => exact hg
  | cons peer peers ih => exact ih (hdrop g peer hg)

/-- Looking for silent devices removes sessions of devices only. -/
theorem sweep_moves (hrem : ∀ peer c, g.clients.get peer = some c → S.removes c.clientId)
    (hdep : S.departs) : Moves S g g.sweep := by
  unfold sweep
  generalize (g.clients.toPairs.filter (fun e => e.2.isExpired g.broker.now)).map Prod.fst = peers
  induction peers generalizing g with
  | nil => exact .refl
  | cons peer rest ih =>
    exact (dropClient_moves (hrem peer) hdep).trans
      (ih (fun p c h => hrem p c (dropClient_clients h)))

/-! ## Packets -/

theorem handleRegister_moves (g : Gateway) (peer : SocketAddr) (msgId : UInt16) (topic : String) :
    Moves S g (g.handleRegister peer msgId topic) := by
  unfold handleRegister
  split
  · next c hc =>
    exact (putClient_moves (.register _ topic) hc
      ((touch_same ..).trans (assignTopicId_same ..))).trans (send_moves ..)
  · exact send_moves ..

theorem handleSubscribe_moves {topic : Bytes}
    (hsub : ∀ c, g.clients.get peer = some c → S.subscribes c.clientId) :
    Moves S g (g.handleSubscribe peer flags msgId topic) := by
  unfold handleSubscribe
  split
  · exact send_moves ..
  · exact send_moves ..
  · next c _ hc =>
    dsimp only
    split
    · exact (putClient_moves (.touch _) hc (touch_same ..)).trans (send_moves ..)
    · next heq =>
      have hsame : SameDevice (c.touch g.broker.now)
          (subscribeTopicId (c.touch g.broker.now) flags (fromUtf8Lossy topic)).2 := by
        unfold subscribeTopicId
        split_ifs
        · exact .refl _
        · exact assignTopicId_same ..
      refine .head (.broker _ (.subscribe _ _ _ _ (hsub c hc) heq)) ?_
      refine ReflTransGen.trans (putClient_moves (.subscribe _ flags _) ?_
        ((touch_same ..).trans hsame)) (send_moves ..)
      exact hc

theorem handleUnsubscribe_moves {topic : Bytes}
    (hunsub : ∀ c, g.clients.get peer = some c → S.unsubscribes c.clientId) :
    Moves S g (g.handleUnsubscribe peer msgId topic) := by
  unfold handleUnsubscribe
  refine ReflTransGen.trans ?_ (send_moves ..)
  split
  · next c hc =>
    refine .head (.broker _ (.unsubscribe _ (fromUtf8Lossy topic) (hunsub c hc))) ?_
    refine putClient_moves (.unsubscribe _ _) ?_ ((touch_same ..).trans (dropTopic_same ..))
    exact hc
  · exact .refl

/-- The publication that a PUBLISH of a device asks for. -/
def publicationOf (g : Gateway) (peer : SocketAddr) (flags : UInt8) (topicId : UInt16)
    (data : Bytes) : Option Routed :=
  match flagsToQos flags, g.clients.get peer with
  | .ok qos, some c => (publishTopic c flags topicId).map (fun topic =>
    inboundPublish g.broker c.clientId topic data qos (flags &&& flagRetain ≠ 0))
  | _, _ => none

theorem touch_broker (g : Gateway) (peer : SocketAddr) : (g.touch peer).broker = g.broker := by
  unfold touch
  split <;> rfl

/-- What a PUBLISH of a device does: its publication is routed, if there is one, and it may be
    answered. -/
theorem handlePublish_cases {topicId : UInt16} {data : Bytes}
    (h : g.handlePublish peer flags topicId msgId data = some g') :
    ∃ g1, (g' = g1 ∨ ∃ code, g' = g1.send peer (.puback 0 topicId msgId code)) ∧
      (g.publicationOf peer flags topicId data = none ∧ (g1 = g ∨ g1 = g.touch peer) ∨
        ∃ r b, g.publicationOf peer flags topicId data = some r ∧ g.broker.route r = some b ∧
          g1 = { g.touch peer with broker := b }) := by
  unfold handlePublish at h
  unfold publicationOf
  cases hqos : flagsToQos flags with
  | error rc =>
    simp only [hqos, some.injEq] at h
    refine ⟨g, h ▸ ?_, .inl ⟨rfl, .inl rfl⟩⟩
    exact (ite_eq_or_eq ..).symm.imp_right (⟨rc, ·⟩)
  | ok qos =>
    cases hc : g.clients.get peer with
    | none =>
      simp only [hqos, hc, some.injEq] at h
      exact ⟨g, .inl h.symm, .inl ⟨rfl, .inl rfl⟩⟩
    | some c =>
      cases htopic : publishTopic c flags topicId with
      | none =>
        simp only [hqos, hc, htopic, some.injEq] at h
        refine ⟨g.touch peer, h ▸ ?_, .inl ⟨by simp [htopic], .inr rfl⟩⟩
        exact (ite_eq_or_eq ..).symm.imp_right (⟨_, ·⟩)
      | some topic =>
        simp only [hqos, hc, htopic] at h
        obtain ⟨b, hb, rfl⟩ := map_eq_some_iff.1 h
        rw [touch_broker] at hb
        refine ⟨_, ?_, .inr ⟨_, b, by simp [htopic], hb, rfl⟩⟩
        exact (ite_eq_or_eq ..).symm.imp_right (⟨_, ·⟩)

theorem handlePublish_moves {topicId : UInt16} {data : Bytes}
    (hroutes : ∀ r, g.publicationOf peer flags topicId data = some r → S.routes r)
    (hto : ∀ r, g.publicationOf peer flags topicId data = some r →
      ∀ c, c ≠ r.publisher → g.broker.reaches r.topic c = true → S.delivers c)
    (h : g.handlePublish peer flags topicId msgId data = some g') : Moves S g g' := by
  obtain ⟨g1, hanswer, hg1⟩ := handlePublish_cases h
  have hmoves : Moves S g g1 := by
    rcases hg1 with ⟨-, rfl | rfl⟩ | ⟨r, b, hr, hb, rfl⟩
    · exact .refl
    · exact touch_moves g peer
    · have hroute : g.broker.Moves S b := BrokerState.route_moves (hroutes r hr) (hto r hr) hb
      exact (touch_moves g peer).trans (broker_moves (touch_broker g peer ▸ hroute))
  rcases hanswer with rfl | ⟨code, rfl⟩
  · exact hmoves
  · exact hmoves.trans (send_moves ..)

/-- The publication that a datagram asks for. -/
def publication (g : Gateway) (peer : SocketAddr) (bytes : Bytes) : Option Routed :=
  match parsePacket (bytes.take 65535) with
  | .ok (.publish flags topicId _ data) => g.publicationOf peer flags topicId data
  | _ => none

theorem publication_ingress {bytes : Bytes} {r : Routed} (h : g.publication peer bytes = some r) :
    r.ingress = .mqttSn := by
  unfold publication publicationOf at h
  split at h
  · split at h
    · obtain ⟨topic, _, rfl⟩ := map_eq_some_iff.1 h
      rfl
    · simp at h
  · simp at h

/-- The client that a datagram connects. -/
def connects (bytes : Bytes) : Option String :=
  match parsePacket (bytes.take 65535) with
  | .ok (.connect _ _ _ c) => some c
  | _ => none

/-- The device that subscribes with a datagram. -/
def subscriber (g : Gateway) (peer : SocketAddr) (bytes : Bytes) : Option String :=
  match parsePacket (bytes.take 65535) with
  | .ok (.subscribe ..) => (g.clients.get peer).map SnClient.clientId
  | _ => none

/-- The device that unsubscribes with a datagram. -/
def unsubscriber (g : Gateway) (peer : SocketAddr) (bytes : Bytes) : Option String :=
  match parsePacket (bytes.take 65535) with
  | .ok (.unsubscribe ..) => (g.clients.get peer).map SnClient.clientId
  | _ => none

/-- The device whose session a datagram ends. -/
def disconnector (g : Gateway) (peer : SocketAddr) (bytes : Bytes) : Option String :=
  match parsePacket (bytes.take 65535) with
  | .ok (.disconnect none) => (g.clients.get peer).map SnClient.clientId
  | _ => none

/-- Whether a datagram is a DISCONNECT. -/
def departure (bytes : Bytes) : Bool :=
  match parsePacket (bytes.take 65535) with
  | .ok (.disconnect _) => true
  | _ => false

/-- What a datagram may do. -/
structure Serves (S : Scope) (g : Gateway) (peer : SocketAddr) (bytes : Bytes) : Prop where
  routes : ∀ r, g.publication peer bytes = some r → S.routes r
  delivers : ∀ r, g.publication peer bytes = some r →
    ∀ c, c ≠ r.publisher → g.broker.reaches r.topic c = true → S.delivers c
  registers : ∀ c, connects bytes = some c → S.registers c
  removes : ∀ c, g.disconnector peer bytes = some c → S.removes c
  subscribes : ∀ c, g.subscriber peer bytes = some c → S.subscribes c
  unsubscribes : ∀ c, g.unsubscriber peer bytes = some c → S.unsubscribes c
  departs : departure bytes = true → S.departs

/-- **A datagram is handled by a sequence of moves.** -/
theorem datagram_moves {bytes : Bytes} (hserve : Serves S g peer bytes)
    (h : g.datagram peer bytes = some g') : Moves S g g' := by
  obtain ⟨hroute, hto, hreg, hrem, hsub, hunsub, hdep⟩ := hserve
  unfold datagram at h
  unfold publication at hroute hto
  unfold connects at hreg
  unfold disconnector at hrem
  unfold subscriber at hsub
  unfold unsubscriber at hunsub
  unfold departure at hdep
  have hcl : ∀ {P : String → Prop},
      (∀ c, (g.clients.get peer).map SnClient.clientId = some c → P c) →
      ∀ c, g.clients.get peer = some c → P c.clientId :=
    fun h c hc => h c.clientId (by rw [hc]; rfl)
  cases hparse : parsePacket (bytes.take 65535) with
  | error e =>
    simp only [hparse, some.injEq] at h
    exact h ▸ .refl
  | ok packet =>
    simp only [hparse] at h hroute hto hreg hrem hsub hunsub hdep
    unfold handle at h
    cases packet with
    | connect flags protocolId duration c =>
      exact some.inj h ▸ handleConnect_moves (hreg c rfl)
    | register _ _ msgId topic => exact some.inj h ▸ handleRegister_moves ..
    | publish flags topicId msgId data => exact handlePublish_moves hroute hto h
    | subscribe flags msgId topic =>
      exact some.inj h ▸ handleSubscribe_moves (hcl hsub)
    | unsubscribe _ msgId topic => exact some.inj h ▸ handleUnsubscribe_moves (hcl hunsub)
    | pingreq => exact some.inj h ▸ (touch_moves g peer).trans (send_moves ..)
    | disconnect duration =>
      cases duration with
      | none => exact some.inj h ▸ dropClient_moves (hcl hrem) (hdep rfl)
      | some d => exact some.inj h ▸ sleep_moves _ _ _ (hdep rfl)
    | puback _ _ _ _ => exact some.inj h ▸ touch_moves ..
    | connack _ | regack _ _ _ _ | suback _ _ _ _ | unsuback _ | pingresp | unknown _ =>
      exact some.inj h ▸ .refl

/-! ## The forwarder -/

theorem forwardOne_moves {f : Forwarder} (msg : OutboundPublish) (sendOk : Bool)
    (hf : g.forwarders.get epoch = some f) : Moves S g (g.forwardOne epoch f msg sendOk) := by
  unfold forwardOne
  split
  · exact .single (.dropForwarder epoch f hf)
  · split
    · exact .single (.dropForwarder epoch f hf)
    · next c hc =>
      dsimp only
      split_ifs
      · exact .single (.dropForwarder epoch f hf)
      · exact (putClient_moves (.deliver msg) hc (forwardPacket_same ..)).trans (send_moves ..)
      · exact (putClient_moves (.deliver msg) hc (forwardPacket_same ..)).trans
          (.single (.dropForwarder epoch f hf))

theorem forward_moves {sendOk : Bool} (h : g.forward epoch sendOk = some g') : Moves S g g' := by
  unfold forward at h
  obtain ⟨f, hf, h⟩ := bind_eq_some_iff.1 h
  obtain ⟨ch, hch, h⟩ := bind_eq_some_iff.1 h
  cases hbuf : ch.buffer with
  | nil =>
    simp only [hbuf] at h
    split_ifs at h
    exact some.inj h ▸ .single (.dropForwarder epoch f hf)
  | cons msg rest =>
    simp only [hbuf, some.injEq] at h
    exact h ▸ .head (.take epoch f ch msg rest hf hch hbuf) (forwardOne_moves msg sendOk hf)

end Gateway

end LumenMQ
