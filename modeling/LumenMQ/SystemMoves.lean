import LumenMQ.Lib.Runs
import LumenMQ.Broker.ConnectionMoves
import LumenMQ.Broker.Restart
import LumenMQ.Net.MqttSnMoves
import LumenMQ.System

set_option autoImplicit false

/-! # The moves of the system

Every step of the system is a sequence of moves of its parts, together with the few moves of its
own: a connection is opened or closed, time passes, the process is started again. A run is a
sequence of steps, each of which meets a condition on the event and the state before it. -/

namespace LumenMQ

open Option BrokerState

open Relation (ReflTransGen)
open Process

/-- The listeners that ask the guards. -/
def Ingress.Guarded : Ingress → Prop
  | .mqtt | .admin => True
  | .mqttSn | .will => False

/-- The bytes of a packet. -/
def Packet.frame (packet : Packet) : Bytes := (MqttCodec.encode { maxPacketSize := 0 } packet []).2

namespace Sys

variable {C : Sys → Event → Prop} {s s' : Sys} {es : List Event} {I : Sys → Prop} {e : Event}
  {b : BrokerState} {k : Nat} {peer : SocketAddr} {credit : Option Nat} {arms : List ReplayArm}
  {bytes : Bytes} {uuid : String}

theorem restart_cases {config : Settings} (h : s.restart config = some s') :
    ∃ b, new config s.broker.storage s.broker.now = some b ∧
      { broker := { b with trace := s.broker.trace } } = s' := by
  unfold restart at h
  split_ifs at h
  exact map_eq_some_iff.1 h

/-- The end of a connection: its loop was left, and the session was seen to. -/
theorem finish_cases (h : s.finish k = some s') :
    ∃ c x b, s.conns.get k = some c ∧ c.exit = some x ∧
      s.broker.afterExit c.clientId k c.clean x = some b ∧
      { s with broker := b.dropConnection k c, conns := s.conns.erase k } = s' := by
  obtain ⟨c, hc, h⟩ := bind_eq_some_iff.1 h
  obtain ⟨x, hx, h⟩ := bind_eq_some_iff.1 h
  obtain ⟨b, hb, h⟩ := bind_eq_some_iff.1 h
  exact ⟨c, x, b, hc, hx, hb, some.inj h⟩

/-! ## Runs -/

/-- Every step of a run meets a condition on the event and on the state before it. -/
def Meets (C : Sys → Event → Prop) (s : Sys) : List Event → Prop
  | [] => True
  | e :: es => C s e ∧ ∀ s', s.step e = some s' → Meets C s' es

/-- A property holds in every state of a run. -/
def Always (J : Sys → Prop) (s : Sys) (es : List Event) : Prop := Runs.Always step J s es

/-- The states of a system that was started on an empty storage. -/
def Reachable (s : Sys) : Prop :=
  ∃ config now s₀ es, init config now = some s₀ ∧ s₀.run es = some s

theorem meets_iff : s.Meets C es ↔ Runs.Meets step C s es := by
  induction es generalizing s with
  | nil => exact Iff.rfl
  | cons e es ih => exact and_congr_right (fun _ => forall₂_congr (fun _ _ => ih))

/-- A run that was seen to return has a first and a last state. -/
theorem exists_run (config : Settings) (now : Instant) (es : List Event) (p : Sys → Bool)
    (h : ((init config now).bind (fun s => s.run es)).any p = true) :
    ∃ s0 s, init config now = some s0 ∧ s0.run es = some s ∧ p s = true := by
  cases hs : (init config now).bind (fun s => s.run es) with
  | none => simp [hs] at h
  | some s =>
    obtain ⟨s0, h0, hrun⟩ := bind_eq_some_iff.1 hs
    exact ⟨s0, s, h0, hrun, by simpa [hs] using h⟩

/-- Whether every step of a run meets a condition that can be checked. -/
def meets (C : Sys → Event → Bool) (s : Sys) (es : List Event) : Bool := Runs.meets step C s es

/-- A run that was seen to return, with a condition that was checked on the way. -/
theorem exists_run_meets (check : Sys → Event → Bool) (hcheck : ∀ s e, check s e = true → C s e)
    (config : Settings) (now : Instant) (es : List Event) (p : Sys → Bool)
    (h : (init config now).any (fun s => s.meets check es && (s.run es).any p) = true) :
    ∃ s0 s, init config now = some s0 ∧ s0.run es = some s ∧ s0.Meets C es ∧ p s = true := by
  obtain ⟨s0, h0, h⟩ := (any_eq_true _ _).1 h
  obtain ⟨hmeets, hrun⟩ := Bool.and_eq_true_iff.1 h
  obtain ⟨s, hrun, hp⟩ := (any_eq_true _ _).1 hrun
  exact ⟨s0, s, h0, hrun, meets_iff.2 (Runs.meets_of_check check hcheck hmeets), hp⟩

/-- A step that was seen to return is one from a state that is reached. -/
theorem exists_step (config : Settings) (now : Instant) (es : List Event) (e : Event)
    (p : Sys → Sys → Bool)
    (h : ((init config now).bind (fun s => s.run es)).any (fun s => (s.step e).any (p s)) = true) :
    ∃ s s', Reachable s ∧ s.step e = some s' ∧ p s s' = true := by
  obtain ⟨s0, s, h0, hrun, hs⟩ := exists_run config now es _ h
  obtain ⟨s', hstep, hp⟩ := (any_eq_true _ _).1 hs
  exact ⟨s, s', ⟨config, now, s0, es, h0, hrun⟩, hstep, hp⟩

/-- A client connects over TCP, and the broker's answer and the replay go through. -/
def opens (clientId : String) (clean : Bool) : Event :=
  .connect dummyAddr (Packet.frame (.connect {
    protocolLevel := mqtt311Level, keepAlive := 60, clientId, cleanSession := clean, will := none
    username := none, password := none, properties := none })) "" none []

/-- A connection receives a packet and handles it. -/
def sends (epoch : Nat) (packet : Packet) : List Event :=
  [.receive epoch packet.frame, .arm epoch .inbound]

/-- A SUBSCRIBE to the topic `t`. -/
def subscribeT : Packet := .subscribe { packetId := 1, topics := [⟨"t", .atLeastOnce⟩] }

def deviceAddr : SocketAddr := ⟨.v4 0, 1884⟩

/-- The device `d` connects. -/
def deviceOpens (clean : Bool) : Event :=
  .datagram deviceAddr [7, 0x04, if clean then flagClean else 0, protocolIdMqttsn, 0, 60, 0x64]

/-- The device goes to sleep for a while. -/
def deviceSleeps : Event := .datagram deviceAddr [4, 0x17, 0, 10]

def deviceDisconnects : Event := .datagram deviceAddr [2, 0x17]

/-- What every step keeps that meets the condition is kept along a run. -/
theorem run_invariant (hstep : ∀ s s' e, I s → C s e → s.step e = some s' → I s') (hs : I s)
    (hmeets : s.Meets C es) (hrun : s.run es = some s') : I s' :=
  Runs.run_invariant hstep hs (meets_iff.1 hmeets) hrun

/-- A property that a step leaves true exactly if it meets the condition holds at the end of a run
    exactly if it held at first and every step meets the condition. -/
theorem run_iff {J : Sys → Prop} (hinv : ∀ s s' e, I s → s.step e = some s' → I s')
    (hstep : ∀ s s' e, I s → s.step e = some s' → (J s' ↔ J s ∧ C s e)) (hs : I s)
    (hrun : s.run es = some s') : J s' ↔ J s ∧ s.Meets C es := by
  rw [meets_iff]
  exact Runs.run_iff hinv hstep hs hrun

/-- A property that a step keeps exactly if it meets the condition holds all along a run exactly if
    every step meets the condition. -/
theorem run_always_iff {J : Sys → Prop} (hinv : ∀ s s' e, I s → s.step e = some s' → I s')
    (hstep : ∀ s s' e, I s → J s → s.step e = some s' → (J s' ↔ C s e)) (hs : I s) (hJ : J s)
    (hrun : s.run es = some s') : s.Always J es ↔ s.Meets C es := by
  rw [meets_iff]
  exact Runs.run_always_iff (E := fun _ => True) (fun s s' e _ => hinv s s' e)
    (fun s s' e _ => hstep s s' e) (fun _ _ => trivial) hs hJ hrun

theorem meets_true (s : Sys) (es : List Event) : s.Meets (fun _ _ => True) es :=
  meets_iff.2 (Runs.meets_of_forall (fun _ _ => trivial) s es)

theorem init_trace {config : Settings} {now : Instant} (h : init config now = some s) :
    s.broker.trace = [] := by
  obtain ⟨b, hb, rfl⟩ := map_eq_some_iff.1 h
  exact new_trace hb

theorem init_conns {config : Settings} {now : Instant} (h : init config now = some s) :
    s.conns = ∅ := by
  obtain ⟨b, -, rfl⟩ := map_eq_some_iff.1 h
  rfl

/-- What holds at first and is kept by every step holds in every state that is reached. -/
theorem Reachable.invariant (h : Reachable s)
    (hinit : ∀ config now s0, init config now = some s0 → I s0)
    (hstep : ∀ s s' e, I s → s.step e = some s' → I s') : I s := by
  obtain ⟨config, now, s0, es, h0, hrun⟩ := h
  exact run_invariant (fun s s' e hs _ h => hstep s s' e hs h) (hinit config now s0 h0)
    (meets_true s0 es) hrun

theorem Reachable.run (h : Reachable s) (hrun : s.run es = some s') : Reachable s' := by
  obtain ⟨config, now, s0, es0, h0, hrun0⟩ := h
  exact ⟨config, now, s0, es0 ++ es, h0, Runs.run_append.2 ⟨s, hrun0, hrun⟩⟩

theorem Reachable.step (h : Reachable s) (hstep : s.step e = some s') : Reachable s' :=
  h.run (show s.run [e] = some s' from Runs.run_cons.2 ⟨s', hstep, rfl⟩)

/-! ## Moves -/

inductive Move (S : Scope) (s : Sys) : Sys → Prop
  | gateway (g : Gateway) (hg : s.toGateway.Move S g) : Move S s (s.ofGateway g)
  | task (k : Nat) (c : Conn) (t : Task) (hc : s.conns.get k = some c)
      (ht : (s.task k c).Move S t) (hact : S.acts k) : Move S s (s.ofTask t)
  | openSession (connect : Connect) (peer : SocketAddr) (buffer : Bytes) (credit : Option Nat)
      (hopen : S.opens connect) :
      Move S s (s.ofTask (s.broker.openSession connect peer buffer credit).2)
  | close (k : Nat) (c : Conn) (hc : s.conns.get k = some c) (hexit : c.exit.isSome = true)
      (hact : S.acts k) (hclose : S.closes k) :
      Move S s { s with broker := s.broker.dropConnection k c, conns := s.conns.erase k }
  | tick (d : Duration) : Move S s (s.onBroker (fun b => { b with now := b.now + d }))
  | restart (config : Settings) (s' : Sys) (hrestart : S.restarts)
      (h : s.restart config = some s') : Move S s s'

abbrev Moves (S : Scope) : Sys → Sys → Prop := ReflTransGen (Move S)

variable {S : Scope}

theorem gateway_moves {g : Gateway} (h : s.toGateway.Moves S g) : Moves S s (s.ofGateway g) := by
  induction h with
  | refl => exact .refl
  | tail _ hstep ih => exact ih.tail (.gateway _ hstep)

theorem broker_moves (h : s.broker.Moves S b) : Moves S s { s with broker := b } :=
  gateway_moves (Gateway.broker_moves h)

theorem ofTask_ofTask {t t' : Task} (h : t'.epoch = t.epoch) :
    (s.ofTask t).ofTask t' = s.ofTask t' := by
  unfold ofTask
  simp only [h, AList.insert_insert]

theorem task_moves {c : Conn} {t : Task} (hact : S.acts k) (hc : s.conns.get k = some c)
    (h : (s.task k c).Moves S t) : t.epoch = k ∧ Moves S s (s.ofTask t) := by
  induction h with
  | refl =>
    exact ⟨rfl, .single (.task k c _ hc (.books c ⟨rfl, rfl, rfl, rfl, rfl, rfl, rfl, rfl⟩
      (.inr (le_max_left ..))) hact)⟩
  | @tail t1 t2 _ hstep ih =>
    obtain ⟨hk, hmoves⟩ := ih
    have hep : t2.epoch = t1.epoch := hstep.epoch_eq
    refine ⟨hep.trans hk, ?_⟩
    have hget : (s.ofTask t1).conns.get t1.epoch = some t1.conn := FinMap.get_insert_self ..
    rw [← ofTask_ofTask hep]
    exact hmoves.tail (.task _ _ t2 hget hstep (hk ▸ hact))

/-- What a move may add to the trace. -/
inductive Adds (S : Scope) (s : Sys) : Effect → Prop
  | broker (e : Effect) (h : BrokerState.Adds S e) : Adds S s e
  | task (k : Nat) (c : Conn) (e : Effect) (hc : s.conns.get k = some c)
      (h : Task.Adds S (s.task k c) e) (hact : S.acts k) : Adds S s e

/-- A move adds to the trace, at its front. -/
theorem Move.extends (h : s.Move S s') : Extends (Adds S s) s.broker.trace s'.broker.trace := by
  cases h with
  | gateway g hg =>
    cases hg with
    | broker b hb => exact hb.extends.mono (fun e he => .broker e he)
    | _ => exact .refl _
  | task k c t hc ht hact => exact ht.extends.mono (fun e he => .task k c e hc he hact)
  | openSession connect =>
    exact (extends_noteDiscarded s.broker connect.clientId _).mono
      (fun e he => .broker e he.adds)
  | close | tick => exact .refl _
  | restart config s' hrst h =>
    obtain ⟨b, hb, rfl⟩ := restart_cases h
    exact .refl _

theorem Move.trace (h : s.Move S s') : s.broker.trace <:+ s'.broker.trace :=
  h.extends.suffix

/-- What a move does to the shared state. -/
inductive Change (S : Scope) (b : BrokerState) : BrokerState → Prop
  | move (b' : BrokerState) (h : b.Move S b') : Change S b b'
  /-- No table changes. -/
  | frame (channels : FinMap Nat Channel) (security : SecurityGuard) (connectionsCurrent : Int)
      (now : Instant) (trace : List Effect) :
      Change S b { b with
        sessions := { b.sessions with channels }, security, connectionsCurrent, now, trace }
  | opened (connect : Connect) (peer : SocketAddr) (buffer : Bytes) (credit : Option Nat)
      (hopen : S.opens connect) : Change S b (b.openSession connect peer buffer credit).2.broker
  | registered (peer : SocketAddr) (clientId : String) (clean : Bool) (h : S.registers clientId) :
      Change S b (Gateway.register b peer clientId clean).2
  | restarted (config : Settings) (b' : BrokerState) (hrestart : S.restarts)
      (h : new config b.storage b.now = some b') :
      Change S b { b' with trace := b.trace }

theorem Move.change (h : s.Move S s') : Change S s.broker s'.broker := by
  cases h with
  | gateway g hg =>
    cases hg with
    | broker b hb => exact .move b hb
    | register peer c clean keepAlive hreg => exact .registered peer c clean hreg
    | _ => exact .frame _ s.broker.security s.broker.connectionsCurrent s.broker.now s.broker.trace
  | task k conn t hc ht =>
    rcases ht.shared with hb | ⟨channels, trace, hb⟩
    · exact .move _ hb
    · change Change S s.broker t.broker
      rw [hb]
      exact .frame channels s.broker.security s.broker.connectionsCurrent s.broker.now trace
  | openSession connect peer buffer credit hopen => exact .opened connect peer buffer credit hopen
  | close => exact .frame _ _ _ s.broker.now s.broker.trace
  | tick d =>
    exact .frame s.broker.sessions.channels s.broker.security s.broker.connectionsCurrent _
      s.broker.trace
  | restart config s' hrst h =>
    obtain ⟨b, hb, rfl⟩ := restart_cases h
    exact .restarted config b hrst hb

/-- A property of the connections that a task keeps and a new connection has. -/
theorem Move.onConns {P : Settings → Conn → Prop} (h : s.Move S s')
    (htask : ∀ t t' : Task, t.Move S t' → P t.broker.config t.conn → P t'.broker.config t'.conn)
    (hopen : ∀ connect peer buffer credit,
      P s.broker.config (s.broker.openSession connect peer buffer credit).2.conn)
    (hs : ∀ k c, s.conns.get k = some c → P s.broker.config c) (k : Nat) (c : Conn)
    (hc : s'.conns.get k = some c) : P s'.broker.config c := by
  cases h with
  | gateway g hg =>
    have hconfig : g.broker.config = s.broker.config := by
      cases hg with
      | broker b hb => exact hb.limits_eq.1
      | _ => rfl
    exact hconfig ▸ hs k c hc
  | task k' c' t hc' ht =>
    rcases FinMap.get_insert_cases hc with ⟨-, rfl⟩ | ⟨-, hc⟩
    · exact htask (s.task k' c') t ht (hs k' c' hc')
    · have hconfig : t.broker.config = s.broker.config := ht.config_eq
      exact hconfig ▸ hs k c hc
  | openSession connect peer buffer credit =>
    rcases FinMap.get_insert_cases hc with ⟨-, rfl⟩ | ⟨-, hc⟩
    · exact hopen connect peer buffer credit
    · exact hs k c hc
  | close => exact hs k c (FinMap.get_of_erase hc)
  | tick => exact hs k c hc
  | restart config s' hrestart h =>
    obtain ⟨b, -, rfl⟩ := restart_cases h
    simp at hc

/-- How an entry that is there after a move came about. -/
inductive Entry (S : Scope) (s : Sys) (c : String) (e' : SessionEntry) : Prop
  | continues (e : SessionEntry) (hget : s.broker.sessions.get c = some e)
      (h : Continues e e')
  | opened (connect : Connect) (hopen : S.opens connect) (hc : connect.clientId = c)
      (hclean : e'.cleanSession = connect.cleanSession)
      (hwill : e'.will = connect.will.map WillMessage.ofLastWill)
      (hepoch : e'.epoch = s.broker.sessions.epochCounter + 1) (htx : e'.tx = e'.epoch)
  | registered (hreg : S.registers c) (hwill : e'.will = none)
      (hepoch : e'.epoch = s.broker.sessions.epochCounter + 1) (htx : e'.tx = e'.epoch)
  | restored (sm : SessionManager) (h : Restored sm e')

theorem Move.entry (h : s.Move S s') {c : String} {e' : SessionEntry}
    (he' : s'.broker.sessions.get c = some e') : Entry S s c e' := by
  have hchange := h.change
  generalize s'.broker = b' at hchange he'
  cases hchange with
  | move b' hb =>
    obtain ⟨e, hget, hcont⟩ := hb.entry he'
    exact .continues e hget hcont
  | frame => exact .continues e' he' (.refl e')
  | opened connect peer buffer credit hopen =>
    change (SessionManager.register ..).sessions.get c = some e' at he'
    rw [SessionManager.register_get] at he'
    split_ifs at he' with hc
    · rw [← some.inj he']
      exact .opened connect hopen hc.symm rfl rfl rfl rfl
    · exact .continues e' he' (.refl e')
  | registered peer c1 clean hreg =>
    change (SessionManager.register ..).sessions.get c = some e' at he'
    rw [SessionManager.register_get] at he'
    split_ifs at he' with hc
    · rw [← some.inj he']
      exact .registered (hc ▸ hreg) rfl rfl rfl
    · exact .continues e' he' (.refl e')
  | restarted config b hrst hb => exact .restored b.sessions (new_restored hb he')

/-- What is routed on the way is what may be routed. -/
theorem Adds.routes {x : Effect} {r : Routed} (h : s.Adds S x) (hr : x.publication = some r) :
    S.routes r := by
  have hbr : ∀ {x : Effect}, BrokerState.Adds S x → x.publication = some r → S.routes r := by
    intro x hx hr
    cases hx with
    | routed r' hroute => exact some.inj hr ▸ hroute
    | accepted | discarded | wroteSn => simp [Effect.publication] at hr
  cases h with
  | broker x h => exact hbr h hr
  | task k c x hc h =>
    cases h with
    | broker x h => exact hbr h hr
    | wrote | sendFailed | taken | acknowledged | discarded => simp [Effect.publication] at hr

theorem moves_routes (h : Moves S s s') :
    Extends (fun x => ∀ r, x.publication = some r → S.routes r) s.broker.trace s'.broker.trace := by
  induction h with
  | refl => exact .refl _
  | tail _ hmove ih => exact ih.trans (hmove.extends.mono (fun x hx r hr => hx.routes hr))

theorem moves_trace (h : Moves S s s') : s.broker.trace <:+ s'.broker.trace := by
  induction h with
  | refl => exact List.suffix_rfl
  | tail _ hstep ih => exact ih.trans hstep.trace

/-! ## Steps -/

/-- The publication an event brings to the broker, if it brings one. -/
def publication (s : Sys) : Event → Option Routed
  | .arm k .inbound | .arm k .streamEnd =>
    match s.conns.get k with
    | some c =>
      match (s.task k c).nextInbound with
      | some (.publish p) => some ((s.task k c).inboundPublish p)
      | _ => none
    | none => none
  | .finish k =>
    match s.conns.get k with
    | some c =>
      if c.exit = some .abnormal then
        (s.broker.pendingWill c.clientId k).map (s.broker.willRouted c.clientId)
      else none
    | none => none
  | .datagram peer bytes => s.toGateway.publication peer bytes
  | .manualPublish req =>
    (qosOfRequest req.qos).map (fun qos => s.broker.manualRouted req qos)
  | _ => none

/-- Where the publication that an event brings comes from. -/
inductive Published (s : Sys) (r : Routed) : Event → Prop
  | packet (k : Nat) (a : Arm) (c : Conn) (p : Publish) (ha : a = .inbound ∨ a = .streamEnd)
      (hc : s.conns.get k = some c) (hnext : (s.task k c).nextInbound = some (.publish p))
      (hr : r = (s.task k c).inboundPublish p) : Published s r (.arm k a)
  | will (k : Nat) (c : Conn) (w : WillMessage) (hc : s.conns.get k = some c)
      (hw : s.broker.pendingWill c.clientId k = some w)
      (hr : r = s.broker.willRouted c.clientId w) : Published s r (.finish k)
  | device (peer : SocketAddr) (bytes : Bytes) (hr : s.toGateway.publication peer bytes = some r) :
      Published s r (.datagram peer bytes)
  | admin (req : ManualPublishRequest) (qos : QoS) (hqos : qosOfRequest req.qos = some qos)
      (hr : r = s.broker.manualRouted req qos) : Published s r (.manualPublish req)

theorem publication_published {r : Routed} (h : s.publication e = some r) : s.Published r e := by
  cases e with
  | arm k a =>
    cases a with
    | inbound | streamEnd =>
      simp only [publication] at h
      split at h
      · next c hc =>
        split at h
        · next p hnext => exact .packet k _ c p (by simp) hc hnext (some.inj h).symm
        · simp at h
      · simp at h
    | _ => simp [publication] at h
  | finish k =>
    simp only [publication] at h
    split at h
    · next c hc =>
      split_ifs at h
      obtain ⟨w, hw, rfl⟩ := map_eq_some_iff.1 h
      exact .will k c w hc hw rfl
    · simp at h
  | datagram peer bytes => exact .device peer bytes h
  | manualPublish req =>
    obtain ⟨qos, hqos, rfl⟩ := map_eq_some_iff.1 h
    exact .admin req qos hqos rfl
  | _ => simp [publication] at h

/-- The CONNECT that an event brings, if it is accepted. -/
def connection (s : Sys) : Event → Option Connect
  | .connect peer bytes uuid _ _ =>
    match s.broker.security.checkConnection peer with
    | .error _ => none
    | .ok () => (accepts s.broker bytes uuid).map Prod.fst
  | _ => none

/-- The packet that an event takes out of a connection's buffer, with the connection. -/
def inbound (s : Sys) : Event → Option (Conn × Packet)
  | .arm k .inbound | .arm k .streamEnd =>
    (s.conns.get k).bind (fun c => (s.task k c).nextInbound.map (fun packet => (c, packet)))
  | _ => none

/-- The connection that an event is about; a new one gets the next epoch. -/
def actor (s : Sys) : Event → Option Nat
  | .receive k _ | .transport k _ | .arm k _ | .finish k => some k
  | .connect .. => some (s.broker.sessions.epochCounter + 1)
  | _ => none

/-- The client whose SUBSCRIBE an event brings. -/
def subscriber (s : Sys) (e : Event) : Option String :=
  match e, s.inbound e with
  | .datagram peer bytes, _ => s.toGateway.subscriber peer bytes
  | _, some (c, .subscribe _) => some c.clientId
  | _, _ => none

/-- The client whose UNSUBSCRIBE an event brings. -/
def unsubscriber (s : Sys) (e : Event) : Option String :=
  match e, s.inbound e with
  | .datagram peer bytes, _ => s.toGateway.unsubscriber peer bytes
  | _, some (c, .unsubscribe _) => some c.clientId
  | _, _ => none

/-- The clients whose session an event may remove. -/
def Ends (s : Sys) (c : String) : Event → Prop
  | .finish k => (s.conns.get k).map Conn.clientId = some c
  | .datagram peer bytes => s.toGateway.disconnector peer bytes = some c
  | .sweepDevices => ∃ peer, (s.clients.get peer).map SnClient.clientId = some c
  | .sweepSessions => ∃ e, s.broker.sessions.get c = some e ∧ e.isExpired s.broker.now = true
  | .deleteSession c' => c' = c
  | _ => False

/-- Devices may fall asleep or leave. -/
def Departs (_ : Sys) : Event → Prop
  | .datagram _ bytes => Gateway.departure bytes = true
  | .sweepDevices => True
  | _ => False

/-- An event has a connection take messages from a source. -/
def TakesUp (s : Sys) (e : Event) : Source → Prop
  | .live => ∃ k, e = .arm k .outbound
  | .replay => (s.connection e).isSome = true
  | .retained => ∃ c p, s.inbound e = some (c, .subscribe p)

/-- What an event may do in this state. -/
structure Allows (S : Scope) (s : Sys) (e : Event) : Prop where
  routes : ∀ r, s.publication e = some r → (r.ingress.Guarded → r.Passes) → S.routes r
  delivers : ∀ r, s.publication e = some r →
    ∀ c, c ≠ r.publisher → s.broker.reaches r.topic c = true → S.delivers c
  opens : ∀ c, s.connection e = some c → S.opens c
  clears : ∀ c, s.connection e = some c → S.clears c.clientId
  registers : ∀ peer bytes c, e = .datagram peer bytes → Gateway.connects bytes = some c →
    S.registers c
  removes : ∀ c, s.Ends c e → S.removes c
  subscribes : ∀ c, s.subscriber e = some c → S.subscribes c
  unsubscribes : ∀ c, s.unsubscriber e = some c → S.unsubscribes c
  acts : ∀ k, s.actor e = some k → S.acts k
  takes : ∀ c packet, s.inbound e = some (c, packet) → S.takes packet
  takesUp : ∀ source, s.TakesUp e source → S.takesUp source
  retries : ∀ k, e = .arm k .retry → S.retries
  completes : ∀ c id, s.inbound e = some (c, .pubcomp id) → S.completes (c.inflight.get id)
  closes : ∀ k, e = .finish k → S.closes k
  departs : s.Departs e → S.departs
  restarts : ∀ config, e = .restart config → S.restarts

/-- An arm is run by the task of a connection that is in its main loop. -/
theorem runArm_task {a : Arm} (h : s.runArm k a = some s') :
    ∃ c r t, s.conns.get k = some c ∧ a.run (s.task k c) = some (r, t) ∧ s' = s.ofTask t := by
  unfold runArm at h
  obtain ⟨c, hc, h⟩ := bind_eq_some_iff.1 h
  split_ifs at h
  obtain ⟨⟨r, t⟩, hrun, h⟩ := bind_eq_some_iff.1 h
  exact ⟨c, r, t, hc, hrun, (some.inj h).symm⟩

/-- An arm of a connection that is in its main loop. -/
theorem runArm_moves {a : Arm} (hall : Allows S s (.arm k a)) (h : s.runArm k a = some s') :
    Moves S s s' := by
  obtain ⟨c, r, t, hc, hrun, rfl⟩ := runArm_task h
  have hserve : a = .inbound ∨ a = .streamEnd → ∀ packet, (s.task k c).nextInbound = some packet →
      Task.Serves S (s.task k c) packet := by
    intro ha packet hnext
    have hinbound : s.inbound (.arm k a) = some (c, packet) := by
      rcases ha with rfl | rfl <;> simp only [inbound, hc, bind_some, hnext, map_some]
    refine ⟨hall.takes c packet hinbound, ?_, ?_, ?_, ?_, ?_, ?_⟩
    · rintro p rfl hpass
      refine hall.routes _ ?_ (fun _ => hpass)
      rcases ha with rfl | rfl <;> simp only [publication, hc, hnext]
    · rintro p rfl
      refine hall.delivers ((s.task k c).inboundPublish p) ?_
      rcases ha with rfl | rfl <;> simp only [publication, hc, hnext]
    · rintro p rfl
      exact hall.subscribes _ (by simp only [subscriber, hinbound]; rfl)
    · rintro p rfl
      exact hall.takesUp .retained ⟨c, p, hinbound⟩
    · rintro p rfl
      exact hall.unsubscribes _ (by simp only [unsubscriber, hinbound]; rfl)
    · rintro id rfl
      exact hall.completes c id hinbound
  have ht : (s.task k c).Moves S t := by
    refine Task.wp_arm a ⟨hserve, ?_, ?_⟩ r t hrun
    · rintro rfl
      exact hall.retries k rfl
    · rintro rfl
      exact hall.takesUp .live ⟨k, rfl⟩
  exact (task_moves (hall.acts k rfl) hc ht).2

theorem finish_moves (hact : S.acts k) (hclose : S.closes k)
    (hrem : ∀ c, s.conns.get k = some c → S.removes c.clientId)
    (hwill : ∀ c w, s.conns.get k = some c → c.exit = some .abnormal →
      s.broker.pendingWill c.clientId k = some w → S.routes (s.broker.willRouted c.clientId w))
    (hto : ∀ c w, s.conns.get k = some c → c.exit = some .abnormal →
      s.broker.pendingWill c.clientId k = some w →
        ∀ c', c' ≠ c.clientId → s.broker.reaches w.topic c' = true → S.delivers c')
    (h : s.finish k = some s') : Moves S s s' := by
  obtain ⟨c, x, b, hc, hx, hb, h⟩ := finish_cases h
  have hmoves : s.broker.Moves S b := by
    refine afterExit_moves (hrem c hc) ?_ ?_ hb
    · rintro rfl w hw
      exact hwill c w hc hx hw
    · rintro rfl w hw
      exact hto c w hc hx hw
  exact h ▸ (broker_moves hmoves).tail (.close k c hc (by rw [hx]; rfl) hact hclose)

theorem start_moves {connect : Connect} {buffer : Bytes} (hopen : S.opens connect)
    (hclear : S.clears connect.clientId) (hact : S.acts (s.broker.sessions.epochCounter + 1))
    (hsrc : S.takesUp .replay) (h : s.start connect peer buffer credit arms = some s') :
    Moves S s s' := by
  unfold start at h
  obtain ⟨⟨r, t⟩, hrun, h⟩ := bind_eq_some_iff.1 h
  obtain ⟨hmoves, -⟩ := Task.wp_welcome (S := S) hclear hsrc r t hrun
  refine .head (.openSession connect peer buffer credit hopen) ?_
  have hget : (s.ofTask (s.broker.openSession connect peer buffer credit).2).conns.get
      (s.broker.openSession connect peer buffer credit).2.epoch =
        some (s.broker.openSession connect peer buffer credit).2.conn := FinMap.get_insert_self ..
  rw [← some.inj h, ← ofTask_ofTask (Task.moves_epoch hmoves)]
  exact (task_moves hact hget hmoves).2

/-- What comes of an accepted CONNECT: a session is opened, and its task makes its way into the main
    loop. -/
theorem connect_task {connect : Connect}
    (hacc : s.connection (.connect peer bytes uuid credit arms) = some connect)
    (h : s.step (.connect peer bytes uuid credit arms) = some s') : ∃ security buffer connack r t,
      welcome connack arms
        (openSession { s.broker with security } connect peer buffer credit).2 =
          some (r, t) ∧ s' = s.ofTask t := by
  change s.connect peer bytes uuid credit arms = some s' at h
  unfold Sys.connect at h
  unfold connection at hacc
  cases hcheck : s.broker.security.checkConnection peer with
  | error e => simp [hcheck] at hacc
  | ok _ =>
    simp only [hcheck] at h hacc
    obtain ⟨⟨c, rest⟩, haccs, rfl⟩ := map_eq_some_iff.1 hacc
    -- what is accepted does not depend on the security guard
    have haccs' : accepts (s.onBroker (fun b =>
        { b with security := b.security.onConnect peer })).broker bytes uuid = some (c, rest) :=
      haccs
    simp only [haccs'] at h
    obtain ⟨⟨r, t⟩, hrun, h⟩ := bind_eq_some_iff.1 h
    exact ⟨_, rest, _, r, t, hrun, (some.inj h).symm⟩

/-- A connection that is refused leaves nothing behind. -/
theorem connect_refused (href : s.connection (.connect peer bytes uuid credit arms) = none)
    (h : s.step (.connect peer bytes uuid credit arms) = some s') :
    ∃ security, s' = { s with broker := { s.broker with security } } := by
  change s.connect peer bytes uuid credit arms = some s' at h
  unfold Sys.connect at h
  unfold connection at href
  cases hcheck : s.broker.security.checkConnection peer with
  | error e =>
    rw [hcheck] at h
    exact ⟨s.broker.security, (some.inj h).symm⟩
  | ok _ =>
    simp only [hcheck, map_eq_none_iff] at h href
    have href' : accepts (s.onBroker (fun b =>
        { b with security := b.security.onConnect peer })).broker bytes uuid = none := href
    simp only [href'] at h
    exact ⟨_, (some.inj h).symm⟩

theorem connect_moves
    (hopen : ∀ c, s.connection (.connect peer bytes uuid credit arms) = some c → S.opens c)
    (hclear : ∀ c, s.connection (.connect peer bytes uuid credit arms) = some c →
      S.clears c.clientId) (hact : S.acts (s.broker.sessions.epochCounter + 1))
    (hsrc : (s.connection (.connect peer bytes uuid credit arms)).isSome = true →
      S.takesUp .replay) (h : s.connect peer bytes uuid credit arms = some s') : Moves S s s' := by
  unfold connect at h
  unfold connection at hopen hclear hsrc
  cases hcheck : s.broker.security.checkConnection peer with
  | error e =>
    rw [hcheck] at h
    exact some.inj h ▸ .refl
  | ok _ =>
    simp only [hcheck] at h hopen hclear hsrc
    have hguards : ∀ (s : Sys) (security : SecurityGuard),
        Moves S s (s.onBroker (fun b => { b with security })) :=
      fun s security => broker_moves (.single (.guards security s.broker.plugin))
    split at h
    · next c rest haccs =>
      have hacc : (accepts s.broker bytes uuid).map Prod.fst = some c :=
        map_eq_some_iff.2 ⟨(c, rest), haccs, rfl⟩
      refine (hguards s (s.broker.security.onConnect peer)).trans ?_
      exact start_moves (hopen c hacc) (hclear c hacc) hact (hsrc (hacc ▸ rfl)) h
    · exact some.inj h ▸ (hguards s _).trans (hguards _ _)

/-- What comes of a message that is published by hand: it is routed exactly if the guards accept
    it. -/
theorem manualPublish_cases {b' : BrokerState} {req : ManualPublishRequest}
    {response : ActionResponse} (h : b.manualPublish req = some (response, b')) :
    qosOfRequest req.qos = none ∧ b' = b ∨
      ∃ qos security, qosOfRequest req.qos = some qos ∧
        (¬ (b.manualRouted req qos).Passes ∧ b' = { b with security } ∨
          (b.manualRouted req qos).Passes ∧
            route { b with security } (b.manualRouted req qos) = some b') := by
  unfold manualPublish at h
  cases hqos : qosOfRequest req.qos with
  | none =>
    simp only [hqos, some.injEq, Prod.mk.injEq] at h
    exact .inl ⟨rfl, h.2.symm⟩
  | some qos =>
    simp only [hqos] at h
    rcases hcheck : b.security.checkPublish b.now adminClient
      (b.manualRouted req qos).payload.length b.config.broker.maxPacketSize with ⟨checked, security⟩
    have hfirst := congrArg Prod.fst hcheck
    rw [hcheck] at h
    refine .inr ⟨qos, security, rfl, ?_⟩
    rcases checked with e | _
    · simp only [some.injEq, Prod.mk.injEq] at h
      exact .inl ⟨fun hpass => absurd (hfirst.symm.trans hpass.1) (by simp), h.2.symm⟩
    · rcases hplugin : b.plugin.checkPublish req.topic (b.manualRouted req qos).payload with e | _
      · simp only [hplugin, some.injEq, Prod.mk.injEq] at h
        exact .inl ⟨fun hpass => absurd (hplugin.symm.trans hpass.2) (by simp), h.2.symm⟩
      · simp only [hplugin, map_eq_some_iff, Prod.mk.injEq] at h
        obtain ⟨b1, hb1, -, rfl⟩ := h
        exact .inr ⟨⟨hfirst, hplugin⟩, hb1⟩

theorem manualPublish_moves {b' : BrokerState} {req : ManualPublishRequest}
    {response : ActionResponse} (hroutes : ∀ qos, qosOfRequest req.qos = some qos →
      (b.manualRouted req qos).Passes → S.routes (b.manualRouted req qos))
    (hto : ∀ qos, qosOfRequest req.qos = some qos →
      ∀ c, c ≠ adminClient → b.reaches req.topic c = true → S.delivers c)
    (h : b.manualPublish req = some (response, b')) : b.Moves S b' := by
  obtain ⟨-, rfl⟩ | ⟨qos, security, hqos, hroute⟩ := manualPublish_cases h
  · exact .refl
  · refine .head (.guards security b.plugin) ?_
    rcases hroute with ⟨-, rfl⟩ | ⟨hpass, hroute⟩
    · exact .refl
    · exact route_moves (hroutes qos hqos hpass) (hto qos hqos) hroute

theorem deleteSession_moves {c : String} (hrem : S.removes c) :
    b.Moves S (b.deleteSession c).2 := by
  unfold deleteSession
  split_ifs
  · exact .refl
  · exact .head (.unsubscribeAll c hrem)
      (.head (.removeSession c hrem) (.single (.deleteSnapshot c hrem)))

/-- A change of a connection's record that leaves its messages and its filters alone. -/
theorem onConn_moves {f : Conn → Conn} (hact : S.acts k) (h : s.onConn k f = some s')
    (hf : ∀ c, Task.SameMessages c (f c) ∧ (f c).myFilters = c.myFilters) : Moves S s s' := by
  unfold onConn at h
  obtain ⟨c, hc, rfl⟩ := map_eq_some_iff.1 h
  refine .single (.task k c ((s.task k c).onConn f) hc (.books _ (hf c).1 (.inr ?_)) hact)
  exact (congrArg Finset.card (hf c).2).trans_le (le_max_left ..)

/-- **Every step is a sequence of moves.** They do no more than the event may do: what reaches the
    router on the way is the publication that the event brings, and it has passed the guards where
    the listener asks them; a session is opened only for the CONNECT that it brings. -/
theorem step_moves (hall : Allows S s e) (h : s.step e = some s') : Moves S s s' := by
  cases e with
  | tick d => exact some.inj h ▸ .single (.tick d)
  | connect peer bytes uuid credit arms =>
    exact connect_moves hall.opens hall.clears (hall.acts _ rfl)
      (fun h => hall.takesUp .replay h) h
  | receive k bytes =>
    exact onConn_moves (hall.acts k rfl) h
      (fun _ => ⟨⟨rfl, rfl, rfl, rfl, rfl, rfl, rfl, rfl⟩, rfl⟩)
  | transport k credit =>
    exact onConn_moves (hall.acts k rfl) h
      (fun _ => ⟨⟨rfl, rfl, rfl, rfl, rfl, rfl, rfl, rfl⟩, rfl⟩)
  | arm k a => exact runArm_moves hall h
  | finish k =>
    refine finish_moves (hall.acts k rfl) (hall.closes k rfl) ?_ ?_ ?_ h
    · intro c hc
      exact hall.removes c.clientId (by simp only [Ends, hc, map_some])
    · intro c w hc hx hw
      refine hall.routes _ ?_ (fun hg => absurd hg not_false)
      simp only [publication, hc, hx, hw, if_true, map_some]
    · intro c w hc hx hw
      refine hall.delivers (s.broker.willRouted c.clientId w) ?_
      simp only [publication, hc, hx, hw, if_true, map_some]
  | datagram peer bytes =>
    obtain ⟨g, hg, rfl⟩ := map_eq_some_iff.1 h
    refine gateway_moves (Gateway.datagram_moves ⟨?_, fun r => hall.delivers r,
      fun c => hall.registers peer bytes c rfl, hall.removes, ?_, ?_, hall.departs⟩ hg)
    · intro r hr
      refine hall.routes r hr (fun hguard => ?_)
      rw [Gateway.publication_ingress hr] at hguard
      exact absurd hguard not_false
    · exact fun c hc => hall.subscribes c hc
    · exact fun c hc => hall.unsubscribes c hc
  | forward k sendOk =>
    obtain ⟨g, hg, rfl⟩ := map_eq_some_iff.1 h
    exact gateway_moves (Gateway.forward_moves hg)
  | sweepDevices =>
    refine some.inj h ▸ gateway_moves (Gateway.sweep_moves ?_ (hall.departs trivial))
    intro peer c hc
    exact hall.removes c.clientId ⟨peer, congrArg (Option.map SnClient.clientId) hc⟩
  | sweepSessions =>
    refine some.inj h ▸ broker_moves (sweepExpired_moves _ ?_)
    exact fun c e hget hexp => hall.removes c ⟨e, hget, hexp⟩
  | deleteSession c => exact some.inj h ▸ broker_moves (deleteSession_moves (hall.removes c rfl))
  | manualPublish req =>
    obtain ⟨⟨response, b⟩, hb, rfl⟩ := map_eq_some_iff.1 h
    refine broker_moves (manualPublish_moves ?_ ?_ hb)
    · intro qos hqos hpass
      exact hall.routes _ (by simp only [publication, hqos, map_some]) (fun _ => hpass)
    · intro qos hqos
      exact hall.delivers (s.broker.manualRouted req qos)
        (by simp only [publication, hqos, map_some])
  | reloadSecurity cfg =>
    exact some.inj h ▸ broker_moves (.single (.guards _ s.broker.plugin))
  | reloadPlugin cfg =>
    exact some.inj h ▸ broker_moves (.single (.guards s.broker.security _))
  | restart config => exact .single (.restart config s' (hall.restarts config rfl) h)

/-- Nothing is asked of a step's moves. -/
theorem allows_all (s : Sys) (e : Event) : Allows {} s e :=
  ⟨fun _ _ _ => trivial, fun _ _ _ _ _ => trivial, fun _ _ => trivial, fun _ _ => trivial,
    fun _ _ _ _ _ => trivial, fun _ _ => trivial, fun _ _ => trivial, fun _ _ => trivial,
    fun _ _ => trivial, fun _ _ _ => trivial, fun _ _ => trivial, fun _ _ => trivial,
    fun _ _ _ => trivial, fun _ _ => trivial, fun _ => trivial, fun _ _ => trivial⟩

/-- A step as a sequence of moves of any kind. -/
theorem all_moves (h : s.step e = some s') : Moves {} s s' :=
  step_moves (allows_all s e) h

/-- What every move keeps is kept by a sequence of them. -/
theorem moves_invariant (hmove : ∀ s s', I s → s.Move S s' → I s') (h : Moves S s s') (hs : I s) :
    I s' := by
  induction h with
  | refl => exact hs
  | tail _ hstep ih => exact hmove _ _ ih hstep

/-- What holds at first and is kept by every move holds in every state that is reached. -/
theorem Reachable.moves_invariant (h : Reachable s)
    (hinit : ∀ config now s0, init config now = some s0 → I s0)
    (hmove : ∀ s s', I s → s.Move {} s' → I s') : I s :=
  h.invariant hinit (fun _ _ _ hs hstep => Sys.moves_invariant hmove (all_moves hstep) hs)

/-- The same of what is said of the shared state. -/
theorem Reachable.broker_invariant {J : BrokerState → Prop} (h : Reachable s)
    (hnew : ∀ {config storage now b}, storage = none ∨ storage = some {} →
      new config storage now = some b → J b)
    (hchange : ∀ {b b'}, Change {} b b' → J b → J b') : J s.broker := by
  refine h.moves_invariant (I := fun s => J s.broker) ?_ (fun _ _ hs hmove => hchange hmove.change hs)
  intro config now s0 h0
  obtain ⟨b, hb, rfl⟩ := map_eq_some_iff.1 h0
  refine hnew ?_ hb
  split_ifs
  · exact .inr rfl
  · exact .inl rfl

theorem step_trace (h : s.step e = some s') : s.broker.trace <:+ s'.broker.trace :=
  moves_trace (all_moves h)

/-- What a step has added to the trace. -/
def added (s s' : Sys) : List Effect :=
  s'.broker.trace.take (s'.broker.trace.length - s.broker.trace.length)

theorem added_append (h : s.step e = some s') : s'.broker.trace = added s s' ++ s.broker.trace := by
  obtain ⟨es, hes⟩ := step_trace h
  simp [added, ← hes]

/-- What a step may add to the trace, it adds. -/
theorem forall_added {P : Effect → Prop} (h : s.step e = some s')
    (hext : Extends P s.broker.trace s'.broker.trace) : ∀ x ∈ added s s', P x := by
  obtain ⟨es, hes, hP⟩ := hext
  have hadded : added s s' = es := List.append_cancel_right ((added_append h).symm.trans hes)
  exact hadded ▸ hP

end Sys

end LumenMQ
