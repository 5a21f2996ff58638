import LumenMQ.OfflineMirror
import LumenMQ.Sending

set_option autoImplicit false

/-! # The disk and the queues along a run

Which steps of the system keep the offline tree a copy of the queues: a publication must find room
in the queues it may end up in, a client whose queue is handed over must get all of it, and there
must be nothing on disk when the process is started again. -/

namespace LumenMQ

open Option SessionManager BrokerState Gateway LumenMQ.Task

variable {arms : List ReplayArm}

open Process

/-! ## A connection -/

namespace Task

variable {S : Scope} {t t' : Task} {c : String}
variable {n : Nat}

theorem moves_sameQueue (h : Moves S t t') (hto : ∀ c, ¬ S.delivers c) (ht : t.broker.Numbered) :
    t'.broker.Numbered ∧ ∀ c, ¬ S.removes c → ¬ S.clears c →
      BrokerState.SameQueue t.broker t'.broker c := by
  induction h with
  | refl => exact ⟨ht, fun c _ _ => .refl _ c⟩
  | tail _ hstep ih =>
    rcases hstep.shared with hb | ⟨channels, trace, hb⟩
    · exact ⟨hb.numbered hto ih.1, fun c hrem hclear =>
        (ih.2 c hrem hclear).trans (hb.sameQueue hto hrem hclear ih.1)⟩
    · rw [hb]
      exact ⟨ih.1, fun c hrem hclear => (ih.2 c hrem hclear).trans ⟨rfl, rfl⟩⟩

theorem moves_queueOf (h : Moves S t t') (hto : ¬ S.delivers c) (hrem : ¬ S.removes c) :
    t'.broker.sessions.queueOf c = t.broker.sessions.queueOf c := by
  induction h with
  | refl => rfl
  | tail _ hstep ih =>
    rcases hstep.shared with hb | ⟨channels, trace, hb⟩
    · exact (hb.queueOf_eq hto hrem).trans ih
    · rw [hb]
      exact ih

theorem moves_recordsOf_nil (h : Moves S t t') (hto : ∀ c, ¬ S.delivers c)
    (ht : ∀ records, t.broker.recordsOf c = some records → records = [])
    {records : List OutboundPublish} (hrecs : t'.broker.recordsOf c = some records) :
    records = [] := by
  induction h generalizing records with
  | refl => exact ht records hrecs
  | tail _ hstep ih =>
    rcases hstep.shared with hb | ⟨channels, trace, hb⟩
    · exact hb.recordsOf_nil hto (fun _ => ih) hrecs
    · rw [hb] at hrecs
      exact ih hrecs

/-! ### The replay -/

/-- A connection on its way into the main loop whose transport takes so many more packets. -/
structure Smooth (c : String) (n : Nat) (t : Task) : Prop where
  clientId : t.conn.clientId = c
  carries : ∀ k, t.conn.credit = some k → n ≤ k
  active : t.conn.isKeepAliveExpired t.broker.now = false
  inLoop : t.conn.exit = none

theorem Smooth.lower {m : Nat} (h : Smooth c n t) (hm : m ≤ n) : Smooth c m t :=
  ⟨h.clientId, fun k hk => hm.trans (h.carries k hk), h.active, h.inLoop⟩

/-- A packet that can be encoded is sent. -/
theorem wp_send_smooth {packet : Packet} (ht : Smooth c (n + 1) t)
    (hok : (t.codec.encode packet []).1 = .ok ()) :
    wp (send packet) (fun r t' => r = .ok () ∧ Smooth c n t' ∧
      t'.conn.replay = t.conn.replay) t := by
  have herr := sendError_of_credit hok ht.carries
  refine wp_send_cases (fun _ => ?_) (fun e he => ?_)
  · exact ⟨rfl, ⟨ht.clientId, write_credit ht.carries packet, ht.active, ht.inLoop⟩, rfl⟩
  · rw [herr] at he
    exact absurd he (by simp)

theorem Smooth.build (ht : Smooth c n t) (req : OutboundPublish) :
    Smooth c n (t.buildOutboundPacket req).2 := by
  have hbuild := t.buildOutboundPacket_builds req
  generalize t.buildOutboundPacket req = built at hbuild ⊢
  cases hbuild <;> exact ⟨ht.clientId, ht.carries, ht.active, ht.inLoop⟩

/-- One message of the replay, unless the shutdown signal comes first. -/
theorem wp_replayOne_smooth {packet : Packet} {arm : ReplayArm} (ht : Smooth c (n + 1) t)
    (hok : (t.codec.encode packet []).1 = .ok ()) (harm : arm ≠ .shutdown) :
    wp (replayOne packet arm) (fun r t' => r = .ok () ∧ Smooth c n t') t := by
  have hlow := ht.lower (Nat.le_succ n)
  cases arm with
  | send =>
    unfold replayOne sendOrLeave
    rw [wp_attempt_bind]
    refine wp_mono (wp_send_smooth ht hok) ?_
    rintro r t' ⟨rfl, ht', -⟩
    show wp (pure ()) _ t'
    exact (wp_pure ..).2 ⟨rfl, ht'⟩
  | shutdown => exact absurd rfl harm
  | wake => exact (wp_pure ..).2 ⟨rfl, hlow⟩
  | heartbeat =>
    unfold replayOne heartbeatArm
    rw [wp_read_bind]
    show wp (when _ _) _ t
    rw [Process.when, ht.active]
    exact (wp_pure ..).2 ⟨rfl, hlow⟩

theorem wp_replayLoop_smooth {msgs : List OutboundPublish} (ht : Smooth c msgs.length t)
    (hfits : ∀ m ∈ msgs, m.Fits) (harms : .shutdown ∉ arms) :
    wp (replayLoop msgs arms) (fun r t' => r = .ok () ∧ Smooth c 0 t') t := by
  induction msgs generalizing arms t with
  | nil => exact (wp_pure ..).2 ⟨rfl, ht⟩
  | cons msg rest ih =>
    rw [List.forall_mem_cons] at hfits
    unfold replayLoop
    rw [wp_act_bind]
    have htaken : Smooth c (rest.length + 1) (t.takeReplay msg rest) :=
      ⟨ht.clientId, ht.carries, ht.active, ht.inLoop⟩
    have hbuilt2 := htaken.build msg
    rcases hbuilt : ((t.takeReplay msg rest).buildOutboundPacket msg).1 with _ | packet
    · exact ih (hbuilt2.lower (Nat.le_succ _)) hfits.2 harms
    · obtain ⟨pid, hpid, rfl⟩ :=
        ((t.takeReplay msg rest).buildOutboundPacket_frame msg).2 packet hbuilt
      dsimp only
      rw [wp_bind]
      have harm : arms.headD .send ≠ .shutdown := by
        cases arms with
        | nil => simp
        | cons a arms =>
          rintro h
          exact harms (h ▸ List.mem_cons_self)
      refine wp_mono (wp_replayOne_smooth hbuilt2 ((encode_of_fits hpid []).2 hfits.1) harm) ?_
      rintro r t2 ⟨rfl, ht2⟩
      refine wp_unlessLeft (fun _ => ?_) (fun hexit => absurd ht2.inLoop hexit)
      exact ih ht2 hfits.2 (fun h => harms (List.mem_of_mem_tail h))

/-- **A replay that goes through ends in the main loop, with the records off the disk.** -/
theorem wp_welcome_smooth {connack : Connack} (ht : Smooth c (t.conn.replay.length + 1) t)
    (hfits : ∀ m ∈ t.conn.replay, m.Fits) (harm : .shutdown ∉ arms) :
    wp (welcome connack arms) (fun _ t' => t'.conn.exit = none ∧
      ∃ b : BrokerState, t'.broker = b.clearDiskOffline c) t := by
  unfold welcome
  rw [wp_attempt_bind]
  refine wp_mono (wp_send_smooth ht (encode_connack ..)) ?_
  rintro r t1 ⟨rfl, ht1, hrep⟩
  dsimp only
  rw [wp_read_bind, wp_bind, hrep]
  refine wp_mono (wp_replayLoop_smooth ht1 hfits harm) ?_
  rintro r t2 ⟨rfl, ht2⟩
  refine wp_unlessLeft (fun _ => ?_) (fun hexit => absurd ht2.inLoop hexit)
  refine (wp_update ..).2 ⟨ht2.inLoop, t2.broker, ?_⟩
  rw [← ht2.clientId]
  rfl

/-! ### An inbound publication -/

/-- The broker is `b`, but for what the security guard has counted. -/
def GuardOnly (b : BrokerState) (t : Task) : Prop := ∃ security, t.broker = { b with security }

variable {b : BrokerState}

theorem GuardOnly.inStep (h : GuardOnly b t) (hb : b.InStep) : t.broker.InStep := by
  obtain ⟨security, hsec⟩ := h
  rw [hsec]
  exact ⟨hb.numbered, hb.mirrors⟩

theorem keeps_securityRejects_guardOnly (p : Publish) :
    Keeps (GuardOnly b) (securityRejects p) := by
  rintro t ⟨security, hb⟩
  unfold securityRejects
  rw [wp_act]
  generalize t.broker.security.checkPublish t.broker.now t.conn.clientId p.payload.length
    t.broker.config.broker.maxPacketSize = checked
  refine ⟨checked.2, ?_⟩
  show { t.broker with security := checked.2 } = _
  rw [hb]

theorem keeps_firstReceipt_guardOnly (p : Publish) : Keeps (GuardOnly b) (firstReceipt p) := by
  unfold firstReceipt
  cases p.qos with
  | exactlyOnce =>
    cases p.packetId with
    | some id =>
      rintro t ⟨security, hb⟩
      rw [wp_act]
      exact ⟨security, hb⟩
    | none => exact Keeps.fail _
  | atMostOnce | atLeastOnce => exact Keeps.pure _

theorem wp_routeInboundPublish_inStep {msg : Routed} (ht : GuardOnly b t)
    (hroom : b.roomFor msg = true) (hb : b.InStep) :
    wp (routeInboundPublish msg) (fun _ t' => t'.broker.InStep) t := by
  unfold routeInboundPublish
  rw [wp_tryUpdate]
  intro t1 h1
  obtain ⟨b1, hroute, rfl⟩ := map_eq_some_iff.1 h1
  refine route_inStep ?_ hroute (ht.inStep hb)
  obtain ⟨security, hsec⟩ := ht
  rw [hsec]
  exact hroom

theorem keeps_answerPublish_inStep (p : Publish) :
    Keeps (fun t' => t'.broker.InStep) (answerPublish p) := by
  intro t ht
  refine wp_mono (keeps_answerPublish (S := { delivers := fun _ => False, removes := fun _ => False
                                              clears := fun _ => False }) p t .refl) ?_
  intro r t' hmoves
  obtain ⟨hnum, hsame⟩ := moves_sameQueue hmoves (fun _ => id) ht.numbered
  exact ⟨hnum, fun c => (hsame c id id).mirrors (ht.mirrors c)⟩

/-- A PUBLISH that finds room: before the message is routed, nothing changes but the security
    guard. -/
theorem wp_handlePublish_inStep {p : Publish}
    (hroom : t.broker.roomFor (t.inboundPublish p) = true) (ht : t.broker.InStep) :
    wp (handlePublish p) (fun _ t' => t'.broker.InStep) t := by
  have hfail : ∀ (_ : BrokerError) (t' : Task), GuardOnly t.broker t' → t'.broker.InStep :=
    fun _ _ h => h.inStep ht
  unfold handlePublish
  rw [wp_read_bind]
  refine wp_seq (keeps_securityRejects_guardOnly p t ⟨t.broker.security, rfl⟩) ?_ hfail
  intro securityRejected t1 ht1
  have hplugin : Keeps (GuardOnly t.broker) (pluginRejects securityRejected p) :=
    Keeps.bind Keeps.read (fun _ => Keeps.pure _)
  refine wp_seq (hplugin t1 ht1) ?_ hfail
  intro pluginRejected t2 ht2
  refine wp_seq (keeps_firstReceipt_guardOnly p t2 ht2) ?_ hfail
  intro fresh t3 ht3
  have hroute : wp (when (fresh && !securityRejected && !pluginRejected)
      (routeInboundPublish (t.inboundPublish p))) (fun _ t' => t'.broker.InStep) t3 :=
    wp_when (fun _ => wp_routeInboundPublish_inStep ht3 hroom ht) (fun _ => ht3.inStep ht)
  exact wp_seq hroute (fun _ t4 ht4 => keeps_answerPublish_inStep p t4 ht4) (fun _ _ h => h)

theorem wp_inboundArm_inStep {p : Publish} (streamEnded : Bool)
    (hnext : t.nextInbound = some (.publish p))
    (hroom : t.broker.roomFor (t.inboundPublish p) = true) (ht : t.broker.InStep) :
    wp (inboundArm streamEnded) (fun _ t' => t'.broker.InStep) t := by
  refine wp_inboundArm_next streamEnded hnext (fun conn hsame => ?_)
  unfold handlePacket
  dsimp only
  have hroom' : t.broker.roomFor (inboundPublish { t with conn } p) = true := by
    rw [← hroom]
    exact roomFor_congr rfl hsame.clientId
  exact wp_seq (wp_handlePublish_inStep hroom' ht) (fun _ _ ht1 => (wp_pure ..).2 ht1)
    (fun _ _ ht1 => ht1)

end Task

instance (m : OutboundPublish) : Decidable m.Fits := inferInstanceAs (Decidable (_ ∧ _))

/-! ## Joining -/

/-- A session that is opened has nothing in its queue, and the other queues stay. -/
theorem SessionManager.queueOf_register (sm : SessionManager) (now : Instant) (c : String)
    (clean : Bool) (tx : Nat) (will : Option WillMessage) (level : UInt8) (peer : SocketAddr)
    (expiry : Option UInt32) (c' : String) :
    (sm.register now c clean tx will level peer expiry).sessions.queueOf c' =
      if c' = c then
        if clean then none
        else some { maxMessages := sm.maxOfflineMessages, ttl := sm.offlineMessageTtl }
      else sm.queueOf c' := by
  rw [queueOf, register_get]
  split_ifs with hc hclean
  · simp [newEntry, hclean]
  · simp [newEntry, hclean]
  · rfl

namespace BrokerState

variable {b b' : BrokerState} {c : String}

/-- A session is opened, and nothing else changes that matters here. -/
structure Joined (b b' : BrokerState) (c : String) : Prop where
  storage : b'.storage = b.storage
  queued : b'.sessions.queued c = []
  others : ∀ c', c' ≠ c → b'.sessions.queueOf c' = b.sessions.queueOf c'

theorem joined_register {clean : Bool} {now : Instant} {tx : Nat} {will : Option WillMessage}
    {level : UInt8} {peer : SocketAddr} {expiry : Option UInt32} (hstore : b'.storage = b.storage)
    (hget : ∀ c', b'.sessions.queueOf c' =
      (b.sessions.register now c clean tx will level peer expiry).sessions.queueOf c') :
    Joined b b' c := by
  refine ⟨hstore, ?_, fun c' hc' => ?_⟩
  · rw [queued_eq, hget, queueOf_register, if_pos rfl]
    split_ifs <;> rfl
  · rw [hget, queueOf_register, if_neg hc']

theorem Joined.numbered (h : Joined b b' c) (hb : b.Numbered) : b'.Numbered := by
  unfold Numbered
  rw [h.storage]
  exact hb

theorem Joined.sameQueue (h : Joined b b' c) {c' : String} (hc' : c' ≠ c) : SameQueue b b' c' := by
  refine ⟨h.others c' hc', ?_⟩
  rw [recordsOf, recordsOf, h.storage]

theorem recordsOf_eq_nil (hb : b.Mirrors c) (hqueued : b.sessions.queued c = [])
    {records : List OutboundPublish} (h : b.recordsOf c = some records) : records = [] :=
  (hb records h).trans hqueued

/-- A client without a message in its queue joins. -/
theorem Joined.inStep (h : Joined b b' c) (hqueued : b.sessions.queued c = []) (hb : b.InStep) :
    b'.InStep := by
  refine ⟨h.numbered hb.numbered, fun c' => ?_⟩
  by_cases hc' : c' = c
  · subst hc'
    intro records hrecs
    rw [recordsOf, h.storage] at hrecs
    rw [recordsOf_eq_nil (hb.mirrors c') hqueued hrecs, h.queued]
  · exact (h.sameQueue hc').mirrors (hb.mirrors c')

end BrokerState

/-! ## The system -/

/-- No queue is touched, in memory or on disk. -/
def Scope.still : Scope where
  delivers := fun _ => False
  removes := fun _ => False
  clears := fun _ => False
  opens := fun _ => False
  registers := fun _ => False
  restarts := False

namespace Sys

variable {s s' : Sys}
variable {peer : SocketAddr}

theorem Change.inStep {b b' : BrokerState} (h : Change .still b b') (hs : b.InStep) :
    b'.InStep := by
  cases h with
  | move b' hb => exact hs.of_moves (.single hb) (fun _ => id) (fun _ h => h.elim False.elim False.elim)
  | frame => exact ⟨hs.numbered, hs.mirrors⟩
  | opened _ _ _ _ h => exact h.elim
  | registered _ _ _ h => exact h.elim
  | restarted _ _ h => exact h.elim

/-- An event that brings nothing to the queues and ends no session. -/
theorem step_still {e : Event} (hpub : s.publication e = none)
    (hconnection : s.connection e = none)
    (hconnects : ∀ peer bytes, e = .datagram peer bytes → Gateway.connects bytes = none)
    (hends : ∀ c, ¬ s.Ends c e) (hrst : ∀ config, e ≠ .restart config)
    (hstep : s.step e = some s') (hs : s.broker.InStep) : s'.broker.InStep := by
  have hall : Allows .still s e :=
    { allows_all s e with
      delivers := fun r hr => by simp [hpub] at hr
      opens := fun c hc => by simp [hconnection] at hc
      clears := fun c hc => by simp [hconnection] at hc
      registers := fun peer bytes c he hc => by simp [hconnects peer bytes he] at hc
      removes := hends
      restarts := hrst }
  exact moves_invariant (fun _ _ hs hmove => hmove.change.inStep hs) (step_moves hall hstep) hs

/-! ### Joining -/

/-- A new connection of the client gets all that it takes over: the transport lasts, the broker is
    not shut down, and the encoder accepts the messages. -/
def replaysAll (b : BrokerState) (c : String) (credit : Option Nat) (arms : List ReplayArm) :
    Bool :=
  let msgs := ((b.sessions.get c).map (fun e => e.handover b.now)).getD []
  credit.all (fun n => msgs.length < n) && decide (.shutdown ∉ arms) &&
    msgs.all (fun m => decide m.Fits)

/-- What the new connection needs of its transport, of the messages and of the broker. -/
theorem smooth_of_replaysAll {b : BrokerState} {connect : Connect} {buffer : Bytes}
    {credit : Option Nat} (h : replaysAll b connect.clientId credit arms = true) :
    let t := (b.openSession connect peer buffer credit).2
    Task.Smooth connect.clientId (t.conn.replay.length + 1) t ∧ (∀ m ∈ t.conn.replay, m.Fits) ∧
      .shutdown ∉ arms := by
  unfold replaysAll at h
  simp only [Bool.and_eq_true, all_eq_true, decide_eq_true_eq, List.all_eq_true] at h
  obtain ⟨⟨hcredit, harm⟩, hfits⟩ := h
  have hrep := openSession_replay b connect peer buffer credit
  refine ⟨⟨rfl, fun k hk => ?_, ?_, rfl⟩, hrep ▸ hfits, harm⟩
  · rw [hrep]
    exact hcredit k hk
  · show Conn.isKeepAliveExpired _ b.now = false
    simp [Conn.isKeepAliveExpired, openSession]

/-- The queue of a client that joins is empty, or handed over as a whole; a restart finds no
    records. -/
def handsOver (s : Sys) (e : Event) : Bool :=
  match e with
  | .connect _ _ _ credit arms => (s.connection e).all (fun connect =>
    s.broker.sessions.queued connect.clientId = [] ||
      replaysAll s.broker connect.clientId credit arms)
  | .datagram _ bytes => (s.joinsDevice bytes).all (fun j => s.broker.sessions.queued j.1 = [])
  | .restart _ => s.broker.storage.all (fun st => st.offline.entries.isEmpty)
  | _ => true

/-- The steps that keep the offline tree a copy of the queues. -/
def writesThrough (s : Sys) (e : Event) : Bool :=
  (s.publication e).all s.broker.roomFor && s.handsOver e

theorem connect_inStep {bytes : Bytes} {uuid : String} {credit : Option Nat}
    (hcond : s.handsOver (.connect peer bytes uuid credit arms) = true)
    (hstep : s.step (.connect peer bytes uuid credit arms) = some s') (hs : s.broker.InStep) :
    s'.broker.InStep := by
  cases hacc : s.connection (.connect peer bytes uuid credit arms) with
  | none => exact step_still rfl hacc (by simp) (fun _ => id) (by simp) hstep hs
  | some connect =>
    simp only [handsOver, hacc, all_some, Bool.or_eq_true, decide_eq_true_eq] at hcond
    obtain ⟨security, buffer, connack, r, t, hrun, rfl⟩ := connect_task hacc hstep
    show t.broker.InStep
    let t0 := (openSession { s.broker with security } connect peer buffer credit).2
    have hjoin : BrokerState.Joined s.broker t0.broker connect.clientId :=
      joined_register rfl (fun _ => rfl)
    obtain ⟨hmoves, -⟩ := wp_welcome
      (S := { delivers := fun _ => False, removes := fun _ => False
              clears := fun x => x = connect.clientId }) rfl trivial r t hrun
    obtain ⟨hnum, hsame⟩ :=
      moves_sameQueue hmoves (fun _ => id) (hjoin.numbered hs.numbered)
    refine ⟨hnum, fun c => ?_⟩
    by_cases hc : c = connect.clientId
    · -- the queue is empty, so the records have to be gone
      subst hc
      have hq : t.broker.sessions.queued connect.clientId = [] := by
        rw [queued_eq, moves_queueOf hmoves id id, ← queued_eq]
        exact hjoin.queued
      intro records hrecs
      rw [hq]
      rcases hcond with hempty | hreps
      · refine moves_recordsOf_nil hmoves (fun _ => id) ?_ hrecs
        intro records0 hrecs0
        exact recordsOf_eq_nil (hs.mirrors _) hempty hrecs0
      · obtain ⟨hsmooth, hfits, harm⟩ :=
          smooth_of_replaysAll (b := { s.broker with security }) hreps
        obtain ⟨-, b, hb⟩ := wp_welcome_smooth hsmooth hfits harm r t hrun
        rw [hb] at hrecs
        obtain ⟨st, hst, rfl⟩ := map_eq_some_iff.1 hrecs
        obtain ⟨st0, -, rfl⟩ := map_eq_some_iff.1 hst
        exact Storage.recordsOf_drainOffline_self ..
    · exact ((hjoin.sameQueue hc).trans (hsame c id hc)).mirrors (hs.mirrors c)

/-! ### Publications -/

theorem arm_inStep {k : Nat} {a : Arm} {r : Routed} (hr : s.publication (.arm k a) = some r)
    (hroom : s.broker.roomFor r = true) (hstep : s.step (.arm k a) = some s')
    (hs : s.broker.InStep) : s'.broker.InStep := by
  obtain ⟨c, hc, h⟩ := bind_eq_some_iff.1 hstep
  split_ifs at h
  obtain ⟨⟨result, t⟩, hrun, h⟩ := bind_eq_some_iff.1 h
  rw [← some.inj h]
  show t.broker.InStep
  obtain ⟨_, _, c', p, ha, hc', hp, rfl⟩ := publication_published hr
  obtain rfl : c = c' := some.inj (hc.symm.trans hc')
  rcases ha with rfl | rfl
  · exact wp_inboundArm_inStep false hp hroom hs result t hrun
  · exact wp_inboundArm_inStep true hp hroom hs result t hrun

theorem finish_inStep {k : Nat} (hroom : ∀ r, s.publication (.finish k) = some r →
    s.broker.roomFor r = true) (hstep : s.step (.finish k) = some s') (hs : s.broker.InStep) :
    s'.broker.InStep := by
  obtain ⟨conn, x, b, hconn, hx, hb, h⟩ := finish_cases hstep
  have hb' : b.InStep := by
    refine afterExit_inStep ?_ hb hs
    rintro rfl w hw
    exact hroom _ (by simp only [publication, hconn, hx, hw, if_true, map_some])
  rw [← h]
  exact ⟨hb'.numbered, hb'.mirrors⟩

theorem manualPublish_inStep {b b' : BrokerState} {req : ManualPublishRequest}
    {response : ActionResponse} (hroom : ∀ qos, BrokerState.qosOfRequest req.qos = some qos →
      b.roomFor (b.manualRouted req qos) = true)
    (h : b.manualPublish req = some (response, b')) (hb : b.InStep) : b'.InStep := by
  obtain ⟨-, rfl⟩ | ⟨qos, security, hqos, ⟨-, rfl⟩ | ⟨-, hroute⟩⟩ := manualPublish_cases h
  · exact hb
  · exact ⟨hb.numbered, hb.mirrors⟩
  · refine route_inStep ?_ hroute ⟨hb.numbered, hb.mirrors⟩
    exact hroom qos hqos

/-! ### Devices -/

theorem dropClient_inStep (hflag : s.DeviceFlags) (hlim : s.broker.Limited)
    (peer : SocketAddr) (hs : s.broker.InStep) : (s.toGateway.dropClient peer).broker.InStep := by
  unfold dropClient
  split
  · exact hs
  · next client hcl =>
    exact cleanupSession_inStep hlim (hflag peer client · hcl) hs

theorem dropClients_inStep (peers : List SocketAddr) (heps : s.Epochs) (hflag : s.DeviceFlags)
    (hlim : s.broker.Limited) (hs : s.broker.InStep) :
    (peers.foldl (fun g peer => g.dropClient peer) s.toGateway).broker.InStep := by
  induction peers generalizing s with
  | nil => exact hs
  | cons peer peers ih =>
    have hmoves : Moves {} s (s.ofGateway (s.toGateway.dropClient peer)) :=
      gateway_moves (dropClient_moves (fun _ _ => trivial) trivial)
    obtain ⟨heps1, hflag1, hlim1⟩ := moves_invariant
      (I := fun s => s.Epochs ∧ s.DeviceFlags ∧ s.broker.Limited)
      (fun _ _ hs hmove =>
        ⟨hmove.epochs hs.1, hmove.deviceFlags hs.1 hs.2.1, hmove.change.limited hs.2.2⟩)
      hmoves ⟨heps, hflag, hlim⟩
    exact ih (s := s.ofGateway (s.toGateway.dropClient peer)) heps1 hflag1 hlim1
      (dropClient_inStep hflag hlim peer hs)

theorem handlePublish_inStep {g g' : Gateway} {flags : UInt8} {topicId msgId : UInt16}
    {data : Bytes}
    (hroom : ∀ r, g.publicationOf peer flags topicId data = some r → g.broker.roomFor r = true)
    (h : g.handlePublish peer flags topicId msgId data = some g') (hg : g.broker.InStep) :
    g'.broker.InStep := by
  obtain ⟨g1, hanswer, hg1⟩ := Gateway.handlePublish_cases h
  have hg1 : g1.broker.InStep := by
    rcases hg1 with ⟨-, rfl | rfl⟩ | ⟨r, b, hr, hb, rfl⟩
    · exact hg
    · rwa [touch_broker]
    · exact route_inStep (hroom r hr) hb hg
  rcases hanswer with rfl | ⟨code, rfl⟩
  · exact hg1
  · exact ⟨hg1.numbered, hg1.mirrors⟩

theorem datagram_inStep {bytes : Bytes} (hflag : s.DeviceFlags) (hlim : s.broker.Limited)
    (hcond : s.writesThrough (.datagram peer bytes) = true)
    (hstep : s.step (.datagram peer bytes) = some s') (hs : s.broker.InStep) :
    s'.broker.InStep := by
  simp only [writesThrough, handsOver, joinsDevice, Bool.and_eq_true, Option.all_eq_true] at hcond
  obtain ⟨hroom, hjoins⟩ := hcond
  have hstill : s.toGateway.publication peer bytes = none → Gateway.connects bytes = none →
      s.toGateway.disconnector peer bytes = none → s'.broker.InStep := by
    intro hpub hconnects hends
    refine step_still (e := .datagram peer bytes) hpub rfl ?_ ?_ (by simp) hstep hs
    · rintro peer1 bytes1 h
      rw [Event.datagram.injEq] at h
      exact h.2 ▸ hconnects
    · intro c hc
      simp [Ends, hends] at hc
  have hdat := hstep
  obtain ⟨g, hg, rfl⟩ := Option.map_eq_some_iff.1 hdat
  unfold Gateway.datagram at hg
  simp only [publication, Gateway.publication] at hroom
  simp only [Gateway.publication, Gateway.connects, Gateway.disconnector] at hstill
  cases hparse : parsePacket (bytes.take 65535) with
  | error err =>
    simp only [hparse, Option.some.injEq] at hg
    exact hg ▸ hs
  | ok packet =>
    simp only [hparse] at hg hroom hjoins hstill
    unfold Gateway.handle at hg
    cases packet with
    | connect flags protocolId duration c =>
      rw [← Option.some.inj hg]
      show (s.toGateway.handleConnect peer flags protocolId duration c).broker.InStep
      unfold Gateway.handleConnect
      cases href : s.toGateway.refusal protocolId c with
      | some code => exact ⟨hs.numbered, hs.mirrors⟩
      | none =>
        simp only [href, if_true, Option.some.injEq, forall_eq', decide_eq_true_eq] at hjoins
        have hjoin : BrokerState.Joined s.broker (s.toGateway.registerClient peer c
            (flags &&& flagClean ≠ 0) (if duration = 0 then 60 else duration)).broker c :=
          BrokerState.joined_register rfl (fun _ => rfl)
        have hb := hjoin.inStep hjoins hs
        exact ⟨hb.numbered, hb.mirrors⟩
    | publish flags topicId msgId data => exact handlePublish_inStep hroom hg hs
    | disconnect duration =>
      cases duration with
      | none =>
        rw [← Option.some.inj hg]
        exact dropClient_inStep hflag hlim peer hs
      | some d => exact hstill rfl rfl rfl
    | _ => exact hstill rfl rfl rfl

/-- **A step that writes through keeps the disk and the queues in step.** -/
theorem step_inStep {e : Event} (heps : s.Epochs) (hflag : s.DeviceFlags)
    (hlim : s.broker.Limited) (hcond : s.writesThrough e = true) (hstep : s.step e = some s')
    (hs : s.broker.InStep) : s'.broker.InStep := by
  have hdat := hcond
  rw [writesThrough, Bool.and_eq_true, all_eq_true] at hcond
  obtain ⟨hroom, hhands⟩ := hcond
  cases e with
  | connect peer bytes uuid credit arms => exact connect_inStep hhands hstep hs
  | arm k a =>
    cases hr : s.publication (.arm k a) with
    | some r => exact arm_inStep hr (hroom r hr) hstep hs
    | none => exact step_still hr rfl (by simp) (fun _ => id) (by simp) hstep hs
  | finish k => exact finish_inStep hroom hstep hs
  | datagram peer bytes => exact datagram_inStep hflag hlim hdat hstep hs
  | sweepDevices =>
    rw [← some.inj hstep]
    exact dropClients_inStep _ heps hflag hlim hs
  | sweepSessions =>
    rw [← some.inj hstep]
    exact sweepExpired_inStep hs
  | deleteSession c =>
    rw [← some.inj hstep]
    exact deleteSession_inStep c hs
  | manualPublish req =>
    obtain ⟨⟨response, b⟩, hb, rfl⟩ := map_eq_some_iff.1 hstep
    refine manualPublish_inStep ?_ hb hs
    intro qos hqos
    exact hroom _ (by simp only [publication, hqos, map_some])
  | restart config =>
    obtain ⟨b, hb, rfl⟩ : ∃ b, new config s.broker.storage s.broker.now = some b ∧
        { broker := { b with trace := s.broker.trace } } = s' := by
      change s.restart config = some s' at hstep
      unfold Sys.restart at hstep
      split_ifs at hstep
      exact map_eq_some_iff.1 hstep
    have hnew := new_inStep (fun st hst => by
      simp only [handsOver, hst, all_some, List.isEmpty_iff] at hhands
      exact hhands) hb
    exact ⟨hnew.numbered, hnew.mirrors⟩
  | _ => exact step_still rfl rfl (by simp) (fun _ => id) (by simp) hstep hs

theorem init_inStep {config : Settings} {now : Instant} (h : init config now = some s) :
    s.broker.InStep := by
  obtain ⟨b, hb, rfl⟩ := map_eq_some_iff.1 h
  refine new_inStep ?_ hb
  intro st hst
  split_ifs at hst
  rw [← some.inj hst]
  rfl

/-- The records on disk of every client with a persistent session are the messages in its queue, and
    no more than the settings allow. -/
def Mirrored (s : Sys) : Prop :=
  ∀ st c e, s.broker.storage = some st → s.broker.sessions.get c = some e →
    e.cleanSession = false →
    st.recordsOf c = s.broker.sessions.queued c ∧
      (st.recordsOf c).length ≤ s.broker.config.storage.maxOfflineMessages

/-- **The offline tree mirrors the queues along every run whose steps write through.** -/
theorem mirrored_of_writesThrough {config : Settings} {now : Instant} {s₀ s : Sys}
    {es : List Event} (h₀ : init config now = some s₀) (hrun : s₀.run es = some s)
    (hmeets : s₀.Meets (fun s e => s.writesThrough e = true) es) : s.Mirrored := by
  have hinit : Reachable s₀ := ⟨config, now, s₀, [], h₀, rfl⟩
  have hinv := run_invariant (I := fun s => Reachable s ∧ s.broker.InStep) ?_
    ⟨hinit, init_inStep h₀⟩ hmeets hrun
  · intro st c e hst he hclean
    have hsame : st.recordsOf c = s.broker.sessions.queued c :=
      hinv.2.mirrors c _ (by rw [recordsOf, hst, map_some])
    refine ⟨hsame, ?_⟩
    have hlimited := hinv.1.limited
    rw [hsame, queued_eq]
    cases hq : s.broker.sessions.queueOf c with
    | none => exact Nat.zero_le _
    | some q =>
      obtain ⟨hlength, hmax⟩ := hlimited.bounded c q hq
      rw [map_some, getD_some, List.length_map, ← hlimited.limit, ← hmax]
      exact hlength
  · intro s s' e hs hcond hstep
    exact ⟨hs.1.step hstep,
      step_inStep hs.1.epochs hs.1.deviceFlags hs.1.limited hcond hstep hs.2⟩

/-- An administrator publishes to the topic `t`. -/
def publishesT : Event := .manualPublish { topic := "t", payload := "x", qos := 1 }

/-- A persistent client subscribes and disconnects, a message is queued for it, it connects again,
    and the replay goes through; then another message is queued. -/
def queuedRun : List Event :=
  filedRun ++ publishesT :: opens "a" false :: sends 2 .disconnect ++ [.finish 2, publishesT]

theorem mirrored_of_writesThrough_queued : ∃ s₀ s, init storing 0 = some s₀ ∧
    s₀.run queuedRun = some s ∧ s₀.Meets (fun s e => s.writesThrough e = true) queuedRun ∧
    s.broker.persistent "a" = true ∧ (s.broker.sessions.queued "a").length = 1 ∧ s.Mirrored := by
  obtain ⟨s₀, s, h₀, hrun, hmeets, hs⟩ := exists_run_meets
    (C := fun s e => s.writesThrough e = true) writesThrough (fun _ _ h => h) storing 0 queuedRun
    (fun s => s.broker.persistent "a" && (s.broker.sessions.queued "a").length = 1)
    (by decide +kernel)
  simp only [Bool.and_eq_true, decide_eq_true_eq] at hs
  exact ⟨s₀, s, h₀, hrun, hmeets, hs.1, hs.2, mirrored_of_writesThrough h₀ hrun hmeets⟩

/-- The settings of the run below: a queue holds one message. -/
def storingOne : Settings := { storage := { enabled := true, maxOfflineMessages := 1 } }

/-- **The disk keeps what the queue has given up**: two messages for an offline client whose queue
    takes one, and both are on disk. -/
theorem evicted_stays_on_disk : ∃ s st, Reachable s ∧ s.broker.storage = some st ∧
    s.broker.persistent "a" = true ∧ (s.broker.sessions.queued "a").length = 1 ∧
    (st.recordsOf "a").length = 2 ∧ s.broker.config.storage.maxOfflineMessages = 1 ∧
    ¬ s.Mirrored := by
  obtain ⟨s₀, s, h₀, hrun, hs⟩ := exists_run storingOne 0 (filedRun ++ [publishesT, publishesT])
    (fun s => s.broker.storage.any (fun st => (st.recordsOf "a").length = 2) &&
      s.broker.persistent "a" && (s.broker.sessions.queued "a").length = 1 &&
      s.broker.config.storage.maxOfflineMessages = 1) (by decide +kernel)
  simp only [Bool.and_eq_true, decide_eq_true_eq] at hs
  obtain ⟨⟨⟨hstorage, hpersistent⟩, hqueued⟩, hmax⟩ := hs
  obtain ⟨st, hst, hrecords⟩ := (any_eq_true _ _).1 hstorage
  rw [decide_eq_true_eq] at hrecords
  refine ⟨s, st, ⟨storingOne, 0, s₀, _, h₀, hrun⟩, hst, hpersistent, hqueued, hrecords, hmax,
    fun h => ?_⟩
  obtain ⟨e, he, hclean⟩ := (any_eq_true _ _).1 hpersistent
  have hlength := (h st "a" e hst he (by simpa using hclean)).2
  rw [hrecords, hmax] at hlength
  omega

end Sys

end LumenMQ
