import LumenMQ.Calls
import LumenMQ.SubscriptionLimit

set_option autoImplicit false

/-! # The offline replay

A connection that resumes a session is sent what the session has kept. Every message goes through a
`select!` with two more branches, and a branch that is ready is preferred to the send, which is then
dropped. So a message is passed over, and the loop goes on with the next one, when the shutdown
channel wakes up without a signal or the heartbeat finds the client still in time. A send that is
dropped has written nothing: `send` is atomic here, and a packet that stays in the write buffer when
its send is cancelled is not modelled. -/

namespace LumenMQ

open Process List BrokerState

/-! ## Packets in a row -/

theorem allocatePidLoop_congr {inflight inflight' : OutboundInflightTable}
    (h : ∀ id, inflight'.get id = none ↔ inflight.get id = none) (n : Nat) (next : UInt16) :
    allocatePidLoop inflight' n next = allocatePidLoop inflight n next := by
  induction n generalizing next with
  | zero => rfl
  | succ n ih => simp only [allocatePidLoop, h, ih]

namespace Task

variable {t t' : Task}

/-- What `build_outbound_packet` returns for messages that are taken up one after the other. -/
def packetsOf (t : Task) : List OutboundPublish → List (OutboundPublish × Option Packet)
  | [] => []
  | msg :: rest =>
    (msg, (t.buildOutboundPacket msg).1) :: (t.buildOutboundPacket msg).2.packetsOf rest

/-- Two tasks have the same room and the same free identifiers. -/
structure SameIds (t t' : Task) : Prop where
  nextPid : t'.conn.nextPid = t.conn.nextPid
  keys : t'.conn.inflight.keys = t.conn.inflight.keys
  config : t'.broker.config = t.broker.config

theorem SameIds.get (h : SameIds t t') (id : UInt16) :
    t'.conn.inflight.get id = none ↔ t.conn.inflight.get id = none := by
  unfold FinMap.get
  rw [AList.lookup_eq_none, AList.lookup_eq_none, AList.mem_keys, AList.mem_keys, h.keys]

theorem SameIds.build (h : SameIds t t') (req : OutboundPublish) :
    (t'.buildOutboundPacket req).1 = (t.buildOutboundPacket req).1 ∧
      SameIds (t.buildOutboundPacket req).2 (t'.buildOutboundPacket req).2 := by
  have hlen : t'.conn.inflight.entries.length = t.conn.inflight.entries.length := by
    have hks := congrArg List.length h.keys
    simpa [AList.keys, List.keys] using hks
  have hpid : allocatePid t'.conn.nextPid t'.conn.inflight =
      allocatePid t.conn.nextPid t.conn.inflight := by
    rw [h.nextPid]
    exact allocatePidLoop_congr h.get _ _
  unfold buildOutboundPacket
  rw [hpid, hlen, h.config]
  split_ifs with hqos hfull
  · exact ⟨rfl, h⟩
  · exact ⟨rfl, h.nextPid, h.keys, h.config⟩
  · dsimp only
    split_ifs with hzero
    · exact ⟨rfl, rfl, h.keys, h.config⟩
    · refine ⟨rfl, rfl, ?_, h.config⟩
      simp only [store, onConn, AList.keys_insert, h.keys]

theorem SameIds.packetsOf (h : SameIds t t') (msgs : List OutboundPublish) :
    t'.packetsOf msgs = t.packetsOf msgs := by
  induction msgs generalizing t t' with
  | nil => rfl
  | cons msg rest ih =>
    obtain ⟨hpkt, hsame⟩ := h.build msg
    rw [Task.packetsOf, Task.packetsOf, hpkt, ih hsame]

end Task

namespace Handling

variable {α : Type} {p n : Int} {c c' c'' : Handling}
variable {packet : Packet} {conn : Conn}

/-! ## What a call writes -/

/-- What the connection of the call has taken up and written so far, the oldest first. -/
def log (c : Handling) : List Effect :=
  (c.sys.broker.trace.filter (fun x => x.epoch = some c.epoch)).reverse

/-- The call has written this meanwhile, and has the same messages in its books. -/
structure Writes (c : Handling) (written : List Effect) (c' : Handling) : Prop where
  epoch : c'.epoch = c.epoch
  conn : ∀ conn, c.sys.conns.get c.epoch = some conn →
    ∃ conn', c'.sys.conns.get c.epoch = some conn' ∧ Task.SameMessages conn conn'
  config : c'.sys.broker.config = c.sys.broker.config
  log : c'.log = c.log ++ written

theorem Writes.trans {l l' : List Effect} (h : Writes c l c') (h' : Writes c' l' c'') :
    Writes c (l ++ l') c'' := by
  refine ⟨h'.epoch.trans h.epoch, ?_, h'.config.trans h.config, ?_⟩
  · intro conn hconn
    obtain ⟨conn', hconn', hsame⟩ := h.conn conn hconn
    obtain ⟨conn'', hconn'', hsame'⟩ := h'.conn conn' (h.epoch ▸ hconn')
    exact ⟨conn'', h.epoch ▸ hconn'', hsame'.clientId.trans hsame.clientId,
      hsame'.clean.trans hsame.clean, hsame'.peer.trans hsame.peer,
      hsame'.replay.trans hsame.replay, hsame'.nextPid.trans hsame.nextPid,
      hsame'.inflight.trans hsame.inflight, hsame'.inboundQos2.trans hsame.inboundQos2,
      hsame'.exit.trans hsame.exit⟩
  · rw [h'.log, h.log, append_assoc]

theorem log_of_extends (hep : c'.epoch = c.epoch)
    (h : Extends (fun x => x.epoch ≠ some c.epoch) c.sys.broker.trace c'.sys.broker.trace) :
    c'.log = c.log := by
  obtain ⟨es, htrace, hes⟩ := h
  unfold log
  rw [htrace, hep, filter_append, filter_eq_nil_iff.2, nil_append]
  intro x hx
  simpa using hes x hx

theorem log_of_cons {x : Effect} (hep : c'.epoch = c.epoch) (hx : x.epoch = some c.epoch)
    (h : c'.sys.broker.trace = x :: c.sys.broker.trace) : c'.log = c.log ++ [x] := by
  unfold log
  rw [h, hep, filter_cons_of_pos (by simpa using hx), reverse_cons]

theorem sameMessages_refl (conn : Conn) : Task.SameMessages conn conn :=
  ⟨rfl, rfl, rfl, rfl, rfl, rfl, rfl, rfl⟩

/-- Nothing of the call's own has changed. -/
theorem writes_nil (hep : c'.epoch = c.epoch) (hconns : c'.sys.conns = c.sys.conns)
    (hcfg : c'.sys.broker.config = c.sys.broker.config)
    (htrace : Extends (fun x => x.epoch ≠ some c.epoch) c.sys.broker.trace c'.sys.broker.trace) :
    Writes c [] c' := by
  refine ⟨hep, ?_, hcfg, ?_⟩
  · intro conn hconn
    exact ⟨conn, hconns ▸ hconn, sameMessages_refl conn⟩
  · rw [log_of_extends hep htrace, append_nil]

/-- A step of another task. -/
theorem writes_afterOther {e : Event} {s : Sys} (hc : c.Sound) (hother : c.intrudes e = false)
    (hstep : c.sys.step e = some s) (hconn : ∃ conn, c.sys.conns.get c.epoch = some conn) :
    Writes c [] (c.afterOther s) := by
  have hrst : ∀ config, e ≠ .restart config := by
    rintro config rfl
    simp [intrudes] at hother
  have hcfg := Sys.step_config hstep hrst
  obtain ⟨conn, hconn⟩ := hconn
  cases Sys.step_life hc.1 hconn hstep with
  | aside h =>
    refine ⟨rfl, ?_, hcfg, ?_⟩
    · intro conn hconn
      exact ⟨conn, h.1.trans hconn, sameMessages_refl conn⟩
    · have hlog : (c.afterOther s).log = c.log := log_of_extends rfl h.2
      rw [hlog, append_nil]
  | fed conn' hsame hs' =>
    subst hs'
    refine ⟨rfl, ?_, hcfg, (append_nil _).symm⟩
    intro conn1 hconn1
    obtain rfl : conn = conn1 := Option.some.inj (hconn.symm.trans hconn1)
    exact ⟨conn', FinMap.get_insert_self .., hsame⟩
  | arm a r t he =>
    subst he
    simp [intrudes] at hother
  | finish x b he =>
    subst he
    simp [intrudes] at hother
  | restart config he => exact absurd he (hrst config)

theorem writes_others {turns : List HandlingTurn} (hc : c.Sound)
    (hconn : ∃ conn, c.sys.conns.get c.epoch = some conn)
    (h : c.others turns = some c') : Writes c [] c' := by
  have hstop : ∀ (c : Handling) (turns : List HandlingTurn), Writes c [] { c with turns } :=
    fun c turns => writes_nil rfl rfl rfl (.refl _)
  induction turns generalizing c with
  | nil => exact Option.some.inj h ▸ hstop c []
  | cons t turns ih =>
    cases t with
    | other e =>
      unfold others at h
      split_ifs at h with hother
      obtain ⟨s, hstep, h⟩ := Option.bind_eq_some_iff.1 h
      have hother : c.intrudes e = false := by simpa using hother
      have h1 := writes_afterOther hc hother hstep hconn
      have hmean := meanwhile_afterOther hc hother hstep
      obtain ⟨conn, hconn⟩ := hconn
      obtain ⟨conn', hconn', -⟩ := hmean.conn conn hconn
      exact h1.trans (ih hmean.sound ⟨conn', hconn'⟩ h)
    | otherPending d =>
      have h1 : Writes c [] { c with
          connectionsPending := c.connectionsPending + d, othersPending := c.othersPending + d } :=
        writes_nil rfl rfl rfl (.refl _)
      exact h1.trans (ih (c := { c with
        connectionsPending := c.connectionsPending + d, othersPending := c.othersPending + d })
        hc hconn h)
    | first | replay | arm => exact Option.some.inj h ▸ hstop c _

theorem writes_wait (hc : InLoop p n c) :
    wp wait (fun r c' => r = .ok () ∧ InLoop p n c' ∧ Writes c [] c') c := by
  intro r c' hrun
  have hloop := inLoop_wait hc r c' hrun
  obtain ⟨c1, hothers, heq⟩ := Option.map_eq_some_iff.1 hrun
  cases heq
  exact ⟨rfl, hloop, writes_others hc.sound hc.conn hothers⟩

theorem writes_turn (f : HandlingTurn → Option α) (hc : InLoop p n c) :
    wp (turn f) (fun r c' => ∃ a, r = .ok a ∧ InLoop p n c' ∧ Writes c [] c') c := by
  intro r c' hrun
  have hloop := inLoop_turn f hc r c' hrun
  have hturn : ∃ a turns, r = .ok a ∧ c' = { c with turns } :=
    wp_turn (Q := fun r c' => ∃ a turns, r = .ok a ∧ c' = { c with turns })
      (fun a turns => ⟨a, turns, rfl, rfl⟩) r c' hrun
  obtain ⟨a, turns, rfl, rfl⟩ := hturn
  exact ⟨a, rfl, hloop, writes_nil rfl rfl rfl (.refl _)⟩

/-! ## Sending -/

/-- What the attempt to send a packet leaves behind. -/
inductive Sent (k : Nat) (packet : Packet) : Except BrokerError Unit → List Effect → Prop
  | ok : Sent k packet (.ok ()) [.wrote k packet]
  | failed (e : BrokerError) : Sent k packet (.error e) [.sendFailed k packet e]

theorem send_cases {t t' : Task} {r : Except BrokerError Unit} (h : send packet t = some (r, t')) :
    ∃ x, Sent t.epoch packet r [x] ∧ t'.broker.trace = x :: t.broker.trace ∧
      t'.broker.config = t.broker.config ∧ t'.epoch = t.epoch ∧
      Task.SameMessages t.conn t'.conn := by
  unfold send at h
  rw [read_bind_apply] at h
  cases herr : t.sendError packet with
  | some e =>
    rw [herr] at h
    cases h
    exact ⟨_, .failed e, rfl, rfl, rfl, sameMessages_refl _⟩
  | none =>
    rw [herr] at h
    cases h
    exact ⟨_, .ok, rfl, rfl, rfl, ⟨rfl, rfl, rfl, rfl, rfl, rfl, rfl, rfl⟩⟩

theorem writes_sendPacket (packet : Packet) (hc : InLoop p n c) :
    wp (sendPacket packet) (fun r c' => ∃ sent written, r = .ok sent ∧
      Sent c.epoch packet sent written ∧ InLoop p n c' ∧ Writes c written c') c := by
  unfold sendPacket
  refine wp_seq (writes_wait hc) ?_ (fun _ _ h => by simp at h)
  rintro _ c1 ⟨-, hc1, hwait⟩ r c' hrun
  have hloop := inLoop_onTask (fun _ => Task.confined_send packet) hc1 r c' hrun
  obtain ⟨conn, hconn, hrun⟩ := Option.bind_eq_some_iff.1 hrun
  obtain ⟨⟨sent, t⟩, hsend, heq⟩ := Option.map_eq_some_iff.1 hrun
  cases heq
  obtain ⟨x, hsent, htrace, hcfg, hep, hsame⟩ := send_cases hsend
  have hsend : Writes c1 [x] { c1 with sys := c1.sys.ofTask t } := by
    refine ⟨rfl, ?_, hcfg, log_of_cons rfl ?_ htrace⟩
    · intro conn1 hconn1
      obtain rfl : conn = conn1 := Option.some.inj (hconn.symm.trans hconn1)
      refine ⟨t.conn, ?_, hsame⟩
      show FinMap.get (c1.sys.conns.insert t.epoch t.conn) c1.epoch = some t.conn
      rw [hep]
      exact FinMap.get_insert_self ..
    · cases hsent <;> rfl
  have hsent : Sent c.epoch packet sent [x] := hwait.epoch ▸ hsent
  exact ⟨sent, [x], rfl, hsent, hloop, hwait.trans hsend⟩

/-! ## Branches -/

/-- Whether the client has been silent for too long. -/
def expired (c : Handling) : Bool :=
  (c.sys.conns.get c.epoch).any (fun conn => conn.isKeepAliveExpired c.sys.broker.now)

/-- A branch that sends the message or ends the call. -/
def settles (expired : Bool) : ReplayArm → Bool
  | .send | .shutdown => true
  | .wake => false
  | .heartbeat => expired

/-- The last that a call writes when it ends at a message. -/
inductive Closing (k : Nat) (packet : Packet) : List Effect → Prop
  | silent : Closing k packet []
  | goodbye {r : Except BrokerError Unit} {last : List Effect} (h : Sent k .disconnect r last) :
      Closing k packet last
  | broken (e : BrokerError) : Closing k packet [.sendFailed k packet e]

/-- What a branch comes to, by whether it settles the message. -/
inductive Branched (k : Nat) (packet : Packet) : Bool → Except Unit Unit → List Effect → Prop
  | sent : Branched k packet true (.ok ()) [.wrote k packet]
  | passedOver : Branched k packet false (.ok ()) []
  | ended {last : List Effect} (h : Closing k packet last) :
      Branched k packet true (.error ()) last

/-- The call acts on the shared state only. -/
def OnShared (c : Handling) (r : Except Unit Unit) (c' : Handling) : Prop :=
  r = .ok () ∧ ∃ b, c.sys.broker.Moves endScope b ∧
    c' = { c with sys := { c.sys with broker := b } }

theorem onShared_cleanup : wp cleanup c.OnShared c := by
  refine wp_onSession ?_
  intro conn b hconn hb
  rw [← Option.some.inj hb]
  exact ⟨rfl, _, cleanup_moves _ trivial, rfl⟩

theorem onShared_onAbnormalDisconnect : wp onAbnormalDisconnect c.OnShared c := by
  refine wp_onSession ?_
  intro conn b hconn hb
  obtain ⟨b1, hfire, rfl⟩ := Option.map_eq_some_iff.1 hb
  have hmoves : c.sys.broker.Moves endScope b1 :=
    fireWill_moves (fun _ _ => trivial) (fun _ _ _ _ _ => trivial) hfire
  exact ⟨rfl, _, hmoves.trans (cleanup_moves _ trivial), rfl⟩

/-- The end of a call: what happens to the session is not the connection's own writing. -/
theorem writes_return {x : Serving Unit} (hx : wp x c.OnShared c) :
    wp (do x; meter .decConnections; returnOk : Serving Unit)
      (fun r c' => r = .error () ∧ Writes c [] c') c := by
  refine wp_seq hx ?_ (fun _ _ h => by simp [OnShared] at h)
  rintro _ c1 ⟨-, b, hmoves, rfl⟩
  unfold meter
  rw [wp_update_bind]
  have hcfg : b.config = c.sys.broker.config := moves_config hmoves
  refine (wp_fail ..).2 ⟨rfl, writes_nil rfl rfl hcfg ?_⟩
  exact (moves_epoch hmoves).mono (fun x hx => by simp [hx])

theorem writes_isKeepAliveExpired (hc : InLoop p n c) :
    wp isKeepAliveExpired (fun r c' => r = .ok c.expired ∧ InLoop p n c' ∧ Writes c [] c') c := by
  intro r c' hrun
  have hloop := inLoop_isKeepAliveExpired hc r c' hrun
  obtain ⟨conn, hconn⟩ := hc.conn
  have hexp : c.expired = conn.isKeepAliveExpired c.sys.broker.now := by
    rw [expired, hconn]
    rfl
  unfold isKeepAliveExpired at hrun
  rw [bind_apply, onTask, hconn] at hrun
  cases hrun
  refine ⟨congrArg _ hexp.symm, hloop, rfl, ?_, rfl, (append_nil _).symm⟩
  intro conn1 hconn1
  obtain rfl : conn = conn1 := Option.some.inj (hconn.symm.trans hconn1)
  exact ⟨conn, FinMap.get_insert_self .., sameMessages_refl conn⟩

theorem branched_replayBranch (packet : Packet) (a : ReplayArm) (hc : InLoop p n c) :
    wp (replayBranch packet a) (fun r c' => ∃ written,
      Branched c.epoch packet (settles c.expired a) r written ∧ Writes c written c') c := by
  cases a with
  | send =>
    refine wp_seq (writes_sendPacket packet hc) ?_ (fun _ _ h => by simp at h)
    rintro sent c1 ⟨_, written, heq, hsent, hc1, hwrites⟩
    cases heq
    cases hsent with
    | ok => exact (wp_pure ..).2 ⟨_, .sent, hwrites⟩
    | failed e =>
      refine wp_mono (writes_return onShared_onAbnormalDisconnect) ?_
      rintro _ c2 ⟨rfl, hend⟩
      exact ⟨_, .ended (.broken e), hwrites.trans hend⟩
  | shutdown =>
    refine wp_seq (writes_sendPacket .disconnect hc) ?_ (fun _ _ h => by simp at h)
    rintro sent c1 ⟨_, written, -, hsent, hc1, hwrites⟩
    refine wp_mono (writes_return onShared_cleanup) ?_
    rintro _ c2 ⟨rfl, hend⟩
    have hlast : written ++ [] = written := append_nil written
    exact ⟨_, .ended (.goodbye (hlast ▸ hsent)), hwrites.trans hend⟩
  | wake => exact (wp_pure ..).2 ⟨[], .passedOver, writes_nil rfl rfl rfl (.refl _)⟩
  | heartbeat =>
    refine wp_seq (writes_isKeepAliveExpired hc) ?_ (fun _ _ h => by simp at h)
    rintro expired c1 ⟨heq, hc1, hwrites⟩
    cases heq
    rw [settles]
    cases c.expired with
    | true =>
      refine wp_mono (writes_return onShared_onAbnormalDisconnect) ?_
      rintro _ c2 ⟨rfl, hend⟩
      exact ⟨[], .ended .silent, hwrites.trans hend⟩
    | false => exact (wp_pure ..).2 ⟨[], .passedOver, hwrites⟩

/-! ## The loop -/

/-- The branches that are taken in the course of the replay, each with whether the client had been
    silent for too long by then. -/
def selects : List OutboundPublish → Handling → List (ReplayArm × Bool)
  | [], _ => []
  | msg :: rest, c =>
    match onTask (act (fun t => (t.takeReplay msg rest).buildOutboundPacket msg)) c with
    | none => []
    | some (.ok (.ok (some packet)), c) =>
      match (do wait; replayTurn : Serving ReplayArm) c with
      | some (.ok a, c) =>
        (a, c.expired) :: match replayBranch packet a c with
          | some (.ok (), c) => selects rest c
          | _ => []
      | _ => []
    | some (_, c) => selects rest c

/-- What the replay of messages comes to, given the packets that are built for them and the branches
    that are taken. -/
inductive Replays (k : Nat) : List (OutboundPublish × Option Packet) → List (ReplayArm × Bool) →
    Except Unit Unit → List Effect → Prop
  | done : Replays k [] [] (.ok ()) []
  | refused {msg rest arms r written} (h : Replays k rest arms r written) :
      Replays k ((msg, none) :: rest) arms r (.taken k .replay msg :: written)
  | next {msg packet rest a expired arms r first written}
      (hfirst : Branched k packet (settles expired a) (.ok ()) first)
      (h : Replays k rest arms r written) :
      Replays k ((msg, some packet) :: rest) ((a, expired) :: arms) r
        (.taken k .replay msg :: (first ++ written))
  | ended {msg packet rest a expired last}
      (hlast : Branched k packet (settles expired a) (.error ()) last) :
      Replays k ((msg, some packet) :: rest) [(a, expired)] (.error ())
        (.taken k .replay msg :: last)

/-- Taking up a message. -/
theorem take_cases (msg : OutboundPublish) (rest : List OutboundPublish) (hc : InLoop p n c)
    (hconn : c.sys.conns.get c.epoch = some conn) :
    ∃ c1 conn1, onTask (act (fun t => (t.takeReplay msg rest).buildOutboundPacket msg)) c =
        some (.ok (.ok ((c.sys.task c.epoch conn).buildOutboundPacket msg).1), c1) ∧
      InLoop p n c1 ∧ c1.epoch = c.epoch ∧ c1.log = c.log ++ [.taken c.epoch .replay msg] ∧
      c1.sys.conns.get c.epoch = some conn1 ∧
      Task.SameIds ((c.sys.task c.epoch conn).buildOutboundPacket msg).2
        (c1.sys.task c.epoch conn1) := by
  let t := c.sys.task c.epoch conn
  have htake : ∀ t : Task, Task.Confined t (t.takeReplay msg rest) := fun t =>
    .of_eq t.broker.sessions.channels _ rfl rfl rfl
  have hsame : Task.SameIds t (t.takeReplay msg rest) := ⟨rfl, rfl, rfl⟩
  obtain ⟨hpkt, hids⟩ := hsame.build msg
  have hrun : onTask (act (fun t => (t.takeReplay msg rest).buildOutboundPacket msg)) c =
      some (.ok (.ok (t.buildOutboundPacket msg).1), { c with
        sys := c.sys.ofTask ((t.takeReplay msg rest).buildOutboundPacket msg).2 }) := by
    rw [onTask, hconn, ← hpkt]
    rfl
  have hloop := inLoop_onTask (fun t => (wp_act ..).2 (Task.confined_build (htake t) msg)) hc
    _ _ hrun
  have hep : ((t.takeReplay msg rest).buildOutboundPacket msg).2.epoch = c.epoch :=
    (Task.exchanges_buildOutboundPacket _ msg).epoch
  refine ⟨_, ((t.takeReplay msg rest).buildOutboundPacket msg).2.conn, hrun, hloop, rfl, ?_, ?_,
    hids.nextPid, hids.keys, hids.config⟩
  · have hext := (t.takeReplay msg rest).buildOutboundPacket_extends msg
    let taken : Handling :=
      { c with sys := c.sys.onBroker (fun b => b.note (.taken c.epoch .replay msg)) }
    have htaken : taken.log = c.log ++ [.taken c.epoch .replay msg] := log_of_cons rfl rfl rfl
    rw [← htaken]
    exact log_of_extends (c := taken) rfl (hext.mono (fun x hx => by simp [hx, Effect.epoch]))
  · show FinMap.get (c.sys.conns.insert _ _) c.epoch = _
    rw [hep]
    exact FinMap.get_insert_self ..

/-- One round of the loop, from a packet that is built to the end of the branch that is taken. -/
theorem round_cases {next : Serving Unit} {r : Except Unit Unit} (hc : InLoop p n c)
    (hrun : (do wait; let a ← replayTurn; replayBranch packet a; next : Serving Unit) c =
      some (r, c')) :
    ∃ a c1 result c2 first, (do wait; replayTurn : Serving ReplayArm) c = some (.ok a, c1) ∧
      replayBranch packet a c1 = some (result, c2) ∧
      (replayBranch packet a >>= fun _ => next) c1 = some (r, c') ∧
      Branched c.epoch packet (settles c1.expired a) result first ∧ Writes c first c2 ∧
      Goes p n (fun _ => InLoop p n) result c2 := by
  obtain ⟨⟨_, c0⟩, hwait⟩ := of_bind_apply hrun
  obtain ⟨rfl, hc0, hwrites0⟩ := writes_wait hc _ _ hwait
  obtain ⟨⟨_, c1⟩, hturn⟩ := of_bind_apply ((bind_apply_ok hwait).symm.trans hrun)
  obtain ⟨a, rfl, hc1, hwrites1⟩ := writes_turn _ hc0 _ _ hturn
  have hwaited := hwrites0.trans hwrites1
  have hrest : (replayBranch packet a >>= fun _ => next) c1 = some (r, c') :=
    ((bind_apply_ok hwait).trans (bind_apply_ok hturn)).symm.trans hrun
  obtain ⟨⟨result, c2⟩, hout⟩ := of_bind_apply hrest
  obtain ⟨first, hbranch, hwrites2⟩ := branched_replayBranch packet a hc1 _ _ hout
  exact ⟨a, c1, result, c2, first, (bind_apply_ok hwait).trans hturn, hout, hrest,
    hwaited.epoch ▸ hbranch, hwaited.trans hwrites2, replayBranch_goes packet a hc1 _ _ hout⟩

theorem replays_offlineReplay {msgs : List OutboundPublish} {r : Except Unit Unit}
    (hc : InLoop p n c) (hconn : c.sys.conns.get c.epoch = some conn)
    (hrun : offlineReplay msgs c = some (r, c')) : ∃ written, c'.log = c.log ++ written ∧
      Replays c.epoch ((c.sys.task c.epoch conn).packetsOf msgs) (c.selects msgs) r written := by
  induction msgs generalizing c conn with
  | nil =>
    cases hrun
    exact ⟨[], (append_nil _).symm, .done⟩
  | cons msg rest ih =>
    obtain ⟨c1, conn1, htake, hc1, hep1, hlog1, hconn1, hids⟩ := take_cases msg rest hc hconn
    rw [offlineReplay, bind_apply, htake] at hrun
    rw [Task.packetsOf, selects, htake]
    generalize ((c.sys.task c.epoch conn).buildOutboundPacket msg).1 = built at hrun ⊢
    have hconn1 : c1.sys.conns.get c1.epoch = some conn1 := hep1 ▸ hconn1
    cases built with
    | none =>
      obtain ⟨written, hlog, hrest⟩ := ih hc1 hconn1 hrun
      refine ⟨.taken c.epoch .replay msg :: written, ?_, ?_⟩
      · rw [hlog, hlog1, append_assoc, singleton_append]
      · rw [hep1, hids.packetsOf] at hrest
        exact .refused hrest
    | some packet =>
      obtain ⟨a, c2, result, c3, first, hselect, hout, hrun, hbranch, hwrites, hgoes⟩ :=
        round_cases hc1 hrun
      rw [hep1] at hbranch
      have hlog3 : c3.log = c.log ++ .taken c.epoch .replay msg :: first := by
        rw [hwrites.log, hlog1, append_assoc, singleton_append]
      simp only [hselect, hout]
      cases result with
      | error e =>
        cases (bind_apply_error hout).symm.trans hrun
        exact ⟨_, hlog3, .ended hbranch⟩
      | ok _ =>
        obtain ⟨conn3, hconn3, hsame⟩ := hwrites.conn conn1 hconn1
        have hep3 : c3.epoch = c.epoch := hwrites.epoch.trans hep1
        rw [hep1, ← hep3] at hconn3
        obtain ⟨written, hlog, hrest⟩ := ih hgoes hconn3 ((bind_apply_ok hout).symm.trans hrun)
        refine ⟨.taken c.epoch .replay msg :: (first ++ written), ?_, .next hbranch ?_⟩
        · rw [hlog, hlog3, append_assoc, cons_append]
        · -- the books are as they were when the packet had been built
          have hids3 : Task.SameIds (c1.sys.task c.epoch conn1) (c3.sys.task c.epoch conn3) :=
            ⟨hsame.nextPid, congrArg AList.keys hsame.inflight, hwrites.config⟩
          rw [hep3, hids3.packetsOf, hids.packetsOf] at hrest
          exact hrest

/-! ## All or to the end -/

/-- Every message that a packet was built for is sent, once and in order, or the call ends at it. -/
inductive SendsOrEnds (k : Nat) : List (OutboundPublish × Option Packet) → Except Unit Unit →
    List Effect → Prop
  | done : SendsOrEnds k [] (.ok ()) []
  | refused {msg rest r written} (h : SendsOrEnds k rest r written) :
      SendsOrEnds k ((msg, none) :: rest) r (.taken k .replay msg :: written)
  | sent {msg packet rest r written} (h : SendsOrEnds k rest r written) :
      SendsOrEnds k ((msg, some packet) :: rest) r
        (.taken k .replay msg :: .wrote k packet :: written)
  | ended {msg packet rest last} (h : Closing k packet last) :
      SendsOrEnds k ((msg, some packet) :: rest) (.error ()) (.taken k .replay msg :: last)

section replays

variable {k : Nat} {msgs : List (OutboundPublish × Option Packet)} {arms : List (ReplayArm × Bool)}
  {r : Except Unit Unit} {written : List Effect}

/-- A replay that goes on begins with a message that is taken up. -/
theorem Replays.head (h : Replays k msgs arms r written) :
    (written = [] ∧ r = .ok ()) ∨ ∃ msg rest, written = .taken k .replay msg :: rest := by
  cases h with
  | done => exact .inl ⟨rfl, rfl⟩
  | refused | next | ended => exact .inr ⟨_, _, rfl⟩

/-- The call does not end before it takes up a message. -/
theorem Replays.not_closing (h : Replays k msgs arms (.error ()) written) :
    ¬ Closing k packet written := by
  intro hclosing
  rcases h.head with ⟨-, hok⟩ | ⟨msg, rest, rfl⟩
  · cases hok
  · cases hclosing with
    | goodbye hsent => cases hsent

theorem Replays.sendsOrEnds_iff (h : Replays k msgs arms r written) :
    SendsOrEnds k msgs r written ↔ ∀ s ∈ arms, settles s.2 s.1 = true := by
  induction h with
  | done => exact ⟨fun _ s hs => absurd hs not_mem_nil, fun _ => .done⟩
  | refused h ih =>
    refine Iff.trans ⟨fun hs => ?_, .refused⟩ ih
    cases hs with
    | refused hs => exact hs
  | @next msg packet rest a expired arms r first written hfirst h ih =>
    rw [forall_mem_cons]
    generalize settles expired a = settled at hfirst ⊢
    cases hfirst with
    | sent =>
      rw [← ih]
      constructor
      · intro hs
        refine ⟨rfl, ?_⟩
        cases hs with
        | sent hs => exact hs
        | ended hclosing =>
          -- nothing would have been taken up after the farewell
          have hnil : written = [] := by
            cases hclosing with
            | goodbye hsent =>
              cases hsent
              rfl
          rcases h.head with ⟨-, hok⟩ | ⟨_, _, hcons⟩
          · cases hok
          · cases hnil.symm.trans hcons
      · rintro ⟨-, hs⟩
        exact .sent hs
    | passedOver =>
      refine ⟨fun hs => ?_, fun hs => by simp at hs⟩
      cases hs with
      | sent hs => rcases h.head with ⟨h, -⟩ | ⟨_, _, h⟩ <;> cases h
      | ended hclosing => exact absurd hclosing h.not_closing
  | @ended msg packet rest a expired last hlast =>
    rw [forall_mem_singleton]
    generalize settles expired a = settled at hlast ⊢
    cases hlast with
    | ended hclosing => exact ⟨fun _ => rfl, fun _ => .ended hclosing⟩

end replays

/-- **When the replay sends every message or ends the connection**: exactly if every branch that is
    taken on the way settles its message, that is, if the shutdown channel wakes up only with a
    signal and the heartbeat ticks only when the keep-alive interval has passed. -/
theorem sendsOrEnds_iff_settles {msgs : List OutboundPublish} {conn : Conn} {r : Except Unit Unit}
    (hc : InLoop p n c) (hconn : c.sys.conns.get c.epoch = some conn)
    (hrun : offlineReplay msgs c = some (r, c')) :
    ∃ written, c'.log = c.log ++ written ∧
      (SendsOrEnds c.epoch ((c.sys.task c.epoch conn).packetsOf msgs) r written ↔
        ∀ s ∈ c.selects msgs, settles s.2 s.1 = true) := by
  obtain ⟨written, hlog, hreplays⟩ := replays_offlineReplay hc hconn hrun
  exact ⟨written, hlog, hreplays.sendsOrEnds_iff⟩

/-- A message of QoS 1 on the topic `t`. -/
def keptMessage (payload : String) : OutboundPublish :=
  { topic := "t", payload := stringBytes payload, qos := .atLeastOnce, retain := false }

/-- A call at the beginning of its replay. -/
def resumed (s : Sys) (turns : List HandlingTurn) : Handling :=
  { start s 0 turns with
    promoted := true, clientIdOut := some "a", epoch := 1
    gauges := [.incConnections, .decPending, .incPending] }

theorem inLoop_resumed {s : Sys} (hs : Sys.Reachable s) (hconn : s.conns.get 1 = some conn)
    (turns : List HandlingTurn) : InLoop 0 (s.broker.connectionsCurrent - 1) (resumed s turns) := by
  refine ⟨rfl, rfl, rfl, rfl, ?_, ⟨hs.epochs, hs.entries⟩, conn, hconn⟩
  show s.broker.connectionsCurrent - 0 = s.broker.connectionsCurrent - 1 + 1
  omega

theorem sendsOrEnds_iff_settles_two : ∃ s conn c' written, Sys.Reachable s ∧
    s.conns.get 1 = some conn ∧
    offlineReplay [keptMessage "x", keptMessage "y"] (resumed s [.replay .send, .replay .send]) =
      some (.ok (), c') ∧
    c'.log = (resumed s [.replay .send, .replay .send]).log ++ written ∧
    SendsOrEnds 1 ((s.task 1 conn).packetsOf [keptMessage "x", keptMessage "y"]) (.ok ())
      written := by
  let msgs := [keptMessage "x", keptMessage "y"]
  let turns : List HandlingTurn := [.replay .send, .replay .send]
  obtain ⟨s₀, s, h₀, hrun, hs⟩ := Sys.exists_run {} 0 [Sys.opens "a" false]
    (fun s => (s.conns.get 1).isSome &&
      (offlineReplay msgs (resumed s turns)).any (fun result => result.1.isOk) &&
      ((resumed s turns).selects msgs).all (fun s => settles s.2 s.1)) (by decide +kernel)
  have hreach : Sys.Reachable s := ⟨{}, 0, s₀, _, h₀, hrun⟩
  simp only [Bool.and_eq_true, all_eq_true] at hs
  obtain ⟨⟨hconn, hreplay⟩, hsettles⟩ := hs
  obtain ⟨conn, hconn⟩ := Option.isSome_iff_exists.1 hconn
  obtain ⟨⟨r, c'⟩, hreplay, hok⟩ := (Option.any_eq_true _ _).1 hreplay
  obtain ⟨written, hlog, hiff⟩ :=
    sendsOrEnds_iff_settles (inLoop_resumed hreach hconn turns) hconn hreplay
  cases r with
  | error _ => simp [Except.isOk, Except.toBool] at hok
  | ok _ => exact ⟨s, conn, c', written, hreach, hconn, hreplay, hlog, hiff.2 hsettles⟩

/-! ## What is passed over -/

/-- The client `a` comes back without a keep-alive interval, and breaks off after the replay. -/
def returning (turns : List HandlingTurn) : List HandlingTurn :=
  .first (Packet.frame (.connect {
      protocolLevel := mqtt311Level, keepAlive := 0, clientId := "a", cleanSession := false
      will := none, username := none, password := none, properties := none })) "" none ::
    turns ++ [.arm .streamEnd]

/-- Its session has kept two messages. -/
def keptRun : List Event :=
  Sys.opens "a" false :: Sys.sends 1 Sys.subscribeT ++ Sys.sends 1 .disconnect ++
    [.finish 1, .manualPublish { topic := "t", payload := "x", qos := 1 },
      .manualPublish { topic := "t", payload := "y", qos := 1 }]

/-- What a connection has written. -/
def packets (c : Handling) : List Packet :=
  c.log.filterMap (fun x => match x with
    | .wrote _ packet => some packet
    | _ => none)

/-- The first message does not come to be sent: the shutdown channel wakes up without a signal, or
    the heartbeat ticks after an hour. -/
def interrupted : List (List HandlingTurn) :=
  [[.replay .wake, .replay .send],
    [.other (.tick (Duration.fromSecs 3600)), .replay .heartbeat, .replay .send]]

/-- **Messages are passed over.** The first of two messages is not sent, and the replay goes on with
    the second. -/
theorem replay_passes_over : ∃ s, Sys.Reachable s ∧
    s.broker.sessions.queued "a" = [keptMessage "x", keptMessage "y"] ∧
    ∀ turns ∈ interrupted, ∃ c,
      handleConnection dummyAddr (start s 0 (returning turns)) = some (.ok (), c) ∧
      c.packets = [.connack ⟨true, 0, mqtt311Level⟩, buildPublish (keptMessage "y") (some 2)] := by
  obtain ⟨s₀, s, h₀, hrun, hs⟩ := Sys.exists_run {} 0 keptRun
    (fun s => s.broker.sessions.queued "a" = [keptMessage "x", keptMessage "y"] &&
      interrupted.all (fun turns =>
        (handleConnection dummyAddr (start s 0 (returning turns))).any (fun result =>
          result.1.isOk && result.2.packets =
            [.connack ⟨true, 0, mqtt311Level⟩, buildPublish (keptMessage "y") (some 2)])))
    (by decide +kernel)
  simp only [Bool.and_eq_true, decide_eq_true_eq, all_eq_true] at hs
  refine ⟨s, ⟨{}, 0, s₀, _, h₀, hrun⟩, hs.1, ?_⟩
  intro turns hturns
  obtain ⟨⟨r, c⟩, hcall, hc⟩ := (Option.any_eq_true _ _).1 (hs.2 turns hturns)
  simp only [Bool.and_eq_true, decide_eq_true_eq] at hc
  cases r with
  | error _ => simp [Except.isOk, Except.toBool] at hc
  | ok _ => exact ⟨c, hcall, hc.2⟩

end Handling

end LumenMQ
