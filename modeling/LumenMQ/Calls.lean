import LumenMQ.HandleConnection
import LumenMQ.Lifetimes

set_option autoImplicit false

/-! # What a call leaves behind

Every way out of `handle_connection` takes back what the call has done to the gauges, and leaves no
entry that claims to be connected under the call's epoch. The argument follows the program: in its
loop the call is counted as one current connection, whatever the others do; each exit sees to the
session first and to the gauge then. -/

namespace LumenMQ

open Option List FinMap SessionManager BrokerState Sys GaugeOp

open Process

/-! ## What a connection does in its loop -/

namespace Task

/-- A connection keeps its name and leaves the gauge alone, and every entry after it continues one
    that was there before. -/
structure Confined (t t' : Task) : Prop where
  epoch : t'.epoch = t.epoch
  clientId : t'.conn.clientId = t.conn.clientId
  connectionsCurrent : t'.broker.connectionsCurrent = t.broker.connectionsCurrent
  epochCounter : t'.broker.sessions.epochCounter = t.broker.sessions.epochCounter
  entry : ∀ c e', t'.broker.sessions.get c = some e' →
    ∃ e, t.broker.sessions.get c = some e ∧ BrokerState.Continues e e'

variable {S : Scope} {t t' : Task}

/-- The tables and the gauge are as they were. -/
theorem Confined.of_eq (channels : FinMap Nat Channel) (trace : List Effect)
    (hep : t'.epoch = t.epoch) (hcl : t'.conn.clientId = t.conn.clientId)
    (hbr : t'.broker =
      { t.broker with sessions := { t.broker.sessions with channels }, trace }) :
    Confined t t' := by
  refine ⟨hep, hcl, by rw [hbr], by rw [hbr], ?_⟩
  intro c e' he'
  rw [hbr] at he'
  exact ⟨e', he', .refl e'⟩

theorem Confined.refl (t : Task) : Confined t t :=
  .of_eq t.broker.sessions.channels t.broker.trace rfl rfl rfl

theorem Confined.trans {t1 t2 t3 : Task} (h : Confined t1 t2) (h' : Confined t2 t3) :
    Confined t1 t3 := by
  refine ⟨h'.epoch.trans h.epoch, h'.clientId.trans h.clientId,
    h'.connectionsCurrent.trans h.connectionsCurrent, h'.epochCounter.trans h.epochCounter, ?_⟩
  intro c e' he'
  obtain ⟨e1, he1, hcont'⟩ := h'.entry c e' he'
  obtain ⟨e, he, hcont⟩ := h.entry c e1 he1
  exact ⟨e, he, hcont.trans hcont'⟩

theorem Move.confined (h : t.Move S t') (hdep : ¬ S.departs) : Confined t t' := by
  rcases h.shared with hb | ⟨channels, trace, hb⟩
  · exact ⟨h.epoch_eq, h.clientId_eq, hb.connectionsCurrent_eq hdep, hb.epochCounter_eq,
      fun c e' he' => hb.entry he'⟩
  · exact .of_eq channels trace h.epoch_eq h.clientId_eq hb

theorem moves_confined (h : Moves S t t') (hdep : ¬ S.departs) : Confined t t' := by
  induction h with
  | refl => exact .refl t
  | tail _ hmove ih => exact ih.trans (hmove.confined hdep)

/-- Sending a packet, whatever it is. -/
theorem confined_send (packet : Packet) : wp (send packet) (fun _ => Confined t) t := by
  refine wp_send_cases (fun _ => ?_) (fun e _ => ?_)
  · exact .of_eq t.broker.sessions.channels _ rfl rfl rfl
  · exact .of_eq t.broker.sessions.channels _ rfl rfl rfl

theorem confined_build {t1 : Task} (h : Confined t t1) (req : OutboundPublish) :
    Confined t (t1.buildOutboundPacket req).2 := by
  have hexc := t1.exchanges_buildOutboundPacket req
  obtain ⟨trace, hbr⟩ := hexc.broker
  exact h.trans (.of_eq t1.broker.sessions.channels trace hexc.epoch hexc.clientId hbr)

theorem confined_touchAndHandle (packet : Packet) :
    wp (Handling.touchAndHandle packet) (fun _ => Confined t) t := by
  unfold Handling.touchAndHandle
  rw [wp_update_bind]
  show wp (handlePacket packet) _ _
  refine wp_mono (wp_handlePacket (S := { departs := False }) .refl ?_) ?_
  · exact ⟨trivial, fun _ _ _ => trivial, fun _ _ _ _ _ => trivial, fun _ _ => trivial,
      fun _ _ => trivial, fun _ _ => trivial, fun _ _ => trivial⟩
  · intro r t' ht'
    have hbook : Confined t (t.onConn (fun c => { c with lastActivity := t.broker.now })) :=
      .of_eq t.broker.sessions.channels t.broker.trace rfl rfl rfl
    exact hbook.trans (moves_confined ht' id)

end Task

/-! ## The end of a session -/

namespace BrokerState

variable {b : BrokerState} {c : String} {k : Nat}

/-- No entry with the epoch is connected. -/
def Offline (b : BrokerState) (k : Nat) : Prop :=
  ∀ c e, b.sessions.get c = some e → e.epoch = k → e.connected = false

/-- Nothing is removed only if the session is not the connection's. -/
theorem owns_of_removeIfEpoch {sm sm' : SessionManager} (h : sm.removeIfEpoch c k = (none, sm')) :
    sm.owns c k = false := by
  cases hown : sm.owns c k with
  | false => rfl
  | true =>
    obtain ⟨e, he⟩ := removeIfEpoch_of_owns hown
    simp [he] at h

/-- What is removed is the connection's entry. -/
theorem epoch_ne_of_removeIfEpoch {sm sm' : SessionManager} {removed : SessionEntry}
    (hown : ∀ c' e, sm.get c' = some e → e.epoch = k → c' = c)
    (h : sm.removeIfEpoch c k = (some removed, sm')) {c' : String} {e : SessionEntry}
    (he : sm'.get c' = some e) : e.epoch ≠ k := by
  unfold removeIfEpoch at h
  split_ifs at h with howns
  · rw [show sm' = (sm.remove c).2 by rw [h], get_remove] at he
    split_ifs at he with hc
    exact fun hep => hc (hown c' e he hep)
  · simp at h

/-- **After its clean-up no entry of a connection is connected.** -/
theorem cleanup_offline (hown : ∀ c' e, b.sessions.get c' = some e → e.epoch = k → c' = c)
    (clean : Bool) : (b.cleanup c k clean).Offline k := by
  unfold cleanup
  cases clean with
  | true =>
    rw [if_pos rfl]
    intro c' e he hep
    split at he
    · next hrem =>
      have howns := owns_of_removeIfEpoch hrem
      obtain rfl := hown c' e he hep
      simp [owns, he, hep] at howns
    · next hrem => exact absurd hep (epoch_ne_of_removeIfEpoch hown hrem he)
  | false =>
    rw [if_neg (by simp)]
    -- what was connected under the epoch is marked
    have hmarked : ∀ c' e, (b.sessions.markOffline b.now c k).get c' = some e → e.epoch = k →
        c' = c ∧ e.connected = false := by
      intro c' e he hep
      rw [markOffline_get] at he
      obtain ⟨e1, he1, rfl⟩ := map_eq_some_iff.1 he
      have hep1 : e1.epoch = k := by
        split_ifs at hep <;> exact hep
      have hc := hown c' e1 he1 hep1
      refine ⟨hc, ?_⟩
      split_ifs with h
      · rfl
      · simpa [hc, hep1] using h
    have hoff : { b with sessions := b.sessions.markOffline b.now c k }.Offline k :=
      fun c' e he hep => (hmarked c' e he hep).2
    dsimp only
    split_ifs with howns hexp
    · exact hoff
    · split
      · exact hoff
      · next hrem =>
        intro c' e he hep
        exact absurd hep
          (epoch_ne_of_removeIfEpoch (fun c' e he h => (hmarked c' e he h).1) hrem he)
    · obtain ⟨storage, hb⟩ := persistSessionSnapshot_eq
        { b with sessions := b.sessions.markOffline b.now c k } c
      rw [hb]
      exact hoff

end BrokerState

namespace Handling

variable {α β : Type} {p n : Int} {c c' : Handling}
variable {s : Sys} {conn : Conn}

/-! ## The call among the others -/

/-- The gauge of pending connections without what the others have done to it. -/
def ownPending (c : Handling) : Int := c.connectionsPending - c.othersPending

/-- The gauge of connections without what the others have done to it. -/
def ownCurrent (c : Handling) : Int := c.sys.broker.connectionsCurrent - c.othersCurrent

/-- The epochs and the entries of the system are in order. -/
def Sound (c : Handling) : Prop := c.sys.Epochs ∧ c.sys.Entries

/-- What the others leave alone. -/
structure Meanwhile (c c' : Handling) : Prop where
  promoted : c'.promoted = c.promoted
  clientIdOut : c'.clientIdOut = c.clientIdOut
  epoch : c'.epoch = c.epoch
  gauges : c'.gauges = c.gauges
  ownPending : c'.ownPending = c.ownPending
  ownCurrent : c'.ownCurrent = c.ownCurrent
  sound : c'.Sound
  conn : ∀ conn, c.sys.conns.get c.epoch = some conn →
    ∃ conn', c'.sys.conns.get c.epoch = some conn' ∧ conn'.clientId = conn.clientId

/-- A step of another task. -/
theorem meanwhile_afterOther {e : Event} (hc : c.Sound) (hother : c.intrudes e = false)
    (hstep : c.sys.step e = some s) : Meanwhile c (c.afterOther s) := by
  refine ⟨rfl, rfl, rfl, rfl, rfl, ?_, ⟨step_epochs hstep hc.1,
    step_entries hstep hc.1 hc.2⟩, ?_⟩
  · unfold ownCurrent afterOther
    dsimp only
    omega
  · intro conn hconn
    cases step_life hc.1 hconn hstep with
    | aside h => exact ⟨conn, h.1.trans hconn, rfl⟩
    | fed conn' hsame hs' =>
      subst hs'
      exact ⟨conn', get_insert_self .., hsame.clientId⟩
    | arm a r t he =>
      subst he
      simp [intrudes] at hother
    | finish x b he =>
      subst he
      simp [intrudes] at hother
    | restart config he =>
      subst he
      simp [intrudes] at hother

theorem others_meanwhile {turns : List HandlingTurn} (hc : c.Sound)
    (h : c.others turns = some c') : Meanwhile c c' := by
  have hstop : ∀ (c : Handling) (turns : List HandlingTurn), c.Sound →
      Meanwhile c { c with turns } :=
    fun c turns hc => ⟨rfl, rfl, rfl, rfl, rfl, rfl, hc, fun conn hconn => ⟨conn, hconn, rfl⟩⟩
  induction turns generalizing c with
  | nil => exact some.inj h ▸ hstop c [] hc
  | cons t turns ih =>
    cases t with
    | other e =>
      unfold others at h
      split_ifs at h with hother
      obtain ⟨s, hstep, h⟩ := bind_eq_some_iff.1 h
      have h1 := meanwhile_afterOther hc (by simpa using hother) hstep
      have h2 := ih h1.sound h
      refine ⟨h2.promoted, h2.clientIdOut, h2.epoch, h2.gauges, h2.ownPending,
        h2.ownCurrent.trans h1.ownCurrent, h2.sound, ?_⟩
      intro conn hconn
      obtain ⟨conn1, hconn1, hcl1⟩ := h1.conn conn hconn
      obtain ⟨conn2, hconn2, hcl2⟩ := h2.conn conn1 hconn1
      exact ⟨conn2, hconn2, hcl2.trans hcl1⟩
    | otherPending d =>
      have h2 := ih (c := { c with
        connectionsPending := c.connectionsPending + d, othersPending := c.othersPending + d }) hc h
      refine ⟨h2.promoted, h2.clientIdOut, h2.epoch, h2.gauges, h2.ownPending.trans ?_,
        h2.ownCurrent, h2.sound, h2.conn⟩
      exact Int.add_sub_add_right ..
    | first | replay | arm => exact some.inj h ▸ hstop c _ hc

/-! ## Phases -/

/-- The call has a session, and has done so much to the gauges. -/
structure Attends (p n : Int) (promoted : Bool) (ops : List GaugeOp) (c : Handling) : Prop where
  gauges : c.gauges = ops
  promoted : c.promoted = promoted
  clientIdOut : c.clientIdOut.isSome = true
  ownPending : c.ownPending = p + (ops.map pending).sum
  ownCurrent : c.ownCurrent = n + (ops.map current).sum
  sound : c.Sound
  conn : ∃ conn, c.sys.conns.get c.epoch = some conn

/-- The call waits for a CONNECT. -/
structure Waits (p n : Int) (c : Handling) : Prop where
  gauges : c.gauges = [.incPending]
  promoted : c.promoted = false
  clientIdOut : c.clientIdOut = none
  ownPending : c.ownPending = p + 1
  ownCurrent : c.ownCurrent = n
  sound : c.Sound

/-- The connection is counted, and counted once. -/
abbrev InLoop (p n : Int) : Handling → Prop :=
  Attends p n true [.incConnections, .decPending, .incPending]

/-- The session has been seen to, the gauge not yet. -/
def Quits (p n : Int) (c : Handling) : Prop := InLoop p n c ∧ c.sys.broker.Offline c.epoch

/-- All has been seen to. -/
def Leaves (p n : Int) (c : Handling) : Prop :=
  Attends p n true [.decConnections, .incConnections, .decPending, .incPending] c ∧
    c.sys.broker.Offline c.epoch

/-- What holds after a part of the call: a property if it goes on, and all has been seen to if it
    returns. -/
def Goes (p n : Int) (Q : α → Handling → Prop) : Except Unit α → Handling → Prop
  | .ok a, c => Q a c
  | .error _, c => Leaves p n c

theorem goes_bind {x : Serving α} {f : α → Serving β} {Q : α → Handling → Prop}
    {R : β → Handling → Prop} (hx : wp x (Goes p n Q) c)
    (hf : ∀ a c', Q a c' → wp (f a) (Goes p n R) c') : wp (x >>= f) (Goes p n R) c :=
  wp_seq hx hf (fun _ _ h => h)

theorem goes_pure {Q : α → Handling → Prop} {a : α} (h : Q a c) :
    wp (pure a : Serving α) (Goes p n Q) c :=
  (wp_pure ..).2 h

/-! ## The gauges -/

/-- One access to a gauge. -/
theorem attends_metered {promoted : Bool} {ops : List GaugeOp} {op : GaugeOp}
    (hc : Attends p n promoted ops c) : Attends p n promoted (op :: ops) (c.metered op) := by
  refine ⟨congrArg (op :: ·) hc.gauges, hc.promoted, hc.clientIdOut, ?_, ?_, ?_, hc.conn⟩
  · have hown := hc.ownPending
    unfold ownPending at hown ⊢
    rw [map_cons, sum_cons]
    show c.connectionsPending + op.pending - c.othersPending = _
    omega
  · have hown := hc.ownCurrent
    unfold ownCurrent at hown ⊢
    rw [map_cons, sum_cons]
    show c.sys.broker.connectionsCurrent + op.current - c.othersCurrent = _
    omega
  -- the tables do not know the gauge
  · exact ⟨⟨hc.sound.1.conns, hc.sound.1.clients, hc.sound.1.apart⟩,
      ⟨hc.sound.2.drawn, hc.sound.2.tx, hc.sound.2.owner⟩⟩

/-! ## In the loop -/

theorem inLoop_wait (hc : InLoop p n c) : wp wait (Goes p n (fun _ => InLoop p n)) c := by
  unfold wait
  rw [wp_tryUpdate]
  intro c' h
  have hmean := others_meanwhile hc.sound h
  obtain ⟨conn, hconn⟩ := hc.conn
  obtain ⟨conn', hconn', -⟩ := hmean.conn conn hconn
  exact ⟨hmean.gauges.trans hc.gauges, hmean.promoted.trans hc.promoted,
    hmean.clientIdOut ▸ hc.clientIdOut, hmean.ownPending.trans hc.ownPending,
    hmean.ownCurrent.trans hc.ownCurrent, hmean.sound, conn', hmean.epoch.symm ▸ hconn'⟩

theorem wp_turn {f : HandlingTurn → Option α} {Q : Except Unit α → Handling → Prop}
    (h : ∀ a turns, Q (.ok a) { c with turns }) : wp (turn f) Q c := by
  intro r c' hrun
  unfold turn at hrun
  split at hrun
  · simp at hrun
  · obtain ⟨a, -, heq⟩ := map_eq_some_iff.1 hrun
    cases heq
    exact h a _

theorem inLoop_turn (f : HandlingTurn → Option α) (hc : InLoop p n c) :
    wp (turn f) (Goes p n (fun _ => InLoop p n)) c :=
  wp_turn (fun _ _ => ⟨hc.gauges, hc.promoted, hc.clientIdOut, hc.ownPending, hc.ownCurrent,
    hc.sound, hc.conn⟩)

/-- What a connection does in its loop. -/
theorem sound_ofTask {k : Nat} {t : Task} (heps : s.Epochs) (hentries : s.Entries)
    (hconn : s.conns.get k = some conn) (ht : Task.Confined (s.task k conn) t) :
    (s.ofTask t).Epochs ∧ (s.ofTask t).Entries := by
  have hkeep : Keeps s (s.ofTask t) := { Keeps.refl s with
    counter := ht.epochCounter, entry := ht.entry, conn := conns_ofTask hconn ht.epoch ht.clientId }
  exact ⟨hkeep.epochs heps, hkeep.entries hentries⟩

theorem inLoop_onTask {x : Handler α} (hx : ∀ t : Task, wp x (fun _ => Task.Confined t) t)
    (hc : InLoop p n c) : wp (onTask x) (Goes p n (fun _ => InLoop p n)) c := by
  intro r c' hrun
  obtain ⟨conn, hconn, hrun⟩ := bind_eq_some_iff.1 hrun
  obtain ⟨⟨r1, t⟩, hrun1, heq⟩ := map_eq_some_iff.1 hrun
  cases heq
  have ht := hx _ r1 t hrun1
  refine ⟨hc.gauges, hc.promoted, hc.clientIdOut, hc.ownPending, ?_,
    sound_ofTask hc.sound.1 hc.sound.2 hconn ht, t.conn, ?_⟩
  · rw [← hc.ownCurrent]
    exact congrArg (· - c.othersCurrent) ht.connectionsCurrent
  · show get (c.sys.conns.insert t.epoch t.conn) c.epoch = some t.conn
    rw [ht.epoch]
    exact get_insert_self ..

theorem inLoop_sendPacket (packet : Packet) (hc : InLoop p n c) :
    wp (sendPacket packet) (Goes p n (fun _ => InLoop p n)) c :=
  goes_bind (inLoop_wait hc) (fun _ _ h => inLoop_onTask (fun _ => Task.confined_send packet) h)

theorem inLoop_isKeepAliveExpired (hc : InLoop p n c) :
    wp isKeepAliveExpired (Goes p n (fun _ => InLoop p n)) c := by
  refine goes_bind (inLoop_onTask (fun t => (wp_read ..).2 (.refl t)) hc) ?_
  intro r c' h
  cases r <;> exact goes_pure h

/-! ## Exits -/

theorem wp_onSession {f : BrokerState → String → Nat → Bool → Option BrokerState}
    {Q : Except Unit Unit → Handling → Prop}
    (h : ∀ conn b, c.sys.conns.get c.epoch = some conn →
      f c.sys.broker conn.clientId c.epoch conn.clean = some b →
        Q (.ok ()) { c with sys := { c.sys with broker := b } }) : wp (onSession f) Q c := by
  unfold onSession
  rw [wp_tryUpdate]
  intro c' hc'
  obtain ⟨conn, hconn, hc'⟩ := bind_eq_some_iff.1 hc'
  obtain ⟨b, hb, rfl⟩ := map_eq_some_iff.1 hc'
  exact h conn b hconn hb

/-- The moves of a connection at its end. -/
abbrev endScope : Scope := { departs := False }

theorem inLoop_broker {b : BrokerState} (hc : InLoop p n c) (h : c.sys.broker.Moves endScope b) :
    InLoop p n { c with sys := { c.sys with broker := b } } := by
  have hsound := moves_invariant (I := fun s => s.Epochs ∧ s.Entries)
    (fun _ _ hs hmove => ⟨hmove.epochs hs.1, hmove.entries hs.1 hs.2⟩)
    (broker_moves (s := c.sys) h) hc.sound
  refine ⟨hc.gauges, hc.promoted, hc.clientIdOut, hc.ownPending, ?_, hsound, hc.conn⟩
  rw [← hc.ownCurrent]
  exact congrArg (· - c.othersCurrent) (moves_connectionsCurrent h id)

/-- The entry with the epoch of a call is the one of its client. -/
theorem owner_of_inLoop (hc : InLoop p n c) (hconn : c.sys.conns.get c.epoch = some conn)
    (clientId : String) (e : SessionEntry) (he : c.sys.broker.sessions.get clientId = some e)
    (hep : e.epoch = c.epoch) : clientId = conn.clientId :=
  hc.sound.2.owner c.epoch conn clientId e hconn he hep

theorem quits_of_cleanup (hc : InLoop p n c) (hconn : c.sys.conns.get c.epoch = some conn) :
    Quits p n { c with sys := { c.sys with
      broker := c.sys.broker.cleanup conn.clientId c.epoch conn.clean } } :=
  ⟨inLoop_broker hc (cleanup_moves _ trivial),
    cleanup_offline (owner_of_inLoop hc hconn) conn.clean⟩

theorem quits_cleanup (hc : InLoop p n c) : wp cleanup (Goes p n (fun _ => Quits p n)) c := by
  refine wp_onSession ?_
  intro conn b hconn hb
  rw [← some.inj hb]
  exact quits_of_cleanup hc hconn

theorem quits_onAbnormalDisconnect (hc : InLoop p n c) :
    wp onAbnormalDisconnect (Goes p n (fun _ => Quits p n)) c := by
  refine wp_onSession ?_
  intro conn b hconn hb
  obtain ⟨b1, hfire, rfl⟩ := map_eq_some_iff.1 hb
  have hmoves : c.sys.broker.Moves endScope b1 :=
    fireWill_moves (fun _ _ => trivial) (fun _ _ _ _ _ => trivial) hfire
  exact (quits_of_cleanup (inLoop_broker hc hmoves) hconn :)

theorem inLoop_clearWill (hc : InLoop p n c) :
    wp clearWill (Goes p n (fun _ => InLoop p n)) c := by
  refine wp_onSession ?_
  intro conn b hconn hb
  rw [← some.inj hb]
  exact inLoop_broker hc (.single (.takeWill conn.clientId c.epoch))

/-- The gauge is lowered once the session has been seen to. -/
theorem leaves_decConnections (hc : Quits p n c) :
    wp (meter .decConnections) (Goes p n (fun _ => Leaves p n)) c :=
  (wp_update ..).2 ⟨attends_metered hc.1, hc.2⟩

/-- An exit that returns at once. -/
theorem leaves_return {x : Serving Unit} {Q : α → Handling → Prop}
    (hx : wp x (Goes p n (fun _ => Quits p n)) c) :
    wp (do x; meter .decConnections; returnOk) (Goes p n Q) c :=
  goes_bind hx (fun _ _ h => goes_bind (leaves_decConnections h) (fun _ _ h => (wp_fail ..).2 h))

/-- What holds after a branch of the main loop. -/
def Branches (p n : Int) : Flow → Handling → Prop
  | .continue => InLoop p n
  | .break => Quits p n

/-- An exit that leaves the loop. -/
theorem quits_break {x : Serving Unit} (hx : wp x (Goes p n (fun _ => Quits p n)) c) :
    wp (do x; pure .break) (Goes p n (Branches p n)) c :=
  goes_bind hx (fun _ _ h => goes_pure h)

/-! ## The offline replay -/

theorem replayBranch_goes (packet : Packet) (a : ReplayArm) (hc : InLoop p n c) :
    wp (replayBranch packet a) (Goes p n (fun _ => InLoop p n)) c := by
  cases a with
  | shutdown =>
    exact goes_bind (inLoop_sendPacket _ hc) (fun _ _ h => leaves_return (quits_cleanup h))
  | wake => exact goes_pure hc
  | heartbeat =>
    refine goes_bind (inLoop_isKeepAliveExpired hc) ?_
    intro expired c' h
    cases expired with
    | true => exact leaves_return (quits_onAbnormalDisconnect h)
    | false => exact goes_pure h
  | send =>
    refine goes_bind (inLoop_sendPacket packet hc) ?_
    intro r c' h
    cases r with
    | ok _ => exact goes_pure h
    | error _ => exact leaves_return (quits_onAbnormalDisconnect h)

theorem offlineReplay_goes (msgs : List OutboundPublish) (hc : InLoop p n c) :
    wp (offlineReplay msgs) (Goes p n (fun _ => InLoop p n)) c := by
  induction msgs generalizing c with
  | nil => exact goes_pure hc
  | cons msg rest ih =>
    have htake : ∀ t : Task, Task.Confined t (t.takeReplay msg rest) := fun t =>
      .of_eq t.broker.sessions.channels _ rfl rfl rfl
    unfold offlineReplay
    refine goes_bind (inLoop_onTask (fun t => (wp_act ..).2 (Task.confined_build (htake t) msg)) hc)
      ?_
    intro r c' h
    rcases r with _ | _ | packet
    · exact ih h
    · exact ih h
    · refine goes_bind (inLoop_wait h) (fun _ _ h => ?_)
      refine goes_bind (inLoop_turn _ h) (fun a _ h => ?_)
      exact goes_bind (replayBranch_goes packet a h) (fun _ _ h => ih h)

/-! ## The main loop -/

theorem resend_goes (packets : List Packet) (hc : InLoop p n c) :
    wp (resend packets) (Goes p n (fun _ => InLoop p n)) c := by
  induction packets generalizing c with
  | nil => exact goes_pure hc
  | cons packet rest ih =>
    unfold resend
    refine goes_bind (inLoop_sendPacket packet hc) ?_
    intro r c' h
    cases r with
    | ok _ => exact ih h
    | error _ => exact leaves_return (quits_onAbnormalDisconnect h)

theorem retryBranch_goes (hc : InLoop p n c) : wp retryBranch (Goes p n (Branches p n)) c := by
  have hret : ∀ t : Task, Task.Confined t t.retry := fun t =>
    Task.Move.confined (S := endScope) (.retry trivial) id
  refine goes_bind (inLoop_onTask (fun t => (wp_act ..).2 (hret t)) hc) ?_
  intro r c' h
  cases r with
  | ok packets => exact goes_bind (resend_goes packets h) (fun _ _ h => goes_pure h)
  | error _ => exact goes_pure h

theorem packetBranch_goes (packet : Packet) (hc : InLoop p n c) :
    wp (packetBranch packet) (Goes p n (Branches p n)) c := by
  refine goes_bind (inLoop_onTask (fun _ => Task.confined_touchAndHandle packet) hc) ?_
  intro r c' h
  rcases r with _ | _ | _
  · exact quits_break (quits_onAbnormalDisconnect h)
  · exact goes_pure h
  · exact goes_bind (inLoop_clearWill h) (fun _ _ h => quits_break (quits_cleanup h))

theorem inboundBranch_goes (streamEnded : Bool) (hc : InLoop p n c) :
    wp (inboundBranch streamEnded) (Goes p n (Branches p n)) c := by
  have hnext : ∀ t : Task, wp nextPacket (fun _ => Task.Confined t) t := fun t =>
    (wp_act ..).2 (.of_eq t.broker.sessions.channels t.broker.trace rfl rfl rfl)
  refine goes_bind (inLoop_onTask hnext hc) ?_
  intro r c' h
  rcases r with _ | _ | _ | packet
  · exact quits_break (quits_onAbnormalDisconnect h)
  · exact quits_break (quits_onAbnormalDisconnect h)
  · cases streamEnded with
    | true => exact quits_break (quits_onAbnormalDisconnect h)
    | false => exact goes_pure h
  · exact packetBranch_goes packet h

/-- The state that is read is the one that the call goes on with. -/
theorem inLoop_read (hc : InLoop p n c) :
    wp (onTask read) (Goes p n (fun r c' => InLoop p n c' ∧ ∃ conn,
      c'.sys.conns.get c'.epoch = some conn ∧ r = .ok (c'.sys.task c'.epoch conn))) c := by
  intro r c' hrun
  have hloop := inLoop_onTask (fun t => (wp_read ..).2 (.refl t)) hc r c' hrun
  obtain ⟨conn, hconn, hrun⟩ := bind_eq_some_iff.1 hrun
  obtain ⟨⟨r1, t⟩, hrun1, heq⟩ := map_eq_some_iff.1 hrun
  cases hrun1
  cases heq
  exact ⟨hloop, conn, get_insert_self .., rfl⟩

/-- Once the sender is gone there is no entry with the epoch of the call. -/
theorem quits_of_closed (hc : InLoop p n c) (hconn : c.sys.conns.get c.epoch = some conn)
    (hclosed : (c.sys.task c.epoch conn).senderAlive = false) : Quits p n c := by
  refine ⟨hc, ?_⟩
  intro clientId e he hep
  obtain rfl := owner_of_inLoop hc hconn clientId e he hep
  have htx := hc.sound.2.tx conn.clientId e he
  simp [Task.senderAlive, task, he, htx, hep] at hclosed

theorem outboundBranch_goes (hc : InLoop p n c) :
    wp outboundBranch (Goes p n (Branches p n)) c := by
  refine goes_bind (inLoop_read hc) ?_
  rintro r c' ⟨h, conn, hconn, rfl⟩
  dsimp only
  split
  · exact goes_pure h
  · next ch hch =>
    split
    · cases halive : (c'.sys.task c'.epoch conn).senderAlive with
      | true => exact goes_pure h
      | false => exact goes_pure (quits_of_closed h hconn halive)
    · next req rest hbuf =>
      have htake : ∀ t : Task, Task.Confined t (t.takeChannel ch req rest) := fun t =>
        .of_eq _ _ rfl rfl rfl
      refine goes_bind (inLoop_onTask (fun t => (wp_act ..).2 (Task.confined_build (htake t) req)) h)
        ?_
      intro built c1 h
      rcases built with _ | _ | packet
      · exact goes_pure h
      · exact goes_pure h
      · refine goes_bind (inLoop_sendPacket packet h) ?_
        intro sent c2 h
        cases sent with
        | ok _ => exact goes_pure h
        | error _ => exact quits_break (quits_onAbnormalDisconnect h)

/-- **Every branch of the main loop goes on, or sees to the session, or sees to everything.** -/
theorem branch_goes (a : Arm) (hc : InLoop p n c) : wp (branch a) (Goes p n (Branches p n)) c := by
  cases a with
  | shutdown =>
    exact goes_bind (inLoop_sendPacket _ hc) (fun _ _ h => quits_break (quits_cleanup h))
  | heartbeat =>
    refine goes_bind (inLoop_isKeepAliveExpired hc) ?_
    intro expired c' h
    cases expired with
    | true => exact quits_break (quits_onAbnormalDisconnect h)
    | false => exact goes_pure h
  | retry => exact retryBranch_goes hc
  | inbound => exact inboundBranch_goes false hc
  | streamEnd => exact inboundBranch_goes true hc
  | outbound => exact outboundBranch_goes hc

theorem mainLoop_goes (rounds : Nat) (hc : InLoop p n c) :
    wp (mainLoop rounds) (Goes p n (fun _ => Quits p n)) c := by
  induction rounds generalizing c with
  | zero =>
    intro r c' h
    simp [mainLoop] at h
  | succ rounds ih =>
    unfold mainLoop
    refine goes_bind (inLoop_wait hc) (fun _ _ h => ?_)
    refine goes_bind (inLoop_turn _ h) (fun a _ h => ?_)
    refine goes_bind (branch_goes a h) ?_
    intro flow c' h
    cases flow with
    | «continue» => exact ih h
    | «break» => exact goes_pure h

/-! ## The whole call -/

/-- The session is registered while the connection still counts as pending. -/
theorem attends_register (hc : Waits p n c) (connect : Connect) (peer : SocketAddr) (buffer : Bytes)
    (credit : Option Nat) :
    wp (register connect peer buffer credit)
      (Goes p n (fun _ => Attends p n false [.incPending])) c := by
  have hmove : c.sys.Move {} (c.sys.ofTask (c.sys.broker.openSession connect peer buffer credit).2) :=
    .openSession connect peer buffer credit trivial
  have heps := hmove.epochs hc.sound.1
  have hentries := hmove.entries hc.sound.1 hc.sound.2
  refine (wp_act ..).2 ⟨hc.gauges, hc.promoted, rfl, hc.ownPending, ?_, ?_, _,
    get_insert_self ..⟩
  · rw [map_cons, sum_cons]
    exact hc.ownCurrent.trans (by simp [current])
  · exact ⟨⟨heps.conns, heps.clients, heps.apart⟩,
      ⟨hentries.drawn, hentries.tx, hentries.owner⟩⟩

theorem attends_promote (hc : Attends p n false [.incPending] c) :
    wp promote (Goes p n (fun _ => Attends p n true [.decPending, .incPending])) c := by
  have hpromoted : Attends p n true [.incPending] { c with promoted := true } :=
    ⟨hc.gauges, rfl, hc.clientIdOut, hc.ownPending, hc.ownCurrent, hc.sound, hc.conn⟩
  unfold promote
  rw [wp_read_bind, hc.promoted]
  show wp (update _ >>= fun _ => meter .decPending) _ c
  rw [wp_update_bind]
  exact (wp_update ..).2 (attends_metered hpromoted)

/-- From an accepted CONNECT to the end. -/
theorem serveSession_leaves (hc : Waits p n c) (connect : Connect) (peer : SocketAddr)
    (buffer : Bytes) (credit : Option Nat) :
    wp (serveSession connect peer buffer credit) (Goes p n (fun _ => Leaves p n)) c := by
  have hclear : ∀ t : Task, wp (update (fun t => t.onBroker (fun b =>
      b.clearDiskOffline t.conn.clientId)) : Handler Unit) (fun _ => Task.Confined t) t := fun t =>
    (wp_update ..).2 (Task.Move.confined (S := endScope)
      (.broker _ (.clearDisk t.conn.clientId trivial)) id)
  unfold serveSession
  refine goes_bind (attends_register hc connect peer buffer credit) (fun sessionPresent _ h => ?_)
  refine goes_bind (attends_promote h) (fun _ _ h => ?_)
  refine goes_bind (Q := fun _ => InLoop p n) ((wp_update ..).2 (attends_metered h)) (fun _ _ h => ?_)
  refine goes_bind (inLoop_sendPacket _ h) ?_
  intro r c1 h
  cases r with
  | error _ => exact leaves_return (quits_cleanup h)
  | ok _ =>
    refine goes_bind (Q := fun _ => InLoop p n) ((wp_read ..).2 h) (fun c1 _ h => ?_)
    refine goes_bind (offlineReplay_goes _ h) (fun _ _ h => ?_)
    refine goes_bind (inLoop_onTask hclear h) (fun _ _ h => ?_)
    refine goes_bind (Q := fun _ => InLoop p n) ((wp_read ..).2 h) (fun c2 _ h => ?_)
    exact goes_bind (mainLoop_goes _ h) (fun _ _ h => leaves_decConnections h)

theorem waits_wait (hc : Waits p n c) : wp wait (fun r c' => r = .ok () ∧ Waits p n c') c := by
  unfold wait
  rw [wp_tryUpdate]
  intro c' h
  have hmean := others_meanwhile hc.sound h
  exact ⟨rfl, hmean.gauges.trans hc.gauges, hmean.promoted.trans hc.promoted,
    hmean.clientIdOut.trans hc.clientIdOut, hmean.ownPending.trans hc.ownPending,
    hmean.ownCurrent.trans hc.ownCurrent, hmean.sound⟩

/-- The call returns from waiting, or has seen to everything. -/
theorem handleConnectionInner_ends (hc : Waits p n c) (peer : SocketAddr) :
    wp (handleConnectionInner peer) (fun _ c' => Waits p n c' ∨ Leaves p n c') c := by
  unfold handleConnectionInner
  rw [wp_bind]
  refine wp_mono (waits_wait hc) ?_
  rintro r c1 ⟨rfl, h1⟩
  show wp _ _ c1
  rw [wp_bind]
  refine wp_turn ?_
  rintro ⟨bytes, uuid, credit⟩ turns
  have h2 : Waits p n { c1 with turns } :=
    ⟨h1.gauges, h1.promoted, h1.clientIdOut, h1.ownPending, h1.ownCurrent, h1.sound⟩
  generalize { c1 with turns } = c2 at h2
  show wp _ _ c2
  rw [wp_read_bind]
  dsimp only
  split
  · split
    · refine wp_mono (serveSession_leaves h2 _ peer _ credit) ?_
      intro r c' h
      cases r <;> exact .inr h
    · exact (wp_fail ..).2 (.inl h2)
  · exact (wp_fail ..).2 (.inl h2)

/-- Nothing is left of a call: the gauges are as if it had not been, it has never been counted twice
    at a time, and no entry is connected under its epoch. -/
structure NothingLeft (p n : Int) (c : Handling) : Prop where
  pending : c.connectionsPending = p + c.othersPending
  current : c.sys.broker.connectionsCurrent = n + c.othersCurrent
  net : (c.gauges.map GaugeOp.pending).sum = 0 ∧ (c.gauges.map GaugeOp.current).sum = 0
  apart : ∀ ops, ops <:+ c.gauges →
    (ops.map GaugeOp.pending).sum = 0 ∨ (ops.map GaugeOp.current).sum = 0
  offline : c.clientIdOut.isSome = true → c.sys.broker.Offline c.epoch

/-- The gauges that a call has raised and lowered again. -/
theorem nothingLeft_of_gauges {ops : List GaugeOp} (hgauges : c.gauges = ops)
    (hpend : c.ownPending = p + (ops.map pending).sum)
    (hcur : c.ownCurrent = n + (ops.map current).sum)
    (hnet : (ops.map pending).sum = 0 ∧ (ops.map current).sum = 0)
    (hapart : ∀ ops' ∈ ops.tails,
      (ops'.map pending).sum = 0 ∨ (ops'.map current).sum = 0)
    (hoff : c.clientIdOut.isSome = true → c.sys.broker.Offline c.epoch) :
    NothingLeft p n c := by
  unfold ownPending at hpend
  unfold ownCurrent at hcur
  refine ⟨by omega, by omega, hgauges ▸ hnet, ?_, hoff⟩
  intro ops' hops'
  exact hapart ops' ((mem_tails ..).2 (hgauges ▸ hops'))

/-- What is left to do is to drop the guard. -/
def Closes (p n : Int) (c : Handling) : Prop :=
  Waits p n c ∨ c.promoted = true ∧ NothingLeft p n c

theorem closes_dropLocals (hc : Waits p n c ∨ Leaves p n c) :
    wp dropLocals (fun r c' => r = .ok () ∧ Closes p n c') c := by
  unfold dropLocals
  rw [wp_read_bind]
  rcases hc with hc | ⟨hc, hoff⟩
  · exact wp_when (by simp [hc.clientIdOut]) (fun _ => ⟨rfl, .inl hc⟩)
  · refine wp_when (fun _ => (wp_update ..).2 ⟨rfl, .inr ⟨hc.promoted, ?_⟩⟩) ?_
    · exact nothingLeft_of_gauges hc.gauges hc.ownPending hc.ownCurrent (by decide) (by decide)
        (fun _ => hoff)
    · simp [hc.clientIdOut]

/-- The tables do not know the security guard. -/
theorem sound_secured (hc : c.Sound) (security : SecurityGuard) :
    Sound { c with sys := c.sys.onBroker (fun b => { b with security }) } :=
  ⟨⟨hc.1.conns, hc.1.clients, hc.1.apart⟩, ⟨hc.2.drawn, hc.2.tx, hc.2.owner⟩⟩

theorem closes_onSecurity (hc : Closes p n c) (f : Handling → SecurityGuard) :
    wp (onSecurity f) (fun r c' => r = .ok () ∧ Closes p n c') c := by
  refine (wp_update ..).2 ⟨rfl, ?_⟩
  rcases hc with hc | ⟨hpromoted, hc⟩
  · exact .inl ⟨hc.gauges, hc.promoted, hc.clientIdOut, hc.ownPending, hc.ownCurrent,
      sound_secured hc.sound _⟩
  · exact .inr ⟨hpromoted, hc.pending, hc.current, hc.net, hc.apart, hc.offline⟩

theorem nothingLeft_dropGuard (hc : Closes p n c) : wp dropGuard (fun _ => NothingLeft p n) c := by
  unfold dropGuard
  rw [wp_read_bind]
  rcases hc with hc | ⟨hpromoted, hc⟩
  · refine wp_when (fun _ => (wp_update ..).2 ?_) (by simp [hc.promoted])
    have hpend : (c.metered .decPending).ownPending = p + 0 := by
      have hown := hc.ownPending
      unfold ownPending at hown ⊢
      show c.connectionsPending + -1 - c.othersPending = _
      omega
    have hcur : (c.metered .decPending).ownCurrent = n + 0 := by
      have hown := hc.ownCurrent
      unfold ownCurrent at hown ⊢
      show c.sys.broker.connectionsCurrent + 0 - c.othersCurrent = _
      omega
    refine nothingLeft_of_gauges (congrArg (GaugeOp.decPending :: ·) hc.gauges) hpend hcur
      (by decide) (by decide) ?_
    intro hid
    simp [metered, hc.clientIdOut] at hid
  · exact wp_when (by simp [hpromoted]) (fun _ => hc)

/-- The beginning of a call. -/
theorem waits_of_start (hs : Sys.Reachable s) (pending : Int) (turns : List HandlingTurn)
    (security : SecurityGuard) : Waits pending s.broker.connectionsCurrent
      (metered (start (s.onBroker (fun b => { b with security })) pending turns) .incPending) := by
  have hsound : (start s pending turns).Sound := ⟨hs.epochs, hs.entries⟩
  refine ⟨rfl, rfl, rfl, ?_, ?_, ?_⟩
  · exact Int.sub_zero _
  · show s.broker.connectionsCurrent + 0 - 0 = _
    omega
  · exact ⟨⟨hsound.1.conns, hsound.1.clients, hsound.1.apart⟩,
      ⟨hsound.2.drawn, hsound.2.tx, hsound.2.owner⟩⟩

/-- **A call leaves nothing behind**, however it comes to return and whatever the other tasks do
    meanwhile: what it has done to the two gauges is undone, it was never counted in both at a time,
    and if it has registered a session, no entry is connected under the epoch of that session. -/
theorem handleConnection_nothingLeft {s : Sys} (hs : Sys.Reachable s) (pending : Int)
    (turns : List HandlingTurn) (peer : SocketAddr) {r : Except Unit Unit}
    (h : handleConnection peer (start s pending turns) = some (r, c)) :
    NothingLeft pending s.broker.connectionsCurrent c := by
  suffices hwp : wp (handleConnection peer)
      (fun _ => NothingLeft pending s.broker.connectionsCurrent) (start s pending turns) from
    hwp r c h
  unfold handleConnection
  rw [wp_read_bind]
  split
  · -- the address is not admitted
    have hgauges : (start s pending turns).gauges = [] := rfl
    refine (wp_fail ..).2
      (nothingLeft_of_gauges hgauges ?_ ?_ (by decide) (by decide) (by simp [start]))
    · exact (Int.sub_zero _).trans (Int.add_zero _).symm
    · exact (Int.sub_zero _).trans (Int.add_zero _).symm
  · unfold onSecurity meter
    rw [wp_update_bind, wp_update_bind, wp_attempt_bind]
    refine wp_mono (handleConnectionInner_ends (waits_of_start hs pending turns _) peer) ?_
    intro _ c₁ h₁
    rw [wp_bind]
    refine wp_mono (closes_dropLocals h₁) ?_
    rintro _ c₂ ⟨rfl, h₂⟩
    show wp _ _ c₂
    rw [wp_bind]
    refine wp_mono (closes_onSecurity h₂ _) ?_
    rintro _ c₃ ⟨rfl, h₃⟩
    exact nothingLeft_dropGuard h₃

/-- A client connects and breaks off; another connection of the same client comes in between. -/
def brokenOff : List HandlingTurn :=
  [.first (Packet.frame (.connect {
      protocolLevel := mqtt311Level, keepAlive := 60, clientId := "a", cleanSession := false
      will := none, username := none, password := none, properties := none })) "" none,
    .other (Sys.opens "a" false), .arm .streamEnd]

theorem handleConnection_nothingLeft_takeover : ∃ s c, Sys.Reachable s ∧
    handleConnection BrokerState.dummyAddr (start s 0 brokenOff) = some (.ok (), c) ∧
    c.gauges = [.decConnections, .incConnections, .decPending, .incPending] ∧
    c.othersCurrent = 1 ∧ NothingLeft 0 s.broker.connectionsCurrent c := by
  obtain ⟨s₀, s, h₀, hrun, hs⟩ := exists_run {} 0 []
    (fun s => (handleConnection dummyAddr (start s 0 brokenOff)).any (fun result =>
      result.1.isOk &&
      result.2.gauges = [.decConnections, .incConnections, .decPending, .incPending] &&
      result.2.othersCurrent = 1)) (by decide +kernel)
  have hreach : Sys.Reachable s := ⟨{}, 0, s₀, [], h₀, hrun⟩
  obtain ⟨⟨r, c⟩, hcall, hc⟩ := (any_eq_true _ _).1 hs
  simp only [Bool.and_eq_true, decide_eq_true_eq] at hc
  obtain ⟨⟨hok, hgauges⟩, hothers⟩ := hc
  have hleft := handleConnection_nothingLeft hreach 0 brokenOff dummyAddr hcall
  cases r with
  | error _ => simp [Except.isOk, Except.toBool] at hok
  | ok _ => exact ⟨s, c, hreach, hcall, hgauges, hothers, hleft⟩

end Handling

end LumenMQ
