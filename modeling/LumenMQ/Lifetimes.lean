import LumenMQ.Broker.Handshakes
import LumenMQ.Epochs

set_option autoImplicit false

/-! # The life of a connection

The steps of the system as one connection sees them: most pass it by, the others feed it, run an arm
of its main loop or end it. -/

namespace LumenMQ

open Option FinMap

namespace Sys

variable {S : Scope} {s s' : Sys} {k : Nat}
variable {e : Event} {c : Conn}

/-! ## Steps that pass a connection by -/

/-- Nothing happens to the connection. -/
def Aside (k : Nat) (s s' : Sys) : Prop :=
  s'.conns.get k = s.conns.get k ∧
    Extends (fun x => x.epoch ≠ some k) s.broker.trace s'.broker.trace

theorem Change.epochCounter_le {b b' : BrokerState} (h : Change S b b') (hrst : ¬ S.restarts) :
    b.sessions.epochCounter ≤ b'.sessions.epochCounter := by
  cases h with
  | move b' hb => exact hb.epochCounter_eq ▸ le_refl _
  | frame => exact le_refl _
  | opened | registered => exact Nat.le_succ _
  | restarted config b' h => exact absurd h hrst

theorem Move.conns_aside (h : s.Move S s') (hact : ¬ S.acts k) (hrst : ¬ S.restarts)
    (hk : k ≤ s.broker.sessions.epochCounter) : s'.conns.get k = s.conns.get k := by
  have hne : ∀ {k'}, S.acts k' → k ≠ k' := by
    rintro k' h rfl
    exact hact h
  cases h with
  | gateway | tick => rfl
  | task k' c t hc ht hact' =>
    show get (s.conns.insert t.epoch t.conn) k = _
    rw [get_insert, ht.epoch_eq]
    exact if_neg (hne hact')
  | openSession connect peer buffer credit hopen =>
    show get (s.conns.insert (s.broker.sessions.epochCounter + 1) _) k = _
    rw [get_insert, if_neg (Nat.ne_of_lt (Nat.lt_succ_of_le hk))]
  | close k' c hc hexit hact' =>
    show get (s.conns.erase k') k = _
    rw [get_erase, if_neg (hne hact')]
  | restart config s' h => exact absurd h hrst

theorem Adds.epoch_ne {x : Effect} (h : s.Adds S x) (hact : ¬ S.acts k) : x.epoch ≠ some k := by
  cases h with
  | broker x h => simp [h.epoch_eq]
  | task k' c x hc h hact' =>
    rcases h.epoch_eq with hx | hx
    · simp [hx]
    · rw [hx]
      rintro heq
      exact hact (some.inj heq ▸ hact')

theorem moves_aside (h : Moves S s s') (hact : ¬ S.acts k) (hrst : ¬ S.restarts)
    (hk : k ≤ s.broker.sessions.epochCounter) : Aside k s s' := by
  suffices hinv : Aside k s s' ∧ k ≤ s'.broker.sessions.epochCounter from hinv.1
  induction h with
  | refl => exact ⟨⟨rfl, .refl _⟩, hk⟩
  | @tail s1 s2 _ hmove ih =>
    obtain ⟨⟨hconns, hext⟩, hk1⟩ := ih
    refine ⟨⟨(hmove.conns_aside hact hrst hk1).trans hconns, ?_⟩,
      hk1.trans (hmove.change.epochCounter_le hrst)⟩
    exact hext.trans (hmove.extends.mono (fun x hx => hx.epoch_ne hact))

/-- **A step that is not about a connection passes it by.** -/
theorem step_aside (hstep : s.step e = some s') (hact : s.actor e ≠ some k)
    (hrst : ∀ config, e ≠ .restart config) (hk : k ≤ s.broker.sessions.epochCounter) :
    Aside k s s' := by
  let S : Scope := { acts := fun k' => k' ≠ k, restarts := False }
  have hall : Allows S s e := { allows_all s e with
    acts := by
      rintro k' hk' rfl
      exact hact hk'
    restarts := fun config h => hrst config h }
  exact moves_aside (step_moves hall hstep) (fun h => h rfl) id hk

/-! ## Steps as a connection sees them -/

/-- What a step means to a connection that is there. -/
inductive Life (s : Sys) (k : Nat) (c : Conn) (e : Event) (s' : Sys) : Prop
  | aside (h : Aside k s s')
  /-- The connection receives bytes, or its transport changes. -/
  | fed (c' : Conn) (hsame : Task.SameMessages c c') (hs' : s' = { s with conns := s.conns.insert k c' })
  | arm (a : Arm) (r : Except BrokerError Unit) (t : Task) (he : e = .arm k a)
      (hexit : c.exit = none) (hrun : a.run (s.task k c) = some (r, t)) (hepoch : t.epoch = k)
      (hs' : s' = s.ofTask t)
  | finish (x : Exit) (b : BrokerState) (he : e = .finish k) (hx : c.exit = some x)
      (hb : s.broker.afterExit c.clientId k c.clean x = some b)
      (hext : Extends (fun x => x.epoch = none) s.broker.trace b.trace)
      (hs' : s' = { s with broker := b.dropConnection k c, conns := s.conns.erase k })
  | restart (config : Settings) (he : e = .restart config) (hconns : s'.conns = ∅)
      (htrace : s'.broker.trace = s.broker.trace)

theorem life_of_onConn {f : Conn → Conn} (hc : s.conns.get k = some c) (h : s.onConn k f = some s')
    (hf : ∀ c, Task.SameMessages c (f c)) : Life s k c e s' := by
  obtain ⟨c1, hc1, rfl⟩ := map_eq_some_iff.1 h
  obtain rfl : c1 = c := some.inj (hc1.symm.trans hc)
  exact .fed (f c1) (hf c1) rfl

/-- An arm of a connection that is in its main loop. -/
theorem step_arm_eq (hc : s.conns.get k = some c) (hloop : c.exit = none) (a : Arm) :
    s.step (.arm k a) = (a.run (s.task k c)).map (fun result => s.ofTask result.2) := by
  show s.runArm k a = _
  unfold runArm
  rw [hc, bind_eq_bind, bind_some, if_neg (by simp [hloop]), map_eq_bind]
  rfl

/-- An arm that is taken. -/
theorem step_arm {a : Arm} (h : s.step (.arm k a) = some s') :
    ∃ c r t, s.conns.get k = some c ∧ c.exit = none ∧ a.run (s.task k c) = some (r, t) ∧
      t.epoch = k ∧ s' = s.ofTask t := by
  obtain ⟨c, hc, h⟩ := bind_eq_some_iff.1 h
  split_ifs at h with hexit
  obtain ⟨⟨r, t⟩, hrun, hs'⟩ := bind_eq_some_iff.1 h
  have hep : t.epoch = k :=
    Task.moves_epoch (Task.wp_arm (S := {}) a (Task.permits_all _ a) r t hrun)
  exact ⟨c, r, t, hc, by simpa using hexit, hrun, hep, (some.inj hs').symm⟩

/-- **What a step means to a connection.** -/
theorem step_life (heps : s.Epochs) (hc : s.conns.get k = some c) (hstep : s.step e = some s') :
    Life s k c e s' := by
  by_cases hrst : ∃ config, e = .restart config
  · obtain ⟨config, rfl⟩ := hrst
    obtain ⟨b, -, rfl⟩ := restart_cases hstep
    exact .restart config rfl rfl rfl
  have hk := heps.conns k c hc
  by_cases hact : s.actor e = some k
  · cases e with
    | receive k' bytes =>
      obtain rfl : k' = k := some.inj hact
      exact life_of_onConn hc hstep (fun _ => ⟨rfl, rfl, rfl, rfl, rfl, rfl, rfl, rfl⟩)
    | transport k' credit =>
      obtain rfl : k' = k := some.inj hact
      exact life_of_onConn hc hstep (fun _ => ⟨rfl, rfl, rfl, rfl, rfl, rfl, rfl, rfl⟩)
    | arm k' a =>
      obtain rfl : k' = k := some.inj hact
      obtain ⟨c1, r, t, hc1, hexit, hrun, hep, hs'⟩ := step_arm hstep
      obtain rfl : c1 = c := some.inj (hc1.symm.trans hc)
      exact .arm a r t rfl hexit hrun hep hs'
    | finish k' =>
      obtain rfl : k' = k := some.inj hact
      change s.finish k' = some s' at hstep
      unfold Sys.finish at hstep
      rw [hc, bind_eq_bind, bind_some] at hstep
      obtain ⟨x, hx, hstep⟩ := bind_eq_some_iff.1 hstep
      obtain ⟨b, hb, hs'⟩ := bind_eq_some_iff.1 hstep
      have hmoves : s.broker.Moves {} b :=
        BrokerState.afterExit_moves trivial (fun _ _ _ => trivial) (fun _ _ _ _ _ _ => trivial) hb
      exact .finish x b rfl hx hb (BrokerState.moves_epoch hmoves) (some.inj hs').symm
    | connect peer bytes uuid credit arms =>
      -- the epoch of a new connection is not in use
      have heq : s.broker.sessions.epochCounter + 1 = k := some.inj hact
      exact absurd (heq ▸ hk) (Nat.not_succ_le_self _)
    | tick | datagram | forward | sweepDevices | sweepSessions | deleteSession | manualPublish
    | reloadSecurity | reloadPlugin | restart => simp [actor] at hact
  · exact .aside (step_aside hstep hact (fun config h => hrst ⟨config, h⟩) hk)

/-- A step that takes no arm of a connection leaves its messages alone. -/
theorem step_sameMessages {c' : Conn} (heps : s.Epochs) (hc : s.conns.get k = some c)
    (hc' : s'.conns.get k = some c') (hstep : s.step e = some s') (harm : ∀ a, e ≠ .arm k a) :
    Task.SameMessages c c' := by
  cases step_life heps hc hstep with
  | aside h =>
    rw [h.1, hc, some.injEq] at hc'
    exact hc' ▸ ⟨rfl, rfl, rfl, rfl, rfl, rfl, rfl, rfl⟩
  | fed c1 hsame hs' =>
    subst hs'
    rw [get_insert_self, some.injEq] at hc'
    exact hc' ▸ hsame
  | arm a r t he => exact absurd he (harm a)
  | finish x b he hx hb hext hs' =>
    subst hs'
    simp [get_erase] at hc'
  | restart config he hconns => simp [hconns] at hc'

/-- A step that opens a connection. -/
inductive Opened (s : Sys) (k : Nat) (e : Event) (s' : Sys) : Prop
  | intro (peer : SocketAddr) (bytes : Bytes) (uuid : String) (credit : Option Nat)
      (arms : List ReplayArm) (connect : Connect) (security : SecurityGuard) (buffer : Bytes)
      (connack : Connack) (r : Except BrokerError Unit) (t : Task)
      (he : e = .connect peer bytes uuid credit arms) (hconnect : s.connection e = some connect)
      (hrun : welcome connack arms
        (BrokerState.openSession { s.broker with security } connect peer buffer credit).2 =
          some (r, t))
      (hk : k = s.broker.sessions.epochCounter + 1) (hepoch : t.epoch = k) (hs' : s' = s.ofTask t)

theorem Move.conns_none (h : s.Move S s') (hop : ∀ connect, ¬ S.opens connect)
    (hk : s.conns.get k = none) : s'.conns.get k = none := by
  cases h with
  | gateway | tick => exact hk
  | task k' c t hc ht =>
    show get (s.conns.insert t.epoch t.conn) k = none
    rw [get_insert, ht.epoch_eq, if_neg ?_, hk]
    rintro rfl
    simp [hk] at hc
  | openSession connect peer buffer credit hopen => exact absurd hopen (hop connect)
  | close k' c hc =>
    show get (s.conns.erase k') k = none
    rw [get_erase, hk, ite_self]
  | restart config s' hrst h =>
    obtain ⟨b, -, rfl⟩ := restart_cases h
    rfl

/-- An accepted CONNECT opens a connection. -/
theorem opened_of_connection {connect : Connect} (hconn : s.connection e = some connect)
    (hstep : s.step e = some s') : Opened s (s.broker.sessions.epochCounter + 1) e s' ∧
      ∃ c, s'.conns = s.conns.insert (s.broker.sessions.epochCounter + 1) c := by
  cases e with
  | connect peer bytes uuid credit arms =>
    obtain ⟨security, buffer, connack, r, t, hrun, rfl⟩ := connect_task hconn hstep
    obtain ⟨hmoves, -⟩ := Task.wp_welcome (S := {}) trivial trivial r t hrun
    have hep : t.epoch = s.broker.sessions.epochCounter + 1 := Task.moves_epoch hmoves
    refine ⟨?_, t.conn, by rw [ofTask, hep]⟩
    exact .intro peer bytes uuid credit arms connect security buffer connack r t rfl hconn hrun rfl
      hep rfl
  | tick | receive | transport | arm | finish | datagram | forward | sweepDevices | sweepSessions
  | deleteSession | manualPublish | reloadSecurity | reloadPlugin | restart =>
    simp [connection] at hconn

/-- **A connection comes about by an accepted CONNECT.** -/
theorem step_opened {c' : Conn} (hc : s.conns.get k = none) (hc' : s'.conns.get k = some c')
    (hstep : s.step e = some s') : Opened s k e s' := by
  cases hconn : s.connection e with
  | none =>
    let S : Scope := { opens := fun _ => False }
    have hall : Allows S s e := { allows_all s e with
      opens := by
        intro connect h
        simp [hconn] at h }
    have hnone : s'.conns.get k = none :=
      moves_invariant (I := fun s => s.conns.get k = none)
        (fun _ _ hs hmove => hmove.conns_none (fun _ => id) hs) (step_moves hall hstep) hc
    simp [hnone] at hc'
  | some connect =>
    obtain ⟨hopened, c, hconns⟩ := opened_of_connection hconn hstep
    rw [hconns, get_insert] at hc'
    split_ifs at hc' with hk
    · exact hk ▸ hopened
    · simp [hc] at hc'

theorem step_epochCounter_le (hstep : s.step e = some s') (hrst : ∀ config, e ≠ .restart config) :
    s.broker.sessions.epochCounter ≤ s'.broker.sessions.epochCounter := by
  let S : Scope := { restarts := False }
  have hall : Allows S s e :=
    { allows_all s e with restarts := fun config h => hrst config h }
  exact moves_invariant
    (I := fun s' => s.broker.sessions.epochCounter ≤ s'.broker.sessions.epochCounter)
    (fun _ _ hs hmove => hs.trans (hmove.change.epochCounter_le id)) (step_moves hall hstep) (le_refl _)

/-- The epoch of a connection that is gone is not used again. -/
theorem step_gone (hk : k ≤ s.broker.sessions.epochCounter) (hc : s.conns.get k = none)
    (hstep : s.step e = some s') : s'.conns.get k = none := by
  cases hc' : s'.conns.get k with
  | none => rfl
  | some c' =>
    obtain ⟨peer, bytes, uuid, credit, arms, connect, security, buffer, connack, r, t, he, hconn,
      hrun, hnew, hep, hs'⟩ := step_opened hc hc' hstep
    exact absurd (hnew ▸ hk) (Nat.not_succ_le_self _)

/-! ## The packets of a connection -/

/-- The packet that a connection takes in a step. -/
def packetTaken (k : Nat) (s : Sys) : Event → Option Packet
  | .arm k' a => if k' = k then (s.conns.get k).bind (fun c => (s.task k c).packetOf a) else none
  | _ => none

/-- The packets that a connection takes along a run. -/
def packetsTaken (k : Nat) (s : Sys) : List Event → List Packet
  | [] => []
  | e :: es =>
    match s.step e with
    | some s' => (s.packetTaken k e).toList ++ packetsTaken k s' es
    | none => []

theorem packetTaken_of_ne (h : ∀ a, e ≠ .arm k a) : s.packetTaken k e = none := by
  cases e with
  | arm k' a =>
    have hne : k' ≠ k := by
      rintro rfl
      exact h a rfl
    simp [packetTaken, hne]
  | _ => rfl

end Sys

end LumenMQ
