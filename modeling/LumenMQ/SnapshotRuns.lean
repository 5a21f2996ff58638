import LumenMQ.Lifetimes
import LumenMQ.Snapshots

set_option autoImplicit false

/-! # Accurate snapshots along a run

Which steps of the system leave the snapshots on disk accurate. A SUBSCRIBE that fails half way
leaves a snapshot that is out of date until the connection is cleaned up, which makes up for it,
provided the session is still the connection's own. -/

namespace LumenMQ

open Option SessionManager BrokerState SessionEntry LumenMQ.Task

open Process

/-! ## Frames -/

/-- Nothing that bears on the snapshot of one client. -/
def Scope.without (c : String) : Scope where
  opens := fun connect => connect.clientId ≠ c
  registers := fun x => x ≠ c
  removes := fun x => x ≠ c
  subscribes := fun x => x ≠ c
  unsubscribes := fun x => x ≠ c
  restarts := False

namespace Sys

variable {s s' : Sys} {c : String}
variable {e : Event}

theorem Change.sameRecord {b b' : BrokerState} (h : Change (.without c) b b') :
    SameRecord b b' c := by
  cases h with
  | move b' hb => exact hb.sameRecord (not_not.2 rfl) (not_not.2 rfl) (not_not.2 rfl)
  | frame => exact ⟨rfl, rfl, rfl, rfl⟩
  | opened connect peer buffer credit hopen =>
    refine ⟨rfl, rfl, ?_, rfl⟩
    change ((SessionManager.register ..).sessions.get c).map _ = _
    rw [register_get, if_neg (Ne.symm hopen)]
  | registered peer c' clean hreg =>
    refine ⟨rfl, rfl, ?_, rfl⟩
    change ((SessionManager.register ..).sessions.get c).map _ = _
    rw [register_get, if_neg (Ne.symm hreg)]
  | restarted _ _ h => exact h.elim

theorem moves_sameRecord (h : Moves (.without c) s s') :
    SameRecord s.broker s'.broker c := by
  induction h with
  | refl => exact .refl _ c
  | tail _ hstep ih => exact ih.trans hstep.change.sameRecord

/-- The event has nothing to do with the session, the filters or the snapshot of a client. -/
structure Passes (s : Sys) (e : Event) (c : String) : Prop where
  opens : ∀ connect, s.connection e = some connect → connect.clientId ≠ c
  registers : ∀ peer bytes, e = .datagram peer bytes → Gateway.connects bytes ≠ some c
  ends : ¬ s.Ends c e
  subscribes : s.subscriber e ≠ some c
  unsubscribes : s.unsubscriber e ≠ some c
  restarts : ∀ config, e ≠ .restart config

theorem Passes.allows (h : s.Passes e c) : Allows (.without c) s e :=
  { allows_all s e with
    opens := h.opens
    registers := by
      rintro peer bytes c' he hc' rfl
      exact h.registers peer bytes he hc'
    removes := by
      rintro c' hends rfl
      exact h.ends hends
    subscribes := by
      rintro c' hsub rfl
      exact h.subscribes hsub
    unsubscribes := by
      rintro c' hunsub rfl
      exact h.unsubscribes hunsub
    restarts := fun config he => h.restarts config he }

/-! ## Connections that have left their loop -/

/-- The connection that owns the session of a client has left its loop and is not cleaned up yet. -/
def ending (s : Sys) (c : String) : Bool :=
  (s.broker.sessions.get c).any (fun e => (s.conns.get e.epoch).any (fun conn => conn.exit.isSome))

/-- The client's own connection has broken. -/
def Broken (s : Sys) (c : String) : Prop :=
  ∃ e conn, s.broker.sessions.get c = some e ∧ s.conns.get e.epoch = some conn ∧
    conn.clientId = c ∧ conn.exit = some .abnormal

theorem Broken.ending (h : s.Broken c) : s.ending c = true := by
  obtain ⟨e, conn, hget, hconn, -, hexit⟩ := h
  simp [Sys.ending, hget, hconn, hexit]

/-- The snapshot of a client is accurate, or will be once its broken connection is cleaned up. -/
def Settled (s : Sys) (c : String) : Prop :=
  s.broker.Recorded c ∨ s.broker.Justified c ∧ s.Broken c

theorem Settled.recorded (h : s.Settled c) (hc : s.ending c = false) : s.broker.Recorded c := by
  rcases h with h | ⟨-, hbroken⟩
  · exact h
  · simp [hbroken.ending] at hc

/-- A connection that has left its loop waits for its cleanup. -/
theorem step_conns {k : Nat} {conn : Conn} (heps : s.Epochs) (hstep : s.step e = some s')
    (hget : s.conns.get k = some conn) (hexit : conn.exit.isSome = true) (hfin : e ≠ .finish k)
    (hrst : ∀ config, e ≠ .restart config) :
    ∃ conn', s'.conns.get k = some conn' ∧ conn'.clientId = conn.clientId ∧
      conn'.exit = conn.exit := by
  cases step_life heps hget hstep with
  | aside h => exact ⟨conn, h.1.trans hget, rfl, rfl⟩
  | fed conn' hsame hs' =>
    subst hs'
    exact ⟨conn', FinMap.get_insert_self .., hsame.clientId, hsame.exit⟩
  | arm a r t he hnone => simp [hnone] at hexit
  | finish x b he => exact absurd he hfin
  | restart config he => exact absurd he (hrst config)

/-- A step that leaves the client's record alone, or sets it right. -/
theorem Settled.of_step (heps : s.Epochs) (hstep : s.step e = some s')
    (hfinish : ∀ k conn, e = .finish k → s.conns.get k = some conn → conn.clientId = c →
      conn.exit = some .abnormal → s.broker.sessions.owns c k = true → s'.broker.Recorded c)
    (hrst : ∀ config, e ≠ .restart config)
    (hrecord : SameRecord s.broker s'.broker c ∨ s'.broker.Recorded c)
    (hs : s.Settled c) : s'.Settled c := by
  rcases hrecord with hsame | hrec
  · rcases hs with hs | ⟨hj, e0, conn, hget, hconn, hid, hexit⟩
    · exact .inl (hsame.recorded hs)
    · by_cases hfin : e = .finish e0.epoch
      · exact .inl (hfinish e0.epoch conn hfin hconn hid hexit (by simp [owns, hget]))
      · obtain ⟨conn', hconn', hid', hexit'⟩ :=
          step_conns heps hstep hconn (by rw [hexit]; rfl) hfin hrst
        have hkey := hsame.entry
        rw [hget, map_some] at hkey
        obtain ⟨e1, hget1, hkey1⟩ := map_eq_some_iff.1 hkey
        have hep : e1.epoch = e0.epoch := congrArg Prod.fst hkey1
        exact .inr ⟨hsame.justified hj, e1, conn', hget1, hep ▸ hconn', hid'.trans hid,
          hexit'.trans hexit⟩
  · exact .inl hrec

/-- A step that passes the client by. -/
theorem Settled.of_passes (heps : s.Epochs) (hstep : s.step e = some s') (hpass : s.Passes e c)
    (hs : s.Settled c) : s'.Settled c := by
  refine Settled.of_step heps hstep ?_ hpass.restarts
    (.inl (moves_sameRecord (step_moves hpass.allows hstep))) hs
  rintro k conn rfl hconn hid
  exact absurd (by rw [Ends, hconn, map_some, hid]) hpass.ends

/-! ## The ends of a session -/

end Sys

/-- What the end of a connection does to the record of its client. -/
theorem BrokerState.afterExit_record {b b' : BrokerState} {c : String} {k : Nat} {clean : Bool}
    {x : Exit} (hx : x ≠ .closed) (h : b.Recorded c ∨ b.Justified c)
    (hexit : b.afterExit c k clean x = some b') :
    (b.sessions.owns c k = true → b'.Recorded c) ∧
      (b.sessions.owns c k = false → SameRecord b b' c) := by
  -- whatever comes before the cleanup leaves the record alone
  have hcleanup : ∀ {b1 : BrokerState}, SameRecord b b1 c → b' = b1.cleanup c k clean →
      (b.sessions.owns c k = true → b'.Recorded c) ∧
        (b.sessions.owns c k = false → SameRecord b b' c) := by
    rintro b1 hsame rfl
    have howns : b1.sessions.owns c k = b.sessions.owns c k := by
      have hkey := hsame.entry
      unfold owns
      cases hget : b.sessions.get c with
      | none =>
        rw [hget, map_none, map_eq_none_iff] at hkey
        rw [hkey]
      | some e =>
        rw [hget, map_some] at hkey
        obtain ⟨e1, hget1, hkey1⟩ := map_eq_some_iff.1 hkey
        rw [hget1]
        have hep : e1.epoch = e.epoch := congrArg Prod.fst hkey1
        simp only [hep]
    refine ⟨fun hown => ?_, fun hnot => hsame.trans (cleanup_sameRecord clean (howns.trans hnot))⟩
    have hsome : (b.sessions.get c).isSome = true := by
      unfold owns at hown
      cases hget : b.sessions.get c with
      | none => simp [hget] at hown
      | some e => rfl
    have hj : b.Justified c := h.elim (fun hr => hr.justified hsome) id
    exact cleanup_recorded clean (howns.trans hown) (hsame.justified hj)
  let S : Scope := { subscribes := fun _ => False, unsubscribes := fun _ => False
                     removes := fun _ => False }
  cases x with
  | closed => exact absurd rfl hx
  | shutdown => exact hcleanup (.refl b c) (some.inj hexit).symm
  | disconnect =>
    exact hcleanup (Move.sameRecord (S := S) (.takeWill c k) id id id) (some.inj hexit).symm
  | abnormal =>
    obtain ⟨b1, hfire, hb'⟩ := map_eq_some_iff.1 hexit
    exact hcleanup (moves_sameRecord (S := S)
      (fireWill_moves (fun _ _ => trivial) (fun _ _ _ _ _ => trivial) hfire) id id id) hb'.symm

namespace Sys

variable {s s' : Sys} {c : String}
variable {k : Nat} {peer : SocketAddr} {bytes : Bytes}

theorem Settled.either (h : s.Settled c) : s.broker.Recorded c ∨ s.broker.Justified c :=
  h.imp id And.left

theorem finish_settled (heps : s.Epochs) (hstep : s.step (.finish k) = some s')
    (hs : s.Settled c) : s'.Settled c := by
  have hfin := hstep
  obtain ⟨conn, x, b, hconn, hx, hb, h⟩ := finish_cases hfin
  by_cases hid : conn.clientId = c
  · have hdrop : SameRecord b s'.broker c := by
      rw [← h]
      exact ⟨rfl, rfl, rfl, rfl⟩
    rw [hid] at hb
    by_cases hclosed : x = .closed
    · subst hclosed
      refine Settled.of_step heps hstep ?_ (by simp) (.inl ?_) hs
      · rintro k1 conn1 heq hconn1 - hexit1
        rw [Event.finish.injEq] at heq
        rw [← heq, hconn] at hconn1
        rw [← some.inj hconn1, hx] at hexit1
        simp at hexit1
      · exact some.inj hb ▸ hdrop
    · obtain ⟨hown, hnot⟩ := afterExit_record hclosed hs.either hb
      refine Settled.of_step heps hstep ?_ (by simp) ?_ hs
      · rintro k1 conn1 heq - - - howns
        rw [Event.finish.injEq] at heq
        exact hdrop.recorded (hown (heq ▸ howns))
      · cases howns : s.broker.sessions.owns c k with
        | true => exact .inr (hdrop.recorded (hown howns))
        | false => exact .inl ((hnot howns).trans hdrop)
  · refine hs.of_passes heps hstep ⟨?_, ?_, ?_, ?_, ?_, ?_⟩
    · simp [connection]
    · simp
    · simp only [Ends, hconn, map_some, some.injEq]
      exact hid
    · simp [subscriber, inbound]
    · simp [unsubscriber, inbound]
    · simp

/-! ### Devices -/

/-- A device is dropped: its record stays accurate because a clean session has none. -/
theorem dropClient_record (hflag : s.DeviceFlags) (peer : SocketAddr)
    (h : s.broker.Recorded c ∨ s.broker.Justified c) :
    SameRecord s.broker (s.toGateway.dropClient peer).broker c ∨
      (s.toGateway.dropClient peer).broker.Recorded c := by
  unfold Gateway.dropClient
  split
  · exact .inl (.refl _ c)
  · next client hcl =>
    by_cases hid : client.clientId = c
    · subst hid
      exact cleanupSession_record (hflag peer client · hcl) h
    · refine .inl (BrokerState.moves_sameRecord (S := {
        removes := fun x => x = client.clientId
        subscribes := fun _ => False
        unsubscribes := fun _ => False }) (Gateway.cleanupSession_moves rfl trivial) id id ?_)
      exact fun h => hid h.symm

theorem dropClients_record (peers : List SocketAddr) (heps : s.Epochs) (hflag : s.DeviceFlags)
    (h : s.broker.Recorded c ∨ s.broker.Justified c) :
    SameRecord s.broker
        (peers.foldl (fun g peer => g.dropClient peer) s.toGateway).broker c ∨
      (peers.foldl (fun g peer => g.dropClient peer) s.toGateway).broker.Recorded c := by
  induction peers generalizing s with
  | nil => exact .inl (.refl _ c)
  | cons peer peers ih =>
    have hmoves : Moves {} s (s.ofGateway (s.toGateway.dropClient peer)) :=
      gateway_moves (Gateway.dropClient_moves (fun _ _ => trivial) trivial)
    obtain ⟨heps1, hflag1⟩ := moves_invariant (I := fun s => s.Epochs ∧ s.DeviceFlags)
      (fun _ _ hs hmove => ⟨hmove.epochs hs.1, hmove.deviceFlags hs.1 hs.2⟩) hmoves
      ⟨heps, hflag⟩
    have hone := dropClient_record (c := c) hflag peer h
    have hrest := ih (s := s.ofGateway (s.toGateway.dropClient peer)) heps1 hflag1
    rw [List.foldl_cons]
    rcases hone with hsame | hrec
    · exact (hrest (h.imp hsame.recorded hsame.justified)).imp hsame.trans id
    · exact .inr ((hrest (.inl hrec)).elim (fun hsame => hsame.recorded hrec) id)

/-! ## The steps -/

/-- The session that a datagram opens, with its kind. -/
def joinsDevice (s : Sys) (bytes : Bytes) : Option (String × Bool) :=
  match parsePacket (bytes.take 65535) with
  | .ok (.connect flags protocolId _ c) =>
    if s.toGateway.refusal protocolId c = none then some (c, flags &&& flagClean ≠ 0) else none
  | _ => none

/-- The session that an event opens, with its kind: whether it is clean. -/
def joins (s : Sys) (e : Event) : Option (String × Bool) :=
  match e with
  | .datagram _ bytes => s.joinsDevice bytes
  | e => (s.connection e).map (fun connect => (connect.clientId, connect.cleanSession))

/-- A session is opened for a client whose last connection has been cleaned up, and which connects
    the way it did before if it has filters. -/
def joinsOrderly (s : Sys) (e : Event) : Bool :=
  (s.joins e).all (fun j => s.broker.mayJoin j.1 j.2 && !s.ending j.1)

/-- The session of a client whose filters change on a connection is clean, or the connection's
    own. -/
def ownsFilters (s : Sys) (k : Nat) (c : String) : Bool :=
  (s.broker.sessions.get c).any (fun e => e.cleanSession || e.epoch = k)

/-- Filters change on the connection that owns the session, and a persistent session that has
    filters keeps one. -/
def filtersOrderly (s : Sys) (e : Event) : Bool :=
  match e, s.inbound e with
  | .arm k _, some (conn, .subscribe _) => s.ownsFilters k conn.clientId
  | .arm k _, some (conn, .unsubscribe u) =>
    s.ownsFilters k conn.clientId && Task.leavesFilter s.broker conn.clientId u.topicFilters
  | _, _ => true

/-- The filters of a device change only if its session is not persistent. -/
def devicesOrderly (s : Sys) (e : Event) : Bool :=
  match e with
  | .datagram peer bytes =>
    (s.toGateway.subscriber peer bytes).all (fun c => !s.broker.persistent c) &&
      (s.toGateway.unsubscriber peer bytes).all (fun c => !s.broker.persistent c)
  | _ => true

/-- The steps that keep the snapshots accurate. -/
def orderly (s : Sys) (e : Event) : Bool :=
  s.joinsOrderly e && s.filtersOrderly e && s.devicesOrderly e

/-- A session opened by a CONNECT over TCP. -/
theorem connect_settled {uuid : String} {credit : Option Nat} {arms : List ReplayArm}
    (heps : s.Epochs) (hcond : s.joinsOrderly (.connect peer bytes uuid credit arms) = true)
    (hstep : s.step (.connect peer bytes uuid credit arms) = some s') (hs : s.Settled c) :
    s'.Settled c := by
  by_cases hjoin : ∃ connect, s.connection (.connect peer bytes uuid credit arms) = some connect ∧
      connect.clientId = c
  · obtain ⟨connect, hacc, rfl⟩ := hjoin
    simp only [joinsOrderly, joins, hacc, map_some, all_some, Bool.and_eq_true,
      Bool.not_eq_true'] at hcond
    obtain ⟨security, buffer, connack, r, t, hrun, rfl⟩ := connect_task hacc hstep
    obtain ⟨hmoves, -⟩ := wp_welcome (S := .without connect.clientId) trivial trivial r t hrun
    have hopened : Recorded (openSession { s.broker with security } connect
        peer buffer credit).2.broker connect.clientId :=
      (hs.recorded hcond.2).join hcond.1 rfl rfl
        ((register_get ..).trans (if_pos rfl)) rfl
    exact .inl ((Task.moves_sameRecord hmoves (not_not.2 rfl) (not_not.2 rfl)
      (not_not.2 rfl)).recorded hopened)
  · refine hs.of_passes heps hstep ⟨?_, by simp, not_false, ?_, ?_, by simp⟩
    · intro connect hacc hid
      exact hjoin ⟨connect, hacc, hid⟩
    · simp [subscriber, inbound]
    · simp [unsubscriber, inbound]

theorem ownsFilters_spec (h : s.ownsFilters k c = true) :
    ∃ e, s.broker.sessions.get c = some e ∧ (e.cleanSession = true ∨ e.epoch = k) := by
  obtain ⟨e, hget, he⟩ := (any_eq_true _ _).1 h
  exact ⟨e, hget, by simpa using he⟩

/-- The filters of a client change on a connection of its own. -/
theorem arm_settled_self {a : Arm} {conn : Conn} {packet : Packet} {x : Handler Unit}
    (hin : s.inbound (.arm k a) = some (conn, packet)) (hconn : s.conns.get k = some conn)
    (hid : conn.clientId = c) (hpkt : handlePacket packet = (do x; pure .continue))
    (hx : ∀ t : Task, t.broker = s.broker → t.conn.clientId = c → t.broker.Justified c →
      wp x (Task.Settles c) t) (howns : s.ownsFilters k c = true)
    (hstep : s.step (.arm k a) = some s') (hs : s.Settled c) : s'.Settled c := by
  obtain ⟨e, hget, hkind⟩ := ownsFilters_spec howns
  have hj : s.broker.Justified c :=
    hs.either.elim (fun h => h.justified (by rw [hget]; rfl)) id
  have hkey : (s'.broker.sessions.get c).map key = some e.key := by
    have hmoves := step_moves (S := { removes := fun _ => False, opens := fun _ => False
                                      registers := fun _ => False, restarts := False })
      { allows_all s (.arm k a) with
        removes := fun _ h => h
        opens := fun _ h => by simp [connection] at h
        registers := fun _ _ _ h => by simp at h
        restarts := fun _ h => by simp at h } hstep
    have hinv := moves_invariant
      (I := fun s' => (s'.broker.sessions.get c).map key = some e.key) ?_ hmoves
      (by rw [hget, map_some])
    · exact hinv
    · intro s1 s2 h1 hmove
      have hchange := hmove.change
      generalize s2.broker = b2 at hchange ⊢
      cases hchange with
      | move b2 hb => exact (hb.key_eq id).trans h1
      | frame => exact h1
      | opened _ _ _ _ h => exact h.elim
      | registered _ _ _ h => exact h.elim
      | restarted _ _ h => exact h.elim
  change s.runArm k a = some s' at hstep
  unfold runArm at hstep
  rw [hconn, bind_eq_bind, bind_some] at hstep
  split_ifs at hstep
  obtain ⟨⟨r, t⟩, hrun, hstep⟩ := bind_eq_some_iff.1 hstep
  have hnext : (s.task k conn).nextInbound = some packet ∧ (a = .inbound ∨ a = .streamEnd) := by
    cases a <;> simp_all [inbound]
  have hmoves := wp_arm a (permits_all _ a) r t hrun
  have hep : t.epoch = k := moves_epoch hmoves
  have hcl : t.conn.clientId = c := (moves_clientId hmoves).trans hid
  have hwp : ∀ streamEnded, wp (inboundArm streamEnded) (fun _ t' => t'.broker.Recorded c ∨
      t'.broker.Justified c ∧ t'.conn.exit = some .abnormal) (s.task k conn) := fun streamEnded =>
    wp_inboundArm_settles streamEnded hnext.1 hpkt
      (fun t' hb hc => hx t' hb (hc.trans hid) (hb ▸ hj))
  have hresult : t.broker.Recorded c ∨
      t.broker.Justified c ∧ t.conn.exit = some .abnormal := by
    rcases hnext.2 with rfl | rfl
    · exact hwp false r t hrun
    · exact hwp true r t hrun
  rw [← some.inj hstep] at hkey ⊢
  rcases hresult with hrec | ⟨hj', hexit⟩
  · exact .inl hrec
  · obtain ⟨e', hget', hkey'⟩ := map_eq_some_iff.1 hkey
    rw [key, key, Prod.mk.injEq] at hkey'
    rcases hkind with hclean | hown
    · refine .inl (hj'.recorded ?_)
      change (t.broker.sessions.get c).any _ = false
      change t.broker.sessions.get c = some e' at hget'
      rw [hget', any_some, hkey'.2, hclean]
      rfl
    · refine .inr ⟨hj', e', t.conn, hget', ?_, hcl, hexit⟩
      rw [hkey'.1, hown, ← hep]
      exact FinMap.get_insert_self ..

theorem arm_settled {a : Arm} (heps : s.Epochs) (hcond : s.filtersOrderly (.arm k a) = true)
    (hstep : s.step (.arm k a) = some s') (hs : s.Settled c) : s'.Settled c := by
  -- an arm that does not change the filters of the client
  have hpass : s.subscriber (.arm k a) ≠ some c → s.unsubscriber (.arm k a) ≠ some c →
      s'.Settled c := fun hsub hunsub =>
    hs.of_passes heps hstep ⟨by simp [connection], by simp, not_false, hsub, hunsub, by simp⟩
  cases hin : s.inbound (.arm k a) with
  | none => exact hpass (by simp [subscriber, hin]) (by simp [unsubscriber, hin])
  | some p =>
    obtain ⟨conn, packet⟩ := p
    have hconn : s.conns.get k = some conn := by
      cases a with
      | inbound | streamEnd =>
        obtain ⟨conn1, hconn1, hin⟩ := bind_eq_some_iff.1 hin
        obtain ⟨packet1, -, hp⟩ := map_eq_some_iff.1 hin
        rw [hconn1, (Prod.mk.inj hp).1]
      | _ => simp [inbound] at hin
    by_cases hid : conn.clientId = c
    · cases packet with
      | subscribe sub =>
        simp only [filtersOrderly, hin] at hcond
        exact arm_settled_self hin hconn hid rfl
          (fun t _ hc hj => wp_handleSubscribe sub hc hj) (hid ▸ hcond) hstep hs
      | unsubscribe u =>
        simp only [filtersOrderly, hin, Bool.and_eq_true] at hcond
        exact arm_settled_self hin hconn hid rfl
          (fun t hb hc hj => wp_handleUnsubscribe u hc (hb ▸ hid ▸ hcond.2) hj)
          (hid ▸ hcond.1) hstep hs
      | _ => exact hpass (by simp [subscriber, hin]) (by simp [unsubscriber, hin])
    · refine hpass ?_ ?_
      · cases packet <;> simp [subscriber, hin, hid]
      · cases packet <;> simp [unsubscriber, hin, hid]

theorem sweepDevices_settled (heps : s.Epochs) (hflag : s.DeviceFlags)
    (hstep : s.step .sweepDevices = some s') (hs : s.Settled c) : s'.Settled c := by
  refine Settled.of_step heps hstep (by simp) (by simp) ?_ hs
  rw [← some.inj hstep]
  exact dropClients_record _ heps hflag hs.either

/-- A datagram that changes filters leaves the disk and the sessions alone. -/
theorem subscribed_recorded {b b' : BrokerState} (hstore : b'.storage = b.storage)
    (hsess : b'.sessions = b.sessions) (hc : b.persistent c = false)
    (h : b.Recorded c ∨ b.Justified c) : b'.Recorded c := by
  have hrec : b.Recorded c := h.elim id (fun hj => hj.recorded hc)
  have hc' : b'.persistent c = false := by
    rw [persistent, hsess]
    exact hc
  intro hs
  have hfiled := hrec (hstore ▸ hs)
  rw [due, if_neg (by simp [hc])] at hfiled
  rw [due, if_neg (by simp [hc']), filed, hstore]
  exact hfiled

theorem handleSubscribe_frame (g : Gateway) (peer : SocketAddr) (flags : UInt8) (msgId : UInt16)
    (topic : Bytes) :
    (g.handleSubscribe peer flags msgId topic).broker.storage = g.broker.storage ∧
      (g.handleSubscribe peer flags msgId topic).broker.sessions = g.broker.sessions := by
  unfold Gateway.handleSubscribe
  split
  · exact ⟨rfl, rfl⟩
  · exact ⟨rfl, rfl⟩
  · dsimp only
    split <;> exact ⟨rfl, rfl⟩

theorem handleUnsubscribe_frame (g : Gateway) (peer : SocketAddr) (msgId : UInt16)
    (topic : Bytes) :
    (g.handleUnsubscribe peer msgId topic).broker.storage = g.broker.storage ∧
      (g.handleUnsubscribe peer msgId topic).broker.sessions = g.broker.sessions := by
  unfold Gateway.handleUnsubscribe
  dsimp only
  split <;> exact ⟨rfl, rfl⟩

/-- What a datagram does to the record of a client that it concerns. -/
theorem datagram_record {g : Gateway} {packet : SnPacket} (hflag : s.DeviceFlags)
    (hjoin : s.joinsOrderly (.datagram peer bytes) = true)
    (hdevices : s.devicesOrderly (.datagram peer bytes) = true)
    (hparse : parsePacket (bytes.take 65535) = .ok packet)
    (hg : s.toGateway.handle peer packet = some g) (hs : s.Settled c) :
    s.Passes (.datagram peer bytes) c ∨ SameRecord s.broker g.broker c ∨
      g.broker.Recorded c := by
  -- what has to be known about the packet for it to pass the client by
  have hpass : Gateway.connects bytes ≠ some c →
      s.toGateway.disconnector peer bytes ≠ some c → s.toGateway.subscriber peer bytes ≠ some c →
      s.toGateway.unsubscriber peer bytes ≠ some c → s.Passes (.datagram peer bytes) c := by
    intro hconnects hends hsub hunsub
    refine ⟨by simp [connection], ?_, hends, hsub, hunsub, by simp⟩
    rintro peer1 bytes1 h
    rw [Event.datagram.injEq] at h
    exact h.2 ▸ hconnects
  simp only [devicesOrderly, Bool.and_eq_true, Option.all_eq_true, Bool.not_eq_true'] at hdevices
  simp only [Gateway.connects, Gateway.disconnector, Gateway.subscriber, Gateway.unsubscriber,
    hparse] at hpass hdevices
  unfold Gateway.handle at hg
  cases packet with
  | connect flags protocolId duration c' =>
    by_cases hid : c' = c
    · subst hid
      right
      rw [← Option.some.inj hg]
      unfold Gateway.handleConnect
      cases href : s.toGateway.refusal protocolId c' with
      | some code => exact .inl ⟨rfl, rfl, rfl, rfl⟩
      | none =>
        right
        simp only [joinsOrderly, joins, joinsDevice, hparse, href, if_true, Option.all_some,
          Bool.and_eq_true, Bool.not_eq_true'] at hjoin
        exact (hs.recorded hjoin.2).join hjoin.1 rfl rfl
          ((SessionManager.register_get ..).trans (if_pos rfl)) rfl
    · exact .inl (hpass (by simpa using hid) (by simp) (by simp) (by simp))
  | subscribe flags msgId topic =>
    by_cases hid : (s.clients.get peer).map SnClient.clientId = some c
    · right
      right
      obtain ⟨hstore, hsess⟩ := handleSubscribe_frame s.toGateway peer flags msgId topic
      rw [← Option.some.inj hg]
      exact subscribed_recorded hstore hsess (hdevices.1 c hid) hs.either
    · exact .inl (hpass (by simp) (by simp) hid (by simp))
  | unsubscribe flags msgId topic =>
    by_cases hid : (s.clients.get peer).map SnClient.clientId = some c
    · right
      right
      obtain ⟨hstore, hsess⟩ := handleUnsubscribe_frame s.toGateway peer msgId topic
      rw [← Option.some.inj hg]
      exact subscribed_recorded hstore hsess (hdevices.2 c hid) hs.either
    · exact .inl (hpass (by simp) (by simp) (by simp) hid)
  | disconnect duration =>
    cases duration with
    | none =>
      right
      rw [← Option.some.inj hg]
      exact dropClient_record hflag peer hs.either
    | some d => exact .inl (hpass (by simp) (by simp) (by simp) (by simp))
  | _ => exact .inl (hpass (by simp) (by simp) (by simp) (by simp))

theorem datagram_settled (heps : s.Epochs) (hflag : s.DeviceFlags)
    (hcond : s.orderly (.datagram peer bytes) = true)
    (hstep : s.step (.datagram peer bytes) = some s') (hs : s.Settled c) : s'.Settled c := by
  simp only [orderly, Bool.and_eq_true] at hcond
  have hdat := hstep
  obtain ⟨g, hg, rfl⟩ := map_eq_some_iff.1 hdat
  unfold Gateway.datagram at hg
  cases hparse : parsePacket (bytes.take 65535) with
  | error err =>
    rw [hparse] at hg
    refine Settled.of_step heps hstep (by simp) (by simp) (.inl ?_) hs
    rw [← some.inj hg]
    exact .refl _ c
  | ok packet =>
    rw [hparse] at hg
    rcases datagram_record hflag hcond.1.1 hcond.2 hparse hg hs with hpass | hrec
    · exact hs.of_passes heps hstep hpass
    · exact Settled.of_step heps hstep (by simp) (by simp) hrec hs

/-- **An orderly step keeps the snapshots accurate**, but for those of broken connections. -/
theorem step_settled {e : Event} (heps : s.Epochs) (hflag : s.DeviceFlags)
    (harch : s.broker.Archived) (hcond : s.orderly e = true) (hstep : s.step e = some s')
    (hs : s.Settled c) : s'.Settled c := by
  -- an event that opens no session, changes no filters and ends nothing
  have hpass : s.connection e = none → (∀ peer bytes, e ≠ .datagram peer bytes) →
      ¬ s.Ends c e → s.inbound e = none → (∀ config, e ≠ .restart config) → s'.Settled c := by
    intro hconn hdat hends hin hrst
    refine hs.of_passes heps hstep ⟨by simp [hconn], ?_, hends, ?_, ?_, hrst⟩
    · exact fun peer bytes h => absurd h (hdat peer bytes)
    · cases e <;> simp_all [subscriber]
    · cases e <;> simp_all [unsubscriber]
  cases e with
  | connect peer bytes uuid credit arms =>
    simp only [orderly, Bool.and_eq_true] at hcond
    exact connect_settled heps hcond.1.1 hstep hs
  | arm k a =>
    simp only [orderly, Bool.and_eq_true] at hcond
    exact arm_settled heps hcond.1.2 hstep hs
  | finish k => exact finish_settled heps hstep hs
  | datagram peer bytes => exact datagram_settled heps hflag hcond hstep hs
  | sweepDevices => exact sweepDevices_settled heps hflag hstep hs
  | sweepSessions =>
    refine Settled.of_step heps hstep (by simp) (by simp) ?_ hs
    rw [← some.inj hstep]
    exact s.broker.sweepExpired_record c
  | deleteSession c' =>
    by_cases hid : c' = c
    · subst hid
      refine Settled.of_step heps hstep (by simp) (by simp) ?_ hs
      rw [← some.inj hstep]
      exact deleteSession_record s.broker c'
    · exact hpass rfl (by simp) hid rfl (by simp)
  | restart config =>
    left
    obtain ⟨b, hb, rfl⟩ := restart_cases hstep
    cases hstore : s.broker.storage with
    | none =>
      rw [hstore] at hb
      intro hsome
      rw [← some.inj hb] at hsome
      simp at hsome
    | some st =>
      rw [hstore] at hb
      exact (new_recorded (harch.filed st hstore) hb c :)
  | _ => exact hpass rfl (by simp) not_false rfl (by simp)

theorem init_settled {config : Settings} {now : Instant} (h : init config now = some s)
    (c : String) : s.Settled c := by
  left
  obtain ⟨b, hb, rfl⟩ := map_eq_some_iff.1 h
  dsimp only at hb ⊢
  split_ifs at hb
  · refine new_recorded ?_ hb c
    intro e he
    simp [OrderedMap.empty] at he
  · intro hsome
    rw [← some.inj hb] at hsome
    simp at hsome

/-- **Snapshots are accurate along every run whose steps are orderly**: for every client whose own
    connection is not about to be cleaned up. -/
theorem accurate_of_orderly {config : Settings} {now : Instant} {s₀ s : Sys} {es : List Event}
    (h₀ : init config now = some s₀) (hrun : s₀.run es = some s)
    (hmeets : s₀.Meets (fun s e => s.orderly e = true) es) {storage : Storage}
    (hstorage : s.broker.storage = some storage) (c : String) (hc : s.ending c = false) :
    s.broker.Accurate storage c := by
  have hinit : Reachable s₀ := ⟨config, now, s₀, [], h₀, rfl⟩
  have hinv := run_invariant (I := fun s => Reachable s ∧ s.Settled c) ?_
    ⟨hinit, init_settled h₀ c⟩ hmeets hrun
  · exact (hinv.2.recorded hc).accurate hinv.1.archived hstorage
  · intro s s' e hs hcond hstep
    exact ⟨hs.1.step hstep, step_settled hs.1.epochs hs.1.deviceFlags hs.1.archived hcond hstep hs.2⟩

/-- The settings of the runs below. -/
def storing : Settings := { storage := { enabled := true } }

/-- A persistent client subscribes and disconnects. -/
def filedRun : List Event :=
  opens "a" false :: sends 1 subscribeT ++ sends 1 .disconnect ++ [.finish 1]

theorem accurate_of_orderly_filed : ∃ s₀ s storage, init storing 0 = some s₀ ∧
    s₀.run filedRun = some s ∧ s₀.Meets (fun s e => s.orderly e = true) filedRun ∧
    s.broker.storage = some storage ∧ s.ending "a" = false ∧ s.broker.persistent "a" = true ∧
    s.broker.subscriptions.subscriptionsOf "a" = [("t", .atLeastOnce)] ∧
    s.broker.Accurate storage "a" := by
  obtain ⟨s₀, s, h₀, hrun, hmeets, hs⟩ := exists_run_meets
    (C := fun s e => s.orderly e = true) orderly (fun _ _ h => h) storing 0 filedRun
    (fun s => s.broker.storage.isSome && !s.ending "a" && s.broker.persistent "a" &&
      s.broker.subscriptions.subscriptionsOf "a" = [("t", .atLeastOnce)]) (by decide +kernel)
  simp only [Bool.and_eq_true, Bool.not_eq_true', decide_eq_true_eq] at hs
  obtain ⟨⟨⟨hstorage, hending⟩, hpersistent⟩, hsubs⟩ := hs
  obtain ⟨storage, hstorage⟩ := isSome_iff_exists.1 hstorage
  exact ⟨s₀, s, storage, h₀, hrun, hmeets, hstorage, hending, hpersistent, hsubs,
    accurate_of_orderly h₀ hrun hmeets hstorage "a" hending⟩

/-- The UNSUBSCRIBE that takes the filter back. -/
def unsubscribeT : Packet := .unsubscribe { packetId := 2, topicFilters := ["t"] }

/-- **The snapshot of the last filter stays on disk**: a client unsubscribes from everything, and a
    start would subscribe it again. -/
theorem unsubscribe_leaves_snapshot : ∃ s storage, Reachable s ∧ s.broker.storage = some storage ∧
    s.ending "a" = false ∧ s.broker.persistent "a" = true ∧
    s.broker.subscriptions.subscriptionsOf "a" = [] ∧
    storage.restoredTree.subscriptionsOf "a" = [("t", .atLeastOnce)] ∧
    ¬ s.broker.Accurate storage "a" := by
  obtain ⟨s₀, s, h₀, hrun, hs⟩ := exists_run storing 0
    (opens "a" false :: sends 1 subscribeT ++ sends 1 unsubscribeT)
    (fun s => s.broker.storage.any (fun storage =>
        storage.restoredTree.subscriptionsOf "a" = [("t", .atLeastOnce)]) &&
      !s.ending "a" && s.broker.persistent "a" &&
      s.broker.subscriptions.subscriptionsOf "a" = []) (by decide +kernel)
  simp only [Bool.and_eq_true, Bool.not_eq_true', decide_eq_true_eq] at hs
  obtain ⟨⟨⟨hstorage, hending⟩, hpersistent⟩, hsubs⟩ := hs
  obtain ⟨storage, hstorage, hrestored⟩ := (any_eq_true _ _).1 hstorage
  rw [decide_eq_true_eq] at hrestored
  refine ⟨s, storage, ⟨storing, 0, s₀, _, h₀, hrun⟩, hstorage, hending, hpersistent, hsubs,
    hrestored, fun h => ?_⟩
  have hmem := (h.same hpersistent ("t", .atLeastOnce)).1 (by rw [hrestored]; exact List.mem_cons_self)
  simp [hsubs] at hmem

end Sys

end LumenMQ
