import LumenMQ.Subscriptions

set_option autoImplicit false

/-! # Fresh sessions

A CONNACK without the session-present flag tells the client that the broker keeps nothing of an
earlier session. The session entry is indeed a new one; but neither the subscriptions nor the
messages that the old session hands over are given up with it. -/

namespace LumenMQ

namespace Sys

/-- The epoch of the next session. -/
def nextEpoch (s : Sys) : Nat := s.broker.sessions.epochCounter + 1

/-- The CONNACK that accepts a connection and says that there was no session before. -/
def announcesNew (epoch : Nat) : Effect → Bool
  | .wrote k (.connack c) => k = epoch && !c.sessionPresent && c.returnCode = 0
  | _ => false

/-- A CONNECT is accepted, its CONNACK says that there was no session before, and the main loop of
    its connection begins. What it adds to the trace is `es`. -/
structure Begins (s : Sys) (e : Event) (s' : Sys) (connect : Connect) (es : List Effect) : Prop where
  accepted : s.connection e = some connect
  step : s.step e = some s'
  trace : s'.broker.trace = es ++ s.broker.trace
  connack : ∃ e ∈ es, announcesNew s.nextEpoch e = true
  mainLoop : ∃ conn, s'.conns.get s.nextEpoch = some conn ∧ conn.exit = none

/-- Nothing of an earlier session is left: the client has no subscription, no topic is routed to it,
    and its connection has not replayed a message. -/
structure Fresh (s : Sys) (c : String) (epoch : Nat) (es : List Effect) : Prop where
  subscriptions : s.broker.subscriptions.subscriptionsOf c = []
  unmatched : ¬ s.broker.subscriptions.Matched c
  notReplayed : ∀ m, .taken epoch .replay m ∉ es

/-- The client has no subscription, and its session, if there is one, has nothing to hand over. -/
def LeavesNothing (s : Sys) (c : String) : Prop :=
  s.broker.subscriptions.subscriptionsOf c = [] ∧
    ∀ e, s.broker.sessions.get c = some e → e.handover s.broker.now = []

theorem taken_notMem_iff {k : Nat} {es : List Effect} :
    (∀ m, .taken k .replay m ∉ es) ↔ es.filterMap (Effect.replayOf k) = [] := by
  rw [List.filterMap_eq_nil_iff]
  constructor
  · intro h e he
    unfold Effect.replayOf
    split
    · split_ifs with hk
      · exact absurd (hk ▸ he) (h _)
      · rfl
    · rfl
  · intro h m hm
    have hnone := h _ hm
    simp [Effect.replayOf] at hnone

/-- An accepted CONNECT leaves the filters of its client alone, and when its main loop begins it has
    replayed what the old session hands over. -/
theorem begins_spec {s s' : Sys} {e : Event} {connect : Connect} {es : List Effect}
    (h : Begins s e s' connect es) :
    s'.broker.subscriptions.subscriptionsOf connect.clientId =
        s.broker.subscriptions.subscriptionsOf connect.clientId ∧
      es.filterMap (Effect.replayOf s.nextEpoch) =
        (((s.broker.sessions.get connect.clientId).map (fun e => e.handover s.broker.now)).getD
          []).reverse := by
  obtain ⟨hacc, hstep, htrace, -, conn, hconn, hexit⟩ := h
  cases e with
  | connect peer bytes uuid credit arms =>
    obtain ⟨security, buffer, connack, r, t, hrun, rfl⟩ := connect_task hacc hstep
    -- on the way into the loop no subscription changes and no session is removed
    obtain ⟨hmoves, hrep⟩ := Task.wp_welcome
      (S := { subscribes := fun _ => False, unsubscribes := fun _ => False
              removes := fun _ => False }) trivial trivial r t hrun
    have hep : t.epoch = s.nextEpoch := Task.moves_epoch hmoves
    have hloop : t.conn.exit = none := by
      rw [← hep] at hconn
      have hsame : some t.conn = some conn := (FinMap.get_insert_self ..).symm.trans hconn
      rw [Option.some.inj hsame]
      exact hexit
    refine ⟨Task.moves_subscriptionsOf_eq hmoves not_false not_false not_false, ?_⟩
    have hall := (hrep hloop).2
    rw [Task.openSession_replay] at hall
    have hold : Task.replayed
        (BrokerState.openSession { s.broker with security } connect peer buffer credit).2 =
          s.broker.trace.filterMap (Effect.replayOf s.nextEpoch) := by
      refine (BrokerState.extends_noteDiscarded (S := {}) s.broker connect.clientId _).filterMap_eq ?_
      intro e he
      cases he <;> rfl
    rw [hold, Task.replayed, hep] at hall
    have htrace' : t.broker.trace = es ++ s.broker.trace := htrace
    rw [htrace', List.filterMap_append] at hall
    exact List.append_cancel_right hall
  | _ => simp [connection] at hacc

/-- **A session that is announced as new is fresh exactly if nothing was left of the old one.** -/
theorem fresh_iff {s s' : Sys} {e : Event} {connect : Connect} {es : List Effect}
    (hreach : Reachable s) (h : Begins s e s' connect es) :
    s'.Fresh connect.clientId s.nextEpoch es ↔ s.LeavesNothing connect.clientId := by
  obtain ⟨hsubs, hreplayed⟩ := begins_spec h
  have hsound := (hreach.step h.step).sound
  have hhandover : es.filterMap (Effect.replayOf s.nextEpoch) = [] ↔
      ∀ e, s.broker.sessions.get connect.clientId = some e → e.handover s.broker.now = [] := by
    rw [hreplayed, List.reverse_eq_nil_iff]
    cases s.broker.sessions.get connect.clientId <;> simp
  constructor
  · intro hfresh
    exact ⟨hsubs ▸ hfresh.subscriptions, hhandover.1 (taken_notMem_iff.1 hfresh.notReplayed)⟩
  · rintro ⟨hnone, hqueue⟩
    have hnone' := hsubs.trans hnone
    exact ⟨hnone', fun hmatched => hsound.subscriptionsOf_of_matched hmatched hnone',
      taken_notMem_iff.2 (hhandover.2 hqueue)⟩

/-- Whether a step begins a session as above. -/
def begins (s : Sys) (e : Event) (s' : Sys) : Bool :=
  (s.connection e).isSome && (added s s').any (announcesNew s.nextEpoch) &&
    (s'.conns.get s.nextEpoch).any (fun conn => conn.exit = none)

theorem begins_of_check {s s' : Sys} {e : Event} (hstep : s.step e = some s')
    (h : s.begins e s' = true) : ∃ connect, Begins s e s' connect (added s s') := by
  simp only [begins, Bool.and_eq_true, Option.isSome_iff_exists, List.any_eq_true,
    Option.any_eq_true, decide_eq_true_eq] at h
  obtain ⟨⟨⟨connect, hacc⟩, hconnack⟩, hloop⟩ := h
  exact ⟨connect, hacc, hstep, added_append hstep, hconnack, hloop⟩

/-- A client that has subscribed to nothing takes over its own session. -/
theorem fresh_iff_takeover :
    ∃ s s' connect es, Reachable s ∧ (s.broker.sessions.get connect.clientId).isSome = true ∧
    Begins s (opens "a" true) s' connect es ∧
    (s'.Fresh connect.clientId s.nextEpoch es ↔ s.LeavesNothing connect.clientId) := by
  obtain ⟨s, s', hreach, hstep, h⟩ := exists_step {} 0 [opens "a" false] (opens "a" true)
    (fun s s' => s.begins (opens "a" true) s' && (s.connection (opens "a" true)).all (fun c =>
      (s.broker.sessions.get c.clientId).isSome)) (by decide +kernel)
  obtain ⟨hbegins, hold⟩ := Bool.and_eq_true_iff.1 h
  obtain ⟨connect, hb⟩ := begins_of_check hstep hbegins
  rw [hb.accepted, Option.all_some] at hold
  exact ⟨s, s', connect, _, hreach, hold, hb, fresh_iff hreach hb⟩

/-- A client with a persistent session subscribes to `t`. -/
def subscribedRun : List Event :=
  opens "a" false :: sends 1 (.subscribe { packetId := 1, topics := [⟨"t", .atLeastOnce⟩] })

/-- **The subscription of the old session is still there** after the client has asked for a clean
    one and was told that there was none before. -/
theorem clean_takeover_not_fresh : ∃ s s' connect es, Reachable s ∧
    Begins s (opens "a" true) s' connect es ∧ ¬ s'.Fresh connect.clientId s.nextEpoch es := by
  obtain ⟨s, s', hreach, hstep, h⟩ := exists_step {} 0 subscribedRun (opens "a" true)
    (fun s s' => s.begins (opens "a" true) s' &&
      (s.connection (opens "a" true)).all (fun c =>
        s'.broker.subscriptions.subscriptionsOf c.clientId = [("t", .atLeastOnce)]))
    (by decide +kernel)
  obtain ⟨hbegins, hsubs⟩ := Bool.and_eq_true_iff.1 h
  obtain ⟨connect, hb⟩ := begins_of_check hstep hbegins
  refine ⟨s, s', connect, _, hreach, hb, fun hfresh => ?_⟩
  rw [hb.accepted, Option.all_some, decide_eq_true_eq, hfresh.subscriptions] at hsubs
  simp at hsubs

end Sys

end LumenMQ
