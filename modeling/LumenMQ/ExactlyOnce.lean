import LumenMQ.Broker.InboundQos2
import LumenMQ.Lifetimes
import LumenMQ.OfflineQueues

set_option autoImplicit false

/-! # Inbound QoS 2 along a run

The packets that a connection has taken since it was opened decide what becomes of the next PUBLISH
of QoS 2: it reaches the router exactly if it begins a handshake and the guards accept it, and the
client gets one answer in any case. -/

namespace LumenMQ

open Option

namespace Sys

variable {c c' : Conn}

open InboundQos2Tracker

variable {s s' : Sys} {k : Nat} {id : UInt16}

/-! ## The tracker -/

/-- A step does to the tracker what the packet that it takes does to it. -/
theorem step_track {e : Event} (heps : s.Epochs) (hc : s.conns.get k = some c)
    (hc' : s'.conns.get k = some c') (hstep : s.step e = some s') :
    c'.inboundQos2 = (s.packetTaken k e).toList.foldl track c.inboundQos2 := by
  by_cases harm : ∃ a, e = .arm k a
  · obtain ⟨a, rfl⟩ := harm
    obtain ⟨c1, r, t, hc1, -, hrun, rfl, rfl⟩ := step_arm hstep
    obtain rfl : c1 = c := some.inj (hc1.symm.trans hc)
    rw [ofTask, FinMap.get_insert_self, some.injEq] at hc'
    rw [← hc', Task.arm_track hrun]
    simp only [packetTaken, hc, bind_some, if_true]
    rfl
  · have hne : ∀ a, e ≠ .arm k a := fun a h => harm ⟨a, h⟩
    rw [packetTaken_of_ne hne]
    exact (step_sameMessages heps hc hc' hstep hne).inboundQos2

theorem run_track {es : List Event} (heps : s.Epochs) (hc : s.conns.get k = some c)
    (halive : s.Always (fun s => (s.conns.get k).isSome = true) es) (hrun : s.run es = some s')
    (hc' : s'.conns.get k = some c') :
    c'.inboundQos2 = (packetsTaken k s es).foldl track c.inboundQos2 := by
  induction es generalizing s c with
  | nil =>
    obtain rfl : s = s' := some.inj hrun
    obtain rfl : c = c' := some.inj (hc.symm.trans hc')
    rfl
  | cons e es ih =>
    obtain ⟨s1, h1, hrest⟩ := Runs.run_cons.1 hrun
    have halive1 := halive.2 s1 h1
    obtain ⟨c1, hc1⟩ := isSome_iff_exists.1 halive1.head
    rw [packetsTaken, h1, List.foldl_append, ← step_track heps hc hc1 h1]
    exact ih (step_epochs h1 heps) hc1 halive1 hrest

/-- A new connection has seen nothing. -/
theorem Opened.inboundQos2 {e : Event} (h : Opened s k e s') (hc' : s'.conns.get k = some c') :
    c'.inboundQos2 = ∅ := by
  obtain ⟨peer, bytes, uuid, credit, arms, connect, security, buffer, connack, r, t, he, hconn,
    hrun, hk, hep, rfl⟩ := h
  obtain ⟨hmoves, -⟩ := Task.wp_welcome (S := { takes := fun _ => False }) trivial trivial r t hrun
  rw [ofTask, hep, FinMap.get_insert_self, some.injEq] at hc'
  rw [← hc']
  exact Task.moves_inboundQos2 hmoves (fun _ _ _ => id) (fun _ => id)

/-! ## Answers -/

/-- A step routes these publications and no others, and all that the connection does towards its
    client is to answer with one packet: it is written, unless the transport is broken. -/
structure Answers (s s' : Sys) (k : Nat) (routed : List Routed) (answer : Packet) : Prop where
  publications : (added s s').filterMap Effect.publication = routed
  answers : ∃ x, (added s s').filter (fun y => y.epoch = some k) = [x] ∧
    (x = .wrote k answer ∨ (∃ c, s.conns.get k = some c ∧ c.credit = some 0) ∧
      x = .sendFailed k answer (.io "broken pipe"))

theorem answers_of_task {a : Arm} {t : Task} {routed : List Routed} {answer : Packet}
    (hc : s.conns.get k = some c) (hstep : s.step (.arm k a) = some (s.ofTask t))
    (h : (s.task k c).Answers t routed answer) : s.Answers (s.ofTask t) k routed answer := by
  obtain ⟨x, newer, htrace, hhands, hrouted, hnew⟩ := h
  have hadded : added s (s.ofTask t) = x :: newer := by
    have happend := added_append hstep
    rw [show (s.ofTask t).broker.trace = _ from htrace] at happend
    exact (List.append_cancel_right happend).symm
  have hx : x.publication = none ∧ x.epoch = some k := by
    rcases hhands with rfl | ⟨-, rfl⟩ <;> exact ⟨rfl, rfl⟩
  refine ⟨?_, x, ?_, ?_⟩
  · rw [hadded, List.filterMap_cons_none hx.1, hrouted]
  · rw [hadded, List.filter_cons_of_pos (by simpa using hx.2), List.filter_eq_nil_iff.2]
    intro y hy
    simp [hnew y hy]
  · exact hhands.imp_right (fun h => ⟨⟨c, hc, h.1⟩, h.2⟩)

/-- The publication of a PUBLISH that a connection takes. -/
def arrival (s : Sys) (k : Nat) (c : Conn) (p : Publish) : Routed := (s.task k c).inboundPublish p

/-- **Inbound QoS 2 is routed exactly once per handshake.** Whatever a connection has taken since it
    was opened: the next PUBLISH of QoS 2 reaches the router exactly if no other one with its
    identifier has come in since the last PUBREL and both guards accept it; it is answered by
    exactly one PUBREC, and a PUBREL by exactly one PUBCOMP. Only if the queues of the broker have
    no room at all may the router not return. -/
theorem qos2_routed_once {s₀ s₁ : Sys} {e₀ : Event} {es : List Event} {c : Conn} (hs : Reachable s₀)
    (hnew : s₀.conns.get k = none) (hopen : s₀.step e₀ = some s₁)
    (halive : s₁.Always (fun s => (s.conns.get k).isSome = true) es) (hrun : s₁.run es = some s)
    (hc : s.conns.get k = some c) (hloop : c.exit = none) (a : Arm) (id : UInt16) :
    (∀ p, (s.task k c).packetOf a = some (.publish p) → p.qos = .exactlyOnce →
      p.packetId = some id →
      (¬ Pending id (packetsTaken k s₁ es) ∧ (s.arrival k c p).Passes →
        (∃ s', s.step (.arm k a) = some s' ∧
          s.Answers s' k [s.arrival k c p] (.pubrec id)) ∨
        s.step (.arm k a) = none ∧ s.broker.config.storage.maxOfflineMessages = 0) ∧
      (¬ (¬ Pending id (packetsTaken k s₁ es) ∧ (s.arrival k c p).Passes) →
        ∃ s', s.step (.arm k a) = some s' ∧ s.Answers s' k [] (.pubrec id))) ∧
    ((s.task k c).packetOf a = some (.pubrel id) →
      ∃ s', s.step (.arm k a) = some s' ∧ s.Answers s' k [] (.pubcomp id)) := by
  obtain ⟨c₁, hc₁⟩ := isSome_iff_exists.1 halive.head
  have hreach₁ := hs.step hopen
  -- the tracker holds what is pending
  have hseen : id ∈ c.inboundQos2 ↔ Pending id (packetsTaken k s₁ es) := by
    rw [run_track hreach₁.epochs hc₁ halive hrun hc, (step_opened hnew hc₁ hopen).inboundQos2 hc₁]
    exact mem_foldl_track id _
  have hstep := step_arm_eq hc hloop a
  refine ⟨?_, ?_⟩
  · intro p hpacket hqos hid
    have hfresh : (s.task k c).Fresh p id ↔
        ¬ Pending id (packetsTaken k s₁ es) ∧ (s.arrival k c p).Passes :=
      and_congr_left' (not_congr hseen)
    rw [← hfresh]
    have hreceives := Task.arm_publish hpacket hqos hid
    generalize hresult : a.run (s.task k c) = result at hreceives
    rw [hresult] at hstep
    cases hreceives with
    | routed t hf hanswers =>
      exact ⟨fun _ => .inl ⟨_, hstep, answers_of_task hc hstep hanswers⟩, fun hnot => absurd hf hnot⟩
    | dropped t hf hanswers =>
      exact ⟨fun h => absurd h hf, fun _ => ⟨_, hstep, answers_of_task hc hstep hanswers⟩⟩
    | stuck hf hroute =>
      refine ⟨fun _ => .inr ⟨hstep, ?_⟩, fun hnot => absurd hf hnot⟩
      by_contra hzero
      have hlimited : ((s.task k c).entered p id).broker.Limited :=
        BrokerState.Move.limited (S := {}) (.guards _ s.broker.plugin) (hreach₁.run hrun).limited
      obtain ⟨b, hb⟩ := BrokerState.route_isSome hlimited (Nat.pos_of_ne_zero hzero)
        ((s.task k c).inboundPublish p)
      simp [hb] at hroute
  · intro hpacket
    obtain ⟨t, hresult, hanswers, -⟩ := Task.arm_pubrel hpacket
    rw [hresult] at hstep
    exact ⟨_, hstep, answers_of_task hc hstep hanswers⟩

/-- A PUBLISH of QoS 2. -/
def publishQos2 : Packet :=
  .publish { dup := false, qos := .exactlyOnce, retain := false, topic := "t", packetId := some 5
             payload := [] }

/-- The PUBLISH comes in twice. -/
def repeatedRun : List Event := sends 1 publishQos2 ++ [.receive 1 publishQos2.frame]

theorem qos2_routed_once_repeated : ∃ s₀ s₁ s s' c, Reachable s₀ ∧
    s₀.step (opens "a" true) = some s₁ ∧ s₁.run repeatedRun = some s ∧ s.conns.get 1 = some c ∧
    Pending 5 (packetsTaken 1 s₁ repeatedRun) ∧ s.step (.arm 1 .inbound) = some s' ∧
    s.Answers s' 1 [] (.pubrec 5) := by
  obtain ⟨s₀, s₁, hreach, hopen, hp⟩ := exists_step {} 0 [] (opens "a" true)
    (fun s₀ s₁ => (s₀.conns.get 1).isNone &&
      s₁.meets (fun s _ => (s.conns.get 1).isSome) repeatedRun &&
      packetsTaken 1 s₁ repeatedRun = [publishQos2] &&
      (s₁.run repeatedRun).any (fun s => (s.conns.get 1).any (fun c =>
        c.exit = none && (s.task 1 c).packetOf .inbound = some publishQos2))) (by decide +kernel)
  simp only [Bool.and_eq_true, any_eq_true, decide_eq_true_eq, isNone_iff_eq_none] at hp
  obtain ⟨⟨⟨hnew, hmeets⟩, htaken⟩, s, hrun, c, hc, hloop, hpacket⟩ := hp
  have halive := Runs.always_of_last (J := fun s : Sys => (s.conns.get 1).isSome = true)
    (Runs.meets_of_check _ (fun _ _ h => h) hmeets) hrun (by simp [hc])
  have hpending : Pending 5 (packetsTaken 1 s₁ repeatedRun) :=
    ⟨[], [], publishQos2, htaken, ⟨_, rfl, rfl, rfl⟩, by simp⟩
  obtain ⟨hpublish, -⟩ := qos2_routed_once hreach hnew hopen halive hrun hc hloop .inbound 5
  obtain ⟨s', hstep, hanswers⟩ := (hpublish _ hpacket rfl rfl).2 (fun h => h.1 hpending)
  exact ⟨s₀, s₁, s, s', c, hreach, hopen, hrun, hc, hpending, hstep, hanswers⟩

end Sys

end LumenMQ
