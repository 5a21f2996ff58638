import LumenMQ.Lifetimes

set_option autoImplicit false

/-! # The handshakes of the connections

What holds of the packet identifiers of a connection along any run of the system: two messages in
flight never share one, a message that the client has received is released and not published again,
and a handshake is completed by the acknowledgements that belong to it exactly if the client sends
no others. -/

namespace LumenMQ

open Option FinMap LumenMQ.Task OutboundInflightTable

namespace Sys

variable {S : Scope} {s s' : Sys} {k : Nat} {id : UInt16}
variable {e : Event} {c : Conn}

/-! ## Identifiers -/

/-- The tables of all connections are sound. -/
def SoundTables (s : Sys) : Prop :=
  ∀ k c, s.conns.get k = some c → c.inflight.Sound s.broker.config.broker.maxInflight

/-- Every PUBLISH that was sent carries an identifier exactly if its QoS is above 0. -/
def NumberedTrace (s : Sys) : Prop := ∀ x ∈ s.broker.trace, x.Numbered

theorem Move.soundTables (h : s.Move S s') (hs : s.SoundTables) : s'.SoundTables :=
  h.onConns (P := fun config c => c.inflight.Sound config.broker.maxInflight)
    (fun _ _ hmove => hmove.sound) (fun _ _ _ _ => sound_empty _) hs

theorem Adds.numbered {x : Effect} (h : s.Adds S x) (hs : s.SoundTables) : x.Numbered := by
  cases h with
  | broker x h =>
    intro k p hx
    rcases hx with rfl | ⟨error, rfl⟩ <;> cases h
  | task k c x hc h => exact h.numbered (hs k c hc)

theorem Move.numbered (h : s.Move S s') (hs : s.SoundTables ∧ s.NumberedTrace) :
    s'.SoundTables ∧ s'.NumberedTrace := by
  refine ⟨h.soundTables hs.1, fun x hx => ?_⟩
  rcases h.extends.mem hx with hold | hnew
  · exact hs.2 x hold
  · exact hnew.numbered hs.1

theorem Reachable.numbered (h : Reachable s) : s.SoundTables ∧ s.NumberedTrace := by
  refine h.moves_invariant ?_ (fun _ _ hs hmove => hmove.numbered hs)
  intro config now s₀ h₀
  refine ⟨fun k c hc => ?_, fun x hx => ?_⟩
  · simp [init_conns h₀] at hc
  · simp [init_trace h₀] at hx

/-- **Outbound identifiers are never shared.** In every state that is reached, in the midst of a
    step as well, the tables are sound and whatever was published carries an identifier exactly if
    it needs one; and a message is stored under an identifier that is free. -/
theorem outbound_identifiers (hs : Reachable s) (hmoves : Moves {} s s') :
    s'.SoundTables ∧ s'.NumberedTrace ∧ ∀ (t : Task) (req : OutboundPublish), t.BuildsApart req := by
  obtain ⟨hsound, hnumbered⟩ := moves_invariant
    (I := fun s => s.SoundTables ∧ s.NumberedTrace) (fun _ _ hs hmove => hmove.numbered hs)
    hmoves hs.numbered
  exact ⟨hsound, hnumbered, buildsApart⟩

/-- A client subscribes, and a message of QoS 2 is sent to it. -/
def inflightRun : List Event :=
  opens "a" true :: sends 1 (.subscribe { packetId := 1, topics := [⟨"t", .exactlyOnce⟩] }) ++
    [.manualPublish { topic := "t", payload := "x", qos := 2 }, .arm 1 .outbound]

theorem outbound_identifiers_inflight : ∃ s c, Reachable s ∧ s.conns.get 1 = some c ∧
    (c.inflight.get 1).isSome = true ∧ s.SoundTables ∧ s.NumberedTrace ∧
    ∀ (t : Task) (req : OutboundPublish), t.BuildsApart req := by
  obtain ⟨s₀, s, h₀, hrun, hs⟩ := exists_run {} 0 inflightRun
    (fun s => (s.conns.get 1).any (fun c => (c.inflight.get 1).isSome)) (by decide +kernel)
  obtain ⟨c, hc, hsome⟩ := (any_eq_true _ _).1 hs
  have hreach : Reachable s := ⟨{}, 0, s₀, inflightRun, h₀, hrun⟩
  exact ⟨s, c, hreach, hc, hsome, outbound_identifiers hreach .refl⟩

/-! ## Released messages -/

/-- The handshake of a connection with an identifier. -/
def handshake (s : Sys) (k : Nat) (id : UInt16) : Option OutboundInflight :=
  (s.conns.get k).bind (fun c => c.inflight.get id)

theorem not_publishes_of_epoch {x : Effect} (h : x.epoch ≠ some k) : ¬ x.Publishes k id := by
  rintro ⟨p, -, rfl | ⟨error, rfl⟩⟩ <;> exact h rfl

/-- A step does not publish a message that is released, and leaves it released if it is still
    there. -/
theorem step_released {entry : OutboundInflight} (heps : s.Epochs)
    (hent : s.handshake k id = some entry) (hstage : entry.stage = .waitPubcomp)
    (hstep : s.step e = some s') :
    Extends (fun x => ¬ x.Publishes k id) s.broker.trace s'.broker.trace ∧
      ∀ entry', s'.handshake k id = some entry' →
        entry'.stage = .waitPubcomp ∧ entry'.message = entry.message := by
  obtain ⟨c, hc, hget⟩ := bind_eq_some_iff.1 hent
  cases step_life heps hc hstep with
  | aside h =>
    refine ⟨h.2.mono (fun x => not_publishes_of_epoch), ?_⟩
    intro entry' hent'
    rw [handshake, h.1, ← handshake, hent, some.injEq] at hent'
    exact hent' ▸ ⟨hstage, rfl⟩
  | fed c' hsame hs' =>
    subst hs'
    refine ⟨.refl _, ?_⟩
    intro entry' hent'
    obtain ⟨c1, hc1, hget1⟩ := bind_eq_some_iff.1 hent'
    rw [get_insert_self, some.injEq] at hc1
    rw [← hc1, hsame.inflight, hget, some.injEq] at hget1
    exact hget1 ▸ ⟨hstage, rfl⟩
  | arm a r t he hexit hrun hep hs' =>
    subst hs'
    obtain ⟨hrel, hext⟩ := moves_released (armScope_apart (s.task k c) a id)
      (arm_moves hrun) hget hstage
    refine ⟨hext, ?_⟩
    intro entry' hent'
    obtain ⟨c1, hc1, hget1⟩ := bind_eq_some_iff.1 hent'
    rw [ofTask, hep, get_insert_self, some.injEq] at hc1
    exact hrel entry' (hc1 ▸ hget1)
  | finish x b he hx hb hext hs' =>
    subst hs'
    refine ⟨hext.mono (fun x hx => not_publishes_of_epoch (by simp [hx])), ?_⟩
    intro entry' hent'
    simp [handshake, get_erase] at hent'
  | restart config he hconns htrace =>
    rw [htrace]
    refine ⟨.refl _, ?_⟩
    intro entry' hent'
    simp [handshake, hconns] at hent'

/-- The message is in flight on the connection, and released. -/
def ReleasedAt (s : Sys) (k : Nat) (id : UInt16) (msg : OutboundPublish) : Prop :=
  ∃ entry, s.handshake k id = some entry ∧ entry.stage = .waitPubcomp ∧ entry.message = msg

/-- What is sent again of a released message is a PUBREL. -/
theorem ReleasedAt.pubrel {msg : OutboundPublish} {packet : Packet} (h : s.ReleasedAt k id msg)
    (hc : s.conns.get k = some c) (hpkt : (id, packet) ∈ (s.task k c).retryExpired.toResend) :
    packet = .pubrel id := by
  obtain ⟨entry, hent, hstage, -⟩ := h
  rw [handshake, hc, bind_some] at hent
  obtain ⟨entry', hget, -, rfl⟩ := mem_toResend_retryExpired _ _ _ _ hpkt
  obtain rfl : entry = entry' := some.inj (hent.symm.trans hget)
  simp [OutboundInflight.buildPacket, resend, hstage]

/-- PUBREC releases the message. -/
theorem step_pubrec {a : Arm} {entry : OutboundInflight} (hc : s.conns.get k = some c)
    (hent : c.inflight.get id = some entry)
    (hpub : (s.task k c).packetOf a = some (.pubrec id)) (hstep : s.step (.arm k a) = some s') :
    s'.ReleasedAt k id entry.message := by
  obtain ⟨c1, r, t, hc1, -, hrun, rfl, rfl⟩ := step_arm hstep
  obtain rfl : c1 = c := some.inj (hc1.symm.trans hc)
  have hget := arm_pubrec hpub hrun
  change _ = (c1.inflight.get id).map _ at hget
  rw [hent, map_some] at hget
  refine ⟨{ entry with stage := .waitPubcomp, lastSentAt := s.broker.now }, ?_, rfl, rfl⟩
  rw [handshake, ofTask, get_insert_self, bind_some]
  exact hget

/-- **A message whose PUBREC has been handled is not published again.** As long as its handshake is
    in the table, and in the step that takes it out, no PUBLISH with its identifier is sent; it
    stays released, and what a retry sends of it is a PUBREL. -/
theorem released_not_published {s₁ s'' : Sys} {a : Arm} {c : Conn} {entry : OutboundInflight}
    {es : List Event} {e : Event} (hs : Reachable s) (hc : s.conns.get k = some c)
    (hentry : c.inflight.get id = some entry)
    (hpubrec : (s.task k c).packetOf a = some (.pubrec id)) (hstep : s.step (.arm k a) = some s₁)
    (hinflight : s₁.Always (fun s => (s.handshake k id).isSome = true) es)
    (hrun : s₁.run es = some s') (hlast : s'.step e = some s'') :
    s'.ReleasedAt k id entry.message ∧
      (∀ c' packet, s'.conns.get k = some c' →
        (id, packet) ∈ (s'.task k c').retryExpired.toResend → packet = .pubrel id) ∧
      Extends (fun x => ¬ x.Publishes k id) s₁.broker.trace s''.broker.trace := by
  obtain ⟨hepochs, hreleased, hext⟩ := Runs.always_invariant
    (I := fun s => s.Epochs ∧ s.ReleasedAt k id entry.message ∧
      Extends (fun x => ¬ x.Publishes k id) s₁.broker.trace s.broker.trace)
    (by
      rintro s s' e ⟨hepochs, ⟨entry₁, hentry₁, hstage, hmsg⟩, hext⟩ hsome hstep
      obtain ⟨hext', hstays⟩ := step_released hepochs hentry₁ hstage hstep
      obtain ⟨entry₂, hentry₂⟩ := isSome_iff_exists.1 hsome
      obtain ⟨hstage₂, hmsg₂⟩ := hstays entry₂ hentry₂
      exact ⟨step_epochs hstep hepochs, ⟨entry₂, hentry₂, hstage₂, hmsg₂.trans hmsg⟩,
        hext.trans hext'⟩)
    ⟨(hs.step hstep).epochs, step_pubrec hc hentry hpubrec hstep, .refl _⟩ hinflight hrun
  refine ⟨hreleased, fun c' packet hc' => hreleased.pubrel hc', ?_⟩
  obtain ⟨entry₁, hentry₁, hstage, -⟩ := hreleased
  exact hext.trans (step_released hepochs hentry₁ hstage hlast).1

/-- The client releases the message, is sent a PUBREL once more and completes the handshake. -/
theorem released_not_published_inflight : ∃ s s₁ s' s'' c entry, Reachable s ∧
    s.conns.get 1 = some c ∧ c.inflight.get 1 = some entry ∧
    s.step (.arm 1 .inbound) = some s₁ ∧
    s₁.run (.tick (Duration.fromSecs 11) :: [.arm 1 .retry, .receive 1 (Packet.pubcomp 1).frame]) =
      some s' ∧ s'.step (.arm 1 .inbound) = some s'' ∧ s''.handshake 1 1 = none ∧
    s'.ReleasedAt 1 1 entry.message ∧
    Extends (fun x => ¬ x.Publishes 1 1) s₁.broker.trace s''.broker.trace := by
  obtain ⟨s, s₁, hreach, hstep, hp⟩ := exists_step {} 0
    (inflightRun ++ [.receive 1 (Packet.pubrec 1).frame]) (.arm 1 .inbound)
    (fun s s₁ =>
      (s.conns.get 1).any (fun c => (c.inflight.get 1).isSome &&
        (s.task 1 c).packetOf .inbound = some (.pubrec 1)) &&
      s₁.meets (fun s _ => (s.handshake 1 1).isSome)
        [.tick (Duration.fromSecs 11), .arm 1 .retry, .receive 1 (Packet.pubcomp 1).frame] &&
      (s₁.run [.tick (Duration.fromSecs 11), .arm 1 .retry,
        .receive 1 (Packet.pubcomp 1).frame]).any (fun s' => (s'.handshake 1 1).isSome &&
          (s'.step (.arm 1 .inbound)).any (fun s'' => s''.handshake 1 1 = none)))
    (by decide +kernel)
  simp only [Bool.and_eq_true, any_eq_true, decide_eq_true_eq] at hp
  obtain ⟨⟨⟨c, hc, hentry, hpacket⟩, hmeets⟩, s', hrun, hsome, s'', hlast, hnone⟩ := hp
  obtain ⟨entry, hentry⟩ := isSome_iff_exists.1 hentry
  have halways := Runs.always_of_last (J := fun s : Sys => (s.handshake 1 1).isSome = true)
    (Runs.meets_of_check _ (fun _ _ h => h) hmeets) hrun hsome
  obtain ⟨hreleased, -, hext⟩ :=
    released_not_published hreach hc hentry hpacket hstep halways hrun hlast
  exact ⟨s, s₁, s', s'', c, entry, hreach, hc, hentry, hstep, hrun, hlast, hnone, hreleased, hext⟩

/-! ## Acknowledgements -/

/-- What a step should do to the handshakes of a connection: an entry leaves its table only when it
    is due, and only messages of QoS 2 are released. -/
def Handshaken (k : Nat) (s : Sys) (e : Event) : Prop :=
  ∀ s' c', s.step e = some s' → s'.conns.get k = some c' →
    (∀ c id entry, s.conns.get k = some c → c.inflight.get id = some entry →
      Task.Remains entry (c'.inflight.get id) ∨ ∃ a, e = .arm k a ∧ (s.task k c).Due a id entry) ∧
    Task.OnlyQos2Released c'.inflight

/-- The acknowledgements that a connection handles are of the kind that their handshake waits
    for. -/
def properAck (k : Nat) (s : Sys) : Event → Bool
  | .arm k' a => k' != k || (s.conns.get k).all (fun c => (s.task k c).properAck a)
  | _ => true

/-- Only messages of QoS 2 are released on the connection. -/
def OnlyQos2ReleasedOn (k : Nat) (s : Sys) : Prop :=
  ∀ c, s.conns.get k = some c → Task.OnlyQos2Released c.inflight

theorem properAck_of_ne (h : ∀ a, e ≠ .arm k a) : s.properAck k e = true := by
  cases e with
  | arm k' a =>
    have hne : k' ≠ k := by
      rintro rfl
      exact h a rfl
    simp [properAck, hne]
  | _ => rfl

/-- A new connection has released nothing. -/
theorem Opened.onlyQos2Released {c' : Conn} (h : Opened s k e s') (hc' : s'.conns.get k = some c') :
    Task.OnlyQos2Released c'.inflight := by
  obtain ⟨peer, bytes, uuid, credit, arms, connect, security, buffer, connack, r, t, he, hconn,
    hrun, hk, hep, rfl⟩ := h
  obtain ⟨hmoves, -⟩ := wp_welcome (S := { takes := fun _ => False }) trivial trivial r t hrun
  rw [ofTask, hep, get_insert_self, some.injEq] at hc'
  rw [← hc']
  refine moves_onlyQos2Released (fun _ _ _ _ _ (h : False) => h.elim) hmoves ?_
  intro id e' he'
  change get (∅ : OutboundInflightTable) id = some e' at he'
  simp at he'

/-- A step that takes no arm of the connection leaves its handshakes as they are. -/
theorem step_handshaken (heps : s.Epochs) (hs : s.OnlyQos2ReleasedOn k)
    (harm : ∀ a, e ≠ .arm k a) : Handshaken k s e := by
  intro s' c' hstep hc'
  cases hc : s.conns.get k with
  | none => exact ⟨by simp, (step_opened hc hc' hstep).onlyQos2Released hc'⟩
  | some c =>
    have hsame := (step_sameMessages heps hc hc' hstep harm).inflight
    rw [hsame]
    refine ⟨?_, hs c hc⟩
    intro c1 id entry hc1 hent
    obtain rfl : c = c1 := some.inj hc1
    exact .inl ⟨entry, hent, rfl⟩

theorem handshaken_arm_iff {a : Arm} {t : Task} (hc : s.conns.get k = some c) (hep : t.epoch = k)
    (hstep : s.step (.arm k a) = some (s.ofTask t)) :
    Handshaken k s (.arm k a) ↔ (s.task k c).Handshaken a t := by
  have hget : (s.ofTask t).conns.get k = some t.conn := by
    rw [ofTask, hep, get_insert_self]
  constructor
  · intro h
    obtain ⟨hrem, honly⟩ := h _ _ hstep hget
    refine ⟨?_, honly⟩
    intro id entry hent
    refine (hrem c id entry hc hent).imp_right ?_
    rintro ⟨a', ha', hdue⟩
    cases ha'
    exact hdue
  · rintro ⟨hrem, honly⟩ s' c' hstep' hc'
    obtain rfl : s.ofTask t = s' := some.inj (hstep.symm.trans hstep')
    obtain rfl : t.conn = c' := some.inj (hget.symm.trans hc')
    refine ⟨?_, honly⟩
    intro c1 id entry hc1 hent
    obtain rfl : c = c1 := some.inj (hc.symm.trans hc1)
    exact (hrem id entry hent).imp_right (fun hdue => ⟨a, rfl, hdue⟩)

/-- A step completes the handshakes that its acknowledgement belongs to exactly if that is of the
    kind that the handshake waits for. -/
theorem step_handshaken_iff (heps : s.Epochs) (hs : s.OnlyQos2ReleasedOn k)
    (hstep : s.step e = some s') : Handshaken k s e ↔ s.properAck k e = true := by
  by_cases harm : ∃ a, e = .arm k a
  · obtain ⟨a, rfl⟩ := harm
    obtain ⟨c, r, t, hc, -, hrun, hep, rfl⟩ := step_arm hstep
    rw [handshaken_arm_iff hc hep hstep, arm_handshaken_iff hrun (hs c hc)]
    simp [properAck, hc]
  · have hne : ∀ a, e ≠ .arm k a := fun a h => harm ⟨a, h⟩
    exact iff_of_true (step_handshaken heps hs hne) (properAck_of_ne hne)

/-- **Acknowledgements only complete the handshakes that they belong to exactly if every one of them
    is of the kind that its handshake waits for**: PUBACK for QoS 1, PUBREC for QoS 2, and PUBCOMP
    for QoS 2 after PUBREC. -/
theorem acknowledged_properly_iff {config : Settings} {now : Instant} {s₀ : Sys} {es : List Event}
    (h₀ : init config now = some s₀) (hrun : s₀.run es = some s) (k : Nat) :
    s₀.Meets (Handshaken k) es ↔ s₀.Meets (fun s e => s.properAck k e = true) es := by
  rw [meets_iff, meets_iff]
  refine Runs.meets_congr (I := fun s => s.Epochs ∧ s.OnlyQos2ReleasedOn k) ?_ ?_ ?_ hrun
  · intro s s' e hs hC hstep
    exact ⟨step_epochs hstep hs.1, fun c' hc' => (hC s' c' hstep hc').2⟩
  · intro s s' e hs hstep
    exact step_handshaken_iff hs.1 hs.2 hstep
  · refine ⟨epochs_init h₀, ?_⟩
    intro c hc
    simp [init_conns h₀] at hc

/-- The client answers a message of QoS 2 with PUBREC and PUBCOMP, and its handshake is over. -/
theorem acknowledged_properly_iff_completed :
    let es := inflightRun ++ sends 1 (.pubrec 1) ++ sends 1 (.pubcomp 1)
    ∃ s₀ s, init {} 0 = some s₀ ∧ s₀.run es = some s ∧ s.handshake 1 1 = none ∧
      s₀.Meets (Handshaken 1) es := by
  intro es
  obtain ⟨s₀, s, h₀, hrun, hmeets, hdone⟩ := exists_run_meets
    (C := fun s e => s.properAck 1 e = true) (fun s e => s.properAck 1 e) (fun _ _ h => h) {} 0 es
    (fun s => s.handshake 1 1 = none) (by decide +kernel)
  exact ⟨s₀, s, h₀, hrun, of_decide_eq_true hdone, (acknowledged_properly_iff h₀ hrun 1).2 hmeets⟩

/-- **A PUBACK completes the handshake of a message of QoS 2** that the client has never answered
    with PUBREC. -/
theorem puback_completes_qos2 : ∃ s s' entry, Reachable s ∧ s.step (.arm 1 .inbound) = some s' ∧
    s.handshake 1 1 = some entry ∧ entry.qos = .exactlyOnce ∧ entry.stage = .waitFirstAck ∧
    s'.handshake 1 1 = none ∧ ¬ Handshaken 1 s (.arm 1 .inbound) := by
  obtain ⟨s, s', hreach, hstep, hp⟩ := exists_step {} 0
    (inflightRun ++ [.receive 1 (Packet.puback 1).frame]) (.arm 1 .inbound)
    (fun s s' => (s.handshake 1 1).any (fun entry => entry.qos = .exactlyOnce &&
        entry.stage = .waitFirstAck) &&
      (s'.conns.get 1).any (fun c => c.inflight.get 1 = none)) (by decide +kernel)
  simp only [Bool.and_eq_true, any_eq_true, decide_eq_true_eq] at hp
  obtain ⟨⟨entry, hentry, hqos, hstage⟩, c', hc', hnone⟩ := hp
  refine ⟨s, s', entry, hreach, hstep, hentry, hqos, hstage, by simp [handshake, hc', hnone], ?_⟩
  intro h
  obtain ⟨c, hc, hget⟩ := bind_eq_some_iff.1 hentry
  rcases (h s' c' hstep hc').1 c 1 entry hc hget with ⟨e', he', -⟩ | ⟨a, ha, hdue⟩
  · simp [hnone] at he'
  · cases ha
    rcases hdue with ⟨hqos', -⟩ | ⟨-, hstage', -⟩ | ⟨harm, -⟩
    · simp [hqos] at hqos'
    · simp [hstage] at hstage'
    · simp at harm

end Sys

end LumenMQ
