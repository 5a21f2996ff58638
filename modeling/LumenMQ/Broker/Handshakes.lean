import LumenMQ.Broker.ConnectionMoves

set_option autoImplicit false

/-! # Handshakes

What the moves of a connection do to the handshakes that it is in, told for one packet identifier at
a time: a message is stored under an identifier that is free, the client acknowledges it in one or
two steps, or it is sent again until it has been sent too often. An arm of the main loop that ends
handshakes begins none. -/

namespace LumenMQ

open Relation (ReflTransGen)
open Process

/-! ## The table -/

/-- The table of a connection: no longer than allowed, under identifiers that MQTT allows, and of
    messages above QoS 0 only. -/
structure OutboundInflightTable.Sound (maxInflight : Nat) (table : OutboundInflightTable) :
    Prop where
  length_le : table.entries.length ≤ maxInflight
  key : ∀ id e, table.get id = some e → 1 ≤ id.toNat ∧ id.toNat ≤ 65535
  qos : ∀ id e, table.get id = some e → e.qos = .atLeastOnce ∨ e.qos = .exactlyOnce

theorem OutboundInflightTable.sound_empty (maxInflight : Nat) : Sound maxInflight ∅ :=
  ⟨Nat.zero_le _, by simp, by simp⟩

theorem one_le_toNat_of_ne_zero {id : UInt16} (h : id ≠ 0) : 1 ≤ id.toNat := by
  rw [Nat.one_le_iff_ne_zero]
  intro hzero
  exact h (UInt16.toNat_inj.1 hzero)

/-- A PUBLISH is sent on a connection, or should have been. -/
def Effect.Sends (k : Nat) (p : Publish) (x : Effect) : Prop :=
  x = .wrote k (.publish p) ∨ ∃ error, x = .sendFailed k (.publish p) error

/-- A PUBLISH with the identifier is sent on a connection, or should have been. -/
def Effect.Publishes (k : Nat) (id : UInt16) (x : Effect) : Prop :=
  ∃ p : Publish, p.packetId = some id ∧ x.Sends k p

/-- A PUBLISH carries an identifier exactly if its QoS is above 0. -/
def Effect.Numbered (x : Effect) : Prop :=
  ∀ k p, x.Sends k p → (p.packetId.isSome = true ↔ p.qos ≠ .atMostOnce)

namespace Task

variable {S : Scope} {t t' : Task} {id : UInt16}
variable {x : Option OutboundInflight} {a : Arm} {r : Except BrokerError Unit}
  {e : OutboundInflight} {packet : Packet}

/-- The entry has been sent as often as the settings allow, and is overdue again. -/
def exhausted (t : Task) (e : OutboundInflight) : Bool :=
  OutboundInflightTable.isFailed t.broker.now
    (Duration.fromSecs (t.broker.config.broker.retryIntervalSecs.getD 10))
    (t.broker.config.broker.maxRetries.getD 3) e

/-- What a move may make of the handshake with an identifier. -/
inductive Turn (S : Scope) (t : Task) (id : UInt16) : Option OutboundInflight → Prop
  | same : Turn S t id (t.conn.inflight.get id)
  | stored (source : Source) (req : OutboundPublish) (hsource : S.takesUp source)
      (hqos : req.qos ≠ .atMostOnce) (hid : id ≠ 0) (hfree : t.conn.inflight.get id = none) :
      Turn S t id (some (.new req.topic req.payload req.qos req.retain t.broker.now))
  | released (e : OutboundInflight) (he : t.conn.inflight.get id = some e)
      (htakes : S.takes (.pubrec id)) :
      Turn S t id (some { e with stage := .waitPubcomp, lastSentAt := t.broker.now })
  | acknowledged (e : OutboundInflight) (he : t.conn.inflight.get id = some e)
      (htakes : S.takes (.puback id)) : Turn S t id none
  | completed (e : OutboundInflight) (he : t.conn.inflight.get id = some e)
      (htakes : S.takes (.pubcomp id)) : Turn S t id none
  | resent (e : OutboundInflight) (he : t.conn.inflight.get id = some e) (hretries : S.retries) :
      Turn S t id (some (OutboundInflightTable.resend t.broker.now e))
  | givenUp (e : OutboundInflight) (he : t.conn.inflight.get id = some e) (hretries : S.retries)
      (hexhausted : t.exhausted e = true) : Turn S t id none

theorem Turn.unchanged (h : x = t.conn.inflight.get id) : Turn S t id x :=
  h ▸ .same

theorem buildOutboundPacket_turn (t t1 : Task) (source : Source) (hsrc : S.takesUp source)
    (req : OutboundPublish) (hinf : t1.conn.inflight = t.conn.inflight)
    (hnow : t1.broker.now = t.broker.now) (id : UInt16) :
    Turn S t id ((t1.buildOutboundPacket req).2.conn.inflight.get id) := by
  have hbuild := t1.buildOutboundPacket_builds req
  generalize t1.buildOutboundPacket req = built at hbuild ⊢
  cases hbuild with
  | plain | refused =>
    exact .unchanged (congrArg (fun table => FinMap.get table id) hinf)
  | stored hqos pid next hpid hroom hfree =>
    rw [store_get]
    by_cases hid : id = pid
    · rw [if_pos hid]
      subst hid
      show Turn S t id (some (.new req.topic req.payload req.qos req.retain t1.broker.now))
      rw [hnow]
      exact .stored source req hsrc hqos hpid (hinf ▸ hfree)
    · rw [if_neg hid]
      exact .unchanged (congrArg (fun table => FinMap.get table id) hinf)

theorem get_puback (t : Task) (id id' : UInt16) :
    (t.puback id).conn.inflight.get id' =
      if id' = id then none else t.conn.inflight.get id' := by
  unfold puback
  cases hget : t.conn.inflight.get id with
  | some e =>
    simp only [removeInflight, onConn, noteAck_conn]
    exact FinMap.get_erase ..
  | none =>
    by_cases hid : id' = id
    · rw [if_pos hid, hid]
      exact hget
    · rw [if_neg hid]

theorem get_pubrec (t : Task) (id id' : UInt16) :
    (t.pubrec id).conn.inflight.get id' =
      (t.conn.inflight.get id').map (fun e =>
        if id' = id then { e with stage := .waitPubcomp, lastSentAt := t.broker.now } else e) := by
  unfold pubrec
  cases hget : t.conn.inflight.get id with
  | some e =>
    have hnow : (t.noteAck e).broker.now = t.broker.now := by
      unfold noteAck
      split <;> rfl
    simp only [awaitPubcomp, onConn, noteAck_conn, hnow, FinMap.get_insert]
    by_cases hid : id' = id
    · simp [hid, hget]
    · simp [hid]
  | none =>
    by_cases hid : id' = id
    · simp [hid, hget]
    · simp [hid]

theorem get_retry_eq (t : Task) (id : UInt16) :
    t.retry.conn.inflight.get id =
      (t.conn.inflight.get id).bind (fun e =>
        if t.exhausted e then none
        else some (if OutboundInflightTable.isResent t.broker.now
            (Duration.fromSecs (t.broker.config.broker.retryIntervalSecs.getD 10))
            (t.broker.config.broker.maxRetries.getD 3) e then
          OutboundInflightTable.resend t.broker.now e else e)) :=
  OutboundInflightTable.get_retryExpired ..

/-- **What a move does to a handshake.** -/
theorem Move.turn (h : t.Move S t') (id : UInt16) : Turn S t id (t'.conn.inflight.get id) := by
  cases h with
  | live ch req rest hch hbuf hsrc =>
    exact buildOutboundPacket_turn t (t.takeChannel ch req rest) .live hsrc req rfl rfl id
  | replay msg rest hrep hsrc =>
    exact buildOutboundPacket_turn t (t.takeReplay msg rest) .replay hsrc msg rfl rfl id
  | retained msg subQos topic hmsg hsrc =>
    exact buildOutboundPacket_turn t (t.takeRetained _) .retained hsrc _ rfl rfl id
  | puback id1 htake =>
    rw [get_puback]
    by_cases hid : id = id1
    · rw [if_pos hid]
      subst hid
      cases hget : t.conn.inflight.get id with
      | none => exact .unchanged hget.symm
      | some e => exact .acknowledged e hget htake
    · rw [if_neg hid]
      exact .same
  | pubrec id1 htake =>
    rw [get_pubrec]
    cases hget : t.conn.inflight.get id with
    | none => exact .unchanged hget.symm
    | some e =>
      rw [Option.map_some]
      by_cases hid : id = id1
      · rw [if_pos hid]
        subst hid
        exact .released e hget htake
      · rw [if_neg hid]
        exact .unchanged hget.symm
  | pubcomp id1 hcomp htake =>
    show Turn S t id (FinMap.get (t.conn.inflight.erase id1) id)
    rw [FinMap.get_erase]
    by_cases hid : id = id1
    · rw [if_pos hid]
      subst hid
      cases hget : t.conn.inflight.get id with
      | none => exact .unchanged hget.symm
      | some e => exact .completed e hget htake
    · rw [if_neg hid]
      exact .same
  | retry hret =>
    rw [get_retry_eq]
    cases hget : t.conn.inflight.get id with
    | none => exact .unchanged hget.symm
    | some e =>
      rw [Option.bind_some]
      split_ifs with hexh
      · exact .givenUp e hget hret hexh
      · exact .resent e hget hret
      · exact .unchanged hget.symm
  | books c hsame => exact .unchanged (congrArg (fun table => FinMap.get table id) hsame.inflight)
  | broker | write | fail | receipt | release | leave => exact .same

/-! ## Soundness of the table -/

theorem buildOutboundPacket_length_le (t : Task) (req : OutboundPublish)
    (h : t.conn.inflight.entries.length ≤ t.broker.config.broker.maxInflight) :
    (t.buildOutboundPacket req).2.conn.inflight.entries.length ≤
      t.broker.config.broker.maxInflight := by
  have hbuild := t.buildOutboundPacket_builds req
  generalize t.buildOutboundPacket req = built at hbuild ⊢
  cases hbuild with
  | plain | refused => exact h
  | stored hqos pid next hpid hroom hfree =>
    exact (FinMap.length_insert_le ..).trans (Nat.succ_le_of_lt hroom)

theorem Move.length_le (h : t.Move S t')
    (hle : t.conn.inflight.entries.length ≤ t.broker.config.broker.maxInflight) :
    t'.conn.inflight.entries.length ≤ t.broker.config.broker.maxInflight := by
  -- a move that builds nothing leaves no identifier in use that was not before
  have hks : (∀ id, (t'.conn.inflight.get id).isSome = true →
      (t.conn.inflight.get id).isSome = true) →
      t'.conn.inflight.entries.length ≤ t.broker.config.broker.maxInflight :=
    fun h => (FinMap.length_le_of_isSome h).trans hle
  cases h with
  | live ch req rest => exact buildOutboundPacket_length_le _ req hle
  | replay msg rest => exact buildOutboundPacket_length_le _ msg hle
  | retained msg subQos => exact buildOutboundPacket_length_le _ _ hle
  | puback id =>
    refine hks (fun id' hsome => ?_)
    rw [get_puback] at hsome
    split_ifs at hsome
    · simp at hsome
    · exact hsome
  | pubrec id =>
    refine hks (fun id' hsome => ?_)
    rwa [get_pubrec, Option.isSome_map] at hsome
  | pubcomp id =>
    refine hks (fun id' hsome => ?_)
    change (FinMap.get (t.conn.inflight.erase id) id').isSome = true at hsome
    rw [FinMap.get_erase] at hsome
    split_ifs at hsome
    · simp at hsome
    · exact hsome
  | retry =>
    refine hks (fun id' hsome => ?_)
    rw [get_retry_eq] at hsome
    cases hget : t.conn.inflight.get id' with
    | none => simp [hget] at hsome
    | some e => rfl
  | books c hsame => exact hsame.inflight ▸ hle
  | broker | write | fail | receipt | release | leave => exact hle

theorem Turn.sound {e' : OutboundInflight} {max : Nat} (h : Turn S t id (some e'))
    (ht : t.conn.inflight.Sound max) :
    (1 ≤ id.toNat ∧ id.toNat ≤ 65535) ∧ (e'.qos = .atLeastOnce ∨ e'.qos = .exactlyOnce) := by
  generalize hsome : some e' = entry at h
  cases h with
  | same => exact ⟨ht.key id e' hsome.symm, ht.qos id e' hsome.symm⟩
  | stored source req hsrc hqos hid hfree =>
    refine ⟨⟨one_le_toNat_of_ne_zero hid, Nat.le_of_lt_succ id.toNat_lt⟩, ?_⟩
    rw [Option.some.inj hsome]
    show req.qos = .atLeastOnce ∨ req.qos = .exactlyOnce
    cases hq : req.qos with
    | atMostOnce => exact absurd hq hqos
    | atLeastOnce => exact .inl rfl
    | exactlyOnce => exact .inr rfl
  | released e he | resent e he =>
    rw [Option.some.inj hsome]
    exact ⟨ht.key id e he, ht.qos id e he⟩
  | acknowledged | completed | givenUp => simp at hsome

/-- **Every move keeps the table sound.** -/
theorem Move.sound (h : t.Move S t')
    (ht : t.conn.inflight.Sound t.broker.config.broker.maxInflight) :
    t'.conn.inflight.Sound t'.broker.config.broker.maxInflight := by
  rw [h.config_eq]
  refine ⟨h.length_le ht.length_le, ?_, ?_⟩
  · intro id e' he'
    exact ((he' ▸ h.turn id).sound ht).1
  · intro id e' he'
    exact ((he' ▸ h.turn id).sound ht).2

/-! ## Identifiers of what is sent -/

/-- What is sent was there to be written. -/
theorem Adds.writable {x : Effect} {k : Nat} {p : Publish} (h : t.Adds S x) (hx : x.Sends k p) :
    t.Writable (.publish p) := by
  rcases hx with rfl | ⟨error, rfl⟩
  · cases h with
    | broker _ h => cases h
    | wrote _ hw => exact hw
  · cases h with
    | broker _ h => cases h
    | sendFailed _ _ hw => exact hw

theorem Adds.numbered {x : Effect} {max : Nat} (h : t.Adds S x) (ht : t.conn.inflight.Sound max) :
    x.Numbered := by
  intro k p hx
  rcases h.writable hx p rfl with ⟨source, req, -, hqos, hpkt⟩ | ⟨id, e, dup, hget, hpkt⟩
  · cases hpkt
    simp [hqos]
  · unfold OutboundInflight.buildPacket at hpkt
    split at hpkt
    · cases hpkt
      rcases ht.qos id e hget with hqos | hqos <;> simp [hqos]
    · simp at hpkt

/-- What `build_outbound_packet` owes: the messages in flight keep their identifiers, a message gets
    an identifier exactly if its QoS is above 0, and one that is free, and one of QoS 0 is not
    refused. -/
structure BuildsApart (t : Task) (req : OutboundPublish) : Prop where
  kept : ∀ id e, t.conn.inflight.get id = some e →
    (t.buildOutboundPacket req).2.conn.inflight.get id = some e
  numbered : ∀ packet, (t.buildOutboundPacket req).1 = some packet →
    ∃ packetId, packet = buildPublish req packetId ∧
      (packetId.isSome = true ↔ req.qos ≠ .atMostOnce) ∧
      ∀ id, packetId = some id → 1 ≤ id.toNat ∧ t.conn.inflight.get id = none ∧
        (t.buildOutboundPacket req).2.conn.inflight.get id =
          some (.new req.topic req.payload req.qos req.retain t.broker.now)
  accepted : req.qos = .atMostOnce → (t.buildOutboundPacket req).1.isSome = true

theorem buildsApart (t : Task) (req : OutboundPublish) : t.BuildsApart req := by
  have hbuild := t.buildOutboundPacket_builds req
  generalize hbuilt : t.buildOutboundPacket req = built at hbuild
  cases hbuild with
  | plain hqos =>
    refine ⟨?_, ?_, ?_⟩ <;> rw [hbuilt]
    · exact fun id e he => he
    · intro packet hpkt
      exact ⟨none, (Option.some.inj hpkt).symm, by simp [hqos], by simp⟩
    · exact fun _ => rfl
  | refused hqos next =>
    refine ⟨?_, ?_, ?_⟩ <;> rw [hbuilt]
    · exact fun id e he => he
    · simp
    · exact fun h => absurd h hqos
  | stored hqos pid next hpid hroom hfree =>
    refine ⟨?_, ?_, ?_⟩ <;> rw [hbuilt]
    · intro id e he
      rw [store_get, if_neg ?_]
      · exact he
      · rintro rfl
        simp [hfree] at he
    · intro packet hpkt
      refine ⟨some pid, (Option.some.inj hpkt).symm, by simp [hqos], ?_⟩
      intro id hid
      obtain rfl : pid = id := Option.some.inj hid
      exact ⟨one_le_toNat_of_ne_zero hpid, hfree, by rw [store_get, if_pos rfl]; rfl⟩
    · exact fun _ => rfl

/-! ## Arms -/

/-- The packet that an arm takes. -/
def packetOf (t : Task) : Arm → Option Packet
  | .inbound | .streamEnd => t.nextInbound
  | _ => none

/-- What an arm may do at `t`: it takes the packet at the front of the bytes received, or a message
    from the channel, or looks at what is overdue. -/
def armScope (t : Task) (a : Arm) : Scope where
  takes := fun packet => t.packetOf a = some packet
  takesUp := fun
    | .live => a = .outbound
    | .replay => False
    | .retained => ∃ s, t.packetOf a = some (.subscribe s)
  retries := a = .retry

theorem permits_armScope (t : Task) (a : Arm) : Permits (t.armScope a) t a := by
  refine ⟨?_, id, id⟩
  intro ha packet hnext
  have hpkt : t.packetOf a = some packet := by
    rcases ha with rfl | rfl <;> exact hnext
  refine ⟨hpkt, fun _ _ _ => trivial, fun _ _ _ _ _ => trivial, fun _ _ => trivial, ?_,
    fun _ _ => trivial, fun _ _ => trivial⟩
  rintro s rfl
  exact ⟨s, hpkt⟩

theorem arm_moves (h : a.run t = some (r, t')) : Moves (t.armScope a) t t' :=
  wp_arm a (permits_armScope t a) r t' h

/-- What may begin a handshake and what may end the one with `id` do not come together. -/
def Apart (S : Scope) (id : UInt16) : Prop :=
  (∀ source, ¬ S.takesUp source) ∨
    ¬ S.takes (.puback id) ∧ ¬ S.takes (.pubcomp id) ∧ ¬ S.retries

/-- **An arm that ends handshakes begins none.** -/
theorem armScope_apart (t : Task) (a : Arm) (id : UInt16) : Apart (t.armScope a) id := by
  by_cases hup : ∃ source, (t.armScope a).takesUp source
  · obtain ⟨source, hsrc⟩ := hup
    right
    cases source with
    | live =>
      have ha : a = .outbound := hsrc
      subst ha
      simp [armScope, packetOf]
    | replay => exact hsrc.elim
    | retained =>
      obtain ⟨s, hs⟩ := hsrc
      refine ⟨?_, ?_, ?_⟩
      · intro h
        simpa using hs.symm.trans h
      · intro h
        simpa using hs.symm.trans h
      · intro h
        have ha : a = .retry := h
        subst ha
        simp [packetOf] at hs
  · exact .inl (fun source h => hup ⟨source, h⟩)

/-! ## Released messages -/

/-- What there is reason to write under an identifier waits for its first acknowledgement. -/
theorem Writable.waitFirstAck {p : Publish} (h : t.Writable (.publish p))
    (hid : p.packetId = some id) :
    ∃ e, t.conn.inflight.get id = some e ∧ e.stage = .waitFirstAck := by
  rcases h p rfl with ⟨source, req, -, -, hpkt⟩ | ⟨id', e, dup, hget, hpkt⟩
  · cases hpkt
    simp at hid
  · unfold OutboundInflight.buildPacket at hpkt
    split at hpkt
    · next hstage =>
      cases hpkt
      rw [Option.some.injEq] at hid
      exact ⟨e, hid ▸ hget, hstage⟩
    · simp at hpkt

/-- The message under the identifier is released, if there is one. -/
def Released (t : Task) (id : UInt16) (msg : OutboundPublish) : Prop :=
  ∀ e, t.conn.inflight.get id = some e → e.stage = .waitPubcomp ∧ e.message = msg

theorem Adds.not_publishes {x : Effect} {msg : OutboundPublish} (h : t.Adds S x)
    (ht : t.Released id msg) : ¬ x.Publishes t.epoch id := by
  rintro ⟨p, hid, hx⟩
  obtain ⟨e, hget, hstage⟩ := (h.writable hx).waitFirstAck hid
  rw [(ht e hget).1] at hstage
  simp at hstage

/-- A released message stays released, until its handshake is over. -/
theorem Turn.stays_released {msg : OutboundPublish} (h : Turn S t id x) (ht : t.Released id msg)
    (hnone : t.conn.inflight.get id = none → ∀ source, ¬ S.takesUp source) :
    ∀ e, x = some e → e.stage = .waitPubcomp ∧ e.message = msg := by
  cases h with
  | same => exact ht
  | stored source req hsrc hqos hid hfree => exact absurd hsrc (hnone hfree source)
  | released e he htake =>
    intro e' he'
    rw [← Option.some.inj he']
    exact ⟨rfl, (ht e he).2⟩
  | resent e he =>
    intro e' he'
    rw [← Option.some.inj he']
    exact ht e he
  | acknowledged | completed | givenUp => simp

theorem Turn.none_apart (h : Turn S t id x) (hapart : Apart S id)
    (hnone : t.conn.inflight.get id = none → ∀ source, ¬ S.takesUp source) :
    x = none → ∀ source, ¬ S.takesUp source := by
  intro hx
  rcases hapart with hup | ⟨hpuback, hpub, hret⟩
  · exact hup
  · cases h with
    | same => exact hnone hx
    | acknowledged e he htake => exact absurd htake hpuback
    | completed e he htake => exact absurd htake hpub
    | givenUp e he hr => exact absurd hr hret
    | stored | released | resent => simp at hx

/-- **A released message is not published again**: as long as handshakes are not begun and ended
    together, a PUBLISH under its identifier is not sent. -/
theorem moves_released (hapart : Apart S id) (h : Moves S t t')
    (he : t.conn.inflight.get id = some e) (hstage : e.stage = .waitPubcomp) :
    t'.Released id e.message ∧
      Extends (fun x => ¬ x.Publishes t.epoch id) t.broker.trace t'.broker.trace := by
  -- once the handshake is over, no message is taken up any more
  suffices hinv : t'.Released id e.message ∧
      Extends (fun x => ¬ x.Publishes t.epoch id) t.broker.trace t'.broker.trace ∧
      (t'.conn.inflight.get id = none → ∀ source, ¬ S.takesUp source) from ⟨hinv.1, hinv.2.1⟩
  induction h with
  | refl =>
    refine ⟨?_, .refl _, ?_⟩
    · intro e' he'
      rw [he, Option.some.injEq] at he'
      exact he' ▸ ⟨hstage, rfl⟩
    · intro hnone
      simp [he] at hnone
  | @tail t1 t2 hmoves hmove ih =>
    obtain ⟨hrel, hext, hnone⟩ := ih
    have hturn := hmove.turn id
    refine ⟨hturn.stays_released hrel hnone, hext.trans (hmove.extends.mono ?_),
      hturn.none_apart hapart hnone⟩
    intro x hx
    rw [← moves_epoch hmoves]
    exact hx.not_publishes hrel

/-! ## Acknowledgements -/

/-- The message of the entry is still there. -/
def Remains (e : OutboundInflight) (x : Option OutboundInflight) : Prop :=
  ∃ e', x = some e' ∧ e'.message = e.message

/-- The entry leaves the table for a reason: PUBACK for QoS 1, PUBCOMP after PUBREC for QoS 2, or
    that it has been sent too often. -/
def Due (t : Task) (a : Arm) (id : UInt16) (e : OutboundInflight) : Prop :=
  (e.qos = .atLeastOnce ∧ t.packetOf a = some (.puback id)) ∨
    (e.qos = .exactlyOnce ∧ e.stage = .waitPubcomp ∧ t.packetOf a = some (.pubcomp id)) ∨
    (a = .retry ∧ t.exhausted e = true)

/-- Only messages of QoS 2 are released. -/
def OnlyQos2Released (table : OutboundInflightTable) : Prop :=
  ∀ id e, table.get id = some e → e.stage = .waitPubcomp → e.qos = .exactlyOnce

/-- The acknowledgements that an arm takes are of the kind that their handshake waits for. -/
def properAck (t : Task) (a : Arm) : Bool :=
  match t.packetOf a with
  | some (.puback id) => (t.conn.inflight.get id).all (fun e => e.qos = .atLeastOnce)
  | some (.pubrec id) => (t.conn.inflight.get id).all (fun e => e.qos = .exactlyOnce)
  | some (.pubcomp id) =>
    (t.conn.inflight.get id).all (fun e => e.qos = .exactlyOnce ∧ e.stage = .waitPubcomp)
  | _ => true

/-- Without messages that are taken up, every handshake was there before. -/
theorem moves_message (hup : ∀ source, ¬ S.takesUp source) (h : Moves S t t')
    {e' : OutboundInflight} (he' : t'.conn.inflight.get id = some e') :
    ∃ e, t.conn.inflight.get id = some e ∧ e'.message = e.message := by
  induction h generalizing e' with
  | refl => exact ⟨e', he', rfl⟩
  | @tail t1 t2 _ hmove ih =>
    have hturn := hmove.turn id
    rw [he'] at hturn
    generalize hsome : some e' = x at hturn
    cases hturn with
    | same => exact ih hsome.symm
    | stored source req hsrc => exact absurd hsrc (hup source)
    | released e he | resent e he =>
      obtain ⟨e0, he0, hmsg⟩ := ih he
      exact ⟨e0, he0, by rw [← hmsg, Option.some.inj hsome]; rfl⟩
    | acknowledged | completed | givenUp => simp at hsome

/-- An arm that takes an acknowledgement takes up no message. -/
theorem armScope_takesUp (h : t.packetOf a = some packet) (hsub : ∀ s, packet ≠ .subscribe s)
    (source : Source) : ¬ (t.armScope a).takesUp source := by
  intro hup
  cases source with
  | live =>
    have ha : a = .outbound := hup
    subst ha
    simp [packetOf] at h
  | replay => exact hup
  | retained =>
    obtain ⟨s, hs⟩ := hup
    exact hsub s (Option.some.inj (h.symm.trans hs))

theorem keeps_send_inflight (table : OutboundInflightTable) (packet : Packet) :
    Keeps (fun t => t.conn.inflight = table) (send packet) := by
  refine Keeps.read_bind ?_
  intro t ht
  cases t.sendError packet with
  | none => exact (wp_update ..).2 ht
  | some e =>
    show wp _ _ t
    rw [wp_update_bind]
    exact (wp_fail ..).2 ht

/-- The retry arm leaves of the table what `retry_expired` leaves. -/
theorem retryArm_inflight (h : Arm.retry.run t = some (r, t')) :
    t'.conn.inflight = t.retry.conn.inflight := by
  refine (?_ : wp retryArm (fun _ t' => t'.conn.inflight = t.retry.conn.inflight) t) r t' h
  unfold retryArm
  rw [wp_act_bind]
  refine Keeps.bind (I := fun t' => t'.conn.inflight = t.retry.conn.inflight)
    (Keeps.attempt (Keeps.forEach (fun packet _ => keeps_send_inflight _ packet))) ?_ t.retry rfl
  intro sent
  cases sent with
  | ok _ => exact Keeps.pure ()
  | error _ => exact Keeps.update (fun _ h => h)

/-- A proper acknowledgement that ends a handshake is due. -/
theorem due_of_properAck (hack : t.properAck a = true) (he : t.conn.inflight.get id = some e)
    (hpkt : t.packetOf a = some (.puback id) ∨ t.packetOf a = some (.pubcomp id)) :
    t.Due a id e := by
  unfold properAck at hack
  rcases hpkt with hpkt | hpkt
  · rw [hpkt] at hack
    simp only [he, Option.all_some, decide_eq_true_eq] at hack
    exact .inl ⟨hack, hpkt⟩
  · rw [hpkt] at hack
    simp only [he, Option.all_some, decide_eq_true_eq] at hack
    exact .inr (.inl ⟨hack.1, hack.2, hpkt⟩)

/-- With proper acknowledgements an entry leaves the table only when it is due. -/
theorem arm_remains (hrun : a.run t = some (r, t')) (hack : t.properAck a = true)
    (he : t.conn.inflight.get id = some e) :
    Remains e (t'.conn.inflight.get id) ∨ t.Due a id e := by
  by_cases ha : a = .retry
  · subst ha
    rw [retryArm_inflight hrun, get_retry_eq, he, Option.bind_some]
    split_ifs with hexh
    · exact .inr (.inr (.inr ⟨rfl, hexh⟩))
    · exact .inl ⟨_, rfl, rfl⟩
    · exact .inl ⟨_, rfl, rfl⟩
  · have hmoves := arm_moves hrun
    clear hrun
    induction hmoves with
    | refl => exact .inl ⟨e, he, rfl⟩
    | @tail t1 t2 _ hmove ih =>
      rcases ih with ⟨e1, he1, hmsg⟩ | hdue
      · have hturn := hmove.turn id
        generalize t2.conn.inflight.get id = x at hturn ⊢
        cases hturn with
        | same => exact .inl ⟨e1, he1, hmsg⟩
        | stored source req hsrc hqos hid hfree => simp [he1] at hfree
        | released e2 he2 | resent e2 he2 =>
          rw [he1, Option.some.injEq] at he2
          exact .inl ⟨_, rfl, he2 ▸ hmsg⟩
        | acknowledged e2 he2 htake => exact .inr (due_of_properAck hack he (.inl htake))
        | completed e2 he2 htake => exact .inr (due_of_properAck hack he (.inr htake))
        | givenUp e2 he2 hret => exact absurd hret ha
      · exact .inr hdue

/-- Only messages of QoS 2 are released, as long as a PUBREC is taken for such a message only. -/
theorem moves_onlyQos2Released
    (hrec : ∀ t1 id e, Moves S t t1 → t1.conn.inflight.get id = some e → S.takes (.pubrec id) →
      e.qos = .exactlyOnce)
    (h : Moves S t t') (ht : OnlyQos2Released t.conn.inflight) :
    OnlyQos2Released t'.conn.inflight := by
  induction h with
  | refl => exact ht
  | @tail t1 t2 hmoves hmove ih =>
    intro id e' he' hstage
    have hturn := hmove.turn id
    rw [he'] at hturn
    generalize hsome : some e' = x at hturn
    cases hturn with
    | same => exact ih id e' hsome.symm hstage
    | stored source req =>
      rw [Option.some.inj hsome] at hstage
      simp [OutboundInflight.new] at hstage
    | released e he htake =>
      rw [Option.some.inj hsome]
      exact hrec t1 id e hmoves he htake
    | resent e he =>
      rw [Option.some.inj hsome] at hstage ⊢
      exact ih id e he hstage
    | acknowledged | completed | givenUp => simp at hsome

/-- With proper acknowledgements only messages of QoS 2 are released. -/
theorem arm_onlyQos2Released (hrun : a.run t = some (r, t')) (hack : t.properAck a = true)
    (ht : OnlyQos2Released t.conn.inflight) : OnlyQos2Released t'.conn.inflight := by
  refine moves_onlyQos2Released ?_ (arm_moves hrun) ht
  intro t1 id e hmoves he htake
  have hpkt : t.packetOf a = some (.pubrec id) := htake
  -- the message was in flight before the arm was taken
  obtain ⟨e0, he0, hmsg⟩ := moves_message (armScope_takesUp hpkt (by simp)) hmoves he
  unfold properAck at hack
  rw [hpkt] at hack
  simp only [he0, Option.all_some, decide_eq_true_eq] at hack
  exact (congrArg OutboundPublish.qos hmsg).trans hack

theorem afterPacket_inflight (t : Task) (r : Except BrokerError Control) :
    (t.afterPacket r).conn.inflight = t.conn.inflight := by
  rcases r with _ | _ | _ <;> rfl

/-- An arm that takes a packet handles it. -/
theorem arm_eq (hpkt : t.packetOf a = some packet) : a.run t =
      (handlePacket packet t.received).map (fun result => (.ok (), result.2.afterPacket result.1)) := by
  cases a with
  | inbound => exact inboundArm_eq false hpkt
  | streamEnd => exact inboundArm_eq true hpkt
  | heartbeat | shutdown | outbound | retry => simp [packetOf] at hpkt

/-- What an arm makes of a handshake is what the packet that it takes makes of it. -/
theorem arm_get (hpkt : t.packetOf a = some packet)
    (hhandle : wp (handlePacket packet) (fun _ t' => t'.conn.inflight.get id = x) t.received)
    (hrun : a.run t = some (r, t')) : t'.conn.inflight.get id = x := by
  rw [arm_eq hpkt] at hrun
  obtain ⟨⟨r1, t1⟩, hrun1, heq⟩ := Option.map_eq_some_iff.1 hrun
  cases heq
  rw [afterPacket_inflight]
  exact hhandle r1 t1 hrun1

theorem arm_puback (hpkt : t.packetOf a = some (.puback id)) (hrun : a.run t = some (r, t')) :
    t'.conn.inflight.get id = none := by
  refine arm_get hpkt ?_ hrun
  unfold handlePacket
  rw [wp_update_bind]
  refine (wp_pure ..).2 ?_
  rw [get_puback, if_pos rfl]

theorem arm_pubcomp (hpkt : t.packetOf a = some (.pubcomp id)) (hrun : a.run t = some (r, t')) :
    t'.conn.inflight.get id = none := by
  refine arm_get hpkt ?_ hrun
  unfold handlePacket
  rw [wp_update_bind]
  refine (wp_pure ..).2 ?_
  show FinMap.get (t.conn.inflight.erase id) id = none
  rw [FinMap.get_erase, if_pos rfl]

theorem arm_pubrec (hpkt : t.packetOf a = some (.pubrec id)) (hrun : a.run t = some (r, t')) :
    t'.conn.inflight.get id = (t.conn.inflight.get id).map (fun e =>
      { e with stage := .waitPubcomp, lastSentAt := t.broker.now }) := by
  refine arm_get hpkt ?_ hrun
  unfold handlePacket
  unfold handlePubrec
  rw [wp_bind, wp_bind, wp_update]
  refine wp_mono (keeps_send_inflight _ (.pubrel id) _ rfl) ?_
  intro r t1 ht1
  have hget : t1.conn.inflight.get id = (t.conn.inflight.get id).map (fun e =>
      { e with stage := .waitPubcomp, lastSentAt := t.broker.now }) := by
    rw [ht1, get_pubrec, (sameMessages_received t).inflight]
    simp [received, onConn]
  cases r with
  | ok _ => exact (wp_pure ..).2 hget
  | error _ => exact hget

/-- What acknowledgements should do to the handshakes: an entry leaves the table only when it is
    due, and only messages of QoS 2 are released. -/
def Handshaken (t : Task) (a : Arm) (t' : Task) : Prop :=
  (∀ id e, t.conn.inflight.get id = some e →
    Remains e (t'.conn.inflight.get id) ∨ t.Due a id e) ∧
    OnlyQos2Released t'.conn.inflight

/-- **Acknowledgements complete the handshake that they belong to exactly when they are of the kind
    that it waits for.** -/
theorem arm_handshaken_iff (hrun : a.run t = some (r, t')) (ht : OnlyQos2Released t.conn.inflight) :
    t.Handshaken a t' ↔ t.properAck a = true := by
  constructor
  · rintro ⟨hrem, honly⟩
    -- the handshake of an acknowledgement that ends it does not remain
    have hdue : ∀ id e, t.conn.inflight.get id = some e → t'.conn.inflight.get id = none →
        t.Due a id e := by
      intro id e he hnone
      refine (hrem id e he).resolve_left ?_
      rintro ⟨e', he', -⟩
      simp [hnone] at he'
    unfold properAck
    split
    · next id hpkt =>
      rw [Option.all_eq_true]
      intro e he
      rcases hdue id e he (arm_puback hpkt hrun) with h | h | h
      · simpa using h.1
      · simpa [hpkt] using h.2.2
      · obtain ⟨rfl, -⟩ := h
        simp [packetOf] at hpkt
    · next id hpkt =>
      rw [Option.all_eq_true]
      intro e he
      have hget := arm_pubrec hpkt hrun
      rw [he, Option.map_some] at hget
      simpa using honly id _ hget rfl
    · next id hpkt =>
      rw [Option.all_eq_true]
      intro e he
      rcases hdue id e he (arm_pubcomp hpkt hrun) with h | h | h
      · simpa [hpkt] using h.2
      · simpa using ⟨h.1, h.2.1⟩
      · obtain ⟨rfl, -⟩ := h
        simp [packetOf] at hpkt
    · rfl
  · intro hack
    exact ⟨fun id e he => arm_remains hrun hack he, arm_onlyQos2Released hrun hack ht⟩

end Task

end LumenMQ
