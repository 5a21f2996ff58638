import LumenMQ.Broker.Restart
import LumenMQ.Broker.ConnectionMoves

set_option autoImplicit false

/-! # Where messages come from

Whatever the broker holds for a subscriber, in a channel, a queue, a table of handshakes, among the
retained messages or on disk, and whatever it has written to one, has the topic and the payload of a
publication that was routed before, and no higher QoS. -/

namespace LumenMQ

open Option List SessionManager Storage

variable {msg : OutboundPublish} {e : Effect}

/-! ## What is held -/

/-- The message of a PUBLISH packet. -/
def Publish.message (p : Publish) : OutboundPublish :=
  { topic := p.topic, payload := p.payload, qos := p.qos, retain := p.retain }

/-- A retained message as it would go out at its own QoS. -/
def RetainedMessage.message (m : RetainedMessage) : OutboundPublish :=
  { topic := m.topic, payload := m.payload, qos := m.qos, retain := true }

/-- The message an effect is about. -/
def Effect.message : Effect → Option OutboundPublish
  | .accepted _ m | .discarded _ m _ | .acknowledged _ m | .taken _ _ m => some m
  | .wrote _ (.publish p) | .sendFailed _ (.publish p) _ => some p.message
  | _ => none

/-- A publication with the content of the message, and at least its QoS, was routed. -/
def Sourced (trace : List Effect) (m : OutboundPublish) : Prop :=
  ∃ r, .routed r ∈ trace ∧ r.topic = m.topic ∧ r.payload = m.payload ∧ m.qos ≤ r.qos

theorem Sourced.mono {trace trace' : List Effect} {m : OutboundPublish} (h : Sourced trace m)
    (hsub : trace <:+ trace') : Sourced trace' m := by
  obtain ⟨r, hr, hm⟩ := h
  exact ⟨r, hsub.subset hr, hm⟩

/-- The same content at a lower QoS. -/
theorem Sourced.lower {trace : List Effect} {m m' : OutboundPublish} (h : Sourced trace m)
    (htop : m'.topic = m.topic) (hpayload : m'.payload = m.payload) (hqos : m'.qos ≤ m.qos) :
    Sourced trace m' := by
  obtain ⟨r, hr, ht, hp, hq⟩ := h
  exact ⟨r, hr, ht.trans htop.symm, hp.trans hpayload.symm, hqos.trans hq⟩

/-- A message in a channel or in the queue of a session. -/
inductive SessionManager.Holds (sm : SessionManager) (m : OutboundPublish) : Prop
  | channel (k : Nat) (ch : Channel) (hch : sm.channels.get k = some ch) (hm : m ∈ ch.buffer)
  | queue (c : String) (e : SessionEntry) (q : OfflineQueue) (hget : sm.get c = some e)
      (hq : e.offlineQueue = some q) (hm : m ∈ q.inner.map OfflineMessage.payload)

/-- A message on disk. -/
inductive Storage.Holds (s : Storage) : OutboundPublish → Prop
  | retained (key : Bytes) (msg : RetainedMessage) (h : (key, some msg) ∈ s.retained.entries) :
      Holds s msg.message
  | offline (key : Bytes) (m : OutboundPublish) (h : (key, some m) ∈ s.offline.entries) : Holds s m

/-- A message in the shared state, or one the trace tells of. -/
inductive BrokerState.Holds (b : BrokerState) : OutboundPublish → Prop
  | sessions (m : OutboundPublish) (h : b.sessions.Holds m) : Holds b m
  | retained (topic : String) (msg : RetainedMessage) (h : b.retain.map.get topic = some msg) :
      Holds b msg.message
  | disk (s : Storage) (m : OutboundPublish) (hs : b.storage = some s) (h : s.Holds m) : Holds b m
  | trace (e : Effect) (m : OutboundPublish) (he : e ∈ b.trace) (hm : e.message = some m) : Holds b m

/-- A message of a connection's own. -/
inductive Conn.Holds (c : Conn) : OutboundPublish → Prop
  | replay (m : OutboundPublish) (h : m ∈ c.replay) : Holds c m
  | inflight (id : UInt16) (e : OutboundInflight) (h : c.inflight.get id = some e) :
      Holds c e.message

/-! ## The shared state -/

namespace SessionManager

variable {sm : SessionManager} {m : OutboundPublish} {now : Instant} {c : String}

theorem Holds.of_queue_eq {sm' : SessionManager} (h : sm'.Holds m)
    (hchannels : sm'.channels = sm.channels) (hget : ∀ c e', sm'.get c = some e' →
      ∃ e, sm.get c = some e ∧ e'.offlineQueue = e.offlineQueue) : sm.Holds m := by
  rcases h with ⟨k, ch, hch, hm⟩ | ⟨c, e', q, he', hq, hm⟩
  · exact .channel k ch (hchannels ▸ hch) hm
  · obtain ⟨e, he, hsame⟩ := hget c e' he'
    exact .queue c e q he (hsame ▸ hq) hm

theorem holds_markOffline {epoch : Nat} (h : (sm.markOffline now c epoch).Holds m) :
    sm.Holds m := by
  refine h.of_queue_eq (markOffline_channels ..) ?_
  intro c' e' he'
  rw [markOffline_get] at he'
  obtain ⟨e, he, rfl⟩ := map_eq_some_iff.1 he'
  refine ⟨e, he, ?_⟩
  split_ifs <;> rfl

theorem holds_takeWill {epoch : Nat} (h : (sm.takeWill c epoch).2.Holds m) : sm.Holds m := by
  unfold takeWill at h
  split at h
  · next e he =>
    split_ifs at h with hown
    · refine h.of_queue_eq rfl ?_
      intro c' e' he'
      rw [get_put] at he'
      split_ifs at he' with hc
      · exact ⟨e, hc ▸ he, by rw [← some.inj he']⟩
      · exact ⟨e', he', rfl⟩
    · exact h
  · exact h

theorem holds_remove (h : (sm.remove c).2.Holds m) : sm.Holds m := by
  refine h.of_queue_eq (remove_channels ..) ?_
  intro c' e' he'
  rw [get_remove] at he'
  split_ifs at he'
  exact ⟨e', he', rfl⟩

/-- A new session holds nothing. -/
theorem holds_register {clean : Bool} {tx : Nat} {will : Option WillMessage} {level : UInt8}
    {peer : SocketAddr} {expiry : Option UInt32}
    (h : (sm.register now c clean tx will level peer expiry).sessions.Holds m) : sm.Holds m := by
  rcases h with ⟨k, ch, hch, hm⟩ | ⟨c', e, q, hget, hq, hm⟩
  · exact .channel k ch hch hm
  · rw [register_get] at hget
    split_ifs at hget with hc
    · rw [← some.inj hget] at hq
      unfold newEntry at hq
      dsimp only at hq
      split_ifs at hq
      simp [← some.inj hq] at hm
    · exact .queue c' e q hget hq hm

/-- A delivery adds the message it delivers, and no other. -/
theorem Delivers.holds {d : Delivery} (hd : sm.Delivers now c msg d)
    (h : d.sessions.Holds m ∨ m ∈ d.discarded) : sm.Holds m ∨ m = msg := by
  cases hd with
  | noSession hget => exact .inl (h.resolve_right List.not_mem_nil)
  | lost e outcome hget hq hlost => exact .inl (h.resolve_right List.not_mem_nil)
  | sent e ch hget hconn hch hroom =>
    replace h := h.resolve_right List.not_mem_nil
    rcases h with ⟨k, ch', hch', hm⟩ | ⟨c', e', q, he', hq, hm⟩
    · rcases FinMap.get_insert_cases hch' with ⟨-, rfl⟩ | ⟨-, hch'⟩
      · rw [List.mem_append, List.mem_singleton] at hm
        exact hm.imp_left (fun hm => .channel e.tx ch hch hm)
      · exact .inl (.channel k ch' hch' hm)
    · exact .inl (.queue c' e' q he' hq hm)
  | enqueued e q q' out hget hq henq =>
    have happend := OfflineQueue.enqueue_append henq
    have hmem : ∀ om, om ∈ out ∨ om ∈ q'.inner → om ∈ q.inner ∨ om = ⟨msg, now⟩ := by
      intro om hom
      rw [← List.mem_append, happend, List.mem_append, List.mem_singleton] at hom
      exact hom
    have hold : ∀ om, om ∈ out ∨ om ∈ q'.inner → om.payload = m → sm.Holds m ∨ m = msg := by
      rintro om hom rfl
      rcases hmem om hom with hom | rfl
      · exact .inl (.queue c e q hget hq (List.mem_map_of_mem hom))
      · exact .inr rfl
    rcases h with (⟨k, ch, hch, hm⟩ | ⟨c', e', q1, he', hq1, hm⟩) | hm
    · exact .inl (.channel k ch hch hm)
    · rw [get_put] at he'
      split_ifs at he' with hc
      · rw [← Option.some.inj he'] at hq1
        rw [← Option.some.inj hq1, List.mem_map] at hm
        obtain ⟨om, hom, hpay⟩ := hm
        exact hold om (.inr hom) hpay
      · exact .inl (.queue c' e' q1 he' hq1 hm)
    · obtain ⟨om, hom, hpay⟩ := List.mem_map.1 hm
      exact hold om (.inl hom) hpay

end SessionManager

namespace Storage

variable {s : Storage} {c : String} {m : OutboundPublish}

theorem holds_drainOffline (h : (s.drainOffline c).2.Holds m) : s.Holds m := by
  rcases h with ⟨key, msg, h⟩ | ⟨key, _, h⟩
  · exact .retained key msg h
  · exact .offline key m (OrderedMap.mem_filter.1 h).1

theorem holds_of_mem_drainOffline (h : m ∈ (s.drainOffline c).1) : s.Holds m := by
  obtain ⟨⟨key, msg⟩, hmem, hmsg⟩ := mem_filterMap.1 h
  exact .offline key m (hmsg ▸ (OrderedMap.mem_filter.1 hmem).1)

theorem holds_of_loadFromStorage {r : RetainStore} {topic : String} {msg : RetainedMessage}
    (h : (r.loadFromStorage s).map.get topic = some msg) :
    r.map.get topic = some msg ∨ s.Holds msg.message := by
  have hload : ∀ (msgs : List RetainedMessage) (map : FinMap String RetainedMessage),
      (msgs.foldl (fun map m => map.insert m.topic m) map).get topic = some msg →
        map.get topic = some msg ∨ msg ∈ msgs := by
    intro msgs
    induction msgs with
    | nil => exact fun _ h => .inl h
    | cons m msgs ih =>
      intro map h
      rcases ih _ h with h | h
      · rcases FinMap.get_insert_cases h with ⟨-, rfl⟩ | ⟨-, h⟩
        · exact .inr (mem_cons_self)
        · exact .inl h
      · exact .inr (mem_cons_of_mem _ h)
  refine (hload _ _ h).imp_right (fun h => ?_)
  obtain ⟨⟨key, msg'⟩, hmem, hmsg⟩ := mem_filterMap.1 h
  exact .retained key msg (hmsg ▸ hmem)

theorem holds_pushOffline (h : (s.pushOffline c msg).Holds m) : s.Holds m ∨ m = msg := by
  rcases h with ⟨key, msg', h⟩ | ⟨key, _, h⟩
  · exact .inl (.retained key msg' h)
  · rcases OrderedMap.mem_insert.1 h with heq | ⟨hmem, -⟩
    · simp only [Prod.mk.injEq, some.injEq] at heq
      exact .inr heq.2
    · exact .inl (.offline key m hmem)

/-- The session tree holds no messages. -/
theorem Holds.of_trees_eq {s' : Storage} (h : s'.Holds m) (hret : s'.retained = s.retained)
    (hoff : s'.offline = s.offline) : s.Holds m := by
  rcases h with ⟨key, msg, h⟩ | ⟨key, _, h⟩
  · exact .retained key msg (hret ▸ h)
  · exact .offline key m (hoff ▸ h)

end Storage

namespace BrokerState

variable {c : String} {msgs : List OutboundPublish} {now : Instant}

/-- Everything held comes from a publication that was routed. -/
def Sourced (b : BrokerState) : Prop := ∀ m, b.Holds m → LumenMQ.Sourced b.trace m

variable {S : Scope} {b b' : BrokerState} {m : OutboundPublish}

/-- A change of the sessions, the storage and the trace alone. -/
theorem Holds.of_parts (h : b'.Holds m) (hret : b'.retain = b.retain)
    (hsess : b'.sessions.Holds m → b.Holds m)
    (hdisk : ∀ s', b'.storage = some s' → s'.Holds m → b.Holds m)
    (htrace : ∀ e ∈ b'.trace, e.message = some m → b.Holds m) : b.Holds m := by
  cases h with
  | sessions _ h => exact hsess h
  | retained topic msg h => exact .retained topic msg (hret ▸ h)
  | disk s' _ hs h => exact hdisk s' hs h
  | trace e _ he hm => exact htrace e he hm

/-- A change of what holds no messages. -/
theorem Holds.of_same (h : b'.Holds m) (hret : b'.retain = b.retain)
    (hsess : b'.sessions = b.sessions) (hstore : b'.storage = b.storage)
    (htrace : b'.trace = b.trace) : b.Holds m :=
  h.of_parts hret (fun h => .sessions m (hsess ▸ h))
    (fun s' hs h => .disk s' m (hstore ▸ hs) h) (fun e he hm => .trace e m (htrace ▸ he) hm)

theorem holds_note (h : (b.note e).Holds m) : b.Holds m ∨ e.message = some m := by
  cases h with
  | sessions _ h => exact .inl (.sessions m h)
  | retained topic msg h => exact .inl (.retained topic msg h)
  | disk s _ hs h => exact .inl (.disk s m hs h)
  | trace e' _ he hm =>
    rcases mem_cons.1 he with rfl | he
    · exact .inr hm
    · exact .inl (.trace e' m he hm)

theorem holds_noteDiscarded {limit : Limit} (h : (b.noteDiscarded c limit msgs).Holds m) :
    b.Holds m ∨ m ∈ msgs := by
  cases h with
  | sessions _ h => exact .inl (.sessions m h)
  | retained topic msg h => exact .inl (.retained topic msg h)
  | disk s _ hs h => exact .inl (.disk s m hs h)
  | trace e _ he hm =>
    rcases mem_append.1 he with he | he
    · obtain ⟨msg, hmsg, rfl⟩ := mem_map.1 he
      exact .inr (some.inj hm ▸ hmsg)
    · exact .inl (.trace e m he hm)

/-- What `set` stores is the message it is given. -/
theorem holds_setRetained {topic : String} {payload : Bytes} {qos : QoS}
    (h : (b.setRetained topic payload qos).Holds m) :
    b.Holds m ∨ m = { topic, payload, qos, retain := true } := by
  unfold setRetained RetainStore.set at h
  dsimp only at h
  split_ifs at h with hwild hbig hempty
  · exact .inl (h.of_same rfl rfl rfl rfl)
  · exact .inl (h.of_same rfl rfl rfl rfl)
  · cases h with
    | sessions _ h => exact .inl (.sessions m h)
    | retained t msg h =>
      exact .inl (.retained t msg (FinMap.get_of_erase h))
    | disk s' _ hs' h =>
      obtain ⟨s, hs, rfl⟩ := Option.map_eq_some_iff.1 hs'
      rcases h with ⟨key, msg, h⟩ | ⟨key, _, h⟩
      · exact .inl (.disk s _ hs (.retained key msg (OrderedMap.mem_remove.1 h).1))
      · exact .inl (.disk s m hs (.offline key m h))
    | trace e _ he hm => exact .inl (.trace e m he hm)
  · cases h with
    | sessions _ h => exact .inl (.sessions m h)
    | retained t msg h =>
      rcases FinMap.get_insert_cases h with ⟨-, rfl⟩ | ⟨-, h⟩
      · exact .inr (rfl)
      · exact .inl (.retained t msg h)
    | disk s' _ hs' h =>
      obtain ⟨s, hs, rfl⟩ := Option.map_eq_some_iff.1 hs'
      rcases h with ⟨key, msg, h⟩ | ⟨key, _, h⟩
      · rcases OrderedMap.mem_insert.1 h with heq | ⟨hmem, -⟩
        · simp only [Prod.mk.injEq, Option.some.injEq] at heq
          exact .inr (by rw [heq.2]; rfl)
        · exact .inl (.disk s _ hs (.retained key msg hmem))
      · exact .inl (.disk s m hs (.offline key m h))
    | trace e _ he hm => exact .inl (.trace e m he hm)

/-- A delivery adds the message it delivers, and no other. -/
theorem holds_deliver {req : OutboundPublish} (hd : b.deliver c req = some b') (h : b'.Holds m) :
    b.Holds m ∨ m = req := by
  cases deliver_delivered hd with
  | lost => exact .inl h
  | sent e ch hget hconn hch hroom =>
    cases h with
    | sessions _ h =>
      have hsent : SessionManager.Delivers b.sessions b.now c req _ :=
        .sent e ch hget hconn hch hroom
      exact (hsent.holds (.inl h)).imp_left (.sessions m)
    | retained topic msg h => exact .inl (.retained topic msg h)
    | disk s _ hs h => exact .inl (.disk s m hs h)
    | trace e' _ he hm =>
      rcases mem_cons.1 he with rfl | he
      · exact .inr (some.inj hm).symm
      · exact .inl (.trace e' m he hm)
  | enqueued e q q' out hget hq henq hfull =>
    have hdel := SessionManager.Delivers.enqueued e q q' out hget hq henq hfull
    cases h with
    | sessions _ h => exact (hdel.holds (.inl h)).imp_left (.sessions m)
    | retained topic msg h => exact .inl (.retained topic msg h)
    | disk s' _ hs' h =>
      obtain ⟨s, hs, rfl⟩ := map_eq_some_iff.1 hs'
      exact (holds_pushOffline h).imp_left (.disk s m hs)
    | trace e' _ he hm =>
      rcases mem_cons.1 he with rfl | he
      · exact .inr (some.inj hm).symm
      · rcases mem_append.1 he with he | he
        · obtain ⟨msg, hmsg, rfl⟩ := mem_map.1 he
          exact (hdel.holds (.inr (some.inj hm ▸ hmsg))).imp_left (.sessions m)
        · exact .inl (.trace e' m he hm)

theorem holds_persist (h : (b.persistSessionSnapshot c).Holds m) : b.Holds m := by
  unfold persistSessionSnapshot at h
  split at h
  · exact h
  · next s hs =>
    dsimp only at h
    split_ifs at h
    · exact h
    · exact h
    · refine h.of_parts rfl (fun h => .sessions m h) ?_ (fun e he hm => .trace e m he hm)
      intro s' hs' h
      rw [← some.inj hs'] at h
      exact .disk s m hs (h.of_trees_eq rfl rfl)

/-- A move brings in nothing but the content of a publication that was routed. -/
theorem Move.holds (hmove : b.Move S b') (h : b'.Holds m) :
    b.Holds m ∨ LumenMQ.Sourced b.trace m := by
  cases hmove with
  | routed r hr => exact .inl ((holds_note h).resolve_right (by simp [Effect.message]))
  | wroteSn peer packet => exact .inl ((holds_note h).resolve_right (by simp [Effect.message]))
  | setRetained r hr =>
    rcases holds_setRetained h with h | rfl
    · exact .inl h
    · exact .inr ⟨r, hr, rfl, rfl, le_refl _⟩
  | deliver r c subQos b' hr hne hto hdel =>
    rcases holds_deliver hdel h with h | rfl
    · exact .inl h
    · exact .inr ⟨r, hr, rfl, rfl, deliveryQos_le ..⟩
  | markOffline c epoch =>
    exact .inl (h.of_parts rfl (fun h => .sessions m (holds_markOffline h))
      (fun s hs h => .disk s m hs h) (fun e he hm => .trace e m he hm))
  | takeWill c epoch =>
    exact .inl (h.of_parts rfl (fun h => .sessions m (holds_takeWill h))
      (fun s hs h => .disk s m hs h) (fun e he hm => .trace e m he hm))
  | removeSession c hrem =>
    exact .inl (h.of_parts rfl (fun h => .sessions m (holds_remove h))
      (fun s hs h => .disk s m hs h) (fun e he hm => .trace e m he hm))
  | persist c => exact .inl (holds_persist h)
  | deleteSnapshot c =>
    refine .inl (h.of_parts rfl (fun h => .sessions m h) ?_ (fun e he hm => .trace e m he hm))
    intro s' hs' h
    obtain ⟨s, hs, rfl⟩ := map_eq_some_iff.1 hs'
    exact .disk s m hs ((holds_drainOffline h).of_trees_eq rfl rfl)
  | clearDisk c =>
    refine .inl (h.of_parts rfl (fun h => .sessions m h) ?_ (fun e he hm => .trace e m he hm))
    intro s' hs' h
    obtain ⟨s, hs, rfl⟩ := map_eq_some_iff.1 hs'
    exact .disk s m hs (holds_drainOffline h)
  | turns | subscribe | unsubscribe | unsubscribeAll | guards | count =>
    exact .inl (h.of_same rfl rfl rfl rfl)

/-- Nothing new is held, or what is new has a source. -/
theorem Sourced.of_holds (h : b.Sourced) (htrace : b.trace <:+ b'.trace)
    (hholds : ∀ m, b'.Holds m → b.Holds m ∨ LumenMQ.Sourced b'.trace m) : b'.Sourced := by
  intro m hm
  rcases hholds m hm with hm | hm
  · exact (h m hm).mono htrace
  · exact hm

theorem Sourced.note (h : b.Sourced) (he : ∀ m, e.message = some m → LumenMQ.Sourced b.trace m) :
    (b.note e).Sourced := by
  have htrace : b.trace <:+ (b.note e).trace := suffix_cons _ _
  refine h.of_holds htrace (fun m hm => ?_)
  exact (holds_note hm).imp_right (fun hm => (he m hm).mono htrace)

theorem Sourced.noteDiscarded {limit : Limit} (h : b.Sourced)
    (hmsg : ∀ m ∈ msgs, LumenMQ.Sourced b.trace m) : (b.noteDiscarded c limit msgs).Sourced := by
  have htrace : b.trace <:+ (b.noteDiscarded c limit msgs).trace := suffix_append _ _
  refine h.of_holds htrace (fun m hm => ?_)
  exact (holds_noteDiscarded hm).imp_right (fun hm => (hmsg m hm).mono htrace)

theorem Move.sourced (hmove : b.Move S b') (h : b.Sourced) : b'.Sourced :=
  h.of_holds hmove.trace
    (fun _ hm => (hmove.holds hm).imp_right (fun hm => hm.mono hmove.trace))

/-- A message is taken out of a channel. -/
theorem Sourced.shorten {k : Nat} {ch : Channel} {rest : List OutboundPublish} (h : b.Sourced)
    (hch : b.sessions.channels.get k = some ch) (hbuf : ch.buffer = msg :: rest) :
    Sourced { b with sessions := { b.sessions with
      channels := b.sessions.channels.insert k { ch with buffer := rest } } } := by
  refine h.of_holds List.suffix_rfl (fun m hm => .inl ?_)
  refine hm.of_parts rfl ?_ (fun s hs h => .disk s m hs h) (fun e he hm => .trace e m he hm)
  rintro (⟨k', ch', hch', hm⟩ | ⟨c, e, q, hget, hq, hm⟩)
  · rcases FinMap.get_insert_cases hch' with ⟨-, rfl⟩ | ⟨-, hch'⟩
    · exact .sessions m (.channel k ch hch (hbuf ▸ List.mem_cons_of_mem _ hm))
    · exact .sessions m (.channel k' ch' hch' hm)
  · exact .sessions m (.queue c e q hget hq hm)

/-! ### Construction -/

theorem holds_restoreSession {sm : SessionManager} (h : (restoreSession sm now c).Holds m) :
    sm.Holds m :=
  holds_register (holds_markOffline h)

theorem holds_refill {sm sm' : SessionManager} (hrefill : refill now c msgs sm = some sm')
    (h : sm'.Holds m) : sm.Holds m ∨ m ∈ msgs := by
  induction msgs generalizing sm with
  | nil => exact .inl (some.inj hrefill ▸ h)
  | cons msg msgs ih =>
    unfold refill at hrefill
    rw [foldlM_cons] at hrefill
    obtain ⟨sm1, h1, hrest⟩ := bind_eq_some_iff.1 hrefill
    obtain ⟨d, hd, rfl⟩ := map_eq_some_iff.1 h1
    rcases ih hrest with hm | hm
    · rcases (deliverOrEnqueue_delivers hd).holds (.inl hm) with hm | rfl
      · exact .inl hm
      · exact .inr mem_cons_self
    · exact .inr (mem_cons_of_mem _ hm)

theorem holds_loadSession {s : Storage} {snap : SessionSnapshot} (hs : b.storage = some s)
    (hload : b.loadSession snap = some b') (h : b'.Holds m) : b.Holds m := by
  rw [loadSession_eq hs] at hload
  obtain ⟨sm', hrefill, rfl⟩ := map_eq_some_iff.1 hload
  refine h.of_parts rfl ?_ ?_ (fun e he hm => .trace e m he hm)
  · intro h
    rcases holds_refill hrefill h with h | h
    · exact .sessions m (holds_restoreSession h)
    · exact .disk s m hs (holds_of_mem_drainOffline h)
  · intro s' hs' h
    rw [← some.inj hs'] at h
    exact .disk s m hs (holds_drainOffline h)

/-- A broker holds nothing at first but what is on disk. -/
theorem holds_new {config : Settings} {storage : Option Storage}
    (hnew : new config storage now = some b) (h : b.Holds m) :
    ∃ s, storage = some s ∧ s.Holds m := by
  cases storage with
  | none =>
    rw [← some.inj hnew] at h
    rcases h with ⟨_, (⟨k, ch, hch, _⟩ | ⟨c, e, q, hget, _, _⟩)⟩ | ⟨topic, msg, h⟩ | ⟨s, _, hs, _⟩ |
      ⟨e, _, he, _⟩
    · simp at hch
    · simp [SessionManager.get] at hget
    · simp at h
    · simp at hs
    · simp at he
  | some s =>
    refine ⟨s, rfl, ?_⟩
    rw [new_eq] at hnew
    have hblank : (blank config s now).Holds m :=
      loadAll_invariant (I := fun b => b.Holds m → (blank config s now).Holds m)
        (fun _ _ _ _ _ hs hload _ ih hm => ih (holds_loadSession hs hload hm)) rfl hnew id h
    clear h
    rcases hblank with ⟨_, (⟨k, ch, hch, _⟩ | ⟨c, e, q, hget, _, _⟩)⟩ | ⟨topic, msg, h⟩ |
      ⟨s', _, hs, h⟩ | ⟨e, _, he, _⟩
    · simp [blank] at hch
    · simp [blank, SessionManager.get] at hget
    · exact (holds_of_loadFromStorage h).resolve_left (by simp)
    · exact some.inj hs ▸ h
    · simp [blank] at he

end BrokerState

/-! ## A connection -/

namespace Task

/-- Everything the shared state and the connection hold comes from a publication that was routed. -/
structure Sourced (t : Task) : Prop where
  broker : t.broker.Sourced
  conn : ∀ m, t.conn.Holds m → LumenMQ.Sourced t.broker.trace m

variable {S : Scope} {t t' : Task}

theorem Sourced.note (h : t.Sourced)
    (he : ∀ m, e.message = some m → LumenMQ.Sourced t.broker.trace m) : (t.note e).Sourced :=
  ⟨h.broker.note he, fun m hm => (h.conn m hm).mono (suffix_cons _ _)⟩

/-- The connection holds no more than before. -/
theorem Sourced.onConn {f : Conn → Conn} (h : t.Sourced)
    (hf : ∀ m, (f t.conn).Holds m → LumenMQ.Sourced t.broker.trace m) : (t.onConn f).Sourced :=
  ⟨h.broker, hf⟩

/-- The connection holds what it held before. -/
theorem Sourced.sameHeld {c : Conn} (h : t.Sourced) (hrep : c.replay = t.conn.replay)
    (hinf : c.inflight = t.conn.inflight) : Sourced { t with conn := c } := by
  refine ⟨h.broker, fun m hm => h.conn m ?_⟩
  cases hm with
  | replay _ hm => exact .replay m (hrep ▸ hm)
  | inflight id e hget => exact .inflight id e (hinf ▸ hget)

/-- A packet there is reason to write has a source. -/
theorem Sourced.writable {p : Publish} (h : t.Sourced) (hw : t.Writable (.publish p)) :
    LumenMQ.Sourced t.broker.trace p.message := by
  rcases hw p rfl with ⟨source, req, htaken, -, hpkt⟩ | ⟨id, e, dup, hget, hpkt⟩
  · cases hpkt
    exact h.broker req (.trace _ req htaken rfl)
  · unfold OutboundInflight.buildPacket at hpkt
    split at hpkt
    · cases hpkt
      exact h.conn e.message (.inflight id e hget)
    · simp at hpkt

theorem Sourced.buildOutboundPacket {req : OutboundPublish} (h : t.Sourced)
    (hreq : LumenMQ.Sourced t.broker.trace req) : (t.buildOutboundPacket req).2.Sourced := by
  have href : ∀ t : Task, t.Sourced → LumenMQ.Sourced t.broker.trace req →
      (t.refuse req).Sourced := by
    intro t ht hreq
    exact ht.note (fun m hm => some.inj hm ▸ hreq)
  have hstore : ∀ (t : Task) (pid : UInt16), t.Sourced → LumenMQ.Sourced t.broker.trace req →
      (t.store pid req).Sourced := by
    intro t pid ht hreq
    refine ⟨ht.broker, fun m hm => ?_⟩
    cases hm with
    | replay _ hm => exact ht.conn m (.replay m hm)
    | inflight id e hget =>
      rw [store_get] at hget
      split_ifs at hget with hid
      · rw [← some.inj hget]
        exact hreq
      · exact ht.conn e.message (.inflight id e hget)
  have hnext : ∀ next, (t.onConn (fun c => { c with nextPid := next })).Sourced := by
    intro next
    refine h.onConn (fun m hm => h.conn m ?_)
    cases hm with
    | replay _ hm => exact .replay m hm
    | inflight id e hget => exact .inflight id e hget
  unfold Task.buildOutboundPacket
  split_ifs
  · exact h
  · exact href t h hreq
  · dsimp only
    split_ifs
    · exact href _ (hnext _) hreq
    · exact hstore _ _ (hnext _) hreq

theorem Sourced.noteAck {e : OutboundInflight} (h : t.Sourced)
    (he : LumenMQ.Sourced t.broker.trace e.message) :
    (t.noteAck e).Sourced := by
  unfold Task.noteAck
  split
  · exact h.note (fun m hm => some.inj hm ▸ he)
  · exact h

theorem Sourced.puback (id : UInt16) (h : t.Sourced) : (t.puback id).Sourced := by
  unfold Task.puback
  split
  · next e hget =>
    have hnoted := h.noteAck (h.conn e.message (.inflight id e hget))
    refine hnoted.onConn (fun m hm => hnoted.conn m ?_)
    cases hm with
    | replay _ hm => exact .replay m hm
    | inflight id' e' hget' =>
      exact .inflight id' e' (FinMap.get_of_erase hget')
  · exact h

theorem Sourced.pubrec (id : UInt16) (h : t.Sourced) : (t.pubrec id).Sourced := by
  unfold Task.pubrec
  split
  · next e hget =>
    have he := h.conn e.message (.inflight id e hget)
    have hnoted := h.noteAck he
    refine hnoted.onConn (fun m hm => ?_)
    cases hm with
    | replay _ hm => exact hnoted.conn m (.replay m hm)
    | inflight id' e' hget' =>
      rcases FinMap.get_insert_cases hget' with ⟨-, rfl⟩ | ⟨-, hget'⟩
      · exact he.mono (noteAck_extends (S := {}) t e).suffix
      · exact hnoted.conn e'.message (.inflight id' e' hget')
  · exact h

theorem Sourced.retry (h : t.Sourced) : t.retry.Sourced := by
  have hdiscarded : ∀ m ∈ t.unacknowledged t.retryExpired.failed,
      LumenMQ.Sourced t.broker.trace m := by
    intro m hm
    obtain ⟨id, -, hm⟩ := mem_filterMap.1 hm
    split at hm
    · next e hget =>
      split_ifs at hm
      exact some.inj hm ▸ h.conn e.message (.inflight id e hget)
    · simp at hm
  refine ⟨h.broker.noteDiscarded hdiscarded, fun m hm => ?_⟩
  have hold : t.conn.Holds m := by
    cases hm with
    | replay _ hm => exact .replay m hm
    | inflight id e' hget =>
      obtain ⟨e, hget, hsame⟩ := get_retry hget
      exact hsame ▸ .inflight id e hget
  exact (h.conn m hold).mono (suffix_append _ _)

/-- A move of a connection brings in nothing but the content of publications that were routed. -/
theorem Move.sourced (hmove : t.Move S t') (h : t.Sourced) : t'.Sourced := by
  cases hmove with
  | broker b hb => exact ⟨hb.sourced h.broker, fun m hm => (h.conn m hm).mono hb.trace⟩
  | write packet hw hok =>
    refine Sourced.sameHeld (h.note (fun m hm => ?_)) rfl rfl
    cases packet with
    | publish p => exact some.inj hm ▸ h.writable hw
    | _ => simp [Effect.message] at hm
  | fail packet e hw herr =>
    refine h.note (fun m hm => ?_)
    cases packet with
    | publish p => exact some.inj hm ▸ h.writable hw
    | _ => simp [Effect.message] at hm
  | live ch req rest hch hbuf =>
    have hreq : LumenMQ.Sourced t.broker.trace req :=
      h.broker req (.sessions req (.channel t.epoch ch hch (hbuf ▸ mem_cons_self)))
    have hnoted : (t.note (.taken t.epoch .live req)).Sourced :=
      h.note (fun m hm => some.inj hm ▸ hreq)
    have htaken : (t.takeChannel ch req rest).Sourced := ⟨hnoted.broker.shorten hch hbuf, hnoted.conn⟩
    exact htaken.buildOutboundPacket (hreq.mono (suffix_cons _ _))
  | replay msg rest hrep =>
    have hreq : LumenMQ.Sourced t.broker.trace msg :=
      h.conn msg (.replay msg (hrep ▸ mem_cons_self))
    have hnoted : (t.note (.taken t.epoch .replay msg)).Sourced :=
      h.note (fun m hm => some.inj hm ▸ hreq)
    refine Sourced.buildOutboundPacket (hnoted.onConn (fun m hm => hnoted.conn m ?_))
      (hreq.mono (suffix_cons _ _))
    cases hm with
    | replay _ hm => exact .replay m (hrep ▸ mem_cons_of_mem _ hm)
    | inflight id e hget => exact .inflight id e hget
  | retained msg subQos topic hmsg =>
    have hreq : LumenMQ.Sourced t.broker.trace (RetainStore.buildOutbound msg subQos) :=
      (h.broker msg.message (.retained topic msg hmsg)).lower rfl rfl (min_le_left _ _)
    refine Sourced.buildOutboundPacket (h.note (fun m hm => some.inj hm ▸ hreq))
      (hreq.mono (suffix_cons _ _))
  | puback id => exact h.puback id
  | pubrec id => exact h.pubrec id
  | pubcomp id hid =>
    refine h.onConn (fun m hm => h.conn m ?_)
    cases hm with
    | replay _ hm => exact .replay m hm
    | inflight id' e hget =>
      exact .inflight id' e (FinMap.get_of_erase hget)
  | retry => exact h.retry
  | receipt | release | leave => exact h.sameHeld rfl rfl
  | books c hsame => exact h.sameHeld hsame.replay hsame.inflight

end Task

end LumenMQ
