import LumenMQ.Broker.State

set_option autoImplicit false

/-! # Restarts

A broker that is constructed from its storage takes the offline records off the disk and keeps them
in memory only. Nothing writes them back, so that a second construction does not find them. This
file says what a construction makes of a storage, snapshot by snapshot, and for which storages a
second construction gives what the first one gave. -/

namespace LumenMQ

open Option List SessionManager OfflineQueue

/-! ## What is compared -/

/-- An entry without its time stamps and the contents of its queue. -/
def SessionEntry.atRest (e : SessionEntry) : SessionEntry :=
  { e with
    connectedAt := 0
    offlineAt := e.offlineAt.map (fun _ => 0)
    offlineQueue := e.offlineQueue.map (fun q => { q with inner := [] }) }

/-- The messages queued for a client, oldest first. -/
def SessionManager.queued (sm : SessionManager) (c : String) : List OutboundPublish :=
  match (sm.get c).bind SessionEntry.offlineQueue with
  | some q => q.inner.map OfflineMessage.payload
  | none => []

namespace BrokerState

variable {sm : SessionManager} {now : Instant} {c : String} {e : SessionEntry} {q : OfflineQueue}
  {b b' : BrokerState} {s : Storage} {snap : SessionSnapshot} {snaps : List SessionSnapshot}
  {config : Settings} {storage : Option Storage}

/-- Two constructions give the same sessions, subscriptions, retained messages and queues. -/
structure Agree (b b' : BrokerState) : Prop where
  sessions : ∀ c, (b.sessions.get c).map SessionEntry.atRest =
    (b'.sessions.get c).map SessionEntry.atRest
  subscriptions : b.subscriptions = b'.subscriptions
  retained : b.retain = b'.retain
  queues : ∀ c, b.sessions.queued c = b'.sessions.queued c

/-- A broker is constructed, stopped, and constructed again from what it has left on disk; both
    times the construction returns, with the same result. -/
def RestartsAlike (config : Settings) (s : Storage) (now now' : Instant) : Prop :=
  ∃ b b', new config (some s) now = some b ∧ new config b.storage now' = some b' ∧ Agree b b'

/-- Some readable record lies under the key of this snapshot's client, and under that of no snapshot
    before it. -/
def Claimed (s : Storage) (pre : List SessionSnapshot) (snap : SessionSnapshot) : Prop :=
  ∃ key msg, (key, some msg) ∈ s.offline.entries ∧
    offlineKeyPrefix snap.clientId <+: key ∧ ∀ p ∈ pre, ¬ offlineKeyPrefix p.clientId <+: key

/-- Every snapshot that claims a record is followed by another one of the same client, whose session
    replaces the one with the queue; and a queue can hold a message at all. -/
def ClaimsSuperseded (config : Settings) (s : Storage) : Prop :=
  ∀ pre snap post, s.loadAllSessions = pre ++ snap :: post → Claimed s pre snap →
    0 < config.storage.maxOfflineMessages ∧ ∃ p ∈ post, p.clientId = snap.clientId

/-! ## One snapshot -/

/-- The entry of a client after its session is restored, but for the contents of its queue. -/
def restoredEntry (sm : SessionManager) (now : Instant) (c : String) (q : OfflineQueue) :
    SessionEntry :=
  { sm.newEntry now c false (sm.epochCounter + 1) none mqtt311Level dummyAddr
      (sm.epochCounter + 1) none with
    connected := false, offlineAt := some now, offlineQueue := some q }

/-- A queue with the limits of the table. -/
def emptyQueue (sm : SessionManager) : OfflineQueue :=
  { maxMessages := sm.maxOfflineMessages, ttl := sm.offlineMessageTtl }

theorem restoreSession_get (sm : SessionManager) (now : Instant) (c c' : String) :
    (restoreSession sm now c).get c' =
      if c' = c then some (restoredEntry sm now c (emptyQueue sm)) else sm.get c' := by
  rw [restoreSession, markOffline_get, register_get]
  by_cases h : c' = c
  · subst h
    simp [newEntry, restoredEntry, emptyQueue]
  · simp [h]

theorem restoreSession_limits (sm : SessionManager) (now : Instant) (c : String) :
    (restoreSession sm now c).epochCounter = sm.epochCounter + 1 ∧
      (restoreSession sm now c).maxOfflineMessages = sm.maxOfflineMessages ∧
      (restoreSession sm now c).offlineMessageTtl = sm.offlineMessageTtl := by
  rw [restoreSession]
  simp only [markOffline_limits]
  exact ⟨rfl, rfl, rfl⟩

/-- A message for an offline session with a queue goes into the queue. -/
theorem deliverOrEnqueue_offline (msg : OutboundPublish) (hget : sm.get c = some e)
    (hoff : e.connected = false) (hq : e.offlineQueue = some q) :
    (sm.deliverOrEnqueue now c msg).map (fun d => d.sessions) =
      (q.enqueue now msg).map (fun p => sm.put c { e with offlineQueue := some p.2 }) := by
  unfold deliverOrEnqueue enqueueOr
  simp [hget, hoff, hq, Function.comp_def]

/-- The two tables differ in the queue of one client at most. -/
structure SameBut (sm sm' : SessionManager) (c : String) (e : SessionEntry) (q : OfflineQueue) :
    Prop where
  get : ∀ c', sm'.get c' = if c' = c then some { e with offlineQueue := some q } else sm.get c'
  epochCounter : sm'.epochCounter = sm.epochCounter
  maxOfflineMessages : sm'.maxOfflineMessages = sm.maxOfflineMessages
  offlineMessageTtl : sm'.offlineMessageTtl = sm.offlineMessageTtl
  channels : sm'.channels = sm.channels

/-- Refilling changes the queue only, which is empty afterwards if it was before and there was
    nothing to put in. -/
theorem refill_spec {sm' : SessionManager} {msgs : List OutboundPublish} (hget : sm.get c = some e)
    (hoff : e.connected = false) (hq : e.offlineQueue = some q)
    (h : refill now c msgs sm = some sm') :
    ∃ q', SameBut sm sm' c e q' ∧ q'.maxMessages = q.maxMessages ∧ q'.ttl = q.ttl ∧
      (q'.inner = [] ↔ q.inner = [] ∧ msgs = []) ∧
      (q.inner.length ≤ q.maxMessages → q'.inner.length ≤ q'.maxMessages) := by
  induction msgs generalizing sm e q with
  | nil =>
    obtain rfl : sm = sm' := some.inj h
    refine ⟨q, ⟨?_, rfl, rfl, rfl, rfl⟩, rfl, rfl, by simp, id⟩
    intro c'
    by_cases hc : c' = c
    · subst hc
      rw [if_pos rfl, hget, ← hq]
    · rw [if_neg hc]
  | cons msg msgs ih =>
    unfold refill at h
    rw [foldlM_cons, deliverOrEnqueue_offline msg hget hoff hq] at h
    obtain ⟨sm1, h1, hrest⟩ := bind_eq_some_iff.1 h
    obtain ⟨⟨out, q1⟩, henq, rfl⟩ := map_eq_some_iff.1 h1
    obtain ⟨hne, hmax, httl⟩ := enqueue_spec henq
    have hput := get_put_self sm c { e with offlineQueue := some q1 }
    obtain ⟨q', hsame, hmax', httl', hempty, hbound⟩ := ih hput hoff rfl hrest
    refine ⟨q', ⟨?_, hsame.epochCounter, hsame.maxOfflineMessages, hsame.offlineMessageTtl,
      hsame.channels⟩,
      hmax'.trans hmax, httl'.trans httl, ?_,
      fun _ => hbound (hmax ▸ enqueue_length henq)⟩
    · intro c'
      rw [hsame.get, get_put]
      by_cases hc : c' = c
      · rw [if_pos hc, if_pos hc]
      · rw [if_neg hc, if_neg hc, if_neg hc]
    · rw [hempty]
      simp [hne]

/-- Refilling returns unless a message has to go into a queue that cannot hold any. -/
theorem refill_isSome_iff {msgs : List OutboundPublish} (hget : sm.get c = some e)
    (hoff : e.connected = false) (hq : e.offlineQueue = some q) :
    (refill now c msgs sm).isSome = true ↔ msgs = [] ∨ 0 < q.maxMessages := by
  induction msgs generalizing sm e q with
  | nil => simp [refill]
  | cons msg msgs ih =>
    unfold refill
    rw [foldlM_cons, deliverOrEnqueue_offline msg hget hoff hq]
    have hiff := @OfflineQueue.enqueue_isSome_iff q now msg
    cases henq : q.enqueue now msg with
    | none =>
      rw [henq] at hiff
      simpa using hiff
    | some p =>
      obtain ⟨out, q1⟩ := p
      obtain ⟨_, hmax, _⟩ := enqueue_spec henq
      have hpos : 0 < q.maxMessages := hiff.1 (by rw [henq]; rfl)
      have hput := get_put_self sm c { e with offlineQueue := some q1 }
      simp only [map_some, hpos, or_true, iff_true]
      exact (ih hput hoff rfl).2 (.inr (hmax ▸ hpos))

/-- What the construction makes of one snapshot. -/
structure Loads (b : BrokerState) (s : Storage) (snap : SessionSnapshot) (b' : BrokerState)
    (q : OfflineQueue) : Prop where
  get : ∀ c, b'.sessions.get c =
    if c = snap.clientId then some (restoredEntry b.sessions b.now snap.clientId q)
    else b.sessions.get c
  epochCounter : b'.sessions.epochCounter = b.sessions.epochCounter + 1
  limits : emptyQueue b'.sessions = emptyQueue b.sessions
  subscriptions : b'.subscriptions = restoreSubscriptions snap b.subscriptions
  storage : b'.storage = some (s.drainOffline snap.clientId).2
  retain : b'.retain = b.retain
  trace : b'.trace = b.trace
  connectionsCurrent : b'.connectionsCurrent = b.connectionsCurrent
  queue : { q with inner := [] } = emptyQueue b.sessions
  empty : q.inner = [] ↔ (s.drainOffline snap.clientId).1 = []
  bounded : q.inner.length ≤ q.maxMessages
  channels : b'.sessions.channels = b.sessions.channels
  config : b'.config = b.config

theorem loadSession_eq (hs : b.storage = some s) (snap : SessionSnapshot) : b.loadSession snap =
      (refill b.now snap.clientId (s.drainOffline snap.clientId).1
        (restoreSession b.sessions b.now snap.clientId)).map (fun sessions =>
          { b with
            subscriptions := restoreSubscriptions snap b.subscriptions
            sessions
            storage := some (s.drainOffline snap.clientId).2 }) := by
  unfold loadSession drainOffline
  simp only [hs]

theorem restoreSession_get_self (sm : SessionManager) (now : Instant) (c : String) :
    (restoreSession sm now c).get c = some (restoredEntry sm now c (emptyQueue sm)) := by
  rw [restoreSession_get, if_pos rfl]

theorem loadSession_loads (hs : b.storage = some s) (h : b.loadSession snap = some b') :
    ∃ q, Loads b s snap b' q := by
  rw [loadSession_eq hs] at h
  obtain ⟨sm', hrefill, rfl⟩ := map_eq_some_iff.1 h
  obtain ⟨hep, hmax, httl⟩ := restoreSession_limits b.sessions b.now snap.clientId
  obtain ⟨q, hsame, hqmax, hqttl, hempty, hbound⟩ :=
    refill_spec (restoreSession_get_self ..) rfl rfl hrefill
  refine ⟨q, ?_, ?_, ?_, rfl, rfl, rfl, rfl, rfl, ?_, ?_, hbound (Nat.zero_le _), ?_, rfl⟩
  · intro c
    rw [hsame.get, restoreSession_get]
    split_ifs <;> rfl
  · rw [hsame.epochCounter, hep]
  · simp only [emptyQueue, hsame.maxOfflineMessages, hsame.offlineMessageTtl, hmax, httl]
  · simp only [emptyQueue, hqmax, hqttl]
  · rw [hempty]
    simp [emptyQueue]
  · rw [hsame.channels, restoreSession, markOffline_channels,
      register_channels]

theorem loadSession_isSome_iff (hs : b.storage = some s) (snap : SessionSnapshot) :
    (b.loadSession snap).isSome = true ↔
      (s.drainOffline snap.clientId).1 = [] ∨ 0 < b.sessions.maxOfflineMessages := by
  rw [loadSession_eq hs, isSome_map,
    refill_isSome_iff (restoreSession_get_self ..) rfl rfl]
  rfl

/-! ## Claims -/

theorem drainOffline_eq_nil_iff (s : Storage) (snap : SessionSnapshot) :
    (s.drainOffline snap.clientId).1 = [] ↔ ¬ Claimed s [] snap := by
  simp only [Storage.drainOffline, Tree.values, List.filterMap_eq_nil_iff, OrderedMap.mem_filter,
    Storage.isOfflineRecordOf, List.isPrefixOf_iff_prefix, Claimed, List.not_mem_nil]
  constructor
  · rintro h ⟨key, msg, hmem, hpre, -⟩
    exact absurd (h (key, some msg) ⟨hmem, hpre⟩) (by simp)
  · intro h e he
    obtain ⟨key, v⟩ := e
    cases v with
    | none => rfl
    | some msg => exact absurd ⟨key, msg, he.1, he.2, by simp⟩ h

/-- What is claimed behind a snapshot is claimed of the records that it leaves. -/
theorem claimed_cons (s : Storage) (a : SessionSnapshot) (pre : List SessionSnapshot)
    (snap : SessionSnapshot) :
    Claimed s (a :: pre) snap ↔ Claimed (s.drainOffline a.clientId).2 pre snap := by
  simp only [Claimed, Storage.drainOffline, OrderedMap.mem_filter, Storage.isOfflineRecordOf,
    List.forall_mem_cons, Bool.not_eq_true', ← Bool.not_eq_true, List.isPrefixOf_iff_prefix]
  constructor
  · rintro ⟨key, msg, hmem, hpre, ha, hrest⟩
    exact ⟨key, msg, ⟨hmem, ha⟩, hpre, hrest⟩
  · rintro ⟨key, msg, ⟨hmem, ha⟩, hpre, hrest⟩
    exact ⟨key, msg, hmem, hpre, ha, hrest⟩

/-- A split of a list with a first element is at that element or behind it. -/
theorem forall_split_cons {α : Type} {P : List α → α → List α → Prop} {a : α} {l : List α} :
    (∀ pre x post, a :: l = pre ++ x :: post → P pre x post) ↔
      P [] a l ∧ ∀ pre x post, l = pre ++ x :: post → P (a :: pre) x post := by
  constructor
  · intro h
    refine ⟨h [] a l rfl, ?_⟩
    rintro pre x post rfl
    exact h (a :: pre) x post rfl
  · rintro ⟨hnil, hcons⟩ pre x post h
    rcases pre with _ | ⟨b, pre⟩
    · simp only [nil_append, cons.injEq] at h
      obtain ⟨rfl, rfl⟩ := h
      exact hnil
    · simp only [cons_append, cons.injEq] at h
      obtain ⟨rfl, rfl⟩ := h
      exact hcons pre x post rfl

/-! ## All snapshots -/

/-- The construction returns unless a message has to go into a queue that cannot hold any. -/
theorem loadAll_isSome_iff (hs : b.storage = some s) (snaps : List SessionSnapshot) :
    (snaps.foldlM loadSession b).isSome = true ↔
      ∀ pre snap post, snaps = pre ++ snap :: post → Claimed s pre snap →
        0 < b.sessions.maxOfflineMessages := by
  induction snaps generalizing b s with
  | nil => simp
  | cons a rest ih =>
    rw [forall_split_cons, foldlM_cons]
    have hiff := loadSession_isSome_iff hs a
    rw [drainOffline_eq_nil_iff, ← imp_iff_not_or] at hiff
    cases hload : b.loadSession a with
    | none =>
      rw [hload] at hiff
      simp only [isSome_none, Bool.false_eq_true, false_iff] at hiff
      simp [hiff]
    | some b1 =>
      obtain ⟨q, hloads⟩ := loadSession_loads hs hload
      have hmax : b1.sessions.maxOfflineMessages = b.sessions.maxOfflineMessages :=
        congrArg maxMessages hloads.limits
      rw [hload] at hiff
      have hrest := ih hloads.storage
      simp only [hmax, ← claimed_cons] at hrest
      exact hrest.trans (and_iff_right (hiff.1 rfl)).symm

/-- What loading a snapshot keeps is kept by loading them all. -/
theorem loadAll_invariant {I : BrokerState → Prop}
    (hload : ∀ b b' s snap q, b.storage = some s → b.loadSession snap = some b' →
      Loads b s snap b' q → I b → I b') (hs : b.storage = some s)
    (h : snaps.foldlM loadSession b = some b') (hb : I b) : I b' := by
  induction snaps generalizing b s with
  | nil => exact some.inj h ▸ hb
  | cons snap snaps ih =>
    rw [foldlM_cons] at h
    obtain ⟨b1, h1, hrest⟩ := bind_eq_some_iff.1 h
    obtain ⟨q, hloads⟩ := loadSession_loads hs h1
    exact ih hloads.storage hrest (hload b b1 s snap q hs h1 hloads hb)

/-- What a construction leaves on disk: the records under no snapshot's key, and the other trees. -/
theorem loadAll_storage (hs : b.storage = some s) (h : snaps.foldlM loadSession b = some b') :
    ∃ s', b'.storage = some s' ∧ s'.sessions = s.sessions ∧ s'.retained = s.retained ∧
      ∀ e ∈ s'.offline.entries, e ∈ s.offline.entries ∧
        ∀ snap ∈ snaps, ¬ offlineKeyPrefix snap.clientId <+: e.1 := by
  induction snaps generalizing b s with
  | nil =>
    obtain rfl : b = b' := some.inj h
    exact ⟨s, hs, rfl, rfl, by simp⟩
  | cons a rest ih =>
    rw [foldlM_cons] at h
    obtain ⟨b1, hload, hrest⟩ := bind_eq_some_iff.1 h
    obtain ⟨q, hloads⟩ := loadSession_loads hs hload
    obtain ⟨s', hs', hsess, hret, hleft⟩ := ih hloads.storage hrest
    refine ⟨s', hs', hsess, hret, ?_⟩
    intro e he
    obtain ⟨hmem, hout⟩ := hleft e he
    simp only [Storage.drainOffline, OrderedMap.mem_filter, Storage.isOfflineRecordOf,
      Bool.not_eq_true', ← Bool.not_eq_true, isPrefixOf_iff_prefix] at hmem
    exact ⟨hmem.1, forall_mem_cons.2 ⟨hmem.2, hout⟩⟩

theorem loadAll_retain (hs : b.storage = some s) (h : snaps.foldlM loadSession b = some b') :
    b'.retain = b.retain :=
  loadAll_invariant (I := fun b' => b'.retain = b.retain)
    (fun _ _ _ _ _ _ _ hloads hb => hloads.retain.trans hb) hs h rfl

/-- The queue of a client after one snapshot: refilled if it is the snapshot's own. -/
theorem Loads.queued_eq_nil_iff (h : Loads b s snap b' q) (c : String) : b'.sessions.queued c = [] ↔
      if c = snap.clientId then ¬ Claimed s [] snap else b.sessions.queued c = [] := by
  unfold queued
  rw [h.get]
  by_cases hc : c = snap.clientId
  · rw [if_pos hc, if_pos hc, ← drainOffline_eq_nil_iff, ← h.empty]
    simp [restoredEntry]
  · rw [if_neg hc, if_neg hc]

/-- After a construction a client has no messages queued exactly when it had none before and the
    last one of its snapshots claims none. -/
theorem loadAll_queued_eq_nil_iff (hs : b.storage = some s)
    (h : snaps.foldlM loadSession b = some b') (c : String) : b'.sessions.queued c = [] ↔
      (∀ pre snap post, snaps = pre ++ snap :: post → snap.clientId = c → Claimed s pre snap →
        ∃ p ∈ post, p.clientId = c) ∧
      ((∀ p ∈ snaps, p.clientId ≠ c) → b.sessions.queued c = []) := by
  induction snaps generalizing b s with
  | nil =>
    obtain rfl : b = b' := some.inj h
    simp
  | cons a rest ih =>
    rw [foldlM_cons] at h
    obtain ⟨b1, hload, hrest⟩ := bind_eq_some_iff.1 h
    obtain ⟨q, hloads⟩ := loadSession_loads hs hload
    rw [ih hloads.storage hrest, hloads.queued_eq_nil_iff, forall_split_cons]
    simp only [← claimed_cons, forall_mem_cons]
    by_cases hc : c = a.clientId
    · subst hc
      simp only [if_true, ne_eq, not_true_eq_false, false_and, IsEmpty.forall_iff, and_true,
        true_implies]
      rw [and_comm, and_congr_left_iff]
      intro _
      -- the snapshot's own claim counts unless a later snapshot of the client replaces its session
      by_cases hlater : ∃ p ∈ rest, p.clientId = a.clientId
      · simp [hlater]
      · simp only [hlater, imp_false]
        push Not at hlater
        exact ⟨fun hno => hno hlater, fun hno _ => hno⟩
    · have hac : a.clientId ≠ c := fun h => hc h.symm
      simp [hc, hac]

/-! ## Two constructions -/

/-- The tables agree but for time stamps and the contents of the queues. -/
structure AtRest (b b' : BrokerState) : Prop where
  sessions : ∀ c, (b.sessions.get c).map SessionEntry.atRest =
    (b'.sessions.get c).map SessionEntry.atRest
  subscriptions : b.subscriptions = b'.subscriptions
  epochCounter : b.sessions.epochCounter = b'.sessions.epochCounter
  limits : emptyQueue b.sessions = emptyQueue b'.sessions

theorem restoredEntry_atRest (hq : { q with inner := [] } = emptyQueue sm) :
    (restoredEntry sm now c q).atRest =
      (restoredEntry sm 0 c (emptyQueue sm)) := by
  simp [SessionEntry.atRest, restoredEntry, hq, newEntry]

/-- Loading the same snapshot keeps two tables in agreement, whatever is on disk. -/
theorem AtRest.load {b1 b1' : BrokerState} {s' : Storage} {q' : OfflineQueue} (h : AtRest b b')
    (hb : Loads b s snap b1 q) (hb' : Loads b' s' snap b1' q') : AtRest b1 b1' := by
  refine ⟨?_, ?_, ?_, ?_⟩
  · intro c
    rw [hb.get, hb'.get]
    by_cases hc : c = snap.clientId
    · rw [if_pos hc, if_pos hc, map_some, map_some, restoredEntry_atRest hb.queue,
        restoredEntry_atRest hb'.queue]
      simp only [restoredEntry, h.limits, newEntry, h.epochCounter]
    · rw [if_neg hc, if_neg hc, h.sessions]
  · rw [hb.subscriptions, hb'.subscriptions, h.subscriptions]
  · rw [hb.epochCounter, hb'.epochCounter, h.epochCounter]
  · rw [hb.limits, hb'.limits, h.limits]

theorem AtRest.loadAll {b1 b1' : BrokerState} {s' : Storage} (hrest : AtRest b b')
    (hs : b.storage = some s) (hs' : b'.storage = some s')
    (h : snaps.foldlM loadSession b = some b1) (h' : snaps.foldlM loadSession b' = some b1') :
    AtRest b1 b1' := by
  induction snaps generalizing b b' s s' with
  | nil =>
    obtain rfl : b = b1 := some.inj h
    obtain rfl : b' = b1' := some.inj h'
    exact hrest
  | cons a rest ih =>
    rw [foldlM_cons] at h h'
    obtain ⟨b2, hload, htail⟩ := bind_eq_some_iff.1 h
    obtain ⟨b2', hload', htail'⟩ := bind_eq_some_iff.1 h'
    obtain ⟨q, hloads⟩ := loadSession_loads hs hload
    obtain ⟨q', hloads'⟩ := loadSession_loads hs' hload'
    exact ih (hrest.load hloads hloads') hloads.storage hloads'.storage htail htail'

/-- The state the snapshots are loaded into. -/
def blank (config : Settings) (s : Storage) (now : Instant) : BrokerState :=
  { config, now, storage := some s
    sessions := {
      maxOfflineMessages := config.storage.maxOfflineMessages
      offlineMessageTtl := Duration.fromSecs config.storage.offlineMessageTtl }
    retain :=
      ({ maxPayloadBytes := config.broker.maxPacketSize } : RetainStore).loadFromStorage s
    security := match SecurityGuard.new config.security with
      | .ok g => g
      | .error _ => .disabled
    plugin := .new config.plugin }

theorem new_eq (config : Settings) (s : Storage) (now : Instant) :
    new config (some s) now = s.loadAllSessions.foldlM loadSession (blank config s now) := rfl

theorem blank_queued (config : Settings) (s : Storage) (now : Instant) (c : String) :
    (blank config s now).sessions.queued c = [] := rfl

/-- A broker before the snapshots are loaded. -/
structure Blank (b : BrokerState) : Prop where
  get : ∀ c, b.sessions.get c = none
  subscriptions : b.subscriptions = {}
  trace : b.trace = []
  connectionsCurrent : b.connectionsCurrent = 0
  channels : b.sessions.channels = ∅

/-- What holds before and is kept by every snapshot holds of a broker that was constructed. -/
theorem new_invariant {I : BrokerState → Prop} (hblank : ∀ b, Blank b → I b)
    (hload : ∀ b s snap b' q, Loads b s snap b' q → I b → I b')
    (h : new config storage now = some b) : I b := by
  cases storage with
  | none => exact some.inj h ▸ hblank _ ⟨fun _ => rfl, rfl, rfl, rfl, rfl⟩
  | some s =>
    rw [new_eq] at h
    exact loadAll_invariant (fun b b' s snap q _ _ => hload b s snap b' q) rfl h
      (hblank _ ⟨fun _ => rfl, rfl, rfl, rfl, rfl⟩)

theorem new_config (h : new config storage now = some b) : b.config = config := by
  cases storage with
  | none => exact some.inj h ▸ rfl
  | some s =>
    rw [new_eq] at h
    exact loadAll_invariant (I := fun b => b.config = config)
      (fun _ _ _ _ _ _ _ hloads hb => hloads.config.trans hb) rfl h rfl

theorem new_trace (h : new config storage now = some b) : b.trace = [] :=
  new_invariant (I := fun b => b.trace = []) (fun _ hb => hb.trace)
    (fun _ _ _ _ _ hloads hb => hloads.trace.trans hb) h

theorem new_connectionsCurrent (h : new config storage now = some b) : b.connectionsCurrent = 0 :=
  new_invariant (I := fun b => b.connectionsCurrent = 0) (fun _ hb => hb.connectionsCurrent)
    (fun _ _ _ _ _ hloads hb => hloads.connectionsCurrent.trans hb) h

/-- An entry that was loaded from disk: an offline session without a will. -/
structure Restored (sm : SessionManager) (e : SessionEntry) : Prop where
  cleanSession : e.cleanSession = false
  connected : e.connected = false
  will : e.will = none
  tx : e.tx = e.epoch
  epoch : e.epoch ≤ sm.epochCounter

/-- All sessions of a broker that was just constructed were loaded from disk. -/
theorem new_restored (h : new config storage now = some b) (he : b.sessions.get c = some e) :
    Restored b.sessions e := by
  revert c e
  refine new_invariant (I := fun b => ∀ {c e}, b.sessions.get c = some e → Restored b.sessions e)
    ?_ ?_ h
  · intro b hb c e he
    simp [hb.get] at he
  · intro b s snap b' q hloads hb c e he
    rw [hloads.get] at he
    split_ifs at he
    · rw [← some.inj he]
      exact ⟨rfl, rfl, rfl, rfl, hloads.epochCounter.ge⟩
    · obtain ⟨hclean, hconn, hwill, htx, hep⟩ := hb he
      exact ⟨hclean, hconn, hwill, htx, by rw [hloads.epochCounter]; omega⟩

/-- What a second construction finds: the same snapshots and retained messages, and no claims. -/
theorem new_storage (h : new config (some s) now = some b) :
    ∃ s', b.storage = some s' ∧ s'.loadAllSessions = s.loadAllSessions ∧
      s'.loadAllRetained = s.loadAllRetained ∧
      ∀ pre, ∀ snap ∈ s'.loadAllSessions, ¬ Claimed s' pre snap := by
  obtain ⟨s', hs', hsess, hret, hleft⟩ := loadAll_storage rfl h
  have hload : s'.loadAllSessions = s.loadAllSessions := by
    rw [Storage.loadAllSessions, hsess, Storage.loadAllSessions]
  refine ⟨s', hs', hload, by rw [Storage.loadAllRetained, hret, Storage.loadAllRetained], ?_⟩
  rintro pre snap hsnap ⟨key, msg, hmem, hkey, -⟩
  rw [hload] at hsnap
  exact (hleft _ hmem).2 snap hsnap hkey

/-- A construction from a storage without claims returns, with empty queues. -/
theorem new_of_unclaimed (config : Settings) (now : Instant)
    (hnone : ∀ pre, ∀ snap ∈ s.loadAllSessions, ¬ Claimed s pre snap) :
    ∃ b, new config (some s) now = some b ∧ ∀ c, b.sessions.queued c = [] := by
  have hsome : (new config (some s) now).isSome = true := by
    rw [new_eq, loadAll_isSome_iff rfl]
    intro pre snap post hsplit hclaim
    exact absurd hclaim (hnone pre snap (by simp [hsplit]))
  obtain ⟨b, hb⟩ := isSome_iff_exists.1 hsome
  refine ⟨b, hb, ?_⟩
  intro c
  rw [loadAll_queued_eq_nil_iff rfl hb]
  refine ⟨?_, fun _ => blank_queued ..⟩
  intro pre snap post hsplit _ hclaim
  exact absurd hclaim (hnone pre snap (by simp [hsplit]))

/-- The second construction agrees with the first in everything but the queues. -/
theorem new_new (h : new config (some s) now = some b) (now' : Instant) :
    ∃ b', new config b.storage now' = some b' ∧ AtRest b b' ∧ b.retain = b'.retain ∧
      ∀ c, b'.sessions.queued c = [] := by
  obtain ⟨s', hs', hsess, hret, hnone⟩ := new_storage h
  obtain ⟨b', hb', hqueued⟩ := new_of_unclaimed config now' hnone
  have hrest : AtRest (blank config s now) (blank config s' now') :=
    ⟨fun _ => rfl, rfl, rfl, rfl⟩
  refine ⟨b', by rw [hs', hb'], ?_, ?_, hqueued⟩
  · rw [new_eq, hsess] at hb'
    exact hrest.loadAll rfl rfl h hb'
  · rw [loadAll_retain rfl h, loadAll_retain rfl hb']
    simp only [RetainStore.loadFromStorage, hret]

theorem claimsSuperseded_of_restartsAlike {now' : Instant} (h : RestartsAlike config s now now') :
    ClaimsSuperseded config s := by
  obtain ⟨b, b', hb, hb', hagree⟩ := h
  intro pre snap post hsplit hclaim
  obtain ⟨b2, hb2, _, _, hempty⟩ := new_new hb now'
  have hsame : b' = b2 := some.inj (hb'.symm.trans hb2)
  have hnil : b.sessions.queued snap.clientId = [] := by
    rw [hagree.queues, hsame, hempty]
  have hret : (s.loadAllSessions.foldlM loadSession (blank config s now)).isSome = true := by
    rw [← new_eq, hb]
    rfl
  exact ⟨(loadAll_isSome_iff rfl _).1 hret pre snap post hsplit hclaim,
    ((loadAll_queued_eq_nil_iff rfl hb _).1 hnil).1 pre snap post hsplit rfl hclaim⟩

theorem restartsAlike_of_claimsSuperseded (h : ClaimsSuperseded config s) (now now' : Instant) :
    RestartsAlike config s now now' := by
  have hsome : (new config (some s) now).isSome = true := by
    rw [new_eq, loadAll_isSome_iff rfl]
    intro pre snap post hsplit hclaim
    exact (h pre snap post hsplit hclaim).1
  obtain ⟨b, hb⟩ := isSome_iff_exists.1 hsome
  obtain ⟨b', hb', hrest, hret, hempty⟩ := new_new hb now'
  refine ⟨b, b', hb, hb', hrest.sessions, hrest.subscriptions, hret, ?_⟩
  intro c
  rw [hempty, loadAll_queued_eq_nil_iff rfl hb]
  refine ⟨?_, fun _ => blank_queued ..⟩
  rintro pre snap post hsplit rfl hclaim
  exact (h pre snap post hsplit hclaim).2

/-- **A restart gives back what the start gave exactly when every claim is superseded**: the records
    that are loaded into the queue of a session that stays are gone after the first start. -/
theorem restartsAlike_iff (config : Settings) (s : Storage) (now now' : Instant) :
    RestartsAlike config s now now' ↔ ClaimsSuperseded config s :=
  ⟨claimsSuperseded_of_restartsAlike, fun h => restartsAlike_of_claimsSuperseded h now now'⟩

/-- What a broker leaves on disk for an offline client with one subscription and one message. -/
def oneQueued : Storage :=
  let snap : SessionSnapshot := { clientId := "c1", subscriptions := [("a", .atLeastOnce)] }
  (({} : Storage).saveSession "c1" snap).pushOffline "c1"
    { topic := "a", payload := [0x78], qos := .atLeastOnce, retain := false }

/-- The message is there after the first start and lost with the second. -/
theorem oneQueued_not_restartsAlike : ¬ RestartsAlike {} oneQueued 0 0 := by
  intro h
  obtain ⟨-, p, hp, -⟩ := claimsSuperseded_of_restartsAlike h []
    { clientId := "c1", subscriptions := [("a", .atLeastOnce)] } [] rfl
    ⟨_, _, mem_cons_self, prefix_append .., by simp⟩
  exact absurd hp not_mem_nil

end BrokerState

end LumenMQ
