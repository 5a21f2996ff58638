import LumenMQ.Archive
import LumenMQ.Epochs

set_option autoImplicit false

/-! # Accurate snapshots

The snapshot of a persistent session should say what its client subscribes to, so that a start
restores exactly that. It is written after every SUBSCRIBE and UNSUBSCRIBE of an MQTT connection and
when a connection ends, and deleted with the session. An empty list of filters is never written,
though, a session that changes its kind keeps what it finds on disk, and the gateway writes nothing
at all. -/

namespace LumenMQ

open Option SessionManager BrokerState Storage SessionEntry

open Process

/-! ## The shared state -/

/-- What stays the same of an entry as long as no connection takes it over. -/
def SessionEntry.key (e : SessionEntry) : Nat × Bool := (e.epoch, e.cleanSession)

namespace BrokerState

variable {S : Scope} {b b' : BrokerState} {c : String}
variable {epoch : Nat} {cs : List String}

/-- The client has a session with `clean_session = false`. -/
def persistent (b : BrokerState) (c : String) : Bool :=
  (b.sessions.get c).any (fun e => !e.cleanSession)

/-- The snapshot of a client is there only for a persistent session, and a start restores the
    filters that such a session has. -/
structure Accurate (b : BrokerState) (s : Storage) (c : String) : Prop where
  kept : (s.snapshotOf c).isSome = true → b.persistent c = true
  same : b.persistent c = true →
    ∀ f, f ∈ s.restoredTree.subscriptionsOf c ↔ f ∈ b.subscriptions.subscriptionsOf c

/-- The snapshot that the session and the filters of a client call for. -/
def due (b : BrokerState) (c : String) : Option (Option SessionSnapshot) :=
  if b.persistent c = true ∧ b.subscriptions.subscriptionsOf c ≠ [] then
    some (some { clientId := c, subscriptions := b.subscriptions.subscriptionsOf c })
  else none

/-- What lies on disk for a client is what its session and its filters call for. -/
def Recorded (b : BrokerState) (c : String) : Prop :=
  b.storage.isSome = true → b.filed c = b.due c

/-- What lies on disk for a client belongs to a persistent session with filters, but need not be up
    to date. -/
structure Justified (b : BrokerState) (c : String) : Prop where
  isSome : (b.sessions.get c).isSome = true
  filed : b.filed c ≠ none →
    b.persistent c = true ∧ b.subscriptions.subscriptionsOf c ≠ []

theorem Recorded.accurate (h : b.Recorded c) (hb : b.Archived) {s : Storage}
    (hs : b.storage = some s) : b.Accurate s c := by
  have hfiled : s.snapshotOf c = b.due c := by
    have := h (by rw [hs]; rfl)
    rwa [filed, hs, bind_some] at this
  unfold due at hfiled
  refine ⟨?_, ?_⟩
  · intro hsome
    rw [hfiled] at hsome
    split_ifs at hsome with hdue
    · exact hdue.1
    · simp at hsome
  · intro hpersist f
    rw [restoredTree_subscriptionsOf (hb.filed s hs), hfiled]
    by_cases hnil : b.subscriptions.subscriptionsOf c = []
    · rw [if_neg (fun h => h.2 hnil), hnil]
    · rw [if_pos ⟨hpersist, hnil⟩]

theorem Recorded.justified (h : b.Recorded c) (hc : (b.sessions.get c).isSome = true) :
    b.Justified c := by
  refine ⟨hc, fun hne => ?_⟩
  have hs : b.storage.isSome = true := by
    cases hs : b.storage with
    | none => simp [filed, hs] at hne
    | some s => rfl
  rw [h hs] at hne
  unfold due at hne
  split_ifs at hne with hdue
  · exact hdue
  · exact absurd rfl hne

/-- Without a persistent session there is nothing to be up to date. -/
theorem Justified.recorded (h : b.Justified c) (hc : b.persistent c = false) : b.Recorded c := by
  intro _
  rw [due, if_neg (by simp [hc])]
  by_contra hne
  have hp := (h.filed hne).1
  simp [hc] at hp

theorem recorded_of_none (hget : b.sessions.get c = none) (hfiled : b.filed c = none) :
    b.Recorded c := by
  intro _
  rw [hfiled, due, if_neg (by simp [persistent, hget])]

/-! ### Frames -/

/-- Nothing changes that bears on the snapshot of a client. -/
structure SameRecord (b b' : BrokerState) (c : String) : Prop where
  storage : b'.storage.isSome = b.storage.isSome
  filed : b'.filed c = b.filed c
  entry : (b'.sessions.get c).map key = (b.sessions.get c).map key
  subscriptions : b'.subscriptions.subscriptionsOf c = b.subscriptions.subscriptionsOf c

theorem SameRecord.refl (b : BrokerState) (c : String) : SameRecord b b c := ⟨rfl, rfl, rfl, rfl⟩

theorem SameRecord.trans {b1 b2 b3 : BrokerState} (h : SameRecord b1 b2 c)
    (h' : SameRecord b2 b3 c) : SameRecord b1 b3 c :=
  ⟨h'.storage.trans h.storage, h'.filed.trans h.filed, h'.entry.trans h.entry,
    h'.subscriptions.trans h.subscriptions⟩

theorem persistent_eq (b : BrokerState) (c : String) :
    b.persistent c = ((b.sessions.get c).map key).any (fun k => !k.2) := by
  unfold persistent
  rw [any_map]
  rfl

theorem SameRecord.persistent (h : SameRecord b b' c) : b'.persistent c = b.persistent c := by
  rw [persistent_eq, persistent_eq, h.entry]

theorem SameRecord.recorded (h : SameRecord b b' c) (hb : b.Recorded c) : b'.Recorded c := by
  intro hs
  rw [h.filed, hb (h.storage ▸ hs), due, due, h.persistent, h.subscriptions]

theorem SameRecord.justified (h : SameRecord b b' c) (hb : b.Justified c) : b'.Justified c := by
  refine ⟨?_, ?_⟩
  · have hsome := congrArg isSome h.entry
    rw [isSome_map, isSome_map] at hsome
    exact hsome.trans hb.isSome
  · rw [h.filed, h.persistent, h.subscriptions]
    exact hb.filed

/-- An entry that may not be removed keeps its owner and its kind. -/
theorem Move.key_eq (h : b.Move S b') (hrem : ¬ S.removes c) :
    (b'.sessions.get c).map key = (b.sessions.get c).map key := by
  cases hget' : b'.sessions.get c with
  | none =>
    cases hget : b.sessions.get c with
    | none => rfl
    | some e =>
      have hsome := h.isSome hrem (by rw [hget]; rfl)
      simp [hget'] at hsome
  | some e' =>
    obtain ⟨e, hget, hcont⟩ := h.entry hget'
    rw [hget, map_some, map_some, key, key, hcont.epoch,
      hcont.cleanSession]

theorem Move.sameRecord (h : b.Move S b') (hsub : ¬ S.subscribes c) (hunsub : ¬ S.unsubscribes c)
    (hrem : ¬ S.removes c) : SameRecord b b' c :=
  ⟨h.refiles.isSome, h.filed_eq hsub hunsub hrem, h.key_eq hrem,
    h.resubscribes.subscriptionsOf_eq hsub hunsub hrem⟩

theorem moves_sameRecord (h : b.Moves S b') (hsub : ¬ S.subscribes c) (hunsub : ¬ S.unsubscribes c)
    (hrem : ¬ S.removes c) : SameRecord b b' c := by
  induction h with
  | refl => exact .refl b c
  | tail _ hstep ih => exact ih.trans (hstep.sameRecord hsub hunsub hrem)

/-- A client that subscribes and does nothing else. -/
theorem Move.justified (h : b.Move S b') (hunsub : ¬ S.unsubscribes c) (hrem : ¬ S.removes c)
    (hb : b.Justified c) : b'.Justified c := by
  have hkey := h.key_eq hrem
  have hpersist : b'.persistent c = b.persistent c := by
    rw [persistent_eq, persistent_eq, hkey]
  have hsubs : b.subscriptions.subscriptionsOf c ≠ [] →
      b'.subscriptions.subscriptionsOf c ≠ [] := by
    intro hne
    have hrest := h.resubscribes
    generalize b'.subscriptions = t' at hrest
    cases hrest with
    | same => exact hne
    | turns topic => rwa [b.subscriptions.matchesShared_subscriptionsOf topic c]
    | subscribe c' filter qos _ hsub hok =>
      rw [b.subscriptions.subscriptionsOf_subscribe c' c filter hok]
      split_ifs
      · exact SubscriptionTree.upsertFilter_ne_nil filter qos _
      · exact hne
    | unsubscribe c' filter hunsub' =>
      rwa [b.subscriptions.subscriptionsOf_unsubscribe_ne c' c filter]
      rintro rfl
      exact hunsub hunsub'
    | unsubscribeAll c' hrem' =>
      rw [b.subscriptions.subscriptionsOf_unsubscribeAll c' c, if_neg]
      · exact hne
      · rintro rfl
        exact hrem hrem'
  refine ⟨h.isSome hrem hb.isSome, ?_⟩
  rw [hpersist]
  have hfound := h.found c
  generalize b'.filed c = v at hfound ⊢
  intro hne
  cases hfound with
  | same => exact ⟨(hb.filed hne).1, hsubs (hb.filed hne).2⟩
  | saved hclean hfilters =>
    obtain ⟨e, he⟩ := isSome_iff_exists.1 hb.isSome
    exact ⟨by simpa [persistent, isCleanSession, he] using hclean, hsubs hfilters⟩
  | deleted hremove => exact absurd hremove hrem

/-- A snapshot that is written is up to date. -/
theorem Justified.persist (h : b.Justified c) : (b.persistSessionSnapshot c).Recorded c := by
  obtain ⟨e, he⟩ := isSome_iff_exists.1 h.isSome
  unfold persistSessionSnapshot
  split
  · next hs =>
    intro hsome
    simp [hs] at hsome
  · next s hs =>
    dsimp only
    split_ifs with hclean hnil
    · refine h.recorded ?_
      simpa [persistent, isCleanSession, he] using hclean
    · intro _
      rw [due, if_neg (fun hdue => hdue.2 hnil)]
      by_contra hne
      exact (h.filed hne).2 hnil
    · intro _
      have hpersist : b.persistent c = true := by
        simpa [persistent, isCleanSession, he] using hclean
      rw [due, if_pos ⟨hpersist, hnil⟩]
      change (s.saveSession c _).snapshotOf c = _
      rw [snapshotOf_saveSession, if_pos rfl]

/-! ### The ends of a session -/

theorem filed_forget (b : BrokerState) (c : String) : (b.forget c).filed c = none := by
  change (b.storage.map (fun s => ((s.deleteSession c).drainOffline c).2)).bind _ = none
  rw [bind_map]
  cases b.storage with
  | none => rfl
  | some s => exact (s.snapshotOf_deleteSession c c).trans (if_pos rfl)

theorem forget_recorded (hget : b.sessions.get c = none) : (b.forget c).Recorded c :=
  recorded_of_none hget (filed_forget b c)

theorem removeIfEpoch_recorded {e : SessionEntry} {sessions : SessionManager}
    (h : b.sessions.removeIfEpoch c epoch = (some e, sessions)) :
    ({ b with sessions }.forget c).Recorded c :=
  forget_recorded (get_of_removeIfEpoch h)

theorem markOffline_sameRecord (b : BrokerState) (c' : String) (epoch : Nat) (c : String) :
    SameRecord b { b with sessions := b.sessions.markOffline b.now c' epoch } c :=
  Move.sameRecord (S := { subscribes := fun _ => False, unsubscribes := fun _ => False
                          removes := fun _ => False }) (.markOffline c' epoch) id id id

theorem markOffline_owns :
    (b.sessions.markOffline b.now c epoch).owns c epoch = b.sessions.owns c epoch := by
  unfold owns
  rw [markOffline_get]
  cases b.sessions.get c with
  | none => rfl
  | some e =>
    rw [map_some]
    split_ifs <;> rfl

/-- The owner of a session leaves an accurate snapshot behind, or none. -/
theorem cleanup_recorded (clean : Bool) (hown : b.sessions.owns c epoch = true) (h : b.Justified c) :
    (b.cleanup c epoch clean).Recorded c := by
  unfold cleanup
  split_ifs
  · obtain ⟨e, he⟩ := removeIfEpoch_of_owns hown
    rw [he]
    exact removeIfEpoch_recorded he
  · have hmark := markOffline_owns.trans hown
    dsimp only
    split_ifs with hnot
    · simp [hmark] at hnot
    · obtain ⟨e, he⟩ := removeIfEpoch_of_owns hmark
      rw [he]
      exact removeIfEpoch_recorded (b := { b with sessions := b.sessions.markOffline b.now c epoch }) he
    · exact ((markOffline_sameRecord b c epoch c).justified h).persist

/-- A connection that does not own the session leaves it alone. -/
theorem cleanup_sameRecord (clean : Bool) (hown : b.sessions.owns c epoch = false) :
    SameRecord b (b.cleanup c epoch clean) c := by
  unfold cleanup
  split_ifs
  · unfold removeIfEpoch
    rw [hown]
    exact .refl b c
  · dsimp only
    rw [if_pos (by rw [markOffline_owns, hown]; rfl)]
    exact markOffline_sameRecord b c epoch c

theorem deleteSession_record (b : BrokerState) (c : String) :
    SameRecord b (b.deleteSession c).2 c ∨ (b.deleteSession c).2.Recorded c := by
  unfold deleteSession
  split_ifs
  · exact .inl (.refl b c)
  · right
    refine recorded_of_none ?_ (filed_forget { b with sessions := (b.sessions.remove c).2 } c)
    change (b.sessions.remove c).2.get c = none
    rw [get_remove, if_pos rfl]

/-- What the end of a client's session brings about, and the end of another keeps. -/
theorem forgetAll_of_mem {P : BrokerState → Prop} (hc : c ∈ cs) (hself : ∀ b, P (forget b c))
    (hkeep : ∀ b a, P b → P (forget b a)) (b : BrokerState) :
    P (cs.foldl (fun b c => b.forget c) b) := by
  have hkept : ∀ (cs : List String) (b : BrokerState), P b →
      P (cs.foldl (fun b c => b.forget c) b) := by
    intro cs
    induction cs with
    | nil => exact fun _ h => h
    | cons a cs ih => exact fun b h => ih (b.forget a) (hkeep b a h)
  induction cs generalizing b with
  | nil => simp at hc
  | cons a cs ih =>
    rcases List.mem_cons.1 hc with rfl | hc
    · exact hkept cs _ (hself b)
    · exact ih hc (b.forget a)

theorem forgetAll_filed (hc : c ∈ cs) (b : BrokerState) :
    (cs.foldl (fun b c => b.forget c) b).filed c = none := by
  refine forgetAll_of_mem (P := fun b => b.filed c = none) hc (fun b => filed_forget b c) ?_ b
  intro b a h
  by_cases ha : c = a
  · exact ha ▸ filed_forget b c
  · have hsame := moves_sameRecord (c := c) (S := { removes := fun x => x = a
                                                    subscribes := fun _ => False
                                                    unsubscribes := fun _ => False })
      (forget_moves b rfl) id id ha
    exact hsame.filed.trans h

theorem forgetAll_sessions (cs : List String) (b : BrokerState) :
    (cs.foldl (fun b c => b.forget c) b).sessions = b.sessions := by
  induction cs generalizing b with
  | nil => rfl
  | cons a cs ih => exact ih (b.forget a)

theorem get_foldl_erase {m : FinMap String SessionEntry} (h : c ∈ cs ∨ m.get c = none) :
    (cs.foldl (fun m c => m.erase c) m).get c = none := by
  induction cs generalizing m with
  | nil => simpa using h
  | cons a cs ih =>
    refine ih ?_
    rw [FinMap.get_erase]
    by_cases ha : c = a
    · exact .inr (if_pos ha)
    · rw [List.mem_cons] at h
      rw [if_neg ha]
      exact h.imp (fun h => h.resolve_left ha) id

/-- An expired session goes together with its snapshot; the others are left alone. -/
theorem sweepExpired_record (b : BrokerState) (c : String) :
    SameRecord b b.sweepExpired c ∨ b.sweepExpired.Recorded c := by
  by_cases hc : c ∈ (b.sessions.cleanupExpired b.now).1
  · refine .inr (recorded_of_none ?_ (forgetAll_filed hc _))
    change (List.foldl _ _ _ : BrokerState).sessions.get c = none
    rw [forgetAll_sessions]
    exact get_foldl_erase (.inl hc)
  · refine .inl (moves_sameRecord (S := {
      removes := fun x => x ∈ (b.sessions.cleanupExpired b.now).1
      subscribes := fun _ => False
      unsubscribes := fun _ => False }) (sweepExpired_moves b ?_) id id hc)
    intro c' e hget hexp
    exact mem_cleanupExpired.2 ⟨e, hget, hexp⟩

/-- The gateway leaves the disk alone, which is right for a clean session. -/
theorem cleanupSession_record {clean : Bool}
    (hflag : ∀ e, b.sessions.get c = some e → e.epoch = epoch → e.cleanSession = clean)
    (h : b.Recorded c ∨ b.Justified c) : SameRecord b (Gateway.cleanupSession b c epoch clean) c ∨
      (Gateway.cleanupSession b c epoch clean).Recorded c := by
  unfold Gateway.cleanupSession
  split_ifs with hnot hclean
  · exact .inl (.refl b c)
  · right
    have hpersist : b.persistent c = false := by
      unfold owns at hnot
      unfold persistent
      cases hget : b.sessions.get c with
      | none => rfl
      | some e =>
        have hown : e.epoch = epoch := by simpa [hget] using hnot
        simp [hflag e hget hown, hclean]
    have hrec : b.Recorded c := h.elim id (fun hj => hj.recorded hpersist)
    have hfiled : b.filed c = none := by
      cases hs : b.storage with
      | none => rw [filed, hs, bind_none]
      | some s =>
        rw [hrec (by rw [hs]; rfl), due, if_neg (by simp [hpersist])]
    refine recorded_of_none ?_ hfiled
    change (b.sessions.remove c).2.get c = none
    rw [get_remove, if_pos rfl]
  · exact .inl ⟨rfl, rfl, (markOffline_sameRecord b c epoch c).entry, rfl⟩

/-! ### The start of a session -/

/-- A client with filters connects the way it did before: persistent if and only if its session
    is. -/
def mayJoin (b : BrokerState) (c : String) (clean : Bool) : Bool :=
  b.subscriptions.subscriptionsOf c = [] || b.persistent c == !clean

/-- A session is opened, and nothing else changes. -/
theorem Recorded.join {clean : Bool} {e : SessionEntry} (h : b.Recorded c)
    (hjoin : b.mayJoin c clean = true) (hstore : b'.storage = b.storage)
    (hsub : b'.subscriptions = b.subscriptions) (hget : b'.sessions.get c = some e)
    (hclean : e.cleanSession = clean) : b'.Recorded c := by
  intro hs
  have hfiled : b'.filed c = b.filed c := by rw [filed, hstore, filed]
  rw [hfiled, h (hstore ▸ hs), due, due, hsub]
  have hpersist : b'.persistent c = !clean := by
    rw [persistent, hget, any_some, hclean]
  rw [mayJoin, Bool.or_eq_true, decide_eq_true_eq, beq_iff_eq] at hjoin
  rcases hjoin with hnil | hkind
  · rw [if_neg (fun h => h.2 hnil), if_neg (fun h => h.2 hnil)]
  · rw [hpersist, hkind]

/-- After a start every client is recorded: its session was made from its snapshot. -/
theorem new_recorded {config : Settings} {s : Storage} {now : Instant} (hfiled : s.Filed)
    (h : new config (some s) now = some b) (c : String) : b.Recorded c := by
  intro _
  obtain ⟨hsub, hget⟩ := new_restores h
  obtain ⟨s', hs', hsess, -⟩ := loadAll_storage rfl h
  have hdisk : b.filed c = s.snapshotOf c := by
    rw [filed, hs', bind_some, snapshotOf, hsess, snapshotOf]
  rw [hdisk, due, hsub, restoredTree_subscriptionsOf hfiled]
  cases hv : s.snapshotOf c with
  | none => simp
  | some v =>
    obtain ⟨snap, rfl, rfl, hrest⟩ := hfiled.snapshotOf hv
    have hsome : (b.sessions.get snap.clientId).isSome = true :=
      (hget _).2 (List.mem_map_of_mem ((mem_loadAllSessions hfiled).2 hv))
    obtain ⟨e, he⟩ := isSome_iff_exists.1 hsome
    have hpersist : b.persistent snap.clientId = true := by
      simp [persistent, he, (new_restored h he).cleanSession]
    rw [if_pos ⟨hpersist, hrest.nonempty⟩]

end BrokerState

/-! ## A connection -/

namespace Task

variable {S : Scope} {t t' : Task} {c : String}

theorem moves_sameRecord (h : Moves S t t') (hsub : ¬ S.subscribes c) (hunsub : ¬ S.unsubscribes c)
    (hrem : ¬ S.removes c) : BrokerState.SameRecord t.broker t'.broker c := by
  induction h with
  | refl => exact .refl _ c
  | tail _ hstep ih =>
    refine ih.trans ?_
    rcases hstep.shared with hb | ⟨channels, trace, hb⟩
    · exact hb.sameRecord hsub hunsub hrem
    · rw [hb]
      exact ⟨rfl, rfl, rfl, rfl⟩

theorem moves_justified (h : Moves S t t') (hunsub : ¬ S.unsubscribes c)
    (hrem : ¬ S.removes c) (ht : t.broker.Justified c) : t'.broker.Justified c := by
  induction h with
  | refl => exact ht
  | tail _ hstep ih =>
    rcases hstep.shared with hb | ⟨channels, trace, hb⟩
    · exact hb.justified hunsub hrem ih
    · rw [hb]
      exact ⟨ih.isSome, ih.filed⟩

/-- A snapshot is written at the end of a computation that does not fail. -/
theorem wp_persistSnapshot (hc : t.conn.clientId = c) (ht : t.broker.Justified c) :
    wp persistSnapshot (fun _ t' => t'.broker.Recorded c ∧ t'.broker.Justified c) t := by
  unfold persistSnapshot
  rw [wp_update]
  subst hc
  have hmove := Move.broker (S := { unsubscribes := fun _ => False, removes := fun _ => False }) _
    (BrokerState.Move.persist (b := t.broker) t.conn.clientId (.inr (.inl trivial)))
  exact ⟨ht.persist, moves_justified (.single hmove) id id ht⟩

/-- What is left of a packet that changes the filters of its client: an accurate snapshot, unless
    the handling has failed. -/
def Settles (c : String) (r : Except BrokerError Unit) (t : Task) : Prop :=
  t.broker.Justified c ∧ (r = .ok () → t.broker.Recorded c)

theorem settles_error (e : BrokerError) (ht : t.broker.Justified c) : Settles c (.error e) t :=
  ⟨ht, fun h => absurd h (by simp)⟩

theorem wp_handleSubscribe (s : Subscribe) (hc : t.conn.clientId = c) (ht : t.broker.Justified c) :
    wp (handleSubscribe s) (Settles c) t := by
  let S : Scope := { unsubscribes := fun _ => False, removes := fun _ => False }
  -- everything before the snapshot is a sequence of moves
  have hflag : ∀ (e : BrokerError) (t1 : Task), Moves S t t1 → Settles c (.error e) t1 :=
    fun e t1 ht1 => settles_error e (moves_justified ht1 id id ht)
  unfold handleSubscribe
  refine wp_seq (Keeps.collect (fun a _ => keeps_subscribeTopic a trivial) t .refl) ?_ hflag
  intro results t1 ht1
  refine wp_seq (keeps_send (by simp) t1 ht1) ?_ hflag
  intro _ t2 ht2
  refine wp_seq (Keeps.forEach (fun a _ => keeps_deliverAllRetained a trivial) t2 ht2) ?_ hflag
  intro _ t3 ht3
  refine wp_mono (wp_persistSnapshot ((moves_clientId ht3).trans hc)
    (moves_justified ht3 id id ht)) ?_
  exact fun _ _ h => ⟨h.2, fun _ => h.1⟩

/-- The filters that an UNSUBSCRIBE names are not all that a persistent session has. -/
def leavesFilter (b : BrokerState) (c : String) (filters : List String) : Bool :=
  !b.persistent c || b.subscriptions.subscriptionsOf c = [] ||
    (b.subscriptions.subscriptionsOf c).any (fun f => f.1 ∉ filters)

/-- The state of a task while it serves an UNSUBSCRIBE: filters are taken out, but not the last one
    of a client with a snapshot. -/
structure Unsubscribing (c : String) (filters : List String) (t : Task) : Prop where
  clientId : t.conn.clientId = c
  justified : t.broker.Justified c
  left : t.broker.filed c = none ∨
    ∃ f ∈ t.broker.subscriptions.subscriptionsOf c, f.1 ∉ filters

theorem unsubscribing_of_leavesFilter {filters : List String} (hc : t.conn.clientId = c)
    (hleaves : leavesFilter t.broker c filters = true) (ht : t.broker.Justified c) :
    Unsubscribing c filters t := by
  refine ⟨hc, ht, ?_⟩
  by_cases hfiled : t.broker.filed c = none
  · exact .inl hfiled
  · obtain ⟨hpersist, hne⟩ := ht.filed hfiled
    right
    simpa [leavesFilter, hpersist, hne] using hleaves

theorem unsubscribing_unsubscribeFilter {filters : List String} {filter : String}
    (hfilter : filter ∈ filters) : Keeps (Unsubscribing c filters) (unsubscribeFilter filter) := by
  refine Keeps.update ?_
  rintro t ⟨rfl, hjust, hleft⟩
  have hleft' : t.broker.filed t.conn.clientId = none ∨ ∃ f ∈
      (t.broker.subscriptions.unsubscribe t.conn.clientId filter).2.subscriptionsOf t.conn.clientId,
      f.1 ∉ filters := by
    refine hleft.imp id ?_
    rintro ⟨f, hf, hnot⟩
    refine ⟨f, t.broker.subscriptions.mem_subscriptionsOf_unsubscribe hf ?_, hnot⟩
    rintro rfl
    exact hnot hfilter
  refine ⟨rfl, ⟨hjust.isSome, ?_⟩, hleft'⟩
  intro hne
  refine ⟨(hjust.filed hne).1, ?_⟩
  obtain ⟨f, hf, -⟩ := hleft'.resolve_left hne
  exact List.ne_nil_of_mem hf

theorem wp_handleUnsubscribe (u : Unsubscribe) (hc : t.conn.clientId = c)
    (hleaves : leavesFilter t.broker c u.topicFilters = true) (ht : t.broker.Justified c) :
    wp (handleUnsubscribe u) (Settles c) t := by
  let S : Scope := { subscribes := fun _ => False, unsubscribes := fun _ => False
                     removes := fun _ => False }
  have hloop : Keeps (Unsubscribing c u.topicFilters) (forEach unsubscribeFilter u.topicFilters) :=
    Keeps.forEach (fun _ hfilter => unsubscribing_unsubscribeFilter hfilter)
  unfold handleUnsubscribe
  refine wp_seq (hloop t (unsubscribing_of_leavesFilter hc hleaves ht)) ?_
    (fun e _ h => settles_error e h.justified)
  intro _ t1 h1
  have hsent : ∀ t2, Moves S t1 t2 → t2.broker.Justified c :=
    fun t2 ht2 => (moves_sameRecord ht2 id id id).justified h1.justified
  refine wp_seq (keeps_send (S := S) (by simp) t1 .refl) ?_
    (fun e t2 ht2 => settles_error e (hsent t2 ht2))
  intro _ t2 ht2
  refine wp_mono (wp_persistSnapshot ((moves_clientId ht2).trans h1.clientId) (hsent t2 ht2)) ?_
  exact fun _ _ h => ⟨h.2, fun _ => h.1⟩

/-- A packet that changes the filters of its client, from the bytes received to the end of the
    arm. -/
theorem wp_inboundArm_settles {packet : Packet} {x : Handler Unit} (streamEnded : Bool)
    (hnext : t.nextInbound = some packet)
    (hpkt : handlePacket packet = (do x; pure .continue))
    (hx : ∀ t' : Task, t'.broker = t.broker → t'.conn.clientId = t.conn.clientId →
      wp x (Settles c) t') :
    wp (inboundArm streamEnded) (fun _ t' => t'.broker.Recorded c ∨
      t'.broker.Justified c ∧ t'.conn.exit = some .abnormal) t := by
  refine wp_inboundArm_next streamEnded hnext (fun conn hsame => ?_)
  rw [hpkt]
  refine wp_seq (hx _ rfl hsame.clientId) ?_ (fun _ _ h => .inr ⟨h.1, rfl⟩)
  rintro _ t1 ⟨-, hrec⟩
  exact (wp_pure ..).2 (.inl (hrec rfl))

end Task

end LumenMQ
