import LumenMQ.OfflineQueues
import LumenMQ.OfflineRecords
import LumenMQ.SnapshotRuns

set_option autoImplicit false

/-! # The disk and the queues

The records of the offline tree are meant to be a copy of the queues in memory: what is queued is
written through, and what is handed over or forgotten is taken off the disk. A queue that gives up a
message for another keeps its record on disk, though, and a queue that is emptied without a scan of
the disk leaves all of its records behind. -/

namespace LumenMQ

open Option List SessionManager Storage OfflineQueue

namespace BrokerState

variable {S : Scope} {b b' : BrokerState} {c : String}
variable {records : List OutboundPublish} {exclude : String} {cs : List String} {r : Routed}
  {epoch : Nat}

/-- The messages in the records of a client, if there is a disk. -/
def recordsOf (b : BrokerState) (c : String) : Option (List OutboundPublish) :=
  b.storage.map (fun s => s.recordsOf c)

/-- What lies on disk for a client is what waits in its queue. -/
def Mirrors (b : BrokerState) (c : String) : Prop :=
  ∀ records, b.recordsOf c = some records → records = b.sessions.queued c

def Numbered (b : BrokerState) : Prop := ∀ s, b.storage = some s → s.Numbered

/-- The disk and the queues agree on every client. -/
structure InStep (b : BrokerState) : Prop where
  numbered : b.Numbered
  mirrors : ∀ c, b.Mirrors c

/-! ## Frames -/

/-- What a move does to the offline tree. -/
inductive Rewrites (S : Scope) (b : BrokerState) : Option Storage → Prop
  | same (f : Storage → Storage)
      (hf : ∀ s, (f s).offline = s.offline ∧ (f s).nextId = s.nextId) :
      Rewrites S b (b.storage.map f)
  | pushed (clientId : String) (msg : OutboundPublish) (hto : S.delivers clientId) :
      Rewrites S b (b.storage.map (fun s => s.pushOffline clientId msg))
  | drained (clientId : String) (f : Storage → Storage)
      (hf : ∀ s, (f s).offline = (s.drainOffline clientId).2.offline ∧ (f s).nextId = s.nextId)
      (h : S.removes clientId ∨ S.clears clientId) : Rewrites S b (b.storage.map f)

theorem Rewrites.refl : Rewrites S b b.storage := by
  have h : Rewrites S b (b.storage.map id) := .same id (fun _ => ⟨rfl, rfl⟩)
  rwa [Option.map_id] at h

theorem setRetained_rewrites (topic : String) (payload : Bytes) (qos : QoS) :
    ∃ f : Storage → Storage, (∀ s, (f s).offline = s.offline ∧ (f s).nextId = s.nextId) ∧
      (b.setRetained topic payload qos).storage = b.storage.map f := by
  show ∃ f : Storage → Storage, _ ∧ (b.retain.set b.storage topic payload qos).2 = b.storage.map f
  unfold RetainStore.set
  split_ifs
  · exact ⟨id, fun _ => ⟨rfl, rfl⟩, (Option.map_id' ..).symm⟩
  · exact ⟨id, fun _ => ⟨rfl, rfl⟩, (Option.map_id' ..).symm⟩
  · exact ⟨fun s => s.deleteRetained topic, fun _ => ⟨rfl, rfl⟩, rfl⟩
  · exact ⟨fun s => s.saveRetained topic { topic, payload, qos }, fun _ => ⟨rfl, rfl⟩, rfl⟩

theorem persist_rewrites : Rewrites S b (b.persistSessionSnapshot c).storage := by
  unfold persistSessionSnapshot
  split
  · exact .refl
  · next s hs =>
    dsimp only
    split_ifs
    · exact .refl
    · exact .refl
    · have h : Rewrites S b (b.storage.map (fun s => s.saveSession c
          { clientId := c, subscriptions := b.subscriptions.subscriptionsOf c })) :=
        .same _ (fun _ => ⟨rfl, rfl⟩)
      rwa [hs] at h

theorem Move.rewrites (h : b.Move S b') : Rewrites S b b'.storage := by
  cases h with
  | setRetained r hr =>
    obtain ⟨f, hf, hstore⟩ := setRetained_rewrites (b := b) r.topic r.payload r.qos
    rw [hstore]
    exact .same f hf
  | deliver r c subQos b' hr hne hto hdel =>
    cases deliver_delivered hdel with
    | sent | lost => exact .refl
    | enqueued => exact .pushed c _ hto
  | persist c h => exact persist_rewrites
  | deleteSnapshot c hrem => exact .drained c _ (fun _ => ⟨rfl, rfl⟩) (.inl hrem)
  | clearDisk c hclear => exact .drained c _ (fun _ => ⟨rfl, rfl⟩) (.inr hclear)
  | _ => exact .refl

/-- Nothing changes of the queue of a client, in memory and on disk. -/
structure SameQueue (b b' : BrokerState) (c : String) : Prop where
  queueOf : b'.sessions.queueOf c = b.sessions.queueOf c
  records : b'.recordsOf c = b.recordsOf c

theorem SameQueue.refl (b : BrokerState) (c : String) : SameQueue b b c := ⟨rfl, rfl⟩

theorem SameQueue.trans {b1 b2 b3 : BrokerState} (h : SameQueue b1 b2 c)
    (h' : SameQueue b2 b3 c) : SameQueue b1 b3 c :=
  ⟨h'.queueOf.trans h.queueOf, h'.records.trans h.records⟩

theorem SameQueue.mirrors (h : SameQueue b b' c) (hb : b.Mirrors c) : b'.Mirrors c := by
  unfold Mirrors
  rw [h.records, queued_eq, h.queueOf, ← queued_eq]
  exact hb

theorem recordsOf_congr {f : Storage → Storage}
    (hf : ∀ s, b.storage = some s → (f s).recordsOf c = s.recordsOf c)
    (hstore : b'.storage = b.storage.map f) : b'.recordsOf c = b.recordsOf c := by
  rw [recordsOf, recordsOf, hstore]
  cases hs : b.storage with
  | none => rfl
  | some s =>
    rw [map_some, map_some, map_some]
    exact congrArg some (hf s hs)

theorem recordsOf_of_offline {s s' : Storage} (h : s'.offline = s.offline) (c : String) :
    s'.recordsOf c = s.recordsOf c := by
  unfold Storage.recordsOf Storage.drainOffline
  rw [h]

theorem Numbered.of_offline {s s' : Storage} (h : s'.offline = s.offline)
    (hid : s'.nextId = s.nextId) (hs : s.Numbered) : s'.Numbered := by
  unfold Storage.Numbered
  rw [h, hid]
  exact hs

theorem Move.numbered (h : b.Move S b') (hto : ∀ c, ¬ S.delivers c) (hb : b.Numbered) :
    b'.Numbered := by
  have hrew := h.rewrites
  unfold Numbered
  generalize b'.storage = storage at hrew
  intro s hs
  cases hrew with
  | same f hf =>
    obtain ⟨s0, hs0, rfl⟩ := map_eq_some_iff.1 hs
    exact Numbered.of_offline (hf s0).1 (hf s0).2 (hb s0 hs0)
  | pushed c msg hc => exact absurd hc (hto c)
  | drained c f hf =>
    obtain ⟨s0, hs0, rfl⟩ := map_eq_some_iff.1 hs
    exact Numbered.of_offline (hf s0).1 (hf s0).2 ((hb s0 hs0).drainOffline c)

/-- A queue that no move may touch, whatever happens to its records. -/
theorem Move.queueOf_eq (h : b.Move S b') (hto : ¬ S.delivers c) (hrem : ¬ S.removes c) :
    b'.sessions.queueOf c = b.sessions.queueOf c := by
  have hreq := h.requeues c
  generalize b'.sessions.queueOf c = queue at hreq
  cases hreq with
  | same => rfl
  | removed hrem' => exact absurd hrem' hrem
  | enqueued q q' msg out hc => exact absurd hc hto

theorem Move.sameQueue (h : b.Move S b') (hto : ∀ c, ¬ S.delivers c) (hrem : ¬ S.removes c)
    (hclear : ¬ S.clears c) (hb : b.Numbered) : SameQueue b b' c := by
  refine ⟨h.queueOf_eq (hto c) hrem, ?_⟩
  have hrew := h.rewrites
  generalize hstore : b'.storage = storage at hrew
  cases hrew with
  | same f hf => exact recordsOf_congr (fun s _ => recordsOf_of_offline (hf s).1 c) hstore
  | pushed c' msg hc => exact absurd hc (hto c')
  | drained c' f hf hc' =>
    refine recordsOf_congr (fun s hs => ?_) hstore
    rw [recordsOf_of_offline (hf s).1, recordsOf_drainOffline (hb s hs), if_neg]
    rintro rfl
    exact hc'.elim hrem hclear

/-- Without records, a client gets some only by a delivery. -/
theorem Move.recordsOf_nil (h : b.Move S b') (hto : ∀ c, ¬ S.delivers c)
    (hb : ∀ records, b.recordsOf c = some records → records = [])
    (hrecs : b'.recordsOf c = some records) : records = [] := by
  obtain ⟨s', hs', rfl⟩ := map_eq_some_iff.1 hrecs
  have hrew := h.rewrites
  rw [hs'] at hrew
  generalize hstore : some s' = storage at hrew
  have hnil : ∀ s, b.storage = some s → s.recordsOf c = [] :=
    fun s hs => hb _ (by rw [recordsOf, hs, map_some])
  cases hrew with
  | same f hf =>
    obtain ⟨s, hs, rfl⟩ := map_eq_some_iff.1 hstore.symm
    rw [recordsOf_of_offline (hf s).1, hnil s hs]
  | pushed c' msg hc' => exact absurd hc' (hto c')
  | drained c' f hf =>
    obtain ⟨s, hs, rfl⟩ := map_eq_some_iff.1 hstore.symm
    rw [recordsOf_of_offline (hf s).1]
    -- fewer entries give fewer records
    have hsub : ((s.drainOffline c').2.recordsOf c).Sublist (s.recordsOf c) :=
      (filter_sublist.filter _).filterMap _
    rw [hnil s hs] at hsub
    exact sublist_nil.1 hsub

theorem moves_sameQueue (h : b.Moves S b') (hto : ∀ c, ¬ S.delivers c) (hb : b.Numbered) :
    b'.Numbered ∧ ∀ c, ¬ S.removes c → ¬ S.clears c → SameQueue b b' c := by
  induction h with
  | refl => exact ⟨hb, fun c _ _ => .refl b c⟩
  | tail _ hstep ih =>
    exact ⟨hstep.numbered hto ih.1, fun c hrem hclear =>
      (ih.2 c hrem hclear).trans (hstep.sameQueue hto hrem hclear ih.1)⟩

theorem moves_recordsOf_nil (h : b.Moves S b') (hto : ∀ c, ¬ S.delivers c)
    (hb : ∀ records, b.recordsOf c = some records → records = [])
    (hrecs : b'.recordsOf c = some records) : records = [] := by
  induction h generalizing records with
  | refl => exact hb records hrecs
  | tail _ hstep ih => exact hstep.recordsOf_nil hto (fun _ => ih) hrecs

/-- Only the clients that lose their session or their records need a closer look. -/
theorem InStep.of_moves (hb : b.InStep) (h : b.Moves S b') (hto : ∀ c, ¬ S.delivers c)
    (hself : ∀ c, S.removes c ∨ S.clears c → b'.Mirrors c) : b'.InStep := by
  obtain ⟨hnum, hsame⟩ := moves_sameQueue h hto hb.numbered
  refine ⟨hnum, fun c => ?_⟩
  by_cases hc : S.removes c ∨ S.clears c
  · exact hself c hc
  · rw [not_or] at hc
    exact (hsame c hc.1 hc.2).mirrors (hb.mirrors c)

/-! ## Routing -/

/-- The queues of the clients take so many messages without giving one up, their names fit the keys,
    and there are numbers left. -/
structure RoomFor (b : BrokerState) (exclude : String) (cs : List String) : Prop where
  ids : ∀ s, b.storage = some s → s.nextId + cs.length ≤ 2 ^ 64
  takes : ∀ c ∈ cs, c ≠ exclude → FitsKey c ∧
    ∀ q, b.sessions.queueOf c = some q → q.takes b.now (cs.count c) = true

theorem RoomFor.tail (h : b.RoomFor exclude (c :: cs)) : b.RoomFor exclude cs := by
  refine ⟨fun s hs => ?_, fun c' hc' hne => ?_⟩
  · have hids := h.ids s hs
    rw [length_cons] at hids
    omega
  · obtain ⟨hfits, htake⟩ := h.takes c' (mem_cons_of_mem _ hc') hne
    refine ⟨hfits, fun q hq => ?_⟩
    obtain ⟨httl, hfresh, hlen⟩ := takes_iff.1 (htake q hq)
    have hcnt : cs.count c' ≤ (c :: cs).count c' := count_le_count_cons
    exact takes_iff.2 ⟨httl, hfresh, by omega⟩

/-- A message goes through the channel, or into the queue and onto the disk. -/
theorem Delivered.inStep {req : OutboundPublish} (h : b.Delivered c req b') (hc : c ≠ exclude)
    (hroom : b.RoomFor exclude (c :: cs)) (hb : b.InStep) : b'.InStep ∧ b'.RoomFor exclude cs := by
  cases h with
  | sent => exact ⟨⟨hb.numbered, hb.mirrors⟩, ⟨hroom.tail.ids, hroom.tail.takes⟩⟩
  | lost => exact ⟨hb, hroom.tail⟩
  | enqueued e q q' out hget hqueue henq =>
    obtain ⟨hfits, htake⟩ := hroom.takes c mem_cons_self hc
    have hq : b.sessions.queueOf c = some q := by
      rw [queueOf, hget]
      exact hqueue
    have hcnt : (c :: cs).count c = cs.count c + 1 := count_cons_self
    obtain ⟨hinner, hleft⟩ := enqueue_of_takes (hcnt ▸ htake q hq) henq
    have hqueues : ∀ c', (b.sessions.put c { e with offlineQueue := some q' }).queueOf c' =
        if c' = c then some q' else b.sessions.queueOf c' := by
      intro c'
      rw [queueOf, get_put]
      split_ifs <;> rfl
    have hids : ∀ s, b.storage = some s → s.nextId + (cs.length + 1) ≤ 2 ^ 64 := hroom.ids
    refine ⟨⟨?_, ?_⟩, ?_, ?_⟩
    · intro s hs
      obtain ⟨s0, hs0, rfl⟩ := map_eq_some_iff.1 hs
      exact (hb.numbered s0 hs0).pushOffline hfits req
    · intro c' records hrecs
      obtain ⟨s, hs, rfl⟩ := map_eq_some_iff.1 hrecs
      obtain ⟨s0, hs0, rfl⟩ := map_eq_some_iff.1 hs
      have hid := hids s0 hs0
      have hold : s0.recordsOf c' = b.sessions.queued c' :=
        hb.mirrors c' _ (by rw [recordsOf, hs0, map_some])
      rw [recordsOf_pushOffline (hb.numbered s0 hs0) hfits (by omega), hold,
        queued_eq, queued_eq]
      show _ = (((b.sessions.put c { e with offlineQueue := some q' }).queueOf c').map _).getD []
      rw [hqueues]
      by_cases hc' : c' = c
      · rw [if_pos hc', if_pos hc', hc', hq]
        simp [hinner]
      · rw [if_neg hc', if_neg hc']
    · intro s hs
      obtain ⟨s0, hs0, rfl⟩ := map_eq_some_iff.1 hs
      have hid := hids s0 hs0
      show s0.nextId + 1 + cs.length ≤ 2 ^ 64
      omega
    · intro c' hc' hne
      obtain ⟨hfits', htake'⟩ := hroom.tail.takes c' hc' hne
      refine ⟨hfits', fun q1 hq1 => ?_⟩
      have hq1' : (b.sessions.put c { e with offlineQueue := some q' }).queueOf c' = some q1 := hq1
      rw [hqueues] at hq1'
      by_cases hself : c' = c
      · rw [if_pos hself, some.injEq] at hq1'
        rw [← hq1', hself]
        exact hleft
      · rw [if_neg hself] at hq1'
        exact htake' q1 hq1'

theorem deliverAll_inStep {topic : String} {payload : Bytes} {qos : QoS}
    {subscribers : List (String × QoS)} (hroom : b.RoomFor exclude (subscribers.map Prod.fst))
    (h : deliverAll topic payload qos exclude subscribers b = some b') (hb : b.InStep) :
    b'.InStep := by
  induction subscribers generalizing b with
  | nil => exact some.inj h ▸ hb
  | cons s rest ih =>
    obtain ⟨c, subQos⟩ := s
    unfold deliverAll at h
    split_ifs at h with hc
    · exact ih hroom.tail h hb
    · obtain ⟨b1, hone, hrest⟩ := bind_eq_some_iff.1 h
      obtain ⟨hb1, hroom1⟩ := (deliver_delivered hone).inStep hc hroom hb
      exact ih hroom1 hrest hb1

/-- The publication finds room in all the queues it may end up in. -/
def roomFor (b : BrokerState) (r : Routed) : Bool :=
  let cs := (b.collectSubscribers r.topic).1.map Prod.fst
  b.storage.all (fun s => s.nextId + cs.length ≤ 2 ^ 64) &&
    cs.all (fun c => c = r.publisher ||
      (decide (FitsKey c) && (b.sessions.queueOf c).all (fun q => q.takes b.now (cs.count c))))

/-- The room that a publication needs depends on its topic and its publisher. -/
theorem roomFor_congr {r' : Routed} (htop : r.topic = r'.topic)
    (hpub : r.publisher = r'.publisher) : b.roomFor r = b.roomFor r' := by
  unfold roomFor
  rw [htop, hpub]

theorem roomFor_spec (h : b.roomFor r = true) :
    b.RoomFor r.publisher ((b.collectSubscribers r.topic).1.map Prod.fst) := by
  unfold roomFor at h
  generalize (b.collectSubscribers r.topic).1.map Prod.fst = cs at h ⊢
  simp only [Bool.and_eq_true, Option.all_eq_true, decide_eq_true_eq, List.all_eq_true,
    Bool.or_eq_true] at h
  exact ⟨h.1, fun c hc hne => (h.2 c hc).resolve_left hne⟩

/-- **A publication for which there is room keeps the disk and the queues in step.** -/
theorem route_inStep (hroom : b.roomFor r = true) (h : b.route r = some b') (hb : b.InStep) :
    b'.InStep := by
  have hspec := roomFor_spec hroom
  unfold route publish at h
  by_cases hret : r.retain = true
  · simp only [if_pos hret] at h
    obtain ⟨f, hf, hstore⟩ :=
      setRetained_rewrites (b := b.note (.routed r)) r.topic r.payload r.qos
    have hset : ((b.note (.routed r)).setRetained r.topic r.payload r.qos).InStep :=
      InStep.of_moves (S := { delivers := fun _ => False, removes := fun _ => False
                              clears := fun _ => False })
        (b := b.note (.routed r)) ⟨hb.numbered, hb.mirrors⟩
        (.single (.setRetained r mem_cons_self)) (fun _ => id)
        (fun _ h => h.elim False.elim False.elim)
    refine deliverAll_inStep ?_ h ⟨hset.numbered, hset.mirrors⟩
    refine ⟨fun s hs => ?_, hspec.takes⟩
    rw [show (((b.note (.routed r)).setRetained r.topic r.payload r.qos).collectSubscribers
      r.topic).2.storage = b.storage.map f from hstore] at hs
    obtain ⟨s0, hs0, rfl⟩ := map_eq_some_iff.1 hs
    rw [(hf s0).2]
    exact hspec.ids s0 hs0
  · simp only [if_neg hret] at h
    refine deliverAll_inStep ?_ h ⟨hb.numbered, hb.mirrors⟩
    exact ⟨hspec.ids, hspec.takes⟩

/-! ## The ends of a session -/

theorem mirrors_of_nil (hrecs : ∀ records, b.recordsOf c = some records → records = [])
    (hq : b.sessions.queueOf c = none) : b.Mirrors c := by
  intro records h
  rw [hrecs records h, queued_eq, hq]
  rfl

theorem recordsOf_forget (h : (b.forget c).recordsOf c = some records) : records = [] := by
  obtain ⟨s, hs, rfl⟩ := map_eq_some_iff.1 h
  obtain ⟨s0, -, rfl⟩ := map_eq_some_iff.1 hs
  exact recordsOf_drainOffline_self ..

theorem forget_mirrors (hget : b.sessions.get c = none) : (b.forget c).Mirrors c :=
  mirrors_of_nil (fun _ => recordsOf_forget) (queueOf_eq_none hget)

/-- Going offline leaves the queues alone. -/
theorem markOffline_sameQueue (b : BrokerState) (c' : String) (epoch : Nat) (c : String) :
    SameQueue b { b with sessions := b.sessions.markOffline b.now c' epoch } c := by
  refine ⟨?_, rfl⟩
  rw [queueOf, queueOf, markOffline_get]
  cases b.sessions.get c with
  | none => rfl
  | some e =>
    rw [map_some]
    split_ifs <;> rfl

theorem persist_sameQueue (b : BrokerState) (c' c : String) :
    SameQueue b (b.persistSessionSnapshot c') c := by
  unfold persistSessionSnapshot
  split
  · exact .refl b c
  · next s hs =>
    dsimp only
    split_ifs
    · exact .refl b c
    · exact .refl b c
    · refine ⟨rfl, ?_⟩
      rw [recordsOf, recordsOf, hs]
      rfl

theorem cleanup_mirrors (clean : Bool) (h : b.Mirrors c) : (b.cleanup c epoch clean).Mirrors c := by
  have hoff := (markOffline_sameQueue b c epoch c).mirrors h
  unfold cleanup
  split_ifs
  · split
    · exact h
    · next heq => exact forget_mirrors (get_of_removeIfEpoch heq)
  · dsimp only
    split_ifs
    · exact hoff
    · split
      · exact hoff
      · next heq => exact forget_mirrors (get_of_removeIfEpoch heq)
    · exact (persist_sameQueue _ c c).mirrors hoff

/-- The end of a connection: the records of a session that goes are taken off the disk. -/
theorem cleanup_inStep (clean : Bool) (hb : b.InStep) : (b.cleanup c epoch clean).InStep := by
  refine hb.of_moves (S := { removes := fun x => x = c, clears := fun _ => False
                             delivers := fun _ => False }) (cleanup_moves b rfl) (fun _ => id) ?_
  rintro c' (rfl | hclear)
  · exact cleanup_mirrors clean (hb.mirrors c')
  · exact hclear.elim

theorem afterExit_inStep {clean : Bool} {x : Exit}
    (hroom : x = .abnormal → ∀ w, b.pendingWill c epoch = some w →
      b.roomFor (b.willRouted c w) = true) (h : b.afterExit c epoch clean x = some b')
    (hb : b.InStep) : b'.InStep := by
  have hquiet : ({ b with sessions := (b.sessions.takeWill c epoch).2 } : BrokerState).InStep :=
    hb.of_moves (S := { removes := fun _ => False, clears := fun _ => False
                        delivers := fun _ => False })
      (.single (.takeWill c epoch)) (fun _ => id) (fun _ h => h.elim False.elim False.elim)
  cases x with
  | closed => exact some.inj h ▸ hb
  | shutdown => exact some.inj h ▸ cleanup_inStep clean hb
  | disconnect => exact some.inj h ▸ cleanup_inStep clean hquiet
  | abnormal =>
    obtain ⟨b1, hfire, rfl⟩ := map_eq_some_iff.1 h
    refine cleanup_inStep clean ?_
    unfold fireWill at hfire
    split_ifs at hfire with hown
    · have hroom' := hroom rfl
      unfold pendingWill at hroom'
      rcases hw : b.sessions.takeWill c epoch with ⟨_ | w, sessions⟩
      · simp only [hw, some.injEq] at hfire
        rw [hw] at hquiet
        exact hfire ▸ hquiet
      · simp only [hw] at hfire hroom'
        rw [hw] at hquiet
        have hqueues : ∀ c', sessions.queueOf c' = b.sessions.queueOf c' := by
          intro c'
          have hget := takeWill_get b.sessions c c' epoch
          rw [hw] at hget
          rw [queueOf, queueOf, hget]
          cases b.sessions.get c' with
          | none => rfl
          | some e =>
            rw [map_some]
            split_ifs <;> rfl
        -- taking the will out changes nothing that the room depends on
        have hsame : ({ b with sessions } : BrokerState).roomFor (b.willRouted c w) =
            b.roomFor (b.willRouted c w) := by
          unfold roomFor
          simp only [hqueues]
          rfl
        exact route_inStep (hsame.trans (hroom' w rfl)) hfire hquiet
    · exact some.inj hfire ▸ hb

theorem deleteSession_inStep (c : String) (hb : b.InStep) : (b.deleteSession c).2.InStep := by
  refine hb.of_moves (S := { removes := fun x => x = c, clears := fun _ => False
                             delivers := fun _ => False })
    (Sys.deleteSession_moves rfl) (fun _ => id) ?_
  rintro c' (rfl | hclear)
  · unfold BrokerState.deleteSession
    split_ifs
    · exact hb.mirrors c'
    · refine forget_mirrors (b := { b with sessions := (b.sessions.remove c').2 }) ?_
      show (b.sessions.remove c').2.get c' = none
      rw [get_remove, if_pos rfl]
  · exact hclear.elim

theorem recordsOf_forgetAll (hc : c ∈ cs)
    (h : (cs.foldl (fun b c => b.forget c) b).recordsOf c = some records) : records = [] := by
  refine forgetAll_of_mem (P := fun b => ∀ records, b.recordsOf c = some records → records = [])
    hc (fun _ _ => recordsOf_forget) ?_ b records h
  intro b a hb records hrecs
  exact moves_recordsOf_nil (S := { delivers := fun _ => False }) (forget_moves b trivial)
    (fun _ => id) hb hrecs

/-- An expired session goes together with its records. -/
theorem sweepExpired_inStep (hb : b.InStep) : b.sweepExpired.InStep := by
  refine hb.of_moves (S := { removes := fun x => x ∈ (b.sessions.cleanupExpired b.now).1
                             clears := fun _ => False
                             delivers := fun _ => False })
    (sweepExpired_moves b ?_) (fun _ => id) ?_
  · intro c e hget hexp
    exact mem_cleanupExpired.2 ⟨e, hget, hexp⟩
  · rintro c (hc | hclear)
    · refine mirrors_of_nil (fun _ => recordsOf_forgetAll hc) (queueOf_eq_none ?_)
      show (foldl _ _ _ : BrokerState).sessions.get c = none
      rw [forgetAll_sessions]
      exact get_foldl_erase (.inl hc)
    · exact hclear.elim

/-- The gateway leaves the disk alone, which is right because a clean session has no queue. -/
theorem cleanupSession_inStep {clean : Bool} (hlim : b.Limited)
    (hflag : ∀ e, b.sessions.get c = some e → e.epoch = epoch → e.cleanSession = clean)
    (hb : b.InStep) : (Gateway.cleanupSession b c epoch clean).InStep := by
  refine hb.of_moves (S := { removes := fun x => x = c, clears := fun _ => False
                             delivers := fun _ => False })
    (Gateway.cleanupSession_moves rfl trivial) (fun _ => id) ?_
  rintro c' (rfl | hclear)
  · unfold Gateway.cleanupSession
    split_ifs with hnot hclean
    · exact hb.mirrors c'
    · have hq : b.sessions.queueOf c' = none := by
        unfold owns at hnot
        cases hget : b.sessions.get c' with
        | none => exact queueOf_eq_none hget
        | some e =>
          have hown : e.epoch = epoch := by simpa [hget] using hnot
          rw [queueOf, hget]
          exact hlim.clean c' e hget (by rw [hflag e hget hown, hclean])
      refine SameQueue.mirrors (b := b) ⟨?_, rfl⟩ (hb.mirrors c')
      show (b.sessions.remove c').2.queueOf c' = _
      rw [queueOf, get_remove, if_pos rfl, hq]
      rfl
    · have hsame := markOffline_sameQueue b c' epoch c'
      exact SameQueue.mirrors (b := b) ⟨hsame.queueOf, rfl⟩ (hb.mirrors c')
  · exact hclear.elim

/-! ## Construction -/

/-- A start that finds no records on disk begins with empty queues. -/
theorem new_inStep {config : Settings} {storage : Option Storage} {now : Instant}
    (hempty : ∀ s, storage = some s → s.offline.entries = [])
    (h : new config storage now = some b) : b.InStep := by
  cases storage with
  | none =>
    rw [← some.inj h]
    refine ⟨fun s hs => by simp at hs, fun c records hrecs => ?_⟩
    simp [recordsOf] at hrecs
  | some s =>
    obtain ⟨s', hs', -, -, hleft⟩ := loadAll_storage rfl h
    have hnil : s'.offline.entries = [] := by
      rw [eq_nil_iff_forall_not_mem]
      intro e he
      have hmem := (hleft e he).1
      rw [hempty s rfl] at hmem
      exact absurd hmem not_mem_nil
    obtain ⟨b1, hb1, hqueued⟩ := new_of_unclaimed config now (s := s) (by
      rintro pre snap hsnap ⟨key, msg, hmem, -⟩
      rw [hempty s rfl] at hmem
      exact absurd hmem not_mem_nil)
    obtain rfl : b1 = b := some.inj (hb1.symm.trans h)
    refine ⟨fun s1 hs1 => ?_, fun c records hrecs => ?_⟩
    · rw [← some.inj (hs'.symm.trans hs1)]
      exact numbered_of_nil hnil
    · rw [recordsOf, hs', map_some, some.injEq] at hrecs
      rw [← hrecs, hqueued, recordsOf_of_nil hnil]

end BrokerState

end LumenMQ
