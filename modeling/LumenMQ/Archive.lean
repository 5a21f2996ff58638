import LumenMQ.Subscriptions

set_option autoImplicit false

/-! # The snapshots on disk

A snapshot lies under the key of its client, and its filters were accepted when the client
subscribed to them. A start therefore enters every filter of every snapshot again, and nothing
else. -/

namespace LumenMQ

open Option List BrokerState SubscriptionTree OrderedMap

variable {snaps : List SessionSnapshot}

open Relation (ReflTransGen)

theorem stringBytes_injective {a b : String} (h : stringBytes a = stringBytes b) : a = b := by
  have hparse := congrArg fromUtf8 h
  rw [Reader.fromUtf8_stringBytes, Reader.fromUtf8_stringBytes] at hparse
  exact some.inj hparse

/-- The filters of a snapshot can be entered again one after the other. -/
structure SessionSnapshot.Restorable (snap : SessionSnapshot) : Prop where
  nonempty : snap.subscriptions ≠ []
  nodup : (snap.subscriptions.map Prod.fst).Nodup
  accepted : ∀ f ∈ snap.subscriptions.map Prod.fst, SubscriptionTree.acceptsFilter f = true

namespace Storage

variable {snap : SessionSnapshot} {t : SubscriptionTree}

/-- What lies under the key of a client in the tree of snapshots. -/
def snapshotOf (s : Storage) (c : String) : Option (Option SessionSnapshot) :=
  s.sessions.get (stringBytes c)

/-- The tree that a start builds from the snapshots. -/
def restoredTree (s : Storage) : SubscriptionTree :=
  s.loadAllSessions.foldl (fun t snap => BrokerState.restoreSubscriptions snap t) {}

/-- Every snapshot lies under the key of its client and can be restored. -/
def Filed (s : Storage) : Prop :=
  ∀ e ∈ s.sessions.entries, ∃ snap : SessionSnapshot,
    e = (stringBytes snap.clientId, some snap) ∧ snap.Restorable

variable {s : Storage} {c : String}

theorem snapshotOf_saveSession (s : Storage) (c c' : String) (snap : SessionSnapshot) :
    (s.saveSession c snap).snapshotOf c' = if c' = c then some
    (some snap) else s.snapshotOf c' := by
  unfold snapshotOf saveSession
  rw [get_insert]
  by_cases h : c' = c
  · rw [if_pos h, if_pos (h ▸ rfl)]
  · rw [if_neg h, if_neg (fun hb => h (stringBytes_injective hb))]

theorem snapshotOf_deleteSession (s : Storage) (c c' : String) :
    (s.deleteSession c).snapshotOf c' = if c' = c then none else s.snapshotOf c' := by
  unfold snapshotOf deleteSession
  rw [get_remove]
  by_cases h : c' = c
  · rw [if_pos h, if_pos (h ▸ rfl)]
  · rw [if_neg h, if_neg (fun hb => h (stringBytes_injective hb))]

theorem Filed.saveSession (h : s.Filed) (hsnap : snap.Restorable) :
    (s.saveSession snap.clientId snap).Filed := by
  intro e he
  rcases mem_insert.1 he with rfl | ⟨hold, -⟩
  · exact ⟨snap, rfl, hsnap⟩
  · exact h e hold

theorem Filed.deleteSession (h : s.Filed) (c : String) : (s.deleteSession c).Filed :=
  fun e he => h e (mem_remove.1 he).1

theorem mem_loadAllSessions (h : s.Filed) :
    snap ∈ s.loadAllSessions ↔ s.snapshotOf snap.clientId = some (some snap) := by
  unfold loadAllSessions Tree.values snapshotOf
  rw [mem_filterMap, get_eq_some_iff]
  constructor
  · rintro ⟨e, he, hsnap⟩
    obtain ⟨snap', rfl, -⟩ := h e he
    exact some.inj hsnap ▸ he
  · intro he
    exact ⟨_, he, rfl⟩

/-- What lies under a client's key is a snapshot of this client. -/
theorem Filed.snapshotOf (h : s.Filed) {v : Option SessionSnapshot} (hv : s.snapshotOf c = some v) :
    ∃ snap : SessionSnapshot, v = some snap ∧ snap.clientId = c ∧ snap.Restorable := by
  obtain ⟨snap, hsnap, hrest⟩ := h _ (get_eq_some_iff.1 hv)
  rw [Prod.mk.injEq] at hsnap
  exact ⟨snap, hsnap.2, (stringBytes_injective hsnap.1).symm, hrest⟩

/-- No two snapshots are of the same client. -/
theorem Filed.nodup (h : s.Filed) : (s.loadAllSessions.map SessionSnapshot.clientId).Nodup := by
  unfold loadAllSessions Tree.values
  have hsorted := s.sessions.sorted
  unfold Filed at h
  generalize s.sessions.entries = entries at h hsorted
  induction entries with
  | nil => exact nodup_nil
  | cons e rest ih =>
    rw [forall_mem_cons] at h
    rw [pairwise_cons] at hsorted
    obtain ⟨⟨snap, rfl, -⟩, hrest⟩ := h
    change (map SessionSnapshot.clientId (snap :: rest.filterMap Prod.snd)).Nodup
    rw [map_cons, nodup_cons]
    refine ⟨?_, ih hrest hsorted.2⟩
    intro hmem
    obtain ⟨snap', hmem, hid⟩ := mem_map.1 hmem
    obtain ⟨e', he', hsnap'⟩ := mem_filterMap.1 hmem
    obtain ⟨snap'', rfl, -⟩ := hrest e' he'
    have hlt := hsorted.1 _ he'
    rw [← some.inj hsnap'] at hid
    simp [hid] at hlt

/-! ## Restoring -/

theorem foldl_subscribe_subscriptionsOf {filters : List (String × QoS)}
    (hnd : ((t.subscriptionsOf c ++ filters).map Prod.fst).Nodup)
    (hacc : ∀ f ∈ filters.map Prod.fst, SubscriptionTree.acceptsFilter f = true) :
    (filters.foldl (fun t f => (t.subscribe c f.1 f.2).2) t).subscriptionsOf c =
      t.subscriptionsOf c ++ filters := by
  induction filters generalizing t with
  | nil => simp
  | cons f filters ih =>
    rw [map_cons, forall_mem_cons] at hacc
    have hok : t.subscribe c f.1 f.2 = (.ok (), (t.subscribe c f.1 f.2).2) :=
      Prod.ext ((t.subscribe_ok_iff c f.1 f.2).2 hacc.1) rfl
    have hnew : f.1 ∉ (t.subscriptionsOf c).map Prod.fst := by
      rw [map_append, map_cons] at hnd
      exact fun hmem => (nodup_append.1 hnd).2.2 _ hmem _ mem_cons_self rfl
    have hone : (t.subscribe c f.1 f.2).2.subscriptionsOf c = t.subscriptionsOf c ++ [f] := by
      rw [t.subscriptionsOf_subscribe c c f.1 hok, if_pos rfl,
        upsertFilter_of_notMem f.2 hnew]
    rw [foldl_cons, ih (by rw [hone]; simpa using hnd) hacc.2, hone,
      append_assoc, singleton_append]

/-- A snapshot of a client without filters gives it the filters of the snapshot. -/
theorem restoreSubscriptions_self (hnone : t.subscriptionsOf snap.clientId = [])
    (h : snap.Restorable) :
    (BrokerState.restoreSubscriptions snap t).subscriptionsOf snap.clientId =
      snap.subscriptions := by
  unfold restoreSubscriptions
  rw [foldl_subscribe_subscriptionsOf (by simpa [hnone] using h.nodup) h.accepted, hnone,
    nil_append]

theorem foldl_restore_other (hc : c ∉ snaps.map SessionSnapshot.clientId) :
    (snaps.foldl (fun t snap => BrokerState.restoreSubscriptions snap t) t).subscriptionsOf c =
      t.subscriptionsOf c := by
  induction snaps generalizing t with
  | nil => rfl
  | cons snap snaps ih =>
    rw [map_cons, mem_cons, not_or] at hc
    rw [foldl_cons, ih hc.2, restoreSubscriptions_subscriptionsOf snap hc.1]

theorem foldl_restore_self (hmem : snap ∈ snaps) (hsnap : snap.Restorable)
    (hnd : (snaps.map SessionSnapshot.clientId).Nodup)
    (hnone : t.subscriptionsOf snap.clientId = []) :
    (snaps.foldl (fun t snap => BrokerState.restoreSubscriptions snap t) t).subscriptionsOf
      snap.clientId = snap.subscriptions := by
  induction snaps generalizing t with
  | nil => simp at hmem
  | cons a snaps ih =>
    rw [map_cons, nodup_cons] at hnd
    rw [foldl_cons]
    rcases mem_cons.1 hmem with rfl | hmem
    · rw [foldl_restore_other hnd.1, restoreSubscriptions_self hnone hsnap]
    · refine ih hmem hnd.2 ?_
      have hne : snap.clientId ≠ a.clientId :=
        fun h => hnd.1 (h ▸ mem_map_of_mem hmem)
      rw [restoreSubscriptions_subscriptionsOf a hne, hnone]

/-- **A start gives a client the filters of its snapshot**, and none if it has no snapshot. -/
theorem restoredTree_subscriptionsOf (h : s.Filed) (c : String) :
    s.restoredTree.subscriptionsOf c =
      match s.snapshotOf c with
      | some (some snap) => snap.subscriptions
      | _ => [] := by
  unfold restoredTree
  cases hv : s.snapshotOf c with
  | none =>
    rw [foldl_restore_other]
    · rfl
    · intro hmem
      obtain ⟨snap, hsnap, rfl⟩ := mem_map.1 hmem
      rw [(mem_loadAllSessions h).1 hsnap] at hv
      simp at hv
  | some v =>
    obtain ⟨snap, rfl, rfl, hrest⟩ := h.snapshotOf hv
    exact foldl_restore_self ((mem_loadAllSessions h).2 hv) hrest h.nodup rfl

end Storage

/-! ## The broker's storage -/

namespace BrokerState

variable {S : Scope} {b b' : BrokerState} {c : String}

/-- What lies on disk under the key of a client. -/
def filed (b : BrokerState) (c : String) : Option (Option SessionSnapshot) :=
  b.storage.bind (fun s => s.snapshotOf c)

/-- What a move does to the snapshots on disk. -/
inductive Refiles (S : Scope) (b : BrokerState) : Option Storage → Prop
  | same (f : Storage → Storage) (hf : ∀ s, (f s).sessions = s.sessions) :
      Refiles S b (b.storage.map f)
  | saved (clientId : String) (s : Storage) (hs : b.storage = some s)
      (hclean : b.sessions.isCleanSession clientId = false)
      (hne : b.subscriptions.subscriptionsOf clientId ≠ [])
      (h : S.removes clientId ∨ S.subscribes clientId ∨ S.unsubscribes clientId) :
      Refiles S b (some (s.saveSession clientId
        { clientId, subscriptions := b.subscriptions.subscriptionsOf clientId }))
  | deleted (clientId : String) (hremove : S.removes clientId) :
      Refiles S b (b.storage.map (fun s => ((s.deleteSession clientId).drainOffline clientId).2))

theorem Refiles.refl : Refiles S b b.storage := by
  have h : Refiles S b (b.storage.map id) := .same id (fun _ => rfl)
  rwa [Option.map_id] at h

theorem setRetained_refiles (topic : String) (payload : Bytes) (qos : QoS) :
    Refiles S b (b.setRetained topic payload qos).storage := by
  change Refiles S b (b.retain.set b.storage topic payload qos).2
  unfold RetainStore.set
  split_ifs
  · exact .refl
  · exact .refl
  · exact .same _ (fun _ => rfl)
  · exact .same _ (fun _ => rfl)

theorem persist_refiles
    (h : S.removes c ∨ S.subscribes c ∨ S.unsubscribes c) :
    Refiles S b (b.persistSessionSnapshot c).storage := by
  unfold persistSessionSnapshot
  split
  · exact .refl
  · next s hs =>
    dsimp only
    split_ifs with hclean hnil
    · exact .refl
    · exact .refl
    · exact .saved c s hs (Bool.eq_false_iff.2 hclean) hnil h

theorem Move.refiles (h : b.Move S b') : Refiles S b b'.storage := by
  cases h with
  | setRetained r hr => exact setRetained_refiles ..
  | deliver r c subQos b' hr hne hto hdel =>
    cases deliver_delivered hdel with
    | sent | lost => exact .refl
    | enqueued => exact .same _ (fun _ => rfl)
  | persist c h => exact persist_refiles h
  | deleteSnapshot c hrem => exact .deleted c hrem
  | clearDisk c => exact .same _ (fun _ => rfl)
  | _ => exact .refl

theorem Refiles.isSome {storage : Option Storage} (h : Refiles S b storage) :
    storage.isSome = b.storage.isSome := by
  cases h with
  | same => exact isSome_map ..
  | saved c s hs => rw [hs]; rfl
  | deleted => exact isSome_map ..

/-- What lies under the key of a client after a move. -/
inductive Found (S : Scope) (b : BrokerState) (c : String) : Option (Option SessionSnapshot) → Prop
  | same : Found S b c (b.filed c)
  | saved (hclean : b.sessions.isCleanSession c = false)
      (hne : b.subscriptions.subscriptionsOf c ≠ [])
      (h : S.removes c ∨ S.subscribes c ∨ S.unsubscribes c) :
      Found S b c (some (some
        { clientId := c, subscriptions := b.subscriptions.subscriptionsOf c }))
  | deleted (hremove : S.removes c) : Found S b c none

theorem Move.found (h : b.Move S b') (c : String) : Found S b c (b'.filed c) := by
  have hrefiles := h.refiles
  have hsame : ∀ {v}, v = b.filed c → Found S b c v := fun hv => hv ▸ .same
  unfold filed
  generalize b'.storage = storage at hrefiles
  cases hrefiles with
  | same f hf =>
    refine hsame ((Option.bind_map ..).trans (congrArg b.storage.bind (funext (fun s => ?_))))
    simp only [Function.comp_apply, Storage.snapshotOf, hf]
  | saved c' s hs hclean hne hscope =>
    rw [bind_some, Storage.snapshotOf_saveSession]
    split_ifs with hc
    · subst hc
      exact .saved hclean hne hscope
    · exact hsame (by rw [filed, hs, bind_some])
  | deleted c' hremove =>
    rw [Option.bind_map]
    have hdelete := fun s : Storage => s.snapshotOf_deleteSession c' c
    by_cases hc : c = c'
    · simp only [if_pos hc] at hdelete
      refine (bind_eq_none_iff.2 (fun s _ => hdelete s)) ▸ ?_
      exact .deleted (hc ▸ hremove)
    · simp only [if_neg hc] at hdelete
      exact hsame (congrArg b.storage.bind (funext hdelete))

/-- What lies under the key of a client whose session may not be removed and who may not change its
    filters. -/
theorem Move.filed_eq (h : b.Move S b') (hsub : ¬ S.subscribes c) (hunsub : ¬ S.unsubscribes c)
    (hrem : ¬ S.removes c) : b'.filed c = b.filed c := by
  have hfound := h.found c
  generalize b'.filed c = v at hfound ⊢
  cases hfound with
  | same => rfl
  | saved _ _ hscope => exact (hscope.elim hrem (fun h => h.elim hsub hunsub)).elim
  | deleted hremove => exact absurd hremove hrem

/-! ## What is kept in every state -/

/-- The tree is sound, only accepted filters are in it, and the snapshots on disk are in order. -/
structure Archived (b : BrokerState) : Prop where
  sound : b.subscriptions.Sound
  listed : b.subscriptions.Listed
  filed : ∀ s, b.storage = some s → s.Filed

/-- The filters of a client that has some make a snapshot. -/
theorem Archived.restorable (h : b.Archived) (hne : b.subscriptions.subscriptionsOf c ≠ []) :
    SessionSnapshot.Restorable
      { clientId := c, subscriptions := b.subscriptions.subscriptionsOf c } := by
  obtain ⟨M, hM⟩ := h.sound.represents
  exact ⟨hne, (hM.indexed c).1, h.listed c⟩

theorem Move.archived (h : b.Move S b') (hb : b.Archived) : b'.Archived := by
  refine ⟨h.resubscribes.sound hb.sound, h.resubscribes.listed hb.listed, ?_⟩
  have hrefiles := h.refiles
  generalize b'.storage = storage at hrefiles
  intro s hs
  cases hrefiles with
  | same f hf =>
    obtain ⟨s0, hs0, rfl⟩ := map_eq_some_iff.1 hs
    intro e he
    rw [hf] at he
    exact hb.filed s0 hs0 e he
  | saved c s0 hs0 hclean hne =>
    rw [← some.inj hs]
    exact (hb.filed s0 hs0).saveSession (hb.restorable hne)
  | deleted c =>
    obtain ⟨s0, hs0, rfl⟩ := map_eq_some_iff.1 hs
    exact (hb.filed s0 hs0).deleteSession c

/-! ## Construction -/

theorem loadAll_restored {s : Storage} (hs : b.storage = some s)
    (h : snaps.foldlM loadSession b = some b') :
    b'.subscriptions = snaps.foldl (fun t snap => restoreSubscriptions snap t) b.subscriptions ∧
      ∀ c, (b'.sessions.get c).isSome = true ↔
        c ∈ snaps.map SessionSnapshot.clientId ∨ (b.sessions.get c).isSome = true := by
  induction snaps generalizing b s with
  | nil =>
    obtain rfl : b = b' := some.inj h
    exact ⟨rfl, fun c => by simp⟩
  | cons snap snaps ih =>
    rw [foldlM_cons] at h
    obtain ⟨b1, hload, hrest⟩ := bind_eq_some_iff.1 h
    obtain ⟨q, hloads⟩ := loadSession_loads hs hload
    obtain ⟨hsub, hget⟩ := ih hloads.storage hrest
    refine ⟨?_, fun c => ?_⟩
    · rw [hsub, hloads.subscriptions, foldl_cons]
    · rw [hget, hloads.get, map_cons, mem_cons]
      by_cases hc : c = snap.clientId
      · simp [hc]
      · simp [hc]

/-- **What a start makes of the snapshots**: their filters, and a session for each of them. -/
theorem new_restores {config : Settings} {s : Storage} {now : Instant}
    (h : new config (some s) now = some b) :
    b.subscriptions = s.restoredTree ∧
      ∀ c, (b.sessions.get c).isSome = true ↔ c ∈ s.loadAllSessions.map SessionSnapshot.clientId := by
  obtain ⟨hsub, hget⟩ := loadAll_restored rfl h
  exact ⟨hsub, fun c => (hget c).trans (or_iff_left (by simp [SessionManager.get]))⟩

theorem restoredTree_listed (s : Storage) : s.restoredTree.Listed := by
  unfold Storage.restoredTree
  generalize s.loadAllSessions = snaps
  have hempty : SubscriptionTree.Listed {} := by
    intro c f hf
    simp [subscriptionsOf] at hf
  generalize ({} : SubscriptionTree) = t at hempty ⊢
  induction snaps generalizing t with
  | nil => exact hempty
  | cons snap snaps ih =>
    exact ih _ (restoreSubscriptions_invariant (fun _ c f q h => h.subscribe c f q) snap hempty)

theorem new_archived {config : Settings} {storage : Option Storage} {now : Instant}
    (h : new config storage now = some b) (hfiled : ∀ s, storage = some s → s.Filed) :
    b.Archived := by
  refine ⟨new_sound h, ?_, ?_⟩
  · cases storage with
    | none =>
      rw [← some.inj h]
      intro c f hf
      simp [subscriptionsOf] at hf
    | some s => exact (new_restores h).1 ▸ restoredTree_listed s
  · intro s' hs'
    cases storage with
    | none =>
      rw [← some.inj h] at hs'
      simp at hs'
    | some s =>
      obtain ⟨s'', hs'', hsess, -⟩ := loadAll_storage rfl h
      rw [hs''] at hs'
      intro e he
      rw [← some.inj hs', hsess] at he
      exact hfiled s rfl e he

end BrokerState

/-! ## The system -/

namespace Sys

variable {S : Scope} {s s' : Sys}

/-- **The snapshots on disk are in order** in every state that is reached. -/
theorem Reachable.archived (h : Reachable s) : s.broker.Archived := by
  refine h.broker_invariant (J := fun b => b.Archived) ?_ ?_
  · intro config storage now b hstorage hb
    refine new_archived hb ?_
    rcases hstorage with rfl | rfl
    · simp
    · rintro s ⟨⟩ e he
      simp [empty] at he
  · intro b b' hchange hs
    cases hchange with
    | move b' hb => exact hb.archived hs
    | frame | opened | registered => exact ⟨hs.sound, hs.listed, hs.filed⟩
    | restarted config b _ hb =>
      have hnew := new_archived hb hs.filed
      exact ⟨hnew.sound, hnew.listed, hnew.filed⟩

end Sys

end LumenMQ
