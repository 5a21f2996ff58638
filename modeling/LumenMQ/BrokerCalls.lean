import LumenMQ.Archive
import LumenMQ.Broker.RegisterSteps

set_option autoImplicit false

/-! # The calls an operation is made of

A method of the session table, of the subscription tree or of the store is one access to shared
state. The operations of the broker are made of several, and other tasks come in between. Here an
operation is the list of the calls that it has still to make. What a call returns decides which
calls come next; they are put in front of the list. -/

namespace LumenMQ

open List SessionManager

/-- A call to the session table, the subscription tree or the store. -/
inductive BrokerCall where
  | register (args : RegisterArgs)
  | markOffline (clientId : String) (epoch : Nat)
  | owns (clientId : String) (epoch : Nat)
  | isSessionExpired (clientId : String) (epoch : Nat)
  | removeIfEpoch (clientId : String) (epoch : Nat)
  | cleanupExpired
  | isOnline (clientId : String)
  | remove (clientId : String)
  | isCleanSession (clientId : String)
  | subscribe (clientId filter : String) (qos : QoS)
  | unsubscribeAll (clientId : String)
  | subscriptionsOf (clientId : String)
  | saveSession (clientId : String) (subscriptions : List (String × QoS))
  | deleteSession (clientId : String)
  | drainOffline (clientId : String)

namespace BrokerCall

/-- The end of a session: `unsubscribe_all` and `delete_session_snapshot`. -/
def forget (clientId : String) : List BrokerCall :=
  [.unsubscribeAll clientId, .deleteSession clientId, .drainOffline clientId]

/-- `persist_session_snapshot`. -/
def persist (clientId : String) : List BrokerCall := [.isCleanSession clientId]

/-- `cleanup`. -/
def cleanup (clientId : String) (epoch : Nat) (clean : Bool) : List BrokerCall :=
  if clean then [.removeIfEpoch clientId epoch] else [.markOffline clientId epoch]

/-- A call as a task makes that cleans up after connections whose epoch is at most `n`. -/
def isOfCleaner (n : Nat) : BrokerCall → Bool
  | .register _ | .subscribe _ _ _ => false
  | .markOffline _ epoch | .owns _ epoch | .isSessionExpired _ epoch | .removeIfEpoch _ epoch =>
    epoch ≤ n
  | _ => true

end BrokerCall

namespace BrokerState

variable {call : BrokerCall} {n : Nat} {c : String}

/-- Make a call. Returns what its caller calls next for it. -/
def perform (b : BrokerState) : BrokerCall → BrokerState × List BrokerCall
  | .register args => ({ b with sessions := (b.sessions.registerWith b.now args).sessions }, [])
  | .markOffline c epoch =>
    ({ b with sessions := b.sessions.markOffline b.now c epoch }, [.owns c epoch])
  | .owns c epoch => (b, if b.sessions.owns c epoch then [.isSessionExpired c epoch] else [])
  | .isSessionExpired c epoch =>
    (b, if b.sessions.isSessionExpired b.now c then [.removeIfEpoch c epoch]
      else BrokerCall.persist c)
  | .removeIfEpoch c epoch =>
    match b.sessions.removeIfEpoch c epoch with
    | (none, _) => (b, [])
    | (some _, sessions) => ({ b with sessions }, BrokerCall.forget c)
  | .cleanupExpired =>
    let (expired, sessions) := b.sessions.cleanupExpired b.now
    ({ b with sessions }, expired.flatMap BrokerCall.forget)
  | .isOnline c =>
    (b, if b.sessions.isOnline c then []
      else [.unsubscribeAll c, .remove c, .deleteSession c, .drainOffline c])
  | .remove c => ({ b with sessions := (b.sessions.remove c).2 }, [])
  | .isCleanSession c =>
    (b, if b.storage.isNone || b.sessions.isCleanSession c then [] else [.subscriptionsOf c])
  | .subscribe c filter qos =>
    ({ b with subscriptions := (b.subscriptions.subscribe c filter qos).2 }, [])
  | .unsubscribeAll c => (b.unsubscribeAll c, [])
  | .subscriptionsOf c =>
    let subscriptions := b.subscriptions.subscriptionsOf c
    (b, if subscriptions = [] then [] else [.saveSession c subscriptions])
  | .saveSession c subscriptions =>
    ({ b with storage := b.storage.map (fun s =>
        s.saveSession c { clientId := c, subscriptions }) }, [])
  | .deleteSession c => ({ b with storage := b.storage.map (fun s => s.deleteSession c) }, [])
  | .drainOffline c => ({ b with storage := b.storage.map (fun s => (s.drainOffline c).2) }, [])

/-! ## Operations without interruption -/

/-- The calls are made one after the other, and nothing else is. -/
inductive Performs : BrokerState → List BrokerCall → BrokerState → Prop
  | nil (b : BrokerState) : Performs b [] b
  | cons {b b' : BrokerState} {call : BrokerCall} {rest : List BrokerCall}
      (h : Performs (b.perform call).1 ((b.perform call).2 ++ rest) b') :
      Performs b (call :: rest) b'

variable {b b' b'' : BrokerState}

theorem Performs.append {calls rest : List BrokerCall} (h : Performs b calls b')
    (hrest : Performs b' rest b'') : Performs b (calls ++ rest) b'' := by
  induction h with
  | nil => exact hrest
  | cons _ ih =>
    rw [append_assoc] at ih
    exact .cons (ih hrest)

/-- A call after which its caller does nothing else. -/
theorem Performs.last (h : Performs (b.perform call).1 (b.perform call).2 b') :
    Performs b [call] b' :=
  .cons (by rw [append_nil]; exact h)

theorem performs_deleteSessionSnapshot (b : BrokerState) (c : String) :
    Performs b [.deleteSession c, .drainOffline c] (b.deleteSessionSnapshot c) := by
  refine .cons (.last ?_)
  have hstore : (b.perform (.deleteSession c)).1.perform (.drainOffline c) =
      (b.deleteSessionSnapshot c, []) := by
    simp only [perform, deleteSessionSnapshot, Option.map_map]
    rfl
  rw [hstore]
  exact .nil _

theorem performs_forget (b : BrokerState) (c : String) :
    Performs b (BrokerCall.forget c) (b.forget c) :=
  .cons (performs_deleteSessionSnapshot (b.unsubscribeAll c) c)

theorem performs_persist (b : BrokerState) (c : String) :
    Performs b (BrokerCall.persist c) (b.persistSessionSnapshot c) := by
  refine .last ?_
  dsimp only [perform, persistSessionSnapshot]
  cases hstore : b.storage with
  | none => exact .nil b
  | some s =>
    simp only [Option.isNone_some, Bool.false_or]
    by_cases hclean : b.sessions.isCleanSession c = true
    · rw [if_pos hclean, if_pos hclean]
      exact .nil b
    · rw [if_neg hclean, if_neg hclean]
      refine .last ?_
      dsimp only [perform]
      by_cases hnone : b.subscriptions.subscriptionsOf c = []
      · rw [if_pos hnone, if_pos hnone]
        exact .nil b
      · rw [if_neg hnone, if_neg hnone]
        refine .last ?_
        dsimp only [perform]
        rw [hstore]
        exact .nil _

theorem performs_removeIfEpoch (b : BrokerState) (c : String) (epoch : Nat) :
    Performs b [.removeIfEpoch c epoch]
      (match b.sessions.removeIfEpoch c epoch with
        | (none, _) => b
        | (some _, sessions) => { b with sessions }.forget c) := by
  refine .last ?_
  dsimp only [perform]
  rcases b.sessions.removeIfEpoch c epoch with ⟨_ | e, sessions⟩
  · exact .nil b
  · exact performs_forget _ c

/-- Made one after the other, the calls of `cleanup` do what it does. -/
theorem performs_cleanup (b : BrokerState) (c : String) (epoch : Nat) (clean : Bool) :
    Performs b (BrokerCall.cleanup c epoch clean) (b.cleanup c epoch clean) := by
  unfold BrokerCall.cleanup cleanup
  cases clean with
  | true => exact performs_removeIfEpoch b c epoch
  | false =>
    refine .last (.last ?_)
    dsimp only [perform]
    simp only [Bool.false_eq_true, if_false, Bool.not_eq_true']
    by_cases hown : (b.sessions.markOffline b.now c epoch).owns c epoch = true
    · rw [if_pos hown, if_neg (by simp [hown])]
      refine .last ?_
      dsimp only [perform]
      by_cases hexp :
        (b.sessions.markOffline b.now c epoch).isSessionExpired b.now c = true
      · rw [if_pos hexp, if_pos hexp]
        exact performs_removeIfEpoch _ c epoch
      · rw [if_neg hexp, if_neg hexp]
        exact performs_persist _ c
    · rw [if_neg hown, if_pos (by simpa using hown)]
      exact .nil _

/-- Made one after the other, the calls of the sweeper do what its tick does. -/
theorem performs_sweepExpired (b : BrokerState) : Performs b [.cleanupExpired] b.sweepExpired := by
  refine .last ?_
  dsimp only [perform, sweepExpired]
  generalize (b.sessions.cleanupExpired b.now).1 = expired
  generalize { b with sessions := (b.sessions.cleanupExpired b.now).2 } = b
  induction expired generalizing b with
  | nil => exact .nil b
  | cons c expired ih =>
    rw [flatMap_cons]
    exact (performs_forget b c).append (ih _)

/-- Made one after the other, the calls of `delete_session` do what it does. -/
theorem performs_deleteSession (b : BrokerState) (c : String) :
    Performs b [.isOnline c] (b.deleteSession c).2 := by
  refine .last ?_
  dsimp only [perform, deleteSession]
  by_cases honline : b.sessions.isOnline c = true
  · rw [if_pos honline, if_pos honline]
    exact .nil b
  · rw [if_neg honline, if_neg honline]
    exact .cons (.cons (performs_deleteSessionSnapshot _ c))

/-! ## What a call leaves alone -/

/-- The filters in a client's snapshot on disk. -/
def storedFilters (b : BrokerState) (c : String) : List String :=
  match b.storage.bind (fun s => s.snapshotOf c) with
  | some (some snap) => snap.subscriptions.map Prod.fst
  | _ => []

/-- What comes next for a cleaner is of the same kind. -/
theorem perform_isOfCleaner (hcall : call.isOfCleaner n = true) :
    ∀ call' ∈ (b.perform call).2, call'.isOfCleaner n = true := by
  have hforget : ∀ c, ∀ call' ∈ BrokerCall.forget c, call'.isOfCleaner n = true := by
    intro c call' h
    simp only [BrokerCall.forget, mem_cons, not_mem_nil, or_false] at h
    rcases h with rfl | rfl | rfl <;> rfl
  intro call' hmem
  cases call with
  | register | subscribe => simp [BrokerCall.isOfCleaner] at hcall
  | markOffline c epoch =>
    rw [mem_singleton.1 hmem]
    exact hcall
  | owns c epoch =>
    dsimp only [perform] at hmem
    split_ifs at hmem
    · rw [mem_singleton.1 hmem]
      exact hcall
    · simp at hmem
  | isSessionExpired c epoch =>
    dsimp only [perform] at hmem
    split_ifs at hmem
    · rw [mem_singleton.1 hmem]
      exact hcall
    · rw [mem_singleton.1 hmem]
      rfl
  | removeIfEpoch c epoch =>
    dsimp only [perform] at hmem
    split at hmem
    · simp at hmem
    · exact hforget c call' hmem
  | cleanupExpired =>
    obtain ⟨c, -, hmem⟩ := mem_flatMap.1 hmem
    exact hforget c call' hmem
  | isOnline c =>
    dsimp only [perform] at hmem
    split_ifs at hmem
    · simp at hmem
    · simp only [mem_cons, not_mem_nil, or_false] at hmem
      rcases hmem with rfl | rfl | rfl | rfl <;> rfl
  | isCleanSession c =>
    dsimp only [perform] at hmem
    split_ifs at hmem
    · simp at hmem
    · rw [mem_singleton.1 hmem]
      rfl
  | subscriptionsOf c =>
    dsimp only [perform] at hmem
    split_ifs at hmem
    · simp at hmem
    · rw [mem_singleton.1 hmem]
      rfl
  | remove | unsubscribeAll | saveSession | deleteSession | drainOffline => simp [perform] at hmem

/-- `remove_if_epoch` removes the entry of the client, or does nothing. -/
theorem perform_removeIfEpoch (b : BrokerState) (c : String) (epoch : Nat) :
    (b.perform (.removeIfEpoch c epoch)).1 = b ∨ b.sessions.owns c epoch = true ∧
      (b.perform (.removeIfEpoch c epoch)).1 = { b with sessions := (b.sessions.remove c).2 } := by
  dsimp only [perform]
  unfold removeIfEpoch
  split_ifs with hown
  · rcases b.sessions.remove c with ⟨_ | e, sessions⟩
    · exact .inl rfl
    · exact .inr ⟨hown, rfl⟩
  · exact .inl rfl

/-- An entry that is connected, and that belongs to none of the connections before, is removed by no
    call but `remove`. -/
theorem perform_get {e : SessionEntry} (hcall : call.isOfCleaner n = true) (hne : call ≠ .remove c)
    (hget : b.sessions.get c = some e) (hep : n < e.epoch) (hconn : e.connected = true) :
    (b.perform call).1.sessions.get c = some e := by
  cases call with
  | register args => simp [BrokerCall.isOfCleaner] at hcall
  | subscribe c' filter qos => simp [BrokerCall.isOfCleaner] at hcall
  | markOffline c' epoch =>
    have hle : epoch ≤ n := of_decide_eq_true hcall
    dsimp only [perform]
    rw [markOffline_get, hget, Option.map_some, if_neg]
    rintro ⟨-, rfl, -⟩
    omega
  | removeIfEpoch c' epoch =>
    have hle : epoch ≤ n := of_decide_eq_true hcall
    rcases perform_removeIfEpoch b c' epoch with hb | ⟨hown, hb⟩ <;> rw [hb]
    · exact hget
    · have hc : c ≠ c' := by
        rintro rfl
        have hsame : e.epoch = epoch := by simpa [owns, hget] using hown
        omega
      rw [get_remove, if_neg hc]
      exact hget
  | cleanupExpired =>
    have hkept : c ∉ (b.sessions.cleanupExpired b.now).1 := by
      rw [mem_cleanupExpired]
      rintro ⟨e', hget', hexp⟩
      rw [hget] at hget'
      cases hget'
      simp [SessionEntry.isExpired, hconn] at hexp
    refine (FinMap.get_foldl_erase (b.sessions.cleanupExpired b.now).1 _ c).trans ?_
    rw [if_neg hkept]
    exact hget
  | remove c' =>
    have hc : c ≠ c' := fun h => hne (h ▸ rfl)
    dsimp only [perform]
    rw [get_remove, if_neg hc]
    exact hget
  | owns | isSessionExpired | isOnline | isCleanSession | unsubscribeAll | subscriptionsOf
  | saveSession | deleteSession | drainOffline => exact hget

theorem perform_subscriptionsOf (hcall : call.isOfCleaner n = true) (hne : call ≠ .unsubscribeAll c) :
    (b.perform call).1.subscriptions.subscriptionsOf c = b.subscriptions.subscriptionsOf c := by
  cases call with
  | register args => simp [BrokerCall.isOfCleaner] at hcall
  | subscribe c' filter qos => simp [BrokerCall.isOfCleaner] at hcall
  | unsubscribeAll c' =>
    have hc : c ≠ c' := fun h => hne (h ▸ rfl)
    show (b.subscriptions.unsubscribeAll c').subscriptionsOf c = _
    rw [SubscriptionTree.subscriptionsOf_unsubscribeAll, if_neg hc]
  | removeIfEpoch c' epoch => rcases perform_removeIfEpoch b c' epoch with hb | ⟨-, hb⟩ <;> rw [hb]
  | _ => rfl

theorem perform_epochCounter (hcall : call.isOfCleaner n = true) :
    (b.perform call).1.sessions.epochCounter = b.sessions.epochCounter := by
  cases call with
  | register args => simp [BrokerCall.isOfCleaner] at hcall
  | markOffline c epoch => exact (markOffline_limits ..).1
  | remove c => exact remove_epochCounter ..
  | removeIfEpoch c epoch =>
    rcases perform_removeIfEpoch b c epoch with hb | ⟨-, hb⟩ <;> rw [hb]
    exact remove_epochCounter ..
  | _ => rfl

theorem perform_sound (call : BrokerCall) (h : b.subscriptions.Sound) :
    (b.perform call).1.subscriptions.Sound := by
  cases call with
  | subscribe c filter qos => exact h.onTree (.subscribe c filter qos)
  | unsubscribeAll c => exact h.onTree (.unsubscribeAll c)
  | removeIfEpoch c' epoch =>
    rcases perform_removeIfEpoch b c' epoch with hb | ⟨-, hb⟩ <;> rw [hb] <;> exact h
  | _ => exact h

theorem perform_storage_isSome (b : BrokerState) (call : BrokerCall) :
    (b.perform call).1.storage.isSome = b.storage.isSome := by
  cases call with
  | saveSession | deleteSession | drainOffline => exact Option.isSome_map
  | removeIfEpoch c' epoch => rcases perform_removeIfEpoch b c' epoch with hb | ⟨-, hb⟩ <;> rw [hb]
  | _ => rfl

theorem storedFilters_saveSession (h : b.storage.isSome = true) (c : String)
    (subscriptions : List (String × QoS)) :
    (b.perform (.saveSession c subscriptions)).1.storedFilters c = subscriptions.map Prod.fst := by
  obtain ⟨s, hs⟩ := Option.isSome_iff_exists.1 h
  simp [perform, storedFilters, hs, Storage.snapshotOf_saveSession]

theorem perform_storedFilters (hdel : call ≠ .deleteSession c)
    (hsave : ∀ subscriptions, call ≠ .saveSession c subscriptions) :
    (b.perform call).1.storedFilters c = b.storedFilters c := by
  cases call with
  | saveSession c' subscriptions =>
    have hc : c ≠ c' := fun h => hsave subscriptions (h ▸ rfl)
    cases hs : b.storage <;> simp [perform, storedFilters, hs, Storage.snapshotOf_saveSession, hc]
  | deleteSession c' =>
    have hc : c ≠ c' := fun h => hdel (h ▸ rfl)
    cases hs : b.storage <;> simp [perform, storedFilters, hs, Storage.snapshotOf_deleteSession, hc]
  | drainOffline c' =>
    cases hs : b.storage <;> simp [perform, storedFilters, hs, Storage.snapshotOf, Storage.drainOffline]
  | removeIfEpoch c' epoch =>
    rcases perform_removeIfEpoch b c' epoch with hb | ⟨-, hb⟩ <;> rw [hb]
    rfl
  | _ => rfl

end BrokerState

end LumenMQ
