import LumenMQ.Lib.Runs
import LumenMQ.Broker.State

set_option autoImplicit false

/-! # The session table as a machine

The methods of the session manager as the steps of a machine, in any order and with any arguments.
The counter of online sessions follows the table, an entry keeps the kind of session it was made
for, every registration draws an epoch of its own, and an epoch that is not the entry's has no power
over it. -/

namespace LumenMQ

open Option FinMap SessionManager SessionEntry

/-- A call of one of the methods that change the table. -/
inductive SessionOp where
  | register (clientId : String) (cleanSession : Bool) (tx : Nat) (will : Option WillMessage)
      (protocolLevel : UInt8) (peerAddr : SocketAddr) (sessionExpiry : Option UInt32)
  | markOffline (clientId : String) (epoch : Nat)
  | markOnline (clientId : String) (epoch : Nat)
  | remove (clientId : String)
  | removeIfEpoch (clientId : String) (epoch : Nat)
  | cleanupExpired
  | takeWill (clientId : String) (epoch : Nat)
  | clearWill (clientId : String) (epoch : Nat)
  | deliverOrEnqueue (clientId : String) (msg : OutboundPublish)
  /-- The receivers of the channels read and close. -/
  | receivers (channels : FinMap Nat Channel)

namespace SessionManager

variable {sm sm' : SessionManager} {c : String} {epoch : Nat}
variable {e e' : SessionEntry} {op : Instant × SessionOp}

/-- A table without sessions. -/
def new (maxOfflineMessages : Nat) (offlineMessageTtl : Duration) : SessionManager :=
  { maxOfflineMessages, offlineMessageTtl }

/-- A call at a time. -/
def call (sm : SessionManager) : Instant × SessionOp → Option SessionManager
  | (now, .register c clean tx will level peer expiry) =>
    some (sm.register now c clean tx will level peer expiry).sessions
  | (now, .markOffline c epoch) => some (sm.markOffline now c epoch)
  | (_, .markOnline c epoch) => some (sm.markOnline c epoch)
  | (_, .remove c) => some (sm.remove c).2
  | (_, .removeIfEpoch c epoch) => some (sm.removeIfEpoch c epoch).2
  | (now, .cleanupExpired) => some (sm.cleanupExpired now).2
  | (_, .takeWill c epoch) => some (sm.takeWill c epoch).2
  | (_, .clearWill c epoch) => some (sm.clearWill c epoch)
  | (now, .deliverOrEnqueue c msg) => (sm.deliverOrEnqueue now c msg).map Delivery.sessions
  | (_, .receivers channels) => some { sm with channels }

/-! ## What a call does -/

/-- What a call makes of the table: it registers a session, writes an entry back that it has
    changed, takes out an entry or those that have expired, or leaves the entries as they are. -/
inductive Changes (sm : SessionManager) : SessionManager → Prop
  | registered (now : Instant) (c : String) (clean : Bool) (tx : Nat) (will : Option WillMessage)
      (level : UInt8) (peer : SocketAddr) (expiry : Option UInt32) :
      Changes sm (sm.register now c clean tx will level peer expiry).sessions
  | written (c : String) (e e' : SessionEntry) (online : UInt64) (hget : sm.get c = some e)
      (hclean : e'.cleanSession = e.cleanSession)
      (hqueue : e'.offlineQueue.isSome = e.offlineQueue.isSome) (hepoch : e'.epoch = e.epoch)
      (honline : online + (if e.connected then 1 else 0) =
        sm.onlineCount + (if e'.connected then 1 else 0)) :
      Changes sm { sm.put c e' with onlineCount := online }
  | removed (c : String) : Changes sm (sm.remove c).2
  | expired (now : Instant) : Changes sm (sm.cleanupExpired now).2
  | received (channels : FinMap Nat Channel) : Changes sm { sm with channels }

theorem Changes.refl (sm : SessionManager) : Changes sm sm := .received sm.channels

theorem markOffline_changes (sm : SessionManager) (now : Instant) (c : String) (epoch : Nat) :
    Changes sm (sm.markOffline now c epoch) := by
  unfold markOffline
  cases hget : sm.get c with
  | none => exact .refl sm
  | some e =>
    dsimp only
    split_ifs with h
    · exact .written c e _ _ hget rfl rfl rfl (by simp [h.2])
    · exact .refl sm

theorem markOnline_changes (sm : SessionManager) (c : String) (epoch : Nat) :
    Changes sm (sm.markOnline c epoch) := by
  unfold markOnline
  cases hget : sm.get c with
  | none => exact .refl sm
  | some e =>
    dsimp only
    split_ifs with h
    · exact .written c e _ _ hget rfl rfl rfl (by simp [h.2])
    · exact .refl sm

theorem takeWill_changes (sm : SessionManager) (c : String) (epoch : Nat) :
    Changes sm (sm.takeWill c epoch).2 := by
  unfold takeWill
  cases hget : sm.get c with
  | none => exact .refl sm
  | some e =>
    dsimp only
    split_ifs
    · exact .written c e _ _ hget rfl rfl rfl rfl
    · exact .refl sm

theorem call_changes (h : sm.call op = some sm') : Changes sm sm' := by
  obtain ⟨now, op⟩ := op
  cases op with
  | deliverOrEnqueue c msg =>
    obtain ⟨d, hd, rfl⟩ := map_eq_some_iff.1 h
    cases deliverOrEnqueue_delivers hd with
    | noSession | lost => exact .refl sm
    | sent => exact .received _
    | enqueued e q q' out hget hq =>
      exact .written c e _ _ hget rfl (by rw [hq]; rfl) rfl rfl
  | removeIfEpoch c epoch =>
    rw [← some.inj h]
    unfold removeIfEpoch
    split_ifs
    · exact .removed c
    · exact .refl sm
  | register c clean tx will level peer expiry =>
    exact some.inj h ▸ .registered now c clean tx will level peer expiry
  | markOffline c epoch => exact some.inj h ▸ markOffline_changes sm now c epoch
  | markOnline c epoch => exact some.inj h ▸ markOnline_changes sm c epoch
  | remove c => exact some.inj h ▸ .removed c
  | cleanupExpired => exact some.inj h ▸ .expired now
  | takeWill c epoch => exact some.inj h ▸ takeWill_changes sm c epoch
  | clearWill c epoch => exact some.inj h ▸ takeWill_changes sm c epoch
  | receivers channels => exact some.inj h ▸ .received channels

/-! ## The counter -/

/-- The number of connected sessions. -/
def connectedCount (sm : SessionManager) : Nat := FinMap.count SessionEntry.connected sm.sessions

/-- The counter and the table change together. -/
inductive Tally (sm sm' : SessionManager) : Prop
  | same (hcount : sm'.connectedCount = sm.connectedCount) (honline : sm'.onlineCount = sm.onlineCount)
  | up (hcount : sm'.connectedCount = sm.connectedCount + 1)
      (honline : sm'.onlineCount = sm.onlineCount + 1)
  | down (hcount : sm'.connectedCount + 1 = sm.connectedCount)
      (honline : sm'.onlineCount = sm.onlineCount - 1)

/-- An entry is replaced. -/
theorem connectedCount_put (e' : SessionEntry) (hget : sm.get c = some e) :
    (sm.put c e').connectedCount + (if e.connected then 1 else 0) =
      sm.connectedCount + (if e'.connected then 1 else 0) := by
  have hcnt := count_insert connected sm.sessions c e'
  rw [show sm.sessions.get c = some e from hget, any_some] at hcnt
  exact hcnt

theorem register_tally (sm : SessionManager) (now : Instant) (c : String) (clean : Bool) (tx : Nat)
    (will : Option WillMessage) (level : UInt8) (peer : SocketAddr) (expiry : Option UInt32) :
    Tally sm (sm.register now c clean tx will level peer expiry).sessions := by
  have hcnt : count connected
      (sm.register now c clean tx will level peer expiry).sessions.sessions +
        (if (sm.get c).any connected then 1 else 0) = sm.connectedCount + 1 :=
    count_insert connected sm.sessions c _
  have honline : (sm.register now c clean tx will level peer expiry).sessions.onlineCount =
      if (sm.get c).any connected then sm.onlineCount else sm.onlineCount + 1 := by
    unfold register
    cases sm.get c with
    | none => rfl
    | some old => cases hold : old.connected <;> simp [hold]
  by_cases hany : (sm.get c).any connected = true
  · rw [if_pos hany] at hcnt honline
    exact .same (Nat.add_right_cancel hcnt) honline
  · rw [if_neg hany] at hcnt honline
    exact .up hcnt honline

theorem remove_tally (sm : SessionManager) (c : String) : Tally sm (sm.remove c).2 := by
  unfold remove
  cases hget : sm.get c with
  | none => exact .same rfl rfl
  | some e =>
    have hcnt := count_erase connected sm.sessions c
    rw [show sm.sessions.get c = some e from hget, any_some] at hcnt
    cases hconn : e.connected with
    | false =>
      rw [hconn] at hcnt
      exact .same hcnt (if_neg (by simp [hconn]))
    | true =>
      rw [hconn] at hcnt
      exact .down hcnt (if_pos hconn)

theorem cleanupExpired_tally (sm : SessionManager) (now : Instant) :
    Tally sm (sm.cleanupExpired now).2 := by
  refine .same (count_foldl_erase _ ?_) rfl
  intro c hc e hget
  obtain ⟨⟨c', e'⟩, hmem, rfl⟩ := List.mem_map.1 hc
  obtain ⟨hpair, hexp⟩ := List.mem_filter.1 hmem
  obtain rfl : e = e' := some.inj (hget.symm.trans (mem_toPairs.1 hpair))
  -- a connected session never is expired
  by_contra hconn
  simp [isExpired, hconn] at hexp

/-- **Every call changes the counter as it changes the table.** -/
theorem Changes.tally (h : Changes sm sm') : Tally sm sm' := by
  cases h with
  | registered => exact register_tally ..
  | written c e e' online hget hclean hq hep honline =>
    have hcnt := connectedCount_put e' hget
    cases he : e.connected <;> cases he' : e'.connected <;> rw [he, he'] at hcnt honline
    · exact .same hcnt (by simpa using honline)
    · exact .up hcnt (by simpa using honline)
    · exact .down hcnt (UInt64.eq_sub_iff_add_eq.2 (by simpa using honline))
    · exact .same (Nat.add_right_cancel hcnt) (by simpa using honline)
  | removed c => exact remove_tally sm c
  | expired now => exact cleanupExpired_tally sm now
  | received => exact .same rfl rfl

/-- The counter is the number of connected sessions, as far as its 64 bits go. -/
def Counted (sm : SessionManager) : Prop := sm.onlineCount = UInt64.ofNat sm.connectedCount

theorem Tally.counted (h : Tally sm sm') (hsm : sm.Counted) : sm'.Counted := by
  unfold Counted at hsm ⊢
  cases h with
  | same hcnt honline => rw [hcnt, honline, hsm]
  | up hcnt honline =>
    rw [hcnt, honline, hsm, UInt64.ofNat_add]
    rfl
  | down hcnt honline =>
    rw [honline, hsm, ← hcnt, UInt64.ofNat_add]
    exact UInt64.add_sub_cancel _ _

/-- What is taken off the counter was there. -/
theorem Tally.pos (h : Tally sm sm') (hdown : sm'.onlineCount = sm.onlineCount - 1) :
    0 < sm.connectedCount := by
  have hlt := sm.onlineCount.toNat_lt
  cases h with
  | same hcnt honline =>
    rw [honline, ← UInt64.toNat_inj, UInt64.toNat_sub, UInt64.toNat_one] at hdown
    omega
  | up hcnt honline =>
    rw [honline, ← UInt64.toNat_inj, UInt64.toNat_sub, UInt64.toNat_add, UInt64.toNat_one] at hdown
    omega
  | down hcnt honline => exact hcnt ▸ Nat.succ_pos _

/-! ## Clean sessions -/

/-- An entry has an offline queue exactly if its session is not clean. -/
def Queued (sm : SessionManager) : Prop :=
  ∀ c e, sm.get c = some e → (e.offlineQueue.isSome = true ↔ e.cleanSession = false)

/-- How an entry that is there after a call came about. -/
inductive Origin (sm : SessionManager) (c : String) (e' : SessionEntry) : Prop
  | kept (e : SessionEntry) (hget : sm.get c = some e) (hclean : e'.cleanSession = e.cleanSession)
      (hqueue : e'.offlineQueue.isSome = e.offlineQueue.isSome) (hepoch : e'.epoch = e.epoch)
  | registered (hqueue : e'.offlineQueue.isSome = true ↔ e'.cleanSession = false)
      (hepoch : e'.epoch = sm.epochCounter + 1)

theorem Origin.same (h : sm.get c = some e) : Origin sm c e :=
  .kept e h rfl rfl rfl

/-- **Every entry keeps the kind of session and the epoch that it was registered with.** -/
theorem Changes.origin (h : Changes sm sm') (he' : sm'.get c = some e') : Origin sm c e' := by
  cases h with
  | registered now c1 clean tx will level peer expiry =>
    rw [register_get] at he'
    split_ifs at he'
    · rw [← some.inj he']
      refine .registered ?_ rfl
      unfold newEntry
      cases clean <;> simp
    · exact .same he'
  | written c1 e e1 online hget hclean hq hep =>
    change (sm.put c1 e1).get c = some e' at he'
    rw [get_put] at he'
    split_ifs at he' with hc
    · rw [← some.inj he']
      exact .kept e (hc ▸ hget) hclean hq hep
    · exact .same he'
  | removed c1 =>
    rw [get_remove] at he'
    split_ifs at he'
    exact .same he'
  | expired now =>
    change FinMap.get (List.foldl _ sm.sessions _) c = some e' at he'
    rw [get_foldl_erase] at he'
    split_ifs at he'
    exact .same he'
  | received => exact .same he'

theorem call_queued (h : sm.call op = some sm') (hsm : sm.Queued) : sm'.Queued := by
  intro c e' he'
  cases (call_changes h).origin he' with
  | kept e hget hclean hq => rw [hclean, hq, hsm c e hget]
  | registered hq => exact hq

/-- What a table that has been called any number of times looks like. -/
theorem run_counted {maxOfflineMessages : Nat} {offlineMessageTtl : Duration}
    {ops : List (Instant × SessionOp)}
    (hrun : Runs.run call (new maxOfflineMessages offlineMessageTtl) ops = some sm) :
    sm.Counted ∧ sm.Queued := by
  refine Runs.run_invariant (C := fun _ _ => True) (I := fun sm => sm.Counted ∧ sm.Queued) ?_
    ⟨rfl, ?_⟩ (Runs.meets_of_forall (fun _ _ => trivial) _ _) hrun
  · rintro sm sm' op ⟨hcounted, hqueued⟩ - h
    exact ⟨(call_changes h).tally.counted hcounted, call_queued h hqueued⟩
  · intro c e he
    simp [new, get] at he

/-- A run of another machine from a table that was called so that was seen to return. -/
theorem exists_run_from {σ ε : Type} (step : σ → ε → Option σ) (start : SessionManager → σ)
    (ops : List (Instant × SessionOp)) (es : List ε) (p : σ → σ → Bool)
    (h : (Runs.run call (new 10 10) ops).any (fun table =>
      (Runs.run step (start table) es).any (p (start table))) = true) :
    ∃ table s, (table.Counted ∧ table.Queued) ∧ Runs.run step (start table) es = some s ∧
      p (start table) s = true := by
  obtain ⟨table, htable, h⟩ := (any_eq_true _ _).1 h
  obtain ⟨s, hrun, hp⟩ := (any_eq_true _ _).1 h
  exact ⟨table, s, run_counted htable, hrun, hp⟩

/-- **The counter of online sessions is exact**, whatever is called in whatever order: it is the
    number of connected entries, nothing is taken off it that is not there, and the entries with an
    offline queue are those of the sessions that are not clean. -/
theorem online_count_exact {maxOfflineMessages : Nat} {offlineMessageTtl : Duration}
    {ops : List (Instant × SessionOp)}
    (hrun : Runs.run call (new maxOfflineMessages offlineMessageTtl) ops = some sm) :
    sm.Counted ∧ (sm.connectedCount < 2 ^ 64 → sm.onlineCount.toNat = sm.connectedCount) ∧
      (∀ op sm', sm.call op = some sm' → sm'.onlineCount = sm.onlineCount - 1 →
        0 < sm.connectedCount) ∧ sm.Queued := by
  obtain ⟨hcounted, hqueued⟩ := run_counted hrun
  refine ⟨hcounted, ?_, fun op sm' h hdown => (call_changes h).tally.pos hdown, hqueued⟩
  intro hlt
  rw [hcounted, UInt64.toNat_ofNat_of_lt' hlt]

/-- The client `a` connects, is taken over by another connection, and the first one ends. -/
def takeoverCalls : List (Instant × SessionOp) :=
  [(0, .register "a" false 1 none mqtt311Level BrokerState.dummyAddr none),
    (1, .register "a" false 2 none mqtt311Level BrokerState.dummyAddr none),
    (2, .markOffline "a" 1)]

theorem online_count_exact_takeover : ∃ sm, Runs.run call (new 10 10) takeoverCalls = some sm ∧
    sm.connectedCount = 1 ∧ sm.onlineCount.toNat = sm.connectedCount := by
  obtain ⟨sm, hrun, hcount⟩ := Runs.exists_run call (new 10 10) takeoverCalls
    (fun sm => sm.connectedCount = 1) (by decide +kernel)
  have hcount : sm.connectedCount = 1 := by simpa using hcount
  obtain ⟨-, hexact, -⟩ := online_count_exact hrun
  exact ⟨sm, hrun, hcount, hexact (by rw [hcount]; decide)⟩

/-! ## Epochs -/

/-- The epoch that a call draws, if it registers a session. -/
def drawn (sm : SessionManager) : Instant × SessionOp → Option Nat
  | (now, .register c clean tx will level peer expiry) =>
    some (sm.register now c clean tx will level peer expiry).epoch
  | _ => none

/-- The epochs that a sequence of calls draws. -/
def epochsDrawn (sm : SessionManager) : List (Instant × SessionOp) → List Nat
  | [] => []
  | op :: ops =>
    match sm.call op with
    | some sm' => (sm.drawn op).toList ++ epochsDrawn sm' ops
    | none => []

theorem remove_epochCounter (sm : SessionManager) (c : String) :
    (sm.remove c).2.epochCounter = sm.epochCounter := by
  unfold remove
  split <;> rfl

theorem takeWill_epochCounter (sm : SessionManager) (c : String) (epoch : Nat) :
    (sm.takeWill c epoch).2.epochCounter = sm.epochCounter := by
  unfold takeWill
  split
  · split_ifs <;> rfl
  · rfl

theorem markOnline_epochCounter (sm : SessionManager) (c : String) (epoch : Nat) :
    (sm.markOnline c epoch).epochCounter = sm.epochCounter := by
  unfold markOnline
  split
  · split_ifs <;> rfl
  · rfl

/-- A call draws the epoch after the last one, or none. -/
theorem call_epochCounter (h : sm.call op = some sm') :
    sm.drawn op = some (sm.epochCounter + 1) ∧ sm'.epochCounter = sm.epochCounter + 1 ∨
      sm.drawn op = none ∧ sm'.epochCounter = sm.epochCounter := by
  obtain ⟨now, op⟩ := op
  cases op with
  | register => exact .inl ⟨rfl, some.inj h ▸ rfl⟩
  | deliverOrEnqueue c msg =>
    obtain ⟨d, hd, rfl⟩ := map_eq_some_iff.1 h
    refine .inr ⟨rfl, ?_⟩
    cases deliverOrEnqueue_delivers hd <;> rfl
  | removeIfEpoch c epoch =>
    refine .inr ⟨rfl, ?_⟩
    rw [← some.inj h, removeIfEpoch]
    split_ifs
    · exact remove_epochCounter sm c
    · rfl
  | markOffline c epoch =>
    exact .inr ⟨rfl, some.inj h ▸ (markOffline_limits sm now c epoch).1⟩
  | markOnline c epoch => exact .inr ⟨rfl, some.inj h ▸ markOnline_epochCounter sm c epoch⟩
  | remove c => exact .inr ⟨rfl, some.inj h ▸ remove_epochCounter sm c⟩
  | takeWill c epoch | clearWill c epoch =>
    exact .inr ⟨rfl, some.inj h ▸ takeWill_epochCounter sm c epoch⟩
  | cleanupExpired | receivers => exact .inr ⟨rfl, some.inj h ▸ rfl⟩

/-- The epochs are consecutive numbers. -/
theorem epochsDrawn_eq (sm : SessionManager) (ops : List (Instant × SessionOp)) :
    sm.epochsDrawn ops = List.range' (sm.epochCounter + 1) (sm.epochsDrawn ops).length := by
  induction ops generalizing sm with
  | nil => rfl
  | cons op ops ih =>
    unfold epochsDrawn
    cases hcall : sm.call op with
    | none => rfl
    | some sm' =>
      have hrest := ih sm'
      rcases call_epochCounter hcall with ⟨hdrawn, hcounter⟩ | ⟨hdrawn, hcounter⟩
      · rw [hcounter] at hrest
        simpa [hdrawn, List.range'_succ] using hrest
      · rw [hcounter] at hrest
        simpa [hdrawn] using hrest

/-- **No epoch is drawn twice**, nor among up to 2^64 of them a number that wraps around to the same
    64 bits. -/
theorem epochsDrawn_nodup (sm : SessionManager) (ops : List (Instant × SessionOp)) :
    (sm.epochsDrawn ops).Nodup ∧ ((sm.epochsDrawn ops).length ≤ 2 ^ 64 →
      ((sm.epochsDrawn ops).map UInt64.ofNat).Nodup) := by
  rw [epochsDrawn_eq, List.length_range']
  refine ⟨List.nodup_range', fun hlen => List.Nodup.map_on ?_ List.nodup_range'⟩
  intro k hk k' hk' heq
  have hmod : k % 2 ^ 64 = k' % 2 ^ 64 := by simpa using congrArg UInt64.toNat heq
  rw [List.mem_range'_1] at hk hk'
  omega

theorem owns_unique {epoch' : Nat} (h : sm.owns c epoch = true) (h' : sm.owns c epoch' = true) :
    epoch = epoch' := by
  unfold owns at h h'
  cases hget : sm.get c with
  | none => simp [hget] at h
  | some e =>
    simp only [hget, decide_eq_true_eq] at h h'
    exact h.symm.trans h'

/-! ## Stale epochs -/

section stale

variable (hstale : sm.owns c epoch = false)
include hstale

theorem epoch_ne_of_stale (hget : sm.get c = some e) : e.epoch ≠ epoch := by
  unfold owns at hstale
  simpa [hget] using hstale

theorem markOffline_of_stale (now : Instant) : sm.markOffline now c epoch = sm := by
  unfold markOffline
  cases hget : sm.get c with
  | none => rfl
  | some e => exact if_neg (fun h => epoch_ne_of_stale hstale hget h.1)

theorem markOnline_of_stale : sm.markOnline c epoch = sm := by
  unfold markOnline
  cases hget : sm.get c with
  | none => rfl
  | some e => exact if_neg (fun h => epoch_ne_of_stale hstale hget h.1)

theorem takeWill_of_stale : sm.takeWill c epoch = (none, sm) := by
  unfold takeWill
  cases hget : sm.get c with
  | none => rfl
  | some e => exact if_neg (epoch_ne_of_stale hstale hget)

theorem clearWill_of_stale : sm.clearWill c epoch = sm := by
  unfold clearWill
  rw [takeWill_of_stale hstale]

theorem removeIfEpoch_of_stale : sm.removeIfEpoch c epoch = (none, sm) :=
  if_neg (by simp [hstale])

end stale

end SessionManager

namespace BrokerState

section stale

variable {b : BrokerState} {c : String} {epoch : Nat} (hstale : b.sessions.owns c epoch = false)
include hstale

theorem cleanup_of_stale (clean : Bool) : b.cleanup c epoch clean = b := by
  unfold cleanup
  rw [markOffline_of_stale hstale, removeIfEpoch_of_stale hstale]
  cases clean with
  | true => rfl
  | false => simp [hstale]

theorem fireWill_of_stale : b.fireWill c epoch = some b := by
  unfold fireWill
  exact if_neg (by simp [hstale])

theorem onAbnormalDisconnect_of_stale (clean : Bool) :
    b.onAbnormalDisconnect c epoch clean = some b := by
  rw [onAbnormalDisconnect, fireWill_of_stale hstale, map_some, cleanup_of_stale hstale]

end stale

/-- **A stale connection is powerless over its successor.** With an epoch that is not the one of the
    client's entry, no method changes anything, no will is returned, and the clean-up leaves the
    whole broker as it was, with nothing published. No epoch is drawn twice, nor are two of up to
    2^64 the same `u64`, and only one owns an entry. -/
theorem stale_powerless (b : BrokerState) (c : String) (epoch : Nat)
    (hstale : b.sessions.owns c epoch = false) :
    (∀ now, b.sessions.markOffline now c epoch = b.sessions) ∧
    b.sessions.markOnline c epoch = b.sessions ∧ b.sessions.clearWill c epoch = b.sessions ∧
    b.sessions.removeIfEpoch c epoch = (none, b.sessions) ∧
    b.sessions.takeWill c epoch = (none, b.sessions) ∧
    (∀ clean, b.cleanup c epoch clean = b ∧ b.onAbnormalDisconnect c epoch clean = some b) ∧
    (∀ (sm : SessionManager) ops, (sm.epochsDrawn ops).Nodup ∧
      ((sm.epochsDrawn ops).length ≤ 2 ^ 64 → ((sm.epochsDrawn ops).map UInt64.ofNat).Nodup)) ∧
    ∀ (sm : SessionManager) c' k k', sm.owns c' k = true → sm.owns c' k' = true → k = k' := by
  refine ⟨markOffline_of_stale hstale, markOnline_of_stale hstale,
    clearWill_of_stale hstale, removeIfEpoch_of_stale hstale,
    takeWill_of_stale hstale, ?_, epochsDrawn_nodup, ?_⟩
  · intro clean
    exact ⟨cleanup_of_stale hstale clean, onAbnormalDisconnect_of_stale hstale clean⟩
  · intro sm c' k k' h h'
    exact owns_unique h h'

theorem stale_powerless_takeover : ∃ b : BrokerState, b.sessions.owns "a" 2 = true ∧
    b.sessions.owns "a" 1 = false ∧ b.cleanup "a" 1 true = b ∧
    b.onAbnormalDisconnect "a" 1 false = some b := by
  obtain ⟨b₀, -⟩ := isSome_iff_exists.1
    (show (BrokerState.new {} none 0).isSome = true by decide +kernel)
  obtain ⟨sm, -, howns⟩ := Runs.exists_run call (.new 10 10)
    takeoverCalls (fun sm => sm.owns "a" 2 && !sm.owns "a" 1) (by decide +kernel)
  simp only [Bool.and_eq_true, Bool.not_eq_true'] at howns
  obtain ⟨-, -, -, -, -, hcleanup, -⟩ := stale_powerless { b₀ with sessions := sm } "a" 1 howns.2
  exact ⟨{ b₀ with sessions := sm }, howns.1, howns.2, (hcleanup true).1, (hcleanup false).2⟩

end BrokerState

end LumenMQ
