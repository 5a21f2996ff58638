import LumenMQ.Broker.RegisterSteps

set_option autoImplicit false

/-! # The expiry sweep among registrations

`cleanup_expired` is not one access to the map: it looks at the entries one by one, looks again at
those that were expired, and removes them by their key. `register` draws an epoch, replaces the
entry and then counts it. Here every access is a step of its own, and the steps of one sweep and of
any number of registrations come in any order. A registration that replaces an entry between the
second look of the sweep and the removal is lost. -/

namespace LumenMQ

open Option List FinMap SessionManager SessionEntry Runs

/-! ## The machine -/

/-- Where the call of `cleanup_expired` is. -/
inductive Sweep where
  /-- In its scan; it has been at the entries `visited`. -/
  | scanning (visited expiredIds : List String)
  /-- It has to look again at the entries `todo`. -/
  | checking (todo removed : List String)
  /-- It has looked at the entry again, and is going to remove it. -/
  | removing (clientId : String) (todo removed : List String)

structure SweepRace where
  table : SessionManager
  /-- The time of the sweep. -/
  now : Instant
  sweep : Sweep := .scanning [] []
  calls : FinMap Nat RegisterCall := ∅
  /-- What the sweep has taken out of the map. The source does not keep this. -/
  removals : List (String × Option SessionEntry) := []

inductive SweepEvent where
  /-- One item of the scan. -/
  | visit (clientId : String)
  /-- The scan is over. -/
  | scanned
  /-- One `get`. -/
  | recheck
  /-- One `remove`. -/
  | remove
  | draw (i : Nat) (args : RegisterArgs)
  /-- The update of an entry. -/
  | enter (i : Nat) (now : Instant)
  | count (i : Nat)

namespace SweepRace

def start (table : SessionManager) (now : Instant) : SweepRace := { table, now }

def step (s : SweepRace) : SweepEvent → Option SweepRace
  | .visit clientId =>
    match s.sweep, s.table.get clientId with
    | .scanning visited expiredIds, some e =>
      if clientId ∈ visited then none
      else
        let expiredIds := if e.isExpired s.now then expiredIds ++ [clientId] else expiredIds
        some { s with sweep := .scanning (visited ++ [clientId]) expiredIds }
    | _, _ => none
  | .scanned =>
    match s.sweep with
    | .scanning _ expiredIds => some { s with sweep := .checking expiredIds [] }
    | _ => none
  | .recheck =>
    match s.sweep with
    | .checking (clientId :: todo) removed =>
      let isStillExpired := (s.table.get clientId).any (fun e => e.isExpired s.now)
      some { s with sweep :=
        if isStillExpired then .removing clientId todo removed else .checking todo removed }
    | _ => none
  | .remove =>
    match s.sweep with
    | .removing clientId todo removed =>
      some { s with
        -- the map's own `remove`, which does not count
        table := { s.table with sessions := s.table.sessions.erase clientId }
        sweep := .checking todo (removed ++ [clientId])
        removals := s.removals ++ [(clientId, s.table.get clientId)] }
    | _ => none
  | .draw i args =>
    match s.calls.get i with
    | none => some { s with
        table := s.table.drawEpoch.2
        calls := s.calls.insert i (.drawn args s.table.drawEpoch.1) }
    | some _ => none
  | .enter i now =>
    match s.calls.get i with
    | some (.drawn args epoch) =>
      let entered := s.table.enter now args epoch
      some { s with
        table := entered.sessions
        calls := s.calls.insert i (.entered entered.incOnline
          { epoch, sessionPresent := entered.sessionPresent, drained := entered.drained }) }
    | _ => none
  | .count i =>
    match s.calls.get i with
    | some (.entered incOnline reply) => some { s with
        table := s.table.countOnline incOnline
        calls := s.calls.insert i (.returned reply) }
    | _ => none

/-- All calls have returned. -/
def Finished (s : SweepRace) : Prop :=
  (∃ removed, s.sweep = .checking [] removed) ∧
    ∀ i call, s.calls.get i = some call → call.isReturned = true

/-- The sweep has removed nothing but offline sessions that were expired, and once all calls have
    returned the counter is exact. -/
structure Safe (s : SweepRace) : Prop where
  due : ∀ r ∈ s.removals, ∃ e, r.2 = some e ∧ e.connected = false ∧ e.isExpired s.now = true
  returns : ∀ todo removed, s.sweep = .checking todo removed → removed = s.removals.map Prod.fst
  counted : s.Finished → s.table.Counted

/-- No registration replaces the entry that the sweep is going to remove. -/
def undisturbed (s : SweepRace) : SweepEvent → Bool
  | .enter i _ =>
    match s.calls.get i, s.sweep with
    | some (.drawn args _), .removing clientId _ _ => args.clientId ≠ clientId
    | _, _ => true
  | _ => true

/-! ## What a step changes -/

/-- What a step changes. -/
inductive Change (s : SweepRace) (e : SweepEvent) (s' : SweepRace) : Prop
  /-- The scan goes on or ends. -/
  | scan (visited expiredIds : List String) (sweep : Sweep) (hfree : s.undisturbed e = true)
      (hsweep : s.sweep = .scanning visited expiredIds)
      (hnext : (∃ visited expiredIds, sweep = .scanning visited expiredIds) ∨
        ∃ todo, sweep = .checking todo [])
      (hs' : s' = { s with sweep })
  /-- The entry is still expired. -/
  | found (clientId : String) (todo removed : List String) (entry : SessionEntry)
      (hfree : s.undisturbed e = true)
      (hsweep : s.sweep = .checking (clientId :: todo) removed)
      (hget : s.table.get clientId = some entry) (hexpired : entry.isExpired s.now = true)
      (hs' : s' = { s with sweep := .removing clientId todo removed })
  | spared (clientId : String) (todo removed : List String) (hfree : s.undisturbed e = true)
      (hsweep : s.sweep = .checking (clientId :: todo) removed)
      (hs' : s' = { s with sweep := .checking todo removed })
  | remove (clientId : String) (todo removed : List String) (hfree : s.undisturbed e = true)
      (hsweep : s.sweep = .removing clientId todo removed)
      (hs' : s' = { s with
        table := { s.table with sessions := s.table.sessions.erase clientId }
        sweep := .checking todo (removed ++ [clientId])
        removals := s.removals ++ [(clientId, s.table.get clientId)] })
  | drawn (i : Nat) (args : RegisterArgs) (hfree : s.undisturbed e = true)
      (hcall : s.calls.get i = none)
      (hs' : s' = { s with
        table := s.table.drawEpoch.2
        calls := s.calls.insert i (.drawn args s.table.drawEpoch.1) })
  | entered (i : Nat) (now : Instant) (args : RegisterArgs) (epoch : Nat) (reply : RegisterReply)
      (he : e = .enter i now) (hcall : s.calls.get i = some (.drawn args epoch))
      (hs' : s' = { s with
        table := (s.table.enter now args epoch).sessions
        calls := s.calls.insert i
          (.entered (s.table.enter now args epoch).incOnline reply) })
  | counted (i : Nat) (incOnline : Bool) (reply : RegisterReply) (hfree : s.undisturbed e = true)
      (hcall : s.calls.get i = some (.entered incOnline reply))
      (hs' : s' = { s with
        table := s.table.countOnline incOnline
        calls := s.calls.insert i (.returned reply) })

variable {s s' : SweepRace} {e : SweepEvent}

theorem step_change (h : s.step e = some s') : Change s e s' := by
  cases e with
  | visit clientId =>
    simp only [step] at h
    split at h
    · next visited expiredIds entry hsweep hget =>
      split_ifs at h
      · exact .scan visited expiredIds _ rfl hsweep (.inl ⟨_, _, rfl⟩) (some.inj h).symm
      · exact .scan visited expiredIds _ rfl hsweep (.inl ⟨_, _, rfl⟩) (some.inj h).symm
    · simp at h
  | scanned =>
    simp only [step] at h
    split at h
    · next visited expiredIds hsweep =>
      exact .scan visited expiredIds _ rfl hsweep (.inr ⟨_, rfl⟩) (some.inj h).symm
    · simp at h
  | recheck =>
    simp only [step] at h
    split at h
    · next clientId todo removed hsweep =>
      rw [← some.inj h]
      by_cases hany : (s.table.get clientId).any (fun e => e.isExpired s.now) = true
      · obtain ⟨entry, hget, hexp⟩ := (any_eq_true _ _).1 hany
        rw [if_pos hany]
        exact .found clientId todo removed entry rfl hsweep hget hexp rfl
      · rw [if_neg hany]
        exact .spared clientId todo removed rfl hsweep rfl
    · simp at h
  | remove =>
    simp only [step] at h
    split at h
    · next clientId todo removed hsweep =>
      exact .remove clientId todo removed rfl hsweep (some.inj h).symm
    · simp at h
  | draw i args =>
    simp only [step] at h
    split at h
    · next hcall => exact .drawn i args rfl hcall (some.inj h).symm
    · simp at h
  | enter i now =>
    simp only [step] at h
    split at h
    · next args epoch hcall => exact .entered i now args epoch _ rfl hcall (some.inj h).symm
    · simp at h
  | count i =>
    simp only [step] at h
    split at h
    · next incOnline reply hcall =>
      exact .counted i incOnline reply rfl hcall (some.inj h).symm
    · simp at h

/-! ## The entry that is going to be removed -/

/-- An entry that the sweep may meet when it removes: it is expired, or has been replaced. -/
def Exposed (now : Instant) (e : Option SessionEntry) : Prop :=
  ∃ entry, e = some entry ∧ (entry.connected = true ∨ entry.isExpired now = true)

/-- What the sweep has taken out of the map, and what it is going to. -/
structure Ordered (s : SweepRace) : Prop where
  removals : ∀ r ∈ s.removals, Exposed s.now r.2
  removing : ∀ clientId todo removed, s.sweep = .removing clientId todo removed →
    Exposed s.now (s.table.get clientId) ∧ removed = s.removals.map Prod.fst
  checking : ∀ todo removed, s.sweep = .checking todo removed → removed = s.removals.map Prod.fst
  scanning : ∀ visited expiredIds, s.sweep = .scanning visited expiredIds → s.removals = []

theorem ordered_start (table : SessionManager) (now : Instant) : (start table now).Ordered :=
  ⟨by simp [start], by simp [start], by simp [start], fun _ _ _ => rfl⟩

/-- A registration connects its session and leaves the others alone. -/
theorem exposed_enter {sm : SessionManager} {t now : Instant} {args : RegisterArgs} {epoch : Nat}
    {clientId : String} (h : Exposed t (sm.get clientId)) :
    Exposed t ((sm.enter now args epoch).sessions.get clientId) := by
  rw [enter_sessions, get_put]
  split_ifs with hc
  · exact ⟨_, rfl, .inl rfl⟩
  · exact h

theorem step_ordered (h : s.step e = some s') (hs : s.Ordered) : s'.Ordered := by
  cases step_change h with
  | scan visited expiredIds sweep _ hsweep hnext hs' =>
    subst hs'
    have hnone := hs.scanning visited expiredIds hsweep
    rcases hnext with ⟨visited', expiredIds', rfl⟩ | ⟨todo, rfl⟩
    · exact ⟨hs.removals, by simp, by simp, fun _ _ _ => hnone⟩
    · exact ⟨hs.removals, by simp, by simp [hnone], by simp⟩
  | found clientId todo removed entry _ hsweep hget hexp hs' =>
    subst hs'
    refine ⟨hs.removals, ?_, by simp, by simp⟩
    intro c' todo' removed' heq
    cases heq
    exact ⟨⟨entry, hget, .inr hexp⟩, hs.checking _ _ hsweep⟩
  | spared clientId todo removed _ hsweep hs' =>
    subst hs'
    refine ⟨hs.removals, by simp, ?_, by simp⟩
    intro todo' removed' heq
    cases heq
    exact hs.checking _ _ hsweep
  | remove clientId todo removed _ hsweep hs' =>
    subst hs'
    obtain ⟨hexposed, hremoved⟩ := hs.removing clientId todo removed hsweep
    refine ⟨?_, by simp, ?_, by simp⟩
    · intro r hr
      rcases mem_append.1 hr with hr | hr
      · exact hs.removals r hr
      · rw [mem_singleton.1 hr]
        exact hexposed
    · intro todo' removed' heq
      cases heq
      simp [hremoved]
  | drawn i args _ hcall hs' =>
    subst hs'
    exact ⟨hs.removals, hs.removing, hs.checking, hs.scanning⟩
  | entered i now args epoch reply he hcall hs' =>
    subst hs'
    refine ⟨hs.removals, ?_, hs.checking, hs.scanning⟩
    intro clientId todo removed hsweep
    obtain ⟨hexposed, hremoved⟩ := hs.removing clientId todo removed hsweep
    exact ⟨exposed_enter hexposed, hremoved⟩
  | counted i incOnline reply _ hcall hs' =>
    subst hs'
    exact ⟨hs.removals, hs.removing, hs.checking, hs.scanning⟩

/-! ## Lost registrations -/

/-- No registration has been lost, and none is going to be. -/
def Clean (s : SweepRace) : Prop :=
  (∀ r ∈ s.removals, r.2.any SessionEntry.connected = false) ∧
    ∀ clientId todo removed, s.sweep = .removing clientId todo removed →
      (s.table.get clientId).any SessionEntry.connected = false

theorem clean_start (table : SessionManager) (now : Instant) : (start table now).Clean :=
  ⟨by simp [start], by simp [start]⟩

theorem connected_of_isExpired {entry : SessionEntry} {now : Instant}
    (h : entry.isExpired now = true) : entry.connected = false := by
  by_contra hconn
  simp [isExpired, hconn] at h

/-- **A registration is lost exactly if it replaces the entry that is going to be removed.** -/
theorem step_clean_iff (h : s.step e = some s') : s'.Clean ↔ s.Clean ∧ s.undisturbed e = true := by
  cases step_change h with
  | scan visited expiredIds sweep hfree hsweep hnext hs' =>
    subst hs'
    rw [and_iff_left hfree]
    refine and_congr_right' (iff_of_true ?_ (by simp [hsweep]))
    rcases hnext with ⟨visited', expiredIds', rfl⟩ | ⟨todo, rfl⟩ <;> simp
  | found clientId todo removed entry hfree hsweep hget hexp hs' =>
    subst hs'
    rw [and_iff_left hfree]
    refine and_congr_right' (iff_of_true ?_ (by simp [hsweep]))
    intro c' todo' removed' heq
    cases heq
    rw [hget]
    exact connected_of_isExpired hexp
  | spared clientId todo removed hfree hsweep hs' =>
    subst hs'
    rw [and_iff_left hfree]
    exact and_congr_right' (iff_of_true (by simp) (by simp [hsweep]))
  | remove clientId todo removed hfree hsweep hs' =>
    subst hs'
    rw [and_iff_left hfree]
    simp [Clean, hsweep, or_imp, forall_and]
  | drawn i args hfree hcall hs' =>
    subst hs'
    rw [and_iff_left hfree]
    exact Iff.rfl
  | counted i incOnline reply hfree hcall hs' =>
    subst hs'
    rw [and_iff_left hfree]
    exact Iff.rfl
  | entered i now args epoch reply he hcall hs' =>
    subst hs' he
    have hget := fun c => get_put s.table args.clientId c (s.table.newEntry now
      args.clientId args.cleanSession args.tx args.will args.protocolLevel args.peerAddr epoch
      args.sessionExpiry)
    unfold Clean
    rw [and_assoc]
    refine and_congr_right' ?_
    simp only [enter_sessions, hget, undisturbed, hcall]
    cases hsweep : s.sweep with
    | scanning | checking => simp
    | removing clientId todo removed =>
      by_cases hc : clientId = args.clientId
      · subst hc
        simp [newEntry]
      · simp [hc, Ne.symm hc]

/-! ## The counter -/

/-- The sessions that are in the map and still to be counted. -/
def uncounted (s : SweepRace) : Nat := s.calls.count RegisterCall.isUncounted

/-- The registrations that the sweep has undone. -/
def lost (s : SweepRace) : Nat := s.removals.countP (fun r => r.2.any SessionEntry.connected)

/-- The counter counts what is in the map and what was lost, except what is still to be counted. -/
def Balanced (s : SweepRace) : Prop :=
  s.table.onlineCount + UInt64.ofNat s.uncounted = UInt64.ofNat (s.table.connectedCount + s.lost)

theorem balanced_start {table : SessionManager} (htable : table.Counted) (now : Instant) :
    (start table now).Balanced := by
  unfold Balanced
  rw [show (start table now).uncounted = 0 from rfl, show (start table now).lost = 0 from rfl,
    Nat.add_zero]
  exact (UInt64.add_zero _).trans htable

/-- A step counts `a` sessions, and enters `d` into the map that are to be counted. -/
theorem Balanced.add (hs : s.Balanced) (a d : Nat)
    (honline : s'.table.onlineCount = s.table.onlineCount + UInt64.ofNat a)
    (huncounted : s'.uncounted + a = s.uncounted + d)
    (hsum : s'.table.connectedCount + s'.lost = s.table.connectedCount + s.lost + d) :
    s'.Balanced := by
  unfold Balanced at hs ⊢
  calc s'.table.onlineCount + UInt64.ofNat s'.uncounted
      = s.table.onlineCount + UInt64.ofNat (s'.uncounted + a) := by
        rw [honline, UInt64.ofNat_add, UInt64.add_assoc, UInt64.add_comm (UInt64.ofNat a)]
    _ = s.table.onlineCount + UInt64.ofNat s.uncounted + UInt64.ofNat d := by
        rw [huncounted, UInt64.ofNat_add, UInt64.add_assoc]
    _ = UInt64.ofNat (s'.table.connectedCount + s'.lost) := by
        rw [hs, hsum, ← UInt64.ofNat_add]

theorem step_balanced (h : s.step e = some s') (hs : s.Balanced) : s'.Balanced := by
  cases step_change h with
  | scan visited expiredIds sweep _ _ _ hs' => exact hs' ▸ hs
  | found clientId todo removed entry _ _ _ _ hs' => exact hs' ▸ hs
  | spared clientId todo removed _ _ hs' => exact hs' ▸ hs
  | remove clientId todo removed _ hsweep hs' =>
    subst hs'
    have hcnt := count_erase connected s.table.sessions clientId
    refine hs.add 0 0 (UInt64.add_zero _).symm rfl ?_
    unfold lost
    rw [countP_append, countP_singleton]
    show count _ (s.table.sessions.erase clientId) + _ = count _ _ + _
    rw [← hcnt, ← Nat.add_assoc]
    exact Nat.add_right_comm ..
  | drawn i args _ hcall hs' =>
    subst hs'
    have hcs := count_insert_of_none RegisterCall.isUncounted
      (.drawn args s.table.drawEpoch.1) hcall
    exact hs.add 0 0 (UInt64.add_zero _).symm hcs rfl
  | entered i now args epoch reply he hcall hs' =>
    subst hs'
    have hcnt := count_insert connected s.table.sessions args.clientId
      (s.table.newEntry now args.clientId args.cleanSession args.tx args.will args.protocolLevel
        args.peerAddr epoch args.sessionExpiry)
    have hcs := count_insert RegisterCall.isUncounted s.calls i
      (.entered (s.table.enter now args epoch).incOnline reply)
    rw [hcall] at hcs
    refine hs.add 0 (if (s.table.enter now args epoch).incOnline then 1 else 0)
      ?_ hcs ?_
    · rw [enter_sessions]
      exact (UInt64.add_zero _).symm
    · rw [enter_incOnline]
      show connectedCount (s.table.enter now args epoch).sessions + _ = _
      rw [enter_sessions]
      show count _ (s.table.sessions.insert args.clientId _) + s.lost =
        count _ _ + s.lost + _
      change _ + (if (s.table.get args.clientId).any _ then 1 else 0) = _ + 1 at hcnt
      cases hany : (s.table.get args.clientId).any connected with
      | true =>
        rw [hany] at hcnt
        simp at hcnt ⊢
        omega
      | false =>
        rw [hany] at hcnt
        simp at hcnt ⊢
        omega
  | counted i incOnline reply _ hcall hs' =>
    subst hs'
    have hcs := count_insert RegisterCall.isUncounted s.calls i (.returned reply)
    rw [hcall] at hcs
    refine hs.add (if incOnline then 1 else 0) 0 ?_ hcs rfl
    cases incOnline with
    | true => rfl
    | false => exact (UInt64.add_zero _).symm

/-! ## Safety -/

theorem uncounted_of_finished (h : s.Finished) : s.uncounted = 0 := by
  refine count_eq_zero ?_
  intro i call hcall
  have hret := h.2 i call hcall
  cases call with
  | returned => rfl
  | drawn | entered => simp [RegisterCall.isReturned] at hret

/-- If no registration is lost, all is well. -/
theorem safe_of_clean (hord : s.Ordered) (hbalanced : s.Balanced) (hclean : s.Clean) :
    s.Safe := by
  refine ⟨?_, hord.checking, ?_⟩
  · intro r hr
    obtain ⟨entry, hent, hexposed⟩ := hord.removals r hr
    have hoff := hclean.1 r hr
    rw [hent, any_some] at hoff
    rcases hexposed with hconn | hexp
    · simp [hconn] at hoff
    · exact ⟨entry, hent, hoff, hexp⟩
  · intro hfin
    have hlost : s.lost = 0 := by
      unfold lost
      rw [countP_eq_zero]
      intro r hr
      simp [hclean.1 r hr]
    unfold Balanced at hbalanced
    rw [uncounted_of_finished hfin, hlost, Nat.add_zero] at hbalanced
    exact (UInt64.add_zero _).symm.trans hbalanced

/-- Once the sweep has returned, nothing was lost if all that it has removed was offline. -/
theorem clean_of_safe (hfin : s.Finished) (hsafe : s.Safe) : s.Clean := by
  refine ⟨?_, ?_⟩
  · intro r hr
    obtain ⟨entry, hent, hoff, -⟩ := hsafe.due r hr
    rw [hent]
    exact hoff
  · intro clientId todo removed hsweep
    obtain ⟨⟨removed', hdone⟩, -⟩ := hfin
    simp [hdone] at hsweep

/-- **The sweep removes no live session exactly if no registration comes between.** In a run in
    which no registration replaces the entry that the sweep has found expired and is going to
    remove, the sweep has removed nothing but offline and expired sessions, and in the end the
    counter is exact. In any other run that comes to its end, it has not. -/
theorem sweep_safe_iff {table : SessionManager} (htable : table.Counted) (now : Instant)
    {es : List SweepEvent} (hrun : Runs.run step (start table now) es = some s) :
    (Runs.Meets step (fun s e => s.undisturbed e = true) (start table now) es → s.Safe) ∧
      (s.Finished →
        (s.Safe ↔ Runs.Meets step (fun s e => s.undisturbed e = true) (start table now) es)) := by
  have hclean : s.Clean ↔
      Runs.Meets step (fun s e => s.undisturbed e = true) (start table now) es := by
    rw [run_iff (I := fun _ => True) (J := Clean) (fun _ _ _ _ _ => trivial)
      (fun _ _ _ _ hstep => step_clean_iff hstep) trivial hrun]
    exact and_iff_right (clean_start table now)
  obtain ⟨hordered, hbalanced⟩ : s.Ordered ∧ s.Balanced :=
    run_invariant (C := fun _ _ => True) (I := fun s => s.Ordered ∧ s.Balanced)
      (fun _ _ _ hs _ hstep => ⟨step_ordered hstep hs.1, step_balanced hstep hs.2⟩)
      ⟨ordered_start table now, balanced_start htable now⟩
      (meets_of_forall (fun _ _ => trivial) _ _) hrun
  refine ⟨fun hmeets => safe_of_clean hordered hbalanced (hclean.2 hmeets), ?_⟩
  intro hfinished
  rw [← hclean]
  exact ⟨clean_of_safe hfinished, safe_of_clean hordered hbalanced⟩

/-- The session of the client `a`, which was offline too long. -/
def expiredCalls : List (Instant × SessionOp) :=
  [(0, .register "a" false 1 none mqtt5Level BrokerState.dummyAddr (some 0)), (0, .markOffline "a" 1)]

/-- The client `a` connects again. -/
def reconnects : RegisterArgs where
  clientId := "a"
  cleanSession := false
  tx := 2
  will := none
  protocolLevel := mqtt5Level
  peerAddr := BrokerState.dummyAddr
  sessionExpiry := some 0

/-- The client connects again before the sweep looks at its entry a second time. -/
def earlyRun : List SweepEvent :=
  [.visit "a", .scanned, .draw 0 reconnects, .enter 0 1, .recheck, .count 0]

/-- The client connects again between the second look and the removal. -/
def lateRun : List SweepEvent :=
  [.visit "a", .scanned, .recheck, .draw 0 reconnects, .enter 0 1, .count 0, .remove]

/-- Whether all calls have returned. -/
def isFinished (s : SweepRace) : Bool :=
  (match s.sweep with
    | .checking [] _ => true
    | _ => false) && s.calls.toPairs.all (fun call => call.2.isReturned)

theorem finished_of_isFinished (h : s.isFinished = true) : s.Finished := by
  obtain ⟨hsweep, hcs⟩ := Bool.and_eq_true_iff.1 h
  refine ⟨?_, fun i call hcall => all_eq_true.1 hcs (i, call) (mem_toPairs.2 hcall)⟩
  split at hsweep
  · next removed hdone => exact ⟨removed, hdone⟩
  · simp at hsweep

theorem sweep_safe_iff_early : ∃ table s, table.Counted ∧
    Runs.run step (start table 1) earlyRun = some s ∧ s.Finished ∧ s.Safe := by
  obtain ⟨table, s, ⟨htable, -⟩, hrun, hp⟩ := exists_run_from step (start · 1)
    expiredCalls earlyRun
    (fun s₀ s => s.isFinished && meets step undisturbed s₀ earlyRun) (by decide +kernel)
  obtain ⟨hfinished, hmeets⟩ := Bool.and_eq_true_iff.1 hp
  have hfinished := finished_of_isFinished hfinished
  refine ⟨table, s, htable, hrun, hfinished, ((sweep_safe_iff htable 1 hrun).2 hfinished).2 ?_⟩
  exact meets_of_check undisturbed (fun _ _ h => h) hmeets

/-- The session that was just registered is removed, and stays counted. -/
theorem late_registration_lost : ∃ table s, table.Counted ∧
    Runs.run step (start table 1) lateRun = some s ∧ s.Finished ∧
    (∃ r ∈ s.removals, r.2.any SessionEntry.connected = true) ∧ ¬ s.table.Counted ∧ ¬ s.Safe := by
  obtain ⟨table, s, ⟨htable, -⟩, hrun, hp⟩ := SessionManager.exists_run_from step (start · 1)
    expiredCalls lateRun
    (fun _ s => s.isFinished && s.removals.any (fun r => r.2.any SessionEntry.connected) &&
      s.table.onlineCount ≠ UInt64.ofNat s.table.connectedCount) (by decide +kernel)
  simp only [Bool.and_eq_true, List.any_eq_true, decide_eq_true_eq] at hp
  obtain ⟨⟨hfinished, hlost⟩, hcounted⟩ := hp
  have hfinished := finished_of_isFinished hfinished
  exact ⟨table, s, htable, hrun, hfinished, hlost, hcounted,
    fun hsafe => hcounted (hsafe.counted hfinished)⟩

/-! ## The sweep by itself -/

/-- A sweep without registrations: it looks at every entry, and removes the expired ones. -/
def sweepAlone (table : SessionManager) (now : Instant) : List SweepEvent :=
  table.sessions.toPairs.map (fun e => .visit e.1) ++ .scanned ::
    (table.cleanupExpired now).1.flatMap (fun _ => [.recheck, .remove])

/-- The scan finds the entries that are expired. -/
theorem run_scan {visited expiredIds : List String} {entries : List (String × SessionEntry)}
    (hsweep : s.sweep = .scanning visited expiredIds)
    (hget : ∀ e ∈ entries, s.table.get e.1 = some e.2)
    (hnd : (visited ++ entries.map Prod.fst).Nodup) :
    Runs.run step s (entries.map (fun e => .visit e.1)) = some { s with
      sweep := .scanning (visited ++ entries.map Prod.fst)
        (expiredIds ++ (entries.filter (fun e => e.2.isExpired s.now)).map Prod.fst) } := by
  induction entries generalizing s visited expiredIds with
  | nil =>
    rw [map_nil, filter_nil, map_nil, append_nil, append_nil, ← hsweep]
    rfl
  | cons e entries ih =>
    rw [forall_mem_cons] at hget
    rw [map_cons, append_cons] at hnd
    have hnew : e.1 ∉ visited := by
      have := (nodup_append.1 (nodup_append.1 hnd).1).2.2
      exact fun hmem => this e.1 hmem e.1 (by simp) rfl
    have hstep : s.step (.visit e.1) = some { s with
        sweep := .scanning (visited ++ [e.1])
          (if e.2.isExpired s.now then expiredIds ++ [e.1] else expiredIds) } := by
      simp only [step, hsweep, hget.1]
      rw [if_neg hnew]
    rw [map_cons, run_cons]
    refine ⟨_, hstep, ?_⟩
    have hrest := ih (s := { s with
      sweep := .scanning (visited ++ [e.1])
        (if e.2.isExpired s.now then expiredIds ++ [e.1] else expiredIds) }) rfl hget.2 hnd
    rw [hrest]
    by_cases hexp : e.2.isExpired s.now = true
    · simp [hexp]
    · simp [hexp]

/-- The second look finds them again. -/
theorem run_removal {removed expiredIds : List String}
    (hsweep : s.sweep = .checking expiredIds removed) (hnd : expiredIds.Nodup)
    (hexp : ∀ c ∈ expiredIds, (s.table.get c).any (fun e => e.isExpired s.now) = true) :
    ∃ s', Runs.run step s (expiredIds.flatMap (fun _ => [.recheck, .remove])) = some s' ∧
      s'.sweep = .checking [] (removed ++ expiredIds) ∧
      s'.table = { s.table with
        sessions := expiredIds.foldl (fun m clientId => m.erase clientId) s.table.sessions } := by
  induction expiredIds generalizing s removed with
  | nil => exact ⟨s, rfl, by rw [hsweep, append_nil], rfl⟩
  | cons c expiredIds ih =>
    rw [forall_mem_cons] at hexp
    rw [nodup_cons] at hnd
    have hrec : s.step .recheck =
        some { s with sweep := .removing c expiredIds removed } := by
      simp only [step, hsweep, hexp.1, if_true]
    have hothers : ∀ c' ∈ expiredIds, (get (s.table.sessions.erase c) c').any
        (fun e => e.isExpired s.now) = true := by
      intro c' hc'
      have hne : c' ≠ c := fun heq => hnd.1 (heq ▸ hc')
      rw [get_erase, if_neg hne]
      exact hexp.2 c' hc'
    obtain ⟨s', hrun, hsweep', htable⟩ := ih (s := { s with
      table := { s.table with sessions := s.table.sessions.erase c }
      sweep := .checking expiredIds (removed ++ [c])
      removals := s.removals ++ [(c, s.table.get c)] }) rfl hnd.2 hothers
    refine ⟨s', ?_, by rw [hsweep', append_assoc, singleton_append], htable⟩
    rw [flatMap_cons, cons_append, run_cons]
    refine ⟨_, hrec, ?_⟩
    rw [cons_append, run_cons]
    exact ⟨_, rfl, hrun⟩

/-- Without registrations the accesses of the sweep are `cleanup_expired`. -/
theorem run_sweepAlone (table : SessionManager) (now : Instant) :
    ∃ s, Runs.run step (start table now) (sweepAlone table now) = some s ∧
      s.sweep = .checking [] (table.cleanupExpired now).1 ∧
      s.table = (table.cleanupExpired now).2 := by
  have hnd := toPairs_nodup table.sessions
  have hget : ∀ e ∈ table.sessions.toPairs, table.get e.1 = some e.2 :=
    fun e he => mem_toPairs.1 he
  have hscan := run_scan (s := start table now) rfl hget hnd
  have hexp : ∀ c ∈ (table.cleanupExpired now).1,
      (table.get c).any (fun e => e.isExpired now) = true := by
    intro c hc
    obtain ⟨e, he, rfl⟩ := mem_map.1 hc
    obtain ⟨hmem, hexp⟩ := mem_filter.1 he
    rw [hget e hmem]
    exact hexp
  obtain ⟨s, hrun, hsweep, htable⟩ := run_removal (s := { start table now with
    sweep := .checking (table.cleanupExpired now).1 [] }) rfl
    (hnd.sublist (filter_sublist.map _)) hexp
  refine ⟨s, ?_, hsweep, htable⟩
  unfold sweepAlone
  rw [run_append]
  refine ⟨_, hscan, ?_⟩
  rw [run_cons]
  exact ⟨_, rfl, hrun⟩

end SweepRace

end LumenMQ
