import LumenMQ.Broker.Moves
import LumenMQ.Broker.RegisterSteps

set_option autoImplicit false

/-! # Sessions that have expired

A session is over when its expiry interval has passed, but only the sweep looks at the interval:
`register` resumes whatever entry it finds. So what a client is told that comes back late depends on
whether the sweep has run between the end of the interval and the return. -/

namespace LumenMQ

open Option Duration

/-- The session of an entry is over: it is offline, and its expiry interval has passed. -/
structure SessionEntry.Overdue (e : SessionEntry) (now : Instant) : Prop where
  offline : e.connected = false
  passed : ∃ secs at_, e.sessionExpiry = some secs ∧ e.offlineAt = some at_ ∧
    secs.toNat ≤ Duration.asSecs (now - at_)

theorem SessionEntry.Overdue.isExpired {e : SessionEntry} {now : Instant} (h : e.Overdue now) :
    e.isExpired now = true := by
  obtain ⟨secs, at_, hexp, hat, hpassed⟩ := h.passed
  unfold SessionEntry.isExpired
  rw [h.offline, hexp, hat, if_neg Bool.false_ne_true]
  split
  · rfl
  · next heq heq' =>
    cases heq
    cases heq'
    exact decide_eq_true hpassed
  · next hno => exact absurd rfl (hno secs at_ rfl)

/-- An entry that has been offline all the while. -/
structure SessionEntry.Stays (e e' : SessionEntry) : Prop where
  connected : e'.connected = false
  cleanSession : e'.cleanSession = e.cleanSession
  sessionExpiry : e'.sessionExpiry = e.sessionExpiry
  offlineAt : e'.offlineAt = e.offlineAt
  epoch : e'.epoch = e.epoch

namespace SessionManager

variable {sm sm' : SessionManager} {c : String} {e e' : SessionEntry}

/-! ## What `register` answers -/

/-- What `register` returns besides the epoch: whether there was a session, and what it had kept. -/
def answer (sm : SessionManager) (now : Instant) (args : RegisterArgs) :
    Bool × List OutboundPublish :=
  let r := sm.register now args.clientId args.cleanSession args.tx args.will args.protocolLevel
    args.peerAddr args.sessionExpiry
  (r.sessionPresent, r.drained)

theorem answer_of_none {args : RegisterArgs} (now : Instant)
    (hget : sm.get args.clientId = none) : sm.answer now args = (false, []) := by
  simp only [answer, register, hget]

/-- An entry is resumed unless it is clean. -/
theorem answer_of_some {args : RegisterArgs} (now : Instant)
    (hget : sm.get args.clientId = some e) :
    sm.answer now args = (false, []) ↔ e.cleanSession = true := by
  simp only [answer, register, hget, SessionEntry.handover]
  cases e.cleanSession <;> simp

theorem get_cleanupExpired (sm : SessionManager) (now : Instant) (c : String) :
    (sm.cleanupExpired now).2.get c =
      if (sm.get c).any (fun e => e.isExpired now) = true then none else sm.get c := by
  have hget : (sm.cleanupExpired now).2.get c =
      if c ∈ (sm.cleanupExpired now).1 then none else sm.get c := FinMap.get_foldl_erase ..
  rw [hget]
  simp only [BrokerState.mem_cleanupExpired, any_eq_true]

/-! ## Between the end of a connection and the next one -/

/-- A call that brings the session of a client back. -/
def Revives (c : String) : SessionOp → Prop
  | .register c' .. | .markOnline c' _ => c' = c
  | _ => False

/-- A call that removes an entry that is offline: the sweep, if the session has expired by then, or
    a removal of its own. -/
def Ends (c : String) (e : SessionEntry) : Instant × SessionOp → Prop
  | (now, .cleanupExpired) => e.isExpired now = true
  | (_, .remove c') => c' = c
  | (_, .removeIfEpoch c' epoch) => c' = c ∧ e.epoch = epoch
  | _ => False

theorem isExpired_of_stays (h : e.Stays e') (hoff : e.connected = false) (now : Instant) :
    e'.isExpired now = e.isExpired now := by
  unfold SessionEntry.isExpired
  rw [h.connected, hoff, h.sessionExpiry, h.offlineAt]

/-- What calls make of the entry of a client that is offline, if there is one: they take it out, or
    it stays offline. -/
inductive Fate (e : SessionEntry) (ends : Prop) :
    Option SessionEntry → Option SessionEntry → Prop
  | absent : Fate e ends none none
  | gone {e' : SessionEntry} (hends : ends) : Fate e ends (some e') none
  | stays {e' e'' : SessionEntry} (hends : ¬ ends) (hstays : e.Stays e'') :
      Fate e ends (some e') (some e'')

section fate

variable {ends : Prop} {o : Option SessionEntry} (hstays : ∀ e', o = some e' → e.Stays e')
include hstays

theorem Fate.same (hends : ∀ e', o = some e' → ¬ ends) : Fate e ends o o := by
  cases o with
  | none => exact .absent
  | some e' => exact .stays (hends e' rfl) (hstays e' rfl)

theorem Fate.map {f : SessionEntry → SessionEntry} (hf : ∀ e', e.Stays e' → e.Stays (f e'))
    (hends : ¬ ends) : Fate e ends o (o.map f) := by
  cases o with
  | none => exact .absent
  | some e' => exact .stays hends (hf e' (hstays e' rfl))

end fate

theorem call_fate {op : Instant × SessionOp} (h : sm.call op = some sm')
    (hoff : e.connected = false) (hstays : ∀ e', sm.get c = some e' → e.Stays e')
    (hquiet : ¬ Revives c op.2) : Fate e (Ends c e op) (sm.get c) (sm'.get c) := by
  obtain ⟨now, op⟩ := op
  have hremoved : ∀ {ends : Prop} (c' : String), (∀ e', sm.get c = some e' → (ends ↔ c' = c)) →
      Fate e ends (sm.get c) ((sm.remove c').2.get c) := by
    intro ends c' hends
    rw [get_remove]
    split_ifs with hc
    · cases hget : sm.get c with
      | none => exact .absent
      | some e' => exact .gone ((hends e' hget).2 hc.symm)
    · exact .same hstays (fun e' he' h => hc ((hends e' he').1 h).symm)
  cases op with
  | register c' clean tx will level peer expiry =>
    rw [← some.inj h, register_get, if_neg (fun hc => hquiet hc.symm)]
    exact .same hstays (fun _ _ => not_false)
  | markOffline c' epoch =>
    rw [← some.inj h, markOffline_get]
    -- the entry is offline already
    exact .map hstays (fun e' he' => by rwa [if_neg (by simp [he'.connected])]) not_false
  | markOnline c' epoch =>
    rw [← some.inj h, markOnline_get]
    exact .map hstays (fun e' he' => by rwa [if_neg (fun hc => hquiet hc.1.symm)]) not_false
  | remove c' => exact some.inj h ▸ hremoved c' (fun _ _ => Iff.rfl)
  | removeIfEpoch c' epoch =>
    rw [← some.inj h, removeIfEpoch]
    split_ifs with hown
    · refine hremoved c' (fun e' he' => and_iff_left_of_imp ?_)
      rintro rfl
      rw [← (hstays e' he').epoch]
      simpa [owns, he'] using hown
    · refine .same hstays (fun e' he' hends => hown ?_)
      simp [owns, hends.1, he', (hstays e' he').epoch, hends.2]
  | cleanupExpired =>
    rw [← some.inj h, get_cleanupExpired]
    cases hget : sm.get c with
    | none => exact .absent
    | some e' =>
      have hexp := isExpired_of_stays (hstays e' hget) hoff now
      rw [any_some, hexp]
      split_ifs with hends
      · exact .gone hends
      · exact .stays hends (hstays e' hget)
  | takeWill c' epoch | clearWill c' epoch =>
    rw [← some.inj h]
    show Fate _ _ _ ((sm.takeWill c' epoch).2.get c)
    rw [takeWill_get]
    refine .map hstays (fun e' he' => ?_) not_false
    split_ifs
    · exact ⟨he'.connected, he'.cleanSession, he'.sessionExpiry, he'.offlineAt, he'.epoch⟩
    · exact he'
  | deliverOrEnqueue c' msg =>
    obtain ⟨d, hd, rfl⟩ := map_eq_some_iff.1 h
    cases deliverOrEnqueue_delivers hd with
    | noSession | lost | sent => exact .same hstays (fun _ _ => not_false)
    | enqueued e1 q q' out hget1 =>
      show Fate _ _ _ ((sm.put c' _).get c)
      rw [get_put]
      split_ifs with hc
      · subst hc
        have he1 := hstays e1 hget1
        rw [hget1]
        exact .stays not_false ⟨he1.connected, he1.cleanSession, he1.sessionExpiry,
          he1.offlineAt, he1.epoch⟩
      · exact .same hstays (fun _ _ => not_false)
  | receivers channels =>
    rw [← some.inj h]
    exact .same hstays (fun _ _ => not_false)

/-- The entry of a client after calls that do not bring it back. -/
theorem run_fate {ops : List (Instant × SessionOp)} (hrun : Runs.run call sm ops = some sm')
    (hoff : e.connected = false) (hstays : ∀ e', sm.get c = some e' → e.Stays e')
    (hquiet : ∀ op ∈ ops, ¬ Revives c op.2) :
    Fate e (∃ op ∈ ops, Ends c e op) (sm.get c) (sm'.get c) := by
  induction ops generalizing sm with
  | nil =>
    rw [← some.inj hrun]
    refine .same hstays ?_
    rintro _ _ ⟨op, hop, -⟩
    exact absurd hop List.not_mem_nil
  | cons op ops ih =>
    rw [List.forall_mem_cons] at hquiet
    rw [List.exists_mem_cons_iff]
    obtain ⟨sm1, hcall, hrest⟩ := Runs.run_cons.1 hrun
    have hfate := call_fate hcall hoff hstays hquiet.1
    generalize sm.get c = o at hfate ⊢
    have hstays1 : ∀ e', sm1.get c = some e' → e.Stays e' := by
      intro e' he'
      rw [he'] at hfate
      cases hfate
      assumption
    have hrest := ih hrest hstays1 hquiet.2
    generalize sm1.get c = o1 at hfate hrest
    generalize sm'.get c = o' at hrest ⊢
    cases hfate with
    | absent =>
      cases hrest
      exact .absent
    | gone hends =>
      cases hrest
      exact .gone (.inl hends)
    | stays hends =>
      rw [or_iff_right hends]
      cases hrest with
      | gone hends' => exact .gone hends'
      | stays hends' hstays' => exact .stays hends' hstays'

/-- **What a client is told that comes back after its session has expired.** The entry is found
    offline, and calls that do not bring the client back follow. `register` answers as after a sweep
    exactly if the session is clean, or if a sweep after the end of the interval, or a removal of
    its own, is among these calls. -/
theorem answer_after_expiry_iff {args : RegisterArgs} {now : Instant}
    {ops : List (Instant × SessionOp)} (hget : sm.get args.clientId = some e)
    (hover : e.Overdue now) (hquiet : ∀ op ∈ ops, ¬ Revives args.clientId op.2)
    (hrun : Runs.run call sm ops = some sm') :
    (sm'.cleanupExpired now).2.answer now args = (false, []) ∧
      (sm'.answer now args = (false, []) ↔
        e.cleanSession = true ∨ ∃ op ∈ ops, Ends args.clientId e op) := by
  have hfate := run_fate hrun hover.offline (c := args.clientId) (fun e' he' => ?_) hquiet
  · generalize hget' : sm'.get args.clientId = o at hfate
    rw [hget] at hfate
    cases hfate with
    | gone hends =>
      refine ⟨answer_of_none now ?_, ⟨fun _ => .inr hends, fun _ => answer_of_none now hget'⟩⟩
      simp [get_cleanupExpired, hget']
    | @stays _ e' hends hstays =>
      have hexpired : e'.isExpired now = true :=
        (isExpired_of_stays hstays hover.offline now).trans hover.isExpired
      refine ⟨answer_of_none now ?_, ?_⟩
      · simp [get_cleanupExpired, hget', hexpired]
      · rw [answer_of_some now hget', hstays.cleanSession, or_iff_left hends]
  · obtain rfl : e = e' := some.inj (hget.symm.trans he')
    exact ⟨hover.offline, rfl, rfl, rfl, rfl⟩

/-- The client `a` connects with an expiry interval of a second. -/
def lateArgs : RegisterArgs :=
  { clientId := "a", cleanSession := false, tx := 1, will := none, protocolLevel := mqtt5Level
    peerAddr := BrokerState.dummyAddr, sessionExpiry := some 1 }

def keptMsg : OutboundPublish :=
  { topic := "t", payload := [], qos := .atLeastOnce, retain := false }

/-- It disconnects, and a message is kept for it. -/
def lateCalls : List (Instant × SessionOp) :=
  [(0, .register lateArgs.clientId lateArgs.cleanSession lateArgs.tx lateArgs.will
      lateArgs.protocolLevel lateArgs.peerAddr lateArgs.sessionExpiry),
    (0, .markOffline "a" 1), (0, .deliverOrEnqueue "a" keptMsg)]

/-- The table after these calls. -/
theorem exists_late : ∃ sm e,
    Runs.run call (new 10 (Duration.fromSecs 3600)) lateCalls = some sm ∧
    sm.get "a" = some e ∧ e.cleanSession = false ∧
    (∀ now ∈ [Duration.fromSecs 2, Duration.fromSecs 5], e.Overdue now) ∧
    sm.answer (Duration.fromSecs 5) lateArgs = (true, [keptMsg]) := by
  obtain ⟨sm, hrun, hsm⟩ := Runs.exists_run call (new 10 (fromSecs 3600)) lateCalls
    (fun sm => (sm.get "a").any (fun e => !e.connected && !e.cleanSession &&
        e.sessionExpiry = some 1 && e.offlineAt = some 0) &&
      sm.answer (fromSecs 5) lateArgs = (true, [keptMsg])) (by decide +kernel)
  simp only [Bool.and_eq_true, any_eq_true, Bool.not_eq_true', decide_eq_true_eq] at hsm
  obtain ⟨⟨e, hget, ⟨⟨hoff, hclean⟩, hexp⟩, hat⟩, hanswer⟩ := hsm
  refine ⟨sm, e, hrun, hget, hclean, fun now hnow => ⟨hoff, 1, 0, hexp, hat, ?_⟩, hanswer⟩
  revert now
  decide

/-- A sweep in between, and the session is not resumed. -/
theorem answer_after_expiry_iff_swept : ∃ sm e sm', sm.get "a" = some e ∧
    e.Overdue (Duration.fromSecs 5) ∧ e.cleanSession = false ∧
    Runs.run call sm [(Duration.fromSecs 2, .cleanupExpired)] = some sm' ∧
    sm'.answer (Duration.fromSecs 5) lateArgs = (false, []) := by
  obtain ⟨sm, e, -, hget, hclean, hover, -⟩ := exists_late
  have hover₅ := hover (fromSecs 5) (by decide)
  have hends : Ends "a" e (fromSecs 2, .cleanupExpired) :=
    (hover (fromSecs 2) (by decide)).isExpired
  have hquiet : ∀ op ∈ [(fromSecs 2, SessionOp.cleanupExpired)],
      ¬ Revives lateArgs.clientId op.2 := by
    intro op hop
    rw [List.mem_singleton.1 hop]
    exact not_false
  obtain ⟨-, hiff⟩ := answer_after_expiry_iff hget hover₅ hquiet rfl
  exact ⟨sm, e, _, hget, hover₅, hclean, rfl,
    hiff.2 (.inr ⟨_, List.mem_singleton.2 rfl, hends⟩)⟩

/-- **An expired session is resumed.** The message is handed over, and after a sweep it would not
    have been. -/
theorem expired_session_resumed : ∃ sm e,
    Runs.run call (new 10 (Duration.fromSecs 3600)) lateCalls = some sm ∧
    sm.get "a" = some e ∧ e.Overdue (Duration.fromSecs 5) ∧
    sm.answer (Duration.fromSecs 5) lateArgs = (true, [keptMsg]) ∧
    (sm.cleanupExpired (Duration.fromSecs 5)).2.answer (Duration.fromSecs 5) lateArgs =
      (false, []) := by
  obtain ⟨sm, e, hrun, hget, -, hover, hanswer⟩ := exists_late
  have hover := hover (fromSecs 5) (by decide)
  refine ⟨sm, e, hrun, hget, hover, hanswer, answer_of_none _ ?_⟩
  rw [get_cleanupExpired]
  exact if_pos (by rw [show sm.get lateArgs.clientId = some e from hget]; exact hover.isExpired)

end SessionManager

end LumenMQ
