import LumenMQ.Broker.SessionTable
import LumenMQ.Lifetimes

set_option autoImplicit false

/-! # Last wills

A will is published by the end of the connection that brought it, and by nothing else: the entry of
the session remembers whose it is. Once the connection has ended, has sent DISCONNECT or has been
superseded, its will is out of reach. -/

namespace LumenMQ

open Option List FinMap SessionManager BrokerState

variable {x : Exit}

/-! ## The end of a connection -/

namespace BrokerState

variable {b b' : BrokerState} {c : String} {k : Nat}

theorem cleanup_trace (b : BrokerState) (c : String) (k : Nat) (clean : Bool) :
    (b.cleanup c k clean).trace = b.trace := by
  unfold cleanup
  cases clean with
  | true =>
    simp only [if_true]
    split <;> rfl
  | false =>
    simp only [Bool.false_eq_true, if_false]
    split_ifs
    · rfl
    · split <;> rfl
    · obtain ⟨storage, hb⟩ := persistSessionSnapshot_eq
        { b with sessions := b.sessions.markOffline b.now c k } c
      rw [hb]

theorem afterExit_of_stale (hstale : b.sessions.owns c k = false) (clean : Bool) (x : Exit) :
    b.afterExit c k clean x = some b := by
  cases x with
  | closed => rfl
  | shutdown => exact congrArg some (cleanup_of_stale hstale clean)
  | disconnect =>
    unfold afterExit
    rw [clearWill_of_stale hstale]
    exact congrArg some (cleanup_of_stale hstale clean)
  | abnormal => exact onAbnormalDisconnect_of_stale hstale clean

/-- The publication that the end of a connection brings. -/
def lastWill (b : BrokerState) (c : String) (k : Nat) (x : Exit) : Option Routed :=
  if x = .abnormal then (b.pendingWill c k).map (b.willRouted c) else none

theorem pendingWill_eq_some {w : WillMessage} (h : b.pendingWill c k = some w) :
    ∃ e, b.sessions.get c = some e ∧ e.epoch = k ∧ e.will = some w := by
  unfold pendingWill takeWill at h
  split at h
  · next e hget =>
    split_ifs at h with hep
    exact ⟨e, hget, hep, h⟩
  · simp at h

/-- **The end of a connection publishes its will, once, and nothing else.** -/
theorem afterExit_publications {clean : Bool} (h : b.afterExit c k clean x = some b') :
    b'.trace.filterMap Effect.publication =
      (b.lastWill c k x).toList ++ b.trace.filterMap Effect.publication := by
  cases x with
  | closed =>
    rw [← some.inj h]
    rfl
  | shutdown =>
    rw [← some.inj h, cleanup_trace]
    rfl
  | disconnect =>
    rw [← some.inj h, cleanup_trace]
    rfl
  | abnormal =>
    obtain ⟨b1, hfire, rfl⟩ := map_eq_some_iff.1 h
    rw [cleanup_trace]
    unfold lastWill
    rw [if_pos rfl]
    cases hown : b.sessions.owns c k with
    | false =>
      rw [fireWill_of_stale hown] at hfire
      rw [← some.inj hfire, pendingWill, takeWill_of_stale hown]
      rfl
    | true =>
      unfold fireWill at hfire
      rw [if_pos hown] at hfire
      unfold pendingWill
      rcases hw : b.sessions.takeWill c k with ⟨_ | w, sessions⟩
      · simp only [hw, some.injEq] at hfire
        rw [← hfire]
        rfl
      · simp only [hw] at hfire
        have hext := route_extends hfire
        rw [hext.filterMap_eq]
        · rfl
        · intro x hx
          cases hx <;> rfl

end BrokerState

/-- Whether the event is the end of a connection. -/
def Event.finishes (k : Nat) : Event → Bool
  | .finish k' => k' = k
  | _ => false

theorem Event.finishes_iff {k : Nat} {e : Event} : e.finishes k = true ↔ e = .finish k := by
  cases e with
  | finish k' => simp [finishes]
  | _ => simp [finishes]

namespace Sys

variable {s s' : Sys} {k : Nat}
variable {e : Event} {c : Conn} {connect : Connect} {es : List Event}

/-! ## Steps -/

/-- The wills that a step publishes. -/
def wills (s s' : Sys) : List Routed :=
  ((added s s').filterMap Effect.publication).filter (fun r => r.ingress = .will)

theorem publications_added (h : s.step e = some s') : s'.broker.trace.filterMap Effect.publication =
      (added s s').filterMap Effect.publication ++ s.broker.trace.filterMap Effect.publication := by
  rw [added_append h, filterMap_append]

/-- Only the end of a connection publishes a will. -/
theorem wills_of_ne_finish (h : s.step e = some s') (he : ∀ k, e ≠ .finish k) :
    wills s s' = [] := by
  have hingress : ∀ r, s.publication e = some r → r.ingress ≠ .will := by
    intro r hpub
    cases publication_published hpub with
    | packet k a c p ha hc hnext hr => simp [hr, Task.inboundPublish]
    | will k => exact absurd rfl (he k)
    | device peer bytes hr => simp [Gateway.publication_ingress hr]
    | admin req qos hqos hr => simp [hr, manualRouted]
  have hall : Allows { routes := fun r => r.ingress ≠ .will } s e :=
    { allows_all s e with routes := fun r hr _ => hingress r hr }
  have hroutes := forall_added h (moves_routes (step_moves hall h))
  unfold wills
  rw [filter_eq_nil_iff]
  intro r hr
  obtain ⟨x, hx, hpub⟩ := mem_filterMap.1 hr
  simpa using hroutes x hx r hpub

/-- The end of a connection publishes the will that is left, if it ends abnormally. -/
theorem wills_of_finish (hc : s.conns.get k = some c) (hx : c.exit = some x)
    (h : s.step (.finish k) = some s') :
    (added s s').filterMap Effect.publication = (s.broker.lastWill c.clientId k x).toList := by
  obtain ⟨c1, hc1, hfin⟩ := bind_eq_some_iff.1 h
  obtain rfl : c1 = c := some.inj (hc1.symm.trans hc)
  obtain ⟨x1, hx1, hfin⟩ := bind_eq_some_iff.1 hfin
  obtain rfl : x1 = x := some.inj (hx1.symm.trans hx)
  obtain ⟨b, hb, hs'⟩ := bind_eq_some_iff.1 hfin
  have hpubs := afterExit_publications hb
  have hadded := publications_added h
  rw [← some.inj hs'] at hadded ⊢
  exact append_cancel_right (hadded.symm.trans hpubs)

theorem lastWill_eq_some {r : Routed} (h : s.broker.lastWill c.clientId k x = some r) :
    x = .abnormal ∧ ∃ e w, s.broker.sessions.get c.clientId = some e ∧ e.epoch = k ∧
      e.will = some w ∧ r = s.broker.willRouted c.clientId w := by
  unfold lastWill at h
  split_ifs at h with hx
  obtain ⟨w, hw, rfl⟩ := map_eq_some_iff.1 h
  obtain ⟨e, hget, hep, hwill⟩ := pendingWill_eq_some hw
  exact ⟨hx, e, w, hget, hep, hwill, rfl⟩

/-- A will is published by the end of a connection, abnormal and with the session still its own. -/
structure Fires (s : Sys) (k : Nat) (clientId : String) (w : WillMessage) (r : Routed) : Prop where
  abnormal : ∃ c, s.conns.get k = some c ∧ c.clientId = clientId ∧ c.exit = some .abnormal
  owns : s.broker.sessions.owns clientId k = true
  will : ∃ e, s.broker.sessions.get clientId = some e ∧ e.will = some w
  routed : r = s.broker.willRouted clientId w

/-- The end of a connection, by the way that it has left its loop. -/
theorem step_finish (h : s.step (.finish k) = some s') :
    ∃ c x, s.conns.get k = some c ∧ c.exit = some x ∧ s'.conns.get k = none := by
  obtain ⟨c, x, b, hc, hx, -, hs'⟩ := finish_cases h
  refine ⟨c, x, hc, hx, ?_⟩
  rw [← hs']
  show get (s.conns.erase k) k = none
  rw [get_erase, if_pos rfl]

theorem fires_of_finish {r : Routed} (hc : s.conns.get k = some c)
    (h : s.step (.finish k) = some s') (hr : r ∈ wills s s') : ∃ w, s.Fires k c.clientId w r := by
  obtain ⟨c1, x, hc1, hx, -⟩ := step_finish h
  obtain rfl : c1 = c := some.inj (hc1.symm.trans hc)
  unfold wills at hr
  rw [wills_of_finish hc hx h] at hr
  have hlast : s.broker.lastWill c1.clientId k x = some r := by
    simpa using (mem_filter.1 hr).1
  obtain ⟨rfl, e, w, he, hep, hw, hrouted⟩ := lastWill_eq_some hlast
  exact ⟨w, ⟨c1, hc, rfl, hx⟩, by simp [owns, he, hep], ⟨e, he, hw⟩, hrouted⟩

theorem length_wills_le (h : s.step (.finish k) = some s') : (wills s s').length ≤ 1 := by
  obtain ⟨c, x, hc, hx, -⟩ := step_finish h
  unfold wills
  rw [wills_of_finish hc hx h]
  refine (length_filter_le ..).trans ?_
  cases s.broker.lastWill c.clientId k x <;> simp

/-- The end of a superseded connection does nothing to the sessions. -/
theorem finish_of_stale (hc : s.conns.get k = some c)
    (hstale : s.broker.sessions.owns c.clientId k = false) (h : s.step (.finish k) = some s') :
    wills s s' = [] ∧ ∀ c', s'.broker.sessions.get c' = s.broker.sessions.get c' := by
  refine ⟨eq_nil_iff_forall_not_mem.2 ?_, ?_⟩
  · intro r hr
    obtain ⟨w, hfires⟩ := fires_of_finish hc h hr
    simp [hfires.owns] at hstale
  · obtain ⟨c1, hc1, h⟩ := bind_eq_some_iff.1 h
    obtain rfl : c1 = c := some.inj (hc1.symm.trans hc)
    obtain ⟨x, hx, h⟩ := bind_eq_some_iff.1 h
    obtain ⟨b, hb, hs'⟩ := bind_eq_some_iff.1 h
    rw [afterExit_of_stale hstale, some.injEq] at hb
    rw [← some.inj hs', ← hb]
    intro c'
    rfl

/-! ## The will of a connection -/

/-- The connection with the epoch is that of the CONNECT, and so is the will that is kept for it. -/
structure Brought (k : Nat) (connect : Connect) (s : Sys) : Prop where
  conn : ∀ c, s.conns.get k = some c → c.clientId = connect.clientId
  will : ∀ c e w, s.broker.sessions.get c = some e → e.epoch = k → e.will = some w →
    connect.will.map WillMessage.ofLastWill = some w

/-- A move leaves the will of a connection alone or takes it away, as long as no other connection
    gets its epoch. -/
theorem Move.brought {S : Scope} (h : s.Move S s')
    (hop : ∀ c, S.opens c → k = s.broker.sessions.epochCounter + 1 → c = connect)
    (hs : s.Brought k connect) : s'.Brought k connect := by
  refine ⟨?_, ?_⟩
  · intro c' hc'
    cases h with
    | gateway | tick => exact hs.conn c' hc'
    | task k' c t hc ht =>
      change get (s.conns.insert t.epoch t.conn) k = some c' at hc'
      rw [get_insert, ht.epoch_eq] at hc'
      split_ifs at hc' with heq
      · rw [← some.inj hc', ht.clientId_eq]
        exact hs.conn c (heq ▸ hc)
      · exact hs.conn c' hc'
    | openSession connect' peer buffer credit hopen =>
      change get (s.conns.insert (s.broker.sessions.epochCounter + 1) _) k = some c' at hc'
      rw [get_insert] at hc'
      split_ifs at hc' with heq
      · rw [← hop connect' hopen heq, ← some.inj hc']
        rfl
      · exact hs.conn c' hc'
    | close k' c hc hexit =>
      exact hs.conn c' (get_of_erase hc')
    | restart config s' hrst h =>
      obtain ⟨b, -, rfl⟩ := restart_cases h
      simp at hc'
  · intro c e' w he' hep hw
    cases h.entry he' with
    | continues e hget hcont => exact hs.will c e w hget (hcont.epoch ▸ hep) (hcont.will w hw)
    | opened connect' hopen hc hclean hwill hnew =>
      rw [← hop connect' hopen (hep ▸ hnew), ← hwill, hw]
    | registered hreg hwill => simp [hw] at hwill
    | restored sm hrestored => simp [hrestored.will] at hw

theorem step_brought (hstep : s.step e = some s') (hrst : ∀ config, e ≠ .restart config)
    (hk : k ≤ s.broker.sessions.epochCounter) (hs : s.Brought k connect) :
    s'.Brought k connect := by
  let S : Scope := { restarts := False }
  have hall : Allows S s e :=
    { allows_all s e with restarts := fun config h => hrst config h }
  refine (moves_invariant
    (I := fun s => k ≤ s.broker.sessions.epochCounter ∧ s.Brought k connect) ?_
    (step_moves hall hstep) ⟨hk, hs⟩).2
  rintro s s' ⟨hk, hs⟩ hmove
  have hne : k ≠ s.broker.sessions.epochCounter + 1 := Nat.ne_of_lt (Nat.lt_succ_of_le hk)
  exact ⟨hk.trans (hmove.change.epochCounter_le id),
    hmove.brought (fun _ _ h => absurd h hne) hs⟩

/-- What is kept for a new connection is what its CONNECT has brought. -/
theorem opened_brought (heps : s.Epochs) (hentries : s.Entries)
    (hconn : s.connection e = some connect) (hstep : s.step e = some s') :
    s'.Brought (s.broker.sessions.epochCounter + 1) connect := by
  let S : Scope := { opens := fun c => c = connect }
  have hall : Allows S s e := { allows_all s e with
    opens := fun c hc => some.inj (hc.symm.trans hconn) }
  refine moves_invariant (fun s1 s2 hs hmove => hmove.brought (fun c hc _ => hc) hs)
    (step_moves hall hstep) ⟨?_, ?_⟩
  -- nothing has the epoch yet
  · intro c hc
    exact absurd (heps.conns _ c hc) (Nat.not_succ_le_self _)
  · intro c e w he hep
    exact absurd (hep ▸ hentries.drawn c e he) (Nat.not_succ_le_self _)

/-! ## Runs -/

/-- The wills that the end of a connection publishes along a run, each with the state before it. -/
def firings (k : Nat) (s : Sys) : List Event → List (Sys × Routed)
  | [] => []
  | e :: es =>
    match s.step e with
    | some s' =>
      (if e.finishes k then (wills s s').map (fun r => (s, r)) else []) ++ firings k s' es
    | none => []

/-- The connection publishes no will any more: it is gone, or has left its loop in an orderly
    way. -/
def Silent (k : Nat) (s : Sys) : Prop :=
  k ≤ s.broker.sessions.epochCounter ∧
    ∀ c, s.conns.get k = some c → ∃ x, c.exit = some x ∧ x ≠ .abnormal

theorem silent_of_gone (hk : k ≤ s.broker.sessions.epochCounter) (hc : s.conns.get k = none) :
    s.Silent k :=
  ⟨hk, fun c h => by simp [hc] at h⟩

theorem step_silent (heps : s.Epochs) (hs : s.Silent k) (hstep : s.step e = some s')
    (hrst : ∀ config, e ≠ .restart config) : s'.Silent k := by
  have hk := hs.1.trans (step_epochCounter_le hstep hrst)
  cases hc : s.conns.get k with
  | none => exact silent_of_gone hk (step_gone hs.1 hc hstep)
  | some c =>
    obtain ⟨x, hx, hne⟩ := hs.2 c hc
    refine ⟨hk, fun c' hc' => ⟨x, ?_, hne⟩⟩
    rw [(step_sameMessages heps hc hc' hstep ?_).exit, hx]
    rintro a rfl
    obtain ⟨c1, r, t, hc1, hexit, -⟩ := step_arm hstep
    obtain rfl : c1 = c := some.inj (hc1.symm.trans hc)
    simp [hx] at hexit

theorem wills_of_silent (hs : s.Silent k) (hstep : s.step (.finish k) = some s') :
    wills s s' = [] := by
  obtain ⟨c, x, hc, hx, -⟩ := step_finish hstep
  obtain ⟨x', hx', hne⟩ := hs.2 c hc
  obtain rfl : x = x' := some.inj (hx.symm.trans hx')
  unfold wills
  rw [wills_of_finish hc hx hstep, lastWill, if_neg hne]
  rfl

theorem firings_of_silent (heps : s.Epochs) (hs : s.Silent k)
    (hes : ∀ e ∈ es, ∀ config, e ≠ .restart config) : firings k s es = [] := by
  induction es generalizing s with
  | nil => rfl
  | cons e es ih =>
    rw [forall_mem_cons] at hes
    rw [firings]
    cases hstep : s.step e with
    | none => rfl
    | some s' =>
      have hrest := ih (step_epochs hstep heps) (step_silent heps hs hstep hes.1) hes.2
      show _ ++ firings k s' es = []
      rw [hrest, append_nil]
      split_ifs with hfin
      · obtain rfl := Event.finishes_iff.1 hfin
        rw [wills_of_silent hs hstep, map_nil]
      · rfl

/-- A connection that has left its loop takes no packet. -/
theorem packetsTaken_of_silent (heps : s.Epochs) (hs : s.Silent k)
    (hes : ∀ e ∈ es, ∀ config, e ≠ .restart config) : packetsTaken k s es = [] := by
  induction es generalizing s with
  | nil => rfl
  | cons e es ih =>
    rw [forall_mem_cons] at hes
    rw [packetsTaken]
    cases hstep : s.step e with
    | none => rfl
    | some s' =>
      show _ ++ packetsTaken k s' es = []
      rw [ih (step_epochs hstep heps) (step_silent heps hs hstep hes.1) hes.2,
        packetTaken_of_ne, toList_none, append_nil]
      rintro a rfl
      obtain ⟨c, r, t, hc, hexit, -⟩ := step_arm hstep
      obtain ⟨x, hx, -⟩ := hs.2 c hc
      simp [hx] at hexit

/-- The wills of a run, step by step: after the end of the connection there is none. -/
theorem firings_cons (heps : s.Epochs) (hk : k ≤ s.broker.sessions.epochCounter)
    (hstep : s.step e = some s') (hes : ∀ e' ∈ e :: es, ∀ config, e' ≠ .restart config) :
    e = .finish k ∧ s'.Silent k ∧ firings k s (e :: es) = (wills s s').map (fun r => (s, r)) ∨
      e ≠ .finish k ∧ firings k s (e :: es) = firings k s' es := by
  rw [forall_mem_cons] at hes
  rw [firings, hstep]
  show _ ∧ _ ∧ _ ++ firings k s' es = _ ∨ _ ∧ _ ++ firings k s' es = _
  by_cases he : e = .finish k
  · subst he
    obtain ⟨c, x, -, -, hgone⟩ := step_finish hstep
    have hsilent := silent_of_gone (hk.trans (step_epochCounter_le hstep hes.1)) hgone
    rw [if_pos (Event.finishes_iff.2 rfl),
      firings_of_silent (step_epochs hstep heps) hsilent hes.2, append_nil]
    exact .inl ⟨rfl, hsilent, rfl⟩
  · rw [if_neg (fun h => he (Event.finishes_iff.1 h)), nil_append]
    exact .inr ⟨he, rfl⟩

/-- What a run publishes on behalf of a connection: its own will, at most once, at its end. -/
theorem firings_spec (heps : s.Epochs) (hk : k ≤ s.broker.sessions.epochCounter)
    (hs : s.Brought k connect) (hes : ∀ e ∈ es, ∀ config, e ≠ .restart config) :
    (firings k s es).length ≤ 1 ∧
      ∀ s' r, (s', r) ∈ firings k s es → ∃ w, s'.Fires k connect.clientId w r ∧
        connect.will.map WillMessage.ofLastWill = some w := by
  induction es generalizing s with
  | nil => simp [firings]
  | cons e es ih =>
    cases hstep : s.step e with
    | none => simp [firings, hstep]
    | some s' =>
      rcases firings_cons heps hk hstep hes with ⟨rfl, -, hfirings⟩ | ⟨-, hfirings⟩
      · rw [hfirings]
        refine ⟨by rw [length_map]; exact length_wills_le hstep, ?_⟩
        intro s1 r hr
        obtain ⟨r, hr, heq⟩ := mem_map.1 hr
        cases heq
        obtain ⟨c, x, hc, -, -⟩ := step_finish hstep
        obtain ⟨w, hfire⟩ := fires_of_finish hc hstep hr
        obtain ⟨e, he, hw⟩ := hfire.will
        have hep : e.epoch = k := by
          have hown := hfire.owns
          simpa [owns, he] using hown
        rw [hs.conn c hc] at hfire
        exact ⟨w, hfire, hs.will _ e w he hep hw⟩
      · rw [hfirings]
        rw [forall_mem_cons] at hes
        exact ih (step_epochs hstep heps) (hk.trans (step_epochCounter_le hstep hes.1))
          (step_brought hstep hes.1 hk hs) hes.2

/-- A connection that takes a DISCONNECT leaves its loop in an orderly way. -/
theorem silent_of_disconnect (hstep : s.step e = some s') (hk : k ≤ s'.broker.sessions.epochCounter)
    (htaken : s.packetTaken k e = some .disconnect) : e ≠ .finish k ∧ s'.Silent k := by
  by_cases harm : ∃ a, e = .arm k a
  · obtain ⟨a, rfl⟩ := harm
    obtain ⟨c, r, t, hc, -, hrun, hep, rfl⟩ := step_arm hstep
    simp only [packetTaken, hc, bind_some, if_true] at htaken
    rw [Task.arm_eq htaken] at hrun
    refine ⟨by simp, hk, fun c' hc' => ⟨.disconnect, ?_, by simp⟩⟩
    rw [ofTask, hep, get_insert_self, some.injEq] at hc'
    rw [← hc']
    cases hrun
    rfl
  · rw [packetTaken_of_ne (fun a h => harm ⟨a, h⟩)] at htaken
    simp at htaken

/-- After a DISCONNECT no will is published, and none was before. -/
theorem firings_of_disconnect (heps : s.Epochs) (hk : k ≤ s.broker.sessions.epochCounter)
    (hes : ∀ e ∈ es, ∀ config, e ≠ .restart config) (htaken : .disconnect ∈ packetsTaken k s es) :
    firings k s es = [] := by
  induction es generalizing s with
  | nil => rfl
  | cons e es ih =>
    cases hstep : s.step e with
    | none => simp [firings, hstep]
    | some s' =>
      have hes' := forall_mem_cons.1 hes
      have hk' := hk.trans (step_epochCounter_le hstep hes'.1)
      have heps' := step_epochs hstep heps
      rw [packetsTaken, hstep] at htaken
      rcases mem_append.1 htaken with hfirst | hrest
      · obtain ⟨hne, hsilent⟩ := silent_of_disconnect hstep hk' (mem_toList.1 hfirst)
        rcases firings_cons heps hk hstep hes with ⟨he, -⟩ | ⟨-, hfire⟩
        · exact absurd he hne
        · rw [hfire, firings_of_silent heps' hsilent hes'.2]
      · rcases firings_cons heps hk hstep hes with ⟨-, hsilent, -⟩ | ⟨-, hfire⟩
        · rw [packetsTaken_of_silent heps' hsilent hes'.2] at hrest
          simp at hrest
        · rw [hfire, ih heps' hk' hes'.2 hrest]

/-- **A will fires at most once, and only for the abnormal end of its own connection.** From the
    CONNECT that brings it on, whatever else the broker does until it is stopped: the end of the
    connection publishes at most one will, the one of that CONNECT, and only if it ends abnormally
    while the session is still its own; it publishes none if it has taken a DISCONNECT. In no state
    does anything else publish a will; the end of a superseded connection leaves all sessions alone;
    and no will outlives the process. -/
theorem will_fires_once {s₀ s₁ : Sys} {e₀ : Event} {connect : Connect} (hs : Reachable s₀)
    (hconnect : s₀.connection e₀ = some connect) (hopen : s₀.step e₀ = some s₁)
    (hk : k = s₀.broker.sessions.epochCounter + 1) (es : List Event)
    (hes : ∀ e ∈ es, ∀ config, e ≠ .restart config) :
    (firings k s₁ es).length ≤ 1 ∧
    (∀ s' r, (s', r) ∈ firings k s₁ es → ∃ w, s'.Fires k connect.clientId w r ∧
      connect.will.map WillMessage.ofLastWill = some w) ∧
    (.disconnect ∈ packetsTaken k s₁ es → firings k s₁ es = []) ∧
    (∀ (s s' : Sys) e, s.step e = some s' → ∀ r ∈ wills s s', ∃ k' clientId w, e = .finish k' ∧
      s.Fires k' clientId w r) ∧
    (∀ (s s' : Sys) k' c, s.conns.get k' = some c → s.broker.sessions.owns c.clientId k' = false →
      s.step (.finish k') = some s' →
        wills s s' = [] ∧ ∀ c', s'.broker.sessions.get c' = s.broker.sessions.get c') ∧
    (∀ (s s' : Sys) config, s.step (.restart config) = some s' → ∀ c e,
      s'.broker.sessions.get c = some e → e.will = none) := by
  subst hk
  have hepochs₁ := (hs.step hopen).epochs
  obtain ⟨-, c₁, hconns⟩ := opened_of_connection hconnect hopen
  have hk := hepochs₁.conns (s₀.broker.sessions.epochCounter + 1) c₁
    (by rw [hconns, get_insert_self])
  have hbrought := opened_brought hs.epochs hs.entries hconnect hopen
  obtain ⟨honce, hfires⟩ := firings_spec hepochs₁ hk hbrought hes
  refine ⟨honce, hfires, firings_of_disconnect hepochs₁ hk hes, ?_, ?_, ?_⟩
  · intro s s' e hstep r hr
    by_cases hfinish : ∃ k', e = .finish k'
    · obtain ⟨k', rfl⟩ := hfinish
      obtain ⟨c, x, hc, -, -⟩ := step_finish hstep
      obtain ⟨w, hw⟩ := fires_of_finish hc hstep hr
      exact ⟨k', c.clientId, w, rfl, hw⟩
    · rw [wills_of_ne_finish hstep (fun k' h => hfinish ⟨k', h⟩)] at hr
      simp at hr
  · intro s s' k' c hc hstale hstep
    exact finish_of_stale hc hstale hstep
  · intro s s' config hstep c e he
    obtain ⟨b, hb, rfl⟩ := restart_cases hstep
    exact (new_restored hb he).will

/-- The CONNECT of a client with a last will. -/
def willConnect : Connect where
  protocolLevel := mqtt311Level
  keepAlive := 60
  clientId := "a"
  cleanSession := true
  will := some { topic := "t", message := [], qos := .atMostOnce, retain := false }
  username := none
  password := none
  properties := none

/-- The connection breaks off. -/
def abnormalRun : List Event := [.arm 1 .streamEnd, .finish 1]

theorem will_fires_once_abnormal : ∃ s₀ s₁ s' e₀ r w, Reachable s₀ ∧
    s₀.connection e₀ = some willConnect ∧ s₀.step e₀ = some s₁ ∧
    (s', r) ∈ firings 1 s₁ abnormalRun ∧ s'.Fires 1 "a" w r ∧
    willConnect.will.map WillMessage.ofLastWill = some w := by
  obtain ⟨s₀, s₁, hreach, hopen, hp⟩ := exists_step {} 0 []
    (.connect dummyAddr (Packet.connect willConnect).frame "" none [])
    (fun s₀ s₁ => s₀.connection
        (.connect dummyAddr (Packet.connect willConnect).frame "" none []) = willConnect &&
      s₀.broker.sessions.epochCounter = 0 && (firings 1 s₁ abnormalRun).length = 1)
    (by decide +kernel)
  simp only [Bool.and_eq_true, decide_eq_true_eq] at hp
  obtain ⟨⟨hconnect, hcounter⟩, hlength⟩ := hp
  obtain ⟨-, hfires, -⟩ := will_fires_once (k := 1) hreach hconnect hopen (by rw [hcounter])
    abnormalRun (by simp [abnormalRun])
  obtain ⟨⟨s', r⟩, heq⟩ := length_eq_one_iff.1 hlength
  have hmem : (s', r) ∈ firings 1 s₁ abnormalRun := heq ▸ mem_singleton_self _
  obtain ⟨w, hw, hwill⟩ := hfires s' r hmem
  exact ⟨s₀, s₁, s', _, r, w, hreach, hconnect, hopen, hmem, hw, hwill⟩

end Sys

end LumenMQ
