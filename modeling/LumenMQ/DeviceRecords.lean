import LumenMQ.SnapshotRuns

set_option autoImplicit false

/-! # The records of the devices and their sessions

A session that the gateway has registered goes offline when the record of its device does: by a
DISCONNECT, or when the device has been silent for too long. The record lies under the address of
the device, the session under its name, and a CONNECT under another name from the same address
replaces the one and leaves the other alone. To say which sessions are the gateway's, the system is
run with a list of the epochs that the gateway has been given since the last start. -/

namespace LumenMQ

open Option SessionManager Gateway Sys

/-- Whether a client is connected with this epoch. -/
def SessionManager.online (sm : SessionManager) (c : String) (epoch : Nat) : Bool :=
  (sm.get c).any (fun e => e.connected && e.epoch == epoch)

namespace SessionManager

variable {sm sm' : SessionManager} {c : String} {k : Nat}

theorem online_iff : sm.online c k = true ↔
    ∃ e, sm.get c = some e ∧ e.connected = true ∧ e.epoch = k := by
  simp [online, any_eq_true]

theorem online_of_remove {c' : String} (h : (sm.remove c').2.online c k = true) :
    c ≠ c' ∧ sm.online c k = true := by
  unfold online at h ⊢
  rw [get_remove] at h
  by_cases hc : c = c'
  · rw [if_pos hc] at h
    simp at h
  · rw [if_neg hc] at h
    exact ⟨hc, h⟩

/-- A session that is online was not the one to be taken offline. -/
theorem online_of_markOffline {now : Instant} {c' : String} {k' : Nat}
    (h : (sm.markOffline now c' k').online c k = true) :
    sm.online c k = true ∧ ¬ (c = c' ∧ k = k') := by
  obtain ⟨e', he', hconn, hep⟩ := online_iff.1 h
  rw [markOffline_get] at he'
  obtain ⟨e, he, rfl⟩ := map_eq_some_iff.1 he'
  split_ifs at hconn hep with hcond
  refine ⟨online_iff.2 ⟨e, he, hconn, hep⟩, ?_⟩
  rintro ⟨rfl, rfl⟩
  exact hcond ⟨rfl, hep, hconn⟩

/-- A session is registered: it is online with a new epoch. -/
theorem online_register (now : Instant) (c' : String) (clean : Bool) (tx : Nat)
    (will : Option WillMessage) (level : UInt8) (peer : SocketAddr) (expiry : Option UInt32) :
    (sm.register now c' clean tx will level peer expiry).sessions.online c k =
      if c = c' then k == sm.epochCounter + 1 else sm.online c k := by
  unfold online
  rw [register_get]
  split_ifs
  · rw [any_some]
    show (true && (sm.epochCounter + 1 == k)) = _
    rw [Bool.true_and, Bool.beq_comm]
  · rfl

end SessionManager

/-! ## The gateway -/

namespace Gateway

variable {g g' : Gateway} {R : List Nat}

/-- Every session of these epochs that is connected has the record of its device. -/
def Backed (R : List Nat) (g : Gateway) : Prop :=
  ∀ c k, k ∈ R → g.broker.sessions.online c k = true →
    ∃ peer r, g.clients.get peer = some r ∧ r.clientId = c ∧ r.epoch = k

/-- The epochs have been drawn, and those of the records are among them. -/
structure Issued (R : List Nat) (g : Gateway) : Prop where
  drawn : ∀ k ∈ R, k ≤ g.broker.sessions.epochCounter
  records : ∀ peer r, g.clients.get peer = some r → r.epoch ∈ R

theorem Issued.registerClient (hg : g.Issued R) (peer : SocketAddr) (c : String) (clean : Bool)
    (keepAliveSecs : UInt16) :
    (g.registerClient peer c clean keepAliveSecs).Issued
      ((g.broker.sessions.epochCounter + 1) :: R) := by
  refine ⟨?_, ?_⟩
  · intro k hk
    rcases List.mem_cons.1 hk with rfl | hk
    · exact le_refl _
    · exact Nat.le_succ_of_le (hg.drawn k hk)
  · intro p r hr
    change FinMap.get (g.clients.insert peer _) p = some r at hr
    rw [FinMap.get_insert] at hr
    split_ifs at hr
    · rw [← some.inj hr]
      exact List.mem_cons_self
    · exact List.mem_cons_of_mem _ (hg.records p r hr)

/-- No session is brought online, and no record of one that is online is lost. -/
theorem Backed.mono (hg : g.Backed R)
    (honline : ∀ c k, k ∈ R → g'.broker.sessions.online c k = true →
      g.broker.sessions.online c k = true)
    (hrec : ∀ peer r, g.clients.get peer = some r →
      g'.broker.sessions.online r.clientId r.epoch = true →
      ∃ r', g'.clients.get peer = some r' ∧ r'.clientId = r.clientId ∧ r'.epoch = r.epoch) :
    g'.Backed R := by
  intro c k hk hon
  obtain ⟨peer, r, hr, rfl, rfl⟩ := hg c k hk (honline c k hk hon)
  obtain ⟨r', hr', hid, hep⟩ := hrec peer r hr hon
  exact ⟨peer, r', hr', hid, hep⟩

theorem putClient_record {peer peer1 : SocketAddr} {c c' r : SnClient}
    (hc : g.clients.get peer = some c) (hid : c'.clientId = c.clientId)
    (hep : c'.epoch = c.epoch) (hr : g.clients.get peer1 = some r) :
    ∃ r', (g.putClient peer c').clients.get peer1 = some r' ∧ r'.clientId = r.clientId ∧
      r'.epoch = r.epoch := by
  show ∃ r', FinMap.get (g.clients.insert peer c') peer1 = some r' ∧ _
  rw [FinMap.get_insert]
  by_cases hpeer : peer1 = peer
  · subst hpeer
    rw [if_pos rfl]
    obtain rfl : c = r := some.inj (hc.symm.trans hr)
    exact ⟨c', rfl, hid, hep⟩
  · rw [if_neg hpeer]
    exact ⟨r, hr, rfl, rfl⟩

/-- The session of a device that leaves is not online any more. -/
theorem online_cleanupSession {b : BrokerState} {c c' : String} {k k' : Nat} {clean : Bool}
    (h : (cleanupSession b c k clean).sessions.online c' k' = true) :
    b.sessions.online c' k' = true ∧ ¬ (c' = c ∧ k' = k) := by
  unfold cleanupSession at h
  by_cases hown : b.sessions.owns c k = true
  · rw [if_neg (by simp [hown])] at h
    dsimp only at h
    by_cases hclean : clean = true
    · rw [if_pos hclean] at h
      have hrem : (b.sessions.remove c).2.online c' k' = true := h
      obtain ⟨hne, hon⟩ := online_of_remove hrem
      exact ⟨hon, fun heq => hne heq.1⟩
    · rw [if_neg hclean] at h
      exact online_of_markOffline h
  · rw [if_pos (by simp [hown])] at h
    refine ⟨h, ?_⟩
    rintro ⟨rfl, rfl⟩
    obtain ⟨e, he, -, hep⟩ := online_iff.1 h
    exact hown (by simp [SessionManager.owns, he, hep])

/-- **A device that leaves takes its session offline**, and the other devices keep their records. -/
theorem dropClient_backed (hg : g.Backed R) (peer : SocketAddr) : (g.dropClient peer).Backed R := by
  unfold dropClient
  split
  · exact hg
  · next c hc =>
    refine hg.mono (fun c' k _ hon => (online_cleanupSession hon).1) ?_
    intro peer1 r hr hon
    have hne : peer1 ≠ peer := by
      rintro rfl
      obtain rfl : c = r := some.inj (hc.symm.trans hr)
      exact (online_cleanupSession hon).2 ⟨rfl, rfl⟩
    exact ⟨r, by rw [FinMap.get_erase, if_neg hne]; exact hr, rfl, rfl⟩

theorem sweep_backed (hg : g.Backed R) : g.sweep.Backed R :=
  sweep_invariant (fun _ peer hg => dropClient_backed hg peer) hg

theorem sleep_backed (hg : g.Backed R) (peer : SocketAddr) (duration : UInt16) :
    (g.sleep peer duration).Backed R := by
  unfold sleep
  split
  · exact hg
  · next c hc =>
    refine hg.mono ?_ (fun peer1 r hr _ => putClient_record hc rfl rfl hr)
    intro c' k _ hon
    change online (if g.broker.sessions.owns c.clientId c.epoch then
      g.broker.sessions.markOffline g.broker.now c.clientId c.epoch else g.broker.sessions) c' k =
        true at hon
    split_ifs at hon
    · exact (online_of_markOffline hon).1
    · exact hon

/-- **A device that connects** is backed by its new record. The session that the record before it
    was for keeps its record exactly if it is the same one or is not online. -/
theorem registerClient_backed_iff (peer : SocketAddr) (c : String) (clean : Bool)
    (keepAliveSecs : UInt16) (hg : g.Backed R) (hissued : g.Issued R)
    (hdrawn : ∀ c e, g.broker.sessions.get c = some e → e.epoch ≤ g.broker.sessions.epochCounter)
    (hapart : ∀ p p' r r', g.clients.get p = some r → g.clients.get p' = some r' →
      r.epoch = r'.epoch → p = p') :
    (g.registerClient peer c clean keepAliveSecs).Backed
        ((g.broker.sessions.epochCounter + 1) :: R) ↔
      ∀ r, g.clients.get peer = some r →
        r.clientId = c ∨ g.broker.sessions.online r.clientId r.epoch = false := by
  have honline : ∀ c' k,
      (g.registerClient peer c clean keepAliveSecs).broker.sessions.online c' k =
        if c' = c then k == g.broker.sessions.epochCounter + 1
        else g.broker.sessions.online c' k := by
    intro c' k
    exact online_register ..
  have hclients : ∀ p, (g.registerClient peer c clean keepAliveSecs).clients.get p =
      if p = peer then some { clientId := c, epoch := g.broker.sessions.epochCounter + 1, clean
                              keepAliveSecs, lastSeen := g.broker.now, peer }
      else g.clients.get p := by
    intro p
    exact FinMap.get_insert ..
  constructor
  · intro h r hr
    by_contra hlost
    rw [not_or, Bool.not_eq_false] at hlost
    obtain ⟨hid, hon⟩ := hlost
    -- the session of the record that is replaced is online, and no other record has its epoch
    obtain ⟨p, r', hr', -, hep⟩ := h r.clientId r.epoch
      (List.mem_cons_of_mem _ (hissued.records peer r hr)) (by rw [honline, if_neg hid]; exact hon)
    rw [hclients] at hr'
    split_ifs at hr' with hp
    · have hle := hissued.drawn r.epoch (hissued.records peer r hr)
      rw [← hep, ← some.inj hr'] at hle
      exact absurd hle (Nat.not_succ_le_self _)
    · exact hp (hapart p peer r' r hr' hr hep)
  · intro h c' k hk hon
    rw [honline] at hon
    split_ifs at hon with hid
    · refine ⟨peer, _, (hclients peer).trans (if_pos rfl), hid.symm, ?_⟩
      exact (beq_iff_eq.1 hon).symm
    · have hk' : k ∈ R := by
        rcases List.mem_cons.1 hk with rfl | hk
        · obtain ⟨e, he, -, hep⟩ := online_iff.1 hon
          exact absurd (hep ▸ hdrawn c' e he) (Nat.not_succ_le_self _)
        · exact hk
      obtain ⟨p, r, hr, rfl, rfl⟩ := hg c' k hk' hon
      refine ⟨p, r, ?_, rfl, rfl⟩
      rw [hclients, if_neg]
      · exact hr
      · rintro rfl
        rcases h r hr with hsame | hoff
        · exact hid hsame
        · rw [hoff] at hon
          simp at hon

end Gateway

/-! ## The system -/

namespace Sys

variable {S : Scope} {s s' : Sys} {R : List Nat}

/-- A session that is online was so before, or has a new epoch. -/
theorem Move.online (h : s.Move S s') {c : String} {k : Nat}
    (hon : s'.broker.sessions.online c k = true) :
    s.broker.sessions.online c k = true ∨ k = s.broker.sessions.epochCounter + 1 := by
  obtain ⟨e', he', hconn, rfl⟩ := online_iff.1 hon
  cases h.entry he' with
  | continues e he h =>
    exact .inl (online_iff.2 ⟨e, he, h.connected hconn, h.epoch.symm⟩)
  | opened _ _ _ _ _ hep | registered _ _ hep => exact .inr hep
  | restored sm h =>
    rw [h.connected] at hconn
    exact absurd hconn (by simp)

/-- A device that neither connects nor leaves keeps its record. -/
theorem Move.record (h : s.Move S s') (hdep : ¬ S.departs) (hregs : ∀ c, ¬ S.registers c)
    (hrst : ¬ S.restarts) {peer : SocketAddr} {r : SnClient}
    (hr : s.clients.get peer = some r) :
    ∃ r', s'.clients.get peer = some r' ∧ r'.clientId = r.clientId ∧ r'.epoch = r.epoch := by
  cases h with
  | gateway g hg =>
    cases hg with
    | books p c c' hc hsame => exact putClient_record hc hsame.clientId hsame.epoch hr
    | asleep _ _ _ _ hd | leave _ _ _ hd => exact absurd hd hdep
    | register _ c _ _ h => exact absurd h (hregs c)
    | broker | take | dropForwarder => exact ⟨r, hr, rfl, rfl⟩
  | restart _ _ h => exact absurd h hrst
  | task | openSession | close | tick => exact ⟨r, hr, rfl, rfl⟩

theorem Move.issued (h : s.Move S s') (hregs : ∀ c, ¬ S.registers c) (hrst : ¬ S.restarts)
    (hs : s.Issued R) : s'.Issued R := by
  refine ⟨fun k hk => (hs.drawn k hk).trans (h.change.epochCounter_le hrst), fun peer r hr => ?_⟩
  cases h.outline with
  | keeps h =>
    obtain ⟨d, hd, hsm⟩ := h.device peer r hr
    exact hsm.epoch ▸ hs.records peer d hd
  | draws c e peer0 h =>
    rcases h.device peer r hr with hd | ⟨hc, -⟩
    · exact hs.records peer r hd
    · exact absurd hc (hregs c)
  | restarted config h =>
    obtain ⟨b, -, rfl⟩ := restart_cases h
    simp at hr

theorem Move.backed (h : s.Move S s') (hdep : ¬ S.departs) (hregs : ∀ c, ¬ S.registers c)
    (hrst : ¬ S.restarts) (hissued : s.Issued R) (hs : s.Backed R) : s'.Backed R := by
  refine hs.mono ?_ (fun peer r hr _ => h.record hdep hregs hrst hr)
  intro c k hk hon
  rcases h.online hon with hold | rfl
  · exact hold
  · exact absurd (hissued.drawn _ hk) (Nat.not_succ_le_self _)

/-- A step in which no device connects. -/
theorem step_issued {e : Event} (hstep : s.step e = some s')
    (hregs : ∀ peer bytes, e = .datagram peer bytes → connects bytes = none)
    (hrst : ∀ config, e ≠ .restart config) (hs : s.Issued R) : s'.Issued R := by
  have hall : Allows { registers := fun _ => False, restarts := False } s e :=
    { allows_all s e with
      registers := fun peer bytes c he hc => by simp [hregs peer bytes he] at hc
      restarts := hrst }
  exact moves_invariant (I := fun s => s.Issued R)
    (fun _ _ hs hmove => hmove.issued (fun _ => not_false) not_false hs)
    (step_moves hall hstep) hs

/-- A step in which no device comes or goes. -/
theorem step_backed {e : Event} (hstep : s.step e = some s')
    (hregs : ∀ peer bytes, e = .datagram peer bytes → connects bytes = none)
    (hdep : ¬ s.Departs e) (hrst : ∀ config, e ≠ .restart config) (hissued : s.Issued R)
    (hs : s.Backed R) : s'.Backed R := by
  have hall : Allows { registers := fun _ => False, departs := False, restarts := False } s e :=
    { allows_all s e with
      registers := fun peer bytes c he hc => by simp [hregs peer bytes he] at hc
      departs := hdep
      restarts := hrst }
  exact (moves_invariant (I := fun s => s.Issued R ∧ s.Backed R)
    (fun _ _ hs hmove => ⟨hmove.issued (fun _ => not_false) not_false hs.1,
      hmove.backed not_false (fun _ => not_false) not_false hs.1 hs.2⟩)
    (step_moves hall hstep) ⟨hissued, hs⟩).2

end Sys

/-! ## Runs -/

/-- The system with the epochs of the sessions that the gateway has registered since the last
    start. -/
structure Enrolment extends Sys where
  enrolled : List Nat := []

namespace Enrolment

variable {w w' : Enrolment}

/-- The epochs of the gateway's sessions after an event. -/
def enrols (w : Enrolment) : Event → List Nat
  | .datagram _ bytes =>
    if (w.joinsDevice bytes).isSome then (w.broker.sessions.epochCounter + 1) :: w.enrolled
    else w.enrolled
  | .restart _ => []
  | _ => w.enrolled

def step (w : Enrolment) (e : Event) : Option Enrolment :=
  (w.toSys.step e).map (fun s => { s with enrolled := w.enrols e })

/-- **Every session that the gateway has registered and that is still connected has the record of
    its device**: under the name of the client, with the epoch of the session. -/
def Backed (w : Enrolment) : Prop := w.toGateway.Backed w.enrolled

/-- The steps that cost no session its record: a device that connects from an address with a record
    has the name of that record, or the session of the record is not connected. -/
def keepsRecords (w : Enrolment) : Event → Bool
  | .datagram peer bytes =>
    (w.joinsDevice bytes).all (fun (c, _) => (w.clients.get peer).all (fun r =>
      r.clientId == c || !w.broker.sessions.online r.clientId r.epoch))
  | _ => true

/-- What holds of every state of a run. -/
structure Sound (w : Enrolment) : Prop where
  reachable : w.toSys.Reachable
  issued : w.toGateway.Issued w.enrolled

theorem joinsDevice_of_connects_none {s : Sys} {bytes : Bytes}
    (hnone : connects bytes = none) : s.joinsDevice bytes = none := by
  unfold joinsDevice
  split
  · next hparse => simp [connects, hparse] at hnone
  · rfl

/-- What a CONNECT does, as far as records and sessions go. -/
theorem connect_cases {peer : SocketAddr} {bytes : Bytes} {c : String} {g : Gateway}
    (hconnects : connects bytes = some c) (hg : w.toGateway.datagram peer bytes = some g) :
    (w.joinsDevice bytes = none ∧ g.clients = w.clients ∧ g.broker.sessions = w.broker.sessions) ∨
      ∃ clean keepAliveSecs, w.joinsDevice bytes = some (c, clean) ∧
        g.clients = (w.toGateway.registerClient peer c clean keepAliveSecs).clients ∧
        g.broker.sessions =
          (w.toGateway.registerClient peer c clean keepAliveSecs).broker.sessions := by
  unfold connects at hconnects
  unfold datagram at hg
  unfold joinsDevice
  split at hconnects
  · next flags protocolId duration c' hparse =>
    obtain rfl : c' = c := some.inj hconnects
    simp only [hparse, handle, some.injEq] at hg ⊢
    subst hg
    unfold handleConnect
    cases w.toGateway.refusal protocolId c' with
    | some code => exact .inl ⟨by simp, rfl, rfl⟩
    | none => exact .inr ⟨_, if duration = 0 then 60 else duration, if_pos rfl, rfl, rfl⟩
  · simp at hconnects

theorem step_sound {e : Event} (hw : w.Sound) (hstep : w.step e = some w') : w'.Sound := by
  obtain ⟨s, hs, rfl⟩ := map_eq_some_iff.1 hstep
  refine ⟨hw.reachable.step hs, ?_⟩
  show s.Issued (w.enrols e)
  cases e with
  | datagram peer bytes =>
    cases hconnects : connects bytes with
    | none =>
      have henrols : w.enrols (.datagram peer bytes) = w.enrolled := by
        simp [enrols, joinsDevice_of_connects_none hconnects]
      rw [henrols]
      refine step_issued hs ?_ (by simp) hw.issued
      rintro peer bytes ⟨⟩
      exact hconnects
    | some c =>
      obtain ⟨g, hg, rfl⟩ := map_eq_some_iff.1 hs
      show g.Issued (w.enrols (.datagram peer bytes))
      rcases connect_cases hconnects hg with ⟨hjoin, hclients, hsess⟩ |
        ⟨clean, keepAliveSecs, hjoin, hclients, hsess⟩
      · have henrols : w.enrols (.datagram peer bytes) = w.enrolled := by simp [enrols, hjoin]
        rw [henrols]
        exact ⟨hsess ▸ hw.issued.drawn, hclients ▸ hw.issued.records⟩
      · have henrols : w.enrols (.datagram peer bytes) =
            (w.broker.sessions.epochCounter + 1) :: w.enrolled := by simp [enrols, hjoin]
        have hissued := hw.issued.registerClient peer c clean keepAliveSecs
        rw [henrols]
        exact ⟨hsess ▸ hissued.drawn, hclients ▸ hissued.records⟩
  | restart config =>
    obtain ⟨b, -, rfl⟩ := restart_cases hs
    exact ⟨fun k hk => absurd hk List.not_mem_nil, fun peer r hr => by simp at hr⟩
  | _ => exact step_issued hs (by simp) (by simp) hw.issued

/-- What a datagram does to the records. -/
theorem datagram_backed_iff {peer : SocketAddr} {bytes : Bytes} (hw : w.Sound)
    (hbacked : w.Backed) (hstep : w.step (.datagram peer bytes) = some w') :
    w'.Backed ↔ w.keepsRecords (.datagram peer bytes) = true := by
  obtain ⟨s, hs, rfl⟩ := map_eq_some_iff.1 hstep
  obtain ⟨g, hg, rfl⟩ := map_eq_some_iff.1 hs
  show g.Backed (w.enrols (.datagram peer bytes)) ↔ _
  cases hconnects : connects bytes with
  | none =>
    have hjoin := joinsDevice_of_connects_none (s := w.toSys) hconnects
    have henrols : w.enrols (.datagram peer bytes) = w.enrolled := by simp [enrols, hjoin]
    rw [henrols]
    refine iff_of_true ?_ (by simp [keepsRecords, hjoin])
    -- only a DISCONNECT takes a record away
    by_cases hdep : departure bytes = true
    · unfold departure at hdep
      split at hdep
      · next duration hparse =>
        simp only [datagram, hparse] at hg
        cases duration with
        | some duration => exact some.inj hg ▸ sleep_backed hbacked peer duration
        | none => exact some.inj hg ▸ dropClient_backed hbacked peer
      · simp at hdep
    · refine (step_backed hs ?_ hdep (by simp) hw.issued hbacked :)
      rintro peer bytes ⟨⟩
      exact hconnects
  | some c =>
    rcases connect_cases hconnects hg with ⟨hjoin, hclients, hsess⟩ |
      ⟨clean, keepAliveSecs, hjoin, hclients, hsess⟩
    · have henrols : w.enrols (.datagram peer bytes) = w.enrolled := by simp [enrols, hjoin]
      rw [henrols, Gateway.Backed, hclients, hsess]
      exact iff_of_true hbacked (by simp [keepsRecords, hjoin])
    · have henrols : w.enrols (.datagram peer bytes) =
          (w.broker.sessions.epochCounter + 1) :: w.enrolled := by simp [enrols, hjoin]
      have hiff := registerClient_backed_iff peer c clean keepAliveSecs hbacked hw.issued
        hw.reachable.entries.drawn hw.reachable.epochs.apart
      rw [henrols, Gateway.Backed, hclients, hsess]
      refine hiff.trans ?_
      simp [keepsRecords, hjoin, all_eq_true]

/-- **Which steps leave every session its record.** -/
theorem step_backed_iff {e : Event} (hw : w.Sound) (hbacked : w.Backed)
    (hstep : w.step e = some w') : w'.Backed ↔ w.keepsRecords e = true := by
  cases e with
  | datagram peer bytes => exact datagram_backed_iff hw hbacked hstep
  | sweepDevices =>
    rw [← some.inj hstep]
    exact iff_of_true (sweep_backed hbacked) rfl
  | restart config =>
    obtain ⟨s, hs, rfl⟩ := map_eq_some_iff.1 hstep
    exact iff_of_true (fun c k hk => absurd hk List.not_mem_nil) rfl
  | _ =>
    obtain ⟨s, hs, rfl⟩ := map_eq_some_iff.1 hstep
    exact iff_of_true (step_backed hs (by simp) id (by simp) hw.issued hbacked) rfl

/-- **Every session of the gateway that is connected has its record all along a run exactly if no
    CONNECT replaces the record of another one.** -/
theorem backed_always_iff {config : Settings} {now : Instant} {s₀ : Sys} {es : List Event}
    (h₀ : init config now = some s₀)
    (hrun : Runs.run step { s₀ with enrolled := [] } es = some w) :
    Runs.Always step Backed { s₀ with enrolled := [] } es ↔
      Runs.Meets step (fun w e => w.keepsRecords e = true) { s₀ with enrolled := [] } es := by
  refine Runs.run_always_iff (E := fun _ => True) (I := Sound)
    (fun _ _ _ _ hw hstep => step_sound hw hstep)
    (fun _ _ _ _ hw hbacked hstep => step_backed_iff hw hbacked hstep) (fun _ _ => trivial)
    ⟨⟨config, now, s₀, [], h₀, rfl⟩, ?_⟩ (fun c k hk => absurd hk List.not_mem_nil) hrun
  obtain ⟨b, -, rfl⟩ := map_eq_some_iff.1 h₀
  exact ⟨fun k hk => absurd hk List.not_mem_nil, fun peer r hr => by simp at hr⟩

/-- A device connects, sleeps, wakes up and stays. -/
def wakingRun : List Event :=
  [deviceOpens true, deviceSleeps, deviceOpens true, .sweepDevices]

theorem backed_always_iff_waking : ∃ s₀ w, init {} 0 = some s₀ ∧
    Runs.run step { s₀ with enrolled := [] } wakingRun = some w ∧ w.enrolled = [2, 1] ∧
    w.broker.sessions.online "d" 2 = true ∧
    Runs.Always step Backed { s₀ with enrolled := [] } wakingRun := by
  have h : (init {} 0).any (fun s₀ =>
      Runs.meets step keepsRecords { s₀ with enrolled := [] } wakingRun &&
        (Runs.run step { s₀ with enrolled := [] } wakingRun).any (fun w =>
          w.enrolled = [2, 1] && w.broker.sessions.online "d" 2)) = true := by decide +kernel
  obtain ⟨s₀, h₀, h⟩ := (any_eq_true _ _).1 h
  obtain ⟨hmeets, hrun⟩ := Bool.and_eq_true_iff.1 h
  obtain ⟨w, hrun, hw⟩ := (any_eq_true _ _).1 hrun
  simp only [Bool.and_eq_true, decide_eq_true_eq] at hw
  exact ⟨s₀, w, h₀, hrun, hw.1, hw.2, (backed_always_iff h₀ hrun).2
    (Runs.meets_of_check keepsRecords (fun _ _ h => h) hmeets)⟩

/-- The device connects under the name `e`. -/
def renames : Event :=
  .datagram deviceAddr [7, 0x04, flagClean, protocolIdMqttsn, 0, 60, 0x65]

/-- **A device that connects under another name leaves a session online for ever**: a DISCONNECT
    from its address does not end it, and no record is left that could expire. -/
theorem renamed_not_backed : ∃ s₀ w, init {} 0 = some s₀ ∧
    Runs.run step { s₀ with enrolled := [] }
      [deviceOpens true, renames, deviceDisconnects] = some w ∧
    1 ∈ w.enrolled ∧ w.broker.sessions.online "d" 1 = true ∧
    (∀ peer, w.clients.get peer = none) ∧ ¬ w.Backed := by
  have h : (init {} 0).any (fun s₀ => (Runs.run step { s₀ with enrolled := [] }
      [deviceOpens true, renames, deviceDisconnects]).any (fun w =>
        w.enrolled.contains 1 && w.broker.sessions.online "d" 1 && w.clients.entries.isEmpty)) =
          true := by decide +kernel
  obtain ⟨s₀, h₀, h⟩ := (any_eq_true _ _).1 h
  obtain ⟨w, hrun, hw⟩ := (any_eq_true _ _).1 h
  simp only [Bool.and_eq_true, List.contains_iff_mem, List.isEmpty_iff] at hw
  obtain ⟨⟨hmem, hon⟩, hempty⟩ := hw
  have hnone : ∀ peer, w.clients.get peer = none := FinMap.get_eq_none_of_entries_nil hempty
  refine ⟨s₀, w, h₀, hrun, hmem, hon, hnone, fun hbacked => ?_⟩
  obtain ⟨peer, r, hr, -⟩ := hbacked "d" 1 hmem hon
  rw [hnone] at hr
  simp at hr

end Enrolment

end LumenMQ
