import LumenMQ.SystemMoves

set_option autoImplicit false

/-! # Epochs

Every session that is opened draws a new epoch, and whatever carries an epoch has it from there: the
tasks of the connections and the records of the devices. Two of them never share one. -/

namespace LumenMQ

open Option FinMap SessionManager BrokerState

namespace Sys

variable {s s' : Sys} {S : Scope}

/-! ## What a move does to the tables -/

/-- Two records of the same session of a device. -/
structure SameSession (c c' : SnClient) : Prop where
  clientId : c'.clientId = c.clientId
  epoch : c'.epoch = c.epoch
  clean : c'.clean = c.clean

theorem SameSession.refl (c : SnClient) : SameSession c c := ⟨rfl, rfl, rfl⟩

/-- No epoch is drawn: the entries, the connections and the devices continue those before. -/
structure Keeps (s s' : Sys) : Prop where
  counter : s'.broker.sessions.epochCounter = s.broker.sessions.epochCounter
  entry : ∀ c e', s'.broker.sessions.get c = some e' →
    ∃ e, s.broker.sessions.get c = some e ∧ Continues e e'
  conn : ∀ k conn', s'.conns.get k = some conn' →
    ∃ conn, s.conns.get k = some conn ∧ conn'.clientId = conn.clientId
  device : ∀ peer d', s'.clients.get peer = some d' →
    ∃ d, s.clients.get peer = some d ∧ SameSession d d'
  forwarder : ∀ k f, s'.forwarders.get k = some f → s.forwarders.get k = some f

theorem Keeps.refl (s : Sys) : Keeps s s :=
  ⟨rfl, fun _ e he => ⟨e, he, .refl e⟩, fun _ conn hk => ⟨conn, hk, rfl⟩,
    fun _ d hd => ⟨d, hd, .refl d⟩, fun _ _ => id⟩

/-- The next epoch is drawn for a client, for its entry and its connection, or its entry, its record
    at the gateway and its forwarder. -/
structure Draws (S : Scope) (s s' : Sys) (c : String) (e : SessionEntry) (peer : SocketAddr) :
    Prop where
  counter : s'.broker.sessions.epochCounter = s.broker.sessions.epochCounter + 1
  epoch : e.epoch = s.broker.sessions.epochCounter + 1
  tx : e.tx = e.epoch
  get : ∀ c', s'.broker.sessions.get c' = if c' = c then some e else s.broker.sessions.get c'
  conn : ∀ k conn, s'.conns.get k = some conn → s.conns.get k = some conn ∨
    k = s.broker.sessions.epochCounter + 1 ∧ conn.clientId = c
  device : ∀ peer' d, s'.clients.get peer' = some d → s.clients.get peer' = some d ∨
    S.registers c ∧ peer' = peer ∧ d.clientId = c ∧
      d.epoch = s.broker.sessions.epochCounter + 1 ∧ d.clean = e.cleanSession
  forwarder : ∀ k f, s'.forwarders.get k = some f → s.forwarders.get k = some f ∨
    S.registers c ∧ k = s.broker.sessions.epochCounter + 1

inductive Outline (S : Scope) (s s' : Sys) : Prop
  | keeps (h : Keeps s s')
  | draws (c : String) (e : SessionEntry) (peer : SocketAddr) (h : Draws S s s' c e peer)
  | restarted (config : Settings) (h : s.restart config = some s')

/-- The record of a device is replaced by one of the same session. -/
theorem keeps_putClient {peer : SocketAddr} {d d' : SnClient} (hd : s.clients.get peer = some d)
    (hsame : SameSession d d') : Keeps s (s.ofGateway (s.toGateway.putClient peer d')) :=
  { Keeps.refl s with
    device := by
      intro peer1 d1 h1
      rcases get_insert_cases h1 with ⟨rfl, rfl⟩ | ⟨-, h1⟩
      · exact ⟨d, hd, hsame⟩
      · exact ⟨d1, h1, .refl d1⟩ }

/-- A task goes on with the connection of the same client. -/
theorem conns_ofTask {k : Nat} {conn : Conn} {t : Task} (hconn : s.conns.get k = some conn)
    (hep : t.epoch = k) (hcl : t.conn.clientId = conn.clientId) (k' : Nat) (conn' : Conn)
    (h : (s.ofTask t).conns.get k' = some conn') :
    ∃ conn, s.conns.get k' = some conn ∧ conn'.clientId = conn.clientId := by
  rcases get_insert_cases h with ⟨rfl, rfl⟩ | ⟨-, h⟩
  · exact ⟨conn, hep ▸ hconn, hcl⟩
  · exact ⟨conn', h, rfl⟩

theorem Move.outline (h : s.Move S s') : Outline S s s' := by
  cases h with
  | gateway g hg =>
    cases hg with
    | broker b hb =>
      exact .keeps { Keeps.refl s with counter := hb.epochCounter_eq, entry := fun _ _ => hb.entry }
    | books peer d d' hd h => exact .keeps (keeps_putClient hd ⟨h.clientId, h.epoch, h.clean⟩)
    | asleep peer d until_ hd => exact .keeps (keeps_putClient hd ⟨rfl, rfl, rfl⟩)
    | leave peer d hd =>
      exact .keeps { Keeps.refl s with device := fun _ d1 h1 => ⟨d1, get_of_erase h1, .refl d1⟩ }
    | register peer c clean keepAlive hreg =>
      refine .draws c _ peer ⟨rfl, rfl, rfl, fun c' => register_get .., fun _ _ => .inl, ?_, ?_⟩
      · intro peer' d hd
        rcases get_insert_cases hd with ⟨hpeer, rfl⟩ | ⟨-, hd⟩
        · exact .inr ⟨hreg, hpeer, rfl, rfl, rfl⟩
        · exact .inl hd
      · intro k f hf
        rcases get_insert_cases hf with ⟨hk, -⟩ | ⟨-, hf⟩
        · exact .inr ⟨hreg, hk⟩
        · exact .inl hf
    | take => exact .keeps { Keeps.refl s with }
    | dropForwarder epoch f hf =>
      exact .keeps { Keeps.refl s with forwarder := fun _ _ => get_of_erase }
  | task k conn t hconn ht =>
    have hconns := conns_ofTask hconn ht.epoch_eq ht.clientId_eq
    rcases ht.shared with hb | ⟨channels, trace, hb⟩
    · exact .keeps { Keeps.refl s with
        counter := hb.epochCounter_eq, entry := fun _ _ => hb.entry, conn := hconns }
    · have hsess : (s.ofTask t).broker.sessions = { s.broker.sessions with channels } :=
        congrArg BrokerState.sessions hb
      refine .keeps { Keeps.refl s with counter := ?_, entry := ?_, conn := hconns }
      · rw [hsess]
      · rw [hsess]
        exact (Keeps.refl s).entry
  | openSession connect peer buffer credit hopen =>
    refine .draws connect.clientId _ peer
      ⟨rfl, rfl, rfl, fun c' => register_get .., ?_, fun _ _ => .inl, fun _ _ => .inl⟩
    intro k conn hk
    rcases get_insert_cases hk with ⟨heq, rfl⟩ | ⟨-, hk⟩
    · exact .inr ⟨heq, rfl⟩
    · exact .inl hk
  | close k conn hconn =>
    exact .keeps { Keeps.refl s with conn := fun _ conn' h => ⟨conn', get_of_erase h, rfl⟩ }
  | tick d => exact .keeps { Keeps.refl s with }
  | restart config s' hrst h => exact .restarted config h

/-! ## Epochs in use -/

/-- The epochs in use have been drawn, and no two devices have the same. -/
structure Epochs (s : Sys) : Prop where
  conns : ∀ k c, s.conns.get k = some c → k ≤ s.broker.sessions.epochCounter
  clients : ∀ peer c, s.clients.get peer = some c → c.epoch ≤ s.broker.sessions.epochCounter
  apart : ∀ peer peer' c c', s.clients.get peer = some c → s.clients.get peer' = some c' →
    c.epoch = c'.epoch → peer = peer'

theorem epochs_init {config : Settings} {now : Instant} (h : init config now = some s) :
    s.Epochs := by
  obtain ⟨b, -, rfl⟩ := map_eq_some_iff.1 h
  exact ⟨by simp, by simp, by simp⟩

theorem Keeps.epochs (h : Keeps s s') (hs : s.Epochs) : s'.Epochs := by
  refine ⟨fun k conn hk => ?_, fun peer c hc => ?_, fun peer peer' c c' hc hc' heq => ?_⟩
  · obtain ⟨conn, hk, -⟩ := h.conn k conn hk
    exact h.counter ▸ hs.conns k conn hk
  · obtain ⟨c, hc, hsame⟩ := h.device peer c hc
    rw [hsame.epoch, h.counter]
    exact hs.clients peer c hc
  · obtain ⟨c, hc, hsame⟩ := h.device peer c hc
    obtain ⟨c', hc', hsame'⟩ := h.device peer' c' hc'
    rw [hsame.epoch, hsame'.epoch] at heq
    exact hs.apart peer peer' c c' hc hc' heq

theorem Move.epochs (h : s.Move S s') (hs : s.Epochs) : s'.Epochs := by
  cases h.outline with
  | keeps h => exact h.epochs hs
  | draws c e peer0 h =>
    -- the epoch that was drawn is greater than every other one
    have hnew : ∀ peer d, s.clients.get peer = some d →
        d.epoch ≠ s.broker.sessions.epochCounter + 1 :=
      fun peer d hd heq => absurd (heq ▸ hs.clients peer d hd) (Nat.not_succ_le_self _)
    refine ⟨fun k conn hk => ?_, fun peer d hd => ?_, fun peer peer' d d' hd hd' heq => ?_⟩
    · rw [h.counter]
      rcases h.conn k conn hk with hk | ⟨rfl, -⟩
      · exact Nat.le_succ_of_le (hs.conns k conn hk)
      · exact le_refl _
    · rw [h.counter]
      rcases h.device peer d hd with hd | ⟨-, -, -, hep, -⟩
      · exact Nat.le_succ_of_le (hs.clients peer d hd)
      · exact hep.le
    · rcases h.device peer d hd with hd | ⟨-, hpeer, -, hep, -⟩ <;>
        rcases h.device peer' d' hd' with hd' | ⟨-, hpeer', -, hep', -⟩
      · exact hs.apart peer peer' d d' hd hd' heq
      · exact absurd (heq.trans hep') (hnew peer d hd)
      · exact absurd (heq.symm.trans hep) (hnew peer' d' hd')
      · exact hpeer.trans hpeer'.symm
  | restarted config h =>
    obtain ⟨b, -, rfl⟩ := restart_cases h
    exact ⟨by simp, by simp, by simp⟩

theorem step_epochs {e : Event} (h : s.step e = some s') (hs : s.Epochs) : s'.Epochs :=
  moves_invariant (fun _ _ hs hmove => hmove.epochs hs) (all_moves h) hs

/-! ## The records of the devices -/

/-- A device whose session is still its own knows whether it is clean. -/
def DeviceFlags (s : Sys) : Prop :=
  ∀ peer c e, s.clients.get peer = some c → s.broker.sessions.get c.clientId = some e →
    e.epoch = c.epoch → e.cleanSession = c.clean

theorem Move.deviceFlags (h : s.Move S s') (heps : s.Epochs) (hs : s.DeviceFlags) :
    s'.DeviceFlags := by
  cases h.outline with
  | keeps h =>
    intro peer d' e' hd' he' hep
    obtain ⟨d, hd, hsame⟩ := h.device peer d' hd'
    obtain ⟨e, he, hconn⟩ := h.entry _ e' he'
    rw [hsame.clientId] at he
    rw [hconn.epoch, hsame.epoch] at hep
    rw [hconn.cleanSession, hsame.clean]
    exact hs peer d e hd he hep
  | draws c e peer0 h =>
    intro peer d e' hd he' hep
    rw [h.get] at he'
    rcases h.device peer d hd with hd | ⟨-, -, rfl, -, hclean⟩
    · split_ifs at he' with hc
      -- another device with the same name has an older epoch
      · have hle := heps.clients peer d hd
        rw [← hep, ← some.inj he', h.epoch] at hle
        exact absurd hle (Nat.not_succ_le_self _)
      · exact hs peer d e' hd he' hep
    · rw [if_pos rfl] at he'
      rw [← some.inj he', hclean]
  | restarted config h =>
    obtain ⟨b, -, rfl⟩ := restart_cases h
    intro peer c e hc
    simp at hc

/-! ## The entries of the sessions -/

/-- The epochs of the entries have been drawn and are the numbers of their channels, and an entry
    with the epoch of a connection is the one of its client. -/
structure Entries (s : Sys) : Prop where
  drawn : ∀ c e, s.broker.sessions.get c = some e → e.epoch ≤ s.broker.sessions.epochCounter
  tx : ∀ c e, s.broker.sessions.get c = some e → e.tx = e.epoch
  owner : ∀ k conn c e, s.conns.get k = some conn → s.broker.sessions.get c = some e →
    e.epoch = k → c = conn.clientId

theorem Keeps.entries (h : Keeps s s') (hs : s.Entries) : s'.Entries := by
  refine ⟨fun c e' he' => ?_, fun c e' he' => ?_, fun k conn' c e' hk he' hep => ?_⟩
  · obtain ⟨e, he, hcont⟩ := h.entry c e' he'
    rw [hcont.epoch, h.counter]
    exact hs.drawn c e he
  · obtain ⟨e, he, hcont⟩ := h.entry c e' he'
    rw [hcont.tx, hcont.epoch, hs.tx c e he]
  · obtain ⟨conn, hconn, hcl⟩ := h.conn k conn' hk
    obtain ⟨e, he, hcont⟩ := h.entry c e' he'
    rw [hcl]
    exact hs.owner k conn c e hconn he (hcont.epoch ▸ hep)

theorem Move.entries (h : s.Move S s') (heps : s.Epochs) (hs : s.Entries) : s'.Entries := by
  cases h.outline with
  | keeps h => exact h.entries hs
  | draws c e peer h =>
    have hent : ∀ c' e', s'.broker.sessions.get c' = some e' →
        s.broker.sessions.get c' = some e' ∨ c' = c ∧ e' = e := by
      intro c' e' he'
      rw [h.get] at he'
      split_ifs at he' with hc
      · exact .inr ⟨hc, (some.inj he').symm⟩
      · exact .inl he'
    refine ⟨fun c' e' he' => ?_, fun c' e' he' => ?_, fun k conn c' e' hk he' hep => ?_⟩
    · rw [h.counter]
      rcases hent c' e' he' with he | ⟨-, rfl⟩
      · exact Nat.le_succ_of_le (hs.drawn c' e' he)
      · exact h.epoch.le
    · rcases hent c' e' he' with he | ⟨-, rfl⟩
      · exact hs.tx c' e' he
      · exact h.tx
    · rcases hent c' e' he' with he | ⟨rfl, rfl⟩ <;>
        rcases h.conn k conn hk with hconn | ⟨rfl, hcl⟩
      · exact hs.owner k conn c' e' hconn he hep
      · exact absurd (hep ▸ hs.drawn c' e' he) (Nat.not_succ_le_self _)
      · have hle := heps.conns k conn hconn
        rw [← hep, h.epoch] at hle
        exact absurd hle (Nat.not_succ_le_self _)
      · exact hcl.symm
  | restarted config h =>
    obtain ⟨b, hb, rfl⟩ := restart_cases h
    exact ⟨fun c e he => (new_restored hb he).epoch,
      fun c e he => (new_restored hb he).tx, by simp⟩

theorem step_entries {e : Event} (h : s.step e = some s') (heps : s.Epochs) (hs : s.Entries) :
    s'.Entries :=
  (moves_invariant (I := fun s => s.Epochs ∧ s.Entries)
    (fun _ _ hs hmove => ⟨hmove.epochs hs.1, hmove.entries hs.1 hs.2⟩)
    (all_moves h) ⟨heps, hs⟩).2

/-- **No epoch is used twice** in a state that is reached. -/
theorem Reachable.epochs (h : Reachable s) : s.Epochs :=
  h.invariant (fun _ _ _ h0 => epochs_init h0) (fun _ _ _ hs hstep => step_epochs hstep hs)

/-- **Every record in a system that is reached is one of a device that has connected**, run through
    operations on it. -/
theorem Reachable.booked (h : Reachable s) : s.toGateway.Booked := by
  refine h.moves_invariant (I := fun s => s.toGateway.Booked) ?_ ?_
  · intro config now s0 h0 peer c hc
    obtain ⟨b, -, rfl⟩ := map_eq_some_iff.1 h0
    simp at hc
  · intro s s' hs hmove
    cases hmove with
    | gateway g hg => exact hg.booked hs
    | task | openSession | close | tick => exact hs
    | restart config s' hrst h =>
      obtain ⟨b, -, rfl⟩ := restart_cases h
      intro peer c hc
      simp at hc

theorem Reachable.deviceFlags (h : Reachable s) : s.DeviceFlags := by
  refine (h.moves_invariant (I := fun s => s.Epochs ∧ s.DeviceFlags) ?_ ?_).2
  · intro config now s0 h0
    refine ⟨epochs_init h0, ?_⟩
    obtain ⟨b, -, rfl⟩ := map_eq_some_iff.1 h0
    intro peer c e hc
    simp at hc
  · intro s s' hs hmove
    exact ⟨hmove.epochs hs.1, hmove.deviceFlags hs.1 hs.2⟩

/-- **An entry with the epoch of a connection is the one of its client.** -/
theorem Reachable.entries (h : Reachable s) : s.Entries := by
  refine (h.moves_invariant (I := fun s => s.Epochs ∧ s.Entries) ?_ ?_).2
  · intro config now s0 h0
    refine ⟨epochs_init h0, ?_⟩
    obtain ⟨b, hb, rfl⟩ := map_eq_some_iff.1 h0
    exact ⟨fun c e he => (new_restored hb he).epoch,
      fun c e he => (new_restored hb he).tx, by simp⟩
  · intro s s' hs hmove
    exact ⟨hmove.epochs hs.1, hmove.entries hs.1 hs.2⟩

end Sys

/-! ## Whose an epoch is -/

/-- The epochs of the entries have been drawn, and no two are the same. -/
structure SessionManager.Apart (sm : SessionManager) : Prop where
  drawn : ∀ c e, sm.get c = some e → e.epoch ≤ sm.epochCounter
  apart : ∀ c c' e e', sm.get c = some e → sm.get c' = some e' → e.epoch = e'.epoch → c = c'

/-- Every entry continues one. -/
theorem SessionManager.Apart.mono {sm sm' : SessionManager} (h : sm.Apart)
    (hctr : sm.epochCounter ≤ sm'.epochCounter)
    (hent : ∀ c e', sm'.get c = some e' → ∃ e, sm.get c = some e ∧ BrokerState.Continues e e') :
    sm'.Apart := by
  refine ⟨fun c e' he' => ?_, fun c c' e1' e2' h1 h2 heq => ?_⟩
  · obtain ⟨e, he, hcont⟩ := hent c e' he'
    exact hcont.epoch ▸ (h.drawn c e he).trans hctr
  · obtain ⟨e1, he1, hcont1⟩ := hent c e1' h1
    obtain ⟨e2, he2, hcont2⟩ := hent c' e2' h2
    exact h.apart c c' e1 e2 he1 he2 (by rw [← hcont1.epoch, ← hcont2.epoch, heq])

/-- A client gets an entry with the epoch that is drawn next. -/
theorem SessionManager.Apart.draw {sm sm' : SessionManager} (h : sm.Apart) {c : String}
    {e : SessionEntry} (hep : e.epoch = sm.epochCounter + 1)
    (hctr : sm'.epochCounter = sm.epochCounter + 1)
    (hget : ∀ c', sm'.get c' = if c' = c then some e else sm.get c') : sm'.Apart := by
  have hnew : ∀ {c' e'}, sm.get c' = some e' → e'.epoch ≠ e.epoch := by
    intro c' e' he' heq
    have hle := h.drawn c' e' he'
    omega
  refine ⟨fun c' e' he' => ?_, fun c1 c2 e1 e2 h1 h2 heq => ?_⟩
  · rw [hget] at he'
    rw [hctr]
    split_ifs at he'
    · rw [← some.inj he', hep]
    · exact Nat.le_succ_of_le (h.drawn c' e' he')
  · rw [hget] at h1 h2
    split_ifs at h1 h2 with hc1 hc2 hc2
    · rw [hc1, hc2]
    · rw [← some.inj h1] at heq
      exact absurd heq.symm (hnew h2)
    · rw [← some.inj h2] at heq
      exact absurd heq (hnew h1)
    · exact h.apart c1 c2 e1 e2 h1 h2 heq

theorem BrokerState.new_apart {config : Settings} {storage : Option Storage} {now : Instant}
    {b : BrokerState} (h : new config storage now = some b) : b.sessions.Apart := by
  refine new_invariant (I := fun b => b.sessions.Apart) ?_ ?_ h
  · intro b hb
    exact ⟨fun c e he => by simp [hb.get] at he, fun c c' e e' he => by simp [hb.get] at he⟩
  · intro b s snap b' q hloads hb
    exact hb.draw rfl hloads.epochCounter hloads.get

/-- **No two sessions have the same epoch** in a state that is reached. -/
theorem Sys.Reachable.apart {s : Sys} (h : Reachable s) : s.broker.sessions.Apart := by
  refine h.broker_invariant (J := fun b => b.sessions.Apart) (fun _ hb => new_apart hb) ?_
  intro b b' hchange hs
  cases hchange with
  | move b' hb => exact hs.mono hb.epochCounter_eq.ge (fun c e' he' => hb.entry he')
  | frame => exact ⟨hs.drawn, hs.apart⟩
  | opened | registered => exact hs.draw rfl rfl (fun c' => register_get ..)
  | restarted config b _ hb =>
    obtain ⟨hdrawn, hapart⟩ := new_apart hb
    exact ⟨hdrawn, hapart⟩

end LumenMQ
