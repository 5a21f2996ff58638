import LumenMQ.Epochs

set_option autoImplicit false

/-! # The gauge of connections

The gauge is raised and lowered by the connections and by the gateway, each at its own time. A
connection raises it once and lowers it once. A device raises it with every CONNECT, lowers it with
every DISCONNECT that asks for sleep, and lowers it when its record is dropped while it owns its
session; these do not always match. This file says which steps keep the gauge exact. -/

namespace LumenMQ

open Option List FinMap SessionManager Gateway

variable {peer : SocketAddr}

namespace Gateway

variable {g : Gateway}

/-- The devices that are connected and not asleep. -/
def awake (g : Gateway) : Nat := g.clients.count (fun c => !c.sleeping)

/-- What the gauge counts besides the devices. -/
def surplus (g : Gateway) : Int := g.broker.connectionsCurrent - g.awake

/-! ## What a device does to the gauge -/

/-- A CONNECT counts a device, even one that is counted already. -/
theorem surplus_registerClient (g : Gateway) (peer : SocketAddr) (clientId : String) (clean : Bool)
    (keepAliveSecs : UInt16) :
    (g.registerClient peer clientId clean keepAliveSecs).surplus =
      g.surplus + if (g.clients.get peer).any (fun c => !c.sleeping) then 1 else 0 := by
  have hgauge : (g.registerClient peer clientId clean keepAliveSecs).broker.connectionsCurrent =
      g.broker.connectionsCurrent + 1 := rfl
  have hawake : (g.registerClient peer clientId clean keepAliveSecs).awake +
      (if (g.clients.get peer).any (fun c => !c.sleeping) then 1 else 0) = g.awake + 1 :=
    count_insert ..
  unfold surplus
  rw [hgauge]
  split_ifs at hawake ⊢ <;> omega

/-- Going to sleep uncounts a device, even one that is asleep. -/
theorem surplus_sleep {c : SnClient} (hc : g.clients.get peer = some c) (duration : UInt16) :
    (g.sleep peer duration).surplus = g.surplus - if c.sleeping then 1 else 0 := by
  have hgauge : (g.sleep peer duration).broker.connectionsCurrent =
      g.broker.connectionsCurrent - 1 := by
    simp only [sleep, hc]
    rfl
  have hawake : (g.sleep peer duration).awake + (if !c.sleeping then 1 else 0) = g.awake := by
    simp only [sleep, hc]
    have hcnt := count_insert (fun c : SnClient => !c.sleeping) g.clients peer
      { c with
        sleeping := true, sleepUntil := some (g.broker.now + Duration.fromSecs duration.toNat) }
    rwa [hc] at hcnt
  unfold surplus
  rw [hgauge]
  cases hs : c.sleeping <;> simp [hs] at hawake ⊢ <;> omega

theorem connectionsCurrent_cleanupSession (b : BrokerState) (clientId : String) (epoch : Nat)
    (clean : Bool) :
    (cleanupSession b clientId epoch clean).connectionsCurrent =
      b.connectionsCurrent - if b.sessions.owns clientId epoch then 1 else 0 := by
  unfold cleanupSession
  cases hown : b.sessions.owns clientId epoch <;> cases clean <;> simp [BrokerState.unsubscribeAll]

/-- A device that leaves is uncounted if it owns its session, be it awake or asleep. -/
theorem surplus_dropClient {c : SnClient} (hc : g.clients.get peer = some c) :
    (g.dropClient peer).surplus =
      g.surplus + (if !c.sleeping then 1 else 0) -
        if g.broker.sessions.owns c.clientId c.epoch then 1 else 0 := by
  have hgauge := connectionsCurrent_cleanupSession g.broker c.clientId c.epoch c.clean
  have hawake : (g.dropClient peer).awake + (if !c.sleeping then 1 else 0) = g.awake := by
    have hcnt := count_erase (fun c : SnClient => !c.sleeping) g.clients peer
    simp only [dropClient, hc]
    rwa [hc] at hcnt
  unfold surplus
  rw [show (g.dropClient peer).broker = cleanupSession g.broker c.clientId c.epoch c.clean by
    simp only [dropClient, hc], hgauge]
  split_ifs at hawake ⊢ <;> omega

/-- The end of one session leaves the owners of the others alone. -/
theorem owns_cleanupSession {b : BrokerState} {c c' : String} {k k' : Nat} {clean : Bool}
    (hne : k' ≠ k) :
    (cleanupSession b c k clean).sessions.owns c' k' = b.sessions.owns c' k' := by
  unfold cleanupSession
  by_cases hown : b.sessions.owns c k = true
  · rw [if_neg (by simp [hown])]
    dsimp only
    by_cases hclean : clean = true
    · rw [if_pos hclean]
      change owns (b.sessions.remove c).2 c' k' = _
      unfold owns
      rw [get_remove]
      split_ifs with hc
      · subst hc
        unfold owns at hown
        split at hown
        · simpa [of_decide_eq_true hown] using hne.symm
        · simp at hown
      · rfl
    · rw [if_neg hclean]
      unfold owns
      dsimp only
      rw [markOffline_get]
      cases b.sessions.get c' with
      | none => rfl
      | some e =>
        simp only [map_some]
        split_ifs <;> rfl
  · rw [if_pos (by simp [hown])]

/-- Devices with different epochs leave one after the other. -/
theorem surplus_dropClients {ps : List (SocketAddr × SnClient)} (hnd : (ps.map Prod.fst).Nodup)
    (hget : ∀ p ∈ ps, g.clients.get p.1 = some p.2)
    (hapart : ps.Pairwise (fun p q => p.2.epoch ≠ q.2.epoch)) :
    ((ps.map Prod.fst).foldl (fun g peer => g.dropClient peer) g).surplus =
      g.surplus + ps.countP (fun p => !p.2.sleeping) -
        ps.countP (fun p => g.broker.sessions.owns p.2.clientId p.2.epoch) := by
  induction ps generalizing g with
  | nil => simp
  | cons p ps ih =>
    obtain ⟨peer, c⟩ := p
    rw [map_cons, nodup_cons] at hnd
    rw [forall_mem_cons] at hget
    rw [pairwise_cons] at hapart
    have hdrop : g.dropClient peer = { g with
        clients := g.clients.erase peer
        broker := cleanupSession g.broker c.clientId c.epoch c.clean } := by
      simp only [dropClient, hget.1]
    have hget' : ∀ p ∈ ps, (g.dropClient peer).clients.get p.1 = some p.2 := by
      intro p hp
      have hne : p.1 ≠ peer := fun h => hnd.1 (mem_map.2 ⟨p, hp, h⟩)
      rw [hdrop, get_erase, if_neg hne]
      exact hget.2 p hp
    have hown : ps.countP (fun p =>
          (g.dropClient peer).broker.sessions.owns p.2.clientId p.2.epoch) =
        ps.countP (fun p => g.broker.sessions.owns p.2.clientId p.2.epoch) := by
      refine countP_congr ?_
      intro p hp
      rw [hdrop, owns_cleanupSession (hapart.1 p hp).symm]
    rw [map_cons, foldl_cons, ih hnd.2 hget' hapart.2, hown,
      surplus_dropClient hget.1, countP_cons, countP_cons]
    split_ifs <;> push_cast <;> ring

/-- The datagrams that keep the count of devices. One that connects has no record that is awake; one
    that goes to sleep was awake; one that leaves owns its session exactly if it is awake. -/
def balanced (g : Gateway) (peer : SocketAddr) (bytes : Bytes) : Bool :=
  match parsePacket (bytes.take 65535) with
  | .ok (.connect _ protocolId _ clientId) =>
    (g.refusal protocolId clientId).isSome || (g.clients.get peer).all (fun c => c.sleeping)
  | .ok (.disconnect (some _)) => (g.clients.get peer).all (fun c => !c.sleeping)
  | .ok (.disconnect none) =>
    (g.clients.get peer).all (fun c => g.broker.sessions.owns c.clientId c.epoch == !c.sleeping)
  | _ => true

theorem surplus_sweep
    (hapart : ∀ peer peer' c c', g.clients.get peer = some c → g.clients.get peer' = some c' →
      c.epoch = c'.epoch → peer = peer') : g.sweep.surplus =
      g.surplus + g.clients.count (fun c => !c.sleeping && c.isExpired g.broker.now) -
        g.clients.count (fun c =>
          g.broker.sessions.owns c.clientId c.epoch && c.isExpired g.broker.now) := by
  have hsub : (g.clients.toPairs.filter (fun e => e.2.isExpired g.broker.now)).Sublist
    g.clients.toPairs := filter_sublist
  have hnd := g.clients.toPairs_nodup.sublist (hsub.map Prod.fst)
  have hget : ∀ p ∈ g.clients.toPairs.filter (fun e => e.2.isExpired g.broker.now),
      g.clients.get p.1 = some p.2 := fun p hp => mem_toPairs.1 (hsub.subset hp)
  rw [sweep, surplus_dropClients hnd hget]
  · rw [countP_filter_toPairs (fun c : SnClient => !c.sleeping)
      (fun c => c.isExpired g.broker.now),
      countP_filter_toPairs (fun c : SnClient => g.broker.sessions.owns c.clientId c.epoch)
      (fun c => c.isExpired g.broker.now)]
  · refine (pairwise_map.1 hnd).imp_of_mem ?_
    intro p q hp hq hne heq
    exact hne (hapart _ _ _ _ (hget p hp) (hget q hq) heq)

end Gateway

namespace Sys

variable {s s' : Sys}

/-! ## The gauge -/

/-- The connections that are past their registration and have not returned, and the devices that are
    connected and not asleep. -/
def live (s : Sys) : Nat := s.conns.count (fun _ => true) + s.awake

/-- The gauge is exact, and so it is not negative: the cast of the accept loops does not wrap. -/
def ExactGauge (s : Sys) : Prop :=
  s.broker.connectionsCurrent = s.live ∧ 0 ≤ s.broker.connectionsCurrent

/-- By how much the gauge is too high. -/
def offBy (s : Sys) : Int := s.surplus - s.conns.count (fun _ => true)

theorem exactGauge_iff : s.ExactGauge ↔ s.offBy = 0 := by
  unfold ExactGauge offBy live surplus
  push_cast
  constructor
  · rintro ⟨h, -⟩
    omega
  · intro h
    constructor <;> omega

/-- A broker without connections and devices. -/
theorem offBy_fresh {b : BrokerState} (h : b.connectionsCurrent = 0) :
    offBy { broker := b } = 0 := by
  change b.connectionsCurrent - 0 - 0 = 0
  rw [h]
  rfl

/-- The steps that keep the count of connections: a datagram that does, and a look for silent
    devices if as many of those that are found own their session as are awake. -/
def balanced (s : Sys) : Event → Bool
  | .datagram peer bytes => s.toGateway.balanced peer bytes
  | .sweepDevices =>
    s.clients.count (fun c => !c.sleeping && c.isExpired s.broker.now) ==
      s.clients.count (fun c =>
        s.broker.sessions.owns c.clientId c.epoch && c.isExpired s.broker.now)
  | _ => true

variable {S : Scope}

/-- As long as no device comes or goes, every move keeps the error. -/
theorem Move.offBy_eq (h : s.Move S s') (heps : s.Epochs) (hdep : ¬ S.departs)
    (hreg : ∀ c, ¬ S.registers c) (hrst : ¬ S.restarts) : s'.offBy = s.offBy := by
  unfold offBy surplus awake
  cases h with
  | gateway g hg =>
    cases hg with
    | broker b hb =>
      change b.connectionsCurrent - _ - _ = _
      rw [hb.connectionsCurrent_eq hdep]
      rfl
    | books peer c c' hc hsame =>
      have hcnt : count (fun c : SnClient => !c.sleeping) (s.clients.insert peer c') =
          s.clients.count (fun c => !c.sleeping) :=
        count_insert_of_some _ hc (by rw [hsame.sleeping])
      change s.broker.connectionsCurrent - ((count _ (s.clients.insert peer c') : Nat) : Int) -
        _ = _
      rw [hcnt]
      rfl
    | asleep _ _ _ _ hd | leave _ _ _ hd => exact absurd hd hdep
    | register _ c _ _ h => exact absurd h (hreg c)
    | take | dropForwarder => rfl
  | task k c t hc ht =>
    have hcnt : count (fun _ => true) (s.conns.insert t.epoch t.conn) =
        s.conns.count (fun _ => true) := by
      rw [ht.epoch_eq]
      exact count_insert_of_some _ hc rfl
    have hgauge : t.broker.connectionsCurrent = s.broker.connectionsCurrent := by
      rcases ht.shared with hb | ⟨channels, trace, hb⟩
      · exact hb.connectionsCurrent_eq hdep
      · rw [hb]
        rfl
    change t.broker.connectionsCurrent - _ -
      ((count _ (s.conns.insert t.epoch t.conn) : Nat) : Int) = _
    rw [hcnt, hgauge]
    rfl
  | openSession connect peer buffer credit hopen =>
    -- the epoch is a new one
    have hnone : s.conns.get (s.broker.sessions.epochCounter + 1) = none := by
      by_contra hsome
      obtain ⟨c, hc⟩ := ne_none_iff_exists'.1 hsome
      exact absurd (heps.conns _ c hc) (Nat.not_succ_le_self _)
    have hcnt := count_insert_of_none (fun _ => true)
      (s.broker.openSession connect peer buffer credit).2.conn hnone
    change s.broker.connectionsCurrent + 1 - _ -
      ((count _ (s.conns.insert (s.broker.sessions.epochCounter + 1) _) : Nat) : Int) = _
    rw [hcnt]
    change _ - ((s.clients.count _ : Nat) : Int) - _ = _
    simp only [if_true]
    push_cast
    ring
  | close k c hc hexit =>
    have hcnt := count_erase (fun _ => true) s.conns k
    rw [hc, any_some, if_pos rfl] at hcnt
    change s.broker.connectionsCurrent - 1 - ((s.clients.count _ : Nat) : Int) -
      ((count _ (s.conns.erase k) : Nat) : Int) = _
    omega
  | tick d => rfl
  | restart _ _ h => exact absurd h hrst

theorem step_offBy_eq {e : Event} (heps : s.Epochs)
    (hreg : ∀ peer bytes, e = .datagram peer bytes → Gateway.connects bytes = none)
    (hdep : ¬ s.Departs e) (hrst : ∀ config, e ≠ .restart config) (h : s.step e = some s') :
    s'.offBy = s.offBy := by
  have hall : Allows { registers := fun _ => False, departs := False, restarts := False } s e :=
    { allows_all s e with
      registers := fun peer bytes c he hc => by simp [hreg peer bytes he] at hc
      departs := hdep
      restarts := hrst }
  have hmove : ∀ s1 s2 : Sys, s1.Epochs ∧ s1.offBy = s.offBy →
      s1.Move { registers := fun _ => False, departs := False, restarts := False } s2 →
      s2.Epochs ∧ s2.offBy = s.offBy := by
    rintro s1 s2 ⟨h1, hoff⟩ hmove
    exact ⟨hmove.epochs h1, (hmove.offBy_eq h1 id (fun _ => id) id).trans hoff⟩
  exact (moves_invariant hmove (step_moves hall h) ⟨heps, rfl⟩).2

/-- What a datagram does to the error. -/
theorem datagram_offBy_iff {bytes : Bytes} (heps : s.Epochs)
    (h : s.step (.datagram peer bytes) = some s') :
    s'.offBy = s.offBy ↔ s.toGateway.balanced peer bytes = true := by
  have hcalm : connects bytes = none → departure bytes = false →
      s'.offBy = s.offBy := by
    intro hconnects hdep
    refine step_offBy_eq heps ?_ (by simp [Departs, hdep]) (by simp) h
    rintro peer bytes ⟨⟩
    exact hconnects
  obtain ⟨g, hg, rfl⟩ := map_eq_some_iff.1 h
  have hsurplus : (s.ofGateway g).offBy = s.offBy ↔ g.surplus = s.surplus := by
    change g.surplus - _ = s.surplus - _ ↔ _
    exact sub_left_inj
  unfold datagram at hg
  unfold connects departure at hcalm
  unfold Gateway.balanced
  cases hparse : parsePacket (bytes.take 65535) with
  | error e =>
    rw [hparse] at hcalm
    exact iff_of_true (hcalm rfl rfl) rfl
  | ok packet =>
    rw [hparse] at hcalm hg
    change s.handle peer packet = some g at hg
    cases packet with
    | connect flags protocolId duration clientId =>
      rw [hsurplus, ← some.inj hg]
      dsimp only
      unfold handleConnect
      cases href : s.refusal protocolId clientId with
      | some code =>
        rw [isSome_some, Bool.true_or]
        exact iff_of_true rfl rfl
      | none =>
        change surplus (registerClient ..) = _ ↔ _
        rw [surplus_registerClient, isSome_none, Bool.false_or]
        cases s.clients.get peer <;> simp
    | disconnect duration =>
      cases duration with
      | some duration =>
        rw [hsurplus, ← some.inj hg]
        dsimp only
        cases hc : s.clients.get peer with
        | none => simp [sleep, hc]
        | some c =>
          rw [surplus_sleep hc, all_some]
          cases c.sleeping <;> simp
      | none =>
        rw [hsurplus, ← some.inj hg]
        dsimp only
        cases hc : s.clients.get peer with
        | none => simp [dropClient, hc]
        | some c =>
          rw [surplus_dropClient hc, all_some]
          cases c.sleeping <;> cases s.broker.sessions.owns c.clientId c.epoch <;> simp
    | _ => exact iff_of_true (hcalm rfl rfl) rfl

/-- **Which steps keep the gauge exact.** -/
theorem step_exactGauge_iff {e : Event} (heps : s.Epochs) (hs : s.ExactGauge)
    (h : s.step e = some s') : s'.ExactGauge ↔ s.balanced e = true := by
  rw [exactGauge_iff] at hs ⊢
  cases e with
  | datagram peer bytes =>
    rw [balanced, ← datagram_offBy_iff heps h, hs]
  | sweepDevices =>
    rw [← some.inj h]
    have hsweep := surplus_sweep heps.apart
    change surplus (sweep _) - ((s.conns.count (fun _ => true) : Nat) : Int) = 0 ↔ _
    unfold offBy at hs
    simp only [balanced, beq_iff_eq]
    omega
  | restart config =>
    obtain ⟨b, hb, rfl⟩ := restart_cases h
    exact iff_of_true (offBy_fresh (BrokerState.new_connectionsCurrent hb :)) rfl
  | _ => exact iff_of_true ((step_offBy_eq heps (by simp) id (by simp) h).trans hs) rfl

/-- **The gauge is exact all along a run exactly if every step keeps the count.** -/
theorem exactGauge_always_iff {config : Settings} {now : Instant} {s₀ s : Sys} {es : List Event}
    (h₀ : init config now = some s₀) (hrun : s₀.run es = some s) :
    s₀.Always ExactGauge es ↔ s₀.Meets (fun s e => s.balanced e = true) es := by
  refine run_always_iff (I := Epochs) (fun _ _ _ hs hstep => step_epochs hstep hs)
    (fun _ _ _ hs hJ hstep => step_exactGauge_iff hs hJ hstep) (epochs_init h₀) ?_ hrun
  obtain ⟨b, hb, rfl⟩ := map_eq_some_iff.1 h₀
  exact exactGauge_iff.2 (offBy_fresh (BrokerState.new_connectionsCurrent hb))

/-- A client and a device connect; the device sleeps and wakes up, and both leave. -/
def orderlyRun : List Event :=
  opens "a" true :: deviceOpens true :: deviceSleeps :: deviceOpens true :: deviceDisconnects ::
    sends 1 .disconnect ++ [.finish 1]

theorem exactGauge_always_iff_orderly : ∃ s₀ s, init {} 0 = some s₀ ∧
    s₀.run orderlyRun = some s ∧ s₀.Always ExactGauge orderlyRun := by
  obtain ⟨s₀, s, h₀, hrun, hmeets, -⟩ := exists_run_meets (C := fun s e => s.balanced e = true)
    balanced (fun _ _ h => h) {} 0 orderlyRun (fun _ => true) (by decide +kernel)
  exact ⟨s₀, s, h₀, hrun, (exactGauge_always_iff h₀ hrun).2 hmeets⟩

/-- **A device that is asleep and disconnects is uncounted twice**: the gauge is negative, and with
    it the gateway refuses the next device for congestion. -/
theorem sleeper_disconnects_negative : ∃ s, Reachable s ∧ s.live = 0 ∧
    s.broker.connectionsCurrent = -1 ∧ s.refusal protocolIdMqttsn "d" = some rcCongestion ∧
    ¬ s.ExactGauge := by
  obtain ⟨s₀, s, h₀, hrun, hs⟩ := exists_run {} 0 [deviceOpens true, deviceSleeps, deviceDisconnects]
    (fun s => s.live == 0 && s.broker.connectionsCurrent == -1 &&
      s.refusal protocolIdMqttsn "d" == some rcCongestion) (by decide +kernel)
  simp only [Bool.and_eq_true, beq_iff_eq] at hs
  obtain ⟨⟨hlive, hgauge⟩, hrefused⟩ := hs
  refine ⟨s, ⟨{}, 0, s₀, _, h₀, hrun⟩, hlive, hgauge, hrefused, ?_⟩
  rintro ⟨-, hnonneg⟩
  rw [hgauge] at hnonneg
  exact absurd hnonneg (by decide)

end Sys

end LumenMQ
