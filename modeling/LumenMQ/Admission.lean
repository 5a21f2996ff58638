import LumenMQ.Net.Listeners

set_option autoImplicit false

/-! # Admission

What the counters of the security guard and the two gauges say about the connections, along every
schedule of the accept loops and of the tasks. The guard decides whether to count a connection by
the policy at its start, and whether to uncount it by the policy at its end; a check and the
counting that follows it are two steps; and a connection that was admitted is counted only some
steps later. For each of the three this file says what can go wrong, and which schedules it does not
happen in. -/

namespace LumenMQ

open Option FinMap Runs SecurityGuard

open Runs (Always Meets run)

/-! ## Counters of the guard -/

namespace IpConnectionCounter

theorem count_inc (m : IpConnectionCounter) (ip ip' : IpAddr) :
    count (inc m ip) ip' = count m ip' + if ip = ip' then 1 else 0 := by
  unfold inc count
  rw [get_insert]
  by_cases h : ip' = ip
  · simp [h]
  · simp [h, Ne.symm h]

theorem count_dec (m : IpConnectionCounter) (ip ip' : IpAddr) :
    count (dec m ip) ip' = count m ip' - if ip = ip' then 1 else 0 := by
  unfold dec
  cases hget : get m ip with
  | none =>
    by_cases h : ip' = ip
    · simp [count, h, hget]
    · simp [Ne.symm h]
  | some v =>
    dsimp only
    by_cases h : ip' = ip
    · subst h
      rw [if_pos rfl]
      unfold count
      split_ifs with hv
      · rw [get_erase, if_pos rfl, hget]
        simpa using hv.symm
      · rw [get_insert_self, hget]
        rfl
    · rw [if_neg (Ne.symm h)]
      unfold count
      split_ifs
      · rw [get_erase, if_neg h]
        rfl
      · rw [get_insert_ne m _ h]
        rfl

end IpConnectionCounter

namespace SecurityGuard

theorem onConnect_count (g : SecurityGuard) (peer : SocketAddr) (ip : IpAddr) :
    (g.onConnect peer).ipCounter.count ip =
      g.ipCounter.count ip + if g.limits && peer.ip = ip then 1 else 0 := by
  unfold onConnect limits
  cases g.policy.enabled <;> by_cases hm : g.policy.maxConnectionsPerIp = 0 <;>
    simp [hm, IpConnectionCounter.count_inc, Nat.pos_iff_ne_zero]

theorem onDisconnect_count (g : SecurityGuard) (peer : SocketAddr) (clientId : Option String)
    (ip : IpAddr) :
    (g.onDisconnect peer clientId).ipCounter.count ip =
      g.ipCounter.count ip - if g.limits && peer.ip = ip then 1 else 0 := by
  have hctr : (g.onDisconnect peer clientId).ipCounter =
      if g.limits then g.ipCounter.dec peer.ip else g.ipCounter := by
    unfold onDisconnect limits
    cases clientId <;> dsimp only <;> split_ifs <;> rfl
  rw [hctr]
  split_ifs with hlimits h h
  · rw [IpConnectionCounter.count_dec]
    simp_all
  · rw [IpConnectionCounter.count_dec]
    simp_all
  · simp_all
  · rfl

theorem onConnect_policy (g : SecurityGuard) (peer : SocketAddr) :
    (g.onConnect peer).policy = g.policy := by
  unfold onConnect
  split_ifs <;> rfl

theorem onDisconnect_policy (g : SecurityGuard) (peer : SocketAddr) (clientId : Option String) :
    (g.onDisconnect peer clientId).policy = g.policy := by
  unfold onDisconnect
  cases clientId <;> dsimp only <;> split_ifs <;> rfl

end SecurityGuard

/-! ## What a step changes -/

namespace ListenerEvent

/-- The task that tells the guard of a new connection. -/
def enters : ListenerEvent → Option Nat
  | .task k .onConnect => some k
  | _ => none

/-- The task that tells the guard of the end of a connection. -/
def leaves : ListenerEvent → Option Nat
  | .task k (.onDisconnect _) => some k
  | _ => none

end ListenerEvent

namespace Listeners

variable {s s' : Listeners} {e : ListenerEvent}

/-- What the step of a task changes. The guard hears of it when the connection enters and when it
    leaves. -/
inductive TaskChange (s : Listeners) (e : ListenerEvent) (s' : Listeners) (k : Nat) (t : ConnTask) :
    ConnTask → Prop
  | moved (phase : Phase) (henters : e.enters = none) (hleaves : e.leaves = none)
      (hlive : phase.isLive = t.phase.isLive)
      (hchecked : phase = .checked → s.security.checkConnection t.peer = .ok ())
      (hsecurity : s'.security = s.security) : TaskChange s e s' k t { t with phase }
  | entered (henters : e.enters = some k) (hleaves : e.leaves = none) (hphase : t.phase = .checked)
      (hsecurity : s'.security = s.security.onConnect t.peer) :
      TaskChange s e s' k t { t with phase := .entered, counted := s.security.limits }
  | left (promoted : Bool) (clientId : Option String) (henters : e.enters = none)
      (hleaves : e.leaves = some k) (hphase : t.phase = .returned promoted)
      (hsecurity : s'.security = s.security.onDisconnect t.peer clientId) :
      TaskChange s e s' k t { t with phase := .disconnected promoted }

/-- What a step changes in the tasks and in the guard. -/
inductive Change (s : Listeners) (e : ListenerEvent) (s' : Listeners) : Prop
  | quiet (henters : e.enters = none) (hleaves : e.leaves = none) (htasks : s'.tasks = s.tasks)
      (hnext : s'.nextTask = s.nextTask)
      (hcounter : s'.security.ipCounter = s.security.ipCounter)
  /-- A loop admits a connection. -/
  | spawned (l : Listener) (peer : SocketAddr) (current pending : Int) (phase : Phase)
      (he : e = .decide l) (hloop : s.loops l = .sawPending peer current pending)
      (hroom : s.atLimit current pending = false) (hphase : phase = .started ∨ phase = .handshake)
      (htasks : s'.tasks = s.tasks.insert s.nextTask { peer, phase })
      (hnext : s'.nextTask = s.nextTask + 1) (hsecurity : s'.security = s.security)
  | put (k : Nat) (t t' : ConnTask) (hget : s.tasks.get k = some t)
      (hopen : t'.phase.isOpen = true → t.phase.isOpen = true)
      (htasks : s'.tasks = s.tasks.insert k t') (hnext : s'.nextTask = s.nextTask)
      (htask : TaskChange s e s' k t t')
  | dropped (k : Nat) (t : ConnTask) (henters : e.enters = none) (hleaves : e.leaves = none)
      (hget : s.tasks.get k = some t) (hlive : t.phase.isLive = false)
      (htasks : s'.tasks = s.tasks.erase k) (hnext : s'.nextTask = s.nextTask)
      (hsecurity : s'.security = s.security)

/-- What only a reload changes, or nothing. -/
structure Steady (s : Listeners) (e : ListenerEvent) (s' : Listeners) : Prop where
  maxConnections : s'.maxConnections = s.maxConnections
  policy : (∀ cfg, e ≠ .reload cfg) → s'.security.policy = s.security.policy

theorem taskStep_change {k : Nat} {t : ConnTask} {a : TaskStep} (hget : s.tasks.get k = some t)
    (h : s.taskStep k t a = some s') : Steady s (.task k a) s' ∧ Change s (.task k a) s' := by
  cases a with
  | handshake ok =>
    simp only [taskStep] at h
    split_ifs at h with hphase hok
    · rw [← some.inj h]
      exact ⟨⟨rfl, fun _ => rfl⟩, .put k t _ hget (by rw [hphase]; exact id) rfl rfl
        (.moved .started rfl rfl (by rw [hphase]; rfl) nofun rfl)⟩
    · rw [← some.inj h]
      exact ⟨⟨rfl, fun _ => rfl⟩, .dropped k t rfl rfl hget (by rw [hphase]; rfl) rfl rfl rfl⟩
  | checkConnection =>
    simp only [taskStep] at h
    split_ifs at h with hphase
    rw [← some.inj h]
    cases hcheck : s.security.checkConnection t.peer with
    | ok =>
      exact ⟨⟨rfl, fun _ => rfl⟩, .put k t _ hget (by rw [hphase]; exact id) rfl rfl
        (.moved .checked rfl rfl (by rw [hphase]; rfl) (fun _ => hcheck) rfl)⟩
    | error e =>
      exact ⟨⟨rfl, fun _ => rfl⟩, .dropped k t rfl rfl hget (by rw [hphase]; rfl) rfl rfl rfl⟩
  | onConnect =>
    simp only [taskStep] at h
    split_ifs at h with hphase
    rw [← some.inj h]
    exact ⟨⟨rfl, fun _ => onConnect_policy ..⟩,
      .put k t _ hget (fun _ => by rw [hphase]; rfl) rfl rfl (.entered rfl rfl hphase rfl)⟩
  | onDisconnect clientId =>
    simp only [taskStep] at h
    split at h
    · next promoted hphase =>
      rw [← some.inj h]
      exact ⟨⟨rfl, fun _ => onDisconnect_policy ..⟩,
        .put k t _ hget (by simp [Phase.isOpen]) rfl rfl (.left promoted clientId rfl rfl hphase rfl)⟩
    · simp at h
  | dropGuard =>
    simp only [taskStep] at h
    split at h
    · next promoted hphase =>
      rw [← some.inj h]
      exact ⟨⟨rfl, fun _ => rfl⟩, .dropped k t rfl rfl hget (by rw [hphase]; rfl) rfl rfl rfl⟩
    · simp at h
  | incPending | promote | incConnections | giveUp | decConnections | returns =>
    simp only [taskStep] at h
    split_ifs at h with hphase
    rw [← some.inj h]
    refine ⟨⟨rfl, fun _ => rfl⟩, .put k t _ hget ?_ rfl rfl (.moved _ rfl rfl ?_ ?_ rfl)⟩
    · simp [hphase, Phase.isOpen]
    · rw [hphase]
      rfl
    · simp

theorem step_change (h : s.step e = some s') : Steady s e s' ∧ Change s e s' := by
  cases e with
  | accept l peer | screen l | loadCurrent l | loadPending l =>
    simp only [step] at h
    split at h
    · rw [← some.inj h]
      first
        | exact ⟨⟨rfl, fun _ => rfl⟩, .quiet rfl rfl rfl rfl rfl⟩
        | split <;> exact ⟨⟨rfl, fun _ => rfl⟩, .quiet rfl rfl rfl rfl rfl⟩
    · simp at h
  | decide l =>
    simp only [step] at h
    split at h
    · next peer current pending hloop =>
      rw [← some.inj h]
      by_cases hlimit : s.atLimit current pending = true
      · rw [if_pos hlimit]
        exact ⟨⟨rfl, fun _ => rfl⟩, .quiet rfl rfl rfl rfl rfl⟩
      · rw [if_neg hlimit]
        refine ⟨⟨rfl, fun _ => rfl⟩,
          .spawned l peer current pending _ rfl hloop (by simpa using hlimit) ?_ rfl rfl rfl⟩
        split_ifs
        · exact .inl rfl
        · exact .inr rfl
    · simp at h
  | task k a =>
    obtain ⟨t, hget, ht⟩ := bind_eq_some_iff.1 h
    exact taskStep_change hget ht
  | reload cfg =>
    rw [← some.inj h]
    refine ⟨⟨rfl, fun hne => absurd rfl (hne cfg)⟩, .quiet rfl rfl rfl rfl ?_⟩
    change ((s.security.reload cfg).2).ipCounter = _
    unfold reload
    split <;> rfl
  | devices d =>
    rw [← some.inj h]
    exact ⟨⟨rfl, fun _ => rfl⟩, .quiet rfl rfl rfl rfl rfl⟩

/-- The number of a task is given once. -/
def Numbered (s : Listeners) : Prop := ∀ k t, s.tasks.get k = some t → k < s.nextTask

theorem numbered_start (config : Settings) : (start config).Numbered := by
  intro k t h
  simp [start] at h

theorem Numbered.nextTask (h : s.Numbered) : s.tasks.get s.nextTask = none := by
  by_contra hsome
  obtain ⟨t, ht⟩ := ne_none_iff_exists'.1 hsome
  exact lt_irrefl _ (h _ t ht)

theorem step_numbered (h : s.step e = some s') (hs : s.Numbered) : s'.Numbered := by
  cases (step_change h).2 with
  | quiet _ _ htasks hnext =>
    intro k t hk
    rw [hnext]
    exact hs k t (htasks ▸ hk)
  | spawned l peer current pending phase he hloop hroom hphase htasks hnext =>
    intro k t hk
    rw [htasks, get_insert] at hk
    rw [hnext]
    split_ifs at hk with hnew
    · exact hnew ▸ Nat.lt_succ_self _
    · exact Nat.lt_succ_of_lt (hs k t hk)
  | put k t t' hget _ htasks hnext =>
    intro k1 t1 h1
    rw [htasks, get_insert] at h1
    rw [hnext]
    split_ifs at h1 with hk
    · exact hk ▸ hs k t hget
    · exact hs k1 t1 h1
  | dropped k t _ _ hget _ htasks hnext =>
    intro k1 t1 h1
    rw [htasks, get_erase] at h1
    rw [hnext]
    split_ifs at h1
    exact hs k1 t1 h1

/-! ## Live connections -/

/-- The live connections with a property of their address and of whether they are counted. -/
def liveCount (s : Listeners) (q : SocketAddr → Bool → Bool) : Nat :=
  s.tasks.count (fun t => t.phase.isLive && q t.peer t.counted)

/-- The live connections of an address. -/
def liveAt (s : Listeners) (ip : IpAddr) : Nat := s.liveCount (fun peer _ => peer.ip = ip)

/-- Those of them that the guard has counted. -/
def countedAt (s : Listeners) (ip : IpAddr) : Nat :=
  s.liveCount (fun peer counted => counted && peer.ip = ip)

/-- What a step changes in the live connections. -/
inductive LiveChange (s : Listeners) (e : ListenerEvent) (s' : Listeners) : Prop
  | same (henters : e.enters = none) (hleaves : e.leaves = none)
      (hcount : ∀ q, s'.liveCount q = s.liveCount q)
      (hcounter : s'.security.ipCounter = s.security.ipCounter)
  | entered (k : Nat) (t : ConnTask) (henters : e.enters = some k) (hleaves : e.leaves = none)
      (hget : s.tasks.get k = some t) (hphase : t.phase = .checked)
      (hcount : ∀ q, s'.liveCount q = s.liveCount q + if q t.peer s.security.limits then 1 else 0)
      (hsecurity : s'.security = s.security.onConnect t.peer)
  | left (k : Nat) (t : ConnTask) (clientId : Option String) (henters : e.enters = none)
      (hleaves : e.leaves = some k) (hget : s.tasks.get k = some t)
      (hcount : ∀ q, s'.liveCount q + (if q t.peer t.counted then 1 else 0) = s.liveCount q)
      (hsecurity : s'.security = s.security.onDisconnect t.peer clientId)

theorem step_liveChange (hs : s.Numbered) (h : s.step e = some s') : LiveChange s e s' := by
  cases (step_change h).2 with
  | quiet henters hleaves htasks _ hcounter =>
    exact .same henters hleaves (fun q => by rw [liveCount, htasks, liveCount]) hcounter
  | spawned l peer current pending phase he hloop hroom hphase htasks _ hsecurity =>
    subst he
    refine .same rfl rfl (fun q => ?_) (by rw [hsecurity])
    rw [liveCount, htasks, count_insert_of_none _ _ hs.nextTask]
    rcases hphase with rfl | rfl <;> simp [Phase.isLive, liveCount]
  | put k t t' hget _ htasks _ htask =>
    have hcount := fun q : SocketAddr → Bool → Bool =>
      count_insert (fun t => t.phase.isLive && q t.peer t.counted) s.tasks k t'
    rw [hget] at hcount
    cases htask with
    | moved phase henters hleaves hlive _ hsecurity =>
      refine .same henters hleaves (fun q => ?_) (by rw [hsecurity])
      simpa [liveCount, htasks, hlive] using hcount q
    | entered henters hleaves hphase hsecurity =>
      refine .entered k t henters hleaves hget hphase (fun q => ?_) hsecurity
      simpa [liveCount, htasks, hphase, Phase.isLive] using hcount q
    | left promoted clientId henters hleaves hphase hsecurity =>
      refine .left k t clientId henters hleaves hget (fun q => ?_) hsecurity
      simpa [liveCount, htasks, hphase, Phase.isLive] using hcount q
  | dropped k t henters hleaves hget hlive htasks _ hsecurity =>
    refine .same henters hleaves (fun q => ?_) (by rw [hsecurity])
    have hcount := count_erase (fun t => t.phase.isLive && q t.peer t.counted) s.tasks k
    rw [hget] at hcount
    simpa [liveCount, htasks, hlive] using hcount

/-! ## Reloads -/

/-- The counter of an address counts live connections only, and all of those that it has counted: it
    is zero when there are none, and the end of one connection does not take away the count of
    another. -/
def Tracks (s : Listeners) : Prop :=
  ∀ ip, s.security.ipCounter.count ip ≤ s.liveAt ip ∧
    (s.liveAt ip = 0 → s.security.ipCounter.count ip = 0) ∧
    s.countedAt ip ≤ s.security.ipCounter.count ip

/-- The end of a connection leaves the counter right: while the limit is in force, the connection
    has been counted itself, or none of the live ones has, or the counter is too high already; while
    it is not, some live connection is not counted. -/
def leavesTrack (s : Listeners) (e : ListenerEvent) : Bool :=
  match e.leaves.bind s.tasks.get with
  | none => true
  | some t =>
    let counter := s.security.ipCounter.count t.peer.ip
    if s.security.limits then
      t.counted || s.countedAt t.peer.ip == 0 || s.countedAt t.peer.ip < counter
    else counter < s.liveAt t.peer.ip

theorem step_tracks_iff (hnum : s.Numbered) (hs : s.Tracks) (h : s.step e = some s') :
    s'.Tracks ↔ s.leavesTrack e = true := by
  cases step_liveChange hnum h with
  | same henter hleave hcnt hctr =>
    refine iff_of_true ?_ (by simp [leavesTrack, hleave])
    intro ip
    rw [hctr, liveAt, countedAt, hcnt, hcnt]
    exact hs ip
  | entered k t henter hleave hget hph hcnt hsec =>
    refine iff_of_true ?_ (by simp [leavesTrack, hleave])
    intro ip
    obtain ⟨hle, hzero, hge⟩ := hs ip
    rw [hsec, onConnect_count, liveAt, countedAt, hcnt, hcnt]
    rw [liveAt] at hle hzero
    rw [countedAt] at hge
    by_cases hip : t.peer.ip = ip <;> by_cases hlims : s.security.limits = true <;>
      simp [hip, hlims] <;> omega
  | left k t clientId henter hleave hget hcnt hsec =>
    have hctr : ∀ ip, s'.security.ipCounter.count ip = s.security.ipCounter.count ip -
        if s.security.limits && t.peer.ip = ip then 1 else 0 :=
      fun ip => by rw [hsec, onDisconnect_count]
    have hlive : ∀ ip, s'.liveAt ip + (if t.peer.ip = ip then 1 else 0) = s.liveAt ip := by
      intro ip
      simpa [liveAt] using hcnt (fun peer _ => peer.ip = ip)
    have hcntd : ∀ ip, s'.countedAt ip + (if t.counted && t.peer.ip = ip then 1 else 0) =
        s.countedAt ip := fun ip => hcnt (fun peer counted => counted && peer.ip = ip)
    -- the addresses of the other connections are not concerned
    have hother : ∀ ip, t.peer.ip ≠ ip → s'.security.ipCounter.count ip =
        s.security.ipCounter.count ip ∧ s'.liveAt ip = s.liveAt ip ∧
        s'.countedAt ip = s.countedAt ip := by
      intro ip hip
      have h1 := hctr ip
      have h2 := hlive ip
      have h3 := hcntd ip
      simp only [hip, decide_false, Bool.and_false, Bool.false_eq_true, if_false, Nat.sub_zero,
        Nat.add_zero] at h1 h2 h3
      exact ⟨h1, h2, h3⟩
    have h1 := hctr t.peer.ip
    have h2 := hlive t.peer.ip
    have h3 := hcntd t.peer.ip
    obtain ⟨hle, hzero, hge⟩ := hs t.peer.ip
    have hown : (s'.security.ipCounter.count t.peer.ip ≤ s'.liveAt t.peer.ip ∧
        s'.countedAt t.peer.ip ≤ s'.security.ipCounter.count t.peer.ip) ↔
        s.leavesTrack e = true := by
      simp only [leavesTrack, hleave, bind_some, hget]
      cases hlims : s.security.limits <;> cases hc : t.counted <;>
        simp [hlims, hc] at h1 h2 h3 ⊢ <;> omega
    rw [← hown]
    constructor
    · intro h'
      exact ⟨(h' t.peer.ip).1, (h' t.peer.ip).2.2⟩
    · rintro ⟨hle', hge'⟩ ip
      by_cases hip : t.peer.ip = ip
      · subst hip
        exact ⟨hle', fun hz => by omega, hge'⟩
      · obtain ⟨h1, h2, h3⟩ := hother ip hip
        rw [h1, h2, h3]
        exact hs ip

/-- Nothing is counted at first. -/
theorem start_ipCounter (config : Settings) : (start config).security.ipCounter = ∅ := by
  unfold start
  dsimp only
  split
  · next g hg =>
    unfold new at hg
    cases hpolicy : buildPolicy config.security with
    | error e => simp [hpolicy, bind, Except.bind] at hg
    | ok policy =>
      simp only [hpolicy, bind, Except.bind, pure, Except.pure, Except.ok.injEq] at hg
      rw [← hg]
  · rfl

/-- **The counters track the live connections across reloads exactly if the end of every connection
    leaves them right.** -/
theorem tracks_always_iff {config : Settings} {es : List ListenerEvent} {s : Listeners}
    (hrun : run step (start config) es = some s) :
    Always step Tracks (start config) es ↔
      Meets step (fun s e => s.leavesTrack e = true) (start config) es := by
  refine run_always_iff (E := fun _ => True) (I := Numbered)
    (fun _ _ _ _ hs h => step_numbered h hs) (fun _ _ _ _ hs hJ h => step_tracks_iff hs hJ h)
    (fun _ _ => trivial) (numbered_start config) ?_ hrun
  intro ip
  rw [start_ipCounter]
  exact ⟨Nat.zero_le _, fun _ => rfl, Nat.zero_le _⟩

/-- One loop admits a connection over TCP. -/
def admits (peer : SocketAddr) : List ListenerEvent :=
  [.accept .tcp peer, .screen .tcp, .loadCurrent .tcp, .loadPending .tcp, .decide .tcp]

/-- A task goes from its start to the guard and on until it is pending. -/
def connects (k : Nat) : List ListenerEvent :=
  [.task k .checkConnection, .task k .onConnect, .task k .incPending]

/-- A pending task gives up. -/
def disconnects (k : Nat) : List ListenerEvent :=
  [.task k .giveUp, .task k (.onDisconnect none), .task k .dropGuard]

/-- One connection for each address. -/
def onePerIp : Settings := { security := { enabled := true, maxConnectionsPerIp := 1 } }

def clientAddr : SocketAddr := ⟨.v4 1, 50000⟩

/-- A connection is open while the policy is replaced. -/
def reloadRun (cfg : SecurityConfig) : List ListenerEvent :=
  admits clientAddr ++ connects 0 ++ .reload cfg :: disconnects 0

theorem tracks_always_iff_reload : ∃ s,
    run step (start onePerIp) (reloadRun { enabled := true, maxConnectionsPerIp := 2 }) = some s ∧
    Always step Tracks (start onePerIp)
      (reloadRun { enabled := true, maxConnectionsPerIp := 2 }) := by
  obtain ⟨s, hrun, -⟩ := exists_run step (start onePerIp)
    (reloadRun { enabled := true, maxConnectionsPerIp := 2 }) (fun _ => true) (by decide +kernel)
  refine ⟨s, hrun, (tracks_always_iff hrun).2 ?_⟩
  exact meets_of_check leavesTrack (fun _ _ h => h) (by decide +kernel)

/-- **A reload that switches the guard off while a connection is open leaves its count behind**: the
    address is locked out once the guard is switched on again. -/
theorem reload_leaves_count : ∃ s,
    run step (start onePerIp) (reloadRun {} ++ [.reload onePerIp.security]) = some s ∧
    s.liveAt clientAddr.ip = 0 ∧ s.security.ipCounter.count clientAddr.ip = 1 ∧
    (s.security.checkConnection clientAddr).isOk = false ∧ ¬ s.Tracks := by
  obtain ⟨s, hrun, hs⟩ := exists_run step (start onePerIp)
    (reloadRun {} ++ [.reload onePerIp.security])
    (fun s => s.liveAt clientAddr.ip == 0 && s.security.ipCounter.count clientAddr.ip == 1 &&
      !(s.security.checkConnection clientAddr).isOk) (by decide +kernel)
  simp only [Bool.and_eq_true, beq_iff_eq, Bool.not_eq_true'] at hs
  obtain ⟨⟨hlive, hcounter⟩, hcheck⟩ := hs
  refine ⟨s, hrun, hlive, hcounter, hcheck, fun h => ?_⟩
  exact absurd ((h clientAddr.ip).2.1 hlive) (by simp [hcounter])

/-! ## The limit of an address -/

/-- No address has more than `m` live connections. -/
def PerIpBound (m : Nat) (s : Listeners) : Prop := ∀ ip, s.liveAt ip ≤ m

/-- A connection that is told to the guard would still be let pass. -/
def recheck (s : Listeners) (e : ListenerEvent) : Bool :=
  (e.enters.bind s.tasks.get).all (fun t => (s.security.checkConnection t.peer).isOk)

theorem checkConnection_isOk_iff {g : SecurityGuard} (hlimits : g.limits = true)
    (peer : SocketAddr) :
    (g.checkConnection peer).isOk = true ↔
      g.policy.acl.check peer.ip = .allow ∧
        g.ipCounter.count peer.ip < g.policy.maxConnectionsPerIp := by
  unfold limits at hlimits
  rw [Bool.and_eq_true, decide_eq_true_eq] at hlimits
  unfold checkConnection
  rw [if_neg (by simp [hlimits.1])]
  cases g.policy.acl.check peer.ip with
  | allow =>
    dsimp only
    split_ifs with hfull
    · simp [Except.isOk, Except.toBool, hfull.2]
    · have hlt : g.ipCounter.count peer.ip < g.policy.maxConnectionsPerIp := by
        by_contra hge
        exact hfull ⟨hlimits.2, not_lt.1 hge⟩
      simp [Except.isOk, Except.toBool, hlt]
  | blacklisted | notWhitelisted => simp [Except.isOk, Except.toBool]

/-- While the policy stands, the counters are exact, and whoever was let pass is on no black
    list. -/
structure Enforces (P : SecurityPolicy) (s : Listeners) : Prop where
  numbered : s.Numbered
  policy : s.security.policy = P
  exact : ∀ ip, s.security.ipCounter.count ip = s.liveAt ip
  allowed : ∀ k t, s.tasks.get k = some t → t.phase = .checked → P.acl.check t.peer.ip = .allow

variable {P : SecurityPolicy}

theorem Enforces.limits (h : s.Enforces P) (henable : P.enabled = true)
    (hm : 0 < P.maxConnectionsPerIp) : s.security.limits = true := by
  simp [SecurityGuard.limits, h.policy, henable, hm]

theorem step_allowed (henable : P.enabled = true) (hm : 0 < P.maxConnectionsPerIp)
    (hs : s.Enforces P) (h : s.step e = some s') :
    ∀ k t, s'.tasks.get k = some t → t.phase = .checked → P.acl.check t.peer.ip = .allow := by
  have hput : ∀ (k : Nat) (t' : ConnTask), s'.tasks = s.tasks.insert k t' →
      (t'.phase = .checked → P.acl.check t'.peer.ip = .allow) →
      ∀ k t, s'.tasks.get k = some t → t.phase = .checked → P.acl.check t.peer.ip = .allow := by
    intro k t' htasks hnew k1 t1 h1
    rw [htasks, get_insert] at h1
    split_ifs at h1
    · exact some.inj h1 ▸ hnew
    · exact hs.allowed k1 t1 h1
  cases (step_change h).2 with
  | quiet _ _ htasks => exact htasks ▸ hs.allowed
  | spawned l peer current pending phase he hloop hroom hphase htasks =>
    refine hput _ _ htasks ?_
    rintro rfl
    simp at hphase
  | put k t t' hget _ htasks _ htask =>
    refine hput k t' htasks (fun hphase => ?_)
    cases htask with
    | moved phase _ _ _ hchecked =>
      have hok : (s.security.checkConnection t.peer).isOk = true := by
        rw [hchecked hphase]
        rfl
      rw [checkConnection_isOk_iff (hs.limits henable hm), hs.policy] at hok
      exact hok.1
    | entered | left => cases hphase
  | dropped k t _ _ hget _ htasks =>
    intro k1 t1 h1
    rw [htasks, get_erase] at h1
    split_ifs at h1
    exact hs.allowed k1 t1 h1

theorem step_enforces (henable : P.enabled = true) (hm : 0 < P.maxConnectionsPerIp)
    (hfix : ∀ cfg, e ≠ .reload cfg) (hs : s.Enforces P) (h : s.step e = some s') :
    s'.Enforces P := by
  refine ⟨step_numbered h hs.numbered, ((step_change h).1.policy hfix).trans hs.policy, ?_,
    step_allowed henable hm hs h⟩
  intro ip
  have hexact := hs.exact ip
  have hlimits := hs.limits henable hm
  rw [liveAt] at hexact ⊢
  cases step_liveChange hs.numbered h with
  | same _ _ hcnt hctr => rw [hcnt, hctr, hexact]
  | entered k t _ _ hget hphase hcnt hsec =>
    rw [hcnt, hsec, onConnect_count, hexact]
    simp [hlimits]
  | left k t clientId _ _ hget hcnt hsec =>
    have hlive := hcnt (fun peer _ => peer.ip = ip)
    rw [hsec, onDisconnect_count, hexact, ← hlive]
    simp [hlimits]

theorem step_perIpBound_iff (henable : P.enabled = true) (hm : 0 < P.maxConnectionsPerIp)
    (hs : s.Enforces P) (hJ : s.PerIpBound P.maxConnectionsPerIp) (h : s.step e = some s') :
    s'.PerIpBound P.maxConnectionsPerIp ↔ s.recheck e = true := by
  cases step_liveChange hs.numbered h with
  | same henters _ hcnt hctr =>
    refine iff_of_true (fun ip => ?_) (by simp [recheck, henters])
    rw [liveAt, hcnt]
    exact hJ ip
  | left k t clientId henters _ hget hcnt hsec =>
    refine iff_of_true (fun ip => ?_) (by simp [recheck, henters])
    exact (Nat.le_add_right ..).trans ((hcnt (fun peer _ => peer.ip = ip)).le.trans (hJ ip))
  | entered k t henters _ hget hphase hcnt hsec =>
    have hrec : s.recheck e = true ↔ s.liveAt t.peer.ip < P.maxConnectionsPerIp := by
      rw [recheck, henters, bind_some, hget, all_some,
        checkConnection_isOk_iff (hs.limits henable hm), hs.policy, hs.exact]
      exact and_iff_right (hs.allowed k t hget hphase)
    have hlive : ∀ ip, s'.liveAt ip = s.liveAt ip + if t.peer.ip = ip then 1 else 0 := by
      intro ip
      simpa [liveAt] using hcnt (fun peer _ => peer.ip = ip)
    rw [hrec]
    constructor
    · intro h'
      have hown := h' t.peer.ip
      rw [hlive, if_pos rfl] at hown
      exact hown
    · intro hlt ip
      rw [hlive]
      split_ifs with hip
      · exact hip ▸ hlt
      · exact hJ ip

/-- **The limit of an address is a bound exactly if every connection that is counted would still be
    let pass**, under a policy that is not replaced. -/
theorem perIpBound_always_iff {config : Settings} {m : Nat} {es : List ListenerEvent}
    {s : Listeners} (henabled : (start config).security.policy.enabled = true)
    (hlimit : (start config).security.policy.maxConnectionsPerIp = m) (hm : 0 < m)
    (hfixed : ∀ e ∈ es, ∀ cfg, e ≠ .reload cfg) (hrun : run step (start config) es = some s) :
    Always step (PerIpBound m) (start config) es ↔
      Meets step (fun s e => s.recheck e = true) (start config) es := by
  subst hlimit
  refine run_always_iff (E := fun e => ∀ cfg, e ≠ .reload cfg)
    (I := Enforces (start config).security.policy)
    (fun _ _ _ hE hs h => step_enforces henabled hm hE hs h)
    (fun _ _ _ _ hs hJ h => step_perIpBound_iff henabled hm hs hJ h) hfixed ?_ ?_ hrun
  · refine ⟨numbered_start config, rfl, ?_, ?_⟩
    · intro ip
      rw [start_ipCounter]
      rfl
    · intro k t h
      simp [start] at h
  · intro ip
    exact Nat.zero_le _

theorem perIpBound_always_iff_one : ∃ s,
    run step (start onePerIp) (admits clientAddr ++ connects 0) = some s ∧
    Always step (PerIpBound 1) (start onePerIp) (admits clientAddr ++ connects 0) := by
  obtain ⟨s, hrun, -⟩ := exists_run step (start onePerIp) (admits clientAddr ++ connects 0)
    (fun _ => true) (by decide +kernel)
  refine ⟨s, hrun, (perIpBound_always_iff (by decide +kernel) (by decide +kernel) (by decide) ?_
    hrun).2 ?_⟩
  · rintro e he cfg rfl
    simp [admits, connects] at he
  · exact meets_of_check recheck (fun _ _ h => h) (by decide +kernel)

/-- Two connections of one address are let pass before either of them is counted. -/
def racingRun : List ListenerEvent :=
  admits clientAddr ++ admits clientAddr ++
    [.task 0 .checkConnection, .task 1 .checkConnection, .task 0 .onConnect, .task 1 .onConnect]

/-- **Two connections of an address that may have one.** -/
theorem racing_checks_exceed : ∃ s, run step (start onePerIp) racingRun = some s ∧
    (start onePerIp).security.policy.maxConnectionsPerIp = 1 ∧ s.liveAt clientAddr.ip = 2 ∧
    ¬ s.PerIpBound 1 := by
  obtain ⟨s, hrun, hs⟩ := exists_run step (start onePerIp) racingRun
    (fun s => s.liveAt clientAddr.ip == 2) (by decide +kernel)
  rw [beq_iff_eq] at hs
  refine ⟨s, hrun, by decide +kernel, hs, fun h => ?_⟩
  exact absurd (h clientAddr.ip) (by simp [hs])

/-! ## The limit of all connections -/

/-- The connections that were admitted and are not closed. -/
def openCount (s : Listeners) : Nat := s.tasks.count (fun t => t.phase.isOpen)

/-- What a loop has read before it admits a connection covers the connections that are open: those
    that are on their way to be counted are none, or are made up for. -/
def covers (s : Listeners) : ListenerEvent → Bool
  | .decide l =>
    match s.loops l with
    | .sawPending _ current pending =>
      s.atLimit current pending || (s.openCount : Int) ≤ current + pending
    | _ => true
  | _ => true

/-- Only an admission adds to the open connections. -/
theorem step_openCount (hs : s.Numbered) (h : s.step e = some s') :
    s'.openCount ≤ s.openCount ∨ s'.openCount = s.openCount + 1 ∧
      ∃ l peer current pending, e = .decide l ∧ s.loops l = .sawPending peer current pending ∧
        s.atLimit current pending = false := by
  cases (step_change h).2 with
  | quiet _ _ htasks => exact .inl (by rw [openCount, htasks, openCount])
  | spawned l peer current pending phase he hloop hroom hphase htasks =>
    refine .inr ⟨?_, l, peer, current, pending, he, hloop, hroom⟩
    rw [openCount, htasks, count_insert_of_none _ _ hs.nextTask]
    rcases hphase with rfl | rfl <;> rfl
  | put k t t' hget hopen htasks =>
    left
    have hcount := count_insert (fun t => t.phase.isOpen) s.tasks k t'
    rw [hget, any_some] at hcount
    rw [openCount, htasks, openCount]
    by_cases h' : t'.phase.isOpen = true
    · rw [if_pos h', if_pos (hopen h')] at hcount
      exact (Nat.add_right_cancel hcount).le
    · rw [if_neg h', Nat.add_zero] at hcount
      exact (Nat.le_add_right ..).trans hcount.le
  | dropped k t _ _ hget _ htasks =>
    left
    have hcount := count_erase (fun t => t.phase.isOpen) s.tasks k
    rw [openCount, htasks, openCount]
    exact (Nat.le_add_right ..).trans hcount.le

/-- **The limit is a bound on the open connections if the readings of a loop cover them** whenever
    it admits one. -/
theorem openCount_le_of_covers {config : Settings} {es : List ListenerEvent}
    (hmeets : Meets step (fun s e => s.covers e = true) (start config) es) :
    Always step (fun s => s.openCount ≤ config.broker.maxConnections) (start config) es := by
  refine always_of_meets (I := fun s => s.Numbered ∧
    s.maxConnections = config.broker.maxConnections ∧
    s.openCount ≤ config.broker.maxConnections) (fun _ hs => hs.2.2) ?_
    ⟨numbered_start config, rfl, Nat.zero_le _⟩ hmeets
  rintro s s' e ⟨hnum, hmax, hle⟩ hcovers h
  refine ⟨step_numbered h hnum, (step_change h).1.maxConnections.trans hmax, ?_⟩
  rcases step_openCount hnum h with hsame | ⟨hone, l, peer, current, pending, rfl, hloop, hroom⟩
  · exact hsame.trans hle
  · simp only [covers, hloop, hroom, Bool.false_or, decide_eq_true_eq] at hcovers
    simp only [atLimit, hmax, Bool.or_eq_false_iff, decide_eq_false_iff_not, not_lt, not_le] at hroom
    omega

/-- A broker that may have one connection. -/
def oneConnection : Settings := { broker := { maxConnections := 1 } }

/-- The second connection comes when the first one is counted, and is refused. -/
def waitingRun : List ListenerEvent := admits clientAddr ++ connects 0 ++ admits clientAddr

theorem openCount_le_of_covers_waiting : ∃ s, run step (start oneConnection) waitingRun = some s ∧
    Always step (fun s => s.openCount ≤ oneConnection.broker.maxConnections) (start oneConnection)
      waitingRun := by
  obtain ⟨s, hrun, -⟩ := exists_run step (start oneConnection) waitingRun (fun _ => true)
    (by decide +kernel)
  refine ⟨s, hrun, openCount_le_of_covers ?_⟩
  exact meets_of_check covers (fun _ _ h => h) (by decide +kernel)

/-- **Two connections where one is allowed**: the loop admits the second before the task of the
    first has counted it. -/
theorem uncounted_admission_exceeds : ∃ s,
    run step (start oneConnection) (admits clientAddr ++ admits clientAddr) = some s ∧
    (start oneConnection).maxConnections = 1 ∧ s.openCount = 2 := by
  obtain ⟨s, hrun, hs⟩ := exists_run step (start oneConnection)
    (admits clientAddr ++ admits clientAddr) (fun s => s.openCount == 2) (by decide +kernel)
  exact ⟨s, hrun, rfl, beq_iff_eq.1 hs⟩

end Listeners

end LumenMQ
