import LumenMQ.BrokerCalls

set_option autoImplicit false

/-! # Cleaning up while the client connects again

A task cleans up after a session of a client: at the end of a connection, at a tick of the expiry
sweeper or on request of an administrator. At the same time a new connection of the client registers
and subscribes. Each of the two makes its calls one by one, and the calls come in any order. The
epoch protects the entry of the new session from the end of an older connection; nothing protects
its subscriptions and its snapshot, nor its entry from the administrator. -/

namespace LumenMQ

open Option List SessionManager BrokerState

/-- The task that cleans up. -/
inductive Cleaner where
  /-- An older connection of the client has ended. -/
  | cleanup (epoch : Nat) (clean : Bool)
  /-- The tick of the expiry sweeper. -/
  | sweepExpired
  /-- The request of an administrator. -/
  | deleteSession

namespace Cleaner

def calls (clientId : String) : Cleaner → List BrokerCall
  | .cleanup epoch clean => BrokerCall.cleanup clientId epoch clean
  | .sweepExpired => [.cleanupExpired]
  | .deleteSession => [.isOnline clientId]

/-- What the calls do if nothing comes in between. -/
def whole (b : BrokerState) (clientId : String) : Cleaner → BrokerState
  | .cleanup epoch clean => b.cleanup clientId epoch clean
  | .sweepExpired => b.sweepExpired
  | .deleteSession => (b.deleteSession clientId).2

theorem performs_calls (b : BrokerState) (clientId : String) (cleaner : Cleaner) :
    b.Performs (cleaner.calls clientId) (cleaner.whole b clientId) := by
  cases cleaner with
  | cleanup epoch clean => exact b.performs_cleanup clientId epoch clean
  | sweepExpired => exact b.performs_sweepExpired
  | deleteSession => exact b.performs_deleteSession clientId

/-- A connection that ends had got its epoch before. -/
def Older (n : Nat) : Cleaner → Prop
  | .cleanup epoch _ => epoch ≤ n
  | _ => True

end Cleaner

/-- What the new connection does, once it has registered. -/
inductive ConnectionAct where
  /-- A SUBSCRIBE; these are the topics that pass the connection's own checks. -/
  | subscribe (topics : List (String × QoS))
  /-- The offline messages have been replayed. -/
  | clearDiskOffline

def ConnectionAct.calls (clientId : String) : ConnectionAct → List BrokerCall
  | .subscribe topics =>
    topics.map (fun t => .subscribe clientId t.1 t.2) ++ BrokerCall.persist clientId
  | .clearDiskOffline => [.drainOffline clientId]

structure CleanupRace where
  broker : BrokerState
  clientId : String
  /-- The calls that the cleaning task has still to make. -/
  cleaner : List BrokerCall
  /-- The calls that the new connection has still to make. -/
  connection : List BrokerCall
  /-- The epoch of the new connection. -/
  epoch : Option Nat := none
  /-- The filters that were acknowledged to it with a success code. -/
  acknowledged : List String := []
  /-- Whether it has saved a snapshot. The source does not keep this. -/
  saved : Bool := false

inductive CleanupEvent where
  /-- The next call of the cleaning task. -/
  | clean
  /-- The next call of the new connection. -/
  | connect
  | elapse (d : Duration)

namespace CleanupRace

variable {rest : List BrokerCall} {call : BrokerCall}

def start (b : BrokerState) (cleaner : Cleaner) (args : RegisterArgs) (acts : List ConnectionAct) :
    CleanupRace :=
  { broker := b
    clientId := args.clientId
    cleaner := cleaner.calls args.clientId
    connection := .register args :: acts.flatMap (ConnectionAct.calls args.clientId) }

/-- What the new connection learns from a call. -/
def learn (s : CleanupRace) : BrokerCall → CleanupRace
  | .register args => { s with epoch := some (s.broker.sessions.registerWith s.broker.now args).epoch }
  | .subscribe c filter qos =>
    match (s.broker.subscriptions.subscribe c filter qos).1 with
    | .ok () => { s with acknowledged := filter :: s.acknowledged }
    | .error _ => s
  | .saveSession _ _ => { s with saved := true }
  | _ => s

def step (s : CleanupRace) : CleanupEvent → Option CleanupRace
  | .clean =>
    match s.cleaner with
    | [] => none
    | call :: rest =>
      let (broker, next) := s.broker.perform call
      some { s with broker, cleaner := next ++ rest }
  | .connect =>
    match s.connection with
    | [] => none
    | call :: rest =>
      let (broker, next) := s.broker.perform call
      some { s.learn call with broker, connection := next ++ rest }
  | .elapse d => some { s with broker := { s.broker with now := s.broker.now + d } }

/-- Both have made all their calls. -/
def Finished (s : CleanupRace) : Prop := s.cleaner = [] ∧ s.connection = []

/-- The new session has not been harmed: once the connection has registered, its entry is there and
    online; every filter that was acknowledged to it is in the subscription tree, and in the end
    also in the snapshot, if the session is persistent and there is storage. -/
structure Unharmed (s : CleanupRace) (cleanSession : Bool) : Prop where
  registered : s.Finished → s.epoch.isSome = true
  entry : ∀ epoch, s.epoch = some epoch → ∃ e, s.broker.sessions.get s.clientId = some e ∧
    e.epoch = epoch ∧ e.connected = true
  filters : ∀ f ∈ s.acknowledged, s.broker.subscriptions.has s.clientId f = true
  stored : s.Finished → cleanSession = false → s.broker.storage.isSome = true →
    ∀ f ∈ s.acknowledged, f ∈ s.broker.storedFilters s.clientId

/-- The call that the cleaning task is going to make comes in time: it removes the client's entry
    only before the new connection registers, unsubscribes the client only while no filter has been
    acknowledged, and touches the snapshot only before the new connection has saved one, unless what
    it saves contains all acknowledged filters. -/
def spares (s : CleanupRace) : CleanupEvent → Bool
  | .clean =>
    match s.cleaner with
    | .remove c :: _ => c ≠ s.clientId ∨ s.epoch = none
    | .unsubscribeAll c :: _ => c ≠ s.clientId ∨ s.acknowledged = []
    | .deleteSession c :: _ => c ≠ s.clientId ∨ s.saved = false
    | .saveSession c subscriptions :: _ =>
      c ≠ s.clientId ∨ s.saved = false ∨ ∀ f ∈ s.acknowledged, f ∈ subscriptions.map Prod.fst
    | _ => true
  | _ => true

/-- Calls that are made one after the other are a run. -/
theorem exists_run_of_performs {b b' : BrokerState} {calls : List BrokerCall}
    (h : b.Performs calls b') (s : CleanupRace) :
    ∃ k, Runs.run step { s with broker := b, cleaner := calls } (List.replicate k .clean) =
      some { s with broker := b', cleaner := [] } := by
  induction h with
  | nil b => exact ⟨0, rfl⟩
  | cons _ ih =>
    obtain ⟨k, hk⟩ := ih
    exact ⟨k + 1, Runs.run_cons.2 ⟨_, rfl, hk⟩⟩

/-- Without the new connection in between, the cleaning task does what its operation does. -/
theorem exists_run_clean (b : BrokerState) (cleaner : Cleaner) (args : RegisterArgs)
    (acts : List ConnectionAct) :
    ∃ k, Runs.run step (start b cleaner args acts) (List.replicate k .clean) =
      some { start b cleaner args acts with
        broker := cleaner.whole b args.clientId, cleaner := [] } :=
  exists_run_of_performs (cleaner.performs_calls b args.clientId) (start b cleaner args acts)

/-! ## The calls of the new connection -/

/-- Calls that a connection makes between two SUBSCRIBEs: every subscription will be followed by a
    snapshot. -/
inductive Plan (c : String) : List BrokerCall → Prop
  | nil : Plan c []
  | subscribe {filter : String} {qos : QoS} {rest : List BrokerCall}
      (hpersist : .isCleanSession c ∈ rest) (hrest : Plan c rest) :
      Plan c (.subscribe c filter qos :: rest)
  | persist {rest : List BrokerCall} (hrest : Plan c rest) : Plan c (.isCleanSession c :: rest)
  | clear {rest : List BrokerCall} (hrest : Plan c rest) : Plan c (.drainOffline c :: rest)

theorem plan_act {c : String} (act : ConnectionAct) (hrest : Plan c rest) :
    Plan c (act.calls c ++ rest) := by
  cases act with
  | clearDiskOffline => exact .clear hrest
  | subscribe topics =>
    rw [ConnectionAct.calls, append_assoc]
    induction topics with
    | nil => exact .persist hrest
    | cons topic topics ih =>
      refine .subscribe ?_ ih
      simp [BrokerCall.persist]

theorem plan_acts (c : String) (acts : List ConnectionAct) :
    Plan c (acts.flatMap (ConnectionAct.calls c)) := by
  induction acts with
  | nil => exact .nil
  | cons act acts ih =>
    rw [flatMap_cons]
    exact plan_act act ih

/-- How far the connection is with its SUBSCRIBEs. -/
inductive Serves (s : CleanupRace) (cleanSession : Bool) : Prop
  /-- Every acknowledged filter is in the snapshot, or a snapshot is still to be taken. -/
  | planned (hplan : Plan s.clientId s.connection)
      (hstored : cleanSession = false → s.broker.storage.isSome = true → ∀ f ∈ s.acknowledged,
        .isCleanSession s.clientId ∈ s.connection ∨
          s.saved = true ∧ f ∈ s.broker.storedFilters s.clientId)
  /-- A snapshot is to be taken now. -/
  | reading (rest : List BrokerCall)
      (hcalls : s.connection = .subscriptionsOf s.clientId :: rest) (hplan : Plan s.clientId rest)
  /-- What is going to be saved has all acknowledged filters. -/
  | saving (subscriptions : List (String × QoS)) (rest : List BrokerCall)
      (hcalls : s.connection = .saveSession s.clientId subscriptions :: rest)
      (hplan : Plan s.clientId rest)
      (hread : ∀ f ∈ s.acknowledged, f ∈ subscriptions.map Prod.fst)

/-- How far the connection is. The epochs up to `n` are those of the connections before. -/
inductive Stage (s : CleanupRace) (args : RegisterArgs) (n : Nat) : Prop
  | connecting (rest : List BrokerCall) (hcalls : s.connection = .register args :: rest)
      (hplan : Plan s.clientId rest) (hepoch : s.epoch = none) (hnone : s.acknowledged = [])
      (hcounter : s.broker.sessions.epochCounter = n)
  | connected (e : SessionEntry) (hepoch : s.epoch = some e.epoch)
      (hget : s.broker.sessions.get s.clientId = some e) (hnew : n < e.epoch)
      (hconnected : e.connected = true) (hclean : e.cleanSession = args.cleanSession)
      (hfilters : ∀ f ∈ s.acknowledged,
        f ∈ (s.broker.subscriptions.subscriptionsOf s.clientId).map Prod.fst)
      (hserves : s.Serves args.cleanSession)

/-- What holds as long as the cleaning task spares the new session. -/
structure Spared (s : CleanupRace) (args : RegisterArgs) (n : Nat) : Prop where
  client : args.clientId = s.clientId
  cleaner : ∀ call ∈ s.cleaner, call.isOfCleaner n = true
  sound : s.broker.subscriptions.Sound
  stage : s.Stage args n

/-! ## The calls of the cleaning task -/

variable {s s' : CleanupRace} {args : RegisterArgs} {n : Nat}

/-- What it means for a call to come in time. -/
structure InTime (s : CleanupRace) (call : BrokerCall) : Prop where
  remove : call = .remove s.clientId → s.epoch = none
  unsubscribeAll : call = .unsubscribeAll s.clientId → s.acknowledged = []
  deleteSession : call = .deleteSession s.clientId → s.saved = false
  saveSession : ∀ subscriptions, call = .saveSession s.clientId subscriptions →
    s.saved = false ∨ ∀ f ∈ s.acknowledged, f ∈ subscriptions.map Prod.fst

theorem inTime_of_spares (hcleaner : s.cleaner = call :: rest) (h : s.spares .clean = true) :
    s.InTime call := by
  simp only [spares, hcleaner] at h
  refine ⟨?_, ?_, ?_, ?_⟩
  · rintro rfl
    simpa using h
  · rintro rfl
    simpa using h
  · rintro rfl
    simpa using h
  · rintro subscriptions rfl
    simpa using h

/-- A call in time leaves the acknowledged filters in the tree. -/
theorem InTime.subscriptionsOf (h : s.InTime call) (hcall : call.isOfCleaner n = true)
    (hfs : ∀ f ∈ s.acknowledged,
      f ∈ (s.broker.subscriptions.subscriptionsOf s.clientId).map Prod.fst) : ∀ f ∈ s.acknowledged,
      f ∈ ((s.broker.perform call).1.subscriptions.subscriptionsOf s.clientId).map Prod.fst := by
  by_cases hunsub : call = .unsubscribeAll s.clientId
  · rw [h.unsubscribeAll hunsub]
    simp
  · rw [perform_subscriptionsOf hcall hunsub]
    exact hfs

/-- A call in time leaves them in the snapshot that the connection has saved. -/
theorem InTime.storedFilters (h : s.InTime call) {f : String} (hf : f ∈ s.acknowledged)
    (hstore : s.broker.storage.isSome = true) (hsaved : s.saved = true)
    (hstored : f ∈ s.broker.storedFilters s.clientId) :
    f ∈ (s.broker.perform call).1.storedFilters s.clientId := by
  by_cases hsave : ∃ subscriptions, call = .saveSession s.clientId subscriptions
  · obtain ⟨subscriptions, rfl⟩ := hsave
    rw [storedFilters_saveSession hstore]
    rcases h.saveSession subscriptions rfl with hnot | hall
    · simp [hsaved] at hnot
    · exact hall f hf
  · have hdel : call ≠ .deleteSession s.clientId := by
      intro hdel
      simp [h.deleteSession hdel] at hsaved
    rw [perform_storedFilters hdel (fun subs hcall => hsave ⟨subs, hcall⟩)]
    exact hstored

/-- **A call in time spares the new session.** -/
theorem clean_spared (h : s.step .clean = some s') (hspares : s.spares .clean = true)
    (hs : s.Spared args n) : s'.Spared args n := by
  simp only [step] at h
  split at h
  · simp at h
  · next call rest hcleaner =>
    obtain rfl := some.inj h
    have hintime := inTime_of_spares hcleaner hspares
    have hcs := hs.cleaner
    rw [hcleaner, forall_mem_cons] at hcs
    obtain ⟨hcall, hrest⟩ := hcs
    refine ⟨hs.client, ?_, perform_sound call hs.sound, ?_⟩
    · intro call' hmem
      rcases mem_append.1 hmem with hmem | hmem
      · exact perform_isOfCleaner hcall call' hmem
      · exact hrest call' hmem
    · cases hs.stage with
      | connecting rest hcs hplan hep hnone hctr =>
        exact .connecting rest hcs hplan hep hnone
          ((perform_epochCounter hcall).trans hctr)
      | connected e hep hget hnew hconn hclean hfs hserve =>
        have hrem : call ≠ .remove s.clientId := by
          intro hrem
          simp [hintime.remove hrem] at hep
        refine .connected e hep
          (perform_get hcall hrem hget hnew hconn) hnew hconn hclean
          (hintime.subscriptionsOf hcall hfs) ?_
        cases hserve with
        | planned hplan hstored =>
          refine .planned hplan ?_
          intro hpersist hstore f hf
          have hstore : s.broker.storage.isSome = true :=
            (s.broker.perform_storage_isSome call).symm.trans hstore
          rcases hstored hpersist hstore f hf with hpend | ⟨hsaved, hin⟩
          · exact .inl hpend
          · exact .inr ⟨hsaved, hintime.storedFilters hf hstore hsaved hin⟩
        | reading rest hcs hplan => exact .reading rest hcs hplan
        | saving subscriptions rest hcs hplan hread =>
          exact .saving subscriptions rest hcs hplan hread

/-! ## The calls of the connection -/

/-- Registering enters the new session. -/
theorem register_spared (hcl : args.clientId = s.clientId) (hplan : Plan s.clientId rest)
    (hnone : s.acknowledged = []) (hctr : s.broker.sessions.epochCounter = n) :
    Stage { s.learn (.register args) with
      broker := (s.broker.perform (.register args)).1
      connection := rest } args n := by
  have hget : (s.broker.sessions.registerWith s.broker.now args).sessions.get s.clientId =
      some (s.broker.sessions.newEntry s.broker.now args.clientId args.cleanSession args.tx
        args.will args.protocolLevel args.peerAddr (s.broker.sessions.epochCounter + 1)
        args.sessionExpiry) := by
    rw [registerWith, register_get, if_pos hcl.symm]
  have hack : ∀ f, f ∉ (s.learn (.register args)).acknowledged := by
    intro f hf
    rw [show (s.learn (.register args)).acknowledged = s.acknowledged from rfl, hnone] at hf
    simp at hf
  refine .connected _ rfl hget ?_ rfl rfl (fun f hf => absurd hf (hack f)) ?_
  · rw [← hctr]
    exact Nat.lt_succ_self _
  · exact .planned hplan (fun _ _ f hf => absurd hf (hack f))

/-- A subscription is entered, and acknowledged if it was accepted. -/
theorem subscribe_filters (s : CleanupRace) (filter : String) (qos : QoS)
    (hfs : ∀ f ∈ s.acknowledged,
      f ∈ (s.broker.subscriptions.subscriptionsOf s.clientId).map Prod.fst) :
    ∀ f ∈ (s.learn (.subscribe s.clientId filter qos)).acknowledged,
      f ∈ ((s.broker.subscriptions.subscribe s.clientId filter qos).2.subscriptionsOf
        s.clientId).map Prod.fst := by
  intro f hf
  unfold learn at hf
  rcases hsub : s.broker.subscriptions.subscribe s.clientId filter qos with ⟨err | ⟨⟩, t⟩
  · simp only [hsub] at hf
    have hsame := SubscriptionTree.subscribe_error (congrArg Prod.fst hsub)
    rw [hsub] at hsame
    exact hsame ▸ hfs f hf
  · simp only [hsub] at hf
    rw [SubscriptionTree.subscriptionsOf_subscribe _ _ _ _ hsub, if_pos rfl, mem_upsertFilter_fst]
    rcases mem_cons.1 hf with rfl | hf
    · exact .inl rfl
    · exact .inr (hfs f hf)

/-- A SUBSCRIBE goes on. -/
theorem serve_spared {e : SessionEntry} (hcs : s.connection = call :: rest)
    (hep : s.epoch = some e.epoch) (hget : s.broker.sessions.get s.clientId = some e)
    (hnew : n < e.epoch) (hconn : e.connected = true)
    (hclean : e.cleanSession = args.cleanSession) (hfs : ∀ f ∈ s.acknowledged,
      f ∈ (s.broker.subscriptions.subscriptionsOf s.clientId).map Prod.fst)
    (hserve : s.Serves args.cleanSession) : Stage { s.learn call with
      broker := (s.broker.perform call).1
      connection := (s.broker.perform call).2 ++ rest } args n := by
  cases hserve with
  | planned hplan hstored =>
    rw [hcs] at hplan hstored
    cases hplan with
    | @subscribe filter qos _ hpers hrest =>
      obtain ⟨acknowledged, hlearn⟩ : ∃ acknowledged,
          s.learn (.subscribe s.clientId filter qos) = { s with acknowledged } := by
        dsimp only [learn]
        split <;> exact ⟨_, rfl⟩
      have hfs := subscribe_filters s filter qos hfs
      rw [hlearn] at hfs ⊢
      exact .connected e hep hget hnew hconn hclean hfs
        (.planned hrest (fun _ _ f hf => .inl hpers))
    | persist hrest =>
      by_cases hskip :
        (s.broker.storage.isNone || s.broker.sessions.isCleanSession s.clientId) = true
      · have hperform : s.broker.perform (.isCleanSession s.clientId) = (s.broker, []) := by
          simp only [perform, if_pos hskip]
        rw [hperform]
        refine .connected e hep hget hnew hconn hclean hfs (.planned hrest ?_)
        intro hpersist hstore
        have hstore : s.broker.storage.isSome = true := hstore
        simp [isNone_eq_false_iff.2 hstore, isCleanSession, hget, hclean,
          hpersist] at hskip
      · have hperform : s.broker.perform (.isCleanSession s.clientId) =
            (s.broker, [.subscriptionsOf s.clientId]) := by
          simp only [perform, if_neg hskip]
        rw [hperform]
        exact .connected e hep hget hnew hconn hclean hfs (.reading rest rfl hrest)
    | clear hrest =>
      refine .connected e hep hget hnew hconn hclean hfs (.planned hrest ?_)
      intro hpersist hstore f hf
      have hstore : s.broker.storage.isSome = true :=
        (s.broker.perform_storage_isSome (.drainOffline s.clientId)).symm.trans hstore
      rcases hstored hpersist hstore f hf with hpend | ⟨hsaved, hin⟩
      · have hpend : .isCleanSession s.clientId ∈ rest := by simpa using hpend
        exact .inl hpend
      · refine .inr ⟨hsaved, ?_⟩
        show f ∈ (s.broker.perform (.drainOffline s.clientId)).1.storedFilters s.clientId
        rw [perform_storedFilters (by simp) (by simp)]
        exact hin
  | reading rest' hcs' hplan =>
    obtain ⟨rfl, rfl⟩ := cons.inj (hcs.symm.trans hcs')
    by_cases hnone : s.broker.subscriptions.subscriptionsOf s.clientId = []
    · have hperform : s.broker.perform (.subscriptionsOf s.clientId) = (s.broker, []) := by
        simp only [perform, if_pos hnone]
      rw [hperform]
      refine .connected e hep hget hnew hconn hclean hfs (.planned hplan ?_)
      intro _ _ f hf
      have hlisted := hfs f hf
      rw [hnone] at hlisted
      simp at hlisted
    · have hperform : s.broker.perform (.subscriptionsOf s.clientId) = (s.broker,
          [.saveSession s.clientId (s.broker.subscriptions.subscriptionsOf s.clientId)]) := by
        simp only [perform, if_neg hnone]
      rw [hperform]
      exact .connected e hep hget hnew hconn hclean hfs
        (.saving _ rest rfl hplan hfs)
  | saving subscriptions rest' hcs' hplan hread =>
    obtain ⟨rfl, rfl⟩ := cons.inj (hcs.symm.trans hcs')
    refine .connected e hep hget hnew hconn hclean hfs (.planned hplan ?_)
    intro _ hstore f hf
    have hstore : s.broker.storage.isSome = true :=
      (s.broker.perform_storage_isSome (.saveSession s.clientId subscriptions)).symm.trans hstore
    refine .inr ⟨rfl, ?_⟩
    show f ∈ (s.broker.perform (.saveSession s.clientId subscriptions)).1.storedFilters s.clientId
    rw [storedFilters_saveSession hstore]
    exact hread f hf

theorem connect_spared (h : s.step .connect = some s') (hs : s.Spared args n) :
    s'.Spared args n := by
  simp only [step] at h
  split at h
  · simp at h
  · next call rest hcs =>
    obtain rfl := some.inj h
    have hlearn : (s.learn call).clientId = s.clientId ∧ (s.learn call).cleaner = s.cleaner := by
      cases call with
      | subscribe c filter qos =>
        dsimp only [learn]
        split <;> exact ⟨rfl, rfl⟩
      | _ => exact ⟨rfl, rfl⟩
    refine ⟨hs.client.trans hlearn.1.symm, ?_, perform_sound call hs.sound, ?_⟩
    · show ∀ call' ∈ (s.learn call).cleaner, _
      rw [hlearn.2]
      exact hs.cleaner
    · cases hs.stage with
      | connecting rest' hcs' hplan hep hnone hctr =>
        obtain ⟨rfl, rfl⟩ := cons.inj (hcs.symm.trans hcs')
        exact register_spared hs.client hplan hnone hctr
      | connected e hep hget hnew hconn hclean hfs hserve =>
        exact serve_spared hcs hep hget hnew hconn hclean hfs hserve

/-! ## Whole runs -/

theorem step_spared {e : CleanupEvent} (h : s.step e = some s') (hspares : s.spares e = true)
    (hs : s.Spared args n) : s'.Spared args n := by
  cases e with
  | clean => exact clean_spared h hspares hs
  | connect => exact connect_spared h hs
  | elapse d =>
    obtain rfl := some.inj h
    refine ⟨hs.client, hs.cleaner, hs.sound, ?_⟩
    cases hs.stage with
    | connecting rest hcs hplan hep hnone hctr =>
      exact .connecting rest hcs hplan hep hnone hctr
    | connected e hep hget hnew hconn hclean hfs hserve =>
      refine .connected e hep hget hnew hconn hclean hfs ?_
      cases hserve with
      | planned hplan hstored => exact .planned hplan hstored
      | reading rest hcs hplan => exact .reading rest hcs hplan
      | saving subscriptions rest hcs hplan hread =>
        exact .saving subscriptions rest hcs hplan hread

theorem spared_start {b : BrokerState} (hsound : b.subscriptions.Sound) {cleaner : Cleaner}
    (holder : cleaner.Older b.sessions.epochCounter) (args : RegisterArgs)
    (acts : List ConnectionAct) :
    (start b cleaner args acts).Spared args b.sessions.epochCounter := by
  refine ⟨rfl, ?_, hsound, .connecting _ rfl (plan_acts args.clientId acts) rfl rfl rfl⟩
  cases cleaner with
  | cleanup epoch clean =>
    have hep : epoch ≤ b.sessions.epochCounter := holder
    cases clean <;> simp [start, Cleaner.calls, BrokerCall.cleanup, BrokerCall.isOfCleaner, hep]
  | sweepExpired => simp [start, Cleaner.calls, BrokerCall.isOfCleaner]
  | deleteSession => simp [start, Cleaner.calls, BrokerCall.isOfCleaner]

theorem unharmed_of_spared (hs : s.Spared args n) : s.Unharmed args.cleanSession := by
  cases hs.stage with
  | connecting rest hcs hplan hep hnone hctr =>
    refine ⟨?_, by simp [hep], by simp [hnone], by simp [hnone]⟩
    rintro ⟨-, hdone⟩
    simp [hdone] at hcs
  | connected e hep hget hnew hconn hclean hfs hserve =>
    refine ⟨fun _ => by rw [hep]; rfl, ?_, ?_, ?_⟩
    · intro epoch hep'
      exact ⟨e, hget, some.inj (hep.symm.trans hep'), hconn⟩
    · exact fun f hf => hs.sound.has_iff.2 (hfs f hf)
    · rintro ⟨-, hdone⟩ hpersist hstore f hf
      cases hserve with
      | planned hplan hstored =>
        rcases hstored hpersist hstore f hf with hpend | ⟨-, hin⟩
        · simp [hdone] at hpend
        · exact hin
      | reading rest hcs => simp [hdone] at hcs
      | saving subscriptions rest hcs => simp [hdone] at hcs

/-- **Cleaning up in time harms no new session.** In a run in which every call of the cleaning task
    that touches the client's entry, subscriptions or snapshot comes before the new connection has
    made its own, the new session keeps its entry, its filters and its snapshot. -/
theorem cleanup_unharmed {b : BrokerState} (hsound : b.subscriptions.Sound) {cleaner : Cleaner}
    (holder : cleaner.Older b.sessions.epochCounter) (args : RegisterArgs)
    (acts : List ConnectionAct) {es : List CleanupEvent}
    (hrun : Runs.run step (start b cleaner args acts) es = some s)
    (hmeets : Runs.Meets step (fun s e => s.spares e = true) (start b cleaner args acts) es) :
    s.Unharmed args.cleanSession :=
  unharmed_of_spared (Runs.run_invariant (I := fun s => s.Spared args b.sessions.epochCounter)
    (fun _ _ _ hs hspares hstep => step_spared hstep hspares hs)
    (spared_start hsound holder args acts) hmeets hrun)

/-- The client `a` connects. -/
def connects (cleanSession : Bool) : RegisterArgs where
  clientId := "a"
  cleanSession
  tx := 1
  will := none
  protocolLevel := mqtt311Level
  peerAddr := BrokerState.dummyAddr
  sessionExpiry := none

/-- A broker with storage, to which the client `a` has connected with a clean session. -/
def usedBroker : BrokerState :=
  (BrokerState.perform
    { config := {}
      sessions := .new 10 10
      retain := { maxPayloadBytes := 1024 }
      storage := some {}
      security := .disabled
      plugin := .new {}
      now := 0 } (.register (connects true))).1

/-- The connection ends, and the client connects with a session that is to be kept. -/
def reconnection : CleanupRace :=
  start usedBroker (.cleanup 1 true) (connects false) [.subscribe [("t", .atLeastOnce)]]

/-- The old connection is cleaned up first. -/
def orderlyRun : List CleanupEvent :=
  List.replicate 4 .clean ++ List.replicate 5 .connect

/-- The new connection comes between the removal of the entry and that of the subscriptions. -/
def overtakenRun : List CleanupEvent :=
  .clean :: List.replicate 5 .connect ++ List.replicate 3 .clean

def isFinished (s : CleanupRace) : Bool := s.cleaner.isEmpty && s.connection.isEmpty

theorem finished_of_isFinished (h : s.isFinished = true) : s.Finished := by
  simpa [isFinished, Finished] using h

theorem cleanup_unharmed_orderly : ∃ s, Runs.run step reconnection orderlyRun = some s ∧
    s.Finished ∧ s.acknowledged = ["t"] ∧ s.Unharmed false := by
  obtain ⟨s, hrun, hp⟩ := Runs.exists_run step reconnection orderlyRun
    (fun s => s.isFinished && s.acknowledged = ["t"]) (by decide +kernel)
  obtain ⟨hfinished, hacknowledged⟩ := Bool.and_eq_true_iff.1 hp
  refine ⟨s, hrun, finished_of_isFinished hfinished, of_decide_eq_true hacknowledged, ?_⟩
  have hsound : usedBroker.subscriptions.Sound := SubscriptionTree.sound_empty
  have holder : (Cleaner.cleanup 1 true).Older usedBroker.sessions.epochCounter := Nat.le_refl 1
  exact cleanup_unharmed hsound holder (connects false) _ hrun
    (Runs.meets_of_check spares (fun _ _ h => h) (by decide +kernel))

/-- The filter was acknowledged, but is neither in the tree nor in the snapshot. -/
theorem new_subscription_lost : ∃ s, Runs.run step reconnection overtakenRun = some s ∧
    s.Finished ∧ s.acknowledged = ["t"] ∧ s.broker.subscriptions.has "a" "t" = false ∧
    s.broker.storedFilters "a" = [] ∧ ¬ s.Unharmed false := by
  obtain ⟨s, hrun, hp⟩ := Runs.exists_run step reconnection overtakenRun
    (fun s => s.isFinished && (s.clientId = "a" ∧ s.acknowledged = ["t"] ∧
      s.broker.subscriptions.has "a" "t" = false ∧ s.broker.storedFilters "a" = []))
    (by decide +kernel)
  obtain ⟨hfinished, hp⟩ := Bool.and_eq_true_iff.1 hp
  obtain ⟨hclient, hacknowledged, htree, hstored⟩ := of_decide_eq_true hp
  refine ⟨s, hrun, finished_of_isFinished hfinished, hacknowledged, htree, hstored, ?_⟩
  intro hunharmed
  have hhas := hunharmed.filters "t" (by simp [hacknowledged])
  rw [hclient, htree] at hhas
  simp at hhas

end CleanupRace

end LumenMQ
