import LumenMQ.Archive
import LumenMQ.Subacks

set_option autoImplicit false

/-! # The limit on a client's subscriptions

A connection compares the limit with the filters that it has entered itself. The filters of a client
are those of its session, which outlives the connection, is written to disk and may belong to a
device of the gateway as well. The limit therefore bounds the client only as long as the connection
that subscribes knows all of the client's filters, or there is room for all it asks for. -/

namespace LumenMQ

variable {filter : String} {config : Settings} {now : Instant}

open Process SubscriptionTree Option
open Relation (ReflTransGen)

/-! ## The filters of a client -/

/-- The filters of a snapshot. -/
def SessionSnapshot.filters (snap : SessionSnapshot) : Finset String :=
  (snap.subscriptions.map Prod.fst).toFinset

namespace SubscriptionTree

/-- The filters of a client. -/
def filtersOf (t : SubscriptionTree) (c : String) : Finset String :=
  ((t.subscriptionsOf c).map Prod.fst).toFinset

theorem filtersOf_subscribe {t t' : SubscriptionTree} {c : String} {qos : QoS}
    (h : t.subscribe c filter qos = (.ok (), t')) (c' : String) :
    t'.filtersOf c' = if c' = c then insert filter (t.filtersOf c) else t.filtersOf c' := by
  unfold filtersOf
  rw [t.subscriptionsOf_subscribe c c' filter h]
  split_ifs
  · ext f
    rw [List.mem_toFinset, mem_upsertFilter_fst, Finset.mem_insert, List.mem_toFinset]
  · rfl

end SubscriptionTree

namespace BrokerState

variable {S : Scope} {b b' : BrokerState} {c : String}
variable {storage : Option Storage}

/-- A client that may not subscribe gets no new filter. -/
theorem Resubscribes.filtersOf_subset {t t' : SubscriptionTree} (h : Resubscribes S t t')
    (hsub : ¬ S.subscribes c) : t'.filtersOf c ⊆ t.filtersOf c := by
  cases h with
  | same => exact subset_rfl
  | turns topic =>
    unfold filtersOf
    rw [t.matchesShared_subscriptionsOf topic c]
  | subscribe c' filter qos _ hsub' hok =>
    rw [filtersOf_subscribe hok, if_neg]
    rintro rfl
    exact hsub hsub'
  | unsubscribe c' filter =>
    intro f hf
    have hsubs := List.map_subset Prod.fst (t.subscriptionsOf_unsubscribe_subset c' c filter)
    exact List.mem_toFinset.2 (hsubs (List.mem_toFinset.1 hf))
  | unsubscribeAll c' =>
    unfold filtersOf
    rw [t.subscriptionsOf_unsubscribeAll c' c]
    split_ifs
    · exact Finset.empty_subset _
    · exact subset_rfl

/-! ## The shared state -/

/-- No client has more filters than the limit allows, in the tree or on disk. -/
structure Modest (b : BrokerState) : Prop where
  listed : ∀ c, (b.subscriptions.filtersOf c).card ≤ b.config.broker.maxSubscriptionsPerClient
  filed : ∀ c snap, b.filed c = some (some snap) →
    snap.filters.card ≤ b.config.broker.maxSubscriptionsPerClient

theorem Move.modest (h : b.Move S b') (hsub : ∀ c, ¬ S.subscribes c) (hb : b.Modest) :
    b'.Modest := by
  refine ⟨fun c => ?_, fun c snap hsnap => ?_⟩
  · rw [h.limits_eq.1]
    exact (Finset.card_le_card (h.resubscribes.filtersOf_subset (hsub c))).trans (hb.listed c)
  · have hfound := h.found c
    rw [h.limits_eq.1]
    rw [hsnap] at hfound
    generalize hv : some (some snap) = v at hfound
    cases hfound with
    | same => exact hb.filed c snap hv.symm
    | saved =>
      cases hv
      exact hb.listed c
    | deleted => cases hv

theorem moves_config (h : Moves S b b') : b'.config = b.config := by
  induction h with
  | refl => rfl
  | tail _ hmove ih => exact hmove.limits_eq.1.trans ih

/-- A filter is entered for which there is room. -/
theorem Modest.subscribe (hb : b.Modest) {qos : QoS} {subscriptions : SubscriptionTree}
    (hok : b.subscriptions.subscribe c filter qos = (.ok (), subscriptions))
    (hroom : (insert filter (b.subscriptions.filtersOf c)).card ≤
      b.config.broker.maxSubscriptionsPerClient) : Modest { b with subscriptions } := by
  refine ⟨fun c' => ?_, hb.filed⟩
  show (subscriptions.filtersOf c').card ≤ b.config.broker.maxSubscriptionsPerClient
  rw [filtersOf_subscribe hok]
  split_ifs
  · exact hroom
  · exact hb.listed c'

/-- A start on snapshots that keep to the limit. -/
theorem new_modest (h : new config storage now = some b) (hfiled : ∀ s, storage = some s → s.Filed)
    (hroom : ∀ s c snap, storage = some s → s.snapshotOf c = some (some snap) →
      snap.filters.card ≤ config.broker.maxSubscriptionsPerClient) : b.Modest := by
  have hcfg := new_config h
  cases storage with
  | none =>
    rw [← some.inj h]
    refine ⟨fun c => Nat.zero_le _, fun c snap hsnap => ?_⟩
    simp [filed] at hsnap
  | some s =>
    refine ⟨fun c => ?_, fun c snap hsnap => ?_⟩
    · rw [hcfg, (new_restores h).1]
      unfold filtersOf
      rw [Storage.restoredTree_subscriptionsOf (hfiled s rfl)]
      split
      · next snap hsnap => exact hroom s c snap rfl hsnap
      · exact Nat.zero_le _
    · rw [hcfg]
      obtain ⟨s', hs', hsess, -⟩ := loadAll_storage rfl h
      unfold filed at hsnap
      rw [hs', bind_some, Storage.snapshotOf, hsess] at hsnap
      exact hroom s c snap rfl hsnap

end BrokerState

/-! ## A connection -/

namespace Task

variable {S : Scope} {p : Subscribe} {t t' : Task}

/-- The connection has not entered more filters than the limit allows. -/
def Sparing (t : Task) : Prop :=
  t.conn.myFilters.card ≤ t.broker.config.broker.maxSubscriptionsPerClient

theorem Exchanges.myFilters (h : t.Exchanges t') : t'.conn.myFilters = t.conn.myFilters := by
  obtain ⟨_, _, _, rfl⟩ := h
  rfl

/-- No move of a step enters more filters than the limit allows. -/
theorem Move.sparing (h : t.Move S t') (hS : ¬ S.exceeds) (ht : t.Sparing) : t'.Sparing := by
  have hsame : t'.conn.myFilters = t.conn.myFilters → t'.Sparing := by
    intro hfilters
    unfold Sparing
    rw [h.config_eq, hfilters]
    exact ht
  cases h with
  | live | replay | retained => exact hsame (exchanges_buildOutboundPacket ..).myFilters
  | puback id => exact hsame (t.exchanges_puback id).myFilters
  | pubrec id => exact hsame (t.exchanges_pubrec id).myFilters
  | books c _ hfilters => exact (hfilters.resolve_left hS).trans (max_le ht le_rfl)
  | _ => exact hsame rfl

/-! ### A SUBSCRIBE -/

/-- Every client keeps to the limit, and the filters of this one are among those that `F` makes of
    the filters the connection has entered. -/
structure Within (F : Finset String → Finset String) (t : Task) : Prop where
  modest : t.broker.Modest
  sparing : t.Sparing
  known : t.broker.subscriptions.filtersOf t.conn.clientId ⊆ F t.conn.myFilters
  room : (F t.conn.myFilters).card ≤ t.broker.config.broker.maxSubscriptionsPerClient

variable {F : Finset String → Finset String}

/-- One entry. What is accepted is known to the connection, or there is room for it among the
    filters it knows. -/
theorem Within.judge (ht : t.Within F) (a : SubscribeTopic)
    (hF : ∀ M, insert a.topicFilter (F M) ⊆ F (insert a.topicFilter M))
    (hroom : (insert a.topicFilter t.conn.myFilters).card ≤
        t.broker.config.broker.maxSubscriptionsPerClient →
      (F (insert a.topicFilter t.conn.myFilters)).card ≤
        t.broker.config.broker.maxSubscriptionsPerClient) : (t.judge a).2.Within F := by
  unfold Task.judge
  split_ifs with hadmits
  · have hown : (insert a.topicFilter t.conn.myFilters).card ≤
        t.broker.config.broker.maxSubscriptionsPerClient := by
      rcases hadmits.1 with hmem | hlt
      · rw [Finset.insert_eq_of_mem hmem]
        exact ht.sparing
      · exact (Finset.card_insert_le ..).trans hlt
    have hknown : insert a.topicFilter (t.broker.subscriptions.filtersOf t.conn.clientId) ⊆
        F (insert a.topicFilter t.conn.myFilters) :=
      (Finset.insert_subset_insert _ ht.known).trans (hF _)
    have hok : t.broker.subscriptions.subscribe t.conn.clientId a.topicFilter a.qos = (.ok (),
        (t.broker.subscriptions.subscribe t.conn.clientId a.topicFilter a.qos).2) :=
      Prod.ext ((subscribe_ok_iff ..).2 hadmits.2.2) rfl
    refine ⟨ht.modest.subscribe hok ((Finset.card_le_card hknown).trans (hroom hown)), hown, ?_,
      hroom hown⟩
    show (subscribe ..).2.filtersOf t.conn.clientId ⊆ _
    rw [filtersOf_subscribe hok, if_pos rfl]
    exact hknown
  · exact ht

theorem moves_modest (h : Moves S t t') (hsub : ∀ c, ¬ S.subscribes c) (ht : t.broker.Modest) :
    t'.broker.Modest := by
  induction h with
  | refl => exact ht
  | tail _ hmove ih =>
    rcases hmove.shared with hb | ⟨channels, trace, hb⟩
    · exact hb.modest hsub ih
    · rw [hb]
      exact ⟨ih.listed, ih.filed⟩

/-- Whether a SUBSCRIBE keeps the client within the limit: the connection has entered all of the
    client's filters itself, or there is room for all that is asked for. -/
def keepsLimit (t : Task) (p : Subscribe) : Bool :=
  let filters := t.broker.subscriptions.filtersOf t.conn.clientId
  let asked := (p.topics.map SubscribeTopic.topicFilter).toFinset
  filters ⊆ t.conn.myFilters ∨
    (filters ∪ asked).card ≤ t.broker.config.broker.maxSubscriptionsPerClient

/-- **The entries of a connection that knows its client's filters, or for which there is room, keep
    the limit.** -/
theorem modest_judgeAll (hmodest : t.broker.Modest) (hsparing : t.Sparing)
    (hlimit : t.keepsLimit p = true) : (t.judgeAll p.topics).broker.Modest := by
  unfold keepsLimit at hlimit
  rw [decide_eq_true_eq] at hlimit
  -- whatever bounds the filters of the client is kept by one entry after the other
  rcases hlimit with hown | hroom
  · refine Within.modest (F := id) (List.foldlRecOn p.topics _ ⟨hmodest, hsparing, hown, hsparing⟩ ?_)
    exact fun t ht a _ => ht.judge a (fun _ => subset_rfl) id
  · let known := t.broker.subscriptions.filtersOf t.conn.clientId ∪
      (p.topics.map SubscribeTopic.topicFilter).toFinset
    refine Within.modest (F := fun _ => known) (List.foldlRecOn p.topics _
      ⟨hmodest, hsparing, Finset.subset_union_left, hroom⟩ (fun t ht a ha => ?_))
    refine ht.judge a (fun _ => Finset.insert_subset (Finset.mem_union_right _ ?_) subset_rfl)
      (fun _ => ht.room)
    exact List.mem_toFinset.2 (List.mem_map_of_mem ha)

/-- What follows the entries enters no filter. -/
theorem keeps_answerSubscribe {t₀ : Task} (packetId : UInt16) (codes : List UInt8)
    (accepted : List SubscribeTopic) : Process.Keeps (Moves { subscribes := fun _ => False } t₀)
      (answerSubscribe packetId codes accepted) :=
  Keeps.bind (keeps_send (by simp)) (fun _ =>
    Keeps.bind (Keeps.forEach (fun a _ => keeps_deliverAllRetained a trivial))
      (fun _ => keeps_persistSnapshot (.inr trivial)))

theorem wp_modest_inboundArm (streamEnded : Bool) (hmodest : t.broker.Modest)
    (hsparing : t.Sparing) (hnext : t.nextInbound = some (.subscribe p))
    (hlimit : t.keepsLimit p = true) :
    wp (inboundArm streamEnded) (fun _ t' => t'.broker.Modest) t := by
  have hhandled : wp (handlePacket (.subscribe p)) (fun _ t' => t'.broker.Modest) t.received := by
    refine wp_seq (R := fun _ t' => t'.broker.Modest) ?_ (fun _ _ h => (wp_pure ..).2 h)
      (fun _ _ h => h)
    intro r t' hrun
    rw [handleSubscribe_eq] at hrun
    refine moves_modest (keeps_answerSubscribe _ _ _ _ .refl r t' hrun) (fun _ => not_false) ?_
    exact modest_judgeAll (t := t.received) hmodest hsparing hlimit
  intro r t' hrun
  rw [inboundArm_eq streamEnded hnext] at hrun
  obtain ⟨⟨r1, t1⟩, hrun1, heq⟩ := map_eq_some_iff.1 hrun
  cases heq
  rcases r1 with e | _ | _ <;> exact hhandled _ t1 hrun1

end Task

/-! ## The gateway -/

namespace Gateway

/-- The client and the filter of a SUBSCRIBE of a device. -/
def subscription (g : Gateway) (peer : SocketAddr) (bytes : Bytes) : Option (String × String) :=
  match parsePacket (bytes.take 65535) with
  | .ok (.subscribe _ _ topic) =>
    (g.clients.get peer).map (fun c => (c.clientId, fromUtf8Lossy topic))
  | _ => none

/-- A SUBSCRIBE of a device for which there is room. -/
theorem datagram_modest {g g' : Gateway} {peer : SocketAddr} {bytes : Bytes} {c : String}
    (hsub : g.subscription peer bytes = some (c, filter))
    (hroom : (insert filter (g.broker.subscriptions.filtersOf c)).card ≤
      g.broker.config.broker.maxSubscriptionsPerClient) (hg : g.broker.Modest)
    (h : g.datagram peer bytes = some g') : g'.broker.Modest := by
  unfold subscription at hsub
  unfold datagram at h
  split at hsub
  · next flags msgId topic hparse =>
    obtain ⟨device, hdev, heq⟩ := map_eq_some_iff.1 hsub
    cases heq
    simp only [hparse, handle, some.injEq] at h
    subst h
    unfold handleSubscribe
    rw [hdev]
    cases hqos : flagsToQos flags with
    | error rc => exact ⟨hg.listed, hg.filed⟩
    | ok qos =>
      dsimp only
      split
      · exact ⟨hg.listed, hg.filed⟩
      · next subscriptions hok =>
        have hmodest := hg.subscribe hok hroom
        exact ⟨hmodest.listed, hmodest.filed⟩
  · simp at hsub

end Gateway

/-! ## The system -/

namespace Sys

variable {S : Scope} {s s' : Sys}
variable {e : Event}

theorem Change.modest {b b' : BrokerState} (h : Change S b b') (hsub : ∀ c, ¬ S.subscribes c)
    (hrest : ¬ S.restarts) (hs : b.Modest) : b'.Modest := by
  cases h with
  | move b' hb => exact hb.modest hsub hs
  | frame | opened | registered => exact ⟨hs.listed, hs.filed⟩
  | restarted config b hrst => exact absurd hrst hrest

theorem Change.config_eq {b b' : BrokerState} (h : Change S b b') (hrest : ¬ S.restarts) :
    b'.config = b.config := by
  cases h with
  | move b' hb => exact hb.limits_eq.1
  | frame | opened | registered => rfl
  | restarted config b hrst => exact absurd hrst hrest

/-- Only a start takes up new settings. -/
theorem step_config (hstep : s.step e = some s') (he : ∀ config, e ≠ .restart config) :
    s'.broker.config = s.broker.config := by
  have hall : Allows { restarts := False } s e :=
    { allows_all s e with restarts := he }
  exact moves_invariant (I := fun s' => s'.broker.config = s.broker.config)
    (fun _ _ hs hmove => (hmove.change.config_eq not_false).trans hs) (step_moves hall hstep) rfl

/-- A step that brings no SUBSCRIBE and no new settings. -/
theorem step_modest (hstep : s.step e = some s') (hsub : s.subscriber e = none)
    (he : ∀ config, e ≠ .restart config) (hs : s.broker.Modest) : s'.broker.Modest := by
  have hall : Allows { subscribes := fun _ => False, restarts := False } s e :=
    { allows_all s e with
      subscribes := by
        intro c hc
        simp [hsub] at hc
      restarts := he }
  exact moves_invariant (I := fun s => s.broker.Modest)
    (fun _ _ hs hmove => hmove.change.modest (fun _ => not_false) not_false hs)
    (step_moves hall hstep) hs

/-- No connection has entered more filters than the limit allows. -/
def Sparing (s : Sys) : Prop :=
  ∀ k c, s.conns.get k = some c → c.myFilters.card ≤ s.broker.config.broker.maxSubscriptionsPerClient

theorem Move.sparing (h : s.Move S s') (hS : ¬ S.exceeds) (hs : s.Sparing) : s'.Sparing :=
  h.onConns (P := fun config c => c.myFilters.card ≤ config.broker.maxSubscriptionsPerClient)
    (fun _ _ hmove => hmove.sparing hS) (fun _ _ _ _ => Nat.zero_le _) hs

theorem step_sparing (hstep : s.step e = some s') (hs : s.Sparing) : s'.Sparing := by
  have hall : Allows { exceeds := False } s e := { allows_all s e with }
  exact moves_invariant (fun _ _ hs hmove => hmove.sparing not_false hs) (step_moves hall hstep) hs

/-! ### Runs -/

/-- Every client with a connection has at most as many filters in the tree as the limit allows. -/
def WithinLimit (s : Sys) : Prop :=
  ∀ k c, s.conns.get k = some c →
    (s.broker.subscriptions.filtersOf c.clientId).card ≤
      s.broker.config.broker.maxSubscriptionsPerClient

/-- The step keeps the clients within the limit: a connection that subscribes has entered all of its
    client's filters itself, or there is room for all that is asked for; there is room for the
    filter of a device; a restart does not lower the limit. -/
def keepsLimit (s : Sys) (e : Event) : Bool :=
  let limit := s.broker.config.broker.maxSubscriptionsPerClient
  match e, s.inbound e with
  | .datagram peer bytes, _ =>
    (s.toGateway.subscription peer bytes).all (fun (c, filter) =>
      (insert filter (s.broker.subscriptions.filtersOf c)).card ≤ limit)
  | .restart config, _ => limit ≤ config.broker.maxSubscriptionsPerClient
  | _, some (c, .subscribe p) => (s.task 0 c).keepsLimit p
  | _, _ => true

/-- A SUBSCRIBE that a connection takes out of its buffer. -/
theorem arm_modest {k : Nat} {a : Arm} {conn : Conn} {p : Subscribe}
    (hinbound : s.inbound (.arm k a) = some (conn, .subscribe p))
    (hlim : (s.task 0 conn).keepsLimit p = true) (hs : s.broker.Modest) (hsparing : s.Sparing)
    (hstep : s.step (.arm k a) = some s') : s'.broker.Modest := by
  obtain ⟨c, r, t, hc, hrun, rfl⟩ := runArm_task hstep
  cases a with
  | inbound | streamEnd =>
    obtain ⟨hnext, rfl⟩ : (s.task k c).nextInbound = some (.subscribe p) ∧ c = conn := by
      simpa [inbound, hc] using hinbound
    exact Task.wp_modest_inboundArm _ (t := s.task k c) hs (hsparing k c hc) hnext hlim r t hrun
  | _ => simp [inbound] at hinbound

theorem restart_modest (harch : s.broker.Archived)
    (hlim : s.broker.config.broker.maxSubscriptionsPerClient ≤
      config.broker.maxSubscriptionsPerClient) (hs : s.broker.Modest)
    (hstep : s.step (.restart config) = some s') : s'.broker.Modest ∧ s'.Sparing := by
  obtain ⟨b, hb, rfl⟩ := restart_cases hstep
  have hnew : b.Modest := by
    refine BrokerState.new_modest hb harch.filed (fun st c snap hst hsnap => ?_)
    refine (hs.filed c snap ?_).trans hlim
    rw [BrokerState.filed, hst]
    exact hsnap
  refine ⟨⟨hnew.listed, hnew.filed⟩, fun k c hc => ?_⟩
  simp at hc

/-- **A step that keeps the limit does so for every client.** -/
theorem step_keepsLimit (harch : s.broker.Archived) (hcond : s.keepsLimit e = true)
    (hs : s.broker.Modest ∧ s.Sparing) (hstep : s.step e = some s') :
    s'.broker.Modest ∧ s'.Sparing := by
  unfold keepsLimit at hcond
  -- everything but a SUBSCRIBE and a restart
  have hpass : s.subscriber e = none → (∀ config, e ≠ .restart config) →
      s'.broker.Modest ∧ s'.Sparing :=
    fun hsub he => ⟨step_modest hstep hsub he hs.1, step_sparing hstep hs.2⟩
  cases e with
  | arm k a =>
    refine ⟨?_, step_sparing hstep hs.2⟩
    cases hinbound : s.inbound (.arm k a) with
    | none => exact step_modest hstep (by simp [subscriber, hinbound]) (by simp) hs.1
    | some q =>
      obtain ⟨conn, packet⟩ := q
      simp only [hinbound] at hcond
      cases packet with
      | subscribe p => exact arm_modest hinbound hcond hs.1 hs.2 hstep
      | _ => exact step_modest hstep (by simp [subscriber, hinbound]) (by simp) hs.1
  | datagram peer bytes =>
    cases hsub : s.toGateway.subscription peer bytes with
    | none =>
      refine hpass ?_ (by simp)
      show s.toGateway.subscriber peer bytes = none
      unfold Gateway.subscriber
      split
      · next hparse => simpa [Gateway.subscription, hparse] using hsub
      · rfl
    | some q =>
      obtain ⟨c, filter⟩ := q
      simp only [hsub, all_some, decide_eq_true_eq] at hcond
      refine ⟨?_, step_sparing hstep hs.2⟩
      obtain ⟨g, hg, rfl⟩ := map_eq_some_iff.1 hstep
      exact Gateway.datagram_modest hsub hcond hs.1 hg
  | restart config =>
    exact restart_modest harch (of_decide_eq_true hcond) hs.1 hstep
  | _ => exact hpass rfl (by simp)

theorem init_modest (h : init config now = some s) : s.broker.Modest ∧ s.Sparing := by
  have hconns := init_conns h
  obtain ⟨b, hb, rfl⟩ := map_eq_some_iff.1 h
  refine ⟨BrokerState.new_modest hb ?_ ?_, fun k c hc => ?_⟩
  · intro st hst
    split_ifs at hst
    rw [← some.inj hst]
    intro e he
    simp [OrderedMap.empty] at he
  · intro st c snap hst hsnap
    split_ifs at hst
    rw [← some.inj hst] at hsnap
    simp [Storage.snapshotOf] at hsnap
  · rw [hconns] at hc
    simp at hc

/-- **The limit bounds the client along every run whose steps keep it.** -/
theorem withinLimit_of_keepsLimit {config : Settings} {now : Instant} {s₀ : Sys} {es : List Event}
    (h₀ : init config now = some s₀)
    (hmeets : s₀.Meets (fun s e => s.keepsLimit e = true) es) : s₀.Always WithinLimit es := by
  refine Runs.always_of_meets (C := fun s e => s.keepsLimit e = true)
    (I := fun s => Reachable s ∧ s.broker.Modest ∧ s.Sparing) ?_ ?_
    ⟨⟨config, now, s₀, [], h₀, rfl⟩, init_modest h₀⟩ (meets_iff.1 hmeets)
  · intro s hs k c _
    exact hs.2.1.listed c.clientId
  · intro s s' e hs hcond hstep
    exact ⟨hs.1.step hstep, step_keepsLimit hs.1.archived hcond hs.2 hstep⟩

/-- One subscription is allowed. -/
def allowingOne : Settings := { broker := { maxSubscriptionsPerClient := 1 } }

/-- A SUBSCRIBE to the topic `u`. -/
def subscribeU : Packet := .subscribe { packetId := 2, topics := [⟨"u", .atLeastOnce⟩] }

/-- A client that asks for more than it is allowed. -/
def refusedRun : List Event := opens "a" false :: sends 1 subscribeT ++ sends 1 subscribeU

theorem withinLimit_of_keepsLimit_refused : ∃ s₀ s, init allowingOne 0 = some s₀ ∧
    s₀.run refusedRun = some s ∧ s₀.Meets (fun s e => s.keepsLimit e = true) refusedRun ∧
    (s.conns.get 1).map Conn.clientId = some "a" ∧ s.broker.subscriptions.filtersOf "a" = {"t"} ∧
    s₀.Always WithinLimit refusedRun := by
  obtain ⟨s₀, s, h₀, hrun, hmeets, hs⟩ := exists_run_meets
    (C := fun s e => s.keepsLimit e = true) keepsLimit (fun _ _ h => h) allowingOne 0 refusedRun
    (fun s => (s.conns.get 1).map Conn.clientId = some "a" &&
      s.broker.subscriptions.filtersOf "a" = {"t"}) (by decide +kernel)
  simp only [Bool.and_eq_true, decide_eq_true_eq] at hs
  exact ⟨s₀, s, h₀, hrun, hmeets, hs.1, hs.2, withinLimit_of_keepsLimit h₀ hmeets⟩

/-- **A client gets past the limit by connecting again**: its new connection has entered nothing
    yet. -/
theorem reconnect_exceeds_limit : ∃ s k c, Reachable s ∧ s.conns.get k = some c ∧ c.exit = none ∧
    s.broker.config.broker.maxSubscriptionsPerClient = 1 ∧
    s.broker.subscriptions.filtersOf c.clientId = {"t", "u"} ∧ ¬ s.WithinLimit := by
  obtain ⟨s₀, s, h₀, hrun, hs⟩ := exists_run allowingOne 0
    (opens "a" false :: sends 1 subscribeT ++ sends 1 .disconnect ++
      [.finish 1, opens "a" false] ++ sends 2 subscribeU)
    (fun s => (s.conns.get 2).any (fun c => c.exit.isNone &&
      s.broker.config.broker.maxSubscriptionsPerClient = 1 &&
      s.broker.subscriptions.filtersOf c.clientId = {"t", "u"})) (by decide +kernel)
  obtain ⟨c, hc, hs⟩ := (any_eq_true _ _).1 hs
  simp only [Bool.and_eq_true, decide_eq_true_eq, isNone_iff_eq_none] at hs
  obtain ⟨⟨hexit, hlimit⟩, hfilters⟩ := hs
  refine ⟨s, 2, c, ⟨allowingOne, 0, s₀, _, h₀, hrun⟩, hc, hexit, hlimit, hfilters, fun h => ?_⟩
  have hcard := h 2 c hc
  rw [hlimit, hfilters] at hcard
  exact absurd hcard (by decide)

end Sys

end LumenMQ
