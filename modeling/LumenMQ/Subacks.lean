import LumenMQ.Broker.Provenance
import LumenMQ.Broker.SubscriptionRefinement

set_option autoImplicit false

/-! # SUBACK tells the truth

A SUBSCRIBE names filters one after the other, and what becomes of one of them may depend on those
before it: a filter that was accepted is known from then on and counts towards the limit. This file
takes the loop of `handle_subscribe` apart. The return codes say of every entry whether it was
accepted; the subscriptions of the client follow the entries that were, and so do the retained
messages. -/

namespace LumenMQ

variable {a : SubscribeTopic}

open Process Total List

/-! ## Reading the subscriptions back -/

namespace SubscriptionTree

/-- A way to read the subscriptions that shows what a subscribe has entered, and nothing else. -/
def Tracks (qosOf : SubscriptionTree → String → String → Option QoS) : Prop :=
  ∀ (t : SubscriptionTree) (c f : String) (q : QoS), acceptsFilter f = true → ∀ c' f',
    qosOf (t.subscribe c f q).2 c' f' = if c' = c ∧ f' = f then some q else qosOf t c' f'

/-- The trie and the groups. -/
theorem tracks_storedQos : Tracks storedQos := by
  intro t c f q hf c' f'
  rw [subscribe_eq, if_pos hf]
  exact storedQos_storeFilter t c f q c' f'

/-- The reverse index. -/
theorem tracks_listedQos : Tracks listedQos := by
  intro t c f q hf c' f'
  rw [subscribe_eq, if_pos hf, listedQos_indexFilter,
    listedQos_of_reverse (reverse_storeFilter t c f q)]

end SubscriptionTree

/-! ## The entries that were accepted -/

/-- The entries whose code is not the failure code. -/
def acceptedOf (topics : List SubscribeTopic) (codes : List UInt8) : List SubscribeTopic :=
  ((topics.zip codes).filter (fun e => e.2 ≠ subackFailure)).map Prod.fst

theorem acceptedOf_cons (a : SubscribeTopic) (topics : List SubscribeTopic) (code : UInt8)
    (codes : List UInt8) : acceptedOf (a :: topics) (code :: codes) =
      (if code ≠ subackFailure then [a] else []) ++ acceptedOf topics codes := by
  unfold acceptedOf
  rw [zip_cons_cons]
  by_cases h : code = subackFailure
  · rw [filter_cons_of_neg (by simpa using h), if_neg (not_not.2 h), nil_append]
  · rw [filter_cons_of_pos (by simpa using h), if_pos h]
    rfl

/-- The QoS of the last entry with a filter. -/
def lastQos (f : String) (accepted : List SubscribeTopic) : Option QoS :=
  (accepted.filter (fun a => a.topicFilter = f)).getLast?.map (fun a => a.qos)

theorem lastQos_cons (f : String) (a : SubscribeTopic) (accepted : List SubscribeTopic) :
    lastQos f (a :: accepted) =
      (lastQos f accepted).or (if f = a.topicFilter then some a.qos else none) := by
  unfold lastQos
  by_cases h : f = a.topicFilter
  · rw [filter_cons_of_pos (by simpa using h.symm), if_pos h, getLast?_cons]
    cases (accepted.filter (fun a => a.topicFilter = f)).getLast? <;> rfl
  · rw [filter_cons_of_neg (by simpa using Ne.symm h), if_neg h, Option.or_none]

namespace Task

/-- What an entry has to meet when these filters are known: its own is one of them or there is room
    for one more, the plugin allows it, and it is valid. -/
def Admits (t : Task) (known : Finset String) (a : SubscribeTopic) : Prop :=
  (a.topicFilter ∈ known ∨ known.card < t.broker.config.broker.maxSubscriptionsPerClient) ∧
    (t.broker.plugin.checkSubscribe a.topicFilter).isOk = true ∧
      SubscriptionTree.acceptsFilter a.topicFilter = true

instance (t : Task) (known : Finset String) (a : SubscribeTopic) : Decidable (t.Admits known a) :=
  inferInstanceAs (Decidable (_ ∧ _))

/-- The filters that are known once these entries were accepted. -/
def knownAfter (t : Task) (accepted : List SubscribeTopic) : Finset String :=
  t.conn.myFilters ∪ (accepted.map (fun a => a.topicFilter)).toFinset

/-- An entry is accepted. -/
def enter (t : Task) (a : SubscribeTopic) : Task :=
  (t.onBroker (fun b => { b with
      subscriptions := (b.subscriptions.subscribe t.conn.clientId a.topicFilter a.qos).2 })).onConn
    (fun c => { c with myFilters := insert a.topicFilter c.myFilters })

/-- The code of an entry, and the task after it. -/
def judge (t : Task) (a : SubscribeTopic) : UInt8 × Task :=
  if t.Admits t.conn.myFilters a then (a.qos.asU8, t.enter a) else (subackFailure, t)

/-- The codes of the entries, one after the other. -/
def codes (t : Task) : List SubscribeTopic → List UInt8
  | [] => []
  | a :: topics => (t.judge a).1 :: (t.judge a).2.codes topics

/-- The task after the entries. -/
def judgeAll (t : Task) (topics : List SubscribeTopic) : Task :=
  topics.foldl (fun t a => (t.judge a).2) t

end Task

/-- What the loop keeps of an entry: its code, and the entry if it was accepted. -/
def entryResult (a : SubscribeTopic) (code : UInt8) : UInt8 × Option (String × QoS) :=
  (code, if code ≠ subackFailure then some (a.topicFilter, a.qos) else none)

theorem asU8_ne_subackFailure (q : QoS) : q.asU8 ≠ subackFailure := by
  cases q <;> decide

/-- One pass of the loop. -/
theorem subscribeTopic_run (a : SubscribeTopic) (t : Task) :
    subscribeTopic a t = some (.ok (entryResult a (t.judge a).1), (t.judge a).2) := by
  have hsub := t.broker.subscriptions.subscribe_ok_iff t.conn.clientId a.topicFilter a.qos
  unfold subscribeTopic Task.judge
  rw [read_bind_apply]
  by_cases hadmits : t.Admits t.conn.myFilters a
  · rw [if_pos hadmits]
    obtain ⟨hunder, hplugin, hval⟩ := hadmits
    have hlim : ¬ (a.topicFilter ∉ t.conn.myFilters ∧
        t.broker.config.broker.maxSubscriptionsPerClient ≤ t.conn.myFilters.card) := by
      rw [not_and_or, not_not, not_le]
      exact hunder
    have hok : t.broker.subscriptions.subscribe t.conn.clientId a.topicFilter a.qos = (.ok (),
        (t.broker.subscriptions.subscribe t.conn.clientId a.topicFilter a.qos).2) :=
      Prod.ext (hsub.2 hval) rfl
    rw [if_neg hlim, if_neg (by simp [hplugin]), hok, entryResult,
      if_pos (asU8_ne_subackFailure a.qos)]
    rfl
  · rw [if_neg hadmits]
    split_ifs with hfull hplugin
    · rfl
    · rfl
    · rw [not_and_or, not_not, not_le] at hfull
      rcases hresult : t.broker.subscriptions.subscribe t.conn.clientId a.topicFilter a.qos with
        ⟨_ | ⟨⟩, subscriptions⟩
      · rfl
      · have hval := hsub.1 (by rw [hresult])
        exact absurd ⟨hfull, by simpa using hplugin, hval⟩ hadmits

theorem collect_subscribeTopic (topics : List SubscribeTopic) (t : Task) :
    collect subscribeTopic topics t =
      some (.ok (topics.zipWith entryResult (t.codes topics)), t.judgeAll topics) := by
  induction topics generalizing t with
  | nil => rfl
  | cons a topics ih =>
    rw [collect, bind_apply, subscribeTopic_run]
    dsimp only
    rw [bind_apply, ih]
    rfl

/-! ## The codes -/

namespace Task

theorem judge_ne_failure (t : Task) (a : SubscribeTopic) :
    (t.judge a).1 ≠ subackFailure ↔ t.Admits t.conn.myFilters a := by
  unfold judge
  split_ifs with h
  · exact iff_of_true (asU8_ne_subackFailure a.qos) h
  · exact iff_of_false (fun hne => hne rfl) h

theorem judge_code (t : Task) (a : SubscribeTopic) (h : (t.judge a).1 ≠ subackFailure) :
    (t.judge a).1 = a.qos.asU8 := by
  rw [judge_ne_failure] at h
  rw [judge, if_pos h]

/-- An entry concerns the subscriptions and the filters of the connection only. -/
theorem judge_frame (t : Task) (a : SubscribeTopic) : ∃ subscriptions myFilters,
    (t.judge a).2 = (t.onBroker (fun b => { b with subscriptions })).onConn
      (fun c => { c with myFilters }) := by
  unfold judge
  split_ifs
  · exact ⟨_, _, rfl⟩
  · exact ⟨t.broker.subscriptions, t.conn.myFilters, rfl⟩

theorem judgeAll_frame (t : Task) (topics : List SubscribeTopic) : ∃ subscriptions myFilters,
    t.judgeAll topics = (t.onBroker (fun b => { b with subscriptions })).onConn
      (fun c => { c with myFilters }) := by
  induction topics generalizing t with
  | nil => exact ⟨t.broker.subscriptions, t.conn.myFilters, rfl⟩
  | cons a topics ih =>
    obtain ⟨subscriptions₁, myFilters1, h1⟩ := t.judge_frame a
    obtain ⟨subscriptions₂, myFilters2, h2⟩ := ih (t.judge a).2
    refine ⟨subscriptions₂, myFilters2, h2.trans ?_⟩
    rw [h1]
    rfl

theorem admits_judge (t : Task) (a b : SubscribeTopic) (known : Finset String) :
    (t.judge a).2.Admits known b ↔ t.Admits known b := by
  obtain ⟨subscriptions, myFilters, h⟩ := t.judge_frame a
  rw [h]
  rfl

theorem clientId_judge (t : Task) (a : SubscribeTopic) :
    (t.judge a).2.conn.clientId = t.conn.clientId := by
  obtain ⟨subscriptions, myFilters, h⟩ := t.judge_frame a
  rw [h]
  rfl

/-- An entry that is accepted is known to those behind it. -/
theorem knownAfter_judge (t : Task) (a : SubscribeTopic) (accepted : List SubscribeTopic) :
    (t.judge a).2.knownAfter accepted =
      t.knownAfter ((if (t.judge a).1 ≠ subackFailure then [a] else []) ++ accepted) := by
  simp only [judge_ne_failure]
  unfold judge
  split_ifs
  · ext f
    simp [knownAfter, enter, onBroker, onConn]
  · rfl

theorem length_codes (t : Task) (topics : List SubscribeTopic) :
    (t.codes topics).length = topics.length := by
  induction topics generalizing t with
  | nil => rfl
  | cons a topics ih => rw [codes, length_cons, ih, length_cons]

/-- An entry is judged by the filters that are known once those before it have been judged. -/
theorem getElem?_codes (t : Task) {topics : List SubscribeTopic} {i : Nat}
    (ha : topics[i]? = some a) : ∃ code, (t.codes topics)[i]? = some code ∧
      (code ≠ subackFailure ↔
        t.Admits (t.knownAfter (acceptedOf (topics.take i) (t.codes topics))) a) ∧
      (code ≠ subackFailure → code = a.qos.asU8) := by
  induction topics generalizing t i with
  | nil => cases ha
  | cons b topics ih =>
    cases i with
    | zero =>
      cases ha
      refine ⟨(t.judge a).1, rfl, ?_, t.judge_code a⟩
      rw [judge_ne_failure]
      simp [knownAfter, acceptedOf]
    | succ i =>
      obtain ⟨code, hcode, hiff, hqos⟩ := ih (t.judge b).2 ha
      refine ⟨code, hcode, ?_, hqos⟩
      rw [hiff, admits_judge, knownAfter_judge, codes, take_succ_cons, acceptedOf_cons]

/-! ## The subscriptions -/

/-- The client is left with its last accepted entry for a filter, or with what it had. -/
theorem qosOf_judgeAll {qosOf : SubscriptionTree → String → String → Option QoS}
    (hq : SubscriptionTree.Tracks qosOf) (t : Task) (topics : List SubscribeTopic) (c f : String) :
    qosOf (t.judgeAll topics).broker.subscriptions c f =
      if c = t.conn.clientId then
        (lastQos f (acceptedOf topics (t.codes topics))).or (qosOf t.broker.subscriptions c f)
      else qosOf t.broker.subscriptions c f := by
  induction topics generalizing t with
  | nil => simp [judgeAll, codes, acceptedOf, lastQos]
  | cons a topics ih =>
    have hhead : qosOf (t.judge a).2.broker.subscriptions c f =
        if (t.judge a).1 ≠ subackFailure ∧ c = t.conn.clientId ∧ f = a.topicFilter then some a.qos
        else qosOf t.broker.subscriptions c f := by
      simp only [judge_ne_failure]
      unfold judge
      by_cases hadmits : t.Admits t.conn.myFilters a
      · rw [if_pos hadmits]
        simp only [hadmits, true_and]
        exact hq t.broker.subscriptions t.conn.clientId a.topicFilter a.qos hadmits.2.2 c f
      · rw [if_neg hadmits, if_neg (fun h => hadmits h.1)]
    change qosOf ((t.judge a).2.judgeAll topics).broker.subscriptions c f = _
    rw [ih, clientId_judge, hhead, codes, acceptedOf_cons]
    by_cases hc : c = t.conn.clientId
    · simp only [hc, if_true, true_and]
      by_cases hcode : (t.judge a).1 ≠ subackFailure
      · rw [if_pos hcode, singleton_append, lastQos_cons, Option.or_assoc]
        congr 1
        by_cases hf : f = a.topicFilter
        · rw [if_pos ⟨hcode, hf⟩, if_pos hf, Option.some_or]
        · rw [if_neg (fun h => hf h.2), if_neg hf, Option.none_or]
      · rw [if_neg hcode, if_neg (fun h => hcode h.1), nil_append]
    · simp only [hc, if_false, false_and, and_false]

end Task

/-! ## The retained messages -/

/-- The effect is part of the replay of a retained message for one of the entries. -/
def Effect.Replays (retain : RetainStore) (accepted : List SubscribeTopic) (x : Effect) : Prop :=
  ∃ a ∈ accepted, ∃ msg ∈ retain.matchesFilter a.topicFilter,
    x.message = some (RetainStore.buildOutbound msg a.qos)

/-- Since the trace ended in `base`, the subscriptions and the retained messages have stayed the
    same, and all that was noted belongs to the replay of retained messages. -/
structure Task.Replaying (t : Task) (accepted : List SubscribeTopic) (base : List Effect)
    (t' : Task) : Prop where
  subscriptions : t'.broker.subscriptions = t.broker.subscriptions
  retain : t'.broker.retain = t.broker.retain
  trace : ∃ newer, t'.broker.trace = newer ++ base ∧
    ∀ y ∈ newer, y.Replays t.broker.retain accepted

namespace Task.Replaying

variable {t t' t'' : Task} {accepted : List SubscribeTopic} {base : List Effect}

/-- One more effect. -/
theorem cons (h : t.Replaying accepted base t') {x : Effect}
    (hx : x.Replays t.broker.retain accepted)
    (hsubs : t''.broker.subscriptions = t'.broker.subscriptions)
    (hret : t''.broker.retain = t'.broker.retain)
    (htrace : t''.broker.trace = x :: t'.broker.trace) : t.Replaying accepted base t'' := by
  obtain ⟨newer, hnew, hall⟩ := h.trace
  refine ⟨hsubs.trans h.subscriptions, hret.trans h.retain, x :: newer, ?_, ?_⟩
  · rw [htrace, hnew, cons_append]
  · rw [forall_mem_cons]
    exact ⟨hx, hall⟩

section message

variable {m : OutboundPublish}
  (hm : ∀ x : Effect, x.message = some m → x.Replays t.broker.retain accepted)

include hm

theorem built (h : t.Replaying accepted base t') :
    t.Replaying accepted base (t'.buildOutboundPacket m).2 := by
  have hbuild := t'.buildOutboundPacket_builds m
  generalize t'.buildOutboundPacket m = built at hbuild ⊢
  cases hbuild with
  | plain hqos => exact h
  | refused hqos next => exact h.cons (hm _ rfl) rfl rfl rfl
  | stored hqos pid next => exact ⟨h.subscriptions, h.retain, h.trace⟩

theorem keeps_send (pid : Option UInt16) :
    Keeps (t.Replaying accepted base) (send (buildPublish m pid)) := by
  intro t1 ht1
  refine Task.wp_send_cases (fun _ => ?_) (fun e _ => ?_)
  · exact ht1.cons (hm _ rfl) rfl rfl rfl
  · exact ht1.cons (hm _ rfl) rfl rfl rfl

end message

theorem keeps_deliverRetained (ha : a ∈ accepted) {msg : RetainedMessage}
    (hmsg : msg ∈ t.broker.retain.matchesFilter a.topicFilter) :
    Keeps (t.Replaying accepted base) (deliverRetained a.qos msg) := by
  have hm : ∀ x : Effect, x.message = some (RetainStore.buildOutbound msg a.qos) →
      x.Replays t.broker.retain accepted := fun x hx => ⟨a, ha, msg, hmsg, hx⟩
  refine Keeps.act_bind ?_
  intro t1 ht1
  have htaken : t.Replaying accepted base (t1.takeRetained (RetainStore.buildOutbound msg a.qos)) :=
    ht1.cons (hm _ rfl) rfl rfl rfl
  have hbuilt := htaken.built hm
  rcases hpkt : ((t1.takeRetained (RetainStore.buildOutbound msg a.qos)).buildOutboundPacket
    (RetainStore.buildOutbound msg a.qos)).1 with _ | packet
  · exact (wp_pure ..).2 hbuilt
  · obtain ⟨pid, -, rfl⟩ := (buildOutboundPacket_frame _ _).2 packet hpkt
    refine Keeps.bind (Keeps.attempt (keeps_send hm pid)) (fun r => ?_) _ hbuilt
    rcases r with e | _
    · exact Keeps.fail _
    · exact Keeps.pure _

theorem keeps_deliverAllRetained (ha : a ∈ accepted) :
    Keeps (t.Replaying accepted base) (deliverAllRetained (a.topicFilter, a.qos)) := by
  refine Keeps.read_bind ?_
  intro t1 ht1
  refine Keeps.forEach (fun msg hmsg => ?_) t1 ht1
  rw [ht1.retain] at hmsg
  exact keeps_deliverRetained ha hmsg

theorem keeps_persistSnapshot : Keeps (t.Replaying accepted base) persistSnapshot := by
  refine Keeps.update ?_
  intro t1 ht1
  obtain ⟨storage, hstore⟩ := t1.broker.persistSessionSnapshot_eq t1.conn.clientId
  unfold onBroker
  dsimp only
  rw [hstore]
  exact ⟨ht1.subscriptions, ht1.retain, ht1.trace⟩

end Task.Replaying

/-! ## After the loop -/

/-- What follows the loop over the entries. -/
def answerSubscribe (packetId : UInt16) (codes : List UInt8) (accepted : List SubscribeTopic) :
    Handler Unit := do
  send (.suback { packetId, returnCodes := codes })
  forEach deliverAllRetained (accepted.map (fun a => (a.topicFilter, a.qos)))
  persistSnapshot

/-- What is handed to the transport is written, or noted as failed. -/
theorem wp_send_noted (packet : Packet) (t : Task) : wp (send packet) (fun _ t' => ∃ x,
    (x = .wrote t.epoch packet ∨ ∃ e, x = .sendFailed t.epoch packet e) ∧
      t'.broker.trace = x :: t.broker.trace ∧
      t'.broker.subscriptions = t.broker.subscriptions ∧ t'.broker.retain = t.broker.retain) t := by
  refine Task.wp_send_cases (fun _ => ?_) (fun e _ => ?_)
  · exact ⟨_, .inl rfl, rfl, rfl, rfl⟩
  · exact ⟨_, .inr ⟨_, rfl⟩, rfl, rfl, rfl⟩

theorem wp_answerSubscribe (t : Task) (packetId : UInt16) (codes : List UInt8)
    (accepted : List SubscribeTopic) :
    wp (answerSubscribe packetId codes accepted) (fun _ t' => ∃ x,
      (x = .wrote t.epoch (.suback { packetId, returnCodes := codes }) ∨
        ∃ e, x = .sendFailed t.epoch (.suback { packetId, returnCodes := codes }) e) ∧
      t.Replaying accepted (x :: t.broker.trace) t') t := by
  unfold answerSubscribe
  rw [wp_bind]
  refine wp_mono (wp_send_noted _ t) ?_
  rintro r t1 ⟨x, hx, htrace, hsubs, hret⟩
  have hstart : t.Replaying accepted (x :: t.broker.trace) t1 :=
    ⟨hsubs, hret, [], htrace, fun y hy => absurd hy not_mem_nil⟩
  cases r with
  | error e => exact ⟨x, hx, hstart⟩
  | ok _ =>
    have hrest : Keeps (t.Replaying accepted (x :: t.broker.trace)) (do
        forEach deliverAllRetained (accepted.map (fun a => (a.topicFilter, a.qos)))
        persistSnapshot) := by
      refine Keeps.bind (Keeps.forEach ?_) (fun _ => Task.Replaying.keeps_persistSnapshot)
      rw [forall_mem_map]
      exact fun a ha => Task.Replaying.keeps_deliverAllRetained ha
    exact wp_mono (hrest t1 hstart) (fun _ t' ht' => ⟨x, hx, ht'⟩)

theorem total_send (packet : Packet) : Total (send packet) := by
  refine bind read (fun t => ?_)
  split
  · exact bind (update _) (fun _ => fail _)
  · exact update _

theorem total_deliverAllRetained (accepted : String × QoS) :
    Total (deliverAllRetained accepted) := by
  refine bind read (fun t => forEach (fun msg => ?_) _)
  refine bind (act _) (fun built => ?_)
  cases built with
  | none => exact pure ()
  | some packet =>
    refine bind (attempt (total_send packet)) (fun r => ?_)
    rcases r with e | _
    · exact fail _
    · exact pure ()

theorem total_answerSubscribe (packetId : UInt16) (codes : List UInt8)
    (accepted : List SubscribeTopic) : Total (answerSubscribe packetId codes accepted) :=
  bind (total_send _) fun _ =>
    bind (forEach total_deliverAllRetained _) fun _ => update _

theorem zipWith_entryResult {topics : List SubscribeTopic} {codes : List UInt8}
    (h : codes.length = topics.length) :
    (topics.zipWith entryResult codes).map Prod.fst = codes ∧
      (topics.zipWith entryResult codes).filterMap Prod.snd =
        (acceptedOf topics codes).map (fun a => (a.topicFilter, a.qos)) := by
  induction topics generalizing codes with
  | nil => rw [length_eq_zero_iff.1 h]; exact ⟨rfl, rfl⟩
  | cons a topics ih =>
    cases codes with
    | nil => cases h
    | cons code codes =>
      obtain ⟨hcodes, hacc⟩ := ih (Nat.succ.inj h)
      rw [zipWith_cons_cons, map_cons, hcodes, acceptedOf_cons, map_append,
        ← hacc]
      refine ⟨rfl, ?_⟩
      by_cases hcd : code = subackFailure
      · rw [filterMap_cons_none (by simp [entryResult, hcd]), if_neg (not_not.2 hcd)]
        rfl
      · rw [filterMap_cons_some (b := (a.topicFilter, a.qos))
            (by simp [entryResult, hcd]), if_pos hcd]
        rfl

/-- The handler is the loop and what follows it. -/
theorem handleSubscribe_eq (t : Task) (s : Subscribe) :
    handleSubscribe s t = answerSubscribe s.packetId (t.codes s.topics)
      (acceptedOf s.topics (t.codes s.topics)) (t.judgeAll s.topics) := by
  obtain ⟨hcodes, hacc⟩ := zipWith_entryResult (t.length_codes s.topics)
  unfold handleSubscribe
  rw [bind_apply, collect_subscribeTopic]
  dsimp only
  rw [hcodes, hacc]
  rfl

/-! ## The result -/

/-- What the SUBACK says and what has become of the subscriptions go together. -/
structure Task.SubackTrue (t : Task) (s : Subscribe) (codes : List UInt8) (t' : Task) : Prop where
  /-- There is one code for each entry. -/
  aligned : codes.length = s.topics.length
  /-- An entry has a code other than the failure code exactly if its filter was known or below the
      limit by then, allowed by the plugin and valid; the code is then the QoS it asks for. -/
  code : ∀ i a, s.topics[i]? = some a → ∃ code, codes[i]? = some code ∧
    (code ≠ subackFailure ↔ t.Admits (t.knownAfter (acceptedOf (s.topics.take i) codes)) a) ∧
    (code ≠ subackFailure → code = a.qos.asU8)
  /-- A filter is stored with the QoS of its last accepted entry, or as it was if there is none. -/
  stored : ∀ f, t'.broker.subscriptions.storedQos t.conn.clientId f =
    (lastQos f (acceptedOf s.topics codes)).or
      (t.broker.subscriptions.storedQos t.conn.clientId f)
  /-- So it is listed. -/
  listed : ∀ f, t'.broker.subscriptions.listedQos t.conn.clientId f =
    (lastQos f (acceptedOf s.topics codes)).or
      (t.broker.subscriptions.listedQos t.conn.clientId f)
  /-- Other clients are not concerned. -/
  others : ∀ c, c ≠ t.conn.clientId → ∀ f,
    t'.broker.subscriptions.storedQos c f = t.broker.subscriptions.storedQos c f ∧
      t'.broker.subscriptions.listedQos c f = t.broker.subscriptions.listedQos c f
  /-- The SUBACK with the codes is handed to the transport. After that there are only retained
      messages for filters that were accepted. -/
  sent : ∃ x newer, t'.broker.trace = newer ++ x :: t.broker.trace ∧
    (x = .wrote t.epoch (.suback { packetId := s.packetId, returnCodes := codes }) ∨
      ∃ e, x = .sendFailed t.epoch (.suback { packetId := s.packetId, returnCodes := codes }) e) ∧
    ∀ y ∈ newer, y.Replays t.broker.retain (acceptedOf s.topics codes)

/-- **SUBACK tells the truth.** Whatever a SUBSCRIBE asks for and whatever the state is, the handler
    returns, and its answer is true of what it has done. -/
theorem handleSubscribe_true (t : Task) (s : Subscribe) :
    ∃ codes r t', handleSubscribe s t = some (r, t') ∧ t.SubackTrue s codes t' := by
  obtain ⟨subscriptions, myFilters, hjudged⟩ := t.judgeAll_frame s.topics
  obtain ⟨r, t', hrun, x, hx, hreplaying⟩ := (total_answerSubscribe s.packetId (t.codes s.topics)
    (acceptedOf s.topics (t.codes s.topics))).exists_run
      (wp_answerSubscribe (t.judgeAll s.topics) _ _ _)
  have hepoch : (t.judgeAll s.topics).epoch = t.epoch := by rw [hjudged]; rfl
  have htrace : (t.judgeAll s.topics).broker.trace = t.broker.trace := by rw [hjudged]; rfl
  have hretain : (t.judgeAll s.topics).broker.retain = t.broker.retain := by rw [hjudged]; rfl
  have hstored := Task.qosOf_judgeAll SubscriptionTree.tracks_storedQos t s.topics
  have hlisted := Task.qosOf_judgeAll SubscriptionTree.tracks_listedQos t s.topics
  refine ⟨t.codes s.topics, r, t', (handleSubscribe_eq t s).trans hrun, ?_⟩
  rw [← hreplaying.subscriptions] at hstored hlisted
  refine ⟨t.length_codes s.topics, fun i a ha => t.getElem?_codes ha, ?_, ?_, ?_, ?_⟩
  · intro f
    rw [hstored, if_pos rfl]
  · intro f
    rw [hlisted, if_pos rfl]
  · intro c hc f
    rw [hstored, if_neg hc, hlisted, if_neg hc]
    exact ⟨rfl, rfl⟩
  · obtain ⟨newer, hnewer, hreplays⟩ := hreplaying.trace
    rw [htrace] at hnewer
    rw [hepoch] at hx
    rw [hretain] at hreplays
    exact ⟨x, newer, hnewer, hx, hreplays⟩

end LumenMQ
