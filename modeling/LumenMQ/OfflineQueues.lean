import LumenMQ.SystemMoves

set_option autoImplicit false

/-! # Offline queues

What the moves do to the queues of the sessions: a message is added, at the cost of older ones if
need be, or the queue goes with its session. A queue never holds more than the settings allow, and a
clean session has none. -/

namespace LumenMQ

open Option SessionManager SessionEntry OfflineQueue

/-- The offline queue of a client. -/
def SessionManager.queueOf (sm : SessionManager) (c : String) : Option OfflineQueue :=
  (sm.get c).bind SessionEntry.offlineQueue

theorem SessionManager.queued_eq (sm : SessionManager) (c : String) :
    sm.queued c = ((sm.queueOf c).map (fun q => q.inner.map OfflineMessage.payload)).getD [] := by
  unfold queued queueOf
  cases (sm.get c).bind offlineQueue <;> rfl

theorem SessionManager.queueOf_eq_none {sm : SessionManager} {c : String}
    (h : sm.get c = none) : sm.queueOf c = none := by
  rw [queueOf, h, bind_none]

namespace BrokerState

variable {S : Scope} {b b' : BrokerState}

/-- What a move may make of the queue of a client. -/
inductive Requeues (S : Scope) (b : BrokerState) (c : String) : Option OfflineQueue → Prop
  | same : Requeues S b c (b.sessions.queueOf c)
  | removed (hremove : S.removes c) : Requeues S b c none
  | enqueued (q q' : OfflineQueue) (msg : OutboundPublish) (out : List OfflineMessage)
      (hto : S.delivers c) (hq : b.sessions.queueOf c = some q)
      (henqueue : q.enqueue b.now msg = some (out, q')) : Requeues S b c (some q')

theorem Move.requeues (h : b.Move S b') (c : String) :
    Requeues S b c (b'.sessions.queueOf c) := by
  -- an operation that changes no queue of an entry
  have hmap : ∀ {f : SessionEntry → SessionEntry}, b'.sessions.get c = (b.sessions.get c).map f →
      (∀ e, (f e).offlineQueue = e.offlineQueue) → Requeues S b c (b'.sessions.queueOf c) := by
    intro f hget hf
    have hsame : b'.sessions.queueOf c = b.sessions.queueOf c := by
      rw [queueOf, queueOf, hget]
      cases b.sessions.get c with
      | none => rfl
      | some e => exact hf e
    exact hsame ▸ .same
  cases h with
  | deliver r c1 subQos b' hr hne hto hdel =>
    cases deliver_delivered hdel with
    | sent | lost => exact .same
    | enqueued e q q' out hget hq henq =>
      unfold queueOf
      show Requeues S b c (((b.sessions.put c1 _).get c).bind offlineQueue)
      rw [get_put]
      by_cases hc : c = c1
      · subst hc
        rw [if_pos rfl]
        refine .enqueued q q' _ out hto ?_ henq
        rw [queueOf, hget]
        exact hq
      · rw [if_neg hc]
        exact .same
  | markOffline c1 epoch =>
    refine hmap (markOffline_get ..) ?_
    intro e
    split_ifs <;> rfl
  | takeWill c1 epoch =>
    refine hmap (takeWill_get ..) ?_
    intro e
    split_ifs <;> rfl
  | removeSession c1 hrem =>
    unfold queueOf
    show Requeues S b c (((b.sessions.remove c1).2.get c).bind offlineQueue)
    rw [get_remove]
    by_cases hc : c = c1
    · rw [if_pos hc]
      exact .removed (hc ▸ hrem)
    · rw [if_neg hc]
      exact .same
  | persist c1 =>
    obtain ⟨storage, hb⟩ := persistSessionSnapshot_eq b c1
    rw [hb]
    exact .same
  | _ => exact .same

/-! ## Limits -/

/-- The queues keep to the settings, and clean sessions have none. -/
structure Limited (b : BrokerState) : Prop where
  limit : b.sessions.maxOfflineMessages = b.config.storage.maxOfflineMessages
  bounded : ∀ c q, b.sessions.queueOf c = some q →
    q.inner.length ≤ q.maxMessages ∧ q.maxMessages = b.sessions.maxOfflineMessages
  clean : ∀ c e, b.sessions.get c = some e → e.cleanSession = true → e.offlineQueue = none

theorem Move.limited (h : b.Move S b') (hb : b.Limited) : b'.Limited := by
  obtain ⟨hcfg, -, hmax⟩ := h.limits_eq
  refine ⟨by rw [hmax, hcfg, hb.limit], ?_, ?_⟩
  · intro c q' hq'
    rw [hmax]
    have hreq := h.requeues c
    rw [hq'] at hreq
    generalize hsome : some q' = queue at hreq
    cases hreq with
    | same => exact hb.bounded c q' hsome.symm
    | removed => simp at hsome
    | enqueued q q1 msg out hto hq henq =>
      rw [some.injEq] at hsome
      subst hsome
      obtain ⟨-, hlim⟩ := hb.bounded c q hq
      have hsame := (enqueue_spec henq).2.1
      exact ⟨hsame ▸ enqueue_length henq, hsame.trans hlim⟩
  · intro c e' he' hclean
    obtain ⟨e, he, hcont⟩ := h.entry he'
    have hnone := hb.clean c e he (hcont.cleanSession ▸ hclean)
    have hsome := hcont.offlineQueue
    rw [hnone, isSome_none] at hsome
    simpa using hsome

/-- A session is opened, with an empty queue or none. -/
theorem Limited.register {now : Instant} {c : String} {clean : Bool} {tx : Nat}
    {will : Option WillMessage} {level : UInt8} {peer : SocketAddr} {expiry : Option UInt32}
    (hb : b.Limited) (hcfg : b'.config = b.config)
    (hget : ∀ c', b'.sessions.get c' =
      (b.sessions.register now c clean tx will level peer expiry).sessions.get c')
    (hmax : b'.sessions.maxOfflineMessages = b.sessions.maxOfflineMessages) : b'.Limited := by
  refine ⟨by rw [hmax, hcfg, hb.limit], ?_, ?_⟩
  · intro c' q hq
    rw [queueOf, hget, register_get] at hq
    rw [hmax]
    by_cases hc : c' = c
    · rw [if_pos hc, bind_some, newEntry] at hq
      cases clean with
      | true => simp at hq
      | false =>
        simp only [Bool.false_eq_true, if_false, some.injEq] at hq
        rw [← hq]
        exact ⟨Nat.zero_le _, rfl⟩
    · rw [if_neg hc] at hq
      exact hb.bounded c' q hq
  · intro c' e he hclean
    rw [hget, register_get] at he
    split_ifs at he
    · rw [← some.inj he] at hclean ⊢
      exact if_pos hclean
    · exact hb.clean c' e he hclean

theorem new_limited {config : Settings} {storage : Option Storage} {now : Instant}
    (h : new config storage now = some b) : b.Limited := by
  cases storage with
  | none =>
    rw [← Option.some.inj h]
    exact ⟨rfl, fun c q hq => by simp [SessionManager.queueOf, SessionManager.get] at hq,
      fun c e he => by simp [SessionManager.get] at he⟩
  | some s =>
    let I : BrokerState → Prop := fun b =>
      b.sessions.maxOfflineMessages = config.storage.maxOfflineMessages ∧
        ∀ c q, b.sessions.queueOf c = some q →
          q.inner.length ≤ q.maxMessages ∧ q.maxMessages = b.sessions.maxOfflineMessages
    have hinv : I b := by
      rw [new_eq] at h
      refine loadAll_invariant (I := I) ?_ rfl h ⟨rfl, ?_⟩
      · rintro b1 b2 s1 snap q - - hloads ⟨hlim, hbound⟩
        have hmax : b2.sessions.maxOfflineMessages = b1.sessions.maxOfflineMessages :=
          congrArg OfflineQueue.maxMessages hloads.limits
        refine ⟨hmax.trans hlim, fun c q' hq' => ?_⟩
        rw [SessionManager.queueOf, hloads.get] at hq'
        rw [hmax]
        by_cases hc : c = snap.clientId
        · rw [if_pos hc, Option.bind_some, restoredEntry, Option.some.injEq] at hq'
          rw [← hq']
          exact ⟨hloads.bounded, congrArg OfflineQueue.maxMessages hloads.queue⟩
        · rw [if_neg hc] at hq'
          exact hbound c q' hq'
      · intro c q hq
        simp [SessionManager.queueOf, SessionManager.get, blank] at hq
    refine ⟨by rw [hinv.1, new_config h], hinv.2, ?_⟩
    intro c e he hclean
    rw [(new_restored h he).cleanSession] at hclean
    exact absurd hclean (by simp)

/-! ## Deliveries return -/

theorem deliver_isSome (hb : b.Limited) (hpos : 0 < b.config.storage.maxOfflineMessages)
    (c : String)
    (req : OutboundPublish) : ∃ b', b.deliver c req = some b' := by
  have hqueue : ∀ e, b.sessions.get c = some e → ∀ otherwise,
      ∃ d, b.sessions.enqueueOr b.now c e req otherwise = some d := by
    intro e hget otherwise
    unfold enqueueOr
    cases hq : e.offlineQueue with
    | none => exact ⟨_, rfl⟩
    | some q =>
      have hlim : q.maxMessages = b.config.storage.maxOfflineMessages :=
        (hb.bounded c q (by rw [queueOf, hget, bind_some, hq])).2.trans hb.limit
      have hsome : (q.enqueue b.now req).isSome = true :=
        enqueue_isSome_iff.2 (hlim ▸ hpos)
      refine isSome_iff_exists.1 ?_
      show (Option.map _ (q.enqueue b.now req)).isSome = true
      rwa [isSome_map]
  have hdel : ∃ d, b.sessions.deliverOrEnqueue b.now c req = some d := by
    unfold deliverOrEnqueue
    cases hget : b.sessions.get c with
    | none => exact ⟨_, rfl⟩
    | some e =>
      dsimp only
      split_ifs
      · split
        · exact hqueue e hget _
        · split_ifs
          · exact ⟨_, rfl⟩
          · exact hqueue e hget _
      · exact hqueue e hget _
  obtain ⟨d, hd⟩ := hdel
  exact ⟨_, by rw [deliver, hd]; rfl⟩

theorem deliverAll_isSome {r : Routed} (subscribers : List (String × QoS)) (hb : b.Limited)
    (hpos : 0 < b.config.storage.maxOfflineMessages) (hr : .routed r ∈ b.trace) :
    ∃ b', deliverAll r.topic r.payload r.qos r.publisher subscribers b = some b' := by
  induction subscribers generalizing b with
  | nil => exact ⟨b, rfl⟩
  | cons s rest ih =>
    obtain ⟨c, subQos⟩ := s
    unfold deliverAll
    split_ifs with hc
    · exact ih hb hpos hr
    · obtain ⟨b1, hone⟩ := deliver_isSome hb hpos c
        { topic := r.topic, payload := r.payload, qos := deliveryQos r.qos subQos, retain := false }
      have hmove : b.Move {} b1 := .deliver r c subQos b1 hr hc trivial hone
      obtain ⟨b', hrest⟩ := ih (hmove.limited hb) (hmove.limits_eq.1 ▸ hpos) (hmove.trace.subset hr)
      exact ⟨b', by rw [deliverOne, hone, bind_some, hrest]⟩

/-- **Routing returns**, unless the queues have no room at all. -/
theorem route_isSome (hb : b.Limited) (hpos : 0 < b.config.storage.maxOfflineMessages)
    (r : Routed) :
    ∃ b', b.route r = some b' := by
  have hnote : (b.note (.routed r)).Limited := Move.limited (S := {}) (.routed r trivial) hb
  have hret : (if r.retain then (b.note (.routed r)).setRetained r.topic r.payload r.qos
      else b.note (.routed r)).Limited := by
    split_ifs
    · exact Move.limited (S := {}) (.setRetained r List.mem_cons_self) hnote
    · exact hnote
  unfold route publish
  refine deliverAll_isSome _ (Move.limited (S := {}) (.turns r trivial) hret) ?_ ?_
  · split_ifs <;> exact hpos
  · split_ifs <;> exact List.mem_cons_self

end BrokerState

namespace Sys

variable {S : Scope} {s s' : Sys}

theorem Change.limited {b b' : BrokerState} (h : Change S b b') (hs : b.Limited) : b'.Limited := by
  cases h with
  | move b' hb => exact hb.limited hs
  | frame => exact ⟨hs.limit, hs.bounded, hs.clean⟩
  | opened | registered => exact hs.register rfl (fun _ => rfl) rfl
  | restarted config b _ hb =>
    have hnew := BrokerState.new_limited hb
    exact ⟨hnew.limit, hnew.bounded, hnew.clean⟩

/-- **No queue exceeds its limit** in a state that is reached. -/
theorem Reachable.limited (h : Reachable s) : s.broker.Limited :=
  h.broker_invariant (fun _ hb => BrokerState.new_limited hb)
    (fun hchange hs => hchange.limited hs)

end Sys

end LumenMQ
