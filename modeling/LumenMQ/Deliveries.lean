import LumenMQ.Sending
import LumenMQ.SharedGroups

set_option autoImplicit false

/-! # Deliveries

Only what a client has asked for reaches it. Whatever happens in the system, a message is accepted
for a client only by the routing of a publication of somebody else, under a subscription of the
client that matches its topic; and overlapping subscriptions do not multiply it. -/

namespace LumenMQ

open Option List FinMap SubscriptionTree

/-! ## Subscriptions that are asked -/

/-- The topics a filter is for; the group of a shared one does not matter. -/
def topicFilter (filter : String) : String := ((parseSharedFilter filter).map Prod.snd).getD filter

namespace SubscriptionTree

variable {t : SubscriptionTree} {topic publisher c : String} {q : QoS}

/-- The client has subscribed to the topic with this QoS. -/
def Wants (t : SubscriptionTree) (c topic : String) (q : QoS) : Prop :=
  ∃ f, (f, q) ∈ t.subscriptionsOf c ∧ topicMatchesFilter topic (topicFilter f) = true

/-- The groups that a client is a member of. -/
def groupsOf (t : SubscriptionTree) (c : String) : List (String × String) :=
  (t.subscriptionsOf c).filterMap (fun s => parseSharedFilter s.1)

/-- The members of a group have subscribed to it. -/
theorem Sound.mem_subscriptionsOf_of_member (h : t.Sound) {key : String × String}
    {entry : SharedEntry} (hget : t.shared.get key = some entry)
    (hmem : entry.members.get c = some q) :
    ∃ f, parseSharedFilter f = some key ∧ (f, q) ∈ t.subscriptionsOf c := by
  obtain ⟨M, hM⟩ := h.represents
  obtain ⟨f, hf⟩ := h.keyed key (by rw [hget]; rfl)
  refine ⟨f, hf, ((hM.indexed c).2 f q).2 ?_⟩
  rw [← hM.member c f key hf, memberQos, hget, bind_some]
  exact hmem

/-- What a publication asks for, a subscription asks for. -/
theorem Sound.wants_of_asked (h : t.Sound) {call : Call} (hcall : call ∈ t.asked topic) :
    t.Wants call.clientId topic call.subQos := by
  rcases mem_append.1 hcall with hcall | hcall
  · obtain ⟨⟨c, q⟩, hmatch, rfl⟩ := mem_map.1 hcall
    by_cases htop : topic = ""
    · simp [matchesPlain, htop] at hmatch
    · obtain ⟨M, hM⟩ := h.represents
      obtain ⟨⟨f, hf, hMf, hmatch⟩, -⟩ := (hM.mem_matchesPlain htop c q).1 hmatch
      refine ⟨f, ((hM.indexed c).2 f q).2 hMf, ?_⟩
      rw [topicFilter, hf]
      exact hmatch
  · obtain ⟨key, -, hfor⟩ := mem_filterMap.1 hcall
    obtain ⟨entry, hget, hfor⟩ := bind_eq_some_iff.1 hfor
    split_ifs at hfor with hturn
    obtain ⟨⟨c, q⟩, hpick, rfl⟩ := map_eq_some_iff.1 hfor
    obtain ⟨f, hf, hsub⟩ := h.mem_subscriptionsOf_of_member hget (members_of_pick hpick)
    refine ⟨f, hsub, ?_⟩
    rw [topicFilter, hf]
    exact hturn.2.1

/-- A client is asked for at most once on account of its plain filters, and once for each of its
    groups. -/
theorem Sound.countP_asked_le (h : t.Sound) (topic c : String) :
    (t.asked topic).countP (fun call => call.clientId = c) ≤ 1 + (t.groupsOf c).length := by
  rw [asked, countP_append, countP_map]
  refine Nat.add_le_add ?_ ?_
  · have hnd : ((t.matchesPlain topic).map Prod.fst).Nodup := by
      unfold matchesPlain
      split_ifs
      · exact nodup_nil
      · exact toPairs_nodup _
    calc (t.matchesPlain topic).countP _
        = ((t.matchesPlain topic).map Prod.fst).count c := by
          rw [List.count, countP_map]
          exact countP_congr (by simp)
      _ ≤ 1 := nodup_iff_count_le_one.1 hnd c
  · -- a group asks for a client only if it is a member
    rw [countP_filterMap, countP_eq_length_filter]
    refine Subperm.length_le (subperm_of_subset (t.shared.keys_nodup.filter _) ?_)
    intro key hkey
    obtain ⟨-, hkey⟩ := mem_filter.1 hkey
    rw [getD_eq_iff, or_iff_left (by simp)] at hkey
    obtain ⟨call, hfor, hc⟩ := map_eq_some_iff.1 hkey
    obtain ⟨entry, hget, hfor⟩ := bind_eq_some_iff.1 hfor
    split_ifs at hfor
    obtain ⟨⟨c', q⟩, hpick, rfl⟩ := map_eq_some_iff.1 hfor
    obtain rfl : c' = c := by simpa using hc
    obtain ⟨f, hf, hsub⟩ := h.mem_subscriptionsOf_of_member hget (members_of_pick hpick)
    exact mem_filterMap.2 ⟨(f, q), hsub, hf⟩

end SubscriptionTree

/-! ## Routing -/

/-- What a trace says was accepted, the latest first. -/
def acceptances (trace : List Effect) : List (String × OutboundPublish) :=
  trace.filterMap (fun x => match x with
    | .accepted c msg => some (c, msg)
    | _ => none)

theorem mem_acceptances {trace : List Effect} {c : String} {msg : OutboundPublish} :
    (c, msg) ∈ acceptances trace ↔ .accepted c msg ∈ trace := by
  unfold acceptances
  rw [mem_filterMap]
  constructor
  · rintro ⟨x, hx, heq⟩
    cases x <;> cases heq
    exact hx
  · intro h
    exact ⟨_, h, rfl⟩

namespace BrokerState

variable {b b' : BrokerState} {r : Routed}

/-- A delivery is accepted once or not at all. -/
theorem deliver_acceptances {c : String} {req : OutboundPublish} (h : b.deliver c req = some b') :
    ∃ es, b'.trace = es ++ b.trace ∧ (acceptances es <+ [(c, req)]) := by
  cases deliver_delivered h with
  | sent => exact ⟨[.accepted c req], rfl, .refl _⟩
  | enqueued e q q' out =>
    refine ⟨.accepted c req :: (out.map OfflineMessage.payload).map (.discarded c · .offline),
      rfl, ?_⟩
    refine cons_sublist_cons.2 (eq_nil_iff_forall_not_mem.2 ?_ ▸ .refl _)
    rintro ⟨c', msg⟩ hmem
    obtain ⟨x, -, hx⟩ := mem_map.1 (mem_acceptances.1 hmem)
    cases hx
  | lost => exact ⟨[], rfl, nil_sublist _⟩

theorem collectSubscribers_fst (b : BrokerState) (topic : String) :
    (b.collectSubscribers topic).1 =
      (b.subscriptions.asked topic).map (fun call => (call.clientId, call.subQos)) := by
  simp [collectSubscribers, asked, matchesShared_fst, Function.comp_def]

/-- **Routing accepts what it calls for, in order**, and nothing else. -/
theorem route_acceptances (h : b.route r = some b') :
    ∃ es, b'.trace = es ++ .routed r :: b.trace ∧
      (acceptances es).reverse <+
        (b.subscriptions.calls r.topic r.publisher).map
          (fun call => (call.clientId, r.outbound call.subQos)) := by
  rw [route, publish_eq_calls] at h
  generalize hb0 : ((if r.retain then (b.note (.routed r)).setRetained r.topic r.payload r.qos
    else b.note (.routed r)).collectSubscribers r.topic).2 = b0 at h
  have htrace : b0.trace = .routed r :: b.trace := by
    rw [← hb0]
    split_ifs <;> rfl
  rw [← htrace]
  show ∃ es, _ ∧ _ <+ (map _ ((b.note (.routed r)).subscriptions.calls _ _))
  generalize (b.note (.routed r)).subscriptions.calls r.topic r.publisher = calls at h
  clear hb0 htrace
  induction calls generalizing b0 with
  | nil => exact some.inj h ▸ ⟨[], rfl, nil_sublist _⟩
  | cons call calls ih =>
    rw [foldlM_cons] at h
    obtain ⟨b1, hone, hrest⟩ := bind_eq_some_iff.1 h
    obtain ⟨es, hes, hacc⟩ := deliver_acceptances hone
    obtain ⟨es', hes', hacc'⟩ := ih b1 hrest
    refine ⟨es' ++ es, by rw [hes', hes, append_assoc], ?_⟩
    rw [acceptances, filterMap_append, reverse_append]
    exact hacc.reverse.append hacc'

end BrokerState

/-! ## The system -/

namespace Sys

variable {s s' : Sys} {e : Event} {r : Routed} {b' : BrokerState}

/-- **Routing delivers a publication unaltered to those who have subscribed to it**, with no more
    than the QoS they asked for and not to its publisher; a client gets one copy for its plain
    filters, however many of them match, and at most one more for each of its groups. -/
theorem route_integrity (hs : Reachable s) (hroute : s.broker.route r = some b') :
    ∃ es, b'.trace = es ++ .routed r :: s.broker.trace ∧
      (∀ c msg, .accepted c msg ∈ es → c ≠ r.publisher ∧ ∃ q,
        s.broker.subscriptions.Wants c r.topic q ∧ msg = r.outbound q) ∧
      ∀ c, (acceptances es).countP (fun a => a.1 = c) ≤
        1 + (s.broker.subscriptions.groupsOf c).length := by
  obtain ⟨es, hes, hacc⟩ := BrokerState.route_acceptances hroute
  refine ⟨es, hes, fun c msg hmem => ?_, fun c => ?_⟩
  · obtain ⟨call, hcall, heq⟩ := mem_map.1 (hacc.subset (mem_reverse.2 (mem_acceptances.2 hmem)))
    obtain ⟨rfl, rfl⟩ := Prod.mk.inj heq
    obtain ⟨hask, hne⟩ := mem_filter.1 hcall
    exact ⟨by simpa using hne, call.subQos, hs.sound.wants_of_asked hask, rfl⟩
  · calc (acceptances es).countP (fun a => a.1 = c)
        = (acceptances es).reverse.countP (fun a => a.1 = c) := (countP_reverse ..).symm
      _ ≤ (s.broker.subscriptions.calls r.topic r.publisher).countP
            (fun call => call.clientId = c) :=
          (hacc.countP_le).trans_eq (countP_map ..)
      _ ≤ _ := (filter_sublist.countP_le).trans (hs.sound.countP_asked_le r.topic c)

/-- A client subscribes to `t`. -/
def readerRun : List Event :=
  opens "a" true :: sends 1 (.subscribe { packetId := 1, topics := [⟨"t", .exactlyOnce⟩] })

theorem route_integrity_readerRun : ∃ s r b' es, Reachable s ∧ s.broker.route r = some b' ∧
    b'.trace = es ++ .routed r :: s.broker.trace ∧
    ∀ c msg, .accepted c msg ∈ es → ∃ q, msg = r.outbound q := by
  obtain ⟨s₀, s, h₀, hrun, hs⟩ := exists_run {} 0 readerRun (fun s => (s.broker.route
    (s.broker.manualRouted { topic := "t", payload := "x" } .atMostOnce)).isSome) (by decide +kernel)
  obtain ⟨b', hroute⟩ := isSome_iff_exists.1 hs
  have hreach : Reachable s := ⟨{}, 0, s₀, readerRun, h₀, hrun⟩
  obtain ⟨es, hes, hint, -⟩ := route_integrity hreach hroute
  refine ⟨s, _, b', es, hreach, hroute, hes, fun c msg hacc => ?_⟩
  obtain ⟨-, q, -, hmsg⟩ := hint c msg hacc
  exact ⟨q, hmsg⟩

/-- Who may be delivered to in a step: the subscribers of what is published in it. -/
def Solicits (s : Sys) (e : Event) (c : String) : Prop :=
  ∃ r, s.publication e = some r ∧ c ≠ r.publisher ∧ ∃ q, s.broker.subscriptions.Wants c r.topic q

/-- **Nobody is sent what they did not ask for.** In whatever step of a run a message is accepted
    for a client, that step brings a publication of somebody else, and the client has subscribed to
    its topic. -/
theorem accepted_solicited (hs : Reachable s) (hstep : s.step e = some s') :
    ∀ c msg, .accepted c msg ∈ added s s' → s.Solicits e c := by
  have hall : Allows { delivers := s.Solicits e } s e := { allows_all s e with
    delivers := by
      intro r hr c hne hreach
      obtain ⟨⟨c', q⟩, hmem, hc⟩ := any_eq_true.1 hreach
      obtain rfl : c' = c := by simpa using hc
      refine ⟨r, hr, hne, q, ?_⟩
      rw [BrokerState.collectSubscribers_fst] at hmem
      obtain ⟨call, hask, heq⟩ := List.mem_map.1 hmem
      obtain ⟨rfl, rfl⟩ := Prod.mk.inj heq
      exact hs.sound.wants_of_asked hask }
  have hext : ∀ s1, Moves { delivers := s.Solicits e } s s1 →
      Extends (fun x => ∀ c msg, x = .accepted c msg → s.Solicits e c)
        s.broker.trace s1.broker.trace := by
    intro s1 h
    induction h with
    | refl => exact .refl _
    | tail _ hmove ih =>
      refine ih.trans (hmove.extends.mono ?_)
      rintro x hx c msg rfl
      cases hx with
      | broker _ h =>
        cases h with
        | accepted _ _ hto => exact hto
      | task k conn _ hconn h =>
        cases h with
        | broker _ h =>
          cases h with
          | accepted _ _ hto => exact hto
  intro c msg hmem
  exact forall_added hstep (hext s' (step_moves hall hstep)) _ hmem c msg rfl

theorem accepted_solicited_readerRun : ∃ s e s' c msg, Reachable s ∧ s.step e = some s' ∧
    .accepted c msg ∈ added s s' ∧ s.Solicits e c := by
  obtain ⟨s, s', hreach, hstep, hacc⟩ := exists_step {} 0 readerRun
    (.manualPublish { topic := "t", payload := "x" })
    (fun s s' => !(acceptances (added s s')).isEmpty) (by decide +kernel)
  obtain ⟨⟨c, msg⟩, hmem⟩ := exists_mem_of_ne_nil _ (by simpa using hacc)
  have hmem := mem_acceptances.1 hmem
  exact ⟨s, _, s', c, msg, hreach, hstep, hmem, accepted_solicited hreach hstep c msg hmem⟩

/-- **Nothing is made up.** Whatever message the broker has accepted for a client, taken up, written
    or given up, live, replayed or retained, somebody has published: with this topic and payload,
    and with no lower QoS. The PUBLISHes of the gateway bear no topic and are left out; what they
    carry was accepted for the device before. -/
theorem messages_authentic (hs : Reachable s) :
    ∀ x ∈ s.broker.trace, ∀ m, x.message = some m →
      ∃ r, .routed r ∈ s.broker.trace ∧ r.topic = m.topic ∧ r.payload = m.payload ∧ m.qos ≤ r.qos :=
  fun x hx m hm => hs.sourced m (.broker (.trace x m hx hm))

theorem messages_authentic_readerRun : ∃ s, Reachable s ∧
    s.broker.trace.any (fun x => x.message.isSome) = true ∧ ∀ x ∈ s.broker.trace, ∀ m,
      x.message = some m → ∃ r, .routed r ∈ s.broker.trace ∧ r.topic = m.topic := by
  obtain ⟨s, s', hreach, hstep, hsome⟩ := exists_step {} 0 readerRun
    (.manualPublish { topic := "t", payload := "x" })
    (fun _ s => s.broker.trace.any (fun x => x.message.isSome)) (by decide +kernel)
  refine ⟨s', hreach.step hstep, hsome, fun x hx m hm => ?_⟩
  obtain ⟨r, hr, htopic, -⟩ := messages_authentic (hreach.step hstep) x hx m hm
  exact ⟨r, hr, htopic⟩

end Sys

end LumenMQ
