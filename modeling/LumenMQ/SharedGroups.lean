import Mathlib.Data.String.Basic
import LumenMQ.Subscriptions

set_option autoImplicit false

/-! # Shared groups and their own publishers

A publication goes to one member of every shared group whose filter it matches. The member is picked
before the publisher is left out, so that a group whose turn falls on the publisher gets nothing.
This file takes the calls of `deliver_one` apart by what they are made for, and says when that
happens. -/

namespace LumenMQ

open Option List FinMap SubscriptionTree

/-! ## Turns -/

namespace SharedEntry

/-- It is this member's turn: the counter points to it among the members in the order of their
    names. -/
def TurnOf (entry : SharedEntry) (c : String) : Prop :=
  (entry.members.get c).isSome = true ∧
    entry.rrCounter.toNat % entry.members.entries.length = entry.members.keys.countP (fun x => x < c)

instance (entry : SharedEntry) (c : String) : Decidable (entry.TurnOf c) :=
  inferInstanceAs (Decidable (_ ∧ _))

theorem pick_eq (entry : SharedEntry) :
    entry.pick = entry.members.sorted[entry.rrCounter.toNat % entry.members.entries.length]? := by
  rw [← length_sorted]
  rfl

theorem pick_iff (entry : SharedEntry) (c : String) (q : QoS) :
    entry.pick = some (c, q) ↔ entry.TurnOf c ∧ entry.members.get c = some q := by
  rw [pick_eq, sorted_getElem?_iff, TurnOf]
  constructor
  · rintro ⟨hget, hi⟩
    exact ⟨⟨by rw [hget]; rfl, hi⟩, hget⟩
  · rintro ⟨⟨-, hi⟩, hget⟩
    exact ⟨hget, hi⟩

/-- A group that has members has one whose turn it is. -/
theorem exists_pick {entry : SharedEntry} (h : entry.members.entries ≠ []) :
    ∃ c q, entry.pick = some (c, q) := by
  have hlt : entry.rrCounter.toNat % entry.members.entries.length < entry.members.sorted.length := by
    rw [length_sorted]
    exact Nat.mod_lt _ (length_pos_iff.2 h)
  exact ⟨_, _, (pick_eq entry).trans (getElem?_eq_getElem hlt)⟩

end SharedEntry

/-! ## Calls -/

/-- A call of `deliver_one`: the client and its QoS, and the group it is made for, if any. -/
structure Call where
  onBehalf : Option (String × String)
  clientId : String
  subQos : QoS
deriving DecidableEq

namespace SubscriptionTree

/-- The call that a group asks for. -/
def callFor (t : SubscriptionTree) (topic : String) (key : String × String) : Option Call :=
  (t.shared.get key).bind (fun entry =>
    if TakesTurn topic key entry then
      entry.pick.map (fun m => { onBehalf := some key, clientId := m.1, subQos := m.2 })
    else none)

/-- The calls a publication asks for, those for its publisher included. -/
def asked (t : SubscriptionTree) (topic : String) : List Call :=
  (t.matchesPlain topic).map (fun m => { onBehalf := none, clientId := m.1, subQos := m.2 }) ++
    t.shared.keys.filterMap (t.callFor topic)

/-- The calls that are made. -/
def calls (t : SubscriptionTree) (topic publisher : String) : List Call :=
  (t.asked topic).filter (fun call => call.clientId ≠ publisher)

theorem matchesShared_fst (t : SubscriptionTree) (topic : String) :
    (t.matchesShared topic).1 =
      (t.shared.keys.filterMap (t.callFor topic)).map (fun call => (call.clientId, call.subQos)) := by
  have hpair : t.shared.keys.filterMap (t.callFor topic) =
      t.shared.toPairs.filterMap (fun e => t.callFor topic e.1) := by
    rw [← toPairs_keys, filterMap_map]
    rfl
  rw [hpair, map_filterMap]
  -- entry by entry, the pick of a group whose turn it is
  have hent : ∀ e ∈ t.shared.toPairs, (t.callFor topic e.1).map
      (fun call => (call.clientId, call.subQos)) =
        if TakesTurn topic e.1 e.2 then SharedEntry.pick e.2 else none := by
    intro e he
    rw [callFor, mem_toPairs.1 he, bind_some]
    split_ifs
    · rw [Option.map_map]
      exact map_id'
    · rfl
  rw [filterMap_congr hent]
  unfold matchesShared
  by_cases htop : topic = ""
  · simp [htop, TakesTurn]
  · rw [if_neg htop]
    dsimp only
    rw [filterMap_filter]
    refine filterMap_congr ?_
    intro e _
    simp [htop, TakesTurn]

end SubscriptionTree

namespace BrokerState

/-- The loop of `publish` skips the publisher and delivers to the others, in order. -/
theorem deliverAll_eq (topic : String) (payload : Bytes) (qos : QoS) (exclude : String)
    (subscribers : List (String × QoS)) (b : BrokerState) :
    deliverAll topic payload qos exclude subscribers b =
      (subscribers.filter (fun s => s.1 ≠ exclude)).foldlM
        (fun b s => b.deliverOne s.1 topic payload qos s.2) b := by
  induction subscribers generalizing b with
  | nil => rfl
  | cons s rest ih =>
    obtain ⟨c, subQos⟩ := s
    unfold deliverAll
    by_cases hc : c = exclude
    · simp [hc, ih]
    · rw [if_neg hc, filter_cons_of_pos (by simpa using hc), foldlM_cons]
      refine congrArg _ (funext fun b1 => ?_)
      exact ih b1

/-- **The calls of `Router::publish`**: it sets the retained message, lets the groups take their
    turns, and makes the calls one after the other. -/
theorem publish_eq_calls (b : BrokerState) (topic : String) (payload : Bytes) (qos : QoS)
    (retain : Bool) (publisher : String) :
    b.publish topic payload qos retain publisher =
      (b.subscriptions.calls topic publisher).foldlM
        (fun b call => b.deliverOne call.clientId topic payload qos call.subQos)
        ((if retain then b.setRetained topic payload qos else b).collectSubscribers topic).2 := by
  have hcollect : ∀ b1 : BrokerState, b1.subscriptions = b.subscriptions →
      (b1.collectSubscribers topic).1 =
        (b.subscriptions.asked topic).map (fun call => (call.clientId, call.subQos)) := by
    intro b1 hb1
    simp only [collectSubscribers, hb1, SubscriptionTree.asked, SubscriptionTree.matchesShared_fst,
      List.map_append, List.map_map, Function.comp_def]
    simp
  unfold publish
  dsimp only
  rw [deliverAll_eq, hcollect _ (by split_ifs <;> rfl), List.filter_map, List.foldlM_map]
  rfl

end BrokerState

/-! ## The result -/

namespace SubscriptionTree

theorem onBehalf_of_callFor {t : SubscriptionTree} {topic : String} {key : String × String}
    {call : Call} (h : t.callFor topic key = some call) : call.onBehalf = some key := by
  obtain ⟨entry, -, h⟩ := bind_eq_some_iff.1 h
  split_ifs at h
  obtain ⟨m, -, rfl⟩ := map_eq_some_iff.1 h
  rfl

/-- Only the group itself asks on its own behalf, once. -/
theorem filter_callFor {t : SubscriptionTree} {topic : String} {key : String × String}
    {keys : List (String × String)} (hnodup : keys.Nodup) :
    (keys.filterMap (t.callFor topic)).filter (fun call => call.onBehalf = some key) =
      if key ∈ keys then (t.callFor topic key).toList else [] := by
  induction keys with
  | nil => rfl
  | cons k keys ih =>
    rw [nodup_cons] at hnodup
    rw [filterMap_cons]
    by_cases hk : key = k
    · subst hk
      cases hcall : t.callFor topic key with
      | none => simp [ih hnodup.2, hnodup.1]
      | some call => simp [ih hnodup.2, hnodup.1, onBehalf_of_callFor hcall]
    · cases hcall : t.callFor topic k with
      | none => simp [ih hnodup.2, hk]
      | some call => simp [ih hnodup.2, hk, onBehalf_of_callFor hcall, Ne.symm hk]

/-- The calls that are made for a group. -/
theorem calls_onBehalf (t : SubscriptionTree) (topic publisher : String) (key : String × String) :
    (t.calls topic publisher).filter (fun call => call.onBehalf = some key) =
      (t.callFor topic key).toList.filter (fun call => call.clientId ≠ publisher) := by
  rw [calls, filter_comm, asked, filter_append, filter_callFor t.shared.keys_nodup]
  have hplain : ((t.matchesPlain topic).map (fun m =>
      ({ onBehalf := none, clientId := m.1, subQos := m.2 } : Call))).filter
        (fun call => call.onBehalf = some key) = [] := by
    rw [filter_eq_nil_iff]
    intro call hcall
    obtain ⟨m, -, rfl⟩ := mem_map.1 hcall
    simp
  rw [hplain, nil_append]
  by_cases hmem : key ∈ t.shared.keys
  · rw [if_pos hmem]
  · rw [if_neg hmem]
    rw [FinMap.mem_keys, Option.not_isSome_iff_eq_none] at hmem
    simp [callFor, hmem]

/-- No call is made for a group when it is the publisher's turn. -/
theorem calls_of_turnOf {t : SubscriptionTree} {publisher : String} {key : String × String}
    {entry : SharedEntry} (hget : t.shared.get key = some entry) (h : entry.TurnOf publisher)
    (topic : String) :
    (t.calls topic publisher).filter (fun call => call.onBehalf = some key) = [] := by
  obtain ⟨q, hq⟩ := isSome_iff_exists.1 h.1
  have hpick := (entry.pick_iff publisher q).2 ⟨h, hq⟩
  rw [calls_onBehalf, callFor, hget, bind_some, hpick]
  split_ifs <;> simp

end SubscriptionTree

namespace BrokerState

/-- **A group misses a publication exactly if its turn falls on the publisher.** `Router::publish`
    makes the calls that are listed, one after the other, as long as each of them returns, as it does
    if `max_offline_messages` is positive. For a group with another member than the publisher,
    exactly one of them is made on its behalf, to a member that is not the publisher, exactly if it
    is not the publisher's turn. -/
theorem served_iff (b : BrokerState) {topic publisher : String} {key : String × String}
    {entry : SharedEntry} (hget : b.subscriptions.shared.get key = some entry)
    (hmatch : topicMatchesFilter topic key.2 = true)
    (hother : ∃ c, c ≠ publisher ∧ (entry.members.get c).isSome = true) :
    (∀ payload qos retain, b.publish topic payload qos retain publisher =
      (b.subscriptions.calls topic publisher).foldlM
        (fun b call => b.deliverOne call.clientId topic payload qos call.subQos)
        ((if retain then b.setRetained topic payload qos else b).collectSubscribers topic).2) ∧
    ((∃ c q, c ≠ publisher ∧ entry.members.get c = some q ∧
      (b.subscriptions.calls topic publisher).filter (fun call => call.onBehalf = some key) =
        [{ onBehalf := some key, clientId := c, subQos := q }]) ↔ ¬ entry.TurnOf publisher) := by
  have hmembers : entry.members.entries ≠ [] := by
    intro hnil
    obtain ⟨c, -, hc⟩ := hother
    simp [get_eq_none_of_entries_nil hnil c] at hc
  have htopic : topic ≠ "" := by
    rintro rfl
    simp [topicMatchesFilter] at hmatch
  have hturn : SubscriptionTree.TakesTurn topic key entry := ⟨htopic, hmatch, hmembers⟩
  obtain ⟨c, q, hpick⟩ := SharedEntry.exists_pick hmembers
  have hcall : b.subscriptions.callFor topic key =
      some { onBehalf := some key, clientId := c, subQos := q } := by
    simp [callFor, hget, hturn, hpick]
  obtain ⟨hown, hqos⟩ := (entry.pick_iff c q).1 hpick
  refine ⟨fun payload qos retain => b.publish_eq_calls topic payload qos retain publisher, ?_⟩
  constructor
  · rintro ⟨c', q', -, -, hcalls⟩ hpub
    simp [calls_of_turnOf hget hpub] at hcalls
  · intro hpub
    have hne : c ≠ publisher := by
      rintro rfl
      exact hpub hown
    refine ⟨c, q, hne, hqos, ?_⟩
    rw [calls_onBehalf, hcall]
    simp [hne]

end BrokerState

namespace Sys

/-- Two clients share a subscription to `t`. -/
def sharedRun : List Event :=
  let subscribe : Packet :=
    .subscribe { packetId := 1, topics := [⟨"$share/g/t", .atLeastOnce⟩] }
  opens "a" true :: sends 1 subscribe ++ opens "b" true :: sends 2 subscribe

/-- The group of the run: `b` is a member, and it is the turn of `a`. -/
def sharedGroup (s : Sys) : Bool :=
  (s.broker.subscriptions.shared.get ("g", "t")).any (fun entry =>
    (entry.members.get "b").isSome && entry.TurnOf "a")

theorem exists_sharedGroup {s : Sys} (h : s.sharedGroup = true) :
    ∃ entry, s.broker.subscriptions.shared.get ("g", "t") = some entry ∧
      (entry.members.get "b").isSome = true ∧ entry.TurnOf "a" := by
  obtain ⟨entry, hget, h⟩ := (any_eq_true _ _).1 h
  rw [Bool.and_eq_true, decide_eq_true_eq] at h
  exact ⟨entry, hget, h⟩

theorem served_iff_sharedRun : ∃ (s₀ s : Sys) (entry : SharedEntry), init {} 0 = some s₀ ∧
    s₀.run sharedRun = some s ∧
    ((∃ c q, c ≠ "a" ∧ entry.members.get c = some q ∧
      (s.broker.subscriptions.calls "t" "a").filter (fun call => call.onBehalf = some ("g", "t")) =
        [{ onBehalf := some ("g", "t"), clientId := c, subQos := q }]) ↔ ¬ entry.TurnOf "a") := by
  obtain ⟨s₀, s, h₀, hrun, hs⟩ := exists_run {} 0 sharedRun sharedGroup (by decide +kernel)
  obtain ⟨entry, hget, hb, -⟩ := exists_sharedGroup hs
  have hmatch : topicMatchesFilter "t" "t" = true := by decide +kernel
  exact ⟨s₀, s, entry, h₀, hrun, (s.broker.served_iff hget hmatch ⟨"b", by decide, hb⟩).2⟩

/-- **A group with two members gets nothing of what one of them publishes**, when it is that one's
    turn: no call is made on its behalf. -/
theorem own_publication_lost : ∃ (s : Sys) (entry : SharedEntry), Reachable s ∧
    s.broker.subscriptions.shared.get ("g", "t") = some entry ∧
    topicMatchesFilter "t" "t" = true ∧ (entry.members.get "b").isSome = true ∧
    (s.broker.subscriptions.calls "t" "a").filter (fun call => call.onBehalf = some ("g", "t")) =
      [] := by
  obtain ⟨s₀, s, h₀, hrun, hs⟩ := exists_run {} 0 sharedRun sharedGroup (by decide +kernel)
  obtain ⟨entry, hget, hb, hturn⟩ := exists_sharedGroup hs
  exact ⟨s, entry, ⟨{}, 0, s₀, sharedRun, h₀, hrun⟩, hget, by decide +kernel, hb,
    calls_of_turnOf hget hturn "t"⟩

end Sys

end LumenMQ
