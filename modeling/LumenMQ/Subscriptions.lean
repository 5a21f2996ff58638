import LumenMQ.Broker.SubscriptionInvariant
import LumenMQ.SystemMoves

set_option autoImplicit false

/-! # The subscriptions of a running broker

The tree of a running broker is sound in every state that is reached, and the filters of a client
change only where the client subscribes or unsubscribes or where its session is removed. -/

namespace LumenMQ

open Relation (ReflTransGen)

/-! ## The shared state -/

namespace BrokerState

variable {S : Scope} {b b' : BrokerState}
variable {c : String} {t t' : SubscriptionTree}

/-- A delivery has nothing to do with the subscriptions. -/
theorem Delivered.subscriptions {req : OutboundPublish} (h : b.Delivered c req b') :
    b'.subscriptions = b.subscriptions := by
  cases h <;> rfl

/-- What a move does to the subscriptions. -/
inductive Resubscribes (S : Scope) (t : SubscriptionTree) : SubscriptionTree → Prop
  | same : Resubscribes S t t
  | turns (topic : String) : Resubscribes S t (t.matchesShared topic).2
  | subscribe (clientId filter : String) (qos : QoS) (t' : SubscriptionTree)
      (hsub : S.subscribes clientId) (hok : t.subscribe clientId filter qos = (.ok (), t')) :
      Resubscribes S t t'
  | unsubscribe (clientId filter : String) (hunsub : S.unsubscribes clientId) :
      Resubscribes S t (t.unsubscribe clientId filter).2
  | unsubscribeAll (clientId : String) (hremove : S.removes clientId) :
      Resubscribes S t (t.unsubscribeAll clientId)

theorem Move.resubscribes (h : b.Move S b') : Resubscribes S b.subscriptions b'.subscriptions := by
  cases h with
  | turns r hr => exact .turns r.topic
  | subscribe c filter qos t' hsub hok => exact .subscribe c filter qos t' hsub hok
  | unsubscribe c filter hunsub => exact .unsubscribe c filter hunsub
  | unsubscribeAll c hrem => exact .unsubscribeAll c hrem
  | deliver r c subQos b' hr hne hto hdel =>
    rw [(deliver_delivered hdel).subscriptions]
    exact .same
  | persist c =>
    obtain ⟨storage, hb⟩ := persistSessionSnapshot_eq b c
    rw [hb]
    exact .same
  | _ => exact .same

theorem Resubscribes.sound (h : Resubscribes S t t') (ht : t.Sound) : t'.Sound := by
  cases h with
  | same => exact ht
  | turns topic => exact ht.matchesShared topic
  | subscribe c filter qos _ hsub hok =>
    have hsound := ht.onTree (.subscribe c filter qos)
    rwa [SubOp.onTree, hok] at hsound
  | unsubscribe c filter => exact ht.onTree (.unsubscribe c filter)
  | unsubscribeAll c => exact ht.onTree (.unsubscribeAll c)

theorem Resubscribes.listed (h : Resubscribes S t t') (ht : t.Listed) : t'.Listed := by
  intro c f hf
  cases h with
  | same => exact ht c f hf
  | turns topic => exact ht c f (t.matchesShared_subscriptionsOf topic c ▸ hf)
  | subscribe c' filter qos _ hsub hok =>
    have hlisted := ht.subscribe c' filter qos
    rw [hok] at hlisted
    exact hlisted c f hf
  | unsubscribe c' filter =>
    exact ht c f (List.map_subset _ (t.subscriptionsOf_unsubscribe_subset c' c filter) hf)
  | unsubscribeAll c' =>
    rw [t.subscriptionsOf_unsubscribeAll c' c] at hf
    split_ifs at hf
    · simp at hf
    · exact ht c f hf

/-- The filters of a client that may not change them, and whose session may not be removed. -/
theorem Resubscribes.subscriptionsOf_eq (h : Resubscribes S t t') (hsub : ¬ S.subscribes c)
    (hunsub : ¬ S.unsubscribes c) (hrem : ¬ S.removes c) :
    t'.subscriptionsOf c = t.subscriptionsOf c := by
  cases h with
  | same => rfl
  | turns topic => exact t.matchesShared_subscriptionsOf topic c
  | subscribe c' filter qos _ hsub' hok =>
    rw [t.subscriptionsOf_subscribe c' c filter hok, if_neg]
    rintro rfl
    exact hsub hsub'
  | unsubscribe c' filter hunsub' =>
    refine t.subscriptionsOf_unsubscribe_ne c' c filter ?_
    rintro rfl
    exact hunsub hunsub'
  | unsubscribeAll c' hrem' =>
    rw [t.subscriptionsOf_unsubscribeAll c' c, if_neg]
    rintro rfl
    exact hrem hrem'

/-- A client that has a filter had one before, or may subscribe. -/
theorem Resubscribes.ne_nil (h : Resubscribes S t t') (hc : t'.subscriptionsOf c ≠ []) :
    t.subscriptionsOf c ≠ [] ∨ S.subscribes c := by
  cases h with
  | same => exact .inl hc
  | turns topic => exact .inl (t.matchesShared_subscriptionsOf topic c ▸ hc)
  | subscribe c' filter qos _ hsub hok =>
    rw [t.subscriptionsOf_subscribe c' c filter hok] at hc
    split_ifs at hc with h
    · exact .inr (h ▸ hsub)
    · exact .inl hc
  | unsubscribe c' filter =>
    refine .inl (fun hnil => hc ?_)
    have hsubs := t.subscriptionsOf_unsubscribe_subset c' c filter
    rwa [hnil, List.subset_nil] at hsubs
  | unsubscribeAll c' =>
    rw [t.subscriptionsOf_unsubscribeAll c' c] at hc
    split_ifs at hc
    · exact absurd rfl hc
    · exact .inl hc

theorem restoreSubscriptions_invariant {P : SubscriptionTree → Prop}
    (hP : ∀ t c f q, P t → P (t.subscribe c f q).2) (snap : SessionSnapshot) (h : P t) :
    P (restoreSubscriptions snap t) := by
  unfold restoreSubscriptions
  generalize snap.subscriptions = filters
  induction filters generalizing t with
  | nil => exact h
  | cons f filters ih => exact ih (hP t snap.clientId f.1 f.2 h)

/-- The snapshots of other clients do not matter to a client. -/
theorem restoreSubscriptions_subscriptionsOf (snap : SessionSnapshot) (hc : c ≠ snap.clientId) :
    (restoreSubscriptions snap t).subscriptionsOf c = t.subscriptionsOf c := by
  unfold restoreSubscriptions
  generalize snap.subscriptions = filters
  induction filters generalizing t with
  | nil => rfl
  | cons f filters ih =>
    rw [List.foldl_cons, ih]
    rcases hsub : t.subscribe snap.clientId f.1 f.2 with ⟨_ | ⟨⟩, t'⟩
    · have herr := SubscriptionTree.subscribe_error (congrArg Prod.fst hsub)
      rw [hsub] at herr
      exact congrArg (fun t => t.subscriptionsOf c) herr
    · rw [t.subscriptionsOf_subscribe snap.clientId c f.1 hsub, if_neg hc]

/-- A broker starts with a sound tree. -/
theorem new_sound {config : Settings} {storage : Option Storage} {now : Instant}
    (h : new config storage now = some b) : b.subscriptions.Sound := by
  refine new_invariant (I := fun b => b.subscriptions.Sound) ?_ ?_ h
  · intro b hb
    rw [hb.subscriptions]
    exact SubscriptionTree.sound_empty
  · intro b s snap b' q hloads hb
    rw [hloads.subscriptions]
    exact restoreSubscriptions_invariant (fun _ c f q h => h.onTree (.subscribe c f q)) snap hb

end BrokerState

/-! ## A connection -/

namespace Task

variable {S : Scope} {t t' : Task}

theorem Move.resubscribes (h : t.Move S t') :
    BrokerState.Resubscribes S t.broker.subscriptions t'.broker.subscriptions := by
  rcases h.shared with hb | ⟨channels, trace, hb⟩
  · exact hb.resubscribes
  · rw [hb]
    exact .same

theorem moves_subscriptionsOf_eq (h : Moves S t t') {c : String} (hsub : ¬ S.subscribes c)
    (hunsub : ¬ S.unsubscribes c) (hrem : ¬ S.removes c) :
    t'.broker.subscriptions.subscriptionsOf c = t.broker.subscriptions.subscriptionsOf c := by
  induction h with
  | refl => rfl
  | tail _ hstep ih => exact (hstep.resubscribes.subscriptionsOf_eq hsub hunsub hrem).trans ih

end Task

/-! ## The system -/

namespace Sys

variable {S : Scope} {s s' : Sys}

/-- **The tree of a running broker is sound.** -/
theorem Reachable.sound (h : Reachable s) : s.broker.subscriptions.Sound := by
  refine h.broker_invariant (J := fun b => b.subscriptions.Sound)
    (fun _ hb => BrokerState.new_sound hb) ?_
  intro b b' hchange hs
  cases hchange with
  | move b' hb => exact hb.resubscribes.sound hs
  | frame | opened | registered => exact hs
  | restarted config b _ hb => exact (BrokerState.new_sound hb :)

end Sys

end LumenMQ
