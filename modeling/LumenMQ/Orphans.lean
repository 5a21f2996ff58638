import LumenMQ.Subscriptions

set_option autoImplicit false

/-! # Orphan subscriptions

Whoever occurs in the subscription tree should have a session. Every way a session ends takes its
subscriptions along, and a client subscribes on a connection that has registered it. But a
connection that was taken over goes on handling packets: if the session of its successor is gone by
then, a SUBSCRIBE enters subscriptions for a client without a session. -/

namespace LumenMQ

open Option BrokerState Gateway

open Relation (ReflTransGen)

/-! ## The shared state -/

namespace BrokerState

variable {S : Scope} {b b' : BrokerState} {c c' : String}
variable {epoch : Nat} {clean : Bool}

/-- A client with subscriptions has a session. -/
def Kept (b : BrokerState) (c : String) : Prop :=
  b.subscriptions.subscriptionsOf c ≠ [] → (b.sessions.get c).isSome = true

theorem kept_of_nil (h : b.subscriptions.subscriptionsOf c = []) :
    b.Kept c := fun hne => absurd h hne

/-- A client that subscribes only with a session, and whose session is not removed. -/
theorem moves_kept (h : b.Moves S b') (hrem : ¬ S.removes c)
    (hsub : S.subscribes c → (b.sessions.get c).isSome = true) (hb : b.Kept c) :
    b'.Kept c ∧ ((b.sessions.get c).isSome = true → (b'.sessions.get c).isSome = true) := by
  induction h with
  | refl => exact ⟨hb, id⟩
  | tail _ hstep ih =>
    refine ⟨?_, fun hsome => hstep.isSome hrem (ih.2 hsome)⟩
    intro hne
    rcases hstep.resubscribes.ne_nil hne with hold | hmay
    · exact hstep.isSome hrem (ih.1 hold)
    · exact hstep.isSome hrem (ih.2 (hsub hmay))

/-- Where no one subscribes and the session is not removed. -/
theorem Kept.of_moves {R : String → Prop}
    (h : b.Moves { removes := R, subscribes := fun _ => False } b') (hrem : ¬ R c)
    (hb : b.Kept c) : b'.Kept c :=
  (moves_kept h hrem False.elim hb).1

/-! ### The ends of a session -/

theorem subscriptionsOf_forget (b : BrokerState) (c c' : String) :
    (b.forget c).subscriptions.subscriptionsOf c' =
      if c' = c then [] else b.subscriptions.subscriptionsOf c' :=
  b.subscriptions.subscriptionsOf_unsubscribeAll c c'

theorem forget_kept (b : BrokerState) (c : String) : (b.forget c).Kept c :=
  kept_of_nil (by rw [subscriptionsOf_forget, if_pos rfl])

/-- The end of a connection: a session goes together with its subscriptions. -/
theorem Kept.cleanup (hb : b.Kept c') : (b.cleanup c epoch clean).Kept c' := by
  by_cases hc : c' = c
  · subst hc
    unfold cleanup
    split_ifs
    · split
      · exact hb
      · exact forget_kept _ _
    · have hoff : BrokerState.Kept
          { b with sessions := b.sessions.markOffline b.now c' epoch } c' := by
        intro hne
        rw [SessionManager.markOffline_get, isSome_map]
        exact hb hne
      dsimp only
      split_ifs
      · exact hoff
      · split
        · exact hoff
        · exact forget_kept _ _
      · obtain ⟨storage, hs⟩ := persistSessionSnapshot_eq
          { b with sessions := b.sessions.markOffline b.now c' epoch } c'
        rw [hs]
        exact hoff
  · exact hb.of_moves (R := fun x => x = c) (cleanup_moves b rfl) hc

theorem Kept.afterExit {x : Exit} (hb : b.Kept c') (h : b.afterExit c epoch clean x = some b') :
    b'.Kept c' := by
  cases x with
  | closed => exact some.inj h ▸ hb
  | shutdown => exact some.inj h ▸ hb.cleanup
  | disconnect =>
    refine some.inj h ▸ Kept.cleanup ?_
    exact hb.of_moves (R := fun _ => False) (.single (.takeWill c epoch)) not_false
  | abnormal =>
    obtain ⟨b1, hfire, rfl⟩ := map_eq_some_iff.1 h
    refine Kept.cleanup (hb.of_moves (R := fun _ => False) ?_ not_false)
    exact fireWill_moves (fun _ _ => trivial) (fun _ _ _ _ _ => trivial) hfire

theorem subscriptionsOf_forgetAll (cs : List String) (b : BrokerState) (c : String) :
    (cs.foldl (fun b c => b.forget c) b).subscriptions.subscriptionsOf c =
      if c ∈ cs then [] else b.subscriptions.subscriptionsOf c := by
  induction cs generalizing b with
  | nil => simp
  | cons a cs ih =>
    rw [List.foldl_cons, ih, subscriptionsOf_forget]
    by_cases hmem : c ∈ cs
    · simp [hmem]
    · by_cases ha : c = a <;> simp [hmem, ha]

theorem Kept.sweepExpired (hb : b.Kept c) : b.sweepExpired.Kept c := by
  by_cases hc : c ∈ (b.sessions.cleanupExpired b.now).1
  · refine kept_of_nil ?_
    unfold BrokerState.sweepExpired
    dsimp only
    rw [subscriptionsOf_forgetAll, if_pos hc]
  · refine hb.of_moves (R := fun x => x ∈ (b.sessions.cleanupExpired b.now).1)
      (sweepExpired_moves b ?_) hc
    intro c' e hget hexp
    exact mem_cleanupExpired.2 ⟨e, hget, hexp⟩

theorem Kept.deleteSession (hb : b.Kept c') : (b.deleteSession c).2.Kept c' := by
  by_cases hc : c' = c
  · subst hc
    unfold deleteSession
    split_ifs
    · exact hb
    · exact kept_of_nil ((subscriptionsOf_forget b c' c').trans (if_pos rfl))
  · exact hb.of_moves (R := fun x => x = c) (Sys.deleteSession_moves rfl) hc

theorem Kept.cleanupSession (hb : b.Kept c') :
    (Gateway.cleanupSession b c epoch clean).Kept c' := by
  by_cases hc : c' = c
  · subst hc
    unfold cleanupSession
    split_ifs
    · exact hb
    · exact kept_of_nil ((subscriptionsOf_forget b c' c').trans (if_pos rfl))
    · intro hne
      change ((b.sessions.markOffline b.now c' epoch).get c').isSome = true
      rw [SessionManager.markOffline_get, isSome_map]
      exact hb hne
  · exact hb.of_moves (R := fun x => x = c) (cleanupSession_moves rfl trivial) hc

/-! ### Construction -/

/-- A broker starts with a session for whoever it restores subscriptions for. -/
theorem new_kept {config : Settings} {storage : Option Storage} {now : Instant}
    (h : new config storage now = some b) (c : String) : b.Kept c := by
  refine new_invariant (I := fun b => b.Kept c) ?_ ?_ h
  · intro b hb
    exact kept_of_nil (by rw [hb.subscriptions]; rfl)
  · intro b s snap b' q hloads hb hne
    rw [hloads.get]
    by_cases hc : c = snap.clientId
    · rw [if_pos hc]
      rfl
    · rw [if_neg hc]
      rw [hloads.subscriptions, restoreSubscriptions_subscriptionsOf snap hc] at hne
      exact hb hne

end BrokerState

/-! ## The gateway -/

theorem Gateway.kept_dropClient {g : Gateway} {c : String} (peer : SocketAddr)
    (h : g.broker.Kept c) : (g.dropClient peer).broker.Kept c := by
  unfold dropClient
  split
  · exact h
  · exact h.cleanupSession

theorem Gateway.kept_sweep {g : Gateway} {c : String} (h : g.broker.Kept c) :
    g.sweep.broker.Kept c :=
  sweep_invariant (I := fun g => g.broker.Kept c) (fun _ peer h => kept_dropClient peer h) h

/-! ## The system -/

namespace Sys

variable {S : Scope} {s s' : Sys} {c : String}

theorem moves_kept (h : Moves S s s') (hrem : ¬ S.removes c) (hrst : ¬ S.restarts)
    (hsub : S.subscribes c → (s.broker.sessions.get c).isSome = true) (hs : s.broker.Kept c) :
    s'.broker.Kept c ∧
      ((s.broker.sessions.get c).isSome = true → (s'.broker.sessions.get c).isSome = true) := by
  induction h with
  | refl => exact ⟨hs, id⟩
  | @tail s1 s2 _ hstep ih =>
    have hchange := hstep.change
    generalize s2.broker = b at hchange ⊢
    -- a session that begins keeps the others
    have hopened : ∀ {b : BrokerState} {c' : String} {e : SessionEntry},
        b.subscriptions = s1.broker.subscriptions →
        (∀ c, b.sessions.get c = if c = c' then some e else s1.broker.sessions.get c) →
        b.Kept c ∧ ((s.broker.sessions.get c).isSome = true →
          (b.sessions.get c).isSome = true) := by
      intro b c' e hsubs hget
      unfold BrokerState.Kept
      rw [hsubs, hget]
      split_ifs
      · exact ⟨fun _ => rfl, fun _ => rfl⟩
      · exact ih
    cases hchange with
    | move b hb =>
      have hone := BrokerState.moves_kept (.single hb) hrem (fun h => ih.2 (hsub h)) ih.1
      exact ⟨hone.1, fun h => hone.2 (ih.2 h)⟩
    | frame => exact ih
    | opened connect => exact hopened rfl (fun c => SessionManager.register_get ..)
    | registered peer c1 clean => exact hopened rfl (fun c => SessionManager.register_get ..)
    | restarted _ _ h => exact absurd h hrst

/-- Every client that occurs in the tree has a session. -/
def NoOrphans (s : Sys) : Prop :=
  ∀ c, s.broker.subscriptions.Occurs c → (s.broker.sessions.get c).isSome = true

/-- A client whose SUBSCRIBE is handled has a session. -/
def SubscribesWithSession (s : Sys) (e : Event) : Prop :=
  ∀ c, s.subscriber e = some c → (s.broker.sessions.get c).isSome = true

theorem step_kept {e : Event} (hcond : s.SubscribesWithSession e) (hstep : s.step e = some s')
    (hs : s.broker.Kept c) : s'.broker.Kept c := by
  have hall : Allows { subscribes := fun c => s.subscriber e = some c
                       removes := fun c => s.Ends c e
                       restarts := ∃ config, e = .restart config } s e :=
    { allows_all s e with
      subscribes := fun _ h => h
      removes := fun _ h => h
      restarts := fun config h => ⟨config, h⟩ }
  have hmoves : ¬ s.Ends c e → (¬ ∃ config, e = .restart config) → s'.broker.Kept c :=
    fun hends hrst =>
      (moves_kept (step_moves hall hstep) hends hrst (hcond c) hs).1
  cases e with
  | finish k =>
    obtain ⟨conn, x, b, hc, hx, hb, h⟩ := finish_cases hstep
    exact h ▸ (hs.afterExit hb :)
  | sweepDevices => exact some.inj hstep ▸ kept_sweep (g := s.toGateway) hs
  | sweepSessions => exact some.inj hstep ▸ hs.sweepExpired
  | deleteSession c' => exact some.inj hstep ▸ hs.deleteSession
  | datagram peer bytes =>
    by_cases hends : s.Ends c (.datagram peer bytes)
    · obtain ⟨g, hg, rfl⟩ := map_eq_some_iff.1 hstep
      simp only [Ends, disconnector] at hends
      split at hends
      · next hparse =>
        simp only [datagram, hparse, handle, some.injEq] at hg
        exact hg ▸ kept_dropClient peer hs
      · simp at hends
    · exact hmoves hends (by simp)
  | restart config =>
    obtain ⟨b, hb, rfl⟩ := restart_cases hstep
    exact (new_kept hb c :)
  | _ => exact hmoves not_false (by simp)

/-- **No orphans, as long as whoever subscribes has a session.** -/
theorem noOrphans_of_meets {config : Settings} {now : Instant} {s₀ s : Sys} {es : List Event}
    (h₀ : init config now = some s₀) (hrun : s₀.run es = some s)
    (hmeets : s₀.Meets SubscribesWithSession es) : s.NoOrphans := by
  intro c hoccurs
  have hinit : s₀.broker.Kept c := by
    obtain ⟨b, hb, rfl⟩ := map_eq_some_iff.1 h₀
    exact new_kept hb c
  have hkept : s.broker.Kept c :=
    run_invariant (I := fun s => s.broker.Kept c)
      (fun _ _ _ hs hcond hstep => step_kept hcond hstep hs) hinit hmeets hrun
  have hsound := Reachable.sound ⟨config, now, s₀, es, h₀, hrun⟩
  exact hkept ((hsound.occurs_iff c).1 hoccurs)

/-- The condition, as it is checked. -/
def subscribesWithSession (s : Sys) (e : Event) : Bool :=
  (s.subscriber e).all (fun c => (s.broker.sessions.get c).isSome)

theorem subscribesWithSession_spec (s : Sys) (e : Event) (h : s.subscribesWithSession e = true) :
    s.SubscribesWithSession e := by
  intro c hc
  rwa [subscribesWithSession, hc, all_some] at h

theorem noOrphans_of_meets_subscribed : ∃ s₀ s, init {} 0 = some s₀ ∧
    s₀.run (opens "a" true :: sends 1 subscribeT) = some s ∧
    s₀.Meets SubscribesWithSession (opens "a" true :: sends 1 subscribeT) ∧ s.NoOrphans := by
  obtain ⟨s₀, s, h₀, hrun, hmeets, -⟩ := exists_run_meets _ subscribesWithSession_spec {} 0
    (opens "a" true :: sends 1 subscribeT) (fun _ => true) (by decide +kernel)
  exact ⟨s₀, s, h₀, hrun, hmeets, noOrphans_of_meets h₀ hrun hmeets⟩

/-- A connection is taken over, its successor disconnects, and only then it handles a SUBSCRIBE. -/
def supersededRun : List Event :=
  opens "a" true :: opens "a" true :: sends 2 .disconnect ++ .finish 2 :: sends 1 subscribeT

/-- **A superseded connection leaves an orphan.** -/
theorem superseded_subscribe_orphan : ∃ s, Reachable s ∧
    s.broker.subscriptions.Occurs "a" ∧ s.broker.sessions.get "a" = none ∧ ¬ s.NoOrphans := by
  obtain ⟨s₀, s, h₀, hrun, hs⟩ := exists_run {} 0 supersededRun
    (fun s => s.broker.subscriptions.subscriptionsOf "a" = [("t", .atLeastOnce)] &&
      (s.broker.sessions.get "a").isNone) (by decide +kernel)
  rw [Bool.and_eq_true, decide_eq_true_eq, isNone_iff_eq_none] at hs
  have hoccurs : s.broker.subscriptions.Occurs "a" :=
    .index ("t", .atLeastOnce) (by rw [hs.1]; exact List.mem_cons_self)
  refine ⟨s, ⟨{}, 0, s₀, supersededRun, h₀, hrun⟩, hoccurs, hs.2, fun h => ?_⟩
  have hsome := h "a" hoccurs
  simp [hs.2] at hsome

end Sys

end LumenMQ
