import LumenMQ.Broker.Provenance
import LumenMQ.SystemMoves

set_option autoImplicit false

/-! # Where messages come from

The results on the shared state and on a connection carry over to the system: in every state that is
reached, whatever is held for a subscriber or was written to one has the content of a publication
that was routed. What was routed, in turn, came in by an event of the run. -/

namespace LumenMQ

open Option List SessionManager BrokerState

variable {k : Nat} {now : Instant} {b : BrokerState}

open Relation (ReflTransGen)

/-! ## Sources -/

namespace SessionManager

variable {sm : SessionManager} {m : OutboundPublish}

theorem holds_openChannel {capacity : Nat} (h : (sm.openChannel k capacity).Holds m) :
    sm.Holds m := by
  rcases h with ⟨k', ch, hch, hm⟩ | ⟨c, e, q, hget, hq, hm⟩
  · simp only [openChannel, FinMap.get_insert] at hch
    split_ifs at hch
    · simp [← some.inj hch] at hm
    · exact .channel k' ch hch hm
  · exact .queue c e q hget hq hm

theorem holds_closeChannel (h : (sm.closeChannel k).Holds m) : sm.Holds m := by
  rcases h with ⟨k', ch, hch, hm⟩ | ⟨c, e, q, hget, hq, hm⟩
  · exact .channel k' ch (FinMap.get_of_erase hch) hm
  · exact .queue c e q hget hq hm

/-- A session hands over what was in its queue. -/
theorem holds_of_mem_handover {c : String} {e : SessionEntry} (hget : sm.get c = some e)
    (h : m ∈ e.handover now) : sm.Holds m := by
  unfold SessionEntry.handover at h
  split at h
  · next q _ hq =>
    refine .queue c e q hget hq ?_
    rw [← q.expired_append_evictExpired now, map_append]
    exact mem_append_right _ h
  · simp at h

theorem holds_of_mem_expiredOf {c : String} (h : m ∈ sm.expiredOf now c) : sm.Holds m := by
  unfold expiredOf at h
  split at h
  · next q hbin =>
    obtain ⟨e, hget, hq⟩ := bind_eq_some_iff.1 hbin
    refine .queue c e q hget hq ?_
    rw [← q.expired_append_evictExpired now, map_append]
    exact mem_append_left _ h
  · simp at h

end SessionManager

theorem BrokerState.Sourced.onSessions {sessions : SessionManager} (h : b.Sourced)
    (hsess : ∀ m, sessions.Holds m → b.sessions.Holds m) :
    BrokerState.Sourced { b with sessions } := by
  refine h.of_holds suffix_rfl (fun m hm => .inl ?_)
  exact hm.of_parts rfl (fun h => .sessions m (hsess m h)) (fun s hs h => .disk s m hs h)
    (fun e he hm => .trace e m he hm)

theorem BrokerState.Sourced.of_same {b' : BrokerState} (h : b.Sourced)
    (hret : b'.retain = b.retain) (hsess : b'.sessions = b.sessions)
    (hstore : b'.storage = b.storage) (htrace : b'.trace = b.trace) : b'.Sourced := by
  intro m hm
  exact htrace ▸ h m (hm.of_same hret hsess hstore htrace)

theorem Gateway.Move.sourced {S : Scope} {g g' : Gateway} (hmove : g.Move S g')
    (h : g.broker.Sourced) : g'.broker.Sourced := by
  cases hmove with
  | broker b hb => exact hb.sourced h
  | books | asleep | leave => exact h
  | register peer c clean keepAlive hreg =>
    refine BrokerState.Sourced.of_same (b := { g.broker with sessions := _ }) (h.onSessions ?_)
      rfl rfl rfl rfl
    exact fun m hm => holds_register (holds_openChannel hm)
  | take epoch f ch msg rest hf hch hbuf => exact h.shorten hch hbuf
  | dropForwarder epoch f hf => exact h.onSessions (fun m hm => holds_closeChannel hm)

namespace Sys

/-- A message in the shared state, or of a connection's own. -/
inductive Holds (s : Sys) (m : OutboundPublish) : Prop
  | broker (h : s.broker.Holds m)
  | conn (k : Nat) (c : Conn) (hc : s.conns.get k = some c) (h : c.Holds m)

/-- Everything held comes from a publication that was routed. -/
def Sourced (s : Sys) : Prop := ∀ m, s.Holds m → LumenMQ.Sourced s.broker.trace m

variable {S : Scope} {s s' : Sys}

theorem Sourced.task {c : Conn} (h : s.Sourced) (hc : s.conns.get k = some c) :
    (s.task k c).Sourced :=
  ⟨fun m hm => h m (.broker hm), fun m hm => h m (.conn k c hc hm)⟩

theorem Sourced.ofTask {t : Task} (h : s.Sourced) (ht : t.Sourced)
    (htrace : s.broker.trace <:+ t.broker.trace) : (s.ofTask t).Sourced := by
  intro m hm
  rcases hm with hm | ⟨k, c, hc, hm⟩
  · exact ht.broker m hm
  · rcases FinMap.get_insert_cases hc with ⟨-, rfl⟩ | ⟨-, hc⟩
    · exact ht.conn m (hm)
    · exact (h m (.conn k c hc hm)).mono htrace

theorem openSession_sourced (h : b.Sourced) (connect : Connect) (peer : SocketAddr) (buffer : Bytes)
    (credit : Option Nat) : (b.openSession connect peer buffer credit).2.Sourced := by
  have hnoted : (b.noteDiscarded connect.clientId .offline
      (b.sessions.expiredOf b.now connect.clientId)).Sourced :=
    h.noteDiscarded (fun m hm => h m (.sessions m (holds_of_mem_expiredOf hm)))
  refine ⟨?_, fun m hm => ?_⟩
  · refine BrokerState.Sourced.of_same (hnoted.onSessions ?_) rfl rfl rfl rfl
    exact fun m hm => holds_register (holds_openChannel hm)
  · cases hm with
    | replay _ hm =>
      rw [Task.openSession_replay] at hm
      cases hget : b.sessions.get connect.clientId with
      | none => simp [hget] at hm
      | some e =>
        simp only [hget, map_some, getD_some] at hm
        exact hnoted m (.sessions m (holds_of_mem_handover hget hm))
    | inflight id e hget => simp [Task.openSession_inflight] at hget

theorem Move.sourced (hmove : s.Move S s') (h : s.Sourced) : s'.Sourced := by
  have hbr : s.broker.Sourced := fun m hm => h m (.broker hm)
  have htrace := hmove.trace
  cases hmove with
  | gateway g hg =>
    intro m hm
    rcases hm with hm | ⟨k, c, hc, hm⟩
    · exact hg.sourced hbr m hm
    · exact (h m (.conn k c hc hm)).mono htrace
  | task k c t hc ht => exact h.ofTask (ht.sourced (h.task hc)) ht.trace
  | openSession connect peer buffer credit hopen =>
    exact h.ofTask (openSession_sourced hbr ..) (suffix_append _ _)
  | close k c hc hexit =>
    intro m hm
    rcases hm with hm | ⟨k', c', hc', hm⟩
    · have hclosed : BrokerState.Sourced { s.broker with
          sessions := s.broker.sessions.closeChannel k } :=
        hbr.onSessions (fun m hm => holds_closeChannel hm)
      exact hclosed m (hm.of_same rfl rfl rfl rfl)
    · exact h m (.conn k' c' (FinMap.get_of_erase hc') hm)
  | tick d =>
    intro m hm
    rcases hm with hm | ⟨k, c, hc, hm⟩
    · exact hbr m (hm.of_same rfl rfl rfl rfl)
    · exact h m (.conn k c hc hm)
  | restart config s' _ hrst =>
    obtain ⟨b, hb, rfl⟩ := restart_cases hrst
    intro m hm
    rcases hm with hm | ⟨k, c, hc, hm⟩
    · cases hm with
      | sessions _ hm =>
        obtain ⟨disk, hs, hm⟩ := holds_new hb (.sessions m hm)
        exact hbr m (.disk disk m hs hm)
      | retained topic msg hm =>
        obtain ⟨disk, hs, hm⟩ := holds_new hb (.retained topic msg hm)
        exact hbr _ (.disk disk _ hs hm)
      | disk s' _ hs' hm =>
        obtain ⟨disk, hs, hm⟩ := holds_new hb (.disk s' m hs' hm)
        exact hbr m (.disk disk m hs hm)
      | trace e _ he hm => exact hbr m (.trace e m he hm)
    · simp at hc

theorem init_sourced {config : Settings} (h : init config now = some s) : s.Sourced := by
  obtain ⟨b, hb, rfl⟩ := map_eq_some_iff.1 h
  intro m hm
  rcases hm with hm | ⟨k, c, hc, hm⟩
  · obtain ⟨disk, hs, hm⟩ := holds_new hb hm
    split_ifs at hs
    rw [← some.inj hs] at hm
    rcases hm with ⟨key, msg, hmem⟩ | ⟨key, _, hmem⟩
    · exact absurd hmem not_mem_nil
    · exact absurd hmem not_mem_nil
  · simp at hc

/-- **Whatever is held or was written comes from a publication that was routed.** -/
theorem Reachable.sourced (h : Reachable s) : s.Sourced :=
  h.moves_invariant (fun _ _ _ h => init_sourced h) (fun _ _ hs hmove => hmove.sourced hs)

end Sys

/-! ## What is routed -/

/-- All publications of a trace satisfy a condition. -/
def AllRouted (P : Routed → Prop) (trace : List Effect) : Prop := ∀ r, .routed r ∈ trace → P r

section

variable {P : Routed → Prop} {S : Scope}

theorem Sys.Move.allRouted {s s' : Sys} (hmove : s.Move S s')
    (h : AllRouted S.routes s.broker.trace) : AllRouted S.routes s'.broker.trace := by
  have hbr : ∀ r, BrokerState.Adds S (.routed r) → S.routes r := by
    intro r hadds
    cases hadds with
    | routed _ hr => exact hr
  intro r hr
  rcases hmove.extends.mem hr with hr | hadds
  · exact h r hr
  · cases hadds with
    | broker _ hadds => exact hbr r hadds
    | task k c _ hc hadds =>
      cases hadds with
      | broker _ hadds => exact hbr r hadds

/-- A step routes nothing but the publication of its event, and that only if the guards the listener
    asks accept it. -/
theorem Sys.step_allRouted {s s' : Sys} {e : Event} (hstep : s.step e = some s')
    (hroute : ∀ r, s.publication e = some r → (r.ingress.Guarded → r.Passes) → P r)
    (h : AllRouted P s.broker.trace) : AllRouted P s'.broker.trace :=
  Sys.moves_invariant (I := fun s => AllRouted P s.broker.trace) (fun _ _ hs hmove => hmove.allRouted hs)
    (Sys.step_moves (S := { routes := P }) { Sys.allows_all s e with routes := hroute } hstep) h

end

end LumenMQ
