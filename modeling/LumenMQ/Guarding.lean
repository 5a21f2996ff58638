import LumenMQ.Provenance

set_option autoImplicit false

/-! # Guarding the router

The router asks no guard; its callers do, and not all of them. What a connection or an administrator
publishes is checked, what a device publishes and what a client leaves behind as its will is not. So
the guards' decisions bind the broker exactly in the runs in which nothing of the latter kind would
have been refused. -/

namespace LumenMQ

open Option

namespace Sys

/-- What comes in past the guards would have passed them. -/
def Unobjectionable (s : Sys) (e : Event) : Prop :=
  ∀ r, s.publication e = some r → ¬ r.ingress.Guarded → r.Passes

/-- The guards accept everything that has reached the router, and with it everything that is held
    for a subscriber or in a retained slot, or was written to one. -/
structure Guarded (s : Sys) : Prop where
  routed : ∀ r, .routed r ∈ s.broker.trace → r.Passes
  held : ∀ m, s.Holds m →
    ∃ r, .routed r ∈ s.broker.trace ∧ r.Passes ∧ r.topic = m.topic ∧ r.payload = m.payload

end Sys

/-! ## What goes past the guards -/

/-- A will that is there to be published is published. -/
theorem BrokerState.mem_trace_fireWill {b b' : BrokerState} {c : String} {epoch : Nat}
    {w : WillMessage} (hwill : b.pendingWill c epoch = some w)
    (h : b.fireWill c epoch = some b') : .routed (b.willRouted c w) ∈ b'.trace := by
  have hown : b.sessions.owns c epoch = true := by
    unfold pendingWill SessionManager.takeWill at hwill
    unfold SessionManager.owns
    split at hwill
    · next e hget =>
      split_ifs at hwill with hep
      simpa [hget] using hep
    · simp at hwill
  unfold pendingWill at hwill
  unfold fireWill at h
  rw [if_pos hown] at h
  rcases htake : b.sessions.takeWill c epoch with ⟨w', sessions⟩
  rw [htake] at hwill h
  cases hwill
  exact mem_trace_route h

/-- What a device publishes is routed. -/
theorem Gateway.mem_trace_handlePublish {g g' : Gateway} {peer : SocketAddr} {flags : UInt8}
    {topicId msgId : UInt16} {data : Bytes} {r : Routed}
    (hpub : g.publicationOf peer flags topicId data = some r)
    (h : g.handlePublish peer flags topicId msgId data = some g') :
    .routed r ∈ g'.broker.trace := by
  obtain ⟨g1, hanswer, ⟨hnone, -⟩ | ⟨r', b, hr, hb, rfl⟩⟩ := handlePublish_cases h
  · simp [hnone] at hpub
  · obtain rfl : r' = r := some.inj (hr.symm.trans hpub)
    have hroute := BrokerState.mem_trace_route hb
    rcases hanswer with rfl | ⟨code, rfl⟩
    · exact hroute
    · exact List.mem_cons_of_mem _ hroute

namespace Sys

variable {s s' : Sys}
variable {r : Routed}

theorem mem_trace_finish {k : Nat} (h : s.finish k = some s')
    (hpub : s.publication (.finish k) = some r) : .routed r ∈ s'.broker.trace := by
  obtain ⟨c, x, b, hc, hx, hb, h⟩ := finish_cases h
  simp only [publication, hc, hx, some.injEq] at hpub
  split_ifs at hpub with habnormal
  subst habnormal
  obtain ⟨w, hw, rfl⟩ := map_eq_some_iff.1 hpub
  obtain ⟨b1, hfire, rfl⟩ := map_eq_some_iff.1 hb
  have hcleanup : b1.trace <:+ (b1.cleanup c.clientId k c.clean).trace :=
    BrokerState.moves_trace (BrokerState.cleanup_moves (S := {}) b1 trivial)
  exact h ▸ hcleanup.subset (BrokerState.mem_trace_fireWill hw hfire)

theorem mem_trace_datagram {peer : SocketAddr} {bytes : Bytes} {g g' : Gateway}
    (h : g.datagram peer bytes = some g') (hpub : g.publication peer bytes = some r) :
    .routed r ∈ g'.broker.trace := by
  unfold Gateway.publication at hpub
  split at hpub
  · next flags topicId msgId data hparse =>
    unfold Gateway.datagram at h
    simp only [hparse, Gateway.handle] at h
    exact Gateway.mem_trace_handlePublish hpub h
  · simp at hpub

/-- What no guard is asked about reaches the router. -/
theorem mem_trace_step {e : Event} (hstep : s.step e = some s') (hpub : s.publication e = some r)
    (hunguarded : ¬ r.ingress.Guarded) : .routed r ∈ s'.broker.trace := by
  cases publication_published hpub with
  | packet k a c p ha hc hnext hr => exact absurd (hr ▸ trivial) hunguarded
  | will k => exact mem_trace_finish hstep hpub
  | device peer bytes hr =>
    obtain ⟨g, hg, rfl⟩ := map_eq_some_iff.1 hstep
    exact mem_trace_datagram hg hr
  | admin req qos hqos hr => exact absurd (hr ▸ trivial) hunguarded

/-! ## Steps and runs -/

/-- After a step everything routed has passed the guards exactly if that was so before and the step
    brings in nothing else. -/
theorem allRouted_step_iff {e : Event} (hstep : s.step e = some s') :
    AllRouted Routed.Passes s'.broker.trace ↔
      AllRouted Routed.Passes s.broker.trace ∧ s.Unobjectionable e := by
  constructor
  · intro h
    refine ⟨fun r hr => h r ((step_trace hstep).subset hr), fun r hpub hunguarded => ?_⟩
    exact h r (mem_trace_step hstep hpub hunguarded)
  · rintro ⟨h, hcond⟩
    refine step_allRouted hstep (fun r hpub hguard => ?_) h
    by_cases hg : r.ingress.Guarded
    · exact hguard hg
    · exact hcond r hpub hg

/-- **The guards bind the broker exactly if nothing they would refuse comes in past them.** -/
theorem guarded_iff {config : Settings} {now : Instant} {s₀ s : Sys} {es : List Event}
    (h₀ : init config now = some s₀) (hrun : s₀.run es = some s) :
    s.Guarded ↔ s₀.Meets Unobjectionable es := by
  have hinit : AllRouted Routed.Passes s₀.broker.trace := by
    intro r hr
    simp [init_trace h₀] at hr
  have hiff := run_iff (I := fun _ => True) (J := fun s => AllRouted Routed.Passes s.broker.trace)
    (fun _ _ _ _ _ => trivial) (fun _ _ _ _ hstep => allRouted_step_iff hstep) trivial hrun
  rw [and_iff_right hinit] at hiff
  rw [← hiff]
  refine ⟨fun h => h.routed, fun h => ⟨h, fun m hm => ?_⟩⟩
  obtain ⟨r, hr, htopic, hpayload, -⟩ := Reachable.sourced ⟨config, now, s₀, es, h₀, hrun⟩ m hm
  exact ⟨r, hr, h r hr, htopic, hpayload⟩

/-- A policy that denies publishing on one topic. -/
def denyTopic : Settings :=
  { plugin := { enabled := true, topicAcl := { publishBlacklist := ["ab"] } } }

/-- A device connects and publishes a retained message on the short topic name `ab`. -/
def deviceRun : List Event :=
  [deviceOpens true,
   .datagram deviceAddr [8, 0x0C, 0x12, 0x61, 0x62, 0, 1, 0x78]]

theorem guarded_iff_deviceRun : ∃ s₀ s, init {} 0 = some s₀ ∧ s₀.run deviceRun = some s ∧
    (s.Guarded ↔ s₀.Meets Unobjectionable deviceRun) := by
  obtain ⟨s₀, s, h₀, hrun, -⟩ := exists_run {} 0 deviceRun (fun _ => true) (by decide +kernel)
  exact ⟨s₀, s, h₀, hrun, guarded_iff h₀ hrun⟩

/-- The plugin guard refuses one of the publications of a trace. -/
def refusesSome (trace : List Effect) : Bool :=
  trace.any (fun
    | .routed r => !(r.plugin.checkPublish r.topic r.payload).isOk
    | _ => false)

/-- **A denied topic gets a retained message**: no guard is asked about what a device publishes. -/
theorem denied_device_publish_retained : ∃ s₀ s, init denyTopic 0 = some s₀ ∧
    s₀.run deviceRun = some s ∧ (s.broker.retain.map.get "ab").isSome = true ∧ ¬ s.Guarded := by
  obtain ⟨s₀, s, h₀, hrun, hs⟩ := exists_run denyTopic 0 deviceRun
    (fun s => (s.broker.retain.map.get "ab").isSome && refusesSome s.broker.trace)
    (by decide +kernel)
  obtain ⟨hretained, hrefused⟩ := Bool.and_eq_true_iff.1 hs
  refine ⟨s₀, s, h₀, hrun, hretained, fun hguarded => ?_⟩
  obtain ⟨e, he, hrefused⟩ := List.any_eq_true.1 hrefused
  split at hrefused
  · next r =>
    rw [(hguarded.routed r he).2] at hrefused
    simp [Except.isOk, Except.toBool] at hrefused
  · simp at hrefused

end Sys

end LumenMQ
