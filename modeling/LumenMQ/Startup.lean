import LumenMQ.Broker.Connection
import LumenMQ.Config.Validate
import LumenMQ.Net.MqttSn
import LumenMQ.Plugin.Forwarder

set_option autoImplicit false

/-! # The configuration and the runtime

Some numbers of the configuration end up as arguments of primitives that panic on a wrong one: the
period of the retry timer, the capacity of the channel of a session, the length of the forwarder's
queue. This file collects the calls that a broker can make, and says for which configurations all of
them are safe. `validate` looks at none of the three. -/

namespace LumenMQ

namespace Settings

/-! ## The calls of a broker -/

/-- A listener for MQTT over a stream is switched on. -/
def servesStreams (s : Settings) : Bool := s.tcp.enabled || s.tls.enabled || s.websocket.enabled

/-- Devices can connect over MQTT-SN, which they do without a name. -/
def servesDevices (s : Settings) : Bool := s.mqttSn.enabled && s.auth.allowAnonymous

/-- The capacity of the channel of a session, over MQTT and over MQTT-SN. -/
def sessionCapacity (s : Settings) : Nat := max s.broker.maxInflight 16

/-- The period of the retry timer of a connection. -/
def retryTimeout (s : Settings) : Duration :=
  Duration.fromSecs (s.broker.retryIntervalSecs.getD 10)

/-- The period of the heartbeat timer of a connection. -/
def heartbeatPeriod (keepAlive : UInt16) : Duration :=
  Duration.fromSecs (if keepAlive = 0 then 3600 else keepAlive.toNat * 3 / 2 + 1)

/-- The calls that a broker with this configuration can make. -/
inductive Makes (s : Settings) : RuntimeCall → Prop
  | forwarder (client : Except String Unit) (call : RuntimeCall)
      (h : call ∈ (HttpForwarder.new s.plugin.forward client).2) : Makes s call
  /-- A session that is loaded from disk gets a channel nobody receives from. -/
  | restored (h : s.storage.enabled = true) : Makes s (.channel 1)
  | sweeper : Makes s (.interval (Duration.fromSecs 30))
  | session (h : s.servesStreams = true) : Makes s (.channel s.sessionCapacity)
  | heartbeat (h : s.servesStreams = true) (keepAlive : UInt16) :
      Makes s (.interval (heartbeatPeriod keepAlive))
  | retry (h : s.servesStreams = true) : Makes s (.interval s.retryTimeout)
  /-- The sweep over the devices. -/
  | gateway (h : s.mqttSn.enabled = true) : Makes s (.interval (Duration.fromSecs 5))
  | device (h : s.servesDevices = true) : Makes s (.channel s.sessionCapacity)
  /-- The dashboard. -/
  | admin (h : s.admin.enabled = true) : Makes s (.interval (Duration.fromSecs 2))

/-- The numbers that reach a primitive are such that it does not panic. -/
def Runnable (s : Settings) : Prop :=
  (s.servesStreams = true → s.broker.retryIntervalSecs ≠ some 0) ∧
    (s.servesStreams = true ∨ s.servesDevices = true → s.broker.maxInflight ≤ maxPermits) ∧
    (s.plugin.forward.starts = true → s.plugin.forward.maxQueue ≤ maxPermits)

theorem fromSecs_ne_zero {secs : Nat} : Duration.fromSecs secs ≠ 0 ↔ secs ≠ 0 := by
  simp [Duration.fromSecs]

theorem safe_heartbeat (keepAlive : UInt16) :
    (RuntimeCall.interval (heartbeatPeriod keepAlive)).Safe := by
  refine fromSecs_ne_zero.2 ?_
  split_ifs
  · decide
  · exact Nat.succ_ne_zero _

theorem safe_session_iff (s : Settings) :
    (RuntimeCall.channel s.sessionCapacity).Safe ↔ s.broker.maxInflight ≤ maxPermits := by
  have hdef : 16 ≤ maxPermits := by decide
  unfold RuntimeCall.Safe sessionCapacity
  constructor
  · rintro ⟨-, hcap⟩
    exact (le_max_left _ 16).trans hcap
  · intro hinf
    exact ⟨le_trans (by decide) (le_max_right _ 16), max_le hinf hdef⟩

theorem safe_retry_iff (s : Settings) :
    (RuntimeCall.interval s.retryTimeout).Safe ↔ s.broker.retryIntervalSecs ≠ some 0 := by
  refine fromSecs_ne_zero.trans ?_
  cases s.broker.retryIntervalSecs with
  | none => simp
  | some secs => simp

theorem safe_forwarder_iff (cfg : ForwardConfig) (client : Except String Unit) :
    (∀ call ∈ (HttpForwarder.new cfg client).2, call.Safe) ↔
      (cfg.starts = true → cfg.maxQueue ≤ maxPermits) := by
  rw [HttpForwarder.calls_new]
  cases cfg.starts with
  | false => simp
  | true =>
    have hdef : 1 ≤ 1024 ∧ 1024 ≤ maxPermits := by decide
    rw [if_pos rfl, List.forall_mem_singleton]
    unfold RuntimeCall.Safe
    split_ifs with hzero
    · rw [hzero]
      exact iff_of_true hdef (fun _ => Nat.zero_le _)
    · have hpos : 1 ≤ cfg.maxQueue := Nat.pos_of_ne_zero hzero
      constructor
      · exact fun h _ => h.2
      · exact fun h => ⟨hpos, h rfl⟩

/-- **Which configurations are safe.** All calls that a broker can make have arguments that the
    runtime takes exactly if the retry interval is not zero, the limit on messages in flight does
    not exceed the greatest capacity, and neither does the queue of a forwarder that is started. -/
theorem makes_safe_iff (s : Settings) : (∀ call, s.Makes call → call.Safe) ↔ s.Runnable := by
  constructor
  · intro h
    refine ⟨?_, ?_, ?_⟩
    · intro hstreams
      exact (safe_retry_iff s).1 (h _ (.retry hstreams))
    · rintro (hstreams | hdevices)
      · exact (safe_session_iff s).1 (h _ (.session hstreams))
      · exact (safe_session_iff s).1 (h _ (.device hdevices))
    · refine (safe_forwarder_iff _ (.ok ())).1 ?_
      exact fun call hcall => h call (.forwarder (.ok ()) call hcall)
  · rintro ⟨hretry, hinflight, hqueue⟩ call hcall
    cases hcall with
    | forwarder client call h => exact (safe_forwarder_iff _ client).2 hqueue call h
    | restored h => exact (by decide : (RuntimeCall.channel 1).Safe)
    | session h => exact (safe_session_iff s).2 (hinflight (.inl h))
    | device h => exact (safe_session_iff s).2 (hinflight (.inr h))
    | heartbeat h keepAlive => exact safe_heartbeat keepAlive
    | retry h => exact (safe_retry_iff s).2 (hretry h)
    | sweeper => exact fromSecs_ne_zero.2 (by decide)
    | gateway h => exact fromSecs_ne_zero.2 (by decide)
    | admin h => exact fromSecs_ne_zero.2 (by decide)

/-! ## Configurations that are accepted all the same -/

/-- Retry without a pause. -/
def retryAtOnce : Settings := { broker := { retryIntervalSecs := some 0 } }

/-- More messages in flight than a channel can hold. -/
def inflightUnbounded : Settings := { broker := { maxInflight := 2 ^ 61 } }

/-- A forwarder with a queue longer than a channel can be. -/
def queueUnbounded : Settings :=
  { plugin := { forward :=
      { enabled := true, url := { text := "http://example.com/mqtt" }, maxQueue := 2 ^ 61 } } }

/-- `validate` accepts them, and the broker panics: at the first connection, or at the start. -/
theorem accepted_not_safe :
    (validate retryAtOnce = .ok () ∧ ∃ call, retryAtOnce.Makes call ∧ ¬ call.Safe) ∧
    (validate inflightUnbounded = .ok () ∧ ∃ call, inflightUnbounded.Makes call ∧ ¬ call.Safe) ∧
    validate queueUnbounded = .ok () ∧ ∃ call, queueUnbounded.Makes call ∧ ¬ call.Safe := by
  refine ⟨⟨rfl, _, .retry rfl, ?_⟩, ⟨rfl, _, .session rfl, ?_⟩, rfl, .channel (2 ^ 61),
    .forwarder (.ok ()) _ ?_, ?_⟩
  · rw [safe_retry_iff]
    decide
  · rw [safe_session_iff]
    decide
  · decide +kernel
  · decide

/-! ## The sessions of the model -/

end Settings

/-- A connection gets the channel of the call. -/
theorem BrokerState.channel_openSession (b : BrokerState) (connect : Connect) (peer : SocketAddr)
    (buffer : Bytes) (credit : Option Nat) :
    (b.openSession connect peer buffer credit).2.broker.sessions.channels.get
        (b.openSession connect peer buffer credit).2.epoch =
      some { capacity := b.config.sessionCapacity } :=
  FinMap.get_insert_self ..

/-- So does a device. -/
theorem Gateway.channel_register (b : BrokerState) (peer : SocketAddr) (clientId : String)
    (clean : Bool) :
    (register b peer clientId clean).2.sessions.channels.get (register b peer clientId clean).1 =
      some { capacity := b.config.sessionCapacity } :=
  FinMap.get_insert_self ..

/-- The timer goes by the same period as the messages it retransmits. -/
theorem Task.retryExpired_eq (t : Task) : t.retryExpired = t.conn.inflight.retryExpired t.broker.now
    t.broker.config.retryTimeout (t.broker.config.broker.maxRetries.getD 3) := rfl

end LumenMQ
