import LumenMQ.Handshakes
import LumenMQ.OfflineQueues

set_option autoImplicit false

/-! # What is held for a client

The broker holds messages for a client in the channel to its task, in the offline queue of its
session and, while they are replayed or in flight, in the record of its connection. A client that
does not read cannot make any of these grow past a limit of the settings. -/

namespace LumenMQ

open Option List FinMap SessionManager

variable {S : Scope}

/-! ## What a move does to the channels -/

/-- No channel is opened, and what is put into one fits. -/
def Refills (chs chs' : FinMap Nat Channel) : Prop :=
  ∀ k ch', chs'.get k = some ch' → ∃ ch, chs.get k = some ch ∧ ch'.capacity = ch.capacity ∧
    (ch'.buffer.length ≤ ch.buffer.length ∨ ch'.buffer.length ≤ ch.capacity)

namespace Refills

variable {chs chs' : FinMap Nat Channel}

theorem of_eq (h : chs' = chs) : Refills chs chs' :=
  fun _ ch' hch' => ⟨ch', h ▸ hch', rfl, .inl le_rfl⟩

theorem insert {k : Nat} {ch : Channel} {buffer : List OutboundPublish}
    (hch : chs.get k = some ch)
    (hfit : buffer.length ≤ ch.buffer.length ∨ buffer.length ≤ ch.capacity) :
    Refills chs (chs.insert k { ch with buffer }) := by
  intro k' ch' hch'
  rcases get_insert_cases hch' with ⟨rfl, rfl⟩ | ⟨-, hch'⟩
  · exact ⟨ch, hch, rfl, hfit⟩
  · exact ⟨ch', hch', rfl, .inl le_rfl⟩

/-- The message at the front is taken out. -/
theorem take {k : Nat} {ch : Channel} {msg : OutboundPublish} {rest : List OutboundPublish}
    (hch : chs.get k = some ch) (hbuf : ch.buffer = msg :: rest) :
    Refills chs (chs.insert k { ch with buffer := rest }) :=
  .insert hch (.inl (by simp [hbuf]))

end Refills

theorem BrokerState.Move.refills {b b' : BrokerState} (h : b.Move S b') :
    Refills b.sessions.channels b'.sessions.channels := by
  cases h with
  | deliver r c subQos b' hr hne hto hdel =>
    cases deliver_delivered hdel with
    | sent e ch hget hconn hch hroom =>
      exact .insert hch (.inr (by simpa [Nat.succ_le_iff] using hroom))
    | enqueued | lost => exact .of_eq rfl
  | markOffline => exact .of_eq (markOffline_channels ..)
  | takeWill => exact .of_eq (takeWill_frame ..).2.2
  | removeSession => exact .of_eq (remove_channels ..)
  | persist c =>
    obtain ⟨storage, hb⟩ := persistSessionSnapshot_eq b c
    exact .of_eq (by rw [hb])
  | _ => exact .of_eq rfl

theorem Task.Move.refills {t t' : Task} (h : t.Move S t') :
    Refills t.broker.sessions.channels t'.broker.sessions.channels := by
  -- building a packet does not touch the channels
  have hbuild : ∀ (t1 : Task) (req : OutboundPublish),
      (t1.buildOutboundPacket req).2.broker.sessions = t1.broker.sessions := by
    intro t1 req
    obtain ⟨trace, hb⟩ := (t1.exchanges_buildOutboundPacket req).broker
    rw [hb]
  cases h with
  | broker b hb => exact hb.refills
  | live ch req rest hch hbuf =>
    rw [hbuild]
    exact .take hch hbuf
  | replay | retained =>
    rw [hbuild]
    exact .of_eq rfl
  | puback id =>
    obtain ⟨trace, hb⟩ := (t.exchanges_puback id).broker
    exact .of_eq (by rw [hb])
  | pubrec id =>
    obtain ⟨trace, hb⟩ := (t.exchanges_pubrec id).broker
    exact .of_eq (by rw [hb])
  | _ => exact .of_eq rfl

/-- The messages of the session before are taken up from the front. -/
theorem Task.Move.replay_suffix {t t' : Task} (h : t.Move S t') :
    t'.conn.replay <:+ t.conn.replay := by
  cases h with
  | replay msg rest hrep =>
    rw [(Task.exchanges_buildOutboundPacket ..).replay, hrep]
    exact suffix_cons msg rest
  | live | retained =>
    rw [(Task.exchanges_buildOutboundPacket ..).replay]
    exact suffix_rfl
  | puback id => exact (t.exchanges_puback id).replay ▸ suffix_rfl
  | pubrec id => exact (t.exchanges_pubrec id).replay ▸ suffix_rfl
  | books c hsame => exact hsame.replay ▸ suffix_rfl
  | _ => exact suffix_rfl

theorem SessionEntry.length_handover_le (e : SessionEntry) {now : Instant} {n : Nat}
    (h : ∀ q, e.offlineQueue = some q → q.inner.length ≤ n) : (e.handover now).length ≤ n := by
  unfold handover
  split
  · next q _ hq =>
    rw [OfflineQueue.drain, length_map]
    exact (dropWhile_suffix _).length_le.trans (h q hq)
  · exact Nat.zero_le n

theorem BrokerState.new_channels {config : Settings} {storage : Option Storage} {now : Instant}
    {b : BrokerState} (h : new config storage now = some b) : b.sessions.channels = ∅ :=
  new_invariant (I := fun b => b.sessions.channels = ∅) (fun _ hb => hb.channels)
    (fun _ _ _ _ _ hloads hb => hloads.channels.trans hb) h

/-! ## The system -/

namespace Sys

variable {s s' : Sys}

/-- The channels keep to the settings. -/
def ChannelsFit (b : BrokerState) : Prop :=
  ∀ k ch, b.sessions.channels.get k = some ch →
    ch.buffer.length ≤ ch.capacity ∧ ch.capacity = max b.config.broker.maxInflight 16

/-- The channels, and what the connections still have to replay, keep to the settings. -/
structure Bounded (s : Sys) : Prop where
  channel : ChannelsFit s.broker
  replay : ∀ k conn, s.conns.get k = some conn →
    conn.replay.length ≤ s.broker.config.storage.maxOfflineMessages

/-- There are neither channels nor connections at first. -/
theorem bounded_of_new {config : Settings} {storage : Option Storage} {now : Instant}
    {b : BrokerState} (h : BrokerState.new config storage now = some b) (trace : List Effect) :
    Bounded { broker := { b with trace } } := by
  refine ⟨fun k ch hch => ?_, by simp⟩
  rw [BrokerState.new_channels h, get_empty] at hch
  cases hch

/-- No channel is opened. -/
theorem ChannelsFit.of_refills {b b' : BrokerState} (hb : ChannelsFit b)
    (hchs : Refills b.sessions.channels b'.sessions.channels) (hcfg : b'.config = b.config) :
    ChannelsFit b' := by
  intro k ch' hch'
  obtain ⟨ch, hch, hcap, hfit⟩ := hchs k ch' hch'
  obtain ⟨hle, hmax⟩ := hb k ch hch
  rw [hcfg, hcap]
  exact ⟨hfit.elim (fun h => h.trans hle) id, hmax⟩

/-- A new channel is empty, and the others stay. -/
theorem ChannelsFit.insert {b : BrokerState} (hb : ChannelsFit b) {k k' : Nat} {ch : Channel}
    (h : FinMap.get (b.sessions.channels.insert k
      { capacity := max b.config.broker.maxInflight 16 }) k' = some ch) :
    ch.buffer.length ≤ ch.capacity ∧ ch.capacity = max b.config.broker.maxInflight 16 := by
  rcases get_insert_cases h with ⟨-, rfl⟩ | ⟨-, h⟩
  · exact ⟨Nat.zero_le _, rfl⟩
  · exact hb k' ch h

/-- A new connection takes over what was in the queue. -/
theorem openSession_replay_le (hlim : s.broker.Limited) (connect : Connect) (peer : SocketAddr)
    (buffer : Bytes) (credit : Option Nat) :
    (s.broker.openSession connect peer buffer credit).2.conn.replay.length ≤
      s.broker.config.storage.maxOfflineMessages := by
  rw [Task.openSession_replay]
  cases hent : s.broker.sessions.get connect.clientId with
  | none => exact Nat.zero_le _
  | some e =>
    refine e.length_handover_le fun q hq => ?_
    obtain ⟨hlen, hmax⟩ := hlim.bounded connect.clientId q (by rw [queueOf, hent]; exact hq)
    exact hlen.trans (hmax.trans hlim.limit).le

theorem Move.channelsFit (h : s.Move S s') (hs : ChannelsFit s.broker) :
    ChannelsFit s'.broker := by
  cases h with
  | gateway g hg =>
    cases hg with
    | broker b hb => exact hs.of_refills hb.refills hb.limits_eq.1
    | books | asleep | leave => exact hs
    | register peer c clean keepAlive => exact fun k ch hch => hs.insert hch
    | take epoch f ch msg rest hf hch hbuf => exact hs.of_refills (.take hch hbuf) rfl
    | dropForwarder => exact fun k ch hch => hs k ch (get_of_erase hch)
  | task k conn t hconn ht => exact hs.of_refills ht.refills ht.config_eq
  | openSession connect peer buffer credit => exact fun k ch hch => hs.insert hch
  | close k conn hconn => exact fun k' ch hch => hs k' ch (get_of_erase hch)
  | tick => exact hs
  | restart config s' hrst h =>
    obtain ⟨b, hb, rfl⟩ := restart_cases h
    exact (bounded_of_new hb _).channel

theorem Move.bounded (h : s.Move S s') (hlim : s.broker.Limited) (hs : s.Bounded) : s'.Bounded := by
  refine ⟨h.channelsFit hs.channel, h.onConns
    (P := fun config conn => conn.replay.length ≤ config.storage.maxOfflineMessages) ?_
    (openSession_replay_le hlim) hs.replay⟩
  intro t t' hmove ht
  rw [hmove.config_eq]
  exact hmove.replay_suffix.length_le.trans ht

theorem Reachable.bounded (h : Reachable s) : s.Bounded := by
  refine (h.moves_invariant (I := fun s => s.broker.Limited ∧ s.Bounded) ?_ ?_).2
  · intro config now s0 h0
    refine ⟨Reachable.limited ⟨config, now, s0, [], h0, rfl⟩, ?_⟩
    obtain ⟨b, hb, rfl⟩ := map_eq_some_iff.1 h0
    exact bounded_of_new hb b.trace
  · rintro s s' ⟨hlim, hs⟩ hmove
    exact ⟨hmove.change.limited hlim, hmove.bounded hlim hs⟩

/-- **What the broker holds for its clients is bounded by its settings**, in every state that is
    reached: neither a channel nor a queue, a replay or a table of messages in flight grows past its
    limit. -/
theorem held_bounded (h : Reachable s) :
    (∀ k ch, s.broker.sessions.channels.get k = some ch →
      ch.buffer.length ≤ max s.broker.config.broker.maxInflight 16) ∧
    (∀ c q, s.broker.sessions.queueOf c = some q →
      q.inner.length ≤ s.broker.config.storage.maxOfflineMessages) ∧
    (∀ k conn, s.conns.get k = some conn →
      conn.replay.length ≤ s.broker.config.storage.maxOfflineMessages ∧
      conn.inflight.entries.length ≤ s.broker.config.broker.maxInflight) := by
  refine ⟨fun k ch hch => ?_, fun c q hq => ?_, fun k conn hconn => ?_⟩
  · obtain ⟨hlen, hcap⟩ := h.bounded.channel k ch hch
    exact hcap ▸ hlen
  · obtain ⟨hlen, hmax⟩ := h.limited.bounded c q hq
    exact hlen.trans (hmax.trans h.limited.limit).le
  · exact ⟨h.bounded.replay k conn hconn, (h.numbered.1 k conn hconn).length_le⟩

theorem held_bounded_inflight : ∃ s conn, Reachable s ∧ s.conns.get 1 = some conn ∧
    (conn.inflight.get 1).isSome = true ∧
    conn.inflight.entries.length ≤ s.broker.config.broker.maxInflight := by
  obtain ⟨s₀, s, h₀, hrun, hs⟩ := exists_run {} 0 inflightRun
    (fun s => (s.conns.get 1).any (fun c => (c.inflight.get 1).isSome)) (by decide +kernel)
  obtain ⟨conn, hconn, hsome⟩ := (any_eq_true _ _).1 hs
  have hreach : Reachable s := ⟨{}, 0, s₀, inflightRun, h₀, hrun⟩
  exact ⟨s, conn, hreach, hconn, hsome, ((held_bounded hreach).2.2 1 conn hconn).2⟩

end Sys

end LumenMQ
