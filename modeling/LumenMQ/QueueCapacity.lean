import LumenMQ.Config.Validate
import LumenMQ.Lib.While
import LumenMQ.SystemMoves

set_option autoImplicit false

/-! # The capacity of an offline queue

`enqueue` runs two loops on the queue: one takes out what has outlived the TTL, the other makes room
for the new message. Here they are written as loops. The first one always ends; the second one ends
if the queue may hold a message at all, and `validate` does not ask for that. -/

namespace LumenMQ

open Option OfflineQueue

namespace OfflineQueue

variable {q : OfflineQueue} {rounds : Nat}

/-! ## The loops of `enqueue` -/

/-- The message at the front has outlived the TTL. -/
def frontExpired (q : OfflineQueue) (now : Instant) (rest : List OfflineMessage) : Bool :=
  rest.head?.any (fun m => q.ttl ≤ now - m.enqueuedAt)

/-- There is no room for another message. -/
def isFull (q : OfflineQueue) (rest : List OfflineMessage) : Bool := q.maxMessages ≤ rest.length

/-- `enqueue`, if each of its loops is over within a number of rounds. `pop_front` does nothing to
    an empty queue. -/
def enqueueWithin (rounds : Nat) (q : OfflineQueue) (now : Instant) (msg : OutboundPublish) :
    Option OfflineQueue := do
  let rest ← While.within (q.frontExpired now) List.tail rounds q.inner
  let rest ← While.within q.isFull List.tail rounds rest
  some { q with inner := rest ++ [⟨msg, now⟩] }

/-- The first loop leaves what `evict_expired_locked` leaves. -/
theorem within_frontExpired (q : OfflineQueue) (now : Instant) (hrounds : q.inner.length ≤ rounds) :
    While.within (q.frontExpired now) List.tail rounds q.inner = some (q.evictExpired now) := by
  have hbody : ∀ rest : List OfflineMessage,
      rest.dropWhile (fun m => q.ttl ≤ now - m.enqueuedAt) = q.evictExpired now →
      q.frontExpired now rest = true →
        rest.tail.dropWhile (fun m => q.ttl ≤ now - m.enqueuedAt) = q.evictExpired now ∧
          rest.tail.length < rest.length := by
    intro rest hrest hfront
    cases rest with
    | nil => simp [frontExpired] at hfront
    | cons m rest =>
      refine ⟨?_, Nat.lt_succ_self _⟩
      have hm : q.ttl ≤ now - m.enqueuedAt := of_decide_eq_true hfront
      rw [← hrest, List.dropWhile_cons_of_pos (by simpa using hm), List.tail_cons]
  obtain ⟨rest, hwithin, hrest, hfront⟩ := While.exists_within hbody rfl hrounds
  rw [hwithin, ← hrest]
  cases rest with
  | nil => rfl
  | cons m rest => rw [List.dropWhile_cons_of_neg (by simpa [frontExpired] using hfront)]

/-- The second loop ends, and leaves what `makeRoom` leaves, if there is room for a message at all:
    every round makes the queue shorter. -/
theorem within_isFull (hpos : 0 < q.maxMessages) {rest : List OfflineMessage}
    (hrounds : rest.length ≤ rounds) :
    While.within q.isFull List.tail rounds rest = (makeRoom q.maxMessages rest).map Prod.snd := by
  have hbody : ∀ rest' : List OfflineMessage,
      (makeRoom q.maxMessages rest').map Prod.snd = (makeRoom q.maxMessages rest).map Prod.snd →
      q.isFull rest' = true →
        (makeRoom q.maxMessages rest'.tail).map Prod.snd =
            (makeRoom q.maxMessages rest).map Prod.snd ∧ rest'.tail.length < rest'.length := by
    intro rest' hrest hfull
    have hfull : q.maxMessages ≤ rest'.length := of_decide_eq_true hfull
    cases rest' with
    | nil => exact absurd hpos (Nat.not_lt.2 hfull)
    | cons m rest' =>
      refine ⟨?_, Nat.lt_succ_self _⟩
      rw [← hrest, makeRoom, if_pos hfull, map_map]
      rfl
  obtain ⟨rest', hwithin, hrest, hroom⟩ := While.exists_within hbody rfl hrounds
  have hroom : ¬ q.maxMessages ≤ rest'.length := of_decide_eq_false hroom
  rw [hwithin, ← hrest]
  cases rest' with
  | nil => rw [makeRoom, if_neg (Nat.pos_iff_ne_zero.1 hpos)]; rfl
  | cons m rest' => rw [makeRoom, if_neg hroom]; rfl

/-- With no room for any message the second loop runs on an empty queue for ever. -/
theorem within_isFull_zero (hzero : q.maxMessages = 0) (rest : List OfflineMessage) (rounds : Nat) :
    While.within q.isFull List.tail rounds rest = none := by
  have hloop : ∀ rest : List OfflineMessage, True → q.isFull rest = true ∧ True := by
    intro rest _
    simp [isFull, hzero]
  exact While.within_eq_none hloop trivial rounds

/-- **The loops compute `enqueue`** within as many rounds as there are messages in the queue. -/
theorem enqueueWithin_eq (hpos : 0 < q.maxMessages) (now : Instant) (msg : OutboundPublish)
    (hrounds : q.inner.length ≤ rounds) :
    q.enqueueWithin rounds now msg = (q.enqueue now msg).map Prod.snd := by
  have hevict : (q.evictExpired now).length ≤ rounds :=
    (List.dropWhile_suffix _).length_le.trans hrounds
  unfold enqueueWithin enqueue
  rw [within_frontExpired q now hrounds, bind_eq_bind, bind_some,
    within_isFull hpos hevict]
  cases makeRoom q.maxMessages (q.evictExpired now) <;> rfl

theorem enqueueWithin_zero (hzero : q.maxMessages = 0) (now : Instant) (msg : OutboundPublish)
    (rounds : Nat) : q.enqueueWithin rounds now msg = none := by
  unfold enqueueWithin
  simp only [within_isFull_zero hzero, bind_eq_bind, bind_none, bind_fun_none]

end OfflineQueue

/-! ## Settings -/

/-- **When enqueueing ends within the configured capacity**: for any queue with the configured limit
    and any message, exactly if the limit is not zero. As many rounds as there are messages in the
    queue are enough then. -/
theorem enqueue_terminates_iff (s : Settings) (inner : List OfflineMessage) (ttl : Duration)
    (now : Instant) (msg : OutboundPublish) :
    (∃ rounds ≤ inner.length, ∃ q',
      OfflineQueue.enqueueWithin rounds ⟨inner, s.storage.maxOfflineMessages, ttl⟩ now msg =
        some q' ∧ q'.inner.length ≤ s.storage.maxOfflineMessages) ↔
      0 < s.storage.maxOfflineMessages := by
  constructor
  · rintro ⟨rounds, -, q', hq', -⟩
    refine Nat.pos_of_ne_zero (fun hzero => ?_)
    rw [enqueueWithin_zero hzero] at hq'
    cases hq'
  · intro hpos
    let q : OfflineQueue := ⟨inner, s.storage.maxOfflineMessages, ttl⟩
    have hsome : (q.enqueue now msg).isSome = true := enqueue_isSome_iff.2 hpos
    obtain ⟨⟨out, q'⟩, henqueue⟩ := isSome_iff_exists.1 hsome
    have hwithin : q.enqueueWithin inner.length now msg = (q.enqueue now msg).map Prod.snd :=
      enqueueWithin_eq hpos now msg (Nat.le_refl _)
    rw [henqueue] at hwithin
    exact ⟨inner.length, Nat.le_refl _, q', hwithin, enqueue_length henqueue⟩

/-- No message may be kept. -/
def keepingNone : Settings := { storage := { maxOfflineMessages := 0 } }

/-- **A limit of zero is accepted, and the broker hangs**: no number of rounds is enough for any
    message, and a message for a client that is offline is not delivered in any number of steps. -/
theorem zero_limit_hangs : validate keepingNone = .ok () ∧
    (∀ ttl now msg rounds,
      (OfflineQueue.new keepingNone.storage.maxOfflineMessages ttl).enqueueWithin rounds now msg =
        none) ∧
    ∃ s, Sys.Reachable s ∧ s.broker.config.storage.maxOfflineMessages = 0 ∧
      s.broker.sessions.queued "a" = [] ∧
      s.step (.manualPublish { topic := "t", payload := "x", qos := 1 }) = none := by
  refine ⟨rfl, fun ttl now msg rounds => enqueueWithin_zero rfl now msg rounds, ?_⟩
  obtain ⟨s₀, s, h₀, hrun, hs⟩ := Sys.exists_run keepingNone 0
    (Sys.opens "a" false :: Sys.sends 1 Sys.subscribeT ++ Sys.sends 1 .disconnect ++ [.finish 1])
    (fun s => s.broker.config.storage.maxOfflineMessages = 0 &&
      (s.broker.sessions.queued "a").isEmpty &&
      (s.step (.manualPublish { topic := "t", payload := "x", qos := 1 })).isNone)
    (by decide +kernel)
  simp only [Bool.and_eq_true, decide_eq_true_eq, List.isEmpty_iff, isNone_iff_eq_none] at hs
  exact ⟨s, ⟨keepingNone, 0, s₀, _, h₀, hrun⟩, hs.1.1, hs.1.2, hs.2⟩

end LumenMQ
