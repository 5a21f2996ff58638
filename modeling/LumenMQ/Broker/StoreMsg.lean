import LumenMQ.Codec.Packet

set_option autoImplicit false

/-! # Outbound messages and offline queues

A session that is not connected keeps its messages in a queue of limited length; every message is
stamped with the time it came in, and the oldest ones go first, when they have outlived the queue's
TTL or when room is needed. Times are counted in nanoseconds from an arbitrary origin. -/

namespace LumenMQ

open Option List

/-- A point in time (`std::time::Instant`). -/
abbrev Instant := Nat

/-- A span of time (`std::time::Duration`). -/
abbrev Duration := Nat

/-- `Duration::from_secs`. -/
def Duration.fromSecs (secs : Nat) : Duration := secs * 1000000000

/-- `Duration::as_secs`, which cuts off the fraction. -/
def Duration.asSecs (d : Duration) : Nat := d / 1000000000

/-- A publication on its way to one session. The connection assigns the packet identifier. -/
structure OutboundPublish where
  topic : String
  payload : Bytes
  qos : QoS
  retain : Bool
deriving DecidableEq, Repr

structure OfflineMessage where
  payload : OutboundPublish
  enqueuedAt : Instant
deriving DecidableEq, Repr

structure OfflineQueue where
  inner : List OfflineMessage := []
  maxMessages : Nat
  ttl : Duration
deriving DecidableEq, Repr

namespace OfflineQueue

variable {maxMessages : Nat} {q q' : OfflineQueue} {out : List OfflineMessage} {now : Instant}
  {msg : OutboundPublish}

/-- The messages from the front on that have outlived the TTL. -/
def expired (q : OfflineQueue) (now : Instant) : List OfflineMessage :=
  q.inner.takeWhile (fun m => q.ttl ≤ now - m.enqueuedAt)

/-- What is left once those are gone. -/
def evictExpired (q : OfflineQueue) (now : Instant) : List OfflineMessage :=
  q.inner.dropWhile (fun m => q.ttl ≤ now - m.enqueuedAt)

/-- `while q.len() >= max_messages { q.pop_front(); }`, with what is taken out. An empty queue has
    nothing to take out, so with a limit of zero the loop never ends. -/
def makeRoom (maxMessages : Nat) :
    List OfflineMessage → Option (List OfflineMessage × List OfflineMessage)
  | [] => if maxMessages = 0 then none else some ([], [])
  | m :: q =>
    if maxMessages ≤ (m :: q).length then
      (makeRoom maxMessages q).map (fun (out, rest) => (m :: out, rest))
    else some ([], m :: q)

/-- Add a message at the end. Returns what had to go for it as well, which the source forgets;
    `none` when the call does not return. -/
def enqueue (q : OfflineQueue) (now : Instant) (msg : OutboundPublish) :
    Option (List OfflineMessage × OfflineQueue) :=
  (makeRoom q.maxMessages (q.evictExpired now)).map (fun (out, rest) =>
    (q.expired now ++ out, { q with inner := rest ++ [⟨msg, now⟩] }))

/-- The messages that are handed over on a reconnect; the queue is empty afterwards. -/
def drain (q : OfflineQueue) (now : Instant) : List OutboundPublish :=
  (q.evictExpired now).map OfflineMessage.payload

/-- `OfflineQueue::new`. -/
def new (maxMessages : Nat) (ttl : Duration) : OfflineQueue := { maxMessages, ttl }

/-- The number of messages that have not outlived the TTL; the others are gone afterwards. -/
def len (q : OfflineQueue) (now : Instant) : Nat × OfflineQueue :=
  let rest := q.evictExpired now
  (rest.length, { q with inner := rest })

def clear (q : OfflineQueue) : OfflineQueue := { q with inner := [] }

/-! ## What the operations keep -/

theorem expired_append_evictExpired (q : OfflineQueue) (now : Instant) :
    q.expired now ++ q.evictExpired now = q.inner :=
  takeWhile_append_dropWhile

theorem makeRoom_append {q rest : List OfflineMessage}
    (h : makeRoom maxMessages q = some (out, rest)) : out ++ rest = q := by
  induction q generalizing out rest with
  | nil =>
    unfold makeRoom at h
    split_ifs at h
    simp only [some.injEq, Prod.mk.injEq] at h
    obtain ⟨rfl, rfl⟩ := h
    rfl
  | cons m q ih =>
    unfold makeRoom at h
    split_ifs at h with hfull
    · obtain ⟨⟨out', rest'⟩, hrec, heq⟩ := map_eq_some_iff.1 h
      simp only [Prod.mk.injEq] at heq
      obtain ⟨rfl, rfl⟩ := heq
      rw [cons_append, ih hrec]
    · simp only [some.injEq, Prod.mk.injEq] at h
      obtain ⟨rfl, rfl⟩ := h
      rfl

/-- Enqueueing discards messages from the front only, and the new one stays. -/
theorem enqueue_append (h : q.enqueue now msg = some (out, q')) :
    out ++ q'.inner = q.inner ++ [⟨msg, now⟩] := by
  obtain ⟨⟨dropped, rest⟩, hroom, heq⟩ := map_eq_some_iff.1 h
  simp only [Prod.mk.injEq] at heq
  obtain ⟨rfl, rfl⟩ := heq
  rw [append_assoc, ← append_assoc dropped, makeRoom_append hroom, ← append_assoc,
    expired_append_evictExpired]

/-- The new message is in the queue, whose limits stay. -/
theorem enqueue_spec (h : q.enqueue now msg = some (out, q')) :
    q'.inner ≠ [] ∧ q'.maxMessages = q.maxMessages ∧ q'.ttl = q.ttl := by
  obtain ⟨⟨dropped, rest⟩, _, heq⟩ := map_eq_some_iff.1 h
  simp only [Prod.mk.injEq] at heq
  obtain ⟨_, rfl⟩ := heq
  exact ⟨by simp, rfl, rfl⟩

theorem makeRoom_length {q rest : List OfflineMessage}
    (h : makeRoom maxMessages q = some (out, rest)) : rest.length < maxMessages := by
  induction q generalizing out rest with
  | nil =>
    unfold makeRoom at h
    split_ifs at h with hzero
    simp only [some.injEq, Prod.mk.injEq] at h
    obtain ⟨rfl, rfl⟩ := h
    exact Nat.pos_of_ne_zero hzero
  | cons m q ih =>
    unfold makeRoom at h
    split_ifs at h with hfull
    · obtain ⟨⟨out', rest'⟩, hrec, heq⟩ := map_eq_some_iff.1 h
      simp only [Prod.mk.injEq] at heq
      exact heq.2 ▸ ih hrec
    · simp only [some.injEq, Prod.mk.injEq] at h
      exact h.2 ▸ Nat.not_le.1 hfull

/-- A queue that has just taken a message keeps its limit. -/
theorem enqueue_length (h : q.enqueue now msg = some (out, q')) :
    q'.inner.length ≤ q.maxMessages := by
  obtain ⟨⟨dropped, rest⟩, hroom, heq⟩ := map_eq_some_iff.1 h
  simp only [Prod.mk.injEq] at heq
  obtain ⟨-, rfl⟩ := heq
  rw [length_append, length_singleton]
  exact makeRoom_length hroom

/-- The queue takes so many messages without giving one up. -/
def takes (q : OfflineQueue) (now : Instant) (n : Nat) : Bool :=
  0 < q.ttl && q.inner.all (fun m => now - m.enqueuedAt < q.ttl) &&
    q.inner.length + n ≤ q.maxMessages

theorem takes_iff {n : Nat} : q.takes now n = true ↔
      0 < q.ttl ∧ (∀ m ∈ q.inner, now - m.enqueuedAt < q.ttl) ∧
        q.inner.length + n ≤ q.maxMessages := by
  simp [takes, and_assoc]

theorem makeRoom_of_length_lt {q : List OfflineMessage} (h : q.length < maxMessages) :
    makeRoom maxMessages q = some ([], q) := by
  cases q with
  | nil => exact if_neg (Nat.ne_of_gt h)
  | cons m q => exact if_neg (Nat.not_le.2 h)

/-- A message for which there is room is added, and nothing else changes. -/
theorem enqueue_of_takes {n : Nat} (hq : q.takes now (n + 1) = true)
    (h : q.enqueue now msg = some (out, q')) :
    q'.inner = q.inner ++ [⟨msg, now⟩] ∧ q'.takes now n = true := by
  obtain ⟨httl, hfresh, hlen⟩ := takes_iff.1 hq
  have hkept : q.evictExpired now = q.inner := by
    unfold evictExpired
    cases hinner : q.inner with
    | nil => rfl
    | cons m rest =>
      have hm := hfresh m (by rw [hinner]; exact mem_cons_self)
      rw [dropWhile_cons_of_neg (by simpa using hm)]
  have hroom : makeRoom q.maxMessages q.inner = some ([], q.inner) :=
    makeRoom_of_length_lt (by omega)
  rw [enqueue, hkept, hroom] at h
  simp only [map_some, some.injEq, Prod.mk.injEq] at h
  obtain ⟨-, rfl⟩ := h
  refine ⟨rfl, takes_iff.2 ⟨httl, ?_, ?_⟩⟩
  · intro m hm
    rcases mem_append.1 hm with hm | hm
    · exact hfresh m hm
    · rw [mem_singleton.1 hm, Nat.sub_self]
      exact httl
  · rw [length_append, length_singleton]
    show q.inner.length + 1 + n ≤ q.maxMessages
    omega

theorem makeRoom_isSome_iff {q : List OfflineMessage} :
    (makeRoom maxMessages q).isSome = true ↔ 0 < maxMessages := by
  induction q with
  | nil =>
    unfold makeRoom
    split_ifs with h
    · simp [h]
    · simpa using Nat.pos_of_ne_zero h
  | cons m q ih =>
    unfold makeRoom
    split_ifs with h
    · rw [isSome_map, ih]
    · simp only [length_cons] at h
      simp
      omega

/-- Enqueueing returns unless the queue cannot hold a single message. -/
theorem enqueue_isSome_iff : (q.enqueue now msg).isSome = true ↔ 0 < q.maxMessages := by
  rw [enqueue, isSome_map, makeRoom_isSome_iff]

end OfflineQueue

end LumenMQ
