import Mathlib.Data.List.DropRight
import LumenMQ.Broker.StoreMsg

set_option autoImplicit false

/-! # The offline queue against its log

The log of a queue is everything that was enqueued since it was last emptied, with nothing ever
thrown out. What a queue is for is said on the log in one line (`newestLive`): the youngest
`maxMessages` messages, without those that have outlived the TTL. The queue itself throws messages
out early and in two ways, from the front only; `Tracks` says what is left of the log then, and the
answers to any sequence of calls are those of the log. -/

namespace LumenMQ

open List OfflineQueue

/-! ## The last entries of a list -/

theorem rtake_append {α : Type} (k : Nat) (l1 l2 : List α) :
    (l1 ++ l2).rtake k = l1.rtake (k - l2.length) ++ l2.rtake k := by
  have hright : l1.length + l2.length - k - l1.length = l2.length - k := by omega
  unfold rtake
  rw [length_append, drop_append, hright]
  rcases Nat.le_total l2.length k with h | h
  · have hleft : l1.length + l2.length - k = l1.length - (k - l2.length) := by omega
    rw [hleft]
  · have hnone : l1.drop (l1.length + l2.length - k) = [] := drop_eq_nil_of_le (by omega)
    have hzero : l1.length - (k - l2.length) = l1.length := by omega
    rw [hnone, hzero, drop_length]

theorem rtake_rtake_succ {α : Type} (k : Nat) (l : List α) :
    (l.rtake (k + 1)).rtake k = l.rtake k := by
  unfold rtake
  rw [drop_drop, length_drop]
  congr 1
  omega

theorem length_rtake_le {α : Type} (k : Nat) (l : List α) : (l.rtake k).length ≤ k := by
  rw [rtake, length_drop]
  omega

/-! ## Calls -/

/-- The calls of a queue. -/
inductive OfflineQueueCall where
  | enqueue (msg : OutboundPublish)
  | drain
  | len
  | clear
deriving DecidableEq, Repr

/-- What a call returns. -/
inductive OfflineReply where
  | done
  | messages (ms : List OutboundPublish)
  | count (n : Nat)
deriving DecidableEq, Repr

namespace OfflineQueue

/-- One call at a time `now`; `none` when it does not return. -/
def call (q : OfflineQueue) (now : Instant) :
    OfflineQueueCall → Option (OfflineReply × OfflineQueue)
  | .enqueue msg => (q.enqueue now msg).map (fun (_, q') => (.done, q'))
  | .drain => some (.messages (q.drain now), { q with inner := [] })
  | .len => some (.count (q.len now).1, (q.len now).2)
  | .clear => some (.done, q.clear)

/-- A sequence of calls, with their replies. -/
def runCalls (q : OfflineQueue) :
    List (Instant × OfflineQueueCall) → Option (List OfflineReply × OfflineQueue)
  | [] => some ([], q)
  | (now, c) :: calls =>
    (q.call now c).bind (fun (reply, q') =>
      (runCalls q' calls).map (fun (replies, q'') => (reply :: replies, q'')))

end OfflineQueue

/-! ## The log -/

namespace OfflineLog

/-- The youngest `maxMessages` messages of a log, without those that have outlived the TTL. -/
def newestLive (maxMessages : Nat) (ttl : Duration) (log : List OfflineMessage) (now : Instant) :
    List OfflineMessage :=
  (log.rtake maxMessages).filter (fun m => now - m.enqueuedAt < ttl)

/-- What a call returns, and the log after it. -/
def call (maxMessages : Nat) (ttl : Duration) (log : List OfflineMessage) (now : Instant) :
    OfflineQueueCall → OfflineReply × List OfflineMessage
  | .enqueue msg => (.done, log ++ [⟨msg, now⟩])
  | .drain => (.messages ((newestLive maxMessages ttl log now).map OfflineMessage.payload), [])
  | .len => (.count (newestLive maxMessages ttl log now).length, log)
  | .clear => (.done, [])

/-- What a sequence of calls returns. -/
def replies (maxMessages : Nat) (ttl : Duration) (log : List OfflineMessage) :
    List (Instant × OfflineQueueCall) → List OfflineReply
  | [] => []
  | (now, c) :: calls =>
    (call maxMessages ttl log now c).1 ::
      replies maxMessages ttl (call maxMessages ttl log now c).2 calls

end OfflineLog

namespace OfflineQueue

variable {q : OfflineQueue} {now : Instant} {log : List OfflineMessage}

/-- A queue holds the end of its log: of the last `maxMessages` messages only some at the front are
    missing, and those have outlived the TTL. -/
structure Tracks (q : OfflineQueue) (now : Instant) (log : List OfflineMessage) : Prop where
  sorted : log.Pairwise (fun m m' => m.enqueuedAt ≤ m'.enqueuedAt)
  past : ∀ m ∈ log, m.enqueuedAt ≤ now
  cut : ∃ gone, log.rtake q.maxMessages = gone ++ q.inner ∧
    ∀ m ∈ gone, q.ttl ≤ now - m.enqueuedAt

theorem tracks_nil (h : q.inner = []) (now : Instant) : q.Tracks now [] :=
  ⟨List.Pairwise.nil, by simp, [], by simp [h, rtake], by simp⟩

/-- In order of time, the messages that have outlived the TTL are at the front. -/
theorem dropWhile_eq_filter {ttl : Duration} {l : List OfflineMessage}
    (h : l.Pairwise (fun m m' => m.enqueuedAt ≤ m'.enqueuedAt)) :
    l.dropWhile (fun m => ttl ≤ now - m.enqueuedAt) =
      l.filter (fun m => now - m.enqueuedAt < ttl) := by
  induction h with
  | nil => rfl
  | @cons m l hm hl ih =>
    by_cases hold : ttl ≤ now - m.enqueuedAt
    · rw [dropWhile_cons_of_pos (by simpa using hold),
        filter_cons_of_neg (by simpa using hold), ih]
    · have hyoung : ∀ m' ∈ m :: l, now - m'.enqueuedAt < ttl := by
        intro m' hm'
        rcases mem_cons.mp hm' with rfl | hm'
        · exact Nat.lt_of_not_le hold
        · exact lt_of_le_of_lt (Nat.sub_le_sub_left (hm m' hm') now) (Nat.lt_of_not_le hold)
      rw [dropWhile_cons_of_neg (by simpa using hold), filter_eq_self.mpr]
      simpa using hyoung

namespace Tracks

variable {q : OfflineQueue} {now t : Instant} {log : List OfflineMessage}

theorem inner_sublist (h : q.Tracks now log) : q.inner.Sublist log := by
  obtain ⟨gone, hcut, -⟩ := h.cut
  have hsuffix : q.inner.Sublist (log.rtake q.maxMessages) := by
    rw [hcut]
    exact sublist_append_right _ _
  exact hsuffix.trans (drop_sublist _ _)

/-- A queue holds no more than it may. -/
theorem length_le (h : q.Tracks now log) : q.inner.length ≤ q.maxMessages := by
  obtain ⟨gone, hcut, -⟩ := h.cut
  have hle := length_rtake_le q.maxMessages log
  rw [hcut, length_append] at hle
  omega

/-- What is left once the expired messages are gone is what the log says. -/
theorem evictExpired_eq (h : q.Tracks now log) (ht : now ≤ t) :
    q.evictExpired t = OfflineLog.newestLive q.maxMessages q.ttl log t := by
  obtain ⟨gone, hcut, hgone⟩ := h.cut
  have hnone : gone.filter (fun m => t - m.enqueuedAt < q.ttl) = [] := by
    rw [filter_eq_nil_iff]
    intro m hm
    have hold := (hgone m hm).trans (Nat.sub_le_sub_right ht m.enqueuedAt)
    simpa using hold
  rw [evictExpired, dropWhile_eq_filter (h.sorted.sublist h.inner_sublist), OfflineLog.newestLive,
    hcut, filter_append, hnone, nil_append]

/-- Time passes, and the queue throws the expired messages out. -/
theorem evict (h : q.Tracks now log) (ht : now ≤ t) :
    Tracks { q with inner := q.evictExpired t } t log := by
  obtain ⟨gone, hcut, hgone⟩ := h.cut
  refine ⟨h.sorted, fun m hm => (h.past m hm).trans ht, gone ++ q.expired t, ?_, ?_⟩
  · rw [append_assoc, expired_append_evictExpired]
    exact hcut
  · intro m hm
    rcases mem_append.mp hm with hm | hm
    · exact (hgone m hm).trans (Nat.sub_le_sub_right ht _)
    · simpa using mem_takeWhile_imp hm

end Tracks

/-- Making room leaves the last entries, one fewer than may be held. -/
theorem makeRoom_succ (k : Nat) (l : List OfflineMessage) :
    makeRoom (k + 1) l = some (l.take (l.length - k), l.rtake k) := by
  induction l with
  | nil => simp [makeRoom, rtake]
  | cons m l ih =>
    rw [makeRoom]
    split
    · next hfull =>
      rw [length_cons] at hfull
      have hsub : (m :: l).length - k = l.length - k + 1 := by
        rw [length_cons]
        omega
      rw [ih, rtake, rtake, hsub, take_succ_cons, drop_succ_cons]
      rfl
    · next hroom =>
      have hsub : (m :: l).length - k = 0 := by omega
      rw [rtake, hsub]
      rfl

/-- Enqueueing puts the message on the queue and on the log. -/
theorem Tracks.enqueue {t : Instant} (h : q.Tracks now log) (ht : now ≤ t)
    (hmax : 1 ≤ q.maxMessages) (msg : OutboundPublish) :
    ∃ out q', q.enqueue t msg = some (out, q') ∧ q'.maxMessages = q.maxMessages ∧ q'.ttl = q.ttl ∧
      q'.Tracks t (log ++ [⟨msg, t⟩]) := by
  obtain ⟨k, hk⟩ : ∃ k, q.maxMessages = k + 1 := ⟨q.maxMessages - 1, by omega⟩
  obtain ⟨hsorted, hpast, gone, hcut, hgone⟩ := h.evict ht
  simp only [hk] at hcut
  rw [OfflineQueue.enqueue, hk, makeRoom_succ]
  refine ⟨_, _, rfl, rfl, rfl, ?_, ?_, gone.rtake (k - (q.evictExpired t).length), ?_, ?_⟩
  · rw [pairwise_append]
    refine ⟨hsorted, pairwise_singleton _ _, fun m hm m' hm' => ?_⟩
    rw [mem_singleton.mp hm']
    exact hpast m hm
  · intro m hm
    rcases mem_append.mp hm with hm | hm
    · exact hpast m hm
    · rw [mem_singleton.mp hm]
  · show (log ++ [(⟨msg, t⟩ : OfflineMessage)]).rtake (k + 1) = _
    rw [rtake_concat_succ, ← rtake_rtake_succ, hcut, rtake_append, append_assoc]
  · intro m hm
    exact hgone m (mem_of_mem_drop hm)

/-- **One call.** A queue that tracks its log answers as the log does, and tracks it afterwards. -/
theorem Tracks.call {t : Instant} (h : q.Tracks now log) (ht : now ≤ t) (hmax : 1 ≤ q.maxMessages)
    (c : OfflineQueueCall) :
    ∃ q', q.call t c = some ((OfflineLog.call q.maxMessages q.ttl log t c).1, q') ∧
      q'.maxMessages = q.maxMessages ∧ q'.ttl = q.ttl ∧
      q'.Tracks t (OfflineLog.call q.maxMessages q.ttl log t c).2 := by
  cases c with
  | enqueue msg =>
    obtain ⟨out, q', henq, hmax', httl, htracks⟩ := h.enqueue ht hmax msg
    exact ⟨q', by rw [OfflineQueue.call, henq]; rfl, hmax', httl, htracks⟩
  | drain =>
    refine ⟨{ q with inner := [] }, ?_, rfl, rfl, tracks_nil rfl t⟩
    rw [OfflineQueue.call, drain, h.evictExpired_eq ht]
    rfl
  | len =>
    refine ⟨{ q with inner := q.evictExpired t }, ?_, rfl, rfl, h.evict ht⟩
    rw [OfflineQueue.call, len, h.evictExpired_eq ht]
    rfl
  | clear => exact ⟨q.clear, rfl, rfl, rfl, tracks_nil rfl t⟩

theorem Tracks.runCalls (h : q.Tracks now log) (hmax : 1 ≤ q.maxMessages)
    {calls : List (Instant × OfflineQueueCall)} (hsorted : calls.Pairwise (fun c c' => c.1 ≤ c'.1))
    (hnow : ∀ c ∈ calls, now ≤ c.1) :
    ∃ q', q.runCalls calls = some (OfflineLog.replies q.maxMessages q.ttl log calls, q') ∧
      q'.inner.length ≤ q.maxMessages := by
  induction calls generalizing q now log with
  | nil => exact ⟨q, rfl, h.length_le⟩
  | cons c calls ih =>
    obtain ⟨t, c⟩ := c
    obtain ⟨hlater, hsorted⟩ := pairwise_cons.mp hsorted
    obtain ⟨q1, hcall, hmax1, httl1, htracks⟩ := h.call (hnow _ mem_cons_self) hmax c
    obtain ⟨q', hrun, hlen⟩ := ih htracks (hmax1.symm ▸ hmax) hsorted hlater
    rw [hmax1, httl1] at hrun
    rw [hmax1] at hlen
    refine ⟨q', ?_, hlen⟩
    rw [runCalls, hcall]
    show Option.map _ (q1.runCalls calls) = _
    rw [hrun]
    rfl

/-- **The offline queue keeps exactly the newest live messages.** Along any sequence of calls at
    non-decreasing times every call returns and answers as the log does: `drain` gives, in the order
    they came in, those of the last `maxMessages` messages since the queue was last emptied that
    have not outlived the TTL, and `len` their number. At no point does it hold more than
    `maxMessages`. -/
theorem runCalls_eq_replies (maxMessages : Nat) (ttl : Duration) (hmax : 1 ≤ maxMessages)
    (calls : List (Instant × OfflineQueueCall))
    (hsorted : calls.Pairwise (fun c c' => c.1 ≤ c'.1)) :
    ∀ made, made <+: calls → ∃ q', (new maxMessages ttl).runCalls made =
      some (OfflineLog.replies maxMessages ttl [] made, q') ∧ q'.inner.length ≤ maxMessages := by
  intro made hmade
  have htracks : (new maxMessages ttl).Tracks 0 [] := tracks_nil rfl 0
  exact htracks.runCalls hmax (hsorted.sublist hmade.sublist) fun _ _ => Nat.zero_le _

/-- Three messages for a queue of two, the last of them after the others have outlived the TTL. -/
theorem runCalls_eq_replies_three :
    ∃ q', (new 2 10).runCalls
        [(0, .enqueue ⟨"a", [], .atLeastOnce, false⟩), (1, .enqueue ⟨"b", [], .atLeastOnce, false⟩),
          (5, .enqueue ⟨"c", [], .atLeastOnce, false⟩), (11, .len), (11, .drain)] =
      some ([.done, .done, .done, .count 1, .messages [⟨"c", [], .atLeastOnce, false⟩]], q') := by
  obtain ⟨q', hrun, -⟩ := runCalls_eq_replies 2 10 (by decide)
    [(0, .enqueue ⟨"a", [], .atLeastOnce, false⟩), (1, .enqueue ⟨"b", [], .atLeastOnce, false⟩),
      (5, .enqueue ⟨"c", [], .atLeastOnce, false⟩), (11, .len), (11, .drain)]
    (by decide) _ prefix_rfl
  exact ⟨q', hrun⟩

end OfflineQueue

end LumenMQ
