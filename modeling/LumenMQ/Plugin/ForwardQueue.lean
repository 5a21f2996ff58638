import Mathlib.Data.List.DropRight
import LumenMQ.Broker.Subscription
import LumenMQ.Lib.Runs
import LumenMQ.Plugin.Forwarder

set_option autoImplicit false

/-! # The queue of the forwarder

Between the broker and the task that posts stands a bounded channel. The documentation of the module
says that a full channel drops its oldest message; the code drops the one that does not fit. This
file says when the two come to the same. -/

namespace LumenMQ

open List

/-- The message as the posting task gets it; the source already holds the payload as base64 text. -/
structure ForwardPayload where
  topic : String
  qos : UInt8
  retain : Bool
  payload : Bytes
  clientId : Option String
deriving DecidableEq, Repr

def ForwardPayload.of (p : Publish) (clientId : Option String) : ForwardPayload :=
  { topic := p.topic, qos := p.qos.asU8, retain := p.retain, payload := p.payload, clientId }

/-- A forwarder at work: what waits in its channel, the oldest message first. The channel is closed
    once the posting task is gone. -/
structure ForwardQueue extends HttpForwarder where
  channel : List ForwardPayload := []
  closed : Bool := false
  dropped : UInt64 := 0

namespace ForwardQueue

/-- A message that the forwarder wants to pass on. -/
def accepts (f : ForwardQueue) (p : Publish) : Bool :=
  f.topicFilter.all (topicMatchesFilter p.topic)

def tryForward (f : ForwardQueue) (p : Publish) (clientId : Option String) : ForwardQueue :=
  match f.queue with
  | none => f
  | some capacity =>
    if !f.accepts p then f
    else if f.closed then f
    else if f.channel.length < capacity then
      { f with channel := f.channel ++ [.of p clientId] }
    else { f with dropped := f.dropped + 1 }

/-- The posting task takes a message out of the channel. -/
def recv (f : ForwardQueue) : Option ForwardPayload × ForwardQueue :=
  (f.channel.head?, { f with channel := f.channel.tail })

end ForwardQueue

inductive ForwardEvent where
  | publish (p : Publish) (clientId : Option String)
  | receive
deriving DecidableEq, Repr

/-- A forwarder with the messages it accepted and those the posting task received. In `waiting`
    stand the accepted messages that a channel which drops its oldest message has not handed out,
    nor passed over for a later one. -/
structure Relay extends ForwardQueue where
  capacity : Nat
  accepted : List ForwardPayload := []
  received : List ForwardPayload := []
  waiting : List ForwardPayload := []

namespace Relay

/-- An empty channel. -/
def start (capacity : Nat) (topicFilter : Option String) : Relay :=
  { queue := some capacity, topicFilter, capacity }

def step (r : Relay) : ForwardEvent → Option Relay
  | .publish p clientId =>
    let r' := { r with toForwardQueue := r.tryForward p clientId }
    let m := ForwardPayload.of p clientId
    some (if r.accepts p then
        { r' with accepted := r.accepted ++ [m], waiting := r.waiting ++ [m] }
      else r')
  | .receive =>
    some { r with
      toForwardQueue := r.recv.2
      received := r.received ++ r.recv.1.toList
      waiting := (r.waiting.rtake r.capacity).tail }

/-- The channel holds the most recent of the waiting messages, as many as it has room for. -/
def KeepsNewest (r : Relay) : Prop := r.channel = r.waiting.rtake r.capacity

/-- The event does not bring a message to a channel full of others. -/
def spares (r : Relay) : ForwardEvent → Bool
  | .publish p clientId =>
    !r.accepts p || r.channel.length < r.capacity || r.channel.all (· = .of p clientId)
  | .receive => true

/-- What holds of every relay: the channel is open and within its bounds, what was received or waits
    is among the accepted messages in their order, and all others were counted. -/
structure Inv (r : Relay) : Prop where
  queue : r.queue = some r.capacity
  isOpen : r.closed = false
  bound : r.channel.length ≤ r.capacity
  sublist : (r.received ++ r.channel).Sublist r.accepted
  dropped : r.dropped =
    UInt64.ofNat (r.accepted.length - r.received.length - r.channel.length)

theorem inv_start (capacity : Nat) (topicFilter : Option String) :
    (start capacity topicFilter).Inv where
  queue := rfl
  isOpen := rfl
  bound := Nat.zero_le _
  sublist := .refl []
  dropped := rfl

/-- The four things an event can do. -/
inductive Change (r : Relay) (e : ForwardEvent) : Relay → Prop
  | skipped (p : Publish) (clientId : Option String) : e = .publish p clientId →
      r.accepts p = false → Change r e r
  | enqueued (p : Publish) (clientId : Option String) : e = .publish p clientId →
      r.accepts p = true → r.channel.length < r.capacity →
      Change r e { r with
        channel := r.channel ++ [.of p clientId]
        accepted := r.accepted ++ [.of p clientId]
        waiting := r.waiting ++ [.of p clientId] }
  | lost (p : Publish) (clientId : Option String) : e = .publish p clientId →
      r.accepts p = true → r.channel.length = r.capacity →
      Change r e { r with
        dropped := r.dropped + 1
        accepted := r.accepted ++ [.of p clientId]
        waiting := r.waiting ++ [.of p clientId] }
  | received : e = .receive →
      Change r e { r with
        channel := r.channel.tail
        received := r.received ++ r.channel.head?.toList
        waiting := (r.waiting.rtake r.capacity).tail }

theorem Inv.change {r r' : Relay} {e : ForwardEvent} (h : r.Inv) (hs : r.step e = some r') :
    Change r e r' := by
  cases e with
  | receive =>
    obtain rfl := Option.some.inj hs
    exact .received rfl
  | publish p clientId =>
    obtain rfl := Option.some.inj hs
    cases hacc : r.accepts p with
    | false =>
      simpa [step, ForwardQueue.tryForward, h.queue, hacc] using .skipped p clientId rfl hacc
    | true =>
      by_cases hroom : r.channel.length < r.capacity
      · have hfor : r.tryForward p clientId =
            { r.toForwardQueue with channel := r.channel ++ [.of p clientId] } := by
          simp [ForwardQueue.tryForward, h.queue, h.isOpen, hacc, hroom]
        simpa [step, hfor, hacc] using .enqueued p clientId rfl hacc hroom
      · have hfor : r.tryForward p clientId =
            { r.toForwardQueue with dropped := r.dropped + 1 } := by
          simp [ForwardQueue.tryForward, h.queue, h.isOpen, hacc, hroom]
        simpa [step, hfor, hacc] using
          .lost p clientId rfl hacc (h.bound.antisymm (not_lt.1 hroom))

theorem Inv.step {r r' : Relay} {e : ForwardEvent} (h : r.Inv) (hs : r.step e = some r') :
    r'.Inv := by
  have hle := h.sublist.length_le
  rw [length_append] at hle
  cases h.change hs with
  | skipped => exact h
  | enqueued p clientId _ _ hroom =>
    refine ⟨h.queue, h.isOpen, ?_, ?_, ?_⟩
    · simpa [Nat.succ_le_iff] using hroom
    · simpa using h.sublist.append (.refl [_])
    · rw [h.dropped]
      congr 1
      simp
      omega
  | lost p clientId =>
    refine ⟨h.queue, h.isOpen, h.bound, h.sublist.trans (sublist_append_left _ _), ?_⟩
    have hcount : (r.accepted ++ [ForwardPayload.of p clientId]).length - r.received.length -
        r.channel.length = r.accepted.length - r.received.length - r.channel.length + 1 := by
      simp
      omega
    rw [h.dropped, hcount, UInt64.ofNat_add]
    rfl
  | received =>
    cases hch : r.channel with
    | nil => exact ⟨h.queue, h.isOpen, by simp, by simpa [hch] using h.sublist,
        by simpa [hch] using h.dropped⟩
    | cons m rest =>
      refine ⟨h.queue, h.isOpen, ?_, by simpa [hch] using h.sublist, ?_⟩
      · have hbound := h.bound
        simp only [hch, length_cons] at hbound
        exact Nat.le_of_succ_le hbound
      · rw [h.dropped]
        congr 1
        simp [hch]
        omega

/-- Moving a new element in at the end and the first one out changes nothing if all are equal. -/
theorem cons_eq_concat_iff {α : Type} (a m : α) (l : List α) :
    a :: l = l ++ [m] ↔ ∀ x ∈ a :: l, x = m := by
  induction l generalizing a with
  | nil => simp
  | cons b l ih =>
    rw [cons_append, cons.injEq, ih]
    simp only [forall_mem_cons]
    constructor
    · rintro ⟨rfl, rfl, h⟩
      exact ⟨rfl, rfl, h⟩
    · rintro ⟨rfl, rfl, h⟩
      exact ⟨rfl, rfl, h⟩

theorem rtake_eq_self {α : Type} {l : List α} {n : Nat} (h : l.length ≤ n) : l.rtake n = l := by
  rw [rtake, Nat.sub_eq_zero_of_le h, drop_zero]

/-- With a full channel, the newest messages are the channel without its first, and the new one. -/
theorem rtake_concat_of_full {α : Type} {l : List α} {n : Nat}
    (h : (l.rtake (n + 1)).length = n + 1) (m : α) : (l ++ [m]).rtake (n + 1) = (l.rtake (n + 1)).tail ++ [m] := by
  rw [rtake_concat_succ, rtake, rtake, tail_drop]
  simp only [rtake, length_drop] at h
  congr 2
  omega

/-- A relay goes on to keep the newest messages exactly if the event spares them. -/
theorem Inv.keepsNewest_iff {r r' : Relay} {e : ForwardEvent} (h : r.Inv) (hk : r.KeepsNewest)
    (hs : r.step e = some r') : r'.KeepsNewest ↔ r.spares e = true := by
  unfold KeepsNewest at hk ⊢
  cases h.change hs with
  | skipped p clientId he hacc =>
    subst he
    simpa [spares, hacc] using hk
  | enqueued p clientId he hacc hroom =>
    subst he
    have hlen : r.waiting.length < r.capacity := by
      rw [hk, rtake, length_drop] at hroom
      omega
    rw [rtake_eq_self hlen.le] at hk
    have hfit : (r.waiting ++ [ForwardPayload.of p clientId]).length ≤ r.capacity := by
      simpa [Nat.succ_le_iff] using hlen
    simp [spares, hlen, hk, rtake_eq_self hfit]
  | lost p clientId he hacc hfull =>
    subst he
    have hspare : r.spares (.publish p clientId) = true ↔
        ∀ m ∈ r.channel, m = ForwardPayload.of p clientId := by
      simp [spares, hacc, hfull]
    rw [hspare]
    cases hch : r.channel with
    | nil =>
      have hzero : r.capacity = 0 := by rw [← hfull, hch]; rfl
      simp [hzero]
    | cons m rest =>
      have hsucc : r.capacity = rest.length + 1 := by rw [← hfull, hch]; rfl
      rw [hk, hsucc] at hfull hch
      rw [hsucc, rtake_concat_of_full hfull, hch, tail_cons, cons_eq_concat_iff]
  | received he =>
    subst he
    have hfit : (r.waiting.rtake r.capacity).tail.length ≤ r.capacity := by
      rw [← hk, length_tail]
      exact (Nat.sub_le _ _).trans h.bound
    simp [spares, hk, rtake_eq_self hfit]

theorem exists_run (r : Relay) (es : List ForwardEvent) : ∃ r', Runs.run step r es = some r' := by
  induction es generalizing r with
  | nil => exact ⟨r, rfl⟩
  | cons e es ih =>
    have hstep : ∃ r1, step r e = some r1 := by
      cases e <;> exact ⟨_, rfl⟩
    obtain ⟨r1, h1⟩ := hstep
    obtain ⟨r', h'⟩ := ih r1
    exact ⟨r', Runs.run_cons.2 ⟨r1, h1, h'⟩⟩

/-- The channel always holds the newest of the waiting messages exactly if no message ever comes to
    a channel full of others: then it is the new message that is lost, not the oldest one. The count
    is right in every run: it is the number of accepted messages that were not received and do not
    wait in the channel, as long as it fits its 64 bits. -/
theorem keepsNewest_always_iff (capacity : Nat) (topicFilter : Option String)
    (es : List ForwardEvent) :
    (Runs.Always step KeepsNewest (start capacity topicFilter) es ↔
      Runs.Meets step (fun r e => r.spares e = true) (start capacity topicFilter) es) ∧
    ∀ r, Runs.run step (start capacity topicFilter) es = some r →
      (r.received ++ r.channel).Sublist r.accepted ∧
      r.dropped = UInt64.ofNat (r.accepted.length - r.received.length - r.channel.length) := by
  have hinv := inv_start capacity topicFilter
  constructor
  · obtain ⟨r, hrun⟩ := exists_run (start capacity topicFilter) es
    exact Runs.run_always_iff (E := fun _ => True) (fun r r' e _ h hs => h.step hs)
      (fun r r' e _ h hk hs => h.keepsNewest_iff hk hs) (fun _ _ => trivial) hinv
      (rtake_nil _).symm hrun
  · intro r hrun
    have h := Runs.run_invariant (C := fun _ _ => True) (fun r r' e h _ hs => h.step hs) hinv
      (Runs.meets_of_forall (fun _ _ => trivial) _ _) hrun
    exact ⟨h.sublist, h.dropped⟩

/-- Two messages at a queue of one: the second one is lost, and the first one stays. -/
theorem keepsNewest_fails_when_full :
    ∃ p q : Publish, ∃ r, Runs.run step (start 1 none) [.publish p none, .publish q none] = some r ∧
      ¬ r.KeepsNewest ∧ r.channel = [.of p none] ∧ r.waiting.rtake 1 = [.of q none] ∧
      r.dropped = 1 :=
  ⟨⟨false, .atMostOnce, false, "t", none, [1]⟩, ⟨false, .atMostOnce, false, "t", none, [2]⟩, _, rfl,
    by simp [KeepsNewest, start, ForwardQueue.tryForward]; decide, rfl, rfl, rfl⟩

end Relay

end LumenMQ
