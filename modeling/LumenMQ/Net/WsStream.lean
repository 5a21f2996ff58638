import LumenMQ.Codec.Packet
import LumenMQ.Lib.Runs

set_option autoImplicit false

/-! # The stream of a WebSocket

Listeners and connections work on byte streams, a WebSocket yields messages. The adapter between them
hands out the binary messages piece by piece. A read of no bytes is the end of the stream to its
caller; this file says when it is one. -/

namespace LumenMQ

open List

/-- What polling the WebSocket can yield, apart from the end of the stream. -/
inductive WsPoll where
  | binary (data : Bytes)
  | ping
  | pong
  | close
  | text
  /-- A raw frame, which the library does not pass on. -/
  | frame
  | error (e : String)
  | pending
deriving DecidableEq, Repr

/-- What polling for a read returns; the bytes are those put into the caller's buffer. -/
inductive ReadPoll where
  | ready (bytes : Bytes)
  | failed (e : String)
  | pending
deriving DecidableEq, Repr

def ReadPoll.bytes : ReadPoll → Bytes
  | .ready bytes => bytes
  | .failed _ | .pending => []

/-- `inner` is what the WebSocket is going to yield. -/
structure WsStream where
  inner : List WsPoll
  readBuf : Bytes := []
  closed : Bool := false
deriving DecidableEq, Repr

namespace WsStream

variable {s : WsStream} {polls : List WsPoll} {cap : Nat}

/-- The loop of `pollRead`, which is entered with an empty buffer. -/
def pollReadLoop (remaining : Nat) : List WsPoll → ReadPoll × WsStream
  | [] => (.ready [], { inner := [], closed := true })
  | .binary data :: rest =>
    let n := min data.length remaining
    (.ready (data.take n), { inner := rest, readBuf := data.drop n })
  | .ping :: rest | .pong :: rest | .frame :: rest => pollReadLoop remaining rest
  | .close :: rest => (.ready [], { inner := rest, closed := true })
  | .text :: rest =>
    (.failed "text frame not supported by MQTT over WebSocket", { inner := rest })
  | .error e :: rest => (.failed e, { inner := rest })
  | .pending :: rest => (.pending, { inner := rest })

/-- Poll for a read into a buffer with room for `remaining` bytes. -/
def pollRead (s : WsStream) (remaining : Nat) : ReadPoll × WsStream :=
  if s.readBuf ≠ [] then
    let n := min s.readBuf.length remaining
    (.ready (s.readBuf.take n), { s with readBuf := s.readBuf.drop n })
  else if s.closed then (.ready [], s)
  else pollReadLoop remaining s.inner

/-- All that a sequence of reads returns. -/
def readAll (s : WsStream) : List Nat → Bytes × WsStream
  | [] => ([], s)
  | cap :: caps =>
    let (r, s) := s.pollRead cap
    let (bytes, s) := s.readAll caps
    (r.bytes ++ bytes, s)

/-! ## What is read -/

/-- The binary messages up to the end of the stream, as one text. -/
def payloads : List WsPoll → Bytes
  | .binary data :: rest => data ++ payloads rest
  | .close :: _ | [] => []
  | _ :: rest => payloads rest

/-- The bytes that are still to be read. -/
def owed (s : WsStream) : Bytes := s.readBuf ++ if s.closed then [] else payloads s.inner

theorem pollReadLoop_bytes (remaining : Nat) (polls : List WsPoll) :
    (pollReadLoop remaining polls).1.bytes ++ (pollReadLoop remaining polls).2.owed =
      payloads polls := by
  induction polls with
  | nil => rfl
  | cons poll rest ih =>
    cases poll with
    | binary data =>
      show data.take _ ++ (data.drop _ ++ payloads rest) = data ++ payloads rest
      rw [← append_assoc, take_append_drop]
    | ping | pong | frame => exact ih
    | close | text | error | pending => rfl

/-- A read takes the first of the bytes that are owed. -/
theorem pollRead_bytes (s : WsStream) (cap : Nat) :
    (s.pollRead cap).1.bytes ++ (s.pollRead cap).2.owed = s.owed := by
  unfold pollRead
  split_ifs with hbuf hcl
  · simp only [ReadPoll.bytes, owed]
    rw [← append_assoc, take_append_drop]
  · rfl
  · simpa [owed, not_not.1 hbuf, hcl] using pollReadLoop_bytes cap s.inner

theorem readAll_bytes (s : WsStream) (caps : List Nat) :
    (s.readAll caps).1 ++ (s.readAll caps).2.owed = s.owed := by
  induction caps generalizing s with
  | nil => rfl
  | cons cap caps ih =>
    simp only [readAll]
    rw [append_assoc, ih, pollRead_bytes]

/-! ## The end of the stream -/

/-- At the end of the stream, and nothing is left in the buffer. -/
def AtEnd (s : WsStream) : Prop := s.readBuf = [] ∧ s.closed = true

theorem AtEnd.pollRead (h : s.AtEnd) (cap : Nat) : s.pollRead cap = (.ready [], s) := by
  simp [WsStream.pollRead, h.1, h.2]

theorem AtEnd.owed (h : s.AtEnd) : s.owed = [] := by
  simp [WsStream.owed, h.1, h.2]

theorem AtEnd.readAll (h : s.AtEnd) (caps : List Nat) : (s.readAll caps).2 = s := by
  induction caps with
  | nil => rfl
  | cons cap caps ih =>
    simp only [WsStream.readAll, h.pollRead cap]
    exact ih

/-- How many reads there can be before the end of the stream. -/
def size (s : WsStream) : Nat := s.owed.length + s.inner.length

theorem pollReadLoop_size (remaining : Nat) (polls : List WsPoll) :
    (pollReadLoop remaining polls).2.AtEnd ∨
      (pollReadLoop remaining polls).2.size < (payloads polls).length + polls.length := by
  induction polls with
  | nil => exact .inl ⟨rfl, rfl⟩
  | cons poll rest ih =>
    have hnext : ∀ n, n < (payloads rest).length + rest.length →
        n < (payloads rest).length + (rest.length + 1) := fun n h => Nat.lt_succ_of_lt h
    cases poll with
    | binary data =>
      right
      simp only [pollReadLoop, size, owed, payloads, length_append, length_cons,
        length_drop, Bool.false_eq_true, if_false]
      omega
    | ping | pong | frame => exact ih.imp id (hnext _)
    | close => exact .inl ⟨rfl, rfl⟩
    | text | error | pending => exact .inr (Nat.lt_succ_self _)

/-- A read with room for a byte comes nearer to the end of the stream. -/
theorem pollRead_size (s : WsStream) (hcap : 0 < cap) :
    (s.pollRead cap).2.AtEnd ∨ (s.pollRead cap).2.size < s.size := by
  unfold pollRead
  split_ifs with hbuf hcl
  · right
    have hpos := length_pos_iff.2 hbuf
    simp only [size, owed, length_append, length_drop]
    omega
  · exact .inl ⟨not_not.1 hbuf, hcl⟩
  · simpa [size, owed, not_not.1 hbuf, hcl] using pollReadLoop_size cap s.inner

theorem readAll_atEnd {caps : List Nat} (hcaps : ∀ cap ∈ caps, 0 < cap)
    (hsize : s.size < caps.length) : (s.readAll caps).2.AtEnd := by
  induction caps generalizing s with
  | nil => cases hsize
  | cons cap caps ih =>
    rw [forall_mem_cons] at hcaps
    simp only [readAll]
    rcases s.pollRead_size hcaps.1 with hend | hlt
    · rw [hend.readAll]
      exact hend
    · exact ih hcaps.2 (hlt.trans_le (Nat.le_of_lt_succ hsize))

/-! ## Reads of no bytes -/

/-- A read that returns no bytes although the stream is not at its end. -/
def EarlyEnd (s : WsStream) (cap : Nat) : Prop :=
  (s.pollRead cap).1 = .ready [] ∧ (s.pollRead cap).2.closed = false

def step (s : WsStream) (cap : Nat) : Option WsStream := some (s.pollRead cap).2

/-- No sequence of reads is told of an end that is none. -/
def EndsOnce (s : WsStream) : Prop :=
  ∀ caps, (∀ cap ∈ caps, 0 < cap) → Runs.Meets step (fun s cap => ¬ s.EarlyEnd cap) s caps

/-- No message up to the end of the stream is empty. -/
def NoEmpty (polls : List WsPoll) : Prop := .binary [] ∉ polls.takeWhile (· ≠ .close)

theorem noEmpty_cons {poll : WsPoll} (hcl : poll ≠ .close) :
    NoEmpty (poll :: polls) ↔ poll ≠ .binary [] ∧ NoEmpty polls := by
  simp [NoEmpty, hcl, eq_comm]

theorem take_min_ne_nil {bytes : Bytes} (h : bytes ≠ []) (hcap : 0 < cap) :
    bytes.take (min bytes.length cap) ≠ [] := by
  have hpos := length_pos_iff.2 h
  rw [← length_pos_iff, length_take]
  omega

/-- Without empty messages, a read of no bytes is the end, and the messages that are left are not
    empty either. -/
theorem NoEmpty.pollReadLoop (h : NoEmpty polls) (hcap : 0 < cap) :
    ((pollReadLoop cap polls).1 = .ready [] → (pollReadLoop cap polls).2.closed = true) ∧
      ((pollReadLoop cap polls).2.closed = true ∨ NoEmpty (pollReadLoop cap polls).2.inner) := by
  induction polls with
  | nil => exact ⟨fun _ => rfl, .inl rfl⟩
  | cons poll rest ih =>
    cases poll with
    | close => exact ⟨fun _ => rfl, .inl rfl⟩
    | binary data =>
      obtain ⟨hne, h⟩ := (noEmpty_cons (by simp)).1 h
      refine ⟨fun hz => ?_, .inr h⟩
      have hdata : data ≠ [] := fun hd => hne (hd ▸ rfl)
      exact absurd (ReadPoll.ready.inj hz) (take_min_ne_nil hdata hcap)
    | ping | pong | frame => exact ih ((noEmpty_cons (by simp)).1 h).2
    | text | error | pending =>
      refine ⟨fun hz => ?_, .inr ((noEmpty_cons (by simp)).1 h).2⟩
      cases hz

/-- The messages of a stream that is not at its end are not empty. -/
def Sound (s : WsStream) : Prop := s.closed = true ∨ NoEmpty s.inner

theorem Sound.pollRead (h : s.Sound) (hcap : 0 < cap) :
    ¬ s.EarlyEnd cap ∧ (s.pollRead cap).2.Sound := by
  unfold EarlyEnd WsStream.pollRead
  split_ifs with hbuf hcl
  · exact ⟨fun hz => take_min_ne_nil hbuf hcap (ReadPoll.ready.inj hz.1), h⟩
  · exact ⟨fun hz => Bool.false_ne_true (hz.2.symm.trans hcl), h⟩
  · obtain ⟨hend, hnext⟩ := (h.resolve_left hcl).pollReadLoop hcap
    exact ⟨fun hz => Bool.false_ne_true (hz.2.symm.trans (hend hz.1)), hnext⟩

theorem Sound.endsOnce (h : s.Sound) : s.EndsOnce := by
  intro caps hcaps
  induction caps generalizing s with
  | nil => trivial
  | cons cap caps ih =>
    rw [forall_mem_cons] at hcaps
    obtain ⟨hearly, hnext⟩ := h.pollRead hcaps.1
    exact ⟨hearly, fun s' hs => Option.some.inj hs ▸ ih hnext hcaps.2⟩

theorem EndsOnce.pollRead (h : s.EndsOnce) (hcap : 0 < cap) :
    ¬ s.EarlyEnd cap ∧ (s.pollRead cap).2.EndsOnce := by
  constructor
  · exact (h [cap] (by simpa using hcap)).1
  · intro caps hcaps
    exact (h (cap :: caps) (forall_mem_cons.2 ⟨hcap, hcaps⟩)).2 _ rfl

theorem EndsOnce.congr {s' : WsStream} (h : s.EndsOnce)
    (heq : ∀ cap, s'.pollRead cap = s.pollRead cap) : s'.EndsOnce := by
  intro caps hcaps
  cases caps with
  | nil => trivial
  | cons cap caps =>
    have hmeets := h (cap :: caps) hcaps
    simp only [Runs.Meets, EarlyEnd, step, ← heq] at hmeets
    exact hmeets

/-- Reads that take one message each come to the first empty one. -/
theorem EndsOnce.noEmpty (h : EndsOnce { inner := polls }) : NoEmpty polls := by
  induction polls with
  | nil => simp [NoEmpty]
  | cons poll rest ih =>
    cases poll with
    | close => simp [NoEmpty]
    | binary data =>
      obtain ⟨hearly, hnext⟩ := h.pollRead (Nat.succ_pos data.length)
      have hread : WsStream.pollRead { inner := .binary data :: rest } (data.length + 1) =
          (.ready data, { inner := rest }) := by
        simp [WsStream.pollRead, pollReadLoop]
      simp only [EarlyEnd, hread] at hearly hnext
      exact (noEmpty_cons (by simp)).2 ⟨by simpa using hearly, ih hnext⟩
    | ping | pong | frame => exact (noEmpty_cons (by simp)).2 ⟨by simp, ih (h.congr fun _ => rfl)⟩
    | text | error | pending =>
      exact (noEmpty_cons (by simp)).2 ⟨by simp, ih (h.pollRead Nat.one_pos).2⟩

/-- **The adapter hands out the binary messages as they are, and it ends where the WebSocket ends
    exactly if no message is empty**: to the caller, an empty message is the end of the stream. -/
theorem readAll_faithful (polls : List WsPoll) :
    (∀ caps, (readAll { inner := polls } caps).1 ++ (readAll { inner := polls } caps).2.owed =
      payloads polls) ∧
    (∀ caps : List Nat, (∀ cap ∈ caps, 0 < cap) →
      (payloads polls).length + polls.length < caps.length →
      (readAll { inner := polls } caps).1 = payloads polls) ∧
    (EndsOnce { inner := polls } ↔ .binary [] ∉ polls.takeWhile (· ≠ .close)) := by
  have hbytes := readAll_bytes { inner := polls }
  refine ⟨hbytes, fun caps hcaps hlen => ?_, EndsOnce.noEmpty, fun h => Sound.endsOnce (.inr h)⟩
  have hend : (readAll { inner := polls } caps).2.AtEnd := readAll_atEnd hcaps hlen
  have hall := hbytes caps
  rwa [hend.owed, append_nil] at hall

/-- An empty message before another one: the first read says that the stream has ended. -/
theorem empty_message_ends : ∃ polls, payloads polls = [7] ∧
    EarlyEnd { inner := polls } 16 ∧ ¬ EndsOnce { inner := polls } :=
  ⟨[.binary [], .binary [7]], rfl, ⟨rfl, rfl⟩, fun h => (h.pollRead (Nat.succ_pos 15)).1 ⟨rfl, rfl⟩⟩

/-! ## Writing -/

/-- What the sink of the WebSocket answers. -/
inductive SinkPoll where
  | ready
  | failed (e : String)
  | pending
deriving DecidableEq, Repr

inductive WritePoll where
  | ready (n : Nat)
  | failed (e : String)
  | pending
deriving DecidableEq, Repr

/-- Poll for a write, with the answers of `poll_ready` and `start_send`. With the result comes the
    message, if the sink has taken one. -/
def pollWrite (s : WsStream) (sink : SinkPoll) (sent : Except String Unit) (buf : Bytes) :
    WritePoll × Option Bytes :=
  if s.closed then (.failed "ws closed", none)
  else match sink with
    | .ready =>
      match sent with
      | .ok () => (.ready buf.length, some buf)
      | .error e => (.failed e, none)
    | .failed e => (.failed e, none)
    | .pending => (.pending, none)

/-- Poll for the shutdown, with the answer of `poll_close`. -/
def pollShutdown (s : WsStream) (close : SinkPoll) : SinkPoll × WsStream :=
  match close with
  | .ready => (.ready, { s with closed := true })
  | answer => (answer, s)

/-- A call of the adapter. `poll_flush` only passes on what the sink answers. -/
inductive WsCall where
  | read (cap : Nat)
  | write (sink : SinkPoll) (sent : Except String Unit) (buf : Bytes)
  | shutdown (close : SinkPoll)

/-- The bytes that are reported as written, and the messages that the sink takes. -/
def writeAll (s : WsStream) : List WsCall → Bytes × List Bytes
  | [] => ([], [])
  | .read cap :: calls => (s.pollRead cap).2.writeAll calls
  | .shutdown close :: calls => (s.pollShutdown close).2.writeAll calls
  | .write sink sent buf :: calls =>
    let (bytes, messages) := s.writeAll calls
    match s.pollWrite sink sent buf with
    | (.ready n, message) => (buf.take n ++ bytes, message.toList ++ messages)
    | (_, message) => (bytes, message.toList ++ messages)

/-- What is reported as written is what the sink has taken, whatever fails or has to wait. -/
theorem writeAll_spec (s : WsStream) (calls : List WsCall) :
    (s.writeAll calls).1 = (s.writeAll calls).2.flatten := by
  induction calls generalizing s with
  | nil => rfl
  | cons call calls ih =>
    cases call with
    | read | shutdown => exact ih _
    | write sink sent buf =>
      unfold writeAll pollWrite
      split_ifs
      · exact ih s
      · rcases sink with _ | _ | _ <;> rcases sent with _ | _ <;> simp [ih s]

/-- The binary messages up to the end of the stream. -/
def messages : List WsPoll → List Bytes
  | .binary data :: rest => data :: messages rest
  | .close :: _ | [] => []
  | _ :: rest => messages rest

theorem payloads_eq (polls : List WsPoll) : payloads polls = (messages polls).flatten := by
  fun_induction messages polls <;> simp_all [payloads]

theorem noEmpty_iff (polls : List WsPoll) : NoEmpty polls ↔ [] ∉ messages polls := by
  induction polls with
  | nil => simp [NoEmpty, messages]
  | cons poll rest ih =>
    cases poll with
    | close => simp [NoEmpty, messages]
    | binary data => simp [noEmpty_cons, messages, ih, eq_comm]
    | _ => simp [noEmpty_cons, messages, ih]

/-- **Two adapters make a byte stream**, as far as the WebSocket between them keeps the messages in
    order. Whatever is called at one end, and whatever fails there or has to wait, the other end
    reads the first of the bytes that were reported as written; it reads all of them if every message
    comes through; and it is told of the end of the stream only there, if no message is empty. -/
theorem duplex_faithful (s : WsStream) (calls : List WsCall)
    (hnet : messages polls <+: (s.writeAll calls).2) {caps : List Nat}
    (hcaps : ∀ cap ∈ caps, 0 < cap) :
    (readAll { inner := polls } caps).1 <+: (s.writeAll calls).1 ∧
    (messages polls = (s.writeAll calls).2 → size { inner := polls } < caps.length →
      (readAll { inner := polls } caps).1 = (s.writeAll calls).1) ∧
    ([] ∉ (s.writeAll calls).2 → EndsOnce { inner := polls }) := by
  have hread : (readAll { inner := polls } caps).1 ++ (readAll { inner := polls } caps).2.owed =
      (messages polls).flatten := (readAll_bytes _ caps).trans (payloads_eq polls)
  rw [writeAll_spec]
  refine ⟨?_, fun hall hsize => ?_, fun hempty => ?_⟩
  · obtain ⟨lost, hlost⟩ := hnet
    rw [← hlost, flatten_append, ← hread, append_assoc]
    exact prefix_append ..
  · rwa [(readAll_atEnd hcaps hsize).owed, append_nil, hall] at hread
  · exact Sound.endsOnce (.inr ((noEmpty_iff polls).2 fun hmem => hempty (hnet.subset hmem)))

/-- A write that has to wait, one that is taken, and the shutdown. -/
theorem duplex_faithful_waiting :
    let calls := [.write .pending (.ok ()) [1], .write .ready (.ok ()) [1, 2], .shutdown .ready,
      .write .ready (.ok ()) [3]]
    (readAll { inner := [.ping, .binary [1, 2], .close] } [1, 1, 1, 1, 1, 1]).1 =
      (writeAll { inner := [] } calls).1 ∧ (writeAll { inner := [] } calls).1 = [1, 2] :=
  ⟨(duplex_faithful { inner := [] } _ (by decide) (by decide)).2.1 (by decide) (by decide), rfl⟩

end WsStream

end LumenMQ
