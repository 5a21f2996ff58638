import Mathlib.Data.List.Basic

set_option autoImplicit false

/-! # Decoding a stream that arrives in pieces

An incremental decoder looks at a receive buffer and cuts one item off its front, asks for more
input, or fails. If asking for more leaves the buffer alone and no verdict is revised by later
input, the items decoded from a stream do not depend on how the stream was cut (`feed_eq_drain`). -/

variable {α ε β : Type}

/-- A decoder over a receive buffer, returned with the buffer it leaves. -/
structure IncrementalDecoder (α ε β : Type) where
  decode : List α → Except ε (Option β) × List α
  /-- Asking for more input leaves the buffer alone. -/
  none_keeps : ∀ {s r}, decode s = (.ok none, r) → r = s
  /-- An item is cut off the front, whatever follows. -/
  some_append : ∀ {s b r} (t), decode s = (.ok (some b), r) → decode (s ++ t) = (.ok (some b), r ++ t)
  /-- An item takes at least one element. -/
  some_shorter : ∀ {s b r}, decode s = (.ok (some b), r) → r.length < s.length
  /-- A failure stays the same failure, whatever follows. -/
  error_append : ∀ {s e r} (t), decode s = (.error e, r) → ∃ r', decode (s ++ t) = (.error e, r')

namespace IncrementalDecoder

variable (d : IncrementalDecoder α ε β)

/-- Decode until the decoder asks for more or fails: the items, and then the failure or what is left
    in the buffer. -/
def drain (s : List α) : List β × Except ε (List α) :=
  match _hd : d.decode s with
  | (.ok (some b), r) =>
    let (bs, out) := drain r
    (b :: bs, out)
  | (.ok none, r) => ([], .ok r)
  | (.error e, _) => ([], .error e)
termination_by s.length
decreasing_by exact d.some_shorter ‹_›

/-- Append the chunks to the buffer one by one, draining it after each, up to the first failure. -/
def feed (buf : List α) : List (List α) → List β × Except ε (List α)
  | [] => ([], .ok buf)
  | chunk :: chunks =>
    match d.drain (buf ++ chunk) with
    | (bs, .error e) => (bs, .error e)
    | (bs, .ok r) =>
      let (cs, out) := feed r chunks
      (bs ++ cs, out)

theorem drain_of_some {s r : List α} {b : β} (h : d.decode s = (.ok (some b), r)) :
    d.drain s = (b :: (d.drain r).1, (d.drain r).2) := by
  rw [drain]
  split
  · next h' =>
    rw [h] at h'
    cases h'
    rfl
  · next h' => rw [h] at h'; cases h'
  · next h' => rw [h] at h'; cases h'

theorem drain_of_none {s : List α} (h : d.decode s = (.ok none, s)) : d.drain s = ([], .ok s) := by
  rw [drain]
  split
  · next h' => rw [h] at h'; cases h'
  · next h' => rw [h] at h'; cases h'; rfl
  · next h' => rw [h] at h'; cases h'

theorem drain_of_error {s r : List α} {e : ε} (h : d.decode s = (.error e, r)) :
    d.drain s = ([], .error e) := by
  rw [drain]
  split
  · next h' => rw [h] at h'; cases h'
  · next h' => rw [h] at h'; cases h'
  · next h' => rw [h] at h'; cases h'; rfl

/-- What draining leaves behind holds no further item. -/
theorem decode_drained {s r : List α} {bs : List β} (h : d.drain s = (bs, .ok r)) :
    d.decode r = (.ok none, r) := by
  induction hn : s.length using Nat.strongRecOn generalizing s bs with
  | _ n ih =>
    rcases hd : d.decode s with ⟨e | _ | b, r'⟩
    · rw [d.drain_of_error hd] at h
      cases h
    · obtain rfl := d.none_keeps hd
      rw [d.drain_of_none hd] at h
      cases h
      exact hd
    · rw [d.drain_of_some hd, Prod.mk.injEq] at h
      have hr' : d.drain r' = ((d.drain r').1, .ok r) := Prod.ext rfl h.2
      exact ih r'.length (hn ▸ d.some_shorter hd) hr' rfl

/-- Draining a buffer that grows later: the items of the first part stay, a failure stays, and what
    was left is drained together with what comes. -/
theorem drain_append (s t : List α) :
    d.drain (s ++ t) =
      match d.drain s with
      | (bs, .error e) => (bs, .error e)
      | (bs, .ok r) => (bs ++ (d.drain (r ++ t)).1, (d.drain (r ++ t)).2) := by
  induction hn : s.length using Nat.strongRecOn generalizing s with
  | _ n ih =>
    rcases hd : d.decode s with ⟨e | _ | b, r⟩
    · obtain ⟨r', hr'⟩ := d.error_append t hd
      rw [d.drain_of_error hd, d.drain_of_error hr']
    · obtain rfl := d.none_keeps hd
      rw [d.drain_of_none hd]
      rfl
    · rw [d.drain_of_some hd, d.drain_of_some (d.some_append t hd),
        ih r.length (hn ▸ d.some_shorter hd) r rfl]
      rcases d.drain r with ⟨bs, e | r'⟩ <;> rfl

/-- **Chunking does not matter.** From a buffer that holds no whole item, feeding the chunks one by
    one gives what draining the whole stream gives. -/
theorem feed_eq_drain (chunks : List (List α)) {buf : List α}
    (hbuf : d.decode buf = (.ok none, buf)) :
    d.feed buf chunks = d.drain (buf ++ chunks.flatten) := by
  induction chunks generalizing buf with
  | nil =>
    rw [List.flatten_nil, List.append_nil, d.drain_of_none hbuf]
    rfl
  | cons chunk chunks ih =>
    rw [feed, List.flatten_cons, ← List.append_assoc, d.drain_append (buf ++ chunk)]
    rcases hdrain : d.drain (buf ++ chunk) with ⟨bs, e | r⟩
    · rfl
    · simp only [ih (d.decode_drained hdrain)]

end IncrementalDecoder
