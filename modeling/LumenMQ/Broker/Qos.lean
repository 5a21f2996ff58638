import Mathlib.Data.Finset.Basic
import LumenMQ.Lib.FinMap
import LumenMQ.Broker.StoreMsg

set_option autoImplicit false

/-! # Handshakes in flight

A connection keeps the messages it has sent and not yet seen acknowledged, by packet identifier, and
the identifiers of the QoS 2 messages it has received and not yet released. -/

namespace LumenMQ

open List FinMap

inductive AckStage where
  /-- For QoS 1 a PUBACK is due, for QoS 2 a PUBREC. -/
  | waitFirstAck
  /-- PUBREL has been sent and PUBCOMP is due. -/
  | waitPubcomp
deriving DecidableEq, Repr

structure OutboundInflight where
  topic : String
  payload : Bytes
  qos : QoS
  retain : Bool
  stage : AckStage
  lastSentAt : Instant
  retryCount : Nat
deriving DecidableEq, Repr

namespace OutboundInflight

def new (topic : String) (payload : Bytes) (qos : QoS) (retain : Bool) (now : Instant) :
    OutboundInflight :=
  { topic, payload, qos, retain, stage := .waitFirstAck, lastSentAt := now, retryCount := 0 }

/-- The packet that is due at the entry's stage. -/
def buildPacket (e : OutboundInflight) (packetId : UInt16) (dup : Bool) : Packet :=
  match e.stage with
  | .waitFirstAck => .publish {
      dup, qos := e.qos, retain := e.retain, topic := e.topic, packetId := some packetId
      payload := e.payload }
  | .waitPubcomp => .pubrel packetId

/-- The message the entry was made from. -/
def message (e : OutboundInflight) : OutboundPublish :=
  { topic := e.topic, payload := e.payload, qos := e.qos, retain := e.retain }

end OutboundInflight

abbrev OutboundInflightTable := FinMap UInt16 OutboundInflight

namespace OutboundInflightTable

/-- Whether an entry is past the timeout. -/
def due (now : Instant) (timeout : Duration) (e : OutboundInflight) : Bool :=
  !decide (now - e.lastSentAt < timeout)

/-- An entry that is sent once more. -/
def resend (now : Instant) (e : OutboundInflight) : OutboundInflight :=
  { e with retryCount := e.retryCount + 1, lastSentAt := now }

/-- What `retryExpired` returns. -/
structure Retry where
  toResend : List (UInt16 × Packet) := []
  failed : List UInt16 := []
  table : OutboundInflightTable

/-- The loop body of `retryExpired`. -/
def retryOne (now : Instant) (timeout : Duration) (maxRetries : Nat) (r : Retry)
    (entry : UInt16 × OutboundInflight) : Retry :=
  if !due now timeout entry.2 then r
  else if maxRetries ≤ entry.2.retryCount then { r with failed := r.failed ++ [entry.1] }
  else
    let e := resend now entry.2
    -- a PUBLISH is marked as a duplicate, a PUBREL never is
    let dup := e.stage = .waitFirstAck
    { r with
      toResend := r.toResend ++ [(entry.1, e.buildPacket entry.1 dup)]
      table := r.table.insert entry.1 e }

/-- Send once more what is past the timeout and drop what has been sent too often. -/
def retryExpired (table : OutboundInflightTable) (now : Instant) (timeout : Duration)
    (maxRetries : Nat) : Retry :=
  let r := table.toPairs.foldl (retryOne now timeout maxRetries) { table }
  { r with table := r.failed.foldl (fun t pid => t.erase pid) r.table }

/-! ### What a retry does -/

section retry

variable (now : Instant) (timeout : Duration) (maxRetries : Nat)
variable {id : UInt16}

/-- The entry has been sent too often. -/
def isFailed (e : OutboundInflight) :
    Bool := due now timeout e && decide (maxRetries ≤ e.retryCount)

/-- The entry is sent once more. -/
def isResent (e : OutboundInflight) : Bool :=
  due now timeout e && !decide (maxRetries ≤ e.retryCount)

theorem foldl_retryOne (ps : List (UInt16 × OutboundInflight)) (r : Retry) :
    ps.foldl (retryOne now timeout maxRetries) r =
      { toResend := r.toResend ++ (ps.filter (fun p => isResent now timeout maxRetries p.2)).map
          (fun p => (p.1, (resend now p.2).buildPacket p.1 (p.2.stage = .waitFirstAck)))
        failed := r.failed ++ (ps.filter (fun p => isFailed now timeout maxRetries p.2)).map Prod.fst
        table := ((ps.filter (fun p => isResent now timeout maxRetries p.2)).map
          (fun p => (p.1, resend now p.2))).foldl (fun t p => t.insert p.1 p.2) r.table } := by
  induction ps generalizing r with
  | nil => simp
  | cons p ps ih =>
    rw [foldl_cons, ih]
    unfold retryOne isFailed isResent
    by_cases hdue : due now timeout p.2 = true
    · by_cases hmax : maxRetries ≤ p.2.retryCount
      · simp [hdue, hmax]
      · simp [hdue, hmax, resend]
        rfl
    · simp [hdue]

variable (table : OutboundInflightTable)

theorem mem_failed_retryExpired : id ∈ (table.retryExpired now timeout maxRetries).failed ↔
      ∃ e, table.get id = some e ∧ isFailed now timeout maxRetries e = true := by
  unfold retryExpired
  rw [foldl_retryOne]
  simp [mem_toPairs]

theorem failed_retryExpired_nodup :
    (table.retryExpired now timeout maxRetries).failed.Nodup := by
  unfold retryExpired
  rw [foldl_retryOne]
  exact table.toPairs_nodup.sublist (filter_sublist.map _)

theorem mem_toResend_retryExpired {packet : Packet}
    (h : (id, packet) ∈ (table.retryExpired now timeout maxRetries).toResend) :
    ∃ e, table.get id = some e ∧ isResent now timeout maxRetries e = true ∧
      packet = (resend now e).buildPacket id (e.stage = .waitFirstAck) := by
  unfold retryExpired at h
  rw [foldl_retryOne] at h
  simp only [nil_append, mem_map, mem_filter, Prod.exists, Prod.mk.injEq,
    mem_toPairs] at h
  obtain ⟨id', e, ⟨hget, hresent⟩, rfl, rfl⟩ := h
  exact ⟨e, hget, hresent, rfl⟩

/-- A retry removes the entries that failed and marks those that are sent again. -/
theorem get_retryExpired (id : UInt16) :
    (table.retryExpired now timeout maxRetries).table.get id =
      (table.get id).bind (fun e =>
        if isFailed now timeout maxRetries e then none
        else some (if isResent now timeout maxRetries e then resend now e else e)) := by
  have hfail := @mem_failed_retryExpired now timeout maxRetries id table
  unfold retryExpired at hfail ⊢
  rw [foldl_retryOne] at hfail ⊢
  rw [get_foldl_erase]
  -- the keys that are entered again are among those of the table, each once
  have hnd : (((table.toPairs.filter (fun p => isResent now timeout maxRetries p.2)).map
      (fun p => (p.1, resend now p.2))).map Prod.fst).Nodup := by
    rw [map_map]
    exact table.toPairs_nodup.sublist (filter_sublist.map _)
  by_cases hf : id ∈ [] ++ (table.toPairs.filter (fun p => isFailed now timeout maxRetries p.2)).map
      Prod.fst
  · obtain ⟨e, hget, he⟩ := hfail.1 hf
    simp only [if_pos hf, hget, Option.bind_some, he, if_true]
  · simp only [if_neg hf]
    cases hget : table.get id with
    | none =>
      rw [get_foldl_insert_of_notMem, hget]
      · rfl
      · simp [mem_toPairs, hget]
    | some e =>
      have hnf : isFailed now timeout maxRetries e = false := by
        by_contra hc
        exact hf (hfail.2 ⟨e, hget, by simpa using hc⟩)
      simp only [Option.bind_some, hnf, Bool.false_eq_true, if_false]
      by_cases hr : isResent now timeout maxRetries e = true
      · rw [if_pos hr]
        refine get_foldl_insert_of_mem hnd ?_ _
        rw [mem_map]
        exact ⟨(id, e), mem_filter.2 ⟨mem_toPairs.2 hget, hr⟩, rfl⟩
      · rw [if_neg hr, get_foldl_insert_of_notMem, hget]
        simp [mem_toPairs, hget, hr]

/-- What is sent again is still in flight. -/
theorem get_of_mem_toResend {packet : Packet}
    (h : (id, packet) ∈ (table.retryExpired now timeout maxRetries).toResend) :
    ∃ e dup, (table.retryExpired now timeout maxRetries).table.get id = some e ∧
      packet = e.buildPacket id dup := by
  obtain ⟨e, hget, hresent, rfl⟩ := mem_toResend_retryExpired now timeout maxRetries table h
  refine ⟨resend now e, _, ?_, rfl⟩
  have hfailed : isFailed now timeout maxRetries e = false := by
    unfold isResent at hresent
    unfold isFailed
    simp only [Bool.and_eq_true, Bool.not_eq_true'] at hresent
    simp [hresent.2]
  rw [get_retryExpired, hget]
  simp [hfailed, hresent]

end retry

end OutboundInflightTable

/-! ## Packet identifiers -/

/-- The loop of `allocatePid`: the identifier found, or 0, and the next one to try. -/
def allocatePidLoop (inflight : OutboundInflightTable) : Nat → UInt16 → UInt16 × UInt16
  | 0, next => (0, next)
  | n + 1, p =>
    let next := if p + 1 = 0 then 1 else p + 1
    if p ≠ 0 ∧ inflight.get p = none then (p, next) else allocatePidLoop inflight n next

/-- A packet identifier that is not in use. -/
def allocatePid (next : UInt16) (inflight : OutboundInflightTable) : UInt16 × UInt16 :=
  allocatePidLoop inflight 65535 next

theorem get_allocatePidLoop {inflight : OutboundInflightTable} {n : Nat} {next : UInt16}
    (h : (allocatePidLoop inflight n next).1 ≠ 0) :
    inflight.get (allocatePidLoop inflight n next).1 = none := by
  induction n generalizing next with
  | zero => exact absurd rfl h
  | succ n ih =>
    unfold allocatePidLoop at h ⊢
    by_cases hfree : next ≠ 0 ∧ inflight.get next = none
    · simpa only [if_pos hfree] using hfree.2
    · simp only [if_neg hfree] at h ⊢
      exact ih h

/-- An identifier that is given out is free. -/
theorem get_allocatePid {inflight : OutboundInflightTable} {next : UInt16}
    (h : (allocatePid next inflight).1 ≠ 0) : inflight.get (allocatePid next inflight).1 = none :=
  get_allocatePidLoop h

/-! ## Received QoS 2 messages -/

/-- The identifiers of QoS 2 messages received and not released. -/
abbrev InboundQos2Tracker := Finset UInt16

namespace InboundQos2Tracker

/-- Whether the identifier was there already; it is afterwards. -/
def onPublish (seen : InboundQos2Tracker) (packetId : UInt16) : Bool × InboundQos2Tracker :=
  (packetId ∈ seen, insert packetId seen)

def onPubrel (seen : InboundQos2Tracker) (packetId : UInt16) : Bool × InboundQos2Tracker :=
  (packetId ∈ seen, seen.erase packetId)

end InboundQos2Tracker

end LumenMQ
