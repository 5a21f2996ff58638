import LumenMQ.Broker.Handshakes

set_option autoImplicit false

/-! # Retransmission

One scan of `retry_expired` splits the messages in flight into those that are not due, those that
are sent once more and those that are given up. Over a run of a table, with acknowledgements and new
messages in between, a message is sent once more as often as `max_retries` allows and no more: an
acknowledgement on the way moves it to its next stage, and its count goes on. -/

namespace LumenMQ

namespace OutboundInflightTable

/-! ## One scan -/

/-- The packet that a message is sent as once more: a PUBLISH is marked as a duplicate. -/
def retransmission (id : UInt16) (e : OutboundInflight) : Packet :=
  match e.stage with
  | .waitFirstAck => .publish {
      dup := true, qos := e.qos, retain := e.retain, topic := e.topic, packetId := some id
      payload := e.payload }
  | .waitPubcomp => .pubrel id

/-- How often an identifier is sent once more in a scan. -/
def Retry.resends (r : Retry) (id : UInt16) : List (UInt16 × Packet) :=
  r.toResend.filter (fun p => p.1 = id)

/-- What a scan makes of the entries of a table: each is in one of three classes. -/
structure Split (table : OutboundInflightTable) (now : Instant) (timeout : Duration)
    (maxRetries : Nat) (r : Retry) : Prop where
  absent : ∀ id, table.get id = none → r.table.get id = none ∧ r.resends id = [] ∧ id ∉ r.failed
  waiting : ∀ id e, table.get id = some e → now - e.lastSentAt < timeout →
    r.table.get id = some e ∧ r.resends id = [] ∧ id ∉ r.failed
  resent : ∀ id e, table.get id = some e → timeout ≤ now - e.lastSentAt →
    e.retryCount < maxRetries →
      r.table.get id = some { e with retryCount := e.retryCount + 1, lastSentAt := now } ∧
        r.resends id = [(id, retransmission id e)] ∧ id ∉ r.failed
  givenUp : ∀ id e, table.get id = some e → timeout ≤ now - e.lastSentAt →
    maxRetries ≤ e.retryCount →
      r.table.get id = none ∧ r.resends id = [] ∧ r.failed.count id = 1

section scan

variable (table : OutboundInflightTable) (now : Instant) (timeout : Duration) (maxRetries : Nat)

/-- An identifier is sent once more if its entry is due and not given up, and only once. -/
theorem resends_retryExpired (id : UInt16) :
    (table.retryExpired now timeout maxRetries).resends id =
      ((table.get id).toList.filter (isResent now timeout maxRetries)).map
        (fun e => (id, retransmission id e)) := by
  have hpkt : ∀ e : OutboundInflight,
      (resend now e).buildPacket id (e.stage = .waitFirstAck) = retransmission id e := by
    intro e
    unfold OutboundInflight.buildPacket retransmission resend
    cases hstage : e.stage <;> simp
  unfold Retry.resends retryExpired
  rw [foldl_retryOne]
  dsimp only
  rw [List.nil_append, List.filter_map, List.filter_filter]
  have hsame : (table.toPairs.filter fun p =>
        ((fun p : UInt16 × Packet => decide (p.1 = id)) ∘ fun p =>
          (p.1, (resend now p.2).buildPacket p.1 (p.2.stage = .waitFirstAck))) p &&
          isResent now timeout maxRetries p.2) =
      (table.toPairs.filter (fun p => p.1 = id)).filter
        (fun p => isResent now timeout maxRetries p.2) := by
    rw [List.filter_filter]
    exact List.filter_congr fun p _ => Bool.and_comm _ _
  rw [hsame, FinMap.filter_toPairs]
  cases table.get id with
  | none => rfl
  | some e =>
    by_cases hresent : isResent now timeout maxRetries e = true
    · simp [hresent, hpkt]
    · simp [hresent]

theorem count_failed_retryExpired (id : UInt16) :
    (table.retryExpired now timeout maxRetries).failed.count id =
      if ∃ e, table.get id = some e ∧ isFailed now timeout maxRetries e = true then 1 else 0 := by
  rw [List.Nodup.count (failed_retryExpired_nodup now timeout maxRetries table)]
  simp only [mem_failed_retryExpired]

/-- **A scan splits the table.** -/
theorem split_retryExpired :
    table.Split now timeout maxRetries (table.retryExpired now timeout maxRetries) := by
  have hdue : ∀ e : OutboundInflight, due now timeout e = true ↔ timeout ≤ now - e.lastSentAt := by
    intro e
    simp [due]
  constructor
  case absent =>
    intro id hget
    rw [get_retryExpired, resends_retryExpired, mem_failed_retryExpired, hget]
    simp
  case waiting =>
    intro id e hget hearly
    have hnot : due now timeout e = false := by simp [due, hearly]
    rw [get_retryExpired, resends_retryExpired, mem_failed_retryExpired, hget]
    simp [isFailed, isResent, hnot]
  case resent =>
    intro id e hget hlate hcnt
    have hfailed : isFailed now timeout maxRetries e = false := by
      simp [isFailed, (hdue e).2 hlate, hcnt]
    have hresent : isResent now timeout maxRetries e = true := by
      simp [isResent, (hdue e).2 hlate, hcnt]
    rw [get_retryExpired, resends_retryExpired, mem_failed_retryExpired, hget]
    simp [hfailed, hresent, resend]
  case givenUp =>
    intro id e hget hlate hcnt
    have hfailed : isFailed now timeout maxRetries e = true := by
      simp [isFailed, (hdue e).2 hlate, hcnt]
    have hresent : isResent now timeout maxRetries e = false := by
      simp [isResent, hcnt]
    rw [get_retryExpired, resends_retryExpired, count_failed_retryExpired, hget]
    simp [hfailed, hresent]

end scan

/-! ## Runs of a table -/

/-- What a connection does to its table. -/
inductive Op where
  /-- A message is sent for the first time. -/
  | insert (id : UInt16) (msg : OutboundPublish) (now : Instant)
  /-- PUBACK or PUBCOMP. -/
  | remove (id : UInt16)
  | pubrec (id : UInt16) (now : Instant)
  | retry (now : Instant) (timeout : Duration)

/-- The entry of a message that is sent for the first time. -/
def entryOf (msg : OutboundPublish) (now : Instant) : OutboundInflight :=
  .new msg.topic msg.payload msg.qos msg.retain now

section runs

variable (maxRetries : Nat)

def exec (table : OutboundInflightTable) : Op → OutboundInflightTable
  | .insert id msg now => table.insert id (entryOf msg now)
  | .remove id => table.erase id
  | .pubrec id now =>
    match table.get id with
    | some e => table.insert id { e with stage := .waitPubcomp, lastSentAt := now }
    | none => table
  | .retry now timeout => (table.retryExpired now timeout maxRetries).table

/-- An operation begins a handshake with an identifier. -/
def Op.Begins (id : UInt16) : Op → Prop
  | .insert id' _ _ => id' = id
  | .remove _ | .pubrec .. | .retry .. => False

/-- How often the timer sends an identifier once more. -/
def timerSends (id : UInt16) (table : OutboundInflightTable) : Op → Nat
  | .retry now timeout => ((table.retryExpired now timeout maxRetries).resends id).length
  | .insert .. | .remove _ | .pubrec .. => 0

def timerSendsIn (id : UInt16) : OutboundInflightTable → List Op → Nat
  | _, [] => 0
  | table, op :: ops =>
    timerSends maxRetries id table op + timerSendsIn id (exec maxRetries table op) ops

/-- How often an identifier may still be sent once more. -/
def credit (id : UInt16) (table : OutboundInflightTable) : Nat :=
  (table.get id).elim 0 (fun e => maxRetries - e.retryCount)

/-- Sending once more uses up credit, and only a new handshake gives some. -/
theorem credit_exec {id : UInt16} {op : Op} (hop : ¬ op.Begins id)
    (table : OutboundInflightTable) :
    timerSends maxRetries id table op + credit maxRetries id (exec maxRetries table op) ≤
      credit maxRetries id table := by
  unfold credit
  cases op with
  | insert id' msg now =>
    rw [exec, FinMap.get_insert, if_neg (fun h => hop h.symm)]
    exact Nat.le_of_eq (Nat.zero_add _)
  | remove id' =>
    rw [exec, FinMap.get_erase]
    split_ifs
    · exact Nat.zero_le _
    · exact Nat.le_of_eq (Nat.zero_add _)
  | pubrec id' now =>
    rw [exec]
    cases hget : table.get id' with
    | none => exact Nat.le_of_eq (Nat.zero_add _)
    | some e =>
      dsimp only
      rw [FinMap.get_insert]
      split_ifs with hid
      · -- the count of the entry goes on
        rw [hid, hget]
        exact Nat.le_of_eq (Nat.zero_add _)
      · exact Nat.le_of_eq (Nat.zero_add _)
  | retry now timeout =>
    have hsplit := split_retryExpired table now timeout maxRetries
    show ((table.retryExpired now timeout maxRetries).resends id).length + _ ≤ _
    rw [exec]
    cases hget : table.get id with
    | none =>
      obtain ⟨htable, hresends, -⟩ := hsplit.absent id hget
      rw [htable, hresends]
      exact Nat.le_refl _
    | some e =>
      rcases Nat.lt_or_ge (now - e.lastSentAt) timeout with hearly | hlate
      · obtain ⟨htable, hresends, -⟩ := hsplit.waiting id e hget hearly
        rw [htable, hresends]
        exact Nat.le_of_eq (Nat.zero_add _)
      · rcases Nat.lt_or_ge e.retryCount maxRetries with hcnt | hcnt
        · obtain ⟨htable, hresends, -⟩ := hsplit.resent id e hget hlate hcnt
          rw [htable, hresends]
          show 1 + (maxRetries - (e.retryCount + 1)) ≤ maxRetries - e.retryCount
          omega
        · obtain ⟨htable, hresends, -⟩ := hsplit.givenUp id e hget hlate hcnt
          rw [htable, hresends]
          exact Nat.zero_le _

theorem timerSendsIn_le {id : UInt16} {ops : List Op} (hops : ∀ op ∈ ops, ¬ op.Begins id)
    (table : OutboundInflightTable) :
    timerSendsIn maxRetries id table ops ≤ credit maxRetries id table := by
  induction ops generalizing table with
  | nil => exact Nat.zero_le _
  | cons op ops ih =>
    obtain ⟨hop, hops⟩ := List.forall_mem_cons.1 hops
    have hstep := credit_exec maxRetries hop table
    have hrest := ih hops (exec maxRetries table op)
    rw [timerSendsIn]
    omega

end runs

/-- **Retransmission is bounded and leaves the rest alone.** A scan splits a table into the entries
    that are not due, those that are sent once more and those that are given up. Until its
    identifier is free and taken by another handshake, a message is sent once more by the timer at
    most as often as it has attempts left, whatever else happens to the table. -/
theorem retransmission_bounded (table : OutboundInflightTable) (maxRetries : Nat) :
    (∀ now timeout, table.Split now timeout maxRetries
      (table.retryExpired now timeout maxRetries)) ∧
    ∀ id e ops, table.get id = some e → (∀ op ∈ ops, ¬ Op.Begins id op) →
      timerSendsIn maxRetries id table ops ≤ maxRetries - e.retryCount := by
  refine ⟨fun now timeout => split_retryExpired table now timeout maxRetries, ?_⟩
  intro id e ops hget hops
  have hle := timerSendsIn_le maxRetries hops table
  rwa [credit, hget] at hle

/-- A message that is never acknowledged is sent three more times and then given up. -/
example :
    let msg : OutboundPublish :=
      { topic := "t", payload := [], qos := .exactlyOnce, retain := false }
    let table : OutboundInflightTable := AList.insert 1 (entryOf msg 0) ∅
    timerSendsIn 3 1 table
      [.retry 10 10, .retry 20 10, .pubrec 1 25, .retry 40 10, .retry 60 10, .retry 70 10] = 3 := by
  decide

end OutboundInflightTable

end LumenMQ
