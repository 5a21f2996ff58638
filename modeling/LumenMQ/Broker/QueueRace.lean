import LumenMQ.Broker.RegisterSteps

set_option autoImplicit false

/-! # Deliveries among registrations

`deliver_or_enqueue` takes the sender and the queue out of the client's entry and lets go of the
map; only then does it send or enqueue. `register` empties the queue of the entry that is there and
replaces the entry. Here each of these accesses is a step, and the steps of any number of deliveries
and registrations of one client, which keeps its sessions, come in any order. A delivery that
enqueues after its queue has been replaced leaves the message where nobody looks. -/

namespace LumenMQ

open Option List FinMap SessionManager OfflineQueue Runs OfflineMessage

variable {q : OfflineQueue} {otherwise : DeliveryOutcome}

namespace OfflineQueue

def payloads (q : OfflineQueue) : List OutboundPublish := q.inner.map payload

/-- Nothing has to go for a new message exactly if nothing has expired and there is room. -/
theorem enqueue_discards_iff {q' : OfflineQueue} {now : Instant} {msg : OutboundPublish}
    {out : List OfflineMessage} (h : q.enqueue now msg = some (out, q')) :
    out = [] ↔ q.expired now = [] ∧ q.inner.length < q.maxMessages := by
  obtain ⟨⟨dropped, rest⟩, hroom, heq⟩ := map_eq_some_iff.1 h
  simp only [Prod.mk.injEq] at heq
  obtain ⟨rfl, -⟩ := heq
  rw [append_eq_nil_iff]
  refine and_congr_right fun hexp => ?_
  have hinner := q.expired_append_evictExpired now
  rw [hexp, nil_append] at hinner
  rw [hinner] at hroom
  constructor
  · intro hdrop
    have hrest := makeRoom_append hroom
    rw [hdrop, nil_append] at hrest
    exact hrest ▸ makeRoom_length hroom
  · intro hlt
    rw [makeRoom_of_length_lt hlt] at hroom
    simp only [some.injEq, Prod.mk.injEq] at hroom
    exact hroom.1.symm

end OfflineQueue

/-! ## The machine -/

/-- An offline queue. All clones of its handle are the same queue. -/
inductive QueueHandle where
  /-- The queue of the entry that was there at first. -/
  | initial
  /-- The queue that came with a registration. -/
  | madeBy (i : Nat)
deriving DecidableEq

/-- Where a call of `deliver_or_enqueue` is. -/
inductive DeliveryCall where
  /-- The entry was connected. -/
  | sending (tx : Nat) (queue : Option QueueHandle) (msg : OutboundPublish)
  | enqueueing (queue : QueueHandle) (msg : OutboundPublish)
  | returned (outcome : DeliveryOutcome)
deriving DecidableEq

namespace DeliveryCall

/-- The message goes into the queue; without one the call returns. -/
def enqueueOr (queue : Option QueueHandle) (msg : OutboundPublish) (otherwise : DeliveryOutcome) :
    DeliveryCall :=
  match queue with
  | some queue => .enqueueing queue msg
  | none => .returned otherwise

/-- The queue that the call has the handle of. -/
def queue : DeliveryCall → Option QueueHandle
  | .sending _ queue _ => queue
  | .enqueueing queue _ => some queue
  | .returned _ => none

theorem queue_of_enqueueOr {handle : Option QueueHandle} {msg : OutboundPublish} {h : QueueHandle}
    (hq : (enqueueOr handle msg otherwise).queue = some h) : handle = some h := by
  cases handle with
  | none => simp [enqueueOr, queue] at hq
  | some handle => exact hq

end DeliveryCall

structure QueueRace where
  table : SessionManager
  /-- The client that all the calls are about. -/
  clientId : String
  /-- The queue of the client's entry. -/
  current : QueueHandle := .initial
  /-- The queues of the entries that were replaced. -/
  detached : FinMap QueueHandle OfflineQueue := ∅
  deliveries : FinMap Nat DeliveryCall := ∅
  registers : FinMap Nat RegisterCall := ∅
  /-- The messages that were put into a queue. The source keeps none of these lists. -/
  enqueued : List OutboundPublish := []
  /-- What each registration returned. -/
  drained : List (List OutboundPublish) := []
  /-- What an operation on a queue has thrown away, or put into a queue that was replaced. -/
  lost : List OutboundPublish := []

inductive QueueEvent where
  | lookup (i : Nat) (msg : OutboundPublish)
  | send (i : Nat)
  | enqueue (i : Nat) (now : Instant)
  | draw (i : Nat) (args : RegisterArgs)
  /-- The queue is drained and the entry replaced. -/
  | enter (i : Nat) (now : Instant)
  | count (i : Nat)
  /-- A channel is opened or emptied, or its receiver is gone. -/
  | channel (id : Nat) (ch : Option Channel)
  /-- A connection ends. -/
  | markOffline (now : Instant) (epoch : Nat)

namespace QueueRace

variable {i : Nat} {msg : OutboundPublish} {entry : SessionEntry} {h : QueueHandle}
  {d : SessionManager.Delivery} {now : Instant}

/-- The queue of the client's entry. -/
def queue (s : QueueRace) : Option OfflineQueue :=
  (s.table.get s.clientId).bind SessionEntry.offlineQueue

/-- The queue of a handle. -/
def queueOf (s : QueueRace) (h : QueueHandle) : Option OfflineQueue :=
  if h = s.current then s.queue else s.detached.get h

/-- What is in the queue of the client's entry. -/
def content (s : QueueRace) : List OutboundPublish := (s.queue.map OfflineQueue.payloads).getD []

def start (table : SessionManager) (clientId : String) : QueueRace :=
  let s : QueueRace := { table, clientId }
  { s with enqueued := s.content }

/-- The call that comes next for a delivery. -/
def deliver (s : QueueRace) (i : Nat) (call : DeliveryCall) : QueueRace :=
  { s with deliveries := s.deliveries.insert i call }

def step (s : QueueRace) : QueueEvent → Option QueueRace
  | .lookup i msg =>
    match s.deliveries.get i, s.table.get s.clientId with
    | none, none => some (s.deliver i (.returned .noSession))
    | none, some e =>
      let queue := e.offlineQueue.map (fun _ => s.current)
      if e.connected then some (s.deliver i (.sending e.tx queue msg))
      else some (s.deliver i (.enqueueOr queue msg .dropped))
    | some _, _ => none
  | .send i =>
    match s.deliveries.get i with
    | some (.sending tx queue msg) =>
      match s.table.channels.get tx with
      | none => some (s.deliver i (.enqueueOr queue msg .dropped))
      | some ch =>
        if ch.buffer.length < ch.capacity then
          let ch := { ch with buffer := ch.buffer ++ [msg] }
          some { s.deliver i (.returned .sent) with
            table := { s.table with channels := s.table.channels.insert tx ch } }
        else some (s.deliver i (.enqueueOr queue msg .channelFull))
    | _ => none
  | .enqueue i now =>
    match s.deliveries.get i with
    | some (.enqueueing queue msg) =>
      if queue = s.current then
        (s.table.get s.clientId).bind fun e => e.offlineQueue.bind fun q =>
          (q.enqueue now msg).map fun (out, q) =>
            { s.deliver i (.returned .enqueued) with
              table := s.table.put s.clientId { e with offlineQueue := some q }
              enqueued := s.enqueued ++ [msg]
              lost := s.lost ++ out.map payload }
      -- the entry was replaced since, and the handle is the only one left
      else
        (s.detached.get queue).bind fun q => (q.enqueue now msg).map fun (_, q) =>
          { s.deliver i (.returned .enqueued) with
            detached := s.detached.insert queue q
            enqueued := s.enqueued ++ [msg]
            lost := s.lost ++ [msg] }
    | _ => none
  | .draw i args =>
    match s.registers.get i with
    | none =>
      if args.clientId = s.clientId ∧ args.cleanSession = false then
        some { s with
          table := s.table.drawEpoch.2
          registers := s.registers.insert i (.drawn args s.table.drawEpoch.1) }
      else none
    | some _ => none
  | .enter i now =>
    match s.registers.get i with
    | some (.drawn args epoch) =>
      let entered := s.table.enter now args epoch
      some { s with
        table := entered.sessions
        current := .madeBy i
        detached := match s.queue with
          | some q => s.detached.insert s.current { q with inner := [] }
          | none => s.detached
        registers := s.registers.insert i (.entered entered.incOnline
          { epoch, sessionPresent := entered.sessionPresent, drained := entered.drained })
        drained := s.drained ++ [entered.drained]
        lost := s.lost ++
          (s.queue.map (fun q => (q.expired now).map payload)).getD [] }
    | _ => none
  | .count i =>
    match s.registers.get i with
    | some (.entered incOnline reply) => some { s with
        table := s.table.countOnline incOnline
        registers := s.registers.insert i (.returned reply) }
    | _ => none
  | .channel id ch =>
    match ch with
    | some ch => some { s with
        table := { s.table with channels := s.table.channels.insert id ch } }
    | none => some { s with table := s.table.closeChannel id }
  | .markOffline now epoch => some { s with table := s.table.markOffline now s.clientId epoch }

/-- Every message that was put into a queue is in exactly one place: in what one of the
    registrations returned, or in the queue of the client's entry. -/
def Kept (s : QueueRace) : Prop := s.enqueued.Perm (s.drained.flatten ++ s.content)

/-- The step leaves no message behind: a delivery enqueues into the queue of the client's entry,
    there is room in it, and neither an enqueueing nor a drain finds a message past its TTL. -/
def keeps (s : QueueRace) : QueueEvent → Bool
  | .enqueue i now =>
    match s.deliveries.get i with
    | some (.enqueueing queue _) => queue = s.current ∧
        s.queue.all (fun q => q.expired now = [] ∧ q.inner.length < q.maxMessages)
    | _ => true
  | .enter i now =>
    match s.registers.get i with
    | some (.drawn _ _) => s.queue.all (fun q => q.expired now = [])
    | _ => true
  | _ => true

/-! ## What a step changes -/

/-- The client's entry as far as its queue goes. -/
def holding (sm : SessionManager) (clientId : String) : Option (Bool × Option OfflineQueue) :=
  (sm.get clientId).map (fun e => (e.cleanSession, e.offlineQueue))

theorem queue_eq_of_holding {s s' : QueueRace}
    (h : holding s'.table s'.clientId = holding s.table s.clientId) : s'.queue = s.queue := by
  have hq : ∀ s : QueueRace, s.queue = (holding s.table s.clientId).bind Prod.snd := by
    intro s
    unfold queue holding
    cases s.table.get s.clientId <;> rfl
  rw [hq, hq, h]

theorem holding_markOffline (sm : SessionManager) (now : Instant) (c : String) (epoch : Nat) :
    holding (sm.markOffline now c epoch) c = holding sm c := by
  unfold holding
  rw [SessionManager.markOffline_get, Option.map_map]
  refine Option.map_congr fun e _ => ?_
  simp only [Function.comp_apply]
  split_ifs <;> rfl

/-- What a step changes. -/
inductive Change (s : QueueRace) (e : QueueEvent) (s' : QueueRace) : Prop
  /-- A delivery that has found the entry, or has tried to send. -/
  | call (i : Nat) (call : DeliveryCall) (channels : FinMap Nat Channel)
      (hkeeps : s.keeps e = true)
      (hheld : ∀ h, call.queue = some h → (s.queueOf h).isSome = true ∨
        ∃ before, s.deliveries.get i = some before ∧ before.queue = some h)
      (hs' : s' = { s.deliver i call with table := { s.table with channels } })
  | enqueued (i : Nat) (now : Instant) (msg : OutboundPublish) (entry : SessionEntry)
      (q q' : OfflineQueue) (out : List OfflineMessage)
      (he : e = .enqueue i now) (hcall : s.deliveries.get i = some (.enqueueing s.current msg))
      (hget : s.table.get s.clientId = some entry) (hqueue : entry.offlineQueue = some q)
      (henqueue : q.enqueue now msg = some (out, q'))
      (hs' : s' = { s.deliver i (.returned .enqueued) with
        table := s.table.put s.clientId { entry with offlineQueue := some q' }
        enqueued := s.enqueued ++ [msg]
        lost := s.lost ++ out.map payload })
  /-- The queue has been replaced since the delivery looked. -/
  | late (i : Nat) (now : Instant) (queue : QueueHandle) (msg : OutboundPublish) (q : OfflineQueue)
      (he : e = .enqueue i now) (hcall : s.deliveries.get i = some (.enqueueing queue msg))
      (hlate : queue ≠ s.current)
      (hs' : s' = { s.deliver i (.returned .enqueued) with
        detached := s.detached.insert queue q
        enqueued := s.enqueued ++ [msg]
        lost := s.lost ++ [msg] })
  | entered (i : Nat) (now : Instant) (args : RegisterArgs) (epoch : Nat) (call : RegisterCall)
      (he : e = .enter i now) (hcall : s.registers.get i = some (.drawn args epoch))
      (hdone : ∀ args epoch, call ≠ .drawn args epoch)
      (hs' : s' = { s with
        table := (s.table.enter now args epoch).sessions
        current := .madeBy i
        detached := match s.queue with
          | some q => s.detached.insert s.current { q with inner := [] }
          | none => s.detached
        registers := s.registers.insert i call
        drained := s.drained ++ [(s.table.enter now args epoch).drained]
        lost := s.lost ++
          (s.queue.map (fun q => (q.expired now).map payload)).getD [] })
  /-- The queue stays as it is. -/
  | table (table : SessionManager) (registers : FinMap Nat RegisterCall)
      (hkeeps : s.keeps e = true)
      (hholding : holding table s.clientId = holding s.table s.clientId)
      (hregisters : ∀ i args epoch, registers.get i = some (.drawn args epoch) →
        s.registers.get i = some (.drawn args epoch) ∨
          args.clientId = s.clientId ∧ args.cleanSession = false)
      (hs' : s' = { s with table, registers })

variable {s s' : QueueRace} {e : QueueEvent}

/-- A call that has got its handle from the call before. -/
theorem held_of_enqueueOr {tx : Nat} {queue : Option QueueHandle}
    (hcall : s.deliveries.get i = some (.sending tx queue msg)) :
    ∀ h, (DeliveryCall.enqueueOr queue msg otherwise).queue = some h →
      (s.queueOf h).isSome = true ∨
        ∃ before, s.deliveries.get i = some before ∧ before.queue = some h :=
  fun _ hq => .inr ⟨_, hcall, DeliveryCall.queue_of_enqueueOr hq⟩

/-- A call that has just taken its handle out of the entry. -/
theorem held_of_entry (hget : s.table.get s.clientId = some entry)
    (hqueue : entry.offlineQueue.map (fun _ => s.current) = some h) :
    (s.queueOf h).isSome = true := by
  obtain ⟨q, hq, rfl⟩ := map_eq_some_iff.1 hqueue
  rw [queueOf, if_pos rfl, queue, hget, bind_some, hq]
  rfl

theorem step_change (h : s.step e = some s') : Change s e s' := by
  cases e with
  | lookup i msg =>
    simp only [step] at h
    split at h
    · exact .call i _ _ rfl (by simp [DeliveryCall.queue]) (some.inj h).symm
    · next entry _ hget =>
      split_ifs at h
      · exact .call i (.sending entry.tx (entry.offlineQueue.map (fun _ => s.current)) msg) _ rfl
          (fun _ hq => .inl (held_of_entry hget hq)) (some.inj h).symm
      · exact .call i _ _ rfl (fun _ hq => .inl (held_of_entry hget
          (DeliveryCall.queue_of_enqueueOr hq))) (some.inj h).symm
    · simp at h
  | send i =>
    simp only [step] at h
    split at h
    · next tx queue msg hcall =>
      split at h
      · exact .call i _ _ rfl (held_of_enqueueOr hcall) (some.inj h).symm
      · split_ifs at h
        · exact .call i _ _ rfl (by simp [DeliveryCall.queue]) (some.inj h).symm
        · exact .call i _ _ rfl (held_of_enqueueOr hcall) (some.inj h).symm
    · simp at h
  | enqueue i now =>
    simp only [step] at h
    split at h
    · next queue msg hcall =>
      split_ifs at h with hcur
      · subst hcur
        obtain ⟨entry, hget, h⟩ := bind_eq_some_iff.1 h
        obtain ⟨q, hq, h⟩ := bind_eq_some_iff.1 h
        obtain ⟨⟨out, q'⟩, henq, h⟩ := map_eq_some_iff.1 h
        exact .enqueued i now msg entry q q' out rfl hcall hget hq henq h.symm
      · obtain ⟨q, -, h⟩ := bind_eq_some_iff.1 h
        obtain ⟨⟨out, q'⟩, -, h⟩ := map_eq_some_iff.1 h
        exact .late i now queue msg q' rfl hcall hcur h.symm
    · simp at h
  | draw i args =>
    simp only [step] at h
    split at h
    · split_ifs at h with hargs
      refine .table s.table.drawEpoch.2 _ rfl rfl ?_ (some.inj h).symm
      intro i' args' epoch' hcall
      rw [get_insert] at hcall
      split_ifs at hcall
      · obtain ⟨rfl, -⟩ := RegisterCall.drawn.inj (some.inj hcall)
        exact .inr hargs
      · exact .inl hcall
    · simp at h
  | enter i now =>
    simp only [step] at h
    split at h
    · next args epoch hcall =>
      exact .entered i now args epoch _ rfl hcall (by simp) (some.inj h).symm
    · simp at h
  | count i =>
    simp only [step] at h
    split at h
    · next incOnline reply hcall =>
      refine .table (s.table.countOnline incOnline) _ rfl rfl ?_ (some.inj h).symm
      intro i' args' epoch' hcall
      rw [get_insert] at hcall
      split_ifs at hcall
      · simp at hcall
      · exact .inl hcall
    · simp at h
  | channel id ch =>
    cases ch with
    | none =>
      exact .table (s.table.closeChannel id) s.registers rfl rfl (fun _ _ _ => .inl)
        (some.inj h).symm
    | some ch =>
      exact .table { s.table with channels := s.table.channels.insert id ch } s.registers rfl rfl
        (fun _ _ _ => .inl) (some.inj h).symm
  | markOffline now epoch =>
    exact .table (s.table.markOffline now s.clientId epoch) s.registers rfl
      (holding_markOffline ..) (fun _ _ _ => .inl) (some.inj h).symm

/-! ## The books -/

/-- What holds of the client's entry, of the registrations and of the handles all along a run. -/
structure Attached (s : QueueRace) : Prop where
  queued : ∀ entry, s.table.get s.clientId = some entry →
    (entry.offlineQueue.isSome = true ↔ entry.cleanSession = false)
  registers : ∀ i args epoch, s.registers.get i = some (.drawn args epoch) →
    args.clientId = s.clientId ∧ args.cleanSession = false
  /-- A handle that a delivery has is of some queue. -/
  held : ∀ i call h, s.deliveries.get i = some call → call.queue = some h →
    (s.queueOf h).isSome = true

theorem attached_start {table : SessionManager} (htable : table.Queued) (clientId : String) :
    (start table clientId).Attached :=
  ⟨htable clientId, by simp [start], by simp [start]⟩

/-- The handles after a delivery has gone one step further. -/
theorem Attached.held_deliver (hs : s.Attached) {call : DeliveryCall}
    (hcall : ∀ h, call.queue = some h → (s.queueOf h).isSome = true) {i' : Nat}
    {call' : DeliveryCall} (hget : (s.deliver i call).deliveries.get i' = some call')
    (hq : call'.queue = some h) : (s.queueOf h).isSome = true := by
  rw [deliver, get_insert] at hget
  split_ifs at hget with hi
  · obtain rfl := some.inj hget
    exact hcall h hq
  · exact hs.held i' call' h hget hq

/-- A step that replaces no entry and gives no queue up leaves every handle its queue. -/
theorem queueOf_isSome_mono (hcur : s'.current = s.current)
    (hq : s.queue.isSome = true → s'.queue.isSome = true)
    (hdetached : ∀ h, (s.detached.get h).isSome = true → (s'.detached.get h).isSome = true)
    (hs : (s.queueOf h).isSome = true) : (s'.queueOf h).isSome = true := by
  unfold queueOf at hs ⊢
  rw [hcur]
  split_ifs at hs ⊢
  · exact hq hs
  · exact hdetached h hs

theorem isSome_get_insert {detached : FinMap QueueHandle OfflineQueue}
    (hget : (detached.get h).isSome = true) (h' : QueueHandle) (q : OfflineQueue) :
    (FinMap.get (detached.insert h' q) h).isSome = true := by
  rw [get_insert]
  split_ifs
  · rfl
  · exact hget

/-- The entry that a registration leaves. -/
theorem get_enter {args : RegisterArgs} (hcl : args.clientId = s.clientId) (now : Instant)
    (epoch : Nat) : (s.table.enter now args epoch).sessions.get s.clientId =
      some (s.table.newEntry now args.clientId args.cleanSession args.tx args.will
        args.protocolLevel args.peerAddr epoch args.sessionExpiry) := by
  rw [enter_sessions, ← hcl, get_put_self]

theorem step_attached (h : s.step e = some s') (hs : s.Attached) : s'.Attached := by
  cases step_change h with
  | call i call channels _ hheld hs' =>
    subst hs'
    refine ⟨hs.queued, hs.registers, fun i' call' h => hs.held_deliver ?_⟩
    intro h hqueue
    rcases hheld h hqueue with hcur | ⟨before, hbefore, hqueue⟩
    · exact hcur
    · exact hs.held i before h hbefore hqueue
  | enqueued i now msg entry q q' out he hcall hget hqueue henq hs' =>
    have hput := get_put_self s.table s.clientId
      { entry with offlineQueue := some q' }
    have hsome : s'.queue.isSome = true := by simp [hs', queue, deliver]
    subst hs'
    refine ⟨?_, hs.registers, ?_⟩
    · intro entry' hget'
      rw [← some.inj (hput.symm.trans hget'), ← hs.queued entry hget, hqueue]
      rfl
    · intro i' call' h hget' hqueue'
      exact queueOf_isSome_mono (s := s) (by rfl) (fun _ => hsome) (fun _ => id)
        (hs.held_deliver (by simp [DeliveryCall.queue]) hget' hqueue')
  | late i now queue msg q he hcall hlate hs' =>
    subst hs'
    refine ⟨hs.queued, hs.registers, ?_⟩
    intro i' call' h hget' hqueue'
    refine queueOf_isSome_mono (s := s) (by rfl) ?_ ?_
      (hs.held_deliver (by simp [DeliveryCall.queue]) hget' hqueue')
    · exact fun hsome => hsome
    · exact fun _ hget => isSome_get_insert hget queue q
  | entered i now args epoch call he hcall hdone hs' =>
    obtain ⟨hcl, hclean⟩ := hs.registers i args epoch hcall
    have hget := get_enter hcl now epoch
    subst hs'
    refine ⟨?_, ?_, ?_⟩
    · intro entry hent
      rw [← some.inj (hget.symm.trans hent)]
      simp [newEntry, hclean]
    · intro i' args' epoch' hcall'
      rw [get_insert] at hcall'
      split_ifs at hcall'
      · exact absurd (some.inj hcall') (hdone args' epoch')
      · exact hs.registers i' args' epoch' hcall'
    · intro i' call' h hcall' hqueue
      have hheld := hs.held i' call' h hcall' hqueue
      unfold queueOf at hheld ⊢
      dsimp only
      split_ifs at hheld ⊢ with hnew hold hold
      · simp [queue, hget, newEntry, hclean]
      · simp [queue, hget, newEntry, hclean]
      · obtain ⟨q, hq⟩ := isSome_iff_exists.1 hheld
        simp [hq, hold]
      · cases s.queue with
        | none => exact hheld
        | some q => exact isSome_get_insert hheld s.current _
  | table table registers _ hholds hreg hs' =>
    have hsame : s'.queue = s.queue := queue_eq_of_holding (by rw [hs']; exact hholds)
    subst hs'
    refine ⟨?_, ?_, ?_⟩
    · intro entry hent
      rw [holding, hent, map_some, holding] at hholds
      obtain ⟨entry0, hget, heq⟩ := map_eq_some_iff.1 hholds.symm
      obtain ⟨hclean, hqueue⟩ := Prod.mk.inj heq
      rw [← hclean, ← hqueue]
      exact hs.queued entry0 hget
    · intro i args epoch hcall
      rcases hreg i args epoch hcall with hcall | hargs
      · exact hs.registers i args epoch hcall
      · exact hargs
    · intro i call h hcall hqueue
      refine queueOf_isSome_mono (s := s) (by rfl) ?_ ?_ (hs.held i call h hcall hqueue)
      · rw [hsame]
        exact id
      · exact fun _ hget => hget

/-- Every message that was put into a queue was handed over, or is in the queue, or is lost. -/
def Accounted (s : QueueRace) : Prop := s.enqueued.Perm (s.drained.flatten ++ s.content ++ s.lost)

theorem accounted_start (table : SessionManager) (clientId : String) :
    (start table clientId).Accounted := by
  show List.Perm _ (_ ++ [])
  rw [append_nil]
  exact List.Perm.refl _

theorem Accounted.count (hs : s.Accounted) (m : OutboundPublish) : s.enqueued.count m =
    s.drained.flatten.count m + s.content.count m + s.lost.count m := by
  rw [List.Perm.count_eq hs m, count_append, count_append]

theorem accounted_of_count (h : ∀ m, s.enqueued.count m =
    s.drained.flatten.count m + s.content.count m + s.lost.count m) : s.Accounted := by
  refine perm_iff_count.2 fun m => ?_
  rw [h, count_append, count_append]

theorem content_eq (h : s.queue = some q) : s.content = q.payloads := by
  rw [content, h]
  rfl

/-- What a registration takes out of the queue, and what has expired in it. -/
theorem enter_drained (hs : s.Attached) {args : RegisterArgs} (hcl : args.clientId = s.clientId)
    (now : Instant) (epoch : Nat) :
    (s.queue.map (fun q => (q.expired now).map payload)).getD [] ++
      (s.table.enter now args epoch).drained = s.content := by
  unfold content queue enter
  rw [hcl]
  cases hget : s.table.get s.clientId with
  | none => rfl
  | some entry =>
    have hqueued := hs.queued entry hget
    cases hq : entry.offlineQueue with
    | none => simp [hq, SessionEntry.handover]
    | some q =>
      have hclean : entry.cleanSession = false := hqueued.1 (by rw [hq]; rfl)
      simp only [bind_some, hq, map_some, getD_some,
        SessionEntry.handover, hclean]
      rw [drain, ← map_append, q.expired_append_evictExpired]
      rfl

theorem step_accounted (h : s.step e = some s') (hatt : s.Attached) (hs : s.Accounted) :
    s'.Accounted := by
  cases step_change h with
  | call i call channels _ hheld hs' => exact hs' ▸ hs
  | enqueued i now msg entry q q' out he hcall hget hq henq hs' =>
    have hbefore : s.content = q.payloads :=
      content_eq (by rw [queue, hget, bind_some, hq])
    have hafter : s'.content = q'.payloads := content_eq (by simp [hs', queue, deliver])
    subst hs'
    refine accounted_of_count fun m => ?_
    have hcnt := hs.count m
    have happend := congrArg (fun l => (l.map payload).count m)
      (enqueue_append henq)
    rw [hafter]
    rw [hbefore] at hcnt
    simp only [map_append, count_append, map_cons, map_nil] at happend
    simp only [count_append, payloads] at hcnt ⊢
    show _ = s.drained.flatten.count m + _ + _
    omega
  | late i now queue msg q he hcall hlate hs' =>
    subst hs'
    refine accounted_of_count fun m => ?_
    have hcnt := hs.count m
    show (s.enqueued ++ [msg]).count m = s.drained.flatten.count m + s.content.count m +
      (s.lost ++ [msg]).count m
    rw [count_append, count_append]
    omega
  | entered i now args epoch call he hcall hdone hs' =>
    obtain ⟨hcl, hclean⟩ := hatt.registers i args epoch hcall
    have hget := get_enter hcl now epoch
    have hafter : s'.content = [] := by
      simp [hs', content, queue, hget, newEntry, hclean, payloads]
    subst hs'
    refine accounted_of_count fun m => ?_
    have hcnt := hs.count m
    have hdrained := congrArg (count m) (enter_drained hatt hcl now epoch)
    rw [count_append] at hdrained
    rw [hafter]
    simp only [flatten_append, flatten_cons, flatten_nil, append_nil,
      count_append, count_nil]
    omega
  | table table registers _ hholds hreg hs' =>
    have hsame : s'.queue = s.queue := queue_eq_of_holding (by rw [hs']; exact hholds)
    have hcont : s'.content = s.content := by rw [content, hsame, content]
    unfold Accounted
    rw [hcont, hs']
    exact hs

/-- **No message is lost exactly if the step leaves none behind.** -/
theorem step_lost_iff (h : s.step e = some s') : s'.lost = [] ↔ s.lost = [] ∧ s.keeps e = true := by
  cases step_change h with
  | call i call channels hkeeps hheld hs' =>
    subst hs'
    exact (and_iff_left hkeeps).symm
  | enqueued i now msg entry q q' out he hcall hget hqueue henq hs' =>
    subst hs' he
    have hq : s.queue = some q := by rw [queue, hget, bind_some, hqueue]
    rw [append_eq_nil_iff, map_eq_nil_iff, enqueue_discards_iff henq]
    simp [keeps, hcall, hq]
  | late i now queue msg q he hcall hlate hs' =>
    subst hs' he
    simp [keeps, hcall, hlate]
  | entered i now args epoch call he hcall hdone hs' =>
    subst hs' he
    rw [append_eq_nil_iff]
    cases hq : s.queue <;> simp [keeps, hcall, hq]
  | table table registers hkeeps hholds hreg hs' =>
    subst hs'
    exact (and_iff_left hkeeps).symm

theorem kept_iff_lost (hs : s.Accounted) : s.Kept ↔ s.lost = [] := by
  constructor
  · intro hkept
    have hlen := (hkept.symm.trans hs).length_eq
    simp only [length_append] at hlen
    exact length_eq_zero_iff.1 (by omega)
  · intro hlost
    rw [Accounted, hlost, append_nil] at hs
    exact hs

/-- **Takeover neither loses nor duplicates messages exactly if no step leaves one behind.** After a
    run every message that was enqueued is in exactly one place if and only if every delivery
    enqueued into the queue of the entry that was the client's at that moment, with room left, and
    neither a delivery nor a registration found a message in that queue past its TTL. -/
theorem takeover_keeps_iff {table : SessionManager} (htable : table.Queued) (clientId : String)
    {es : List QueueEvent} (hrun : Runs.run step (start table clientId) es = some s) :
    s.Kept ↔ Runs.Meets step (fun s e => s.keeps e = true) (start table clientId) es := by
  have haccounted : s.Attached ∧ s.Accounted :=
    run_invariant (C := fun _ _ => True) (I := fun s => s.Attached ∧ s.Accounted)
      (fun _ _ _ hs _ hstep => ⟨step_attached hstep hs.1, step_accounted hstep hs.1 hs.2⟩)
      ⟨attached_start htable clientId, accounted_start table clientId⟩
      (meets_of_forall (fun _ _ => trivial) _ _) hrun
  rw [kept_iff_lost haccounted.2, run_iff (I := fun _ => True) (J := fun s => s.lost = [])
    (fun _ _ _ _ _ => trivial) (fun _ _ _ _ hstep => step_lost_iff hstep) trivial hrun]
  exact and_iff_right rfl

/-- The client `a` has connected and is gone. -/
def offlineCalls : List (Instant × SessionOp) :=
  [(0, .register "a" false 1 none mqtt311Level BrokerState.dummyAddr none), (0, .markOffline "a" 1)]

/-- The client `a` connects again. -/
def returns : RegisterArgs where
  clientId := "a"
  cleanSession := false
  tx := 2
  will := none
  protocolLevel := mqtt311Level
  peerAddr := BrokerState.dummyAddr
  sessionExpiry := none

def news : OutboundPublish where
  topic := "t"
  payload := []
  qos := .atLeastOnce
  retain := false

/-- A message comes in before the client connects again. -/
def orderlyRun : List QueueEvent :=
  [.lookup 0 news, .enqueue 0 1, .draw 0 returns, .enter 0 2, .count 0]

/-- The client connects again between the lookup and the enqueueing. -/
def overtakenRun : List QueueEvent :=
  [.lookup 0 news, .draw 0 returns, .enter 0 1, .count 0, .enqueue 0 2]

theorem takeover_keeps_iff_orderly : ∃ table s, table.Queued ∧
    Runs.run step (start table "a") orderlyRun = some s ∧ s.drained = [[news]] ∧ s.Kept := by
  obtain ⟨table, s, ⟨-, htable⟩, hrun, hp⟩ := exists_run_from step (start · "a")
    offlineCalls orderlyRun
    (fun s₀ s => s.drained = [[news]] && meets step keeps s₀ orderlyRun) (by decide +kernel)
  obtain ⟨hdrained, hmeets⟩ := Bool.and_eq_true_iff.1 hp
  refine ⟨table, s, htable, hrun, of_decide_eq_true hdrained, ?_⟩
  exact (takeover_keeps_iff htable "a" hrun).2
    (meets_of_check keeps (fun _ _ h => h) hmeets)

/-- The message was enqueued, but neither did the registration return it nor is it in the queue. -/
theorem overtaken_message_lost : ∃ table s, table.Queued ∧
    Runs.run step (start table "a") overtakenRun = some s ∧
    s.deliveries.get 0 = some (.returned .enqueued) ∧ s.enqueued = [news] ∧
    s.drained = [[]] ∧ s.content = [] ∧ ¬ s.Kept := by
  obtain ⟨table, s, ⟨-, htable⟩, hrun, hp⟩ := exists_run_from step (start · "a")
    offlineCalls overtakenRun
    (fun _ s => s.deliveries.get 0 = some (.returned .enqueued) ∧ s.enqueued = [news] ∧
      s.drained = [[]] ∧ s.content = []) (by decide +kernel)
  obtain ⟨hcall, henqueued, hdrained, hcontent⟩ := of_decide_eq_true hp
  refine ⟨table, s, htable, hrun, hcall, henqueued, hdrained, hcontent, ?_⟩
  rw [Kept, henqueued, hdrained, hcontent]
  exact fun hperm => by simpa using hperm.length_eq

/-! ## A delivery by itself -/

/-- After these steps the delivery has returned, and has left the table as the whole call does. -/
def Finishes (s : QueueRace) (i : Nat) (d : SessionManager.Delivery) (es : List QueueEvent) :
    Prop :=
  ∃ s', Runs.run step s es = some s' ∧ s'.table = d.sessions ∧
    s'.deliveries.get i = some (.returned d.outcome) ∧ s'.lost = s.lost ++ d.discarded

theorem Finishes.cons {es : List QueueEvent} (h : s.step e = some s') (hlost : s'.lost = s.lost)
    (hs' : s'.Finishes i d es) : s.Finishes i d (e :: es) := by
  obtain ⟨s'', hrun, hrest⟩ := hs'
  refine ⟨s'', run_cons.2 ⟨s', h, hrun⟩, ?_⟩
  rw [← hlost]
  exact hrest

theorem step_enqueue {q' : OfflineQueue} {out : List OfflineMessage}
    (hcall : s.deliveries.get i = some (.enqueueing s.current msg))
    (hget : s.table.get s.clientId = some entry) (hq : entry.offlineQueue = some q)
    (henq : q.enqueue now msg = some (out, q')) :
    s.step (.enqueue i now) = some { s.deliver i (.returned .enqueued) with
      table := s.table.put s.clientId { entry with offlineQueue := some q' }
      enqueued := s.enqueued ++ [msg]
      lost := s.lost ++ out.map OfflineMessage.payload } := by
  simp only [step, hcall, if_true]
  rw [hget, bind_some, hq, bind_some, henq]
  rfl

/-- A delivery that has a handle can enqueue, unless the queue is one without any room. -/
theorem enqueue_isSome (hs : s.Attached) (now : Instant)
    (hcall : s.deliveries.get i = some (.enqueueing h msg))
    (hroom : ∀ q, s.queueOf h = some q → 0 < q.maxMessages) :
    (s.step (.enqueue i now)).isSome = true := by
  obtain ⟨q, hq⟩ := isSome_iff_exists.1 (hs.held i _ h hcall rfl)
  have henq : (q.enqueue now msg).isSome = true := enqueue_isSome_iff.2 (hroom q hq)
  unfold queueOf at hq
  simp only [step, hcall]
  split_ifs at hq ⊢
  · obtain ⟨entry, hget, hq⟩ := bind_eq_some_iff.1 hq
    simp [hget, hq, henq]
  · simp [hq, henq]

theorem finishes_enqueueOr (hget : s.table.get s.clientId = some entry)
    (hd : s.table.enqueueOr now s.clientId entry msg otherwise = some d) :
    ∃ es, es.Sublist [.enqueue i now] ∧
      (s.deliver i (.enqueueOr (entry.offlineQueue.map (fun _ => s.current)) msg otherwise)).Finishes
        i d es := by
  unfold enqueueOr at hd
  cases hq : entry.offlineQueue with
  | none =>
    simp only [hq, some.injEq] at hd
    subst hd
    exact ⟨[], nil_sublist _, _, rfl, rfl, get_insert_self .., (append_nil _).symm⟩
  | some q =>
    simp only [hq, map_eq_some_iff] at hd
    obtain ⟨⟨out, q'⟩, henq, rfl⟩ := hd
    have hstep := step_enqueue (s := s.deliver i (.enqueueing s.current msg))
      (get_insert_self ..) hget hq henq
    exact ⟨_, List.Sublist.refl _, _, run_cons.2 ⟨_, hstep, rfl⟩, rfl,
      get_insert_self .., rfl⟩

theorem finishes_send (hcall : s.deliveries.get i =
      some (.sending entry.tx (entry.offlineQueue.map (fun _ => s.current)) msg))
    (hget : s.table.get s.clientId = some entry) (hconn : entry.connected = true)
    (hd : s.table.deliverOrEnqueue now s.clientId msg = some d) :
    ∃ es, es.Sublist [.send i, .enqueue i now] ∧ s.Finishes i d es := by
  have hfall : ∀ otherwise, s.step (.send i) = some (s.deliver i
      (.enqueueOr (entry.offlineQueue.map (fun _ => s.current)) msg otherwise)) →
      s.table.enqueueOr now s.clientId entry msg otherwise = some d →
      ∃ es, es.Sublist [.send i, .enqueue i now] ∧ s.Finishes i d es := by
    intro otherwise hsend hd
    obtain ⟨es, hes, hfinishes⟩ := finishes_enqueueOr hget hd
    exact ⟨.send i :: es, hes.cons_cons _, hfinishes.cons hsend rfl⟩
  simp only [deliverOrEnqueue, hget] at hd
  rw [if_pos hconn] at hd
  cases hch : s.table.channels.get entry.tx with
  | none =>
    simp only [hch] at hd
    refine hfall .dropped ?_ hd
    simp only [step, hcall, hch]
  | some ch =>
    simp only [hch] at hd
    by_cases hroom : ch.buffer.length < ch.capacity
    · rw [if_pos hroom, some.injEq] at hd
      subst hd
      have hsend : s.step (.send i) = some { s.deliver i (.returned .sent) with
          table := { s.table with
            channels := s.table.channels.insert entry.tx
              { ch with buffer := ch.buffer ++ [msg] } } } := by
        simp only [step, hcall, hch]
        rw [if_pos hroom]
      exact ⟨[.send i], by simp, _, run_cons.2 ⟨_, hsend, rfl⟩, rfl,
        get_insert_self .., (append_nil _).symm⟩
    · rw [if_neg hroom] at hd
      refine hfall .channelFull ?_ hd
      simp only [step, hcall, hch]
      rw [if_neg hroom]

/-- Without registrations the accesses of a delivery are `deliver_or_enqueue`. -/
theorem exists_finishes (s : QueueRace) (hfree : s.deliveries.get i = none)
    (hd : s.table.deliverOrEnqueue now s.clientId msg = some d) :
    ∃ es, es.Sublist [.lookup i msg, .send i, .enqueue i now] ∧ s.Finishes i d es := by
  cases hget : s.table.get s.clientId with
  | none =>
    simp only [deliverOrEnqueue, hget, some.injEq] at hd
    subst hd
    have hlook : s.step (.lookup i msg) = some (s.deliver i (.returned .noSession)) := by
      simp only [step, hfree, hget]
    exact ⟨[.lookup i msg], by simp, _, run_cons.2 ⟨_, hlook, rfl⟩, rfl,
      get_insert_self .., (append_nil _).symm⟩
  | some entry =>
    by_cases hconn : entry.connected = true
    · have hlook : s.step (.lookup i msg) = some (s.deliver i (.sending entry.tx
          (entry.offlineQueue.map (fun _ => s.current)) msg)) := by
        simp only [step, hfree, hget]
        rw [if_pos hconn]
      obtain ⟨es, hes, hfinishes⟩ := finishes_send (s := s.deliver i (.sending entry.tx
        (entry.offlineQueue.map (fun _ => s.current)) msg)) (get_insert_self ..) hget
        hconn hd
      exact ⟨.lookup i msg :: es, hes.cons_cons _, hfinishes.cons hlook rfl⟩
    · have hlook : s.step (.lookup i msg) = some (s.deliver i (.enqueueOr
          (entry.offlineQueue.map (fun _ => s.current)) msg .dropped)) := by
        simp only [step, hfree, hget]
        rw [if_neg hconn]
      simp only [deliverOrEnqueue, hget] at hd
      rw [if_neg hconn] at hd
      obtain ⟨es, hes, hfinishes⟩ := finishes_enqueueOr hget hd
      exact ⟨.lookup i msg :: es, (hes.cons _).cons_cons _, hfinishes.cons hlook rfl⟩

end QueueRace

end LumenMQ
