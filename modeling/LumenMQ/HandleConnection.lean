import LumenMQ.System

set_option autoImplicit false

/-! # A call of `handle_connection`

One call, from the accepted socket to its return, in the midst of the other tasks. The function has
many ways out: some return at once and account for the connection on the spot, others leave the loop
and have it done at the end. Each of them is written out here. The other tasks run wherever the call
itself waits, though not inside `handle_packet`, which is one turn; what they do, and which branch
of a `select!` is ready next, is told by a list of turns. -/

namespace LumenMQ

open Process

/-- An access to one of the two gauges. -/
inductive GaugeOp where
  | incPending
  | decPending
  | incConnections
  | decConnections
deriving DecidableEq, Repr

namespace GaugeOp

/-- What is added to `connections_pending`. -/
def pending : GaugeOp → Int
  | .incPending => 1
  | .decPending => -1
  | .incConnections | .decConnections => 0

/-- What is added to `connections_current`. -/
def current : GaugeOp → Int
  | .incPending | .decPending => 0
  | .incConnections => 1
  | .decConnections => -1

end GaugeOp

/-- What happens next while the call waits. -/
inductive HandlingTurn where
  /-- Another task takes a step. -/
  | other (e : Event)
  /-- Other calls change the gauge of pending connections. -/
  | otherPending (d : Int)
  /-- The first packet has arrived, or does not arrive. `uuid` and `credit` are as in
      `Event.connect`. -/
  | first (bytes : Bytes) (uuid : String) (credit : Option Nat)
  /-- A branch of the `select!` in the offline replay. -/
  | replay (a : ReplayArm)
  /-- A branch of the `select!` in the main loop. -/
  | arm (a : Arm)

structure Handling where
  sys : Sys
  connectionsPending : Int
  /-- The `PendingGuard`. -/
  promoted : Bool := false
  clientIdOut : Option String := none
  epoch : Nat := 0
  turns : List HandlingTurn
  /-- What the call has done to the gauges, the latest first. The source does not keep this, nor
      what follows. -/
  gauges : List GaugeOp := []
  /-- What the other tasks have added to the gauges meanwhile. -/
  othersPending : Int := 0
  othersCurrent : Int := 0

/-- A computation of the call; its failure is the `return Ok(())` of the source. -/
abbrev Serving := Process Handling Unit

/-- Whether the main loop goes on. -/
inductive Flow where
  | continue
  | break
deriving DecidableEq, Repr

namespace Handling

variable {α : Type}

/-- A call that is about to begin. -/
def start (sys : Sys) (connectionsPending : Int) (turns : List HandlingTurn) : Handling :=
  { sys, connectionsPending, turns }

/-! ## Waiting -/

/-- The steps of the call itself are not another task's, and no call survives a restart. -/
def intrudes (c : Handling) : Event → Bool
  | .arm k _ | .finish k => k = c.epoch
  | .restart _ => true
  | _ => false

/-- Another task has changed the system. -/
def afterOther (c : Handling) (s : Sys) : Handling :=
  { c with
    sys := s
    othersCurrent := c.othersCurrent +
      (s.broker.connectionsCurrent - c.sys.broker.connectionsCurrent) }

/-- The other tasks run until it is the call's turn. -/
def others (c : Handling) : List HandlingTurn → Option Handling
  | .other e :: turns =>
    if c.intrudes e then none else (c.sys.step e).bind (fun s => (c.afterOther s).others turns)
  | .otherPending d :: turns =>
    { c with
      connectionsPending := c.connectionsPending + d
      othersPending := c.othersPending + d }.others turns
  | turns => some { c with turns }

/-- An `await`. -/
def wait : Serving Unit := tryUpdate (fun c => c.others c.turns)

/-- The call's turn. Without one it does not return. -/
def turn (f : HandlingTurn → Option α) : Serving α := fun c =>
  match c.turns with
  | [] => none
  | t :: turns => (f t).map (fun a => (.ok a, { c with turns }))

def firstTurn : Serving (Bytes × String × Option Nat) :=
  turn (fun t => match t with
    | .first bytes uuid credit => some (bytes, uuid, credit)
    | _ => none)

def replayTurn : Serving ReplayArm :=
  turn (fun t => match t with
    | .replay a => some a
    | _ => none)

def armTurn : Serving Arm :=
  turn (fun t => match t with
    | .arm a => some a
    | _ => none)

/-! ## Steps -/

def returnOk : Serving α := fail ()

/-- One access to a gauge. -/
def metered (c : Handling) (op : GaugeOp) : Handling :=
  { c with
    connectionsPending := c.connectionsPending + op.pending
    sys := c.sys.onBroker (fun b =>
      { b with connectionsCurrent := b.connectionsCurrent + op.current })
    gauges := op :: c.gauges }

def meter (op : GaugeOp) : Serving Unit := update (fun c => c.metered op)

/-- `PendingGuard::promote`. -/
def promote : Serving Unit := do
  let c ← read
  when (!c.promoted) do
    update (fun c => { c with promoted := true })
    meter .decPending

/-- The end of the `PendingGuard`. -/
def dropGuard : Serving Unit := do
  let c ← read
  when (!c.promoted) (meter .decPending)

/-- A step on the state of the connection. -/
def onTask (x : Handler α) : Serving (Except BrokerError α) := fun c =>
  (c.sys.conns.get c.epoch).bind (fun conn =>
    (x (c.sys.task c.epoch conn)).map (fun result =>
      (.ok result.1, { c with sys := c.sys.ofTask result.2 })))

/-- `sink.send(packet).await`. -/
def sendPacket (packet : Packet) : Serving (Except BrokerError Unit) := do
  wait
  onTask (send packet)

/-- A step of the call on the shared state, with the names that the call goes by. -/
def onSession (f : BrokerState → String → Nat → Bool → Option BrokerState) : Serving Unit :=
  tryUpdate (fun c => (c.sys.conns.get c.epoch).bind (fun conn =>
    (f c.sys.broker conn.clientId c.epoch conn.clean).map (fun broker =>
      { c with sys := { c.sys with broker } })))

def cleanup : Serving Unit :=
  onSession (fun b clientId epoch clean => some (b.cleanup clientId epoch clean))

def onAbnormalDisconnect : Serving Unit := onSession BrokerState.onAbnormalDisconnect

def clearWill : Serving Unit :=
  onSession (fun b clientId epoch _ =>
    some { b with sessions := b.sessions.clearWill clientId epoch })

/-- Register the session. `openSession` counts the connection at once, which the source does a
    little later. -/
def register (connect : Connect) (peer : SocketAddr) (buffer : Bytes) (credit : Option Nat) :
    Serving Bool :=
  act (fun c =>
    let (sessionPresent, t) := c.sys.broker.openSession connect peer buffer credit
    (sessionPresent,
      { c with
        sys := (c.sys.ofTask t).onBroker (fun b =>
          { b with connectionsCurrent := c.sys.broker.connectionsCurrent })
        epoch := t.epoch
        clientIdOut := some connect.clientId }))

def isKeepAliveExpired : Serving Bool := do
  match ← onTask read with
  | .ok t => pure (t.conn.isKeepAliveExpired t.broker.now)
  | .error _ => pure false

/-! ## The offline replay -/

def replayBranch (packet : Packet) : ReplayArm → Serving Unit
  | .shutdown => do
    let _ ← sendPacket .disconnect
    cleanup
    meter .decConnections
    returnOk
  | .wake => pure ()
  | .heartbeat => do
    if ← isKeepAliveExpired then
      onAbnormalDisconnect
      meter .decConnections
      returnOk
  | .send => do
    match ← sendPacket packet with
    | .ok () => pure ()
    | .error _ => do
      onAbnormalDisconnect
      meter .decConnections
      returnOk

def offlineReplay : List OutboundPublish → Serving Unit
  | [] => pure ()
  | msg :: rest => do
    match ← onTask (act (fun t => (t.takeReplay msg rest).buildOutboundPacket msg)) with
    | .ok (some packet) => do
      wait
      let a ← replayTurn
      replayBranch packet a
      offlineReplay rest
    | _ => offlineReplay rest

/-! ## The main loop -/

def shutdownBranch : Serving Flow := do
  let _ ← sendPacket .disconnect
  cleanup
  pure .break

def heartbeatBranch : Serving Flow := do
  if ← isKeepAliveExpired then
    onAbnormalDisconnect
    pure .break
  else
    pure .continue

/-- Send what is overdue once more. The first failure ends the call at once. -/
def resend : List Packet → Serving Unit
  | [] => pure ()
  | packet :: rest => do
    match ← sendPacket packet with
    | .ok () => resend rest
    | .error _ => do
      onAbnormalDisconnect
      meter .decConnections
      returnOk

def retryBranch : Serving Flow := do
  match ← onTask (act (fun t => (t.retryExpired.toResend.map Prod.snd, t.retry))) with
  | .ok packets => do
    resend packets
    pure .continue
  | .error _ => pure .continue

/-- `ctx.touch()` and `handle_packet`. -/
def touchAndHandle (packet : Packet) : Handler Control := do
  update (fun t => t.onConn (fun c => { c with lastActivity := t.broker.now }))
  handlePacket packet

def packetBranch (packet : Packet) : Serving Flow := do
  match ← onTask (touchAndHandle packet) with
  | .ok .continue => pure .continue
  | .ok .disconnect => do
    clearWill
    cleanup
    pure .break
  | .error _ => do
    onAbnormalDisconnect
    pure .break

def inboundBranch (streamEnded : Bool) : Serving Flow := do
  match ← onTask nextPacket with
  | .ok (.ok (some packet)) => packetBranch packet
  | .ok (.ok none) => do
    if streamEnded then
      onAbnormalDisconnect
      pure .break
    else
      pure .continue
  | _ => do
    onAbnormalDisconnect
    pure .break

def outboundBranch : Serving Flow := do
  match ← onTask read with
  | .ok t =>
    match t.broker.sessions.channels.get t.epoch with
    | none => pure .continue
    | some ch =>
      match ch.buffer with
      | [] => pure (if t.senderAlive then .continue else .break)
      | req :: rest => do
        match ← onTask (act (fun t => (t.takeChannel ch req rest).buildOutboundPacket req)) with
        | .ok (some packet) =>
          match ← sendPacket packet with
          | .ok () => pure .continue
          | .error _ => do
            onAbnormalDisconnect
            pure .break
        | _ => pure .continue
  | .error _ => pure .continue

def branch : Arm → Serving Flow
  | .shutdown => shutdownBranch
  | .heartbeat => heartbeatBranch
  | .retry => retryBranch
  | .inbound => inboundBranch false
  | .streamEnd => inboundBranch true
  | .outbound => outboundBranch

/-- The main loop. Every round takes a turn, so their number bounds the rounds. -/
def mainLoop : Nat → Serving Unit
  | 0 => fun _ => none
  | n + 1 => do
    wait
    let a ← armTurn
    match ← branch a with
    | .continue => mainLoop n
    | .break => pure ()

/-! ## The whole call -/

/-- From an accepted CONNECT on. -/
def serveSession (connect : Connect) (peer : SocketAddr) (buffer : Bytes) (credit : Option Nat) :
    Serving Unit := do
  let sessionPresent ← register connect peer buffer credit
  promote
  meter .incConnections
  match ← sendPacket (.connack
      { sessionPresent, returnCode := 0, protocolLevel := connect.protocolLevel }) with
  | .error _ => do
    cleanup
    meter .decConnections
    returnOk
  | .ok () => do
    let c ← read
    offlineReplay (((c.sys.conns.get c.epoch).map Conn.replay).getD [])
    let _ ← onTask (update (fun t => t.onBroker (fun b => b.clearDiskOffline t.conn.clientId)))
    let c ← read
    mainLoop c.turns.length
    meter .decConnections

def handleConnectionInner (peer : SocketAddr) : Serving Unit := do
  wait
  let (bytes, uuid, credit) ← firstTurn
  let c ← read
  let codec : MqttCodec := { maxPacketSize := c.sys.broker.config.broker.maxPacketSize }
  match codec.decode bytes with
  | (.ok (some (.connect connect)), buffer) =>
    match admitConnect c.sys.broker.config connect uuid with
    | .ok connect => serveSession connect peer buffer credit
    -- the client is told why, if that is possible
    | .error _ => returnOk
  -- another packet, none that can be decoded, or none at all in time
  | _ => returnOk

/-- The channel and the connection's own state, if there are any, go with the call. -/
def dropLocals : Serving Unit := do
  let c ← read
  when c.clientIdOut.isSome (update (fun c => { c with sys := { c.sys with
    broker := { c.sys.broker with sessions := c.sys.broker.sessions.closeChannel c.epoch }
    conns := c.sys.conns.erase c.epoch } }))

/-- The guard of the security middleware is told of a change. -/
def onSecurity (f : Handling → SecurityGuard) : Serving Unit :=
  update (fun c => { c with sys := c.sys.onBroker (fun b => { b with security := f c }) })

def handleConnection (peer : SocketAddr) : Serving Unit := do
  let c ← read
  match c.sys.broker.security.checkConnection peer with
  | .error _ => returnOk
  | .ok () => do
    onSecurity (fun c => c.sys.broker.security.onConnect peer)
    meter .incPending
    let _ ← attempt (handleConnectionInner peer)
    dropLocals
    onSecurity (fun c => c.sys.broker.security.onDisconnect peer c.clientIdOut)
    dropGuard

end Handling

end LumenMQ
