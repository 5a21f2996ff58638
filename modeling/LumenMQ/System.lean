import LumenMQ.Admin
import LumenMQ.Broker.Connection
import LumenMQ.Net.MqttSn

set_option autoImplicit false

/-! # The broker as a system

The shared state, the tasks of the connections by epoch, and the gateway's devices and forwarders.
An event is what may happen next: a packet, a timer, a datagram, an administrator's request. Each is
one atomic step, and a run is any sequence of them. A step that is not possible, or that never
returns, leads nowhere.

The steps are coarser than the program, whose tasks may be interleaved at every `await`:

* a CONNECT, its answer and the replay of the offline messages are one step;
* a packet is handled in one step, with every delivery that it brings about;
* a packet that is sent is written or fails, and a send is not cancelled half-way.

What may come between two calls of a task is the subject of `HandleConnection`, `CleanupRace` and
the modules on races. Epochs are natural numbers here: the program's counter of 64 bits would come
round after 2^64 connections. -/

namespace LumenMQ

structure Sys extends Gateway where
  conns : FinMap Nat Conn := ∅

inductive Event where
  /-- Time passes. -/
  | tick (d : Duration)
  /-- A connection is opened and sends these bytes; `uuid` is what the broker would make up for a
      client without an identifier, and `credit` and `arms` say how the transport and the replay
      turn out. -/
  | connect (peer : SocketAddr) (bytes : Bytes) (uuid : String) (credit : Option Nat)
      (arms : List ReplayArm)
  /-- Bytes arrive on a connection. -/
  | receive (epoch : Nat) (bytes : Bytes)
  /-- The transport of a connection changes. -/
  | transport (epoch : Nat) (credit : Option Nat)
  /-- An arm of a connection's main loop is taken. -/
  | arm (epoch : Nat) (a : Arm)
  /-- A connection whose loop has ended is cleaned up. -/
  | finish (epoch : Nat)
  | datagram (peer : SocketAddr) (bytes : Bytes)
  /-- A forwarder takes its next message. -/
  | forward (epoch : Nat) (sendOk : Bool)
  /-- The gateway looks for silent devices. -/
  | sweepDevices
  /-- The broker looks for expired sessions. -/
  | sweepSessions
  | deleteSession (clientId : String)
  | manualPublish (req : ManualPublishRequest)
  | reloadSecurity (cfg : SecurityConfig)
  | reloadPlugin (cfg : PluginConfig)
  /-- The process is stopped and started again on the same storage. -/
  | restart (config : Settings)

namespace Sys

def onBroker (s : Sys) (f : BrokerState → BrokerState) : Sys := { s with broker := f s.broker }

/-- The task of a connection, as it works on the system's state. -/
def task (s : Sys) (epoch : Nat) (c : Conn) : Task := { broker := s.broker, epoch, conn := c }

/-- What a task leaves behind. -/
def ofTask (s : Sys) (t : Task) : Sys :=
  { s with broker := t.broker, conns := s.conns.insert t.epoch t.conn }

def ofGateway (s : Sys) (g : Gateway) : Sys := { s with toGateway := g }

/-! ## Connections -/

/-- Run one arm of a connection that is in its main loop. -/
def runArm (s : Sys) (epoch : Nat) (a : Arm) : Option Sys := do
  let c ← s.conns.get epoch
  if c.exit.isSome then none
  else
    let (_, t) ← a.run (s.task epoch c)
    some (s.ofTask t)

/-- Clean up after a connection whose main loop has ended. -/
def finish (s : Sys) (epoch : Nat) : Option Sys := do
  let c ← s.conns.get epoch
  let x ← c.exit
  let b ← s.broker.afterExit c.clientId epoch c.clean x
  some { s with broker := b.dropConnection epoch c, conns := s.conns.erase epoch }

/-- The connection of an accepted CONNECT. -/
def start (s : Sys) (connect : Connect) (peer : SocketAddr) (buffer : Bytes) (credit : Option Nat)
    (arms : List ReplayArm) : Option Sys := do
  let (sessionPresent, t) := s.broker.openSession connect peer buffer credit
  let connack : Connack :=
    { sessionPresent, returnCode := 0, protocolLevel := connect.protocolLevel }
  let (_, t) ← welcome connack arms t
  some (s.ofTask t)

/-- The CONNECT at the front of the bytes a new connection has sent, if it is accepted, and the
    bytes after it. -/
def accepts (b : BrokerState) (bytes : Bytes) (uuid : String) : Option (Connect × Bytes) :=
  let codec : MqttCodec := { maxPacketSize := b.config.broker.maxPacketSize }
  match codec.decode bytes with
  | (.ok (some (.connect c)), rest) =>
    match admitConnect b.config c uuid with
    | .ok c => some (c, rest)
    | .error _ => none
  | _ => none

/-- A new connection: its address is checked and counted, and its first packet must be a CONNECT. -/
def connect (s : Sys) (peer : SocketAddr) (bytes : Bytes) (uuid : String) (credit : Option Nat)
    (arms : List ReplayArm) : Option Sys :=
  match s.broker.security.checkConnection peer with
  | .error _ => some s
  | .ok () =>
    let s := s.onBroker (fun b => { b with security := b.security.onConnect peer })
    match accepts s.broker bytes uuid with
    | some (c, rest) => s.start c peer rest credit arms
    | none => some (s.onBroker (fun b => { b with security := b.security.onDisconnect peer none }))

/-- Change the record of a connection. -/
def onConn (s : Sys) (epoch : Nat) (f : Conn → Conn) : Option Sys :=
  (s.conns.get epoch).map (fun c => { s with conns := s.conns.insert epoch (f c) })

/-! ## Steps and runs -/

/-- The broker is constructed again from what is on disk. A restart that switches the storage on or
    off is not considered. -/
def restart (s : Sys) (config : Settings) : Option Sys :=
  if config.storage.enabled = s.broker.storage.isSome then
    (BrokerState.new config s.broker.storage s.broker.now).map (fun b =>
      { broker := { b with trace := s.broker.trace } })
  else none

def step (s : Sys) : Event → Option Sys
  | .tick d => some (s.onBroker (fun b => { b with now := b.now + d }))
  | .connect peer bytes uuid credit arms => s.connect peer bytes uuid credit arms
  | .receive k bytes => s.onConn k (fun c => { c with buffer := c.buffer ++ bytes })
  | .transport k credit => s.onConn k (fun c => { c with credit })
  | .arm k a => s.runArm k a
  | .finish k => s.finish k
  | .datagram peer bytes => (s.toGateway.datagram peer bytes).map s.ofGateway
  | .forward k sendOk => (s.toGateway.forward k sendOk).map s.ofGateway
  | .sweepDevices => some (s.ofGateway s.toGateway.sweep)
  | .sweepSessions => some (s.onBroker BrokerState.sweepExpired)
  | .deleteSession clientId => some (s.onBroker (fun b => (b.deleteSession clientId).2))
  | .manualPublish req => (s.broker.manualPublish req).map (fun p => { s with broker := p.2 })
  | .reloadSecurity cfg => some (s.onBroker (fun b => (b.reloadSecurity cfg).2))
  | .reloadPlugin cfg => some (s.onBroker (fun b => b.reloadPlugin cfg))
  | .restart config => s.restart config

/-- A sequence of steps. -/
def run (s : Sys) (es : List Event) : Option Sys := es.foldlM step s

/-- The system before its first start: a broker on an empty storage, if any. -/
def init (config : Settings) (now : Instant) : Option Sys :=
  let storage : Option Storage := if config.storage.enabled then some {} else none
  (BrokerState.new config storage now).map (fun broker => { broker })

end Sys

end LumenMQ
