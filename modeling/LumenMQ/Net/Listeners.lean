import LumenMQ.Lib.Runs
import LumenMQ.Security.Guard

set_option autoImplicit false

/-! # Listeners

The accept loops of the TCP, TLS and WebSocket listeners and the tasks that they spawn, as far as
connections are counted. A loop asks the security guard and reads the two gauges before it spawns a
task; the task goes through its handshake, asks the guard once more, and is counted by the guard, as
a pending connection and as a current one, each at its own time. One step is one call of the guard
or one access to a gauge, and the steps of the loops and the tasks come in any order. -/

namespace LumenMQ

inductive Listener where
  | tcp
  | tls
  | websocket
deriving DecidableEq, Repr

/-- Where an accept loop is. -/
inductive AcceptLoop where
  /-- It waits for a connection. -/
  | idle
  | accepted (peer : SocketAddr)
  /-- The guard has let the address pass. -/
  | screened (peer : SocketAddr)
  | sawCurrent (peer : SocketAddr) (current : Int)
  | sawPending (peer : SocketAddr) (current pending : Int)
deriving DecidableEq

/-- Where the task of a connection is. -/
inductive Phase where
  /-- In the TLS or WebSocket handshake. -/
  | handshake
  /-- In `handle_connection`, before anything else. -/
  | started
  /-- Let pass by the guard. -/
  | checked
  /-- Told to the guard. -/
  | entered
  /-- Counted as pending. -/
  | pending
  /-- No longer pending, and not yet current. -/
  | promoted
  /-- Counted as current. -/
  | current
  /-- No longer current, with the socket still open. -/
  | uncounted
  /-- The socket is closed. -/
  | returned (promoted : Bool)
  /-- The guard has been told of the end. -/
  | disconnected (promoted : Bool)
deriving DecidableEq, Repr

namespace Phase

/-- The socket is open. -/
def isOpen : Phase → Bool
  | .returned _ | .disconnected _ => false
  | _ => true

/-- The guard has been told of the connection, and not yet of its end. -/
def isLive : Phase → Bool
  | .handshake | .started | .checked | .disconnected _ => false
  | _ => true

end Phase

/-- The task of a connection. -/
structure ConnTask where
  peer : SocketAddr
  phase : Phase
  /-- Whether the guard has counted the connection. The source does not keep this. -/
  counted : Bool := false
deriving DecidableEq

structure Listeners where
  security : SecurityGuard
  maxConnections : Nat
  connectionsCurrent : Int := 0
  connectionsPending : Int := 0
  loops : Listener → AcceptLoop := fun _ => .idle
  tasks : FinMap Nat ConnTask := ∅
  /-- The number of the next task. -/
  nextTask : Nat := 0

/-- What the task of a connection may do next. -/
inductive TaskStep where
  | handshake (ok : Bool)
  | checkConnection
  | onConnect
  | incPending
  /-- The CONNECT is accepted. -/
  | promote
  | incConnections
  /-- There is no CONNECT, or it is refused. -/
  | giveUp
  | decConnections
  | returns
  | onDisconnect (clientId : Option String)
  /-- The `PendingGuard` is dropped. -/
  | dropGuard
deriving DecidableEq

inductive ListenerEvent where
  | accept (l : Listener) (peer : SocketAddr)
  | screen (l : Listener)
  | loadCurrent (l : Listener)
  | loadPending (l : Listener)
  /-- The loop compares what it has read with the limit. -/
  | decide (l : Listener)
  | task (k : Nat) (a : TaskStep)
  | reload (cfg : SecurityConfig)
  /-- The gateway's devices, which share the gauge of connections, come or go. -/
  | devices (d : Int)

/-- Whether the connections of an address are counted and limited. -/
def SecurityGuard.limits (g : SecurityGuard) : Bool :=
  g.policy.enabled && 0 < g.policy.maxConnectionsPerIp

namespace Listeners

/-- A broker that has just been started. -/
def start (config : Settings) : Listeners :=
  { security := match SecurityGuard.new config.security with
      | .ok g => g
      | .error _ => .disabled
    maxConnections := config.broker.maxConnections }

def setLoop (s : Listeners) (l : Listener) (loop : AcceptLoop) : Listeners :=
  { s with loops := fun l' => if l' = l then loop else s.loops l' }

def putTask (s : Listeners) (k : Nat) (t : ConnTask) : Listeners :=
  { s with tasks := s.tasks.insert k t }

def dropTask (s : Listeners) (k : Nat) : Listeners := { s with tasks := s.tasks.erase k }

/-- `(current + pending) as usize >= max_connections`; the cast makes a negative sum a huge one. -/
def atLimit (s : Listeners) (current pending : Int) : Bool :=
  current + pending < 0 || (s.maxConnections : Int) ≤ current + pending

/-- The task of an admitted connection. Over TCP there is no handshake. -/
def spawn (s : Listeners) (l : Listener) (peer : SocketAddr) : Listeners :=
  { s.putTask s.nextTask { peer, phase := if l = .tcp then .started else .handshake } with
    nextTask := s.nextTask + 1 }

def taskStep (s : Listeners) (k : Nat) (t : ConnTask) : TaskStep → Option Listeners
  | .handshake ok =>
    if t.phase = .handshake then
      some (if ok then s.putTask k { t with phase := .started } else s.dropTask k)
    else none
  | .checkConnection =>
    if t.phase = .started then
      some (match s.security.checkConnection t.peer with
        | .ok () => s.putTask k { t with phase := .checked }
        | .error _ => s.dropTask k)
    else none
  | .onConnect =>
    if t.phase = .checked then
      some { s.putTask k { t with phase := .entered, counted := s.security.limits } with
        security := s.security.onConnect t.peer }
    else none
  | .incPending =>
    if t.phase = .entered then
      some { s.putTask k { t with phase := .pending } with
        connectionsPending := s.connectionsPending + 1 }
    else none
  | .promote =>
    if t.phase = .pending then
      some { s.putTask k { t with phase := .promoted } with
        connectionsPending := s.connectionsPending - 1 }
    else none
  | .incConnections =>
    if t.phase = .promoted then
      some { s.putTask k { t with phase := .current } with
        connectionsCurrent := s.connectionsCurrent + 1 }
    else none
  | .giveUp =>
    if t.phase = .pending then some (s.putTask k { t with phase := .returned false }) else none
  | .decConnections =>
    if t.phase = .current then
      some { s.putTask k { t with phase := .uncounted } with
        connectionsCurrent := s.connectionsCurrent - 1 }
    else none
  | .returns =>
    if t.phase = .uncounted then some (s.putTask k { t with phase := .returned true }) else none
  | .onDisconnect clientId =>
    match t.phase with
    | .returned promoted =>
      some { s.putTask k { t with phase := .disconnected promoted } with
        security := s.security.onDisconnect t.peer clientId }
    | _ => none
  | .dropGuard =>
    match t.phase with
    | .disconnected promoted =>
      some { s.dropTask k with
        connectionsPending := if promoted then s.connectionsPending else s.connectionsPending - 1 }
    | _ => none

def step (s : Listeners) : ListenerEvent → Option Listeners
  | .accept l peer =>
    match s.loops l with
    | .idle => some (s.setLoop l (.accepted peer))
    | _ => none
  | .screen l =>
    match s.loops l with
    | .accepted peer =>
      some (match s.security.checkConnection peer with
        | .ok () => s.setLoop l (.screened peer)
        | .error _ => s.setLoop l .idle)
    | _ => none
  | .loadCurrent l =>
    match s.loops l with
    | .screened peer => some (s.setLoop l (.sawCurrent peer s.connectionsCurrent))
    | _ => none
  | .loadPending l =>
    match s.loops l with
    | .sawCurrent peer current => some (s.setLoop l (.sawPending peer current s.connectionsPending))
    | _ => none
  | .decide l =>
    match s.loops l with
    | .sawPending peer current pending =>
      some (if s.atLimit current pending then s.setLoop l .idle
        else (s.spawn l peer).setLoop l .idle)
    | _ => none
  | .task k a => (s.tasks.get k).bind (fun t => s.taskStep k t a)
  | .reload cfg => some { s with security := (s.security.reload cfg).2 }
  | .devices d => some { s with connectionsCurrent := s.connectionsCurrent + d }

end Listeners

end LumenMQ
