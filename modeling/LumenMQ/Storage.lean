import LumenMQ.Lib.OrderedMap
import LumenMQ.Codec.Reader
import LumenMQ.Broker.Subscription
import LumenMQ.Broker.StoreMsg

set_option autoImplicit false

/-! # Storage

Three trees of an embedded store, taken as ordered persistent maps from byte strings: retained
messages, session snapshots and offline messages. Values are records in JSON; here a value is the
record it parses to, or `none` when it does not parse. The operations are assumed to succeed. -/

namespace LumenMQ

/-- Bytes in the order of their values, so that keys are ordered lexicographically. -/
instance instLinearOrderUInt8 : LinearOrder UInt8 where
  le_refl := UInt8.le_refl
  le_trans _ _ _ := UInt8.le_trans
  le_antisymm _ _ := UInt8.le_antisymm
  le_total := UInt8.le_total
  lt_iff_le_not_ge a b := by
    rw [UInt8.not_le]
    exact ⟨fun h => ⟨UInt8.le_of_lt h, h⟩, And.right⟩
  toDecidableLE := inferInstance

structure RetainedMessage where
  topic : String
  payload : Bytes
  qos : QoS
deriving DecidableEq, Repr

/-- What is kept of a persistent session across a restart. -/
structure SessionSnapshot where
  clientId : String
  subscriptions : List (String × QoS)
deriving DecidableEq, Repr

/-- A tree of the store. -/
abbrev Tree (α : Type) := OrderedMap Bytes (Option α)

structure Storage where
  retained : Tree RetainedMessage := .empty
  sessions : Tree SessionSnapshot := .empty
  offline : Tree OutboundPublish := .empty
  /-- The next number `Db::generate_id` gives out. -/
  nextId : Nat := 0

/-- `[u16 BE client_id_len][client_id bytes]`; the length is cut to two bytes. -/
def offlineKeyPrefix (clientId : String) : Bytes :=
  beBytes 2 (stringBytes clientId).length ++ stringBytes clientId

/-- The records of a tree that parse, in the order of their keys. -/
def Tree.values {α : Type} (t : Tree α) : List α := t.entries.filterMap Prod.snd

namespace Storage

def saveRetained (s : Storage) (topic : String) (msg : RetainedMessage) : Storage :=
  { s with retained := s.retained.insert (stringBytes topic) (some msg) }

def deleteRetained (s : Storage) (topic : String) : Storage :=
  { s with retained := s.retained.remove (stringBytes topic) }

def loadAllRetained (s : Storage) : List RetainedMessage := Tree.values s.retained

def saveSession (s : Storage) (clientId : String) (snap : SessionSnapshot) : Storage :=
  { s with sessions := s.sessions.insert (stringBytes clientId) (some snap) }

def deleteSession (s : Storage) (clientId : String) : Storage :=
  { s with sessions := s.sessions.remove (stringBytes clientId) }

def loadAllSessions (s : Storage) : List SessionSnapshot := Tree.values s.sessions

/-- Append a message to a client's records, under the next number. -/
def pushOffline (s : Storage) (clientId : String) (msg : OutboundPublish) : Storage :=
  { s with
    offline := s.offline.insert (offlineKeyPrefix clientId ++ beBytes 8 s.nextId) (some msg)
    nextId := s.nextId + 1 }

/-- Whether an offline record is scanned for a client. -/
def isOfflineRecordOf (clientId : String) (e : Bytes × Option OutboundPublish) : Bool :=
  (offlineKeyPrefix clientId).isPrefixOf e.1

/-- Take out all records of a client; those that do not parse go as well. -/
def drainOffline (s : Storage) (clientId : String) : List OutboundPublish × Storage :=
  (Tree.values (s.offline.filter (isOfflineRecordOf clientId)),
    { s with offline := s.offline.filter (fun e => !isOfflineRecordOf clientId e) })

end Storage

end LumenMQ
