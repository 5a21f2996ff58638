import LumenMQ.Broker.SessionTable

set_option autoImplicit false

/-! # Registering in steps

`register` draws an epoch, replaces the entry and then counts it. Between these accesses the map is
free for other calls. -/

namespace LumenMQ

/-- The arguments of `register`. -/
structure RegisterArgs where
  clientId : String
  cleanSession : Bool
  tx : Nat
  will : Option WillMessage
  protocolLevel : UInt8
  peerAddr : SocketAddr
  sessionExpiry : Option UInt32

/-- What `register` returns. -/
structure RegisterReply where
  epoch : Nat
  sessionPresent : Bool
  drained : List OutboundPublish

/-- What the update of the map's entry yields. -/
structure Entered where
  sessionPresent : Bool
  drained : List OutboundPublish
  /-- Whether there is one connected session more. -/
  incOnline : Bool
  sessions : SessionManager

/-- Where a call of `register` is. -/
inductive RegisterCall where
  /-- The epoch is drawn. -/
  | drawn (args : RegisterArgs) (epoch : Nat)
  /-- The entry is replaced. -/
  | entered (incOnline : Bool) (reply : RegisterReply)
  | returned (reply : RegisterReply)

namespace RegisterCall

def isReturned : RegisterCall → Bool
  | .returned _ => true
  | _ => false

/-- The session is in the map, and still to be counted. -/
def isUncounted : RegisterCall → Bool
  | .entered incOnline _ => incOnline
  | _ => false

end RegisterCall

namespace SessionManager

/-- `epoch_counter.fetch_add(1)`. -/
def drawEpoch (sm : SessionManager) : Nat × SessionManager :=
  (sm.epochCounter + 1, { sm with epochCounter := sm.epochCounter + 1 })

/-- The update of the map's entry. -/
def enter (sm : SessionManager) (now : Instant) (args : RegisterArgs) (epoch : Nat) : Entered :=
  let entry := sm.newEntry now args.clientId args.cleanSession args.tx args.will args.protocolLevel
    args.peerAddr epoch args.sessionExpiry
  match sm.get args.clientId with
  | some old =>
    { sessionPresent := !old.cleanSession, drained := old.handover now, incOnline := !old.connected
      sessions := sm.put args.clientId entry }
  | none =>
    { sessionPresent := false, drained := [], incOnline := true
      sessions := sm.put args.clientId entry }

/-- `online_count.fetch_add(1)`, if there is one more. -/
def countOnline (sm : SessionManager) (incOnline : Bool) : SessionManager :=
  { sm with onlineCount := if incOnline then sm.onlineCount + 1 else sm.onlineCount }

/-- The whole call. -/
def registerWith (sm : SessionManager) (now : Instant) (args : RegisterArgs) : Registered :=
  sm.register now args.clientId args.cleanSession args.tx args.will args.protocolLevel args.peerAddr
    args.sessionExpiry

/-- One after the other, the steps are `register`. -/
theorem registerWith_eq (sm : SessionManager) (now : Instant) (args : RegisterArgs) :
    sm.registerWith now args =
      let entered := sm.drawEpoch.2.enter now args sm.drawEpoch.1
      { epoch := sm.drawEpoch.1, sessionPresent := entered.sessionPresent, drained := entered.drained
        sessions := entered.sessions.countOnline entered.incOnline } := by
  have hget : sm.drawEpoch.2.get args.clientId = sm.get args.clientId := rfl
  unfold registerWith register enter
  rw [hget]
  cases sm.get args.clientId <;> rfl

theorem enter_sessions (sm : SessionManager) (now : Instant) (args : RegisterArgs) (epoch : Nat) :
    (sm.enter now args epoch).sessions = sm.put args.clientId
      (sm.newEntry now args.clientId args.cleanSession args.tx args.will args.protocolLevel
        args.peerAddr epoch args.sessionExpiry) := by
  unfold enter
  cases sm.get args.clientId <;> rfl

theorem enter_incOnline (sm : SessionManager) (now : Instant) (args : RegisterArgs) (epoch : Nat) :
    (sm.enter now args epoch).incOnline = !(sm.get args.clientId).any SessionEntry.connected := by
  unfold enter
  cases sm.get args.clientId <;> rfl

end SessionManager

end LumenMQ
