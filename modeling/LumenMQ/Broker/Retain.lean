import LumenMQ.Storage

set_option autoImplicit false

/-! # Retained messages

One message for each topic, kept for subscribers that come later. With storage attached every change
is written through. -/

namespace LumenMQ

structure RetainStore where
  map : FinMap String RetainedMessage := ∅
  /-- 0 is no limit. -/
  maxPayloadBytes : Nat := 0

namespace RetainStore

/-- Take over what is on disk; of two records with one topic the later wins. -/
def loadFromStorage (r : RetainStore) (storage : Storage) : RetainStore :=
  { r with map := storage.loadAllRetained.foldl (fun map m => map.insert m.topic m) r.map }

/-- Store a message, or remove the one of this topic when the payload is empty. Topics with
    wildcards and payloads over the limit are ignored. -/
def set (r : RetainStore) (storage : Option Storage) (topic : String) (payload : Bytes)
    (qos : QoS) : RetainStore × Option Storage :=
  if topic = "" ∨ '+' ∈ topic.toList ∨ '#' ∈ topic.toList then (r, storage)
  else if 0 < r.maxPayloadBytes ∧ r.maxPayloadBytes < payload.length then (r, storage)
  else if payload = [] then
    ({ r with map := r.map.erase topic }, storage.map (fun s => s.deleteRetained topic))
  else
    let msg : RetainedMessage := { topic, payload, qos }
    ({ r with map := r.map.insert topic msg }, storage.map (fun s => s.saveRetained topic msg))

/-- The retained messages whose topic matches a filter. -/
def matchesFilter (r : RetainStore) (filter : String) : List RetainedMessage :=
  (r.map.toPairs.map Prod.snd).filter (fun m => topicMatchesFilter m.topic filter)

/-- The message as it goes out to a new subscriber. -/
def buildOutbound (msg : RetainedMessage) (subQos : QoS) : OutboundPublish :=
  { topic := msg.topic, payload := msg.payload, qos := min msg.qos subQos, retain := true }

end RetainStore

end LumenMQ
