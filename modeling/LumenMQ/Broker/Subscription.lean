import Mathlib.Algebra.GroupWithZero.Nat
import LumenMQ.Lib.AssocList
import LumenMQ.Lib.FinMap
import LumenMQ.Codec.Packet

set_option autoImplicit false

/-! # The subscription tree

A trie over topic levels with separate children for literal levels, `+` and `#`, an index from
clients to their filters, and a table of shared groups. Every method of the source takes its locks
one after the other; here each one is a function on the three tables, run to completion. -/

namespace LumenMQ

/-! ## Levels -/

/-- `s.split('/')`. -/
def split (s : String) : List String := (s.toList.splitOn '/').map String.ofList

/-- The string with these levels. -/
def join (levels : List String) : String :=
  String.ofList (['/'].intercalate (levels.map String.toList))

/-- The prefix of a shared subscription. -/
def sharePrefix : String := "$share"

/-- `$share/{group}/{filter}` as `(group, filter)`; `none` for every other filter. The source splits
    off the first two levels (`splitn(3, '/')`). -/
def parseSharedFilter (filter : String) : Option (String × String) :=
  match split filter with
  | first :: group :: level :: rest =>
    if first = sharePrefix ∧ group ≠ "" then some (group, join (level :: rest)) else none
  | _ => none

/-- The loop of `validateFilter` over the levels; a `#` is in the last one when none follows. -/
def validateLevels (filter : String) : List String → BrokerResult Unit
  | [] => .ok ()
  | seg :: rest =>
    if '#' ∈ seg.toList ∧ seg ≠ "#" then
      .error (.invalidTopic s!"invalid '#' in filter '{filter}'")
    else if seg = "#" ∧ rest ≠ [] then
      .error (.invalidTopic s!"'#' must be last level in '{filter}'")
    else if '+' ∈ seg.toList ∧ seg ≠ "+" then
      .error (.invalidTopic s!"invalid '+' in filter '{filter}'")
    else
      validateLevels filter rest

def validateFilter (filter : String) : BrokerResult Unit :=
  if filter = "" then .error (.invalidTopic "empty topic filter")
  else validateLevels filter (split filter)

/-- The loop of `topicMatchesFilter` over the levels not yet compared, and the test behind it. -/
def topicMatchesLevels : List String → List String → Bool
  | t :: ts, f :: fs =>
    if f = "#" then true
    else if f = "+" ∨ f = t then topicMatchesLevels ts fs
    else false
  | [], fs => fs = [] ∨ fs = ["#"]
  | _ :: _, [] => false

/-- Whether a topic matches a filter. -/
def topicMatchesFilter (topic filter : String) : Bool :=
  if topic = "" ∨ filter = "" then false
  else topicMatchesLevels (split topic) (split filter)

/-! ## Nodes -/

/-- A node of the trie. The literal children are the entries of a hash map, so no key occurs
    twice. -/
inductive Node where
  | mk (children : List (String × Node)) (plusChild hashChild : Option Node)
      (subscribers : FinMap String QoS)

namespace Node

def children : Node → List (String × Node)
  | mk children _ _ _ => children

def plusChild : Node → Option Node
  | mk _ plusChild _ _ => plusChild

def hashChild : Node → Option Node
  | mk _ _ hashChild _ => hashChild

def subscribers : Node → FinMap String QoS
  | mk _ _ _ subscribers => subscribers

/-- `Node::default()`. -/
def empty : Node := mk [] none none ∅

def isEmpty (n : Node) : Bool :=
  n.subscribers.entries.isEmpty && n.children.isEmpty && n.plusChild.isNone && n.hashChild.isNone

/-- The child a filter level leads to. -/
def childForSegment (n : Node) (seg : String) : Option Node :=
  if seg = "+" then n.plusChild
  else if seg = "#" then n.hashChild
  else n.children.lookup seg

/-- Replace the child a filter level leads to, or remove it. -/
def setChild (n : Node) (seg : String) (child : Option Node) : Node :=
  if seg = "+" then mk n.children child n.hashChild n.subscribers
  else if seg = "#" then mk n.children n.plusChild child n.subscribers
  else
    let children := match child with
      | some c => setEntry seg c n.children
      | none => removeEntry seg n.children
    mk children n.plusChild n.hashChild n.subscribers

def setSubscribers (n : Node) (subscribers : FinMap String QoS) : Node :=
  mk n.children n.plusChild n.hashChild subscribers

/-- Walk down the filter levels, creating missing nodes, and enter the client at the end. -/
def insertAt (clientId : String) (qos : QoS) : List String → Node → Node
  | [], n => n.setSubscribers (n.subscribers.insert clientId qos)
  | seg :: segs, n =>
    n.setChild seg (some (insertAt clientId qos segs ((n.childForSegment seg).getD empty)))

/-- Remove the client at the end of the filter levels and prune what became empty. Returns whether a
    subscriber was removed, not whether a node was pruned. -/
def removeRecursive (clientId : String) : List String → Node → Bool × Node
  | [], n =>
    ((n.subscribers.get clientId).isSome, n.setSubscribers (n.subscribers.erase clientId))
  | seg :: segs, n =>
    match n.childForSegment seg with
    | none => (false, n)
    | some child =>
      let (removed, child) := removeRecursive clientId segs child
      if removed && child.isEmpty then (removed, n.setChild seg none)
      else (removed, n.setChild seg (some child))

/-- The subscribers of the `#` child: they match whatever is left of the topic. -/
def hashSubscribers (n : Node) : List (String × QoS) :=
  match n.hashChild with
  | some hash => hash.subscribers.toPairs
  | none => []

/-- The subscribers whose filters match the topic levels, with repetitions. -/
def collectMatches : List String → Node → List (String × QoS)
  | [], n => n.hashSubscribers ++ n.subscribers.toPairs
  | seg :: segs, n =>
    n.hashSubscribers ++
      ((match n.children.lookup seg with
        | some child => collectMatches segs child
        | none => []) ++
      (match n.plusChild with
        | some plus => collectMatches segs plus
        | none => []))

mutual

/-- Remove the client everywhere below a node. -/
def removeAll (clientId : String) : Node → Node
  | mk children plusChild hashChild subscribers =>
    mk (removeAllChildren clientId children) (removeAllChild clientId plusChild)
      (removeAllChild clientId hashChild) (subscribers.erase clientId)

def removeAllChildren (clientId : String) : List (String × Node) → List (String × Node)
  | [] => []
  | (seg, child) :: rest => (seg, removeAll clientId child) :: removeAllChildren clientId rest

def removeAllChild (clientId : String) : Option Node → Option Node
  | none => none
  | some child => some (removeAll clientId child)

end

mutual

def countSubscribers : Node → Nat
  | mk children plusChild hashChild subscribers =>
    subscribers.entries.length + countChildren children + countChild plusChild
      + countChild hashChild

def countChildren : List (String × Node) → Nat
  | [] => 0
  | (_, child) :: rest => countSubscribers child + countChildren rest

def countChild : Option Node → Nat
  | none => 0
  | some child => countSubscribers child

end

end Node

/-! ## The tree -/

/-- A shared group: its members and the round-robin counter. -/
structure SharedEntry where
  members : FinMap String QoS := ∅
  rrCounter : UInt64 := 0

/-- The member of a group that is next in turn: members sorted by name, taken by the counter. -/
def SharedEntry.pick (entry : SharedEntry) : Option (String × QoS) :=
  let members := entry.members.toPairs.mergeSort (fun a b => decide (a.1 ≤ b.1))
  members[entry.rrCounter.toNat % members.length]?

structure SubscriptionTree where
  root : Node := Node.empty
  /-- All filters of a client, shared ones under their full text. -/
  reverse : FinMap String (List (String × QoS)) := ∅
  /-- Keyed by the group and the filter without the `$share/{group}/` prefix. -/
  shared : FinMap (String × String) SharedEntry := ∅

/-- Enter a filter into a client's list, or update its QoS. -/
def upsertFilter (filter : String) (qos : QoS) : List (String × QoS) → List (String × QoS)
  | [] => [(filter, qos)]
  | (f, q) :: rest =>
    if f = filter then (f, qos) :: rest else (f, q) :: upsertFilter filter qos rest

namespace SubscriptionTree

/-- Enter a filter into the reverse index. -/
def indexFilter (t : SubscriptionTree) (clientId filter : String) (qos : QoS) : SubscriptionTree :=
  let list := (t.reverse.get clientId).getD []
  { t with reverse := t.reverse.insert clientId (upsertFilter filter qos list) }

/-- Take a filter out of the reverse index, and the client with its last filter. -/
def unindexFilter (t : SubscriptionTree) (clientId filter : String) : SubscriptionTree :=
  match t.reverse.get clientId with
  | some list =>
    let list := list.filter (fun e => e.1 ≠ filter)
    if list = [] then { t with reverse := t.reverse.erase clientId }
    else { t with reverse := t.reverse.insert clientId list }
  | none => t

def subscribe (t : SubscriptionTree) (clientId filter : String) (qos : QoS) :
    BrokerResult Unit × SubscriptionTree :=
  match parseSharedFilter filter with
  | some (group, realFilter) =>
    match validateFilter realFilter with
    | .error e => (.error e, t)
    | .ok () =>
      let entry := (t.shared.get (group, realFilter)).getD {}
      let entry := { entry with members := entry.members.insert clientId qos }
      let t := { t with shared := t.shared.insert (group, realFilter) entry }
      (.ok (), t.indexFilter clientId filter qos)
  | none =>
    match validateFilter filter with
    | .error e => (.error e, t)
    | .ok () =>
      let t := { t with root := t.root.insertAt clientId qos (split filter) }
      (.ok (), t.indexFilter clientId filter qos)

/-- Take a member out of a shared group, and the group with its last member. -/
def removeMember (shared : FinMap (String × String) SharedEntry) (key : String × String)
    (clientId : String) : FinMap (String × String) SharedEntry :=
  match shared.get key with
  | some entry =>
    let entry := { entry with members := entry.members.erase clientId }
    if entry.members.entries = [] then shared.erase key else shared.insert key entry
  | none => shared

/-- The QoS of a member of a shared group. -/
def memberQos (shared : FinMap (String × String) SharedEntry) (key : String × String)
    (clientId : String) : Option QoS :=
  (shared.get key).bind (fun entry => entry.members.get clientId)

def unsubscribe (t : SubscriptionTree) (clientId filter : String) :
    BrokerResult Bool × SubscriptionTree :=
  match parseSharedFilter filter with
  | some key =>
    -- a group is cleaned up only when a member was removed from it
    if (memberQos t.shared key clientId).isSome then
      let t := { t with shared := removeMember t.shared key clientId }
      (.ok true, t.unindexFilter clientId filter)
    else
      (.ok false, t)
  | none =>
    let (removed, root) := t.root.removeRecursive clientId (split filter)
    let t := { t with root }
    (.ok removed, if removed then t.unindexFilter clientId filter else t)

/-- The keys of the shared groups a client is a member of. -/
def sharedKeysOf (t : SubscriptionTree) (clientId : String) : List (String × String) :=
  t.shared.keys.filter (fun key => (memberQos t.shared key clientId).isSome)

/-- Remove every subscription of a client, shared ones included. -/
def unsubscribeAll (t : SubscriptionTree) (clientId : String) : SubscriptionTree :=
  { root := t.root.removeAll clientId
    shared := (t.sharedKeysOf clientId).foldl (fun shared key => removeMember shared key clientId)
      t.shared
    reverse := t.reverse.erase clientId }

/-- The clients with a plain subscription that matches the topic, each once and with the greatest
    QoS of its matching filters. -/
def matchesPlain (t : SubscriptionTree) (topic : String) : List (String × QoS) :=
  if topic = "" then []
  else (FinMap.foldMax (t.root.collectMatches (split topic))).toPairs

/-- Pick one member of every shared group whose filter matches the topic, advancing its counter. -/
def matchesShared (t : SubscriptionTree) (topic : String) :
    List (String × QoS) × SubscriptionTree :=
  if topic = "" then ([], t)
  else
    let hit (e : (String × String) × SharedEntry) : Bool :=
      topicMatchesFilter topic e.1.2 && !e.2.members.entries.isEmpty
    let picked := (t.shared.toPairs.filter hit).filterMap (fun e => SharedEntry.pick e.2)
    let advance (shared : FinMap (String × String) SharedEntry)
        (e : (String × String) × SharedEntry) : FinMap (String × String) SharedEntry :=
      shared.insert e.1 { e.2 with rrCounter := e.2.rrCounter + 1 }
    (picked, { t with shared := (t.shared.toPairs.filter hit).foldl advance t.shared })

/-- The number of plain subscriptions and of members of shared groups. -/
def subscriptionCounts (t : SubscriptionTree) : Nat × Nat :=
  (t.root.countSubscribers, (t.shared.toPairs.map (fun e => e.2.members.entries.length)).sum)

/-- All filters of a client, for a persistent snapshot. -/
def subscriptionsOf (t : SubscriptionTree) (clientId : String) : List (String × QoS) :=
  (t.reverse.get clientId).getD []

end SubscriptionTree

end LumenMQ
