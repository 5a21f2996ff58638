import LumenMQ.Lib.RoundRobin
import LumenMQ.Net.MqttSnMoves

set_option autoImplicit false

/-! # The topic identifiers of a device

The record of a device maps topics to identifiers and identifiers to topics. This file runs a record
through whatever packets and messages may do to it: the two maps stay inverse to each other, and the
cursor that looks for a free identifier finds one as long as there is one. -/

namespace LumenMQ

open Option List FinMap Gateway

namespace SnClient

variable {v id : UInt16} {topic : String}

/-! ## Looking for a free identifier -/

/-- Where the cursor goes from an identifier. -/
def nextTurn (v : UInt16) : UInt16 := if topicIdMax ≤ v then topicIdMin else v + 1

/-- The identifiers that are given out. -/
def Usable (v : UInt16) : Prop := topicIdMin ≤ v ∧ v ≤ topicIdMax

theorem usable_iff : Usable v ↔ 1 ≤ v.toNat ∧ v.toNat ≤ 0xFFFE := by
  rw [Usable, UInt16.le_iff_toNat_le, UInt16.le_iff_toNat_le]
  rfl

theorem toNat_nextTurn (hv : Usable v) : (nextTurn v).toNat = RoundRobin.next 1 0xFFFE v.toNat := by
  rw [usable_iff] at hv
  have hle : topicIdMax ≤ v ↔ 0xFFFE ≤ v.toNat := UInt16.le_iff_toNat_le
  unfold nextTurn RoundRobin.next
  by_cases hlast : 0xFFFE ≤ v.toNat
  · rw [if_pos (hle.mpr hlast), if_pos hlast]
    rfl
  · have hsmall : v.toNat + 1 < 2 ^ 16 := by omega
    rw [if_neg (fun h => hlast (hle.mp h)), if_neg hlast, UInt16.toNat_add]
    exact Nat.mod_eq_of_lt hsmall

theorem usable_nextTurn (hv : Usable v) : Usable (nextTurn v) := by
  rw [usable_iff, toNat_nextTurn hv]
  rw [usable_iff] at hv
  exact RoundRobin.next_mem hv.1 hv.2

theorem usable_iterate (hv : Usable v) (i : Nat) :
    Usable (nextTurn^[i] v) ∧ (nextTurn^[i] v).toNat = (RoundRobin.next 1 0xFFFE)^[i] v.toNat := by
  induction i with
  | zero => exact ⟨hv, rfl⟩
  | succ i ih =>
    rw [Function.iterate_succ_apply', Function.iterate_succ_apply', ← ih.2]
    exact ⟨usable_nextTurn ih.1, toNat_nextTurn ih.1⟩

/-- The cursor comes to every identifier in the rounds of `assignTopicId`. -/
theorem exists_turn (hv : Usable v) (hid : Usable id) : ∃ i < 0xFFFF, nextTurn^[i] v = id := by
  have hv' := usable_iff.mp hv
  have hid' := usable_iff.mp hid
  obtain ⟨i, hi, hturn⟩ := RoundRobin.exists_iterate_next hv'.1 hv'.2 hid'.1 hid'.2
  refine ⟨i, by omega, UInt16.toNat_inj.mp ?_⟩
  rw [(usable_iterate hv i).2, hturn]

/-- The record with a topic entered under an identifier. -/
def enter (c : SnClient) (topic : String) (id cursor : UInt16) : SnClient :=
  { c with
    topicToId := c.topicToId.insert topic id
    idToTopic := c.idToTopic.insert id topic
    nextTopicId := cursor }

/-- The loop finds the first free identifier in its rounds, or there is none in them. -/
theorem assignTopicIdLoop_cases (topic : String) (n : Nat) {c : SnClient}
    (hcursor : Usable c.nextTopicId) :
    (∃ id cursor, Usable id ∧ Usable cursor ∧ c.idToTopic.get id = none ∧
        assignTopicIdLoop topic n c = (id, c.enter topic id cursor)) ∨
      (∃ cursor, Usable cursor ∧
        (∀ i < n, (c.idToTopic.get (nextTurn^[i] c.nextTopicId)).isSome) ∧
        assignTopicIdLoop topic n c = (topicIdMin, { c with nextTopicId := cursor })) := by
  induction n generalizing c with
  | zero => exact .inr ⟨c.nextTopicId, hcursor, fun i hi => absurd hi (Nat.not_lt_zero i), rfl⟩
  | succ n ih =>
    have hnext : Usable (nextTurn c.nextTopicId) := usable_nextTurn hcursor
    have hzero : c.nextTopicId ≠ 0 := by
      intro h
      rw [usable_iff, h] at hcursor
      exact absurd hcursor.1 (by decide)
    by_cases htaken : (c.idToTopic.get c.nextTopicId).isSome = true
    · have hstep : assignTopicIdLoop topic (n + 1) c =
          assignTopicIdLoop topic n { c with nextTopicId := nextTurn c.nextTopicId } := by
        rw [assignTopicIdLoop]
        exact if_pos (.inr htaken)
      rw [hstep]
      rcases ih (c := { c with nextTopicId := nextTurn c.nextTopicId }) hnext with
        ⟨id, cursor, hid, hcur, hfree, heq⟩ | ⟨cursor, hcur, hall, heq⟩
      · exact .inl ⟨id, cursor, hid, hcur, hfree, heq⟩
      · refine .inr ⟨cursor, hcur, fun i hi => ?_, heq⟩
        cases i with
        | zero => exact htaken
        | succ i => exact hall i (Nat.lt_of_succ_lt_succ hi)
    · refine .inl ⟨c.nextTopicId, nextTurn c.nextTopicId, hcursor, hnext, ?_, ?_⟩
      · rwa [Bool.not_eq_true, isSome_eq_false_iff, isNone_iff_eq_none] at htaken
      · rw [assignTopicIdLoop]
        exact if_neg (not_or.mpr ⟨hzero, htaken⟩)

/-! ## The two maps -/

/-- The maps of a record are inverse to each other, within the identifiers that are given out. -/
structure TopicBook (c : SnClient) : Prop where
  inverse : ∀ topic id, c.topicToId.get topic = some id ↔ c.idToTopic.get id = some topic
  usable : ∀ id topic, c.idToTopic.get id = some topic → Usable id
  cursor : Usable c.nextTopicId

variable {c : SnClient}

/-- A topic has its identifier, or gets one that was free, or all are taken. -/
theorem assignTopicId_cases (hc : c.TopicBook) (topic : String) :
    (∃ id, c.topicToId.get topic = some id ∧ c.assignTopicId topic = (id, c)) ∨
      (c.topicToId.get topic = none ∧ ∃ id cursor, Usable id ∧ Usable cursor ∧
        c.idToTopic.get id = none ∧ c.assignTopicId topic = (id, c.enter topic id cursor)) ∨
      (c.topicToId.get topic = none ∧ (∀ id, Usable id → (c.idToTopic.get id).isSome) ∧
        ∃ cursor, Usable cursor ∧
          c.assignTopicId topic = (topicIdMin, { c with nextTopicId := cursor })) := by
  cases hget : c.topicToId.get topic with
  | some id =>
    refine .inl ⟨id, rfl, ?_⟩
    rw [assignTopicId, hget]
  | none =>
    have hassign : c.assignTopicId topic = assignTopicIdLoop topic 0xFFFF c := by
      rw [assignTopicId, hget]
    rw [hassign]
    rcases assignTopicIdLoop_cases topic 0xFFFF hc.cursor with hfound | ⟨cursor, hcur, hall, heq⟩
    · exact .inr (.inl ⟨rfl, hfound⟩)
    · refine .inr (.inr ⟨rfl, fun id hid => ?_, cursor, hcur, heq⟩)
      obtain ⟨i, hi, rfl⟩ := exists_turn hc.cursor hid
      exact hall i hi

theorem topicBook_new (clientId : String) (epoch : Nat) (clean : Bool) (keepAliveSecs : UInt16)
    (peer : SocketAddr) (now : Instant) :
    (new clientId epoch clean keepAliveSecs peer now).TopicBook where
  inverse topic id := by simp [new]
  usable id topic h := by simp [new] at h
  cursor := show Usable topicIdMin from ⟨by decide, by decide⟩

/-- The maps and the cursor are all that matters. -/
theorem TopicBook.congr {c' : SnClient} (hc : c.TopicBook) (htop : c'.topicToId = c.topicToId)
    (hids : c'.idToTopic = c.idToTopic) (hcur : Usable c'.nextTopicId) : c'.TopicBook where
  inverse := by
    rw [htop, hids]
    exact hc.inverse
  usable := by
    rw [hids]
    exact hc.usable
  cursor := hcur

theorem TopicBook.touch (hc : c.TopicBook) (now : Instant) : (c.touch now).TopicBook :=
  hc.congr rfl rfl hc.cursor

/-- A topic without an identifier is entered under one that is free. -/
theorem TopicBook.enter (hc : c.TopicBook) {cursor : UInt16} (htop : c.topicToId.get topic = none)
    (hfree : c.idToTopic.get id = none) (hid : Usable id) (hcur : Usable cursor) :
    (c.enter topic id cursor).TopicBook where
  inverse topic' id' := by
    show get (c.topicToId.insert topic id) topic' = some id' ↔
      get (c.idToTopic.insert id topic) id' = some topic'
    rw [get_insert, get_insert]
    by_cases htop' : topic' = topic
    · subst htop'
      rw [if_pos rfl]
      by_cases hid' : id' = id
      · rw [hid', if_pos rfl]
        simp
      · rw [if_neg hid', ← hc.inverse, htop]
        simp [Ne.symm hid']
    · rw [if_neg htop', hc.inverse]
      by_cases hid' : id' = id
      · rw [hid', hfree, if_pos rfl]
        simp [Ne.symm htop']
      · rw [if_neg hid']
  usable id' topic' h := by
    change get (c.idToTopic.insert id topic) id' = some topic' at h
    rw [get_insert] at h
    split_ifs at h with hid'
    · exact hid' ▸ hid
    · exact hc.usable id' topic' h
  cursor := hcur

theorem TopicBook.assign (hc : c.TopicBook) (topic : String) :
    (c.assignTopicId topic).2.TopicBook := by
  rcases assignTopicId_cases hc topic with
    ⟨id, -, heq⟩ | ⟨htop, id, cursor, hid, hcur, hfree, heq⟩ | ⟨-, -, cursor, hcur, heq⟩
  · rw [heq]
    exact hc
  · rw [heq]
    exact hc.enter htop hfree hid hcur
  · rw [heq]
    exact hc.congr rfl rfl hcur

theorem TopicBook.drop (hc : c.TopicBook) (topic : String) : (c.dropTopic topic).TopicBook := by
  unfold dropTopic
  cases hget : c.topicToId.get topic with
  | none => exact hc
  | some id =>
    have hid := (hc.inverse topic id).mp hget
    constructor
    case cursor => exact hc.cursor
    case usable =>
      intro id' topic' h
      exact hc.usable id' topic' (get_of_erase h)
    case inverse =>
      intro topic' id'
      simp only [get_erase]
      split_ifs with htop' hid' hid'
      · simp
      · -- another identifier does not stand for the topic that goes
        rw [htop']
        refine ⟨fun h => absurd h (by simp), fun h => absurd ?_ hid'⟩
        exact some.inj ((hc.inverse topic id').mpr h ▸ hget : some id' = some id)
      · rw [hid']
        refine ⟨fun h => absurd ?_ htop', fun h => absurd h (by simp)⟩
        exact some.inj ((hc.inverse topic' id).mp h ▸ hid : some topic' = some topic)
      · exact hc.inverse topic' id'

/-- The packet of a message enters its topic. -/
theorem forwardPacket_maps (c : SnClient) (msg : OutboundPublish) :
    (Gateway.forwardPacket c msg).2.topicToId = (c.assignTopicId msg.topic).2.topicToId ∧
      (Gateway.forwardPacket c msg).2.idToTopic = (c.assignTopicId msg.topic).2.idToTopic ∧
      (Gateway.forwardPacket c msg).2.nextTopicId = (c.assignTopicId msg.topic).2.nextTopicId := by
  unfold forwardPacket
  dsimp only
  split_ifs <;> exact ⟨rfl, rfl, rfl⟩

theorem TopicBook.exec (hc : c.TopicBook) (op : SnOp) : (c.exec op).TopicBook := by
  cases op with
  | register now topicName => exact (hc.touch now).assign topicName
  | subscribe now flags topicName =>
    show (subscribeTopicId (c.touch now) flags topicName).2.TopicBook
    unfold subscribeTopicId
    split_ifs
    · exact hc.touch now
    · exact (hc.touch now).assign topicName
  | unsubscribe now topicName => exact (hc.touch now).drop topicName
  | deliver msg =>
    obtain ⟨htop, hids, hcur⟩ := forwardPacket_maps c msg
    have hassign := hc.assign msg.topic
    exact hassign.congr htop hids (hcur ▸ hassign.cursor)
  | touch now => exact hc.touch now
  | sleep until_ => exact hc.congr rfl rfl hc.cursor

theorem TopicBook.run (hc : c.TopicBook) (ops : List SnOp) : (c.run ops).TopicBook := by
  induction ops generalizing c with
  | nil => exact hc
  | cons op ops ih => exact ih (hc.exec op)

/-! ## Room for a topic -/

/-- The identifiers that are given out, as a list. -/
def usableIds : List UInt16 := (List.range 0xFFFE).map (fun i => UInt16.ofNat (i + 1))

theorem length_usableIds : usableIds.length = 0xFFFE := by
  rw [usableIds, length_map, length_range]

theorem usableIds_nodup : usableIds.Nodup := by
  refine List.Nodup.map_on ?_ nodup_range
  intro i hi j hj h
  rw [mem_range] at hi hj
  have hnat := congrArg UInt16.toNat h
  rw [UInt16.toNat_ofNat', UInt16.toNat_ofNat', Nat.mod_eq_of_lt (by omega),
    Nat.mod_eq_of_lt (by omega)] at hnat
  omega

theorem usable_of_mem (h : id ∈ usableIds) : Usable id := by
  obtain ⟨i, hi, rfl⟩ := List.mem_map.mp h
  rw [mem_range] at hi
  rw [usable_iff, UInt16.toNat_ofNat', Nat.mod_eq_of_lt (by omega)]
  omega

/-- When all identifiers are taken there are 65534 of them. -/
theorem le_length_of_full (hfull : ∀ id, Usable id → (c.idToTopic.get id).isSome) :
    65534 ≤ c.idToTopic.entries.length := by
  have hsub : usableIds ⊆ c.idToTopic.keys :=
    fun id hid => mem_keys.mpr (hfull id (usable_of_mem hid))
  have hle := (subperm_of_subset usableIds_nodup hsub).length_le
  rw [length_usableIds] at hle
  rwa [AList.keys, keys, length_map] at hle

/-- A binding stays when a topic is entered. -/
theorem TopicBook.binding_assign (hc : c.TopicBook) (topic : String) {topic' : String}
    (h : c.topicToId.get topic' = some id) :
    (c.assignTopicId topic).2.topicToId.get topic' = some id ∧
      (c.assignTopicId topic).2.idToTopic.get id = some topic' := by
  rw [← (hc.assign topic).inverse, and_self]
  rcases assignTopicId_cases hc topic with
    ⟨_, -, heq⟩ | ⟨htop, id', cursor, -, -, -, heq⟩ | ⟨-, -, cursor, -, heq⟩
  · rw [heq]
    exact h
  · rw [heq]
    have hne : topic' ≠ topic := fun heq => by
      rw [heq, htop] at h
      cases h
    exact (get_insert_ne c.topicToId id' hne).trans h
  · rw [heq]
    exact h

/-- A topic without an identifier gets a free one, if there is room. -/
theorem TopicBook.assign_fresh (hc : c.TopicBook) (htop : c.topicToId.get topic = none)
    (hroom : c.idToTopic.entries.length < 65534) :
    c.idToTopic.get (c.assignTopicId topic).1 = none ∧
      (c.assignTopicId topic).2.topicToId.get topic = some (c.assignTopicId topic).1 := by
  rcases assignTopicId_cases hc topic with
    ⟨id, hget, -⟩ | ⟨-, id, cursor, -, -, hfree, heq⟩ | ⟨-, hfull, -⟩
  · rw [htop] at hget
    cases hget
  · rw [heq]
    exact ⟨hfree, get_insert_self c.topicToId topic id⟩
  · exact absurd (le_length_of_full hfull) (Nat.not_le.mpr hroom)

/-- **The two topic maps of a device are inverse to each other**, after any run of its record:
    within the identifiers that are given out, with every binding kept when another topic is
    entered, and with a new binding for a new topic as long as there is room. -/
theorem topic_maps_inverse (clientId : String) (epoch : Nat) (clean : Bool)
    (keepAliveSecs : UInt16) (peer : SocketAddr) (now : Instant) (ops : List SnOp) :
    let c := (new clientId epoch clean keepAliveSecs peer now).run ops
    (∀ topic id, c.topicToId.get topic = some id ↔ c.idToTopic.get id = some topic) ∧
      (∀ topic id, c.topicToId.get topic = some id → 0x0001 ≤ id ∧ id ≤ 0xFFFE) ∧
      (∀ topic topic' id, c.topicToId.get topic' = some id →
        (c.assignTopicId topic).2.topicToId.get topic' = some id ∧
          (c.assignTopicId topic).2.idToTopic.get id = some topic') ∧
      (∀ topic, c.topicToId.get topic = none → c.idToTopic.entries.length < 65534 →
        c.idToTopic.get (c.assignTopicId topic).1 = none ∧
          (c.assignTopicId topic).2.topicToId.get topic = some (c.assignTopicId topic).1) := by
  intro c
  have hc : c.TopicBook := (topicBook_new clientId epoch clean keepAliveSecs peer now).run ops
  refine ⟨hc.inverse, ?_, ?_, ?_⟩
  · intro topic id h
    exact hc.usable id topic ((hc.inverse topic id).mp h)
  · intro topic topic' id h
    exact hc.binding_assign topic h
  · intro topic htopic hroom
    exact hc.assign_fresh htopic hroom

/-! ## What an identifier means -/

/-- The topic of an operation and the identifier that the device is told for it: in a REGACK, in a
    SUBACK or in a PUBLISH. -/
def answer (c : SnClient) : SnOp → Option (String × UInt16)
  | .register now topicName => some (topicName, ((c.touch now).assignTopicId topicName).1)
  | .subscribe now flags topicName =>
    some (topicName, (Gateway.subscribeTopicId (c.touch now) flags topicName).1)
  | .deliver msg => some (msg.topic, (c.assignTopicId msg.topic).1)
  | .unsubscribe .. | .touch _ | .sleep _ => none

/-- A topic has an identifier, or there is one for it. -/
def HasRoom (c : SnClient) (topic : String) : Prop :=
  (c.topicToId.get topic).isSome ∨ c.idToTopic.entries.length < 65534

/-- The name and the type of a topic that is its own identifier. -/
def IsShort (flags : UInt8) (topicName : String) : Prop :=
  flags &&& flagTopicIdTypeMask = topicIdTypeShort ∧ (stringBytes topicName).length = 2

instance (flags : UInt8) (topicName : String) : Decidable (IsShort flags topicName) :=
  inferInstanceAs (Decidable (_ ∧ _))

/-- The identifier an operation answers with is in the maps. A short name is not entered: its
    identifier is there only if it happens to have been given out for that very name. -/
def Backs (c : SnClient) : SnOp → Prop
  | .register _ topicName => c.HasRoom topicName
  | .subscribe _ flags topicName =>
    if IsShort flags topicName then
      c.idToTopic.get (u16FromBeBytes (stringBytes topicName)) = some topicName
    else c.HasRoom topicName
  | .deliver msg => c.HasRoom msg.topic
  | .unsubscribe .. | .touch _ | .sleep _ => True

/-- As long as an identifier is free there are less than 65534 bindings. -/
theorem TopicBook.length_lt_of_free (hc : c.TopicBook) (hid : Usable id)
    (hfree : c.idToTopic.get id = none) : c.idToTopic.entries.length < 65534 := by
  have hmem : ∀ id, Usable id → id ∈ usableIds := by
    intro id hid
    rw [usable_iff] at hid
    refine List.mem_map.mpr ⟨id.toNat - 1, List.mem_range.mpr (by omega), ?_⟩
    rw [Nat.sub_add_cancel hid.1, UInt16.ofNat_toNat]
  have hnot : id ∉ c.idToTopic.keys := by
    rw [FinMap.mem_keys, hfree]
    simp
  have hsub : id :: c.idToTopic.keys ⊆ usableIds := by
    refine cons_subset.mpr ⟨hmem id hid, fun id' hid' => ?_⟩
    obtain ⟨topic, htop⟩ := isSome_iff_exists.mp (mem_keys.mp hid')
    exact hmem id' (hc.usable id' topic htop)
  have hle := (subperm_of_subset
    (nodup_cons.mpr ⟨hnot, c.idToTopic.keys_nodup⟩) hsub).length_le
  rw [length_usableIds, length_cons, AList.keys, keys, length_map] at hle
  omega

/-- The answer of `assignTopicId` is in the map if and only if there is room for the topic. -/
theorem TopicBook.assign_iff_hasRoom (hc : c.TopicBook) (topic : String) :
    (c.assignTopicId topic).2.topicToId.get topic = some (c.assignTopicId topic).1 ↔
      c.HasRoom topic := by
  rcases assignTopicId_cases hc topic with
    ⟨id, hget, heq⟩ | ⟨-, id, cursor, hid, -, hfree, heq⟩ | ⟨htop, hfull, cursor, -, heq⟩
  · rw [heq]
    exact iff_of_true hget (.inl (by rw [hget]; rfl))
  · rw [heq]
    exact iff_of_true (get_insert_self c.topicToId topic id)
      (.inr (hc.length_lt_of_free hid hfree))
  · rw [heq]
    refine iff_of_false (fun h => ?_) ?_
    · have h' : c.topicToId.get topic = some topicIdMin := h
      rw [htop] at h'
      cases h'
    · rw [HasRoom, htop]
      have hle := le_length_of_full hfull
      simp only [isSome_none, Bool.false_eq_true, false_or]
      omega

/-- The answer of an operation is in the map if and only if it is backed. -/
theorem TopicBook.exec_iff_backs (hc : c.TopicBook) {op : SnOp} (h : c.answer op = some (topic, id)) :
    (c.exec op).topicToId.get topic = some id ↔ c.Backs op := by
  cases op with
  | register now topicName =>
    cases h
    exact (hc.touch now).assign_iff_hasRoom topic
  | deliver msg =>
    cases h
    show (forwardPacket c msg).2.topicToId.get msg.topic = _ ↔ _
    rw [(forwardPacket_maps c msg).1]
    exact hc.assign_iff_hasRoom msg.topic
  | subscribe now flags topicName =>
    cases h
    show (subscribeTopicId (c.touch now) flags topic).2.topicToId.get topic =
      some (subscribeTopicId (c.touch now) flags topic).1 ↔ _
    rw [Backs]
    by_cases hshort : IsShort flags topic
    · have heq : subscribeTopicId (c.touch now) flags topic =
          (u16FromBeBytes (stringBytes topic), c.touch now) := if_pos hshort
      rw [if_pos hshort, heq]
      exact hc.inverse topic _
    · have heq : subscribeTopicId (c.touch now) flags topic =
          (c.touch now).assignTopicId topic := if_neg hshort
      rw [if_neg hshort, heq]
      exact (hc.touch now).assign_iff_hasRoom topic
  | unsubscribe | touch | sleep => cases h

/-- A binding lasts until its topic is unsubscribed. -/
theorem TopicBook.binding_exec (hc : c.TopicBook) {op : SnOp} (h : c.topicToId.get topic = some id)
    (hop : ∀ now, op ≠ .unsubscribe now topic) : (c.exec op).topicToId.get topic = some id := by
  cases op with
  | register now topicName => exact ((hc.touch now).binding_assign topicName h).1
  | subscribe now flags topicName =>
    show (subscribeTopicId (c.touch now) flags topicName).2.topicToId.get topic = some id
    unfold subscribeTopicId
    split_ifs
    · exact h
    · exact ((hc.touch now).binding_assign topicName h).1
  | unsubscribe now topicName =>
    have hne : topic ≠ topicName := fun heq => hop now (heq ▸ rfl)
    show ((c.touch now).dropTopic topicName).topicToId.get topic = some id
    unfold dropTopic
    split
    · exact (get_erase _ _ _).trans ((if_neg hne).trans h)
    · exact h
  | deliver msg =>
    show (forwardPacket c msg).2.topicToId.get topic = some id
    rw [(forwardPacket_maps c msg).1]
    exact (hc.binding_assign msg.topic h).1
  | touch | sleep => exact h

theorem TopicBook.binding_run (hc : c.TopicBook) {ops : List SnOp}
    (h : c.topicToId.get topic = some id) (hops : ∀ now, .unsubscribe now topic ∉ ops) :
    (c.run ops).topicToId.get topic = some id := by
  induction ops generalizing c with
  | nil => exact h
  | cons op ops ih =>
    refine ih (hc.exec op) (hc.binding_exec h fun now heq => ?_) fun now hmem => ?_
    · exact hops now (heq ▸ mem_cons_self)
    · exact hops now (mem_cons_of_mem op hmem)

/-- A PUBLISH with a normal identifier goes to the topic that is bound to it. -/
theorem publishTopic_normal {flags : UInt8} (hflag : flags &&& flagTopicIdTypeMask = 0)
    (id : UInt16) : Gateway.publishTopic c flags id = c.idToTopic.get id := by
  rw [publishTopic, topicNameOf]
  cases c.idToTopic.get id with
  | some topic => rfl
  | none => exact if_neg fun h => absurd (hflag.symm.trans h.1) (by decide)

/-- A PUBLISH with a short name goes there unless its two bytes are the identifier of another
    topic, or zero. -/
theorem TopicBook.publishTopic_short (hc : c.TopicBook) {flags : UInt8}
    (hflag : flags &&& flagTopicIdTypeMask = topicIdTypeShort) (id : UInt16) :
    Gateway.publishTopic c flags id = some (fromUtf8Lossy (beBytes 2 id.toNat)) ↔
      id ≠ 0 ∧ ∀ topic, c.idToTopic.get id = some topic →
        topic = fromUtf8Lossy (beBytes 2 id.toNat) := by
  rw [publishTopic, topicNameOf]
  cases hget : c.idToTopic.get id with
  | some topic =>
    have hid : id ≠ 0 := by
      rintro rfl
      exact absurd (usable_iff.mp (hc.usable 0 topic hget)).1 (by decide)
    simp [hid]
  | none =>
    by_cases hid : id = 0
    · simp [hid]
    · simp [hid, hflag]

/-- **What a topic identifier means**, after any run of a record. An identifier that the device has
    been told for a topic stands for it until the topic is unsubscribed, if and only if the answer
    was backed by the maps. A short name stands for itself unless its bytes are the identifier of
    another topic, or zero. -/
theorem topic_id_meaning (clientId : String) (epoch : Nat) (clean : Bool)
    (keepAliveSecs : UInt16) (peer : SocketAddr) (now : Instant) (ops : List SnOp) :
    let c := (new clientId epoch clean keepAliveSecs peer now).run ops
    (∀ op topic id, c.answer op = some (topic, id) →
      ((∀ later, (∀ now, .unsubscribe now topic ∉ later) →
          ∀ flags, flags &&& flagTopicIdTypeMask = 0 →
            publishTopic ((c.exec op).run later) flags id = some topic) ↔ c.Backs op)) ∧
      ∀ flags id, flags &&& flagTopicIdTypeMask = topicIdTypeShort →
        (publishTopic c flags id = some (fromUtf8Lossy (beBytes 2 id.toNat)) ↔
          id ≠ 0 ∧ ∀ topic, c.idToTopic.get id = some topic →
            topic = fromUtf8Lossy (beBytes 2 id.toNat)) := by
  intro c
  have hc : c.TopicBook := (topicBook_new clientId epoch clean keepAliveSecs peer now).run ops
  refine ⟨fun op topic id hanswer => ?_, fun flags id hflags => hc.publishTopic_short hflags id⟩
  rw [← hc.exec_iff_backs hanswer]
  constructor
  · intro hmeans
    have hnow := hmeans [] (fun now => not_mem_nil) 0 (by decide)
    rw [publishTopic_normal (by decide)] at hnow
    exact ((hc.exec op).inverse topic id).mpr hnow
  · intro hbound later hlater flags hflags
    rw [publishTopic_normal hflags, ← ((hc.exec op).run later).inverse]
    exact (hc.exec op).binding_run hbound hlater

/-- A device that has just connected. -/
def probe : SnClient := new "c" 1 true 60 ⟨.v4 0, 0⟩ 0

/-- A SUBACK names an identifier that means nothing, and a PUBLISH with a short name goes to the
    topic that a REGISTER has given the same number. -/
theorem short_names_mistaken :
    (probe.answer (.subscribe 0 0x02 "ab") = some ("ab", 0x6162) ∧
      Gateway.publishTopic (probe.exec (.subscribe 0 0x02 "ab")) 0x00 0x6162 = none) ∧
      (probe.answer (.register 0 "t") = some ("t", 1) ∧
        Gateway.publishTopic (probe.exec (.register 0 "t")) 0x02 0x0001 = some "t" ∧
        fromUtf8Lossy (beBytes 2 0x0001) ≠ "t") := by
  decide +kernel

end SnClient

end LumenMQ
