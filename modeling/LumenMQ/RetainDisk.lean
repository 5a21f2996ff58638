import LumenMQ.Archive

set_option autoImplicit false

/-! # Retained messages on disk

With storage attached every change of the retained messages is written to disk. A write may fail,
and leaves the disk as it was. `set` writes to disk first and gives up when that fails. `remove`
takes the message out of memory first, and does not put it back. -/

namespace LumenMQ

open Option FinMap

/-! ## Writes that fail -/

namespace RetainStore

/-- `set` with a storage whose next write goes through or fails. -/
def trySet (r : RetainStore) (storage : Option Storage) (ok : Bool) (topic : String)
    (payload : Bytes) (qos : QoS) : RetainStore × Option Storage :=
  if topic = "" ∨ '+' ∈ topic.toList ∨ '#' ∈ topic.toList then (r, storage)
  else if 0 < r.maxPayloadBytes ∧ r.maxPayloadBytes < payload.length then (r, storage)
  -- what cannot be written is not changed in memory either
  else if storage.isSome ∧ ok = false then (r, storage)
  else if payload = [] then
    ({ r with map := r.map.erase topic }, storage.map (fun s => s.deleteRetained topic))
  else
    let msg : RetainedMessage := { topic, payload, qos }
    ({ r with map := r.map.insert topic msg }, storage.map (fun s => s.saveRetained topic msg))

/-- `remove`: the message goes from memory whether or not the disk follows. -/
def remove (r : RetainStore) (storage : Option Storage) (ok : Bool) (topic : String) :
    RetainStore × Option Storage :=
  ({ r with map := r.map.erase topic },
    if ok then storage.map (fun s => s.deleteRetained topic) else storage)

end RetainStore

/-! ## What is on disk -/

/-- A message that may be retained. -/
structure RetainedMessage.Proper (m : RetainedMessage) : Prop where
  nonempty : m.topic ≠ ""
  exact : '+' ∉ m.topic.toList ∧ '#' ∉ m.topic.toList
  payload : m.payload ≠ []

namespace Storage

/-- The retained message on disk for a topic. -/
def retainedOf (s : Storage) (topic : String) : Option RetainedMessage :=
  (s.retained.get (stringBytes topic)).join

/-- Every record is a message that may be retained, under the key of its topic. -/
def Kept (s : Storage) : Prop :=
  ∀ e ∈ s.retained.entries, ∃ m : RetainedMessage, e = (stringBytes m.topic, some m) ∧ m.Proper

variable {s : Storage}

theorem retainedOf_saveRetained (s : Storage) (m : RetainedMessage) (topic : String) :
    (s.saveRetained m.topic m).retainedOf topic =
      if topic = m.topic then some m else s.retainedOf topic := by
  show ((s.retained.insert (stringBytes m.topic) (some m)).get (stringBytes topic)).join = _
  rw [OrderedMap.get_insert]
  by_cases h : topic = m.topic
  · rw [h, if_pos rfl, if_pos rfl]
    rfl
  · rw [if_neg h, if_neg (fun hb => h (stringBytes_injective hb))]
    rfl

theorem retainedOf_deleteRetained (s : Storage) (topic' topic : String) :
    (s.deleteRetained topic').retainedOf topic =
      if topic = topic' then none else s.retainedOf topic := by
  show ((s.retained.remove (stringBytes topic')).get (stringBytes topic)).join = _
  rw [OrderedMap.get_remove]
  by_cases h : topic = topic'
  · rw [h, if_pos rfl, if_pos rfl]
    rfl
  · rw [if_neg h, if_neg (fun hb => h (stringBytes_injective hb))]
    rfl

theorem Kept.saveRetained (hs : s.Kept) {m : RetainedMessage} (hm : m.Proper) :
    (s.saveRetained m.topic m).Kept := by
  intro e he
  rcases OrderedMap.mem_insert.1 he with rfl | ⟨hold, -⟩
  · exact ⟨m, rfl, hm⟩
  · exact hs e hold

theorem Kept.deleteRetained (hs : s.Kept) (topic : String) : (s.deleteRetained topic).Kept :=
  fun e he => hs e (OrderedMap.mem_remove.1 he).1

/-- The records are those of the messages that are loaded. -/
theorem Kept.entries_eq (hs : s.Kept) : s.retained.entries =
    s.loadAllRetained.map (fun m => (stringBytes m.topic, some m)) := by
  unfold Kept at hs
  unfold loadAllRetained Tree.values
  generalize s.retained.entries = entries at hs ⊢
  induction entries with
  | nil => rfl
  | cons e rest ih =>
    obtain ⟨m, rfl, -⟩ := hs e List.mem_cons_self
    exact congrArg (_ :: ·) (ih (fun e' he' => hs e' (List.mem_cons_of_mem _ he')))

theorem Kept.nodup_topics (hs : s.Kept) :
    (s.loadAllRetained.map RetainedMessage.topic).Nodup := by
  have hks : (s.retained.entries.map Prod.fst).Nodup :=
    (List.pairwise_map.2 s.retained.sorted).imp (fun hlt => hlt.ne)
  rw [hs.entries_eq, List.map_map] at hks
  exact List.Nodup.of_map stringBytes (by rwa [List.map_map])

/-- A message is on disk for a topic exactly if it is loaded and the topic is its own. -/
theorem Kept.retainedOf_eq_some_iff (hs : s.Kept) {topic : String} {m : RetainedMessage} :
    s.retainedOf topic = some m ↔ m ∈ s.loadAllRetained ∧ m.topic = topic := by
  unfold retainedOf
  rw [Option.join_eq_some_iff, OrderedMap.get_eq_some_iff, hs.entries_eq, List.mem_map]
  constructor
  · rintro ⟨m', hm', heq⟩
    obtain ⟨hkey, hval⟩ := Prod.mk.inj heq
    obtain rfl := Option.some.inj hval
    exact ⟨hm', stringBytes_injective hkey⟩
  · rintro ⟨hm, rfl⟩
    exact ⟨m, hm, rfl⟩

/-- What is loaded is what is on disk. -/
theorem Kept.loadFromStorage_get (hs : s.Kept) (maxPayloadBytes : Nat) (topic : String) :
    (RetainStore.loadFromStorage { maxPayloadBytes } s).map.get topic = s.retainedOf topic := by
  let pairs := s.loadAllRetained.map (fun m => (m.topic, m))
  have hmap : (RetainStore.loadFromStorage { maxPayloadBytes } s).map =
      pairs.foldl (fun map p => map.insert p.1 p.2) ∅ := by
    rw [List.foldl_map]
    rfl
  have hks : pairs.map Prod.fst = s.loadAllRetained.map RetainedMessage.topic := by
    rw [List.map_map]
    rfl
  rw [hmap]
  cases hdisk : s.retainedOf topic with
  | some m =>
    obtain ⟨hm, rfl⟩ := hs.retainedOf_eq_some_iff.1 hdisk
    have hpeer : (m.topic, m) ∈ pairs := List.mem_map.2 ⟨m, hm, rfl⟩
    exact get_foldl_insert_of_mem (hks ▸ hs.nodup_topics) hpeer ∅
  | none =>
    refine get_foldl_insert_of_notMem ?_ ∅
    rw [hks, List.mem_map]
    rintro ⟨m, hm, htop⟩
    rw [hs.retainedOf_eq_some_iff.2 ⟨hm, htop⟩] at hdisk
    exact absurd hdisk (by simp)

end Storage

/-! ## Calls -/

/-- The store and the disk it writes to. -/
structure Retaining where
  store : RetainStore
  storage : Option Storage

/-- A call, and whether the write that it makes goes through. -/
inductive RetainCall where
  | set (topic : String) (payload : Bytes) (qos : QoS) (ok : Bool)
  | remove (topic : String) (ok : Bool)

namespace Retaining

def ofPair (p : RetainStore × Option Storage) : Retaining := ⟨p.1, p.2⟩

def perform (s : Retaining) : RetainCall → Retaining
  | .set topic payload qos ok => ofPair (s.store.trySet s.storage ok topic payload qos)
  | .remove topic ok => ofPair (s.store.remove s.storage ok topic)

def step (s : Retaining) (call : RetainCall) : Option Retaining := some (s.perform call)

/-- The store as it is loaded from a disk. -/
def load (maxPayloadBytes : Nat) (disk : Storage) : Retaining :=
  ⟨RetainStore.loadFromStorage { maxPayloadBytes } disk, some disk⟩

/-- **Memory and disk agree**, and what is stored may be retained and is found under its topic. -/
def InStep (s : Retaining) : Prop :=
  ∀ st, s.storage = some st → st.Kept ∧ ∀ topic, s.store.map.get topic = st.retainedOf topic

theorem load_inStep {disk : Storage} (h : disk.Kept) (maxPayloadBytes : Nat) :
    (load maxPayloadBytes disk).InStep := by
  intro st hst
  rw [← some.inj hst]
  exact ⟨h, h.loadFromStorage_get maxPayloadBytes⟩

/-- The call does not fail to take a message off the disk that it takes out of memory. -/
def followsThrough (s : Retaining) : RetainCall → Bool
  | .remove topic ok => ok || (s.store.map.get topic).isNone
  | .set .. => true

variable {s : Retaining}

theorem perform_set_inStep (topic : String) (payload : Bytes) (qos : QoS) (ok : Bool)
    (hs : s.InStep) : (s.perform (.set topic payload qos ok)).InStep := by
  intro st hst
  change (s.store.trySet s.storage ok topic payload qos).2 = some st at hst
  show st.Kept ∧ ∀ topic', (s.store.trySet s.storage ok topic payload qos).1.map.get topic' = _
  unfold RetainStore.trySet at hst ⊢
  split_ifs at hst ⊢ with hval hlim hfail hempty
  · exact hs st hst
  · exact hs st hst
  · exact hs st hst
  · obtain ⟨st0, hst0, rfl⟩ := map_eq_some_iff.1 hst
    obtain ⟨hkept, hagree⟩ := hs st0 hst0
    refine ⟨hkept.deleteRetained topic, fun topic' => ?_⟩
    rw [Storage.retainedOf_deleteRetained, ← hagree topic']
    exact get_erase ..
  · obtain ⟨st0, hst0, rfl⟩ := map_eq_some_iff.1 hst
    obtain ⟨hkept, hagree⟩ := hs st0 hst0
    let msg : RetainedMessage := { topic, payload, qos }
    rw [not_or, not_or] at hval
    have hsave := Storage.retainedOf_saveRetained st0 msg
    refine ⟨hkept.saveRetained (m := msg) ⟨hval.1, hval.2, hempty⟩, fun topic' => ?_⟩
    rw [hsave topic', ← hagree topic']
    exact get_insert ..

/-- A `remove` keeps memory and disk in step exactly if it follows through. -/
theorem perform_remove_inStep_iff {st : Storage} (topic : String) (ok : Bool)
    (hst : s.storage = some st) (hs : s.InStep) :
    (s.perform (.remove topic ok)).InStep ↔ s.followsThrough (.remove topic ok) = true := by
  obtain ⟨hkept, hagree⟩ := hs st hst
  have hmem : ∀ topic', (s.perform (.remove topic ok)).store.map.get topic' =
      if topic' = topic then none else s.store.map.get topic' := fun _ => get_erase ..
  cases ok with
  | true =>
    refine iff_of_true (fun st' hst' => ?_) rfl
    have hdisk : (s.perform (.remove topic true)).storage = some (st.deleteRetained topic) :=
      congrArg (Option.map _) hst
    obtain rfl := some.inj (hdisk.symm.trans hst')
    refine ⟨hkept.deleteRetained topic, fun topic' => ?_⟩
    rw [hmem, Storage.retainedOf_deleteRetained, hagree topic']
  | false =>
    have hdisk : (s.perform (.remove topic false)).storage = some st := hst
    rw [followsThrough, Bool.false_or, isNone_iff_eq_none]
    constructor
    · intro h
      have hgone := (h st hdisk).2 topic
      rw [hmem, if_pos rfl] at hgone
      rw [hagree topic, ← hgone]
    · intro hnone st' hst'
      obtain rfl := some.inj (hdisk.symm.trans hst')
      refine ⟨hkept, fun topic' => ?_⟩
      rw [hmem]
      split_ifs with htop
      · rw [htop, ← hagree topic, hnone]
      · exact hagree topic'

theorem perform_storage_isSome (call : RetainCall) (h : s.storage.isSome = true) :
    (s.perform call).storage.isSome = true := by
  cases call with
  | set topic payload qos ok =>
    show (s.store.trySet s.storage ok topic payload qos).2.isSome = true
    unfold RetainStore.trySet
    split_ifs <;> simp [h]
  | remove topic ok =>
    show (if ok then s.storage.map _ else s.storage).isSome = true
    split_ifs <;> simp [h]

theorem exists_run (s : Retaining) (calls : List RetainCall) :
    ∃ s', Runs.run step s calls = some s' := by
  induction calls generalizing s with
  | nil => exact ⟨s, rfl⟩
  | cons call calls ih =>
    obtain ⟨s', hs'⟩ := ih (s.perform call)
    exact ⟨s', Runs.run_cons.2 ⟨_, rfl, hs'⟩⟩

/-- **When memory and disk stay in step.** From any disk that holds what may be retained, whatever
    is set and removed and whichever writes fail: exactly if no `remove` fails on disk that takes a
    message out of memory. -/
theorem inStep_always_iff {disk : Storage} (hdisk : disk.Kept) (maxPayloadBytes : Nat)
    (calls : List RetainCall) :
    Runs.Always step InStep (load maxPayloadBytes disk) calls ↔
      Runs.Meets step (fun s call => s.followsThrough call = true) (load maxPayloadBytes disk)
        calls := by
  obtain ⟨s', hrun⟩ := exists_run (load maxPayloadBytes disk) calls
  refine Runs.run_always_iff (E := fun _ => True) (I := fun s => s.storage.isSome = true) ?_ ?_
    (fun _ _ => trivial) rfl (load_inStep hdisk maxPayloadBytes) hrun
  · intro s s' call _ hs hstep
    exact some.inj hstep ▸ perform_storage_isSome call hs
  · intro s s' call _ hsome hs hstep
    rw [← some.inj hstep]
    obtain ⟨st, hst⟩ := isSome_iff_exists.1 hsome
    cases call with
    | set topic payload qos ok => exact iff_of_true (perform_set_inStep topic payload qos ok hs) rfl
    | remove topic ok => exact perform_remove_inStep_iff topic ok hst hs

/-- A message that is retained. -/
def retainedT : RetainedMessage := { topic := "t", payload := [0x78], qos := .atLeastOnce }

/-- A disk that holds it. -/
def diskT : Storage := ({} : Storage).saveRetained "t" retainedT

theorem kept_diskT : diskT.Kept := by
  have hempty : ({} : Storage).Kept := fun e he => absurd he List.not_mem_nil
  exact hempty.saveRetained (m := retainedT) ⟨by decide, by decide, by decide⟩

/-- Writes fail and go through, and the message is removed in the end. -/
def settledCalls : List RetainCall :=
  [.set "t" [] .atMostOnce false, .set "u" [0x79] .atMostOnce true, .remove "v" false,
    .remove "t" true]

theorem inStep_always_iff_settled : diskT.Kept ∧
    Runs.Meets step (fun s call => s.followsThrough call = true) (load 0 diskT) settledCalls ∧
    Runs.Always step InStep (load 0 diskT) settledCalls := by
  have hmeets : Runs.Meets step (fun s call => s.followsThrough call = true) (load 0 diskT)
      settledCalls := Runs.meets_of_check followsThrough (fun _ _ h => h) (by decide +kernel)
  exact ⟨kept_diskT, hmeets, (inStep_always_iff kept_diskT 0 settledCalls).2 hmeets⟩

/-- **A message comes back**: a `remove` that fails on disk has taken it out of memory, and the next
    start loads it again. -/
theorem remove_fails_apart : diskT.Kept ∧ (load 0 diskT).InStep ∧
    ¬ ((load 0 diskT).perform (.remove "t" false)).InStep ∧
    ((load 0 diskT).perform (.remove "t" false)).store.map.get "t" = none ∧
    diskT.retainedOf "t" = some retainedT := by
  have hdisk : diskT.retainedOf "t" = some retainedT := by decide +kernel
  have hmemory : ((load 0 diskT).perform (.remove "t" false)).store.map.get "t" = none := by
    decide +kernel
  refine ⟨kept_diskT, load_inStep kept_diskT 0, fun h => ?_, hmemory, hdisk⟩
  have hagree := (h diskT rfl).2 "t"
  rw [hmemory, hdisk] at hagree
  exact absurd hagree (by simp)

end Retaining

end LumenMQ
