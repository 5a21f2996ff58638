import Mathlib.Data.List.DropRight
import LumenMQ.Archive

set_option autoImplicit false

/-! # The records of the offline queues

What is queued for a client is written to disk as well, one record for each message. Its key starts
with the client's name, behind the length of the name, and ends with a number that grows from record
to record. The records of one client are then in the order in which they were written, and no scan
for a client meets those of another, as long as the names fit their two-byte length and the numbers
have not gone round. -/

namespace LumenMQ

open List

variable {c o : String} {n : Nat}

/-! ## Keys -/

/-- The key of the record with this number. -/
def offlineKey (c : String) (n : Nat) : Bytes := offlineKeyPrefix c ++ beBytes 8 n

/-- The name fits the length in front of it. -/
def FitsKey (c : String) : Prop := (stringBytes c).length < 65536

instance (c : String) : Decidable (FitsKey c) := inferInstanceAs (Decidable (_ < _))

/-- The name is what is left of another when a multiple of 65536 bytes is cut off its end. -/
def CutFrom (c o : String) : Prop :=
  stringBytes c <+: stringBytes o ∧ 65536 ∣ (stringBytes o).length - (stringBytes c).length

instance (c o : String) : Decidable (CutFrom c o) := inferInstanceAs (Decidable (_ ∧ _))

/-- The names whose records a scan meets: the length in front of a name has two bytes. -/
theorem prefix_offlineKey_iff : offlineKeyPrefix c <+: offlineKey o n ↔ CutFrom c o := by
  constructor
  · rintro ⟨rest, hrest⟩
    unfold offlineKey offlineKeyPrefix at hrest
    rw [append_assoc, append_assoc] at hrest
    obtain ⟨hlen, hname⟩ := append_inj hrest (by simp)
    have hmod := beBytes_eq_iff.1 hlen
    have htotal := congrArg length hname
    rw [length_append, length_append, length_beBytes] at htotal
    -- the names differ in length by a multiple of 65536, so the eight bytes behind them do not count
    have hle : (stringBytes c).length ≤ (stringBytes o).length := by omega
    refine ⟨prefix_of_prefix_length_le ⟨rest, hname⟩ (prefix_append ..) hle, ?_⟩
    omega
  · rintro ⟨⟨rest, hrest⟩, hdvd⟩
    have htotal := congrArg length hrest
    rw [length_append] at htotal
    have hlen : beBytes 2 (stringBytes c).length = beBytes 2 (stringBytes o).length :=
      beBytes_eq_iff.2 (by omega)
    refine ⟨rest ++ beBytes 8 n, ?_⟩
    unfold offlineKey offlineKeyPrefix
    rw [hlen, ← hrest]
    simp

/-- The key of a record starts with the name of its client and with no other. -/
theorem eq_of_prefix_offlineKey (ho : FitsKey o) (h : offlineKeyPrefix c <+: offlineKey o n) :
    c = o := by
  obtain ⟨hstarts, hdvd⟩ := prefix_offlineKey_iff.1 h
  have hle := hstarts.length_le
  have hsame : (stringBytes c).length = (stringBytes o).length := by
    unfold FitsKey at ho
    omega
  exact stringBytes_injective (hstarts.eq_of_length hsame)

theorem prefix_offlineKey (c : String) (n : Nat) : offlineKeyPrefix c <+: offlineKey c n :=
  prefix_append ..

theorem offlineKey_lt {m : Nat} (hnm : n < m) (hm : m < 2 ^ 64) : offlineKey c n < offlineKey c m :=
  List.Lex.append_left _ (beBytes_lex hnm (by simpa using hm)) _

/-! ## The offline tree -/

namespace Storage

variable {s : Storage} {c : String}

/-- The messages in the records of a client, in the order of their keys. -/
def recordsOf (s : Storage) (c : String) : List OutboundPublish := (s.drainOffline c).1

/-- Every record in the offline tree was written for a client whose name fits, under a number that
    was drawn. -/
def Numbered (s : Storage) : Prop :=
  ∀ e ∈ s.offline.entries, ∃ o n msg, e = (offlineKey o n, some msg) ∧ FitsKey o ∧ n < s.nextId

theorem numbered_of_nil (h : s.offline.entries = []) : s.Numbered := by
  intro e he
  rw [h] at he
  exact absurd he not_mem_nil

/-- What a scan for a client meets. -/
theorem Numbered.of_mem_scan (hs : s.Numbered) {e : Bytes × Option OutboundPublish}
    (he : e ∈ (s.offline.filter (isOfflineRecordOf c)).entries) :
    ∃ n msg, e = (offlineKey c n, some msg) ∧ n < s.nextId := by
  obtain ⟨hmem, hscan⟩ := OrderedMap.mem_filter.1 he
  obtain ⟨o, n, msg, rfl, ho, hn⟩ := hs e hmem
  have hstarts : offlineKeyPrefix c <+: offlineKey o n := isPrefixOf_iff_prefix.1 hscan
  rw [eq_of_prefix_offlineKey ho hstarts]
  exact ⟨n, msg, rfl, hn⟩

theorem Numbered.pushOffline (hs : s.Numbered) (hc : FitsKey c) (msg : OutboundPublish) :
    (s.pushOffline c msg).Numbered := by
  intro e he
  rcases OrderedMap.mem_insert.1 he with rfl | ⟨hold, -⟩
  · exact ⟨c, s.nextId, msg, rfl, hc, Nat.lt_succ_self _⟩
  · obtain ⟨o, n, msg', heq, ho, hn⟩ := hs e hold
    exact ⟨o, n, msg', heq, ho, Nat.lt_succ_of_lt hn⟩

theorem Numbered.drainOffline (hs : s.Numbered) (c : String) : (s.drainOffline c).2.Numbered := by
  intro e he
  exact hs e (OrderedMap.mem_filter.1 he).1

/-- A message that is written is the last one of its client, and no other client's. -/
theorem recordsOf_pushOffline (hs : s.Numbered) (ho : FitsKey o) (hid : s.nextId < 2 ^ 64)
    (msg : OutboundPublish) (c : String) : (s.pushOffline o msg).recordsOf c =
      if c = o then s.recordsOf c ++ [msg] else s.recordsOf c := by
  by_cases hc : c = o
  · subst hc
    rw [if_pos rfl]
    have hscan : isOfflineRecordOf c (offlineKey c s.nextId, some msg) = true :=
      isPrefixOf_iff_prefix.2 (prefix_offlineKey c s.nextId)
    have hentries := OrderedMap.filter_insert_last (m := s.offline) hscan (fun e he => by
      obtain ⟨n, msg', rfl, hn⟩ := hs.of_mem_scan he
      exact offlineKey_lt hn hid)
    show filterMap Prod.snd
      ((s.offline.insert (offlineKey c s.nextId) (some msg)).filter (isOfflineRecordOf c)).entries = _
    rw [hentries, filterMap_append]
    rfl
  · rw [if_neg hc]
    have hscan : ∀ v, isOfflineRecordOf c (offlineKey o s.nextId, v) = false := by
      intro v
      rw [← Bool.not_eq_true]
      intro h
      exact hc (eq_of_prefix_offlineKey ho ( isPrefixOf_iff_prefix.1 h))
    show filterMap Prod.snd
      ((s.offline.insert (offlineKey o s.nextId) (some msg)).filter (isOfflineRecordOf c)).entries = _
    rw [OrderedMap.filter_insert_of_not hscan]
    rfl

theorem recordsOf_drainOffline_self (s : Storage) (c : String) :
    (s.drainOffline c).2.recordsOf c = [] := by
  show filterMap Prod.snd ((s.offline.entries.filter
    (fun e => !isOfflineRecordOf c e)).filter (isOfflineRecordOf c)) = []
  rw [filter_filter]
  simp

/-- What a scan for a client meets. -/
def scan (s : Storage) (c : String) : List (Bytes × Option OutboundPublish) :=
  (s.offline.filter (isOfflineRecordOf c)).entries

/-- What is taken out for a client is met by no scan for another. -/
theorem scan_drainOffline (hs : s.Numbered) (hc : c ≠ o) :
    (s.drainOffline o).2.scan c = s.scan c := by
  show (s.offline.entries.filter (fun e => !isOfflineRecordOf o e)).filter (isOfflineRecordOf c) = _
  rw [filter_filter]
  refine filter_congr (fun e he => ?_)
  obtain ⟨o', n, msg, rfl, ho', -⟩ := hs e he
  cases hscan : isOfflineRecordOf c (offlineKey o' n, some msg) with
  | false => rfl
  | true =>
    have hown : isOfflineRecordOf o (offlineKey o' n, some msg) = false := by
      rw [← Bool.not_eq_true]
      intro h
      have hco' := eq_of_prefix_offlineKey ho' ( isPrefixOf_iff_prefix.1 hscan)
      have hoo' := eq_of_prefix_offlineKey ho' ( isPrefixOf_iff_prefix.1 h)
      exact hc (hco'.trans hoo'.symm)
    rw [hown]
    rfl

/-- What is taken out for a client are its own records. -/
theorem recordsOf_drainOffline (hs : s.Numbered) (o c : String) :
    (s.drainOffline o).2.recordsOf c = if c = o then [] else s.recordsOf c := by
  by_cases hc : c = o
  · rw [if_pos hc, hc]
    exact s.recordsOf_drainOffline_self o
  · rw [if_neg hc]
    exact congrArg (filterMap Prod.snd) (scan_drainOffline hs hc)

theorem recordsOf_of_nil (h : s.offline.entries = []) (c : String) : s.recordsOf c = [] := by
  show filterMap Prod.snd (s.offline.entries.filter _) = []
  rw [h]
  rfl

end Storage

/-! ## Queues -/

/-- A call on the offline tree. The store gives out growing numbers, but not every one. -/
inductive OfflineCall where
  | pushOffline (clientId : String) (msg : OutboundPublish)
  | drainOffline (clientId : String)
  | skipIds (n : Nat)
deriving DecidableEq

namespace OfflineCall

/-- The message that a call pushes for a client. -/
def pushedFor (c : String) : OfflineCall → Option OutboundPublish
  | .pushOffline o msg => if c = o then some msg else none
  | _ => none

def drains (c : String) : OfflineCall → Bool
  | .drainOffline o => c = o
  | _ => false

/-- The messages pushed for a client since it was last drained. -/
def pushedSince (c : String) (calls : List OfflineCall) : List OutboundPublish :=
  (calls.rtakeWhile (fun call => !call.drains c)).filterMap (pushedFor c)

theorem pushedSince_concat (c : String) (calls : List OfflineCall) (call : OfflineCall) :
    pushedSince c (calls ++ [call]) =
      if call.drains c then [] else pushedSince c calls ++ (call.pushedFor c).toList := by
  unfold pushedSince
  rw [rtakeWhile_concat]
  cases call.drains c with
  | true => rfl
  | false =>
    rw [Bool.not_false, if_pos rfl, filterMap_append]
    cases h : call.pushedFor c <;> simp [h]

end OfflineCall

namespace Storage

/-- The store after a call; what a drain returns is looked up in the state before it. -/
def perform (s : Storage) : OfflineCall → Storage
  | .pushOffline c msg => s.pushOffline c msg
  | .drainOffline c => (s.drainOffline c).2
  | .skipIds n => { s with nextId := s.nextId + n }

def performAll (s : Storage) (calls : List OfflineCall) : Storage := calls.foldl perform s

theorem performAll_concat (s : Storage) (calls : List OfflineCall) (call : OfflineCall) :
    s.performAll (calls ++ [call]) = (s.performAll calls).perform call :=
  foldl_concat ..

theorem nextId_le_perform (s : Storage) (call : OfflineCall) :
    s.nextId ≤ (s.perform call).nextId := by
  cases call with
  | pushOffline c msg => exact Nat.le_succ _
  | drainOffline c => exact le_refl _
  | skipIds n => exact Nat.le_add_right ..

/-- A call does to the records of each client what it does to a queue. -/
theorem perform_recordsOf {s : Storage} {call : OfflineCall} (hs : s.Numbered)
    (hfits : ∀ c msg, call = .pushOffline c msg → FitsKey c)
    (hids : (s.perform call).nextId ≤ 2 ^ 64) :
    (s.perform call).Numbered ∧ ∀ c, (s.perform call).recordsOf c =
      if call.drains c then [] else s.recordsOf c ++ (call.pushedFor c).toList := by
  cases call with
  | pushOffline o msg =>
    have ho := hfits o msg rfl
    refine ⟨hs.pushOffline ho msg, fun c => ?_⟩
    show (s.pushOffline o msg).recordsOf c = s.recordsOf c ++ (if c = o then some msg else none).toList
    rw [recordsOf_pushOffline hs ho hids]
    split_ifs
    · rfl
    · exact (append_nil _).symm
  | drainOffline o =>
    refine ⟨hs.drainOffline o, fun c => ?_⟩
    show (s.drainOffline o).2.recordsOf c = if decide (c = o) = true then [] else s.recordsOf c ++ []
    rw [recordsOf_drainOffline hs, append_nil]
    by_cases hc : c = o <;> simp [hc]
  | skipIds n =>
    refine ⟨fun e he => ?_, fun c => (append_nil _).symm⟩
    obtain ⟨o, k, msg, heq, ho, hk⟩ := hs e he
    exact ⟨o, k, msg, heq, ho, hk.trans_le (Nat.le_add_right ..)⟩

theorem performAll_recordsOf {calls : List OfflineCall}
    (hfits : ∀ c msg, .pushOffline c msg ∈ calls → FitsKey c)
    (hids : (({} : Storage).performAll calls).nextId ≤ 2 ^ 64) :
    (({} : Storage).performAll calls).Numbered ∧
      ∀ c, (({} : Storage).performAll calls).recordsOf c = OfflineCall.pushedSince c calls := by
  induction calls using reverseRecOn with
  | nil => exact ⟨numbered_of_nil rfl, fun _ => rfl⟩
  | append_singleton calls call ih =>
    rw [performAll_concat] at hids ⊢
    obtain ⟨hs, hrecs⟩ := ih (fun c msg h => hfits c msg (mem_append_left _ h))
      ((nextId_le_perform _ call).trans hids)
    obtain ⟨hs', hrecs'⟩ := perform_recordsOf hs
      (fun c msg h => hfits c msg (by simp [h])) hids
    refine ⟨hs', fun c => ?_⟩
    rw [hrecs' c, hrecs c, OfflineCall.pushedSince_concat]

/-- **The offline tree is a family of queues.** After any calls, with names that fit and numbers
    that have not gone round, a drain returns what was pushed for the client since it was last
    drained, in that order, and no scan for another client notices. -/
theorem drainOffline_fifo {calls : List OfflineCall}
    (hfits : ∀ c msg, .pushOffline c msg ∈ calls → FitsKey c)
    (hids : (({} : Storage).performAll calls).nextId ≤ 2 ^ 64) (c : String) :
    ((({} : Storage).performAll calls).drainOffline c).1 = OfflineCall.pushedSince c calls ∧
      ∀ o, o ≠ c → ((({} : Storage).performAll calls).drainOffline c).2.scan o =
        (({} : Storage).performAll calls).scan o := by
  obtain ⟨hs, hrecords⟩ := performAll_recordsOf hfits hids
  exact ⟨hrecords c, fun o ho => scan_drainOffline hs ho⟩

/-- Two clients, one of whose names begins with the other's. -/
def mixedCalls (m : OutboundPublish) : List OfflineCall :=
  [.pushOffline "c1" m, .drainOffline "c1", .pushOffline "c1x" m, .skipIds 7,
    .pushOffline "c1" { m with qos := .exactlyOnce }, .pushOffline "c1" m]

theorem drainOffline_fifo_mixed : ∃ m : OutboundPublish,
    (∀ c msg, .pushOffline c msg ∈ mixedCalls m → FitsKey c) ∧
    ((({} : Storage).performAll (mixedCalls m)).drainOffline "c1").1 =
      [{ m with qos := .exactlyOnce }, m] ∧
    ((({} : Storage).performAll (mixedCalls m)).drainOffline "c1").2.scan "c1x" =
      (({} : Storage).performAll (mixedCalls m)).scan "c1x" := by
  let m : OutboundPublish := { topic := "t", payload := [], qos := .atLeastOnce, retain := false }
  have hfits : ∀ c msg, .pushOffline c msg ∈ mixedCalls m → FitsKey c := by
    intro c msg h
    simp only [mixedCalls, mem_cons, OfflineCall.pushOffline.injEq, not_mem_nil, or_false,
      reduceCtorEq, false_or] at h
    rcases h with ⟨rfl, -⟩ | ⟨rfl, -⟩ | ⟨rfl, -⟩ | ⟨rfl, -⟩ <;> decide
  obtain ⟨hdrained, hothers⟩ := drainOffline_fifo hfits (by decide) "c1"
  exact ⟨m, hfits, hdrained.trans (by decide), hothers "c1x" (by decide)⟩

end Storage

end LumenMQ
