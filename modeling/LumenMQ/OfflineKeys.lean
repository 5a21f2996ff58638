import LumenMQ.OfflineMirrorRuns

set_option autoImplicit false

/-! # Names that do not fit

A record of one client is read, and taken out, with those of another exactly if the name of the one
is what is left of the other's when a multiple of 65536 bytes is cut off its end. A CONNECT over TCP
is refused with a name that is longer than its length says. The name of a device is not measured,
and it grows as it is decoded: every byte that is not UTF-8 becomes three. -/

namespace LumenMQ

open List

/-- **Whose records a client gets to see.** Whatever the two names are, the one's records are apart
    from the other's unless its name is cut from the other's. -/
theorem records_apart_iff (c o : String) (n : Nat) :
    ¬ offlineKeyPrefix c <+: offlineKey o n ↔ ¬ CutFrom c o :=
  not_congr prefix_offlineKey_iff

/-! ## A name that grows -/

theorem lossyChars_replicate (n : Nat) :
    lossyChars 0 (List.replicate n 0xFF) = List.replicate n replacementChar := by
  induction n with
  | zero => rfl
  | succ n ih =>
    rw [replicate_succ, replicate_succ, lossyChars]
    exact congrArg (replacementChar :: ·) ih

/-- `ab`, and then what stands for bytes that are not UTF-8. -/
def grownName (n : Nat) : String := String.ofList ('a' :: 'b' :: List.replicate n replacementChar)

/-- What a device sends as this name. -/
def grownNameBytes (n : Nat) : Bytes := 0x61 :: 0x62 :: List.replicate n 0xFF

theorem fromUtf8Lossy_grownNameBytes (n : Nat) :
    fromUtf8Lossy (grownNameBytes n) = grownName n := by
  unfold fromUtf8Lossy grownName
  rw [← lossyChars_replicate]
  rfl

theorem stringBytes_ofList_append (l l' : List Char) :
    stringBytes (String.ofList (l ++ l')) =
      stringBytes (String.ofList l) ++ stringBytes (String.ofList l') := by
  simp [stringBytes]

theorem length_stringBytes_replacement (n : Nat) :
    (stringBytes (String.ofList (List.replicate n replacementChar))).length = 3 * n := by
  induction n with
  | zero => rfl
  | succ n ih =>
    rw [replicate_succ, ← singleton_append, stringBytes_ofList_append, length_append,
      ih, show (stringBytes (String.ofList [replacementChar])).length = 3 by decide]
    omega

theorem stringBytes_grownName (n : Nat) : stringBytes (grownName n) = stringBytes "a" ++
    (stringBytes "b" ++ stringBytes (String.ofList (List.replicate n replacementChar))) := by
  show stringBytes (String.ofList (['a'] ++ (['b'] ++ replicate n replacementChar))) = _
  rw [stringBytes_ofList_append, stringBytes_ofList_append]

/-- With 21845 such bytes the name has 65537. -/
theorem cutFrom_grownName : CutFrom "a" (grownName 21845) := by
  refine ⟨?_, ?_⟩
  · rw [stringBytes_grownName]
    exact prefix_append ..
  · rw [stringBytes_grownName, length_append, length_append,
      length_stringBytes_replacement]
    decide

/-- A CONNECT with a length of two bytes. -/
def longConnect (total : UInt16) (clientId : Bytes) : Bytes :=
  0x01 :: (beBytes 2 total.toNat ++ [0x04, 0, protocolIdMqttsn, 0, 60] ++ clientId)

theorem parsePacket_longConnect (total : UInt16) (clientId : Bytes)
    (htotal : total.toNat = 8 + clientId.length) :
    parsePacket ((longConnect total clientId).take 65535) =
      .ok (.connect 0 protocolIdMqttsn 60 (fromUtf8Lossy clientId)) := by
  have hlen : (longConnect total clientId).length = 8 + clientId.length := by
    simp [longConnect]
    omega
  have hlt := total.toNat_lt
  rw [take_of_length_le (by omega)]
  have hdec : u16At (longConnect total clientId) 1 = total := u16FromBeBytes_beBytes total
  have hheader : snHeader (longConnect total clientId) =
      .ok ([0x04, 0, protocolIdMqttsn, 0, 60] ++ clientId) := by
    unfold snHeader
    rw [hlen, if_neg (by omega), if_neg (by simp [longConnect]), if_neg (by omega), hdec,
      if_neg (by omega)]
    rfl
  have hbody : parseSnBody 0x04 (0 :: protocolIdMqttsn :: 0 :: 60 :: clientId) =
      .ok (.connect 0 protocolIdMqttsn 60 (fromUtf8Lossy clientId)) := by
    have hdur : u16At (0 :: protocolIdMqttsn :: 0 :: 60 :: clientId) 2 = 60 :=
      (show u16FromBeBytes [0, 60] = 60 by decide)
    simp only [parseSnBody]
    rw [if_neg (by simp), hdur]
    rfl
  rw [parsePacket, hheader]
  exact hbody

/-- What is written for a client is taken out with the records of every name that is cut from its
    own. -/
theorem Storage.mem_drainOffline_of_cutFrom {c o : String} (h : CutFrom c o) (st : Storage)
    (msg : OutboundPublish) : msg ∈ ((st.pushOffline o msg).drainOffline c).1 := by
  have hmem : (offlineKey o st.nextId, some msg) ∈ (st.pushOffline o msg).offline.entries :=
    OrderedMap.mem_insert.2 (.inl rfl)
  refine mem_filterMap.2 ⟨_, OrderedMap.mem_filter.2 ⟨hmem, ?_⟩, rfl⟩
  exact isPrefixOf_iff_prefix.2 (prefix_offlineKey_iff.2 h)

namespace Sys

/-- A device that is not refused has a session. -/
theorem session_of_connect {s : Sys} (peer : SocketAddr) {bytes : Bytes} {flags protocolId : UInt8}
    {duration : UInt16} {c : String}
    (hparse : parsePacket (bytes.take 65535) = .ok (.connect flags protocolId duration c))
    (href : s.toGateway.refusal protocolId c = none) :
    ∃ s', s.step (.datagram peer bytes) = some s' ∧ (s'.broker.sessions.get c).isSome = true ∧
      ∀ c', (s.broker.sessions.get c').isSome = true →
        (s'.broker.sessions.get c').isSome = true := by
  let g := (s.toGateway.registerClient peer c (flags &&& flagClean ≠ 0)
    (if duration = 0 then 60 else duration)).send peer (.connack rcAccepted)
  have hget : ∀ c', (s.ofGateway g).broker.sessions.get c' = _ :=
    fun c' => SessionManager.register_get ..
  refine ⟨s.ofGateway g, ?_, ?_, ?_⟩
  · show (s.toGateway.datagram peer bytes).map s.ofGateway = _
    unfold Gateway.datagram
    rw [hparse]
    simp only [Gateway.handle, Gateway.handleConnect, href, Option.map_some]
    rfl
  · rw [hget, if_pos rfl]
    rfl
  · intro c' hc'
    rw [hget]
    split_ifs
    · rfl
    · exact hc'

def otherAddr : SocketAddr := ⟨.v4 0, 1885⟩

/-- The device `a` connects. -/
def connectsA : Event := .datagram deviceAddr [7, 0x04, 0, protocolIdMqttsn, 0, 60, 0x61]

/-- **The two bytes of length do not tell all names apart.** Two devices are connected, and whatever
    is written for the one is taken out with the records of the other. -/
theorem grown_name_collides : ∃ s, Reachable s ∧
    (s.broker.sessions.get "a").isSome = true ∧
    (s.broker.sessions.get (grownName 21845)).isSome = true ∧ "a" ≠ grownName 21845 ∧
    (∀ n, offlineKeyPrefix "a" <+: offlineKey (grownName 21845) n) ∧
    ∀ (st : Storage) (msg : OutboundPublish),
      msg ∈ ((st.pushOffline (grownName 21845) msg).drainOffline "a").1 := by
  obtain ⟨s₀, s, h₀, hrun, hs⟩ := exists_run {} 0 [connectsA]
    (fun s => (s.broker.sessions.get "a").isSome &&
      decide (s.toGateway.refusal protocolIdMqttsn "a" = none)) (by decide +kernel)
  simp only [Bool.and_eq_true, decide_eq_true_eq] at hs
  have hname : (stringBytes (grownName 21845)).length ≠ (stringBytes "a").length := by
    rw [stringBytes_grownName, length_append, length_append,
      length_stringBytes_replacement]
    decide
  have hempty : grownName 21845 ≠ "" := by
    intro h
    have hlength := congrArg (fun c => (stringBytes c).length) h
    rw [stringBytes_grownName, length_append] at hlength
    exact absurd hlength (Nat.ne_of_gt (Nat.add_pos_left (by decide) _))
  have hparse := parsePacket_longConnect 21855 (grownNameBytes 21845)
    (by simp only [grownNameBytes, length_cons, length_replicate]; rfl)
  rw [fromUtf8Lossy_grownNameBytes] at hparse
  have hrefusal : s.toGateway.refusal protocolIdMqttsn (grownName 21845) = none := by
    have ha := hs.2
    unfold Gateway.refusal at ha ⊢
    rw [if_neg (by decide)] at ha
    rw [if_neg hempty]
    exact ha
  obtain ⟨s', hstep, hsession, hkept⟩ := session_of_connect otherAddr hparse hrefusal
  have hreach : Reachable s := ⟨{}, 0, s₀, [connectsA], h₀, hrun⟩
  refine ⟨s', hreach.step hstep, hkept "a" hs.1, hsession, ?_, ?_, ?_⟩
  · exact fun h => hname (congrArg (fun c => (stringBytes c).length) h.symm)
  · exact fun n => prefix_offlineKey_iff.2 cutFrom_grownName
  · exact Storage.mem_drainOffline_of_cutFrom cutFrom_grownName

end Sys

end LumenMQ
