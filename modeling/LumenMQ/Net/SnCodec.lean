import LumenMQ.Net.SnPacket
import LumenMQ.Config.Settings

set_option autoImplicit false

/-! # MQTT-SN frames

The encoder of the gateway, and what becomes of the length in front of a packet. The encoder writes
it in one byte, or in two behind a marker, and cuts it to 16 bits. The parser compares it with the
size of the datagram and then reads to the end of the datagram, whatever the length says. -/

namespace LumenMQ

open List

variable {buf content body : Bytes} {packet : SnPacket} {n : Nat}

/-! ## Valid UTF-8 passes the lossy decoder unchanged -/

/-- A continuation byte and the six bits it carries. -/
theorem contByte (x : Fin 64) :
    isCont (UInt8.ofNat (x.val + 128)) = true ∧
      (UInt8.ofNat (x.val + 128) &&& 0x3F).toNat = x.val := by
  revert x
  decide

/-- The first byte of a two-byte character. -/
theorem leadByte2 (a : Fin 32) (ha : 2 ≤ a.val) :
    ¬ UInt8.ofNat (a.val + 192) < 0x80 ∧
      (0xC2 ≤ UInt8.ofNat (a.val + 192) && UInt8.ofNat (a.val + 192) ≤ 0xDF) = true ∧
      (UInt8.ofNat (a.val + 192) &&& 0x1F).toNat = a.val := by
  revert a
  decide

/-- The first byte of a three-byte character. -/
theorem leadByte3 (a : Fin 16) :
    ¬ UInt8.ofNat (a.val + 224) < 0x80 ∧
      ¬ (0xC2 ≤ UInt8.ofNat (a.val + 224) && UInt8.ofNat (a.val + 224) ≤ 0xDF) = true ∧
      (0xE0 ≤ UInt8.ofNat (a.val + 224) && UInt8.ofNat (a.val + 224) ≤ 0xEF) = true ∧
      (UInt8.ofNat (a.val + 224) &&& 0x0F).toNat = a.val := by
  revert a
  decide

/-- The first byte of a four-byte character. -/
theorem leadByte4 (a : Fin 5) :
    ¬ UInt8.ofNat (a.val + 240) < 0x80 ∧
      ¬ (0xC2 ≤ UInt8.ofNat (a.val + 240) && UInt8.ofNat (a.val + 240) ≤ 0xDF) = true ∧
      ¬ (0xE0 ≤ UInt8.ofNat (a.val + 240) && UInt8.ofNat (a.val + 240) ≤ 0xEF) = true ∧
      (0xF0 ≤ UInt8.ofNat (a.val + 240) && UInt8.ofNat (a.val + 240) ≤ 0xF4) = true ∧
      (UInt8.ofNat (a.val + 240) &&& 0x07).toNat = a.val := by
  revert a
  decide

/-- Behind `0xE0` there is no overlong form, behind `0xED` no surrogate. -/
theorem second3_encoded (a : Fin 16) (x : Fin 64) (hlong : a.val = 0 → 32 ≤ x.val)
    (hsurrogate : a.val = 13 → x.val < 32) :
    second3 (UInt8.ofNat (a.val + 224)) (UInt8.ofNat (x.val + 128)) = true := by
  revert a x
  decide +kernel

/-- Behind `0xF0` there is no overlong form, behind `0xF4` nothing beyond Unicode. -/
theorem second4_encoded (a : Fin 5) (x : Fin 64) (hlong : a.val = 0 → 16 ≤ x.val)
    (hlarge : a.val = 4 → x.val < 16) :
    second4 (UInt8.ofNat (a.val + 240)) (UInt8.ofNat (x.val + 128)) = true := by
  revert a x
  decide +kernel

/-- A code point in front of the surrogates or behind them. -/
theorem char_range (c : Char) :
    c.val.toNat < 0xD800 ∨ 0xDFFF < c.val.toNat ∧ c.val.toNat < 0x110000 :=
  c.valid

section Step

variable {b0 b1 b2 b3 : UInt8} (rest : Bytes)

theorem lossyStep_one (hlow : b0 < 0x80) : lossyStep b0 rest = (Char.ofNat b0.toNat, 0) := by
  simp only [lossyStep, if_pos hlow]

theorem lossyStep_two (hhigh : ¬ b0 < 0x80) (hlead : (0xC2 ≤ b0 && b0 ≤ 0xDF) = true)
    (h1 : isCont b1 = true) :
    lossyStep b0 (b1 :: rest) = (charOfBits (b0 &&& 0x1F).toNat [b1], 1) := by
  have hb1 : safeGet (b1 :: rest) 0 = b1 := rfl
  simp only [lossyStep, if_neg hhigh, if_pos hlead, hb1, if_pos h1]

theorem lossyStep_three (hhigh : ¬ b0 < 0x80) (htwo : ¬ (0xC2 ≤ b0 && b0 ≤ 0xDF) = true)
    (hlead : (0xE0 ≤ b0 && b0 ≤ 0xEF) = true) (h1 : second3 b0 b1 = true)
    (h2 : isCont b2 = true) :
    lossyStep b0 (b1 :: b2 :: rest) = (charOfBits (b0 &&& 0x0F).toNat [b1, b2], 2) := by
  have hb1 : safeGet (b1 :: b2 :: rest) 0 = b1 := rfl
  have hb2 : safeGet (b1 :: b2 :: rest) 1 = b2 := rfl
  simp only [lossyStep, if_neg hhigh, if_neg htwo, if_pos hlead, hb1, hb2, h1, if_pos h2,
    Bool.not_true, Bool.false_eq_true, if_false]

theorem lossyStep_four (hhigh : ¬ b0 < 0x80) (htwo : ¬ (0xC2 ≤ b0 && b0 ≤ 0xDF) = true)
    (hthree : ¬ (0xE0 ≤ b0 && b0 ≤ 0xEF) = true) (hlead : (0xF0 ≤ b0 && b0 ≤ 0xF4) = true)
    (h1 : second4 b0 b1 = true) (h2 : isCont b2 = true) (h3 : isCont b3 = true) :
    lossyStep b0 (b1 :: b2 :: b3 :: rest) = (charOfBits (b0 &&& 0x07).toNat [b1, b2, b3], 3) := by
  have hb1 : safeGet (b1 :: b2 :: b3 :: rest) 0 = b1 := rfl
  have hb2 : safeGet (b1 :: b2 :: b3 :: rest) 1 = b2 := rfl
  have hb3 : safeGet (b1 :: b2 :: b3 :: rest) 2 = b3 := rfl
  simp only [lossyStep, if_neg hhigh, if_neg htwo, if_neg hthree, if_pos hlead, hb1, hb2, hb3, h1,
    h2, if_pos h3, Bool.not_true, Bool.false_eq_true, if_false]

end Step

/-- One step of the lossy decoder takes exactly the bytes of a character. -/
theorem lossyStep_utf8EncodeChar (c : Char) (rest : Bytes) :
    ∃ b bs, String.utf8EncodeChar c = b :: bs ∧ lossyStep b (bs ++ rest) = (c, bs.length) := by
  have hrange := char_range c
  have hchar : Char.ofNat c.val.toNat = c := Char.ofNat_toNat c
  unfold String.utf8EncodeChar
  dsimp only
  generalize c.val.toNat = v at hrange hchar ⊢
  split_ifs with h1 h2 h3
  · refine ⟨_, _, rfl, ?_⟩
    have hval : (UInt8.ofNat v).toNat = v := UInt8.toNat_ofNat_of_lt (Nat.lt_of_le_of_lt h1 (by decide))
    have hlow : UInt8.ofNat v < 0x80 := by
      rw [UInt8.lt_iff_toNat_lt, hval]
      exact Nat.lt_succ_of_le h1
    rw [lossyStep_one _ hlow, hval, hchar, length_nil]
  · refine ⟨_, _, rfl, ?_⟩
    obtain ⟨hhigh, hlead, hbit⟩ := leadByte2 ⟨v / 64 % 32, by omega⟩ (by dsimp only; omega)
    obtain ⟨hcont, hlow⟩ := contByte ⟨v % 64, by omega⟩
    have hv : v / 64 % 32 * 64 + v % 64 = v := by omega
    refine (lossyStep_two rest hhigh hlead hcont).trans (Prod.ext ?_ rfl)
    simp only [charOfBits, foldl_cons, foldl_nil, hbit, hlow, hv, hchar]
  · refine ⟨_, _, rfl, ?_⟩
    obtain ⟨hhigh, htwo, hlead, hbit⟩ := leadByte3 ⟨v / 4096 % 16, by omega⟩
    obtain ⟨-, hlow1⟩ := contByte ⟨v / 64 % 64, by omega⟩
    obtain ⟨hcont, hlow2⟩ := contByte ⟨v % 64, by omega⟩
    have hsec := second3_encoded ⟨v / 4096 % 16, by omega⟩ ⟨v / 64 % 64, by omega⟩
      (by dsimp only; omega) (by dsimp only; omega)
    have hv : (v / 4096 % 16 * 64 + v / 64 % 64) * 64 + v % 64 = v := by omega
    refine (lossyStep_three rest hhigh htwo hlead hsec hcont).trans (Prod.ext ?_ rfl)
    simp only [charOfBits, foldl_cons, foldl_nil, hbit, hlow1, hlow2, hv, hchar]
  · refine ⟨_, _, rfl, ?_⟩
    have hlead : v / 262144 % 8 < 5 := by omega
    obtain ⟨hhigh, htwo, hthree, hlead, hbit⟩ := leadByte4 ⟨v / 262144 % 8, hlead⟩
    obtain ⟨-, hlow1⟩ := contByte ⟨v / 4096 % 64, by omega⟩
    obtain ⟨hcont2, hlow2⟩ := contByte ⟨v / 64 % 64, by omega⟩
    obtain ⟨hcont3, hlow3⟩ := contByte ⟨v % 64, by omega⟩
    have hsec := second4_encoded ⟨v / 262144 % 8, by omega⟩ ⟨v / 4096 % 64, by omega⟩
      (by dsimp only; omega) (by dsimp only; omega)
    have hv : ((v / 262144 % 8 * 64 + v / 4096 % 64) * 64 + v / 64 % 64) * 64 + v % 64 = v := by
      omega
    refine (lossyStep_four rest hhigh htwo hthree hlead hsec hcont2 hcont3).trans
      (Prod.ext ?_ rfl)
    simp only [charOfBits, foldl_cons, foldl_nil, hbit, hlow1, hlow2, hlow3, hv, hchar]

theorem lossyChars_skip (bs rest : Bytes) :
    lossyChars bs.length (bs ++ rest) = lossyChars 0 rest := by
  induction bs with
  | nil => rfl
  | cons b bs ih => exact ih

theorem lossyChars_utf8Encode (cs : List Char) :
    lossyChars 0 (cs.flatMap String.utf8EncodeChar) = cs := by
  induction cs with
  | nil => rfl
  | cons c cs ih =>
    obtain ⟨b, bs, hencode, hstep⟩ :=
      lossyStep_utf8EncodeChar c (cs.flatMap String.utf8EncodeChar)
    rw [flatMap_cons, hencode, cons_append, lossyChars, hstep, lossyChars_skip, ih]

/-- **The lossy decoder loses nothing of a string.** -/
theorem fromUtf8Lossy_stringBytes (s : String) : fromUtf8Lossy (stringBytes s) = s := by
  have hbytes : stringBytes s = s.toList.flatMap String.utf8EncodeChar := by
    obtain ⟨cs, rfl⟩ : ∃ cs, s = String.ofList cs := ⟨s.toList, String.ofList_toList.symm⟩
    simp [stringBytes, utf8Encode]
  rw [fromUtf8Lossy, hbytes, lossyChars_utf8Encode, String.ofList_toList]

/-! ## The encoder -/

/-- The type byte and the four fields of an acknowledgement. -/
def ackContent (msgType flags : UInt8) (topicId msgId : UInt16) (returnCode : UInt8) : Bytes :=
  msgType :: flags :: (beBytes 2 topicId.toNat ++ beBytes 2 msgId.toNat ++ [returnCode])

/-- The type byte, the three fields and what follows them. -/
def tailContent (msgType flags : UInt8) (topicId msgId : UInt16) (tail : Bytes) : Bytes :=
  msgType :: flags :: (beBytes 2 topicId.toNat ++ beBytes 2 msgId.toNat ++ tail)

/-- The type byte and the body of a packet, if the gateway sends packets of its kind. -/
def snContent : SnPacket → Option Bytes
  | .connack returnCode => some [0x05, returnCode]
  | .regack flags topicId msgId returnCode =>
    some (ackContent 0x0B flags topicId msgId returnCode)
  | .suback flags topicId msgId returnCode =>
    some (ackContent 0x12 flags topicId msgId returnCode)
  | .puback flags topicId msgId returnCode =>
    some (ackContent 0x0D flags topicId msgId returnCode)
  | .unsuback msgId => some (0x14 :: beBytes 2 msgId.toNat)
  | .pingresp => some [0x16]
  | .disconnect none => some [0x17]
  | .disconnect (some duration) => some (0x17 :: beBytes 2 duration.toNat)
  | .publish flags topicId msgId data => some (tailContent 0x0C flags topicId msgId data)
  | .register flags topicId msgId topicName =>
    some (tailContent 0x0A flags topicId msgId (stringBytes topicName))
  | .connect .. | .subscribe .. | .unsubscribe .. | .pingreq | .unknown _ => none

/-- Put the length in front of a content: its placeholder counts as one byte, the long form as
    three. The length of the long form is cast to 16 bits. -/
def snFrame (content : Bytes) : Bytes :=
  let total := 1 + content.length
  if total ≤ 0xFF then UInt8.ofNat total :: content
  else 0x01 :: (beBytes 2 (UInt16.ofNat (total + 2)).toNat ++ content)

/-- Encode a packet; a packet that the gateway does not send has no bytes. -/
def encodePacket (packet : SnPacket) : Bytes :=
  match snContent packet with
  | some content => snFrame content
  | none => []

/-! ## The length field -/

/-- The size of the length field. -/
def lengthField (buf : Bytes) : Nat := if buf.getD 0 0 ≠ 0x01 then 1 else 3

/-- The length a datagram declares. -/
def declaredLength (buf : Bytes) : Nat :=
  if buf.getD 0 0 ≠ 0x01 then (buf.getD 0 0).toNat else (u16At buf 1).toNat

/-- A header is accepted if the datagram goes on after it and is not shorter than declared. -/
theorem snHeader_ok_iff {rest : Bytes} : snHeader buf = .ok rest ↔
      lengthField buf < buf.length ∧ declaredLength buf ≤ buf.length ∧
        rest = buf.drop (lengthField buf) := by
  unfold snHeader lengthField declaredLength
  by_cases hform : buf.getD 0 0 ≠ 0x01
  · rw [if_pos hform, if_pos hform, if_pos hform]
    by_cases hshort : buf.length < 2
    · rw [if_pos hshort]
      simp only [reduceCtorEq, false_iff]
      omega
    · rw [if_neg hshort]
      by_cases hlen : buf.length < (buf.getD 0 0).toNat
      · rw [if_pos hlen]
        simp only [reduceCtorEq, false_iff]
        omega
      · rw [if_neg hlen, Except.ok.injEq, eq_comm]
        exact ⟨fun h => ⟨by omega, by omega, h⟩, fun h => h.2.2⟩
  · rw [if_neg hform, if_neg hform, if_neg hform]
    by_cases hshort : buf.length < 4
    · rw [if_pos hshort]
      by_cases hsmall : buf.length < 2
      · rw [if_pos hsmall]
        simp only [reduceCtorEq, false_iff]
        omega
      · rw [if_neg hsmall]
        simp only [reduceCtorEq, false_iff]
        omega
    · rw [if_neg (by omega : ¬ buf.length < 2), if_neg hshort]
      by_cases hlen : buf.length < (u16At buf 1).toNat
      · rw [if_pos hlen]
        simp only [reduceCtorEq, false_iff]
        omega
      · rw [if_neg hlen, Except.ok.injEq, eq_comm]
        exact ⟨fun h => ⟨by omega, by omega, h⟩, fun h => h.2.2⟩

/-- A datagram is a packet if its header is accepted and its body parses. -/
theorem parsePacket_ok_iff : parsePacket buf = .ok packet ↔
      lengthField buf < buf.length ∧ declaredLength buf ≤ buf.length ∧
        parseSnBody (buf.getD (lengthField buf) 0) (buf.drop (lengthField buf + 1)) =
          .ok packet := by
  have hparse : parsePacket buf = .ok packet ↔ ∃ msgType body,
      snHeader buf = .ok (msgType :: body) ∧ parseSnBody msgType body = .ok packet := by
    rw [parsePacket]
    rcases snHeader buf with e | (- | ⟨msgType, body⟩) <;> simp [bind, Except.bind]
  refine hparse.trans ⟨?_, ?_⟩
  · rintro ⟨msgType, body, hheader, hbody⟩
    obtain ⟨hlt, hle, hdrop⟩ := snHeader_ok_iff.mp hheader
    have hget : buf.getD (lengthField buf) 0 = msgType := by
      rw [getD_eq_getElem?_getD, ← head?_drop, ← hdrop]
      rfl
    have htail : buf.drop (lengthField buf + 1) = body := by
      rw [← tail_drop, ← hdrop, tail_cons]
    exact ⟨hlt, hle, by rw [hget, htail]; exact hbody⟩
  · rintro ⟨hlt, hle, hbody⟩
    refine ⟨_, _, snHeader_ok_iff.mpr ⟨hlt, hle, ?_⟩, hbody⟩
    rw [drop_eq_getElem_cons hlt, getD_eq_getElem?_getD, getElem?_eq_getElem hlt,
      Option.getD_some]

/-! ## What is sent is what is received -/

/-- What follows the fixed fields of a packet. -/
def SnPacket.tail : SnPacket → Bytes
  | .publish _ _ _ data => data
  | .register _ _ _ topicName => stringBytes topicName
  | _ => []

/-- A frame declares its own size, and the parser reads the packet back from it. -/
structure Faithful (packet : SnPacket) : Prop where
  declared : declaredLength (encodePacket packet) = (encodePacket packet).length
  received : parsePacket (encodePacket packet) = .ok packet

theorem u16At_beBytes (front : Bytes) (v : UInt16) (rest : Bytes) :
    u16At (front ++ (beBytes 2 v.toNat ++ rest)) front.length = v := by
  have hpair : beBytes 2 v.toNat =
      [UInt8.ofNat (v.toNat / 256 ^ 1), UInt8.ofNat (v.toNat / 256 ^ 0)] := rfl
  have hread := u16FromBeBytes_beBytes v
  rw [hpair] at hread ⊢
  rw [u16At, getD_eq_getElem?_getD, getElem?_append_right (Nat.le_refl _),
    getD_eq_getElem?_getD, getElem?_append_right (Nat.le_add_right _ 1), Nat.sub_self,
    Nat.add_sub_cancel_left]
  exact hread

theorem u16At_first (flags : UInt8) (v : UInt16) (rest : Bytes) :
    u16At (flags :: (beBytes 2 v.toNat ++ rest)) 1 = v :=
  u16At_beBytes [flags] v rest

theorem u16At_second (flags : UInt8) (v w : UInt16) (rest : Bytes) :
    u16At (flags :: (beBytes 2 v.toNat ++ (beBytes 2 w.toNat ++ rest))) 3 = w := by
  have h := u16At_beBytes (flags :: beBytes 2 v.toNat) w rest
  rwa [length_cons, length_beBytes, cons_append] at h

/-- A body of flags, two identifiers and a tail, as the parser takes it apart. -/
theorem body_fields (flags : UInt8) (v w : UInt16) (tail : Bytes) :
    let body := flags :: (beBytes 2 v.toNat ++ beBytes 2 w.toNat ++ tail)
    body.length = 5 + tail.length ∧ body.getD 0 0 = flags ∧ u16At body 1 = v ∧ u16At body 3 = w ∧
      body.drop 5 = tail := by
  dsimp only
  rw [append_assoc]
  refine ⟨?_, rfl, u16At_first flags v _, u16At_second flags v w tail, ?_⟩
  · simp only [length_cons, length_append, length_beBytes]
    omega
  · rfl

theorem parseAck_ackContent (name : String)
    (make : UInt8 → UInt16 → UInt16 → UInt8 → SnPacket) (flags : UInt8) (topicId msgId : UInt16)
    (returnCode : UInt8) :
    parseAck name make (flags :: (beBytes 2 topicId.toNat ++ beBytes 2 msgId.toNat ++ [returnCode])) =
      .ok (make flags topicId msgId returnCode) := by
  obtain ⟨hlen, hflag, htop, hmsg, -⟩ := body_fields flags topicId msgId [returnCode]
  rw [parseAck, if_neg (by rw [hlen, length_singleton]; omega), hflag, htop, hmsg]
  rfl

/-- The parser reads back the content of every packet that is sent. -/
theorem parseSnBody_snContent (h : snContent packet = some content) :
    ∃ msgType body, content = msgType :: body ∧ parseSnBody msgType body = .ok packet := by
  cases packet with
  | connack returnCode => cases h; exact ⟨_, _, rfl, rfl⟩
  | pingresp => cases h; exact ⟨_, _, rfl, rfl⟩
  | regack flags topicId msgId returnCode =>
    cases h
    exact ⟨_, _, rfl, parseAck_ackContent _ _ flags topicId msgId returnCode⟩
  | suback flags topicId msgId returnCode =>
    cases h
    exact ⟨_, _, rfl, parseAck_ackContent _ _ flags topicId msgId returnCode⟩
  | puback flags topicId msgId returnCode =>
    cases h
    exact ⟨_, _, rfl, parseAck_ackContent _ _ flags topicId msgId returnCode⟩
  | unsuback msgId =>
    cases h
    exact ⟨_, _, rfl, congrArg (Except.ok ∘ SnPacket.unsuback) (u16At_beBytes [] msgId [])⟩
  | disconnect duration =>
    cases duration with
    | none => cases h; exact ⟨_, _, rfl, rfl⟩
    | some d =>
      cases h
      exact ⟨_, _, rfl,
        congrArg (fun d => Except.ok (SnPacket.disconnect (some d))) (u16At_beBytes [] d [])⟩
  | publish flags topicId msgId data =>
    cases h
    obtain ⟨hlen, hflag, htop, hmsg, htail⟩ := body_fields flags topicId msgId data
    refine ⟨_, _, rfl, ?_⟩
    rw [parseSnBody, if_neg (by rw [hlen]; omega), hflag, htop, hmsg, htail]
  | register flags topicId msgId topicName =>
    cases h
    obtain ⟨hlen, hflag, htop, hmsg, htail⟩ :=
      body_fields flags topicId msgId (stringBytes topicName)
    refine ⟨_, _, rfl, ?_⟩
    rw [parseSnBody, if_neg (by rw [hlen]; omega), hflag, htop, hmsg, htail,
      fromUtf8Lossy_stringBytes]
  | connect | subscribe | unsubscribe | pingreq | unknown => cases h

/-- The frame of a content: what stands behind the length field, and the length as declared, which
    is the size of the frame modulo 2 ^ 16. -/
theorem snFrame_spec (hne : 0 < content.length) :
    lengthField (snFrame content) = (if 1 + content.length ≤ 0xFF then 1 else 3) ∧
      (snFrame content).drop (lengthField (snFrame content)) = content ∧
      (snFrame content).length = lengthField (snFrame content) + content.length ∧
      declaredLength (snFrame content) = (snFrame content).length % 65536 := by
  by_cases hshort : 1 + content.length ≤ 0xFF
  · have hframe : snFrame content = UInt8.ofNat (1 + content.length) :: content := if_pos hshort
    have hbyte : (UInt8.ofNat (1 + content.length)).toNat = 1 + content.length :=
      UInt8.toNat_ofNat_of_lt (Nat.lt_succ_of_le hshort)
    have hform : (snFrame content).getD 0 0 ≠ 0x01 := by
      rw [hframe]
      intro h
      have htotal : 1 + content.length = 1 := hbyte.symm.trans (congrArg UInt8.toNat h)
      omega
    rw [lengthField, if_pos hform, declaredLength, if_pos hform, hframe]
    refine ⟨(if_pos hshort).symm, rfl, Nat.add_comm _ _, ?_⟩
    rw [length_cons, getD_cons_zero, hbyte]
    omega
  · have hframe : snFrame content =
        0x01 :: (beBytes 2 (UInt16.ofNat (1 + content.length + 2)).toNat ++ content) :=
      if_neg hshort
    have hform : ¬ (snFrame content).getD 0 0 ≠ 0x01 := by
      rw [hframe]
      exact fun h => h rfl
    have hlen : (snFrame content).length = 3 + content.length := by
      rw [hframe, length_cons, length_append, length_beBytes]
      omega
    rw [lengthField, if_neg hform, declaredLength, if_neg hform, hlen]
    refine ⟨(if_neg hshort).symm, ?_, rfl, ?_⟩
    · rw [hframe]
      rfl
    · rw [hframe, u16At_first, UInt16.toNat_ofNat']
      congr 1
      omega

/-- The size of the frame of a packet that is sent. -/
theorem length_snContent (h : snContent packet = some content) :
    0 < content.length ∧ (content.length < 0xFF ∧ packet.tail = [] ∨
      content.length = 6 + packet.tail.length) := by
  cases packet with
  | publish | register =>
    cases h
    refine ⟨Nat.succ_pos _, .inr ?_⟩
    simp only [tailContent, length_cons, length_append, length_beBytes, SnPacket.tail]
    omega
  | disconnect duration =>
    cases duration <;> cases h <;> exact ⟨Nat.succ_pos _, .inl ⟨by simp, rfl⟩⟩
  | connack | pingresp | unsuback => cases h; exact ⟨Nat.succ_pos _, .inl ⟨by simp, rfl⟩⟩
  | regack | suback | puback =>
    cases h
    exact ⟨Nat.succ_pos _, .inl ⟨by simp [ackContent], rfl⟩⟩
  | connect | subscribe | unsubscribe | pingreq | unknown => cases h

/-- Whatever its size, what is sent is what is received; the frame declares its own size as long as
    that fits in 16 bits. -/
theorem encodePacket_spec (h : snContent packet = some content) :
    parsePacket (encodePacket packet) = .ok packet ∧
      declaredLength (encodePacket packet) = (encodePacket packet).length % 65536 ∧
      ((encodePacket packet).length < 65536 ↔ packet.tail.length ≤ 65526) := by
  obtain ⟨hpos, hsize⟩ := length_snContent h
  obtain ⟨hfield, hdrop, hlen, hdec⟩ := snFrame_spec hpos
  obtain ⟨msgType, body, rfl, hbody⟩ := parseSnBody_snContent h
  have hencode : encodePacket packet = snFrame (msgType :: body) := by rw [encodePacket, h]
  rw [hencode]
  refine ⟨parsePacket_ok_iff.mpr ⟨by omega, by omega, ?_⟩, hdec, ?_⟩
  · have htype : (snFrame (msgType :: body)).getD (lengthField (snFrame (msgType :: body))) 0 =
        msgType := by
      rw [getD_eq_getElem?_getD, ← head?_drop, hdrop]
      rfl
    rw [htype, ← tail_drop, hdrop, tail_cons]
    exact hbody
  · rw [hlen, hfield]
    rcases hsize with ⟨hsmall, htail⟩ | hsize
    · rw [htail, length_nil]
      split_ifs <;> omega
    · split_ifs <;> omega

/-- **A packet is sent faithfully as long as its frame fits in 16 bits.** Only the data of a PUBLISH
    and the name of a REGISTER can be too long for that: then the frame declares its size modulo
    2 ^ 16. -/
theorem faithful_iff {packet : SnPacket} (hsent : (snContent packet).isSome) :
    Faithful packet ↔ packet.tail.length ≤ 65526 := by
  obtain ⟨content, h⟩ := Option.isSome_iff_exists.mp hsent
  obtain ⟨hparse, hdeclared, hsize⟩ := encodePacket_spec h
  rw [← hsize]
  constructor
  · intro hfaithful
    rw [← hfaithful.declared, hdeclared]
    exact Nat.mod_lt _ (by decide)
  · intro hlt
    exact ⟨hdeclared.trans (Nat.mod_eq_of_lt hlt), hparse⟩

/-- A PUBLISH of one byte. -/
theorem faithful_publish :
    (snContent (.publish 0 1 0 [0x78])).isSome ∧ Faithful (.publish 0 1 0 [0x78]) :=
  ⟨rfl, (faithful_iff rfl).mpr (by decide)⟩

/-- A payload within the packet size of the default configuration: the frame has 2 ^ 16 bytes and
    declares none. -/
theorem publish_declares_zero :
    (List.replicate 65527 (0 : UInt8)).length ≤ ({} : BrokerConfig).maxPacketSize ∧
      (encodePacket (.publish 0 1 0 (List.replicate 65527 0))).length = 65536 ∧
      declaredLength (encodePacket (.publish 0 1 0 (List.replicate 65527 0))) = 0 := by
  have hsize : (replicate 65527 (0 : UInt8)).length = 65527 := length_replicate
  generalize replicate 65527 (0 : UInt8) = data at hsize ⊢
  have hcontent : (tailContent 0x0C 0 1 0 data).length = 65533 := by
    simp only [tailContent, length_cons, length_append, length_beBytes, hsize]
  obtain ⟨hfield, -, hlen, hdeclared⟩ :=
    snFrame_spec (show 0 < (tailContent 0x0C 0 1 0 data).length by omega)
  have hframe : encodePacket (.publish 0 1 0 data) = snFrame (tailContent 0x0C 0 1 0 data) := rfl
  rw [hcontent, if_neg (by decide)] at hfield
  rw [hfield, hcontent] at hlen
  rw [hlen] at hdeclared
  rw [hframe, hsize]
  exact ⟨by decide, hlen, hdeclared⟩

/-! ## What is read of a datagram -/

/-- How many bytes of a body its packet is made of. -/
def bodyReads (msgType : UInt8) (body : Bytes) : Nat :=
  match msgType with
  | 0x04 | 0x0A | 0x0C | 0x11 | 0x13 => body.length
  | 0x05 => 1
  | 0x0B | 0x0D | 0x12 => 6
  | 0x14 => 2
  | 0x17 => if 2 ≤ body.length then 2 else 0
  | _ => 0

/-- How many bytes of a datagram its packet is made of. -/
def datagramReads (buf : Bytes) : Nat :=
  lengthField buf + 1 +
    bodyReads (buf.getD (lengthField buf) 0) (buf.drop (lengthField buf + 1))

theorem getD_take {bs : Bytes} {i : Nat} (h : i < n) : (bs.take n).getD i 0 = bs.getD i 0 := by
  rw [getD_eq_getElem?_getD, getD_eq_getElem?_getD, getElem?_take_of_lt h]

theorem u16At_take {bs : Bytes} {i : Nat} (h : i + 1 < n) : u16At (bs.take n) i = u16At bs i := by
  rw [u16At, u16At, getD_take h, getD_take (Nat.lt_of_succ_lt h)]

theorem parseAck_take {name : String} {make : UInt8 → UInt16 → UInt16 → UInt8 → SnPacket}
    (h : parseAck name make body = .ok packet) :
    parseAck name make (body.take n) = .ok packet ↔ 6 ≤ n := by
  unfold parseAck at h ⊢
  split_ifs at h with hshort
  rw [length_take]
  constructor
  · intro hcut
    split_ifs at hcut with hlen
    omega
  · intro hn
    rw [if_neg (by omega), getD_take (by omega), getD_take (by omega), u16At_take (by omega),
      u16At_take (by omega)]
    exact h

/-- The bytes that a packet is not made of do not matter. -/
theorem parseSnBody_take {msgType : UInt8} (h : parseSnBody msgType body = .ok packet)
    (hn : bodyReads msgType body ≤ n) : parseSnBody msgType (body.take n) = .ok packet := by
  by_cases hall : body.length ≤ n
  · rw [take_of_length_le hall]
    exact h
  have hlen : (body.take n).length = n := length_take_of_le (Nat.le_of_not_le hall)
  unfold parseSnBody at h ⊢
  split at h
  -- a packet with a tail is made of its whole body
  case h_1 | h_3 | h_5 | h_7 | h_9 => exact absurd hn hall
  case h_4 | h_6 | h_8 => exact (parseAck_take h).mpr hn
  case h_2 =>
    replace hn : 1 ≤ n := hn
    have hne : body.take n ≠ [] := fun hnil => by
      rw [hnil] at hlen
      exact absurd hn (by rw [← hlen]; decide)
    split_ifs at h
    rw [if_neg hne, getD_take hn]
    exact h
  case h_10 =>
    replace hn : 2 ≤ n := hn
    split_ifs at h
    rw [hlen, if_neg (Nat.not_lt.mpr hn), u16At_take hn]
    exact h
  case h_13 =>
    have hreads : bodyReads 0x17 body = if 2 ≤ body.length then 2 else 0 := rfl
    rw [hreads] at hn
    rw [hlen, ← h]
    by_cases htwo : 2 ≤ body.length
    · rw [if_pos htwo] at hn ⊢
      rw [if_pos hn, u16At_take hn]
    · rw [if_neg htwo, if_neg (by omega)]
  all_goals exact h

/-- The bytes that a packet is made of do matter, unless they are text: there the start of a
    character may read as the character does. -/
theorem bodyReads_le_of_take {msgType : UInt8} (h : parseSnBody msgType body = .ok packet)
    (hconn : msgType ≠ 0x04) (hreg : msgType ≠ 0x0A)
    (hcut : parseSnBody msgType (body.take n) = .ok packet) : bodyReads msgType body ≤ n := by
  have hdrop : ∀ k, (body.take n).drop k = body.drop k → k ≤ (body.take n).length →
      body.length ≤ n := by
    intro k hk hle
    have hlen := congrArg length hk
    rw [length_drop, length_drop] at hlen
    rw [length_take] at hlen hle
    omega
  revert hcut
  unfold parseSnBody at h ⊢
  split at h <;> intro hcut
  case h_1 => exact absurd rfl hconn
  case h_3 => exact absurd rfl hreg
  case h_4 | h_6 | h_8 => exact (parseAck_take h).mp hcut
  case h_5 =>
    split_ifs at h hcut with hlong hshort
    cases h
    injection hcut with hcut
    injection hcut with _ _ _ htail
    exact hdrop 5 htail (Nat.le_of_not_lt hshort)
  case h_7 | h_9 =>
    split_ifs at h hcut with hlong hshort
    cases h
    injection hcut with hcut
    injection hcut with _ _ htail
    exact hdrop 3 htail (Nat.le_of_not_lt hshort)
  case h_2 =>
    split_ifs at h hcut with hlong hshort
    refine Nat.pos_of_ne_zero fun hn => hshort ?_
    rw [hn, take_zero]
  case h_10 =>
    split_ifs at h hcut with hlong hshort
    rw [length_take] at hshort
    show 2 ≤ n
    omega
  case h_13 =>
    cases h
    show (if 2 ≤ body.length then 2 else 0) ≤ n
    by_cases htwo : 2 ≤ body.length
    · rw [if_pos htwo] at hcut ⊢
      split_ifs at hcut with hlong
      · rw [length_take] at hlong
        omega
      · cases hcut
    · rw [if_neg htwo]
      exact Nat.zero_le n
  case h_11 | h_12 => exact Nat.zero_le n
  case h_14 => simp [bodyReads, *]

/-- A datagram keeps to its length: that covers the header, is there, and what lies behind it does
    not matter. -/
structure RespectsLength (buf : Bytes) : Prop where
  header : lengthField buf + 1 ≤ declaredLength buf
  there : declaredLength buf ≤ buf.length
  cut : parsePacket buf = parsePacket (buf.take (declaredLength buf))

/-- Cutting a datagram behind its header leaves the length field. -/
theorem lengthField_take (h : 0 < n) : lengthField (buf.take n) = lengthField buf := by
  rw [lengthField, lengthField, getD_take h]

theorem declaredLength_take (h : lengthField buf < n) :
    declaredLength (buf.take n) = declaredLength buf := by
  unfold lengthField at h
  unfold declaredLength
  by_cases hform : buf.getD 0 0 ≠ 0x01
  · rw [if_pos hform] at h
    rw [getD_take (by omega), if_pos hform, if_pos hform]
  · rw [if_neg hform] at h
    rw [getD_take (by omega), if_neg hform, if_neg hform, u16At_take (by omega)]

/-- A packet of a datagram cut to its length is one of the body cut to the rest of it. -/
theorem parsePacket_cut (hheader : lengthField buf + 1 ≤ declaredLength buf)
    (hthere : declaredLength buf ≤ buf.length) (packet : SnPacket) :
    parsePacket (buf.take (declaredLength buf)) = .ok packet ↔
      parseSnBody (buf.getD (lengthField buf) 0)
        ((buf.drop (lengthField buf + 1)).take (declaredLength buf - (lengthField buf + 1))) =
          .ok packet := by
  rw [parsePacket_ok_iff, lengthField_take (by omega), declaredLength_take hheader,
    length_take_of_le hthere, getD_take hheader, drop_take]
  exact ⟨fun h => h.2.2, fun h => ⟨hheader, Nat.le_refl _, h⟩⟩

/-- **A datagram whose packet lies within the declared length is read as far as that.** Where the
    packet ends in bytes and not in text, no other datagram is. -/
theorem respectsLength_iff_reads {buf : Bytes} {packet : SnPacket}
    (h : parsePacket buf = .ok packet) :
    (datagramReads buf ≤ declaredLength buf → RespectsLength buf) ∧
      (RespectsLength buf → buf.getD (lengthField buf) 0 ≠ 0x04 →
        buf.getD (lengthField buf) 0 ≠ 0x0A → datagramReads buf ≤ declaredLength buf) := by
  obtain ⟨-, hthere, hbody⟩ := parsePacket_ok_iff.mp h
  unfold datagramReads
  constructor
  · intro hreads
    have hheader : lengthField buf + 1 ≤ declaredLength buf := by omega
    refine ⟨hheader, hthere, h.trans (Eq.symm ?_)⟩
    exact (parsePacket_cut hheader hthere packet).mpr (parseSnBody_take hbody (by omega))
  · intro hrespects hconnect hregister
    have hcut := (parsePacket_cut hrespects.header hthere packet).mp (hrespects.cut.symm.trans h)
    have hle := bodyReads_le_of_take hbody hconnect hregister hcut
    have hheader := hrespects.header
    omega

/-- A PUBLISH that ends where its length says. -/
theorem respectsLength_publish :
    parsePacket [8, 0x0C, 0, 0, 1, 0, 0, 0x78] = .ok (.publish 0 1 0 [0x78]) ∧
      RespectsLength [8, 0x0C, 0, 0, 1, 0, 0, 0x78] :=
  ⟨rfl, (respectsLength_iff_reads rfl).1 (by decide)⟩

/-- A byte behind the declared length becomes the payload, and a length of 0 is accepted. -/
theorem surplus_byte_becomes_payload :
    parsePacket [7, 0x0C, 0, 0, 1, 0, 0, 0x78] = .ok (.publish 0 1 0 [0x78]) ∧
      declaredLength [7, 0x0C, 0, 0, 1, 0, 0, 0x78] = 7 ∧
      parsePacket ([7, 0x0C, 0, 0, 1, 0, 0, 0x78].take 7) = .ok (.publish 0 1 0 []) ∧
      parsePacket [0, 0x15] = .ok .pingreq ∧ declaredLength [0, 0x15] = 0 :=
  ⟨rfl, by decide, rfl, rfl, by decide⟩

end LumenMQ
