import Mathlib.Tactic.SplitIfs
import LumenMQ.Codec.V3

set_option autoImplicit false

/-! # CONNECT property segments

`parseConnectProperties` walks over a property segment and skips every value by a table of its own.
This file says which byte strings it accepts: those that can be cut into whole properties in the
layout of that table (`Segment`). It then compares that table with the one of MQTT 5.0
(`Property`): a standard segment is read as meant exactly when its bytes can also be cut in the
source's layout with the same session expiry interval, which is always so when no property has one
of the nine identifiers the two tables disagree on. -/

namespace LumenMQ

open List ConnectProperties Varint

open Reader

/-! ## The layouts the source reads -/

/-- Shapes of a property value on the wire. -/
inductive Layout where
  | byte
  | twoByte
  | fourByte
  | varInt
  | stringOrBinary
  | stringPair
deriving DecidableEq, Repr

namespace Layout

/-- The byte strings that are one whole value of a layout. -/
def Holds : Layout → Bytes → Prop
  | .byte, bs => bs.length = 1
  | .twoByte, bs => bs.length = 2
  | .fourByte, bs => bs.length = 4
  | .varInt, bs => IsForm bs ∧ bs.length ≤ 4
  | .stringOrBinary, bs => ∃ raw : Bytes, raw.length ≤ 65535 ∧ bs = lengthPrefixed raw
  | .stringPair, bs => ∃ key val : Bytes, key.length ≤ 65535 ∧ val.length ≤ 65535 ∧
      bs = lengthPrefixed key ++ lengthPrefixed val

/-- Skip one value. -/
def skip : Layout → Parse Unit
  | .byte => do let _ ← readU8; pure ()
  | .twoByte => do let _ ← readU16; pure ()
  | .fourByte => do let _ ← readBytes 4; pure ()
  | .varInt => do let _ ← readVbi; pure ()
  | .stringOrBinary => skipStringOrBinary
  | .stringPair => skipStringPair

theorem skipStringOrBinary_reads {raw : Bytes} (h : raw.length ≤ 65535) :
    Reads skipStringOrBinary (lengthPrefixed raw) () := by
  have hlen : (UInt16.ofNat raw.length).toNat = raw.length := by
    rw [UInt16.toNat_ofNat']
    omega
  have hu16 := readU16_reads (UInt16.ofNat raw.length)
  rw [hlen] at hu16
  exact hu16.bind (skip_reads hlen.symm)

theorem skip_reads {l : Layout} {bs : Bytes} (h : l.Holds bs) : Reads l.skip bs () := by
  cases l with
  | byte =>
    obtain ⟨b, rfl⟩ := length_eq_one_iff.mp h
    exact (readU8_reads b).bind_nil (Reads.pure ())
  | twoByte =>
    have hbytes := beBytes_ofBeBytes bs
    have hlt := ofBeBytes_lt bs
    simp only [Holds] at h
    rw [h] at hbytes hlt
    have hv : (UInt16.ofNat (ofBeBytes bs)).toNat = ofBeBytes bs := by
      rw [UInt16.toNat_ofNat']
      exact Nat.mod_eq_of_lt hlt
    have hu16 := readU16_reads (UInt16.ofNat (ofBeBytes bs))
    rw [hv, hbytes] at hu16
    exact hu16.bind_nil (Reads.pure ())
  | fourByte => exact (readBytes_reads h).bind_nil (Reads.pure ())
  | varInt => exact (readVbi_reads h.1 h.2).bind_nil (Reads.pure ())
  | stringOrBinary =>
    obtain ⟨raw, hraw, rfl⟩ := h
    exact skipStringOrBinary_reads hraw
  | stringPair =>
    obtain ⟨key, val, hkey, hval, rfl⟩ := h
    exact (skipStringOrBinary_reads hkey).bind (skipStringOrBinary_reads hval)

theorem skipStringOrBinary_consumes :
    Consumes skipStringOrBinary
      (fun bs _ => ∃ raw : Bytes, raw.length ≤ 65535 ∧ bs = lengthPrefixed raw) := by
  refine (readU16_consumes.bind fun len => skip_consumes len.toNat).mono ?_
  rintro _ _ ⟨len, bs1, raw, rfl, rfl, hlen⟩
  have hlt := len.toNat_lt
  exact ⟨raw, by omega, by rw [lengthPrefixed, hlen]⟩

theorem skip_consumes (l : Layout) : Consumes l.skip (fun bs _ => l.Holds bs) := by
  -- the fixed-size layouts read a value and drop it
  have drop : ∀ {β : Type} {p : Parse β} {Q : Bytes → β → Prop}, Consumes p Q →
      Consumes (do let _ ← p; pure ()) (fun bs _ => ∃ a, Q bs a) := by
    intro β p Q hp
    refine (hp.bind fun _ => Consumes.pure ()).mono ?_
    rintro _ _ ⟨a, bs1, bs2, rfl, hQ, rfl, -⟩
    exact ⟨a, by rwa [append_nil]⟩
  cases l with
  | byte =>
    refine (drop readU8_consumes).mono ?_
    rintro _ _ ⟨b, rfl⟩
    rfl
  | twoByte =>
    refine (drop readU16_consumes).mono ?_
    rintro _ _ ⟨v, rfl⟩
    exact length_beBytes 2 v.toNat
  | fourByte =>
    refine (drop (readBytes_consumes 4)).mono ?_
    rintro _ _ ⟨raw, rfl, hlen⟩
    exact hlen
  | varInt =>
    refine (drop readVbi_consumes).mono ?_
    rintro bs _ ⟨n, hform, hlen, -⟩
    exact ⟨hform, hlen⟩
  | stringOrBinary => exact skipStringOrBinary_consumes
  | stringPair =>
    refine (skipStringOrBinary_consumes.bind fun _ => skipStringOrBinary_consumes).mono ?_
    rintro _ _ ⟨-, bs1, bs2, rfl, ⟨key, hkey, rfl⟩, val, hval, rfl⟩
    exact ⟨key, val, hkey, hval, rfl⟩

end Layout

/-- The layout `skipPropertyValue` gives an identifier. -/
def sourceLayout (id : Nat) : Option Layout :=
  if id ∈ [0x01, 0x17, 0x19, 0x22, 0x23, 0x26, 0x27, 0x28] then some .byte
  else if id ∈ [0x13, 0x1E, 0x1F, 0x21] then some .twoByte
  else if id ∈ [0x02, 0x11, 0x18, 0x25] then some .fourByte
  else if id ∈ [0x0B] then some .varInt
  else if id ∈ [0x03, 0x08, 0x0C, 0x12, 0x15, 0x1A, 0x1C, 0x1D, 0x09, 0x16] then
    some .stringOrBinary
  else if id ∈ [0x24] then some .stringPair
  else none

theorem skipPropertyValue_eq (id : Nat) :
    skipPropertyValue id = match sourceLayout id with
      | some l => l.skip
      | none => throw (.malformedBody s!"unknown mqtt5 property id 0x{hex02 id}") := by
  have hlist : id ∈ [0x03, 0x08, 0x0C, 0x12, 0x15, 0x1A, 0x1C, 0x1D, 0x09, 0x16] ↔
      id ∈ [0x03, 0x08, 0x0C, 0x12, 0x15, 0x1A, 0x1C, 0x1D] ∨ id ∈ [0x09, 0x16] := by
    rw [← mem_append]
    rfl
  unfold skipPropertyValue sourceLayout
  simp only [hlist]
  split_ifs with h1 h2 h3 h4 h5 h6 h7 h8 h9 <;> first | rfl | tauto

theorem skipPropertyValue_reads {id : Nat} {l : Layout} {bs : Bytes} (hl : sourceLayout id = some l)
    (hv : l.Holds bs) : Reads (skipPropertyValue id) bs () := by
  rw [skipPropertyValue_eq, hl]
  exact Layout.skip_reads hv

theorem skipPropertyValue_consumes (id : Nat) :
    Consumes (skipPropertyValue id) (fun bs _ => ∃ l, sourceLayout id = some l ∧ l.Holds bs) := by
  rw [skipPropertyValue_eq]
  cases hl : sourceLayout id with
  | none => exact Consumes.throw _ _
  | some l => exact (Layout.skip_consumes l).mono fun bs _ h => ⟨l, rfl, h⟩

/-! ## Segments -/

/-- One whole property in the source's layout: an identifier in any form of at most four bytes, and
    a value of the layout the source gives that identifier. -/
structure Segment where
  idBytes : Bytes
  value : Bytes
  idForm : Varint.IsForm idBytes ∧ idBytes.length ≤ 4
  valueForm : ∃ l, sourceLayout (Varint.value idBytes) = some l ∧ l.Holds value

namespace Segment

def bytes (s : Segment) : Bytes := s.idBytes ++ s.value

/-- The session expiry interval a segment sets, if it is one. -/
def sessionExpiry? (s : Segment) : Option UInt32 :=
  if Varint.value s.idBytes = PropId.sessionExpiryInterval then some (u32FromBeBytes s.value)
  else none

/-- The value of the last session expiry interval of a list. -/
def lastSessionExpiry (ss : List Segment) : Option UInt32 :=
  (ss.filterMap sessionExpiry?).getLast?

theorem bytes_ne_nil (s : Segment) : 0 < s.bytes.length := by
  have := length_pos_of_ne_nil s.idForm.1.ne_nil
  rw [bytes, length_append]
  omega

theorem value_length_of_expiry {s : Segment}
    (h : Varint.value s.idBytes = PropId.sessionExpiryInterval) : s.value.length = 4 := by
  obtain ⟨l, hl, hv⟩ := s.valueForm
  rw [h] at hl
  cases hl
  exact hv

end Segment

/-- The properties after one more segment. -/
def ConnectProperties.note (props : ConnectProperties) (s : Segment) : ConnectProperties :=
  ⟨s.sessionExpiry?.or props.sessionExpiryInterval⟩

theorem ConnectProperties.foldl_note (ss : List Segment) (props : ConnectProperties) :
    ss.foldl note props = ⟨(Segment.lastSessionExpiry ss).or props.sessionExpiryInterval⟩ := by
  induction ss generalizing props with
  | nil => rfl
  | cons s ss ih =>
    rw [foldl_cons, ih, note, Segment.lastSessionExpiry, Segment.lastSessionExpiry,
      filterMap_cons]
    cases s.sessionExpiry? with
    | none => rfl
    | some v =>
      simp only [getLast?_cons, Option.some_or]
      cases (ss.filterMap Segment.sessionExpiry?).getLast? <;> rfl

/-- What one round of the loop does with the identifier it has read. -/
def parsePropertyValue (id : Nat) (props : ConnectProperties) : Parse ConnectProperties :=
  if id = PropId.sessionExpiryInterval then do
    let left ← remaining
    failIf (left < 4) (.malformedBody "session expiry interval truncated")
    let raw ← readBytes 4
    pure { props with sessionExpiryInterval := some (u32FromBeBytes raw) }
  else do
    skipPropertyValue id
    pure props

/-- One round of the loop of `parseConnectProperties`. -/
def parseProperty (props : ConnectProperties) : Parse ConnectProperties := do
  let id ← readVbi
  parsePropertyValue id props

theorem parseConnectPropertiesLoop_succ (stop fuel : Nat) (props : ConnectProperties) (c : Reader) :
    (parseConnectPropertiesLoop stop (fuel + 1) props).run c =
      if c.pos < stop then
        (parseProperty props >>= parseConnectPropertiesLoop stop fuel).run c
      else .ok (props, c) := by
  rw [parseConnectPropertiesLoop, StateT.run_bind, StateT.run_get, pure_bind]
  split
  · simp only [parseProperty, parsePropertyValue, bind_assoc]
    congr 2
    funext id
    split <;> simp only [bind_assoc, pure_bind]
  · rfl

theorem parseProperty_reads (props : ConnectProperties) (s : Segment) :
    Reads (parseProperty props) s.bytes (props.note s) := by
  refine (readVbi_reads s.idForm.1 s.idForm.2).bind ?_
  rw [parsePropertyValue, note, Segment.sessionExpiry?]
  split
  · next hid =>
    have hlen := Segment.value_length_of_expiry hid
    refine remaining_reads fun left hleft => ?_
    refine Reads.nil_bind (failIf_reads (by omega)) ?_
    exact (readBytes_reads hlen).bind_nil (Reads.pure _)
  · obtain ⟨l, hl, hv⟩ := s.valueForm
    exact (skipPropertyValue_reads hl hv).bind_nil (Reads.pure _)

theorem parseProperty_consumes (props : ConnectProperties) :
    Consumes (parseProperty props)
      (fun bs props' => ∃ s : Segment, bs = s.bytes ∧ props' = props.note s) := by
  -- the value of the identifier `id`, in the layout of the source's table
  let R : Nat → Bytes → ConnectProperties → Prop := fun id bs props' =>
    (∃ l, sourceLayout id = some l ∧ l.Holds bs) ∧
    props' = ⟨(if id = PropId.sessionExpiryInterval then some (u32FromBeBytes bs)
      else none).or props.sessionExpiryInterval⟩
  have hval : ∀ id, Consumes (parsePropertyValue id props) (R id) := by
    intro id
    rw [parsePropertyValue]
    split
    · next hid =>
      refine (remaining_consumes.bind fun left => (failIf_consumes _ _).bind fun _ =>
        (readBytes_consumes 4).bind fun _ => Consumes.pure _).mono ?_
      rintro _ _ ⟨-, _, _, rfl, rfl, -, _, _, rfl, ⟨rfl, -⟩, raw, _, _, rfl, ⟨rfl, hlen⟩, rfl, rfl⟩
      simp only [nil_append, append_nil]
      refine ⟨⟨.fourByte, ?_, hlen⟩, ?_⟩
      · rw [hid]
        rfl
      · rw [if_pos hid]
        rfl
    · next hid =>
      refine ((skipPropertyValue_consumes id).bind fun _ => Consumes.pure _).mono ?_
      rintro _ _ ⟨-, bs1, _, rfl, hl, rfl, rfl⟩
      rw [append_nil]
      refine ⟨hl, ?_⟩
      rw [if_neg hid]
      rfl
  refine (readVbi_consumes.bind hval).mono ?_
  rintro _ _ ⟨id, idBytes, value, rfl, ⟨hform, hlen, rfl⟩, hl, rfl⟩
  exact ⟨⟨idBytes, value, ⟨hform, hlen⟩, hl⟩, rfl, rfl⟩

/-! ## The whole segment list -/

/-- The loop reads any list of segments that fills the space up to `stop`. -/
theorem parseConnectPropertiesLoop_reads (ss : List Segment) (fuel : Nat)
    (props : ConnectProperties)
    (c : Reader) (rest : Bytes) (hrest : c.rest = ss.flatMap Segment.bytes ++ rest)
    (hfuel : (ss.flatMap Segment.bytes).length ≤ fuel) :
    (parseConnectPropertiesLoop (c.pos + (ss.flatMap Segment.bytes).length) fuel props).run c =
      .ok (ss.foldl note props,
        c.advance (ss.flatMap Segment.bytes).length (Cursor.le_remaining_of_rest hrest)) := by
  induction ss generalizing fuel props c with
  | nil =>
    cases fuel with
    | zero => rfl
    | succ fuel =>
      rw [parseConnectPropertiesLoop_succ, if_neg (by simp)]
      rfl
  | cons s ss ih =>
    simp only [flatMap_cons, append_assoc] at hrest
    simp only [flatMap_cons, length_append] at hfuel ⊢
    have hpos := s.bytes_ne_nil
    obtain ⟨k, rfl⟩ : ∃ k, fuel = k + 1 := ⟨fuel - 1, by omega⟩
    rw [parseConnectPropertiesLoop_succ, if_pos (by omega), StateT.run_bind,
      parseProperty_reads props s c _ hrest]
    -- the rest of the list is read from behind `s`, up to the same position
    have htail := ih k (props.note s) (c.advance s.bytes.length (Cursor.le_remaining_of_rest hrest))
      (by rw [Cursor.advance_rest, hrest, drop_left]) (by omega)
    rw [Cursor.advance_pos, Nat.add_assoc, Cursor.advance_advance] at htail
    exact htail

/-- Whatever the loop accepts is a list of segments. -/
theorem parseConnectPropertiesLoop_consumes (stop fuel : Nat) (props : ConnectProperties) :
    Consumes (parseConnectPropertiesLoop stop fuel props) (fun bs props' => ∃ ss : List Segment,
      bs = ss.flatMap Segment.bytes ∧ props' = ss.foldl note props) := by
  induction fuel generalizing props with
  | zero =>
    refine (Consumes.pure props).mono ?_
    rintro _ _ ⟨rfl, rfl⟩
    exact ⟨[], rfl, rfl⟩
  | succ fuel ih =>
    have hround : Consumes (parseProperty props >>= parseConnectPropertiesLoop stop fuel)
        (fun bs props' => ∃ ss : List Segment,
          bs = ss.flatMap Segment.bytes ∧ props' = ss.foldl note props) := by
      refine (parseProperty_consumes props).andThen ?_
      rintro _ _ ⟨s, rfl, rfl⟩
      refine (ih (props.note s)).mono ?_
      rintro _ _ ⟨ss, rfl, rfl⟩
      exact ⟨s :: ss, rfl, rfl⟩
    intro c props' c' hrun
    rw [parseConnectPropertiesLoop_succ] at hrun
    split at hrun
    · exact hround c props' c' hrun
    · cases hrun
      exact ⟨[], ⟨[], rfl, rfl⟩, rfl, rfl, rfl⟩

/-- Whatever `parseConnectProperties` accepts is a list of segments, of which it keeps the last
    session expiry interval. -/
theorem parseConnectProperties_consumes (propsLen : Nat) :
    Consumes (parseConnectProperties propsLen) (fun bs props => ∃ ss : List Segment,
      bs = ss.flatMap Segment.bytes ∧ props = ⟨Segment.lastSessionExpiry ss⟩) := by
  refine Consumes.get.andThen ?_
  rintro c _ rfl
  show Consumes (ite _ _ _) _
  split
  · refine (Consumes.pure _).mono ?_
    rintro _ _ ⟨rfl, rfl⟩
    exact ⟨[], rfl, rfl⟩
  · refine (parseConnectPropertiesLoop_consumes _ _ _).mono ?_
    rintro _ _ ⟨ss, rfl, rfl⟩
    exact ⟨ss, rfl, by rw [foldl_note, Option.or_none]⟩

/-- **What `parseConnectProperties` reads.** It reads `bs` completely, returning `props`, exactly
    when `bs` is a list of whole properties in the source's layout and `props` holds the last
    session expiry interval among them. -/
theorem parseConnectProperties_reads_iff (bs : Bytes) (props : ConnectProperties) :
    Reads (parseConnectProperties bs.length) bs props ↔
      ∃ ss : List Segment, ss.flatMap Segment.bytes = bs ∧
        props = ⟨Segment.lastSessionExpiry ss⟩ := by
  constructor
  · intro h
    have hrun := h (Cursor.start bs) [] (by simp)
    obtain ⟨_, ⟨ss, rfl, rfl⟩, hrest, -⟩ := parseConnectProperties_consumes _ _ _ _ hrun
    exact ⟨ss, by simpa using hrest.symm, rfl⟩
  · rintro ⟨ss, rfl, rfl⟩ c rest hrest
    rw [parseConnectProperties, StateT.run_bind, StateT.run_get, pure_bind]
    split
    · next hlen =>
      have hss : ss = [] := by
        cases ss with
        | nil => rfl
        | cons s ss =>
          have := s.bytes_ne_nil
          rw [flatMap_cons, length_append] at hlen
          omega
      subst hss
      rfl
    · rw [parseConnectPropertiesLoop_reads ss _ {} c rest hrest (Nat.le_refl _),
        foldl_note, Option.or_none]

/-! ## The MQTT 5.0 property table -/

/-- The value types of MQTT 5.0 properties. -/
inductive ValueType where
  | byte
  | twoByteInteger
  | fourByteInteger
  | variableByteInteger
  | utf8String
  | binaryData
  | utf8StringPair
deriving DecidableEq, Repr

/-- The value type the standard gives an identifier. -/
def standardType (id : UInt8) : Option ValueType :=
  if id ∈ [0x01, 0x17, 0x19, 0x24, 0x25, 0x28, 0x29, 0x2A] then some .byte
  else if id ∈ [0x13, 0x21, 0x22, 0x23] then some .twoByteInteger
  else if id ∈ [0x02, 0x11, 0x18, 0x27] then some .fourByteInteger
  else if id ∈ [0x0B] then some .variableByteInteger
  else if id ∈ [0x03, 0x08, 0x12, 0x15, 0x1A, 0x1C, 0x1F] then some .utf8String
  else if id ∈ [0x09, 0x16] then some .binaryData
  else if id ∈ [0x26] then some .utf8StringPair
  else none

/-- Strings that fit the two-byte length of a field. -/
abbrev FieldString := { s : String // (stringBytes s).length ≤ 65535 }

/-- Byte strings that fit the two-byte length of a field. -/
abbrev FieldBytes := { raw : Bytes // raw.length ≤ 65535 }

namespace ValueType

/-- The values of a type. -/
def Value : ValueType → Type
  | .byte => UInt8
  | .twoByteInteger => UInt16
  | .fourByteInteger => UInt32
  | .variableByteInteger => Fin (128 ^ 4)
  | .utf8String => FieldString
  | .binaryData => FieldBytes
  | .utf8StringPair => FieldString × FieldString

def serialise : (t : ValueType) → t.Value → Bytes
  | .byte, (v : UInt8) => [v]
  | .twoByteInteger, (v : UInt16) => beBytes 2 v.toNat
  | .fourByteInteger, (v : UInt32) => beBytes 4 v.toNat
  | .variableByteInteger, (v : Fin (128 ^ 4)) => encode v
  | .utf8String, (s : FieldString) => lengthPrefixed (stringBytes s)
  | .binaryData, (raw : FieldBytes) => lengthPrefixed raw
  | .utf8StringPair, ((key, val) : FieldString × FieldString) =>
    lengthPrefixed (stringBytes key) ++ lengthPrefixed (stringBytes val)

/-- The shape of a type's values on the wire. -/
def layout : ValueType → Layout
  | .byte => .byte
  | .twoByteInteger => .twoByte
  | .fourByteInteger => .fourByte
  | .variableByteInteger => .varInt
  | .utf8String => .stringOrBinary
  | .binaryData => .stringOrBinary
  | .utf8StringPair => .stringPair

theorem serialise_holds (t : ValueType) (v : t.Value) : t.layout.Holds (t.serialise v) := by
  cases t with
  | byte => rfl
  | twoByteInteger => exact length_beBytes _ _
  | fourByteInteger => exact length_beBytes _ _
  | variableByteInteger =>
    exact ⟨encode_isForm _, length_encode_le (k := 3) (Fin.isLt v)⟩
  | utf8String => exact ⟨stringBytes v.val, v.property, rfl⟩
  | binaryData => exact ⟨v.val, v.property, rfl⟩
  | utf8StringPair =>
    exact ⟨stringBytes v.1.val, stringBytes v.2.val, v.1.property, v.2.property, rfl⟩

end ValueType

/-- A property of the standard's table: an identifier and a value of its type. -/
structure Property where
  id : UInt8
  type : ValueType
  value : type.Value
  registered : standardType id = some type

namespace Property

def bytes (p : Property) : Bytes := p.id :: p.type.serialise p.value

/-- A property segment: its properties one after the other. -/
def serialise (ps : List Property) : Bytes := ps.flatMap bytes

/-- The session expiry interval a property sets, if it is one. -/
def sessionExpiry? (p : Property) : Option UInt32 :=
  match p.type, p.value with
  | .fourByteInteger, (v : UInt32) => if p.id = 0x11 then some v else none
  | _, _ => none

/-- The value of the last session expiry interval of a list. -/
def lastSessionExpiry (ps : List Property) : Option UInt32 :=
  (ps.filterMap sessionExpiry?).getLast?

end Property

/-- The identifiers whose value type differs between the standard's table and the source's. -/
def mistypedIds : List UInt8 := [0x1F, 0x22, 0x23, 0x24, 0x25, 0x26, 0x27, 0x29, 0x2A]

/-- Outside the nine mistyped identifiers the two tables agree. -/
theorem sourceLayout_eq_of_not_mistyped {id : UInt8} {t : ValueType}
    (ht : standardType id = some t) (hid : id ∉ mistypedIds) :
    sourceLayout id.toNat = some t.layout := by
  have key : ∀ n : Fin 256, ∀ t ∈ standardType (UInt8.ofNat n),
      UInt8.ofNat n ∉ mistypedIds → sourceLayout n = some t.layout := by
    decide +kernel
  have hkey := key ⟨id.toNat, id.toNat_lt⟩ t
  simp only [UInt8.ofNat_toNat] at hkey
  exact hkey ht hid

theorem toNat_lt_of_registered {id : UInt8} {t : ValueType} (ht : standardType id = some t) :
    id.toNat < 128 := by
  have key : ∀ n : Fin 256, (standardType (UInt8.ofNat n)).isSome → n.val < 128 := by
    decide +kernel
  have hkey := key ⟨id.toNat, id.toNat_lt⟩
  simp only [UInt8.ofNat_toNat, ht] at hkey
  exact hkey rfl

namespace Property

/-- Every registered identifier is its own one-byte form. -/
theorem value_id (p : Property) : Varint.value [p.id] = p.id.toNat := by
  have hlt := toNat_lt_of_registered p.registered
  rw [Varint.value, Varint.value, Varint.group_eq]
  omega

/-- A property with a well-typed identifier, as a segment in the source's layout. -/
def toSegment (p : Property) (hid : p.id ∉ mistypedIds) : Segment where
  idBytes := [p.id]
  value := p.type.serialise p.value
  idForm := by
    refine ⟨eq_false_of_ne_true fun hc => ?_, by simp⟩
    have := toNat_lt_of_registered p.registered
    rw [continues_iff] at hc
    omega
  valueForm :=
    ⟨p.type.layout, by rw [p.value_id, sourceLayout_eq_of_not_mistyped p.registered hid],
      p.type.serialise_holds p.value⟩

theorem toSegment_sessionExpiry? (p : Property) (hid : p.id ∉ mistypedIds) :
    (p.toSegment hid).sessionExpiry? = p.sessionExpiry? := by
  have hval := p.value_id
  obtain ⟨id, t, v, hreg⟩ := p
  simp only [Segment.sessionExpiry?, toSegment, hval, PropId.sessionExpiryInterval]
  by_cases hexp : id = 0x11
  · subst hexp
    cases hreg
    exact congrArg some (u32FromBeBytes_beBytes v)
  · have hne : ¬ id.toNat = 17 := fun h => hexp (UInt8.toNat.inj h)
    rw [if_neg hne, sessionExpiry?]
    split
    · rw [if_neg hexp]
    · rfl

/-- A list of properties with well-typed identifiers is a list of segments that sets the same
    session expiry interval. -/
theorem exists_segments (ps : List Property) (hids : ∀ p ∈ ps, p.id ∉ mistypedIds) :
    ∃ ss : List Segment, ss.flatMap Segment.bytes = serialise ps ∧
      ss.filterMap Segment.sessionExpiry? = ps.filterMap sessionExpiry? := by
  induction ps with
  | nil => exact ⟨[], rfl, rfl⟩
  | cons p ps ih =>
    obtain ⟨ss, hbytes, hexp⟩ := ih fun q hq => hids q (mem_cons_of_mem _ hq)
    have hp := hids p mem_cons_self
    refine ⟨p.toSegment hp :: ss, ?_, ?_⟩
    · rw [flatMap_cons, hbytes]
      rfl
    · rw [filterMap_cons, filterMap_cons, toSegment_sessionExpiry?, hexp]

end Property

/-- **When a standard property segment is read as meant.** `parseConnectProperties` reads exactly
    the bytes of `ps` and returns the last session expiry interval of `ps`, whatever bytes follow,
    if and only if those bytes can also be cut into whole properties in the source's layout with the
    same last session expiry interval. Segments without mistyped identifiers always can. -/
theorem parseConnectProperties_serialise_iff (ps : List Property) :
    (Reads (parseConnectProperties (Property.serialise ps).length) (Property.serialise ps)
        ⟨Property.lastSessionExpiry ps⟩ ↔
      ∃ ss : List Segment, ss.flatMap Segment.bytes = Property.serialise ps ∧
        Segment.lastSessionExpiry ss = Property.lastSessionExpiry ps) ∧
    ((∀ p ∈ ps, p.id ∉ mistypedIds) →
      Reads (parseConnectProperties (Property.serialise ps).length) (Property.serialise ps)
        ⟨Property.lastSessionExpiry ps⟩) := by
  have hiff : Reads (parseConnectProperties (Property.serialise ps).length) (Property.serialise ps)
        ⟨Property.lastSessionExpiry ps⟩ ↔
      ∃ ss : List Segment, ss.flatMap Segment.bytes = Property.serialise ps ∧
        Segment.lastSessionExpiry ss = Property.lastSessionExpiry ps := by
    rw [parseConnectProperties_reads_iff]
    simp only [mk.injEq, eq_comm (a := Property.lastSessionExpiry ps)]
  refine ⟨hiff, fun hids => hiff.mpr ?_⟩
  obtain ⟨ss, hbytes, hexp⟩ := Property.exists_segments ps hids
  exact ⟨ss, hbytes, by rw [Segment.lastSessionExpiry, hexp, Property.lastSessionExpiry]⟩

/-- A topic alias maximum of 10: a two-byte integer, which the source skips as one byte. -/
def topicAliasMaximum : Property := ⟨0x22, .twoByteInteger, (10 : UInt16), by decide⟩

theorem parseConnectProperties_topicAliasMaximum :
    ¬ Reads (parseConnectProperties (Property.serialise [topicAliasMaximum]).length)
      (Property.serialise [topicAliasMaximum])
      ⟨Property.lastSessionExpiry [topicAliasMaximum]⟩ := by
  intro h
  have hrun := h (Cursor.start [0x22, 0x00, 0x0A]) [] rfl
  exact nomatch hrun

end LumenMQ
