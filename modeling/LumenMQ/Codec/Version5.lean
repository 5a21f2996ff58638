import LumenMQ.Codec.Canonical

set_option autoImplicit false

/-! # MQTT 5.0 packets in the shared codec

One codec serves the connections of every protocol level. A CONNECT says its level, so its property
segment is read; here it is shown when the reader stays inside the announced segment. PUBLISH and
SUBSCRIBE do not say their level and the codec is not told, so it reads them as the 3.1.1 layout: at
level 5 the property segment is taken for payload, or for entries. -/

namespace LumenMQ

open List Packet Cursor Returns CursorParser

variable {body : Bytes}

open Reader

/-! ## Layouts by protocol level

`propertySegment`, `publishLayout` and `subscribeLayout` are the standard's layouts, not the
source's. -/

/-- The property segment of a packet: its length and its bytes at level 5, nothing before. -/
def propertySegment (level : UInt8) (props : Bytes) : Bytes :=
  if level = mqtt5Level then Varint.encode props.length ++ props else []

/-- A PUBLISH body: topic, packet identifier, properties, payload. -/
def publishLayout (level : UInt8) (topic : String) (packetId : Option UInt16)
    (props payload : Bytes) : Bytes :=
  lengthPrefixed (stringBytes topic) ++
    (optionalField packetId (fun id => beBytes 2 id.toNat) ++
      (propertySegment level props ++ payload))

/-- An entry of a SUBSCRIBE: the filter, and an options byte with the QoS in its low two bits. -/
structure SubscribeEntry where
  topic : SubscribeTopic
  options : UInt8
  fits : (stringBytes topic.topicFilter).length ≤ 65535
  carries : options &&& 0b00000011 = topic.qos.asU8

def SubscribeEntry.bytes (e : SubscribeEntry) : Bytes :=
  lengthPrefixed (stringBytes e.topic.topicFilter) ++ [e.options]

/-- A SUBSCRIBE body: packet identifier, properties, entries. -/
def subscribeLayout (level : UInt8) (packetId : UInt16) (props : Bytes)
    (entries : List SubscribeEntry) : Bytes :=
  beBytes 2 packetId.toNat ++
    (propertySegment level props ++ entries.flatMap SubscribeEntry.bytes)

theorem propertySegment_eq_nil_iff (level : UInt8) (props : Bytes) :
    propertySegment level props = [] ↔ level ≠ mqtt5Level := by
  unfold propertySegment
  split
  · next h =>
    have hne := (Varint.encode_isForm props.length).ne_nil
    simp [h, hne]
  · next h => simp [h]

/-! ## PUBLISH -/

/-- The decoder takes the property segment of a PUBLISH for the start of its payload. -/
theorem decodePacket_publishLayout (level : UInt8) (p : Publish) (props : Bytes)
    (hwf : (Packet.publish p).WellFormed) (htop : (stringBytes p.topic).length ≤ 65535) :
    decodePacket (Packet.publish p).firstByte
        (publishLayout level p.topic p.packetId props p.payload)
      = .ok (.publish { p with payload := propertySegment level props ++ p.payload }) := by
  let read : Publish := { p with payload := propertySegment level props ++ p.payload }
  have hfit : (publish read).FieldsFit := by
    simpa [Packet.FieldsFit, fields, read] using htop
  exact decodePacket_body (p := .publish read) hwf hfit

/-! ## SUBSCRIBE -/

theorem decodeSubscribeTopic_reads_entry (e : SubscribeEntry) :
    Reads decodeSubscribeTopic e.bytes e.topic := by
  have hqos : QoS.fromU8 (e.options &&& 0b00000011) = .ok e.topic.qos := by
    rw [e.carries, QoS.fromU8_asU8]
  refine (readString_reads e.fits).bind ((readU8_reads _).bind_nil ?_)
  rw [hqos]
  exact Reads.nil_bind (Reads.pure e.topic.qos) (Reads.pure e.topic)

theorem length_flatMap_entry (entries : List SubscribeEntry) :
    (entries.flatMap SubscribeEntry.bytes).length =
      ((entries.map SubscribeEntry.topic).flatMap SubscribeTopic.bytes).length := by
  induction entries with
  | nil => rfl
  | cons e entries ih =>
    simp only [flatMap_cons, map_cons, length_append, ih, SubscribeEntry.bytes,
      SubscribeTopic.bytes, length_cons, length_nil]

/-- The decoder of a SUBSCRIBE reads its body to the end. -/
theorem decodeSubscribe_exhausts : Exhausts decodeSubscribe := by
  have hent : Consumes decodeSubscribeTopic (fun bs _ => bs ≠ []) := by
    refine decodeSubscribeTopic_consumes.mono ?_
    rintro bs t ⟨-, hlen⟩ rfl
    simp [SubscribeTopic.bytes] at hlen
  refine Exhausts.after fun packetId => ?_
  exact (collectToEnd_exhausts hent).bind fun topics =>
    (failIf_consumes _ _).bind fun _ => Consumes.pure _

/-- The entries the decoder returns fill the body: there is no room for anything between them. -/
theorem decodePacket_subscribe_length {s : Subscribe}
    (h : decodePacket 0x82 body = .ok (.subscribe s)) :
    body.length = (Packet.subscribe s).body.length := by
  obtain ⟨ptype, htype, c', hrun⟩ := decodePacket_run h
  cases htype
  obtain ⟨_, c1, hflag, hrun⟩ := run_bind_eq_ok hrun
  cases hflag
  have hdone := decodeSubscribe_exhausts _ _ _ hrun
  obtain ⟨bs, ⟨-, hlen⟩, hrest, -⟩ := decodeSubscribe_consumes _ _ _ hrun
  rw [hdone, append_nil, rest_start] at hrest
  rw [hrest, hlen]

theorem decodePacket_subscribeLayout_iff (level : UInt8) (packetId : UInt16) (props : Bytes)
    (entries : List SubscribeEntry) (hid : packetId ≠ 0) (hne : entries ≠ []) :
    decodePacket 0x82 (subscribeLayout level packetId props entries) =
        .ok (.subscribe { packetId, topics := entries.map SubscribeEntry.topic }) ↔
      level ≠ mqtt5Level := by
  rw [← propertySegment_eq_nil_iff level props]
  constructor
  · intro h
    have hlen := decodePacket_subscribe_length h
    simp only [subscribeLayout, body, length_append, length_flatMap_entry] at hlen
    exact length_eq_zero_iff.mp (by omega)
  · intro hnil
    have hnot : entries.map SubscribeEntry.topic ≠ [] := by simpa using hne
    have hread : Finishes decodeSubscribe (subscribeLayout level packetId props entries)
        (.subscribe { packetId, topics := entries.map SubscribeEntry.topic }) := by
      rw [subscribeLayout, hnil, nil_append]
      refine packetId_entries_finishes hid (by simp [SubscribeEntry.bytes]) entries
        (fun e _ => decodeSubscribeTopic_reads_entry e) ?_
      exact Reads.nil_bind (failIf_reads hnot) (Reads.pure _)
    obtain ⟨c', hrun⟩ := hread (start (subscribeLayout level packetId props entries)) rfl
    show (do validateFlags .subscribe (0x82 &&& 0x0F); decodeSubscribe).run _ >>= _ = _
    rw [StateT.run_bind]
    show decodeSubscribe.run _ >>= _ = _
    rw [hrun]
    rfl

/-- **The codec reads the 3.1.1 layout at every level.** A PUBLISH laid out for a protocol level is
    decoded to its topic, packet identifier and payload exactly when the level is not 5, and so are
    the entries of a SUBSCRIBE. -/
theorem decodePacket_layout_iff (level : UInt8) (props : Bytes) :
    (∀ p : Publish, (Packet.publish p).WellFormed → (stringBytes p.topic).length ≤ 65535 →
      ((∃ q : Publish, decodePacket (Packet.publish p).firstByte
          (publishLayout level p.topic p.packetId props p.payload) = .ok (.publish q) ∧
          q.topic = p.topic ∧ q.packetId = p.packetId ∧ q.payload = p.payload) ↔
        level ≠ mqtt5Level)) ∧
    (∀ (packetId : UInt16) (entries : List SubscribeEntry), packetId ≠ 0 → entries ≠ [] →
      (decodePacket 0x82 (subscribeLayout level packetId props entries) =
          .ok (.subscribe { packetId, topics := entries.map SubscribeEntry.topic }) ↔
        level ≠ mqtt5Level)) := by
  refine ⟨fun p hwf htopic => ?_, fun packetId entries hid hne =>
    decodePacket_subscribeLayout_iff level packetId props entries hid hne⟩
  rw [decodePacket_publishLayout level p props hwf htopic, ← propertySegment_eq_nil_iff level props]
  constructor
  · rintro ⟨q, hq, -, -, hpayload⟩
    obtain rfl : _ = q := publish.inj (Except.ok.inj hq)
    exact append_left_eq_self.mp hpayload
  · intro hnil
    exact ⟨_, rfl, rfl, rfl, by rw [hnil, nil_append]⟩

/-- The text `hi` on the topic `a`. -/
def greeting : Publish :=
  { dup := false, qos := .atMostOnce, retain := false, topic := "a", packetId := none,
    payload := [0x68, 0x69] }

theorem greeting_wellFormed : (Packet.publish greeting).WellFormed := by
  simp [Packet.WellFormed, greeting]

/-- A subscription to `a` at QoS 0. -/
def subscribeA : SubscribeEntry where
  topic := { topicFilter := "a", qos := .atMostOnce }
  options := 0
  fits := by decide
  carries := by decide

theorem decodePacket_layout_iff_v311 :
    ∃ q : Publish, decodePacket (Packet.publish greeting).firstByte
        (publishLayout mqtt311Level "a" none [] [0x68, 0x69]) = .ok (.publish q) ∧
      q.topic = "a" ∧ q.packetId = none ∧ q.payload = [0x68, 0x69] :=
  ((decodePacket_layout_iff mqtt311Level []).1 greeting greeting_wellFormed (by decide)).mpr
    (by decide)

/-- At level 5 the empty property segment becomes a first payload byte, and the SUBSCRIBE is not
    understood. -/
theorem decodePacket_layout_v5 :
    (¬ ∃ q : Publish, decodePacket (Packet.publish greeting).firstByte
        (publishLayout mqtt5Level "a" none [] [0x68, 0x69]) = .ok (.publish q) ∧
      q.topic = "a" ∧ q.packetId = none ∧ q.payload = [0x68, 0x69]) ∧
    decodePacket 0x82 (subscribeLayout mqtt5Level 1 [] [subscribeA]) ≠
      .ok (.subscribe { packetId := 1, topics := [subscribeA.topic] }) := by
  refine ⟨?_, fun h => ?_⟩
  · rintro ⟨q, hq, -, -, hpayload⟩
    have hread := decodePacket_publishLayout mqtt5Level greeting [] greeting_wellFormed (by decide)
    obtain rfl := publish.inj (Except.ok.inj (hread.symm.trans hq))
    have hnil := append_left_eq_self.mp hpayload
    exact (propertySegment_eq_nil_iff mqtt5Level []).mp hnil rfl
  · exact (decodePacket_subscribeLayout_iff mqtt5Level 1 [] [subscribeA] (by decide) (by simp)).mp h
      rfl

/-! ## The property segment of a CONNECT -/

/-- What `decodeConnect` reads before the properties. -/
structure ConnectPrelude where
  protocolLevel : UInt8
  connectFlagsByte : UInt8
  keepAlive : UInt16
deriving DecidableEq

def decodeConnectPrelude : Parse ConnectPrelude := do
  let protocolName ← readString
  failIf (protocolName ≠ "MQTT" ∧ protocolName ≠ "MQIsdp")
    (.invalidProtocol s!"unknown protocol name '{protocolName}'")
  let protocolLevel ← readU8
  failIf (protocolLevel ≠ mqtt311Level ∧ protocolLevel ≠ mqtt31Level ∧ protocolLevel ≠ mqtt5Level)
    (.unsupportedVersion protocolLevel)
  let connectFlagsByte ← readU8
  let keepAlive ← readU16
  pure { protocolLevel, connectFlagsByte, keepAlive }

/-- What `decodeConnect` reads behind the properties: the client identifier, the will, the username
    and the password. -/
def decodeConnectPayload (h : ConnectPrelude) (properties : Option ConnectProperties) :
    Parse Packet := do
  let flags := ConnectFlags.fromBitsTruncate h.connectFlagsByte
  let clientId ← readString
  let will ← readOptional (flags.contains ConnectFlags.willFlag)
    (decodeWill h.protocolLevel h.connectFlagsByte)
  let username ← readOptional (flags.contains ConnectFlags.username) readString
  let password ← readOptional (flags.contains ConnectFlags.password) readBinary
  pure (.connect
    { protocolLevel := h.protocolLevel, keepAlive := h.keepAlive, clientId,
      cleanSession := flags.contains ConnectFlags.cleanSession, will, username, password,
      properties })

/-- `decodeConnect` in three parts. -/
theorem decodeConnect_eq :
    decodeConnect = (do
      let h ← decodeConnectPrelude
      let properties ← readOptional (h.protocolLevel == mqtt5Level) decodeConnectProperties
      decodeConnectPayload h properties) := by
  simp only [decodeConnect, decodeConnectPrelude, decodeConnectPayload, bind_assoc, pure_bind]

/-- The prelude and the length announced for the properties. -/
def decodeConnectHead : Parse (ConnectPrelude × Nat) := do
  let h ← decodeConnectPrelude
  let propsLen ← readVbi
  pure (h, propsLen)

/-- How `decodeConnect` cuts a body of level 5: the segment announced for the properties, and the
    position it reads the client identifier from. -/
structure ConnectCut where
  head : ConnectPrelude
  /-- The position behind the length field. -/
  segmentStart : Nat
  propsLen : Nat
  properties : ConnectProperties
  clientIdPos : Nat
deriving DecidableEq

/-- The end of the announced segment. -/
def ConnectCut.segmentEnd (cut : ConnectCut) : Nat := cut.segmentStart + cut.propsLen

/-- The announced segment of a body. -/
def ConnectCut.segment (cut : ConnectCut) (body : Bytes) : Bytes :=
  (body.drop cut.segmentStart).take cut.propsLen

/-- `decodeConnect` up to the client identifier, with the positions it passes. -/
def cutConnect : Parse ConnectCut := do
  let (head, propsLen) ← decodeConnectHead
  let r ← get
  let left ← remaining
  failIf (left < propsLen) (.malformedBody "connect properties truncated")
  let properties ← parseConnectProperties propsLen
  let r' ← get
  pure { head, segmentStart := r.pos, propsLen, properties, clientIdPos := r'.pos }

/-- How the body of a CONNECT is cut, if the decoder gets as far as the client identifier. -/
def connectCut (body : Bytes) : Option ConnectCut :=
  (cutConnect.run (start body)).toOption.map Prod.fst

/-- A byte string that is a list of whole properties, in the layouts of the source's table. -/
def WholeProperties (bs : Bytes) : Prop := ∃ ss : List Segment, ss.flatMap Segment.bytes = bs

theorem decodeConnectHead_rereads : Rereads decodeConnectHead := by
  have hstring : Rereads readString := readString_consumes.mono fun bs s h => by
    rw [h.1]
    exact readString_reads h.2
  have hu8 : Rereads readU8 := readU8_consumes.mono fun bs b h => by
    rw [h]
    exact readU8_reads b
  have hu16 : Rereads readU16 := readU16_consumes.mono fun bs v h => by
    rw [h]
    exact readU16_reads v
  have hvbi : Rereads readVbi := readVbi_consumes.mono fun bs n h => by
    rw [h.2.2]
    exact readVbi_reads h.1 h.2.1
  have hcheck : ∀ (c : Prop) [Decidable c] (e : CodecError), Rereads (failIf c e) :=
    fun c _ e => (failIf_consumes c e).mono fun bs _ h => by
      rw [h.1]
      exact failIf_reads h.2
  have hprelude : Rereads decodeConnectPrelude :=
    hstring.bind fun _ => (hcheck _ _).bind fun _ => hu8.bind fun _ => (hcheck _ _).bind fun _ =>
      hu8.bind fun _ => hu16.bind fun _ => Rereads.pure _
  exact hprelude.bind fun _ => hvbi.bind fun _ => Rereads.pure _

/-- What it means for a body to be cut so. -/
structure ConnectCut.Of (cut : ConnectCut) (body : Bytes) : Prop where
  head_reads : Reads decodeConnectHead (body.take cut.segmentStart) (cut.head, cut.propsLen)
  end_le : cut.segmentEnd ≤ body.length
  parses : ∀ c : Reader, c.buf = body → c.pos = cut.segmentStart →
    ∃ c', (parseConnectProperties cut.propsLen).run c = .ok (cut.properties, c') ∧
      c'.pos = cut.clientIdPos

theorem cutConnect_of {cut : ConnectCut} {c' : Reader}
    (hrun : cutConnect.run (start body) = .ok (cut, c')) : cut.Of body := by
  obtain ⟨⟨head, propsLen⟩, c1, hhead, hrun⟩ := run_bind_eq_ok hrun
  obtain ⟨_, _, hget, hrun⟩ := run_bind_eq_ok hrun
  cases hget
  obtain ⟨_, _, hleft, hrun⟩ := run_bind_eq_ok hrun
  cases hleft
  obtain ⟨_, c2, hcheck, hrun⟩ := run_bind_eq_ok hrun
  obtain ⟨_, ⟨rfl, hfits⟩, -, hbuf, hpos⟩ := failIf_consumes _ _ _ _ _ hcheck
  obtain ⟨properties, c3, hparse, hrun⟩ := run_bind_eq_ok hrun
  cases hrun
  obtain ⟨bs, hreads, hrest, hbuf1, hpos1⟩ := decodeConnectHead_rereads _ _ _ hhead
  have hbody : body = bs ++ c1.rest := hrest
  have hst : c1.pos = bs.length := hpos1.trans (Nat.zero_add _)
  have htake : body.take c1.pos = bs := by rw [hst, hbody, take_left]
  refine ⟨by rw [htake]; exact hreads, ?_, ?_⟩
  · have hle := c1.pos_le
    have hlen : c1.buf.length = body.length := congrArg length hbuf1
    show c1.pos + propsLen ≤ body.length
    unfold Cursor.remaining at hfits
    omega
  · intro c hc hp
    obtain rfl : c = c2 := Cursor.ext (hc.trans (hbuf.trans hbuf1).symm) (hp.trans hpos.symm)
    exact ⟨_, hparse, rfl⟩

theorem connectCut_of {cut : ConnectCut} (h : connectCut body = some cut) : cut.Of body := by
  obtain ⟨c', hrun⟩ := exists_run h
  exact cutConnect_of hrun

namespace ConnectCut.Of

variable {cut cut₂ : ConnectCut} {body body₂ : Bytes}

theorem start_le (h : cut.Of body) : cut.segmentStart ≤ body.length :=
  le_trans (Nat.le_add_right _ _) h.end_le

theorem length_segment (h : cut.Of body) : (cut.segment body).length = cut.propsLen := by
  have hend : cut.segmentStart + cut.propsLen ≤ body.length := h.end_le
  rw [segment, length_take, length_drop]
  omega

/-- A segment of whole properties is read to its end and no further. -/
theorem of_segments (h : cut.Of body) {ss : List Segment}
    (hss : ss.flatMap Segment.bytes = cut.segment body) :
    cut.clientIdPos = cut.segmentEnd ∧ cut.properties = ⟨Segment.lastSessionExpiry ss⟩ := by
  let c : Reader := ⟨body, cut.segmentStart, h.start_le⟩
  have hreads := (parseConnectProperties_reads_iff _ _).mpr ⟨ss, hss, rfl⟩
  rw [h.length_segment] at hreads
  have hrun := hreads c (c.rest.drop cut.propsLen) (take_append_drop _ _).symm
  obtain ⟨c', hrun', hpos⟩ := h.parses c rfl rfl
  rw [hrun'] at hrun
  obtain ⟨hprops, rfl⟩ := Prod.mk.inj (Except.ok.inj hrun)
  refine ⟨?_, hprops⟩
  rw [← hpos, advance_pos, h.length_segment]
  rfl

/-- A segment that is read to its end and no further consists of whole properties. -/
theorem whole_of_pos (h : cut.Of body) (hpos : cut.clientIdPos = cut.segmentEnd) :
    WholeProperties (cut.segment body) := by
  let c : Reader := ⟨body, cut.segmentStart, h.start_le⟩
  obtain ⟨c', hrun, hpos'⟩ := h.parses c rfl rfl
  obtain ⟨bs, ⟨ss, rfl, -⟩, hrest, -, hmoved⟩ := parseConnectProperties_consumes _ _ _ _ hrun
  refine ⟨ss, ?_⟩
  have hlen : (ss.flatMap Segment.bytes).length = cut.propsLen := by
    have : cut.segmentStart + (ss.flatMap Segment.bytes).length =
        cut.segmentStart + cut.propsLen := hmoved.symm.trans (hpos'.trans hpos)
    omega
  have hdrop : body.drop cut.segmentStart = ss.flatMap Segment.bytes ++ c'.rest := hrest
  rw [segment, hdrop, ← hlen, take_left]

/-- The bytes in front of a segment decide where it starts and how long it is. -/
theorem head_congr (h : cut.Of body) (h2 : cut₂.Of body₂)
    (htake : body₂.take cut.segmentStart = body.take cut.segmentStart) :
    cut₂.segmentStart = cut.segmentStart ∧ cut₂.propsLen = cut.propsLen := by
  have hlen : (body₂.take cut.segmentStart).length = cut.segmentStart := by
    rw [htake, length_take_of_le h.start_le]
  have hlen2 : (body₂.take cut₂.segmentStart).length = cut₂.segmentStart :=
    length_take_of_le h2.start_le
  have hreads := h.head_reads
  rw [← htake] at hreads
  have hrun := hreads (start body₂) _ (take_append_drop _ _).symm
  rw [h2.head_reads (start body₂) _ (take_append_drop _ _).symm] at hrun
  obtain ⟨hval, hcur⟩ := Prod.mk.inj (Except.ok.inj hrun)
  have hpos := congrArg Cursor.pos hcur
  rw [advance_pos, advance_pos, hlen, hlen2] at hpos
  exact ⟨Nat.add_left_cancel hpos, (Prod.mk.inj hval).2⟩

end ConnectCut.Of

theorem decodeConnectPayload_returns (h : ConnectPrelude) (properties : Option ConnectProperties) :
    Returns (decodeConnectPayload h properties) (fun p => ∀ c, p = .connect c →
      c.protocolLevel = h.protocolLevel ∧ c.properties = properties) := by
  refine bind_any fun _ => bind_any fun _ => bind_any fun _ =>
    bind_any fun _ => pure ?_
  rintro c hc
  cases hc
  exact ⟨rfl, rfl⟩

/-- A CONNECT of level 5 that is accepted was cut, and the rest of it read from where the cut
    says. -/
theorem decodeConnect_cut {c : Connect} {c' : Reader}
    (hrun : decodeConnect.run (start body) = .ok (.connect c, c'))
    (hlevel : c.protocolLevel = mqtt5Level) :
    ∃ cut, connectCut body = some cut ∧ cut.Of body ∧ c.properties = some cut.properties ∧
      ∀ r : Reader, r.buf = body → r.pos = cut.clientIdPos →
        (decodeConnectPayload cut.head (some cut.properties)).run r = .ok (.connect c, c') := by
  rw [decodeConnect_eq] at hrun
  obtain ⟨h, c1, hprelude, hrun⟩ := run_bind_eq_ok hrun
  obtain ⟨properties, c2, hprops, hrun⟩ := run_bind_eq_ok hrun
  obtain ⟨hlevel', hproperties⟩ := decodeConnectPayload_returns h properties _ _ _ hrun c rfl
  have hflag : (h.protocolLevel == mqtt5Level) = true := by rw [← hlevel', hlevel]; rfl
  rw [hflag] at hprops
  change (some <$> decodeConnectProperties).run c1 = _ at hprops
  rw [map_eq_pure_bind] at hprops
  obtain ⟨props, _, hprops, hsome⟩ := run_bind_eq_ok hprops
  cases hsome
  obtain ⟨propsLen, c3, hvbi, hprops⟩ := run_bind_eq_ok hprops
  obtain ⟨_, _, hleft, hprops⟩ := run_bind_eq_ok hprops
  cases hleft
  obtain ⟨_, c4, hcheck, hparse⟩ := run_bind_eq_ok hprops
  have hhead : decodeConnectHead.run (start body) = .ok ((h, propsLen), c3) :=
    (run_bind_of_ok hprelude).trans (run_bind_of_ok hvbi)
  have hcut : cutConnect.run (start body) =
      .ok (⟨h, c3.pos, propsLen, props, c2.pos⟩, c2) := by
    refine (run_bind_of_ok hhead).trans ?_
    refine (run_bind_of_ok rfl).trans ?_
    refine (run_bind_of_ok rfl).trans ?_
    refine (run_bind_of_ok hcheck).trans ?_
    exact run_bind_of_ok hparse
  have hbuf2 : c2.buf = body := by
    obtain ⟨_, -, -, hbuf3, -⟩ := decodeConnectHead_rereads _ _ _ hhead
    obtain ⟨_, -, -, hbuf4, -⟩ := failIf_consumes _ _ _ _ _ hcheck
    obtain ⟨_, -, -, hbuf2, -⟩ := parseConnectProperties_consumes _ _ _ _ hparse
    exact hbuf2.trans (hbuf4.trans hbuf3)
  refine ⟨_, by rw [connectCut, hcut]; rfl, cutConnect_of hcut, hproperties, fun r hbuf hpos => ?_⟩
  obtain rfl : r = c2 := Cursor.ext (hbuf.trans hbuf2.symm) hpos
  exact hrun

/-- **When a property stays inside its segment.** Let a CONNECT of level 5 be accepted. Its client
    identifier and what follows are read from one position. That position is the end of the
    announced segment, with the properties independent of every later byte and the position
    independent of the segment's bytes among such segments, exactly when the announced segment is a
    list of whole properties. -/
theorem decodeConnect_confined_iff (body : Bytes) (c : Connect) (c' : Reader)
    (hrun : decodeConnect.run (start body) = .ok (.connect c, c'))
    (hlevel : c.protocolLevel = mqtt5Level) :
    ∃ cut, connectCut body = some cut ∧ c.properties = some cut.properties ∧
      (∀ r : Reader, r.buf = body → r.pos = cut.clientIdPos →
        (decodeConnectPayload cut.head (some cut.properties)).run r = .ok (.connect c, c')) ∧
      ((cut.clientIdPos = cut.segmentEnd ∧
          (∀ body₂ c₂ c₂', decodeConnect.run (start body₂) = .ok (.connect c₂, c₂') →
            c₂.protocolLevel = mqtt5Level →
            body₂.take cut.segmentEnd = body.take cut.segmentEnd → c₂.properties = c.properties) ∧
          (∀ body₂ cut₂, connectCut body₂ = some cut₂ →
            body₂.take cut.segmentStart = body.take cut.segmentStart →
            WholeProperties (cut₂.segment body₂) → cut₂.clientIdPos = cut.clientIdPos)) ↔
        WholeProperties (cut.segment body)) := by
  obtain ⟨cut, hcut, hof, hproperties, hpayload⟩ := decodeConnect_cut hrun hlevel
  refine ⟨cut, hcut, hproperties, hpayload, fun h => hof.whole_of_pos h.1, ?_⟩
  rintro ⟨ss, hss⟩
  obtain ⟨hpos, hprops⟩ := hof.of_segments hss
  refine ⟨hpos, ?_, ?_⟩
  · intro body₂ c₂ c₂' hrun₂ hlevel₂ htake
    obtain ⟨cut₂, -, hof₂, hproperties₂, -⟩ := decodeConnect_cut hrun₂ hlevel₂
    have hhead : body₂.take cut.segmentStart = body.take cut.segmentStart := by
      have h := congrArg (take cut.segmentStart) htake
      rwa [take_take, take_take,
        Nat.min_eq_left (show cut.segmentStart ≤ cut.segmentEnd from Nat.le_add_right _ _)] at h
    obtain ⟨hstart, hlen⟩ := hof.head_congr hof₂ hhead
    have hsegment : cut₂.segment body₂ = cut.segment body := by
      have h := congrArg (drop cut.segmentStart) htake
      rw [ConnectCut.segmentEnd, drop_take, drop_take, Nat.add_sub_cancel_left] at h
      rw [ConnectCut.segment, ConnectCut.segment, hstart, hlen]
      exact h
    rw [hproperties₂, hproperties, hprops, (hof₂.of_segments (hss.trans hsegment.symm)).2]
  · rintro body₂ cut₂ hcut₂ hhead ⟨ss₂, hss₂⟩
    have hof₂ := connectCut_of hcut₂
    obtain ⟨hstart, hlen⟩ := hof.head_congr hof₂ hhead
    rw [(hof₂.of_segments hss₂).1, hpos, ConnectCut.segmentEnd, ConnectCut.segmentEnd, hstart, hlen]

/-- A CONNECT of level 5 up to its properties, with a clean session and a keep-alive of 60 s. -/
def connectStart (rest : Bytes) : Bytes :=
  [0x00, 0x04, 0x4D, 0x51, 0x54, 0x54, 0x05, 0x02, 0x00, 0x3C] ++ rest

/-- What a CONNECT that starts with `connectStart` is decoded to. -/
def connectWith (clientId : String) (sessionExpiryInterval : UInt32) : Connect :=
  { protocolLevel := mqtt5Level, keepAlive := 60, clientId, cleanSession := true, will := none,
    username := none, password := none, properties := some ⟨some sessionExpiryInterval⟩ }

/-- A session expiry interval of 10 s in a segment of its length. -/
theorem decodeConnect_confined_iff_expiry :
    ∃ body c c' cut, decodeConnect.run (start body) = .ok (.connect c, c') ∧
      connectCut body = some cut ∧ cut.clientIdPos = cut.segmentEnd := by
  let body := connectStart [0x05, 0x11, 0x00, 0x00, 0x00, 0x0A, 0x00, 0x01, 0x61]
  have hcut : connectCut body = some ⟨⟨mqtt5Level, 0x02, 60⟩, 11, 5, ⟨some 10⟩, 16⟩ := by
    decide +kernel
  obtain ⟨c', hrun⟩ := exists_run
    (p := decodeConnect) (c := start body) (a := .connect (connectWith "a" 10))
    (by decide +kernel)
  obtain ⟨cut, hcut', -, -, hiff⟩ := decodeConnect_confined_iff body _ c' hrun rfl
  refine ⟨body, _, c', cut, hrun, hcut', (hiff.mpr ?_).1⟩
  cases hcut.symm.trans hcut'
  let s : Segment :=
    { idBytes := [0x11]
      value := [0x00, 0x00, 0x00, 0x0A]
      idForm := ⟨rfl, by simp⟩
      valueForm := ⟨.fourByte, by decide, rfl⟩ }
  exact ⟨[s], rfl⟩

/-- A segment of one byte, the identifier of a session expiry interval. The client identifier behind
    it is read as the interval: the reader stops four bytes behind the segment, and other bytes
    there are another interval. -/
theorem decodeConnect_overruns :
    ∃ body c c' cut, decodeConnect.run (start body) = .ok (.connect c, c') ∧
      c.protocolLevel = mqtt5Level ∧ connectCut body = some cut ∧
      cut.clientIdPos ≠ cut.segmentEnd ∧
      ∃ body₂ c₂ c₂', decodeConnect.run (start body₂) = .ok (.connect c₂, c₂') ∧
        c₂.protocolLevel = mqtt5Level ∧
        body₂.take cut.segmentEnd = body.take cut.segmentEnd ∧ c₂.properties ≠ c.properties := by
  let body := connectStart [0x01, 0x11, 0x00, 0x02, 0x61, 0x62, 0x00, 0x00]
  let body₂ := connectStart [0x01, 0x11, 0x00, 0x02, 0x61, 0x63, 0x00, 0x00]
  obtain ⟨c', hrun⟩ := exists_run
    (p := decodeConnect) (c := start body) (a := .connect (connectWith "" 0x00026162))
    (by decide +kernel)
  obtain ⟨c₂', hrun₂⟩ := exists_run
    (p := decodeConnect) (c := start body₂) (a := .connect (connectWith "" 0x00026163))
    (by decide +kernel)
  have hcut : connectCut body =
      some ⟨⟨mqtt5Level, 0x02, 60⟩, 11, 1, ⟨some 0x00026162⟩, 16⟩ := by
    decide +kernel
  exact ⟨body, _, c', _, hrun, rfl, hcut, by decide, body₂, _, c₂', hrun₂, rfl, rfl, by decide⟩

end LumenMQ
