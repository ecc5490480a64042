import SwiftAgg.ForStd.Framing
import SwiftAgg.Spec.PacketCodecCorrect

/-!
# Framing of a client's stream

The firmware puts the tag of a message between its header and its payload; the
server reads a header and then as many bytes as it announces, and expects no
tag. The two agree on a stream only where the tags happen to read like the
bytes that should follow.

## Key results

- `readMessages_eq`: the server's read loop is the reader of a framing without tags
- `tagsUnread_iff`: which streams are read as they were meant
- `framingAgrees_iff`: no sequence but the empty one is read so under every MAC
-/

namespace SwiftAgg

open Native (MsgHeader Packet packetCodecEncodeHeader packetCodecEncodeMessage receivedHeader)
open Host (HeaderFields readMessage readMessages)

/-! ## The server's framing -/

namespace Host

/-- The header fits its format and announces the length of the payload. -/
def ValidMessage (m : HeaderFields × Bytes) : Prop :=
  m.1.InRange ∧ m.2.length = m.1.payloadLength

/-- The bytes in which the server finds a message. -/
def messageFrame (m : HeaderFields × Bytes) : Bytes :=
  packetCodecEncodeHeader m.1.msgHeader ++ m.2

theorem readExactly_append {data : Bytes} {n : Nat} (h : data.length = n) (rest : Bytes) :
    readExactly n (data ++ rest) = some (data, rest) := by
  rw [readExactly, if_neg (by rw [List.length_append]; omega), List.take_left' h,
    List.drop_left' h]

/-- Sixteen bytes are a header. -/
theorem exists_encodeHeader {s : Bytes} (h : headerSize ≤ s.length) :
    ∃ hdr rest, s = packetCodecEncodeHeader hdr ++ rest := by
  have hlen : (s.take headerSize).length = 16 := List.length_take_of_le h
  refine ⟨Native.packetCodecDecodeHeader (.ofBytes (s.take headerSize)), s.drop headerSize, ?_⟩
  rw [Native.packetCodecEncodeHeader_decodeHeader hlen, List.take_append_drop]

/-- Behind a header the server reads the payload it announces. -/
theorem readMessage_encodeHeader (hdr : MsgHeader) (rest : Bytes) :
    readMessage (packetCodecEncodeHeader hdr ++ rest) =
      (readExactly hdr.payloadLength.toNat rest).map fun p => ((hdr.fields, p.1), p.2) := by
  have hlen : (packetCodecEncodeHeader hdr).length = headerSize := rfl
  rw [readMessage, readExactly_append hlen]
  simp only [Option.bind_eq_bind, Option.bind_some, Except.toOption,
    unpackHeader_of_packHeader (packHeader_fields hdr)]
  change ((readExactly hdr.payloadLength.toNat rest).bind
    fun p => some ((hdr.fields, p.1), p.2)) = _
  cases readExactly hdr.payloadLength.toNat rest <;> rfl

theorem readMessage_of_short {s : Bytes} (h : s.length < headerSize) : readMessage s = none := by
  rw [readMessage, readExactly, if_pos h]
  rfl

/-- The server reads a message exactly where its frame stands. -/
theorem readMessage_eq_some (s : Bytes) (m : HeaderFields × Bytes) (r : Bytes) :
    readMessage s = some (m, r) ↔ ValidMessage m ∧ s = messageFrame m ++ r := by
  constructor
  · intro h
    -- a header was read, and it is the encoding of some header
    have hlong : headerSize ≤ s.length := by
      by_contra hshort
      rw [readMessage_of_short (not_le.mp hshort)] at h
      cases h
    obtain ⟨hdr, rest, rfl⟩ := exists_encodeHeader hlong
    rw [readMessage_encodeHeader] at h
    obtain ⟨⟨payload, rest'⟩, hpayload, hm⟩ := Option.map_eq_some_iff.mp h
    cases hm
    obtain ⟨hlen, rfl⟩ := readExactly_length hpayload
    refine ⟨⟨MsgHeader.inRange_fields hdr, hlen⟩, ?_⟩
    rw [messageFrame, MsgHeader.msgHeader_fields, List.append_assoc]
  · rintro ⟨⟨hrange, hlen⟩, rfl⟩
    have hfields := HeaderFields.fields_msgHeader hrange
    have hpayload : m.2.length = m.1.msgHeader.payloadLength.toNat :=
      hlen.trans (congrArg HeaderFields.payloadLength hfields).symm
    rw [messageFrame, List.append_assoc, readMessage_encodeHeader, readExactly_append hpayload,
      hfields]
    rfl

/-- The framing of the read loop. -/
def clientFraming : Framing UInt8 (HeaderFields × Bytes) where
  frame := messageFrame
  Valid := ValidMessage
  next := readMessage
  frame_ne_nil m := by
    rw [messageFrame, ← List.length_pos_iff, List.length_append,
      Native.length_packetCodecEncodeHeader]
    exact Nat.lt_of_lt_of_le (by decide) (Nat.le_add_right Native.headerSize _)
  next_eq_some := readMessage_eq_some

theorem readMessages_eq (s : Bytes) : readMessages s = clientFraming.readAll s := by
  fun_induction readMessages s with
  | case1 s h => exact (clientFraming.readAll_of_none h).symm
  | case2 s m r h ih => rw [clientFraming.readAll_of_some h, ih]

/-- No message is read where the bytes are fewer than announced. -/
theorem readMessage_eq_none_iff (s : Bytes) :
    readMessage s = none ↔ s.length < headerSize + (receivedHeader s).payloadLength.toNat := by
  by_cases hshort : s.length < headerSize
  · rw [readMessage_of_short hshort]
    exact ⟨fun _ => Nat.lt_of_lt_of_le hshort (Nat.le_add_right _ _), fun _ => rfl⟩
  · obtain ⟨hdr, rest, rfl⟩ := exists_encodeHeader (not_lt.mp hshort)
    have hlen : (packetCodecEncodeHeader hdr).length = headerSize := rfl
    rw [readMessage_encodeHeader, Native.receivedHeader_encodeHeader, List.length_append, hlen,
      Option.map_eq_none_iff, readExactly]
    split
    · rename_i hrest
      exact ⟨fun _ => by omega, fun _ => rfl⟩
    · rename_i hrest
      exact ⟨fun h => absurd h (Option.some_ne_none _), fun h => absurd h (by omega)⟩

end Host

/-! ## The firmware's stream -/

/-- The message as the server should dispatch it. -/
def Native.Packet.dispatched (p : Packet) : HeaderFields × Bytes := (p.hdr.fields, p.payload)

/-- The server dispatches exactly the messages that were encoded one after another. -/
def FramingAgrees (hmac : Hmac) (key : Bytes32) (ps : List Packet) : Prop :=
  ∃ messages : List Bytes,
    (ps.map fun p => packetCodecEncodeMessage hmac p.hdr (some (.ofBytes p.payload)) key) =
      messages.map (fun bytes => some (.ok bytes)) ∧
    readMessages messages.flatten = ps.map Packet.dispatched

/-- The stream with its tags. -/
def taggedStream (hmac : Hmac) (key : Bytes32) (ps : List Packet) : Bytes :=
  ps.flatMap (Packet.bytes hmac key)

/-- The stream without its tags. -/
def untaggedStream (ps : List Packet) : Bytes :=
  ps.flatMap fun p => packetCodecEncodeHeader p.hdr ++ p.payload

/-- Without its tags the stream would begin in the same way, and what is left over at the end
    announces more bytes than there are. -/
def TagsUnread (hmac : Hmac) (key : Bytes32) (ps : List Packet) : Prop :=
  ∃ rest, taggedStream hmac key ps = untaggedStream ps ++ rest ∧
    rest.length < Host.headerSize + (receivedHeader rest).payloadLength.toNat

theorem Native.Packet.validMessage (p : Packet) : Host.ValidMessage p.dispatched :=
  ⟨p.hdr.inRange_fields, p.length_eq⟩

theorem Native.Packet.messageFrame (p : Packet) :
    Host.messageFrame p.dispatched = packetCodecEncodeHeader p.hdr ++ p.payload := by
  rw [Host.messageFrame, Packet.dispatched, MsgHeader.msgHeader_fields]

/-- Encoding is a function, so there is one stream. -/
theorem framingAgrees_eq (hmac : Hmac) (key : Bytes32) (ps : List Packet) :
    FramingAgrees hmac key ps ↔
      readMessages (taggedStream hmac key ps) = ps.map Packet.dispatched := by
  -- every packet has an encoding, and it is the one of the stream
  have hencode : (ps.map fun p =>
      packetCodecEncodeMessage hmac p.hdr (some (.ofBytes p.payload)) key) =
        (ps.map (Packet.bytes hmac key)).map fun bytes => some (.ok bytes) := by
    rw [List.map_map]
    exact List.map_congr_left fun p _ => p.encodeMessage_eq hmac key
  have hinj : Function.Injective fun bytes : Bytes =>
      (some (.ok bytes) : Option (Except Native.PqcStatus Bytes)) := by
    intro b b' h
    exact Except.ok.inj (Option.some.inj h)
  have hstream : (ps.map (Packet.bytes hmac key)).flatten = taggedStream hmac key ps :=
    List.flatMap_def.symm
  rw [FramingAgrees, hencode, ← hstream]
  constructor
  · rintro ⟨messages, hmessages, hread⟩
    rw [List.map_injective_iff.mpr hinj hmessages]
    exact hread
  · intro hread
    exact ⟨_, rfl, hread⟩

/-- A stream is read as it was meant exactly when its tags are not noticed. -/
theorem tagsUnread_iff (hmac : Hmac) (key : Bytes32) (ps : List Packet) :
    readMessages (taggedStream hmac key ps) = ps.map Packet.dispatched ↔
      TagsUnread hmac key ps := by
  have hvalid : ∀ m ∈ ps.map Packet.dispatched, Host.clientFraming.Valid m := by
    intro m hm
    obtain ⟨p, -, rfl⟩ := List.mem_map.mp hm
    exact p.validMessage
  have hframes : (ps.map Packet.dispatched).flatMap Host.clientFraming.frame =
      untaggedStream ps := by
    rw [List.flatMap_map, untaggedStream]
    exact List.flatMap_congr fun p _ => p.messageFrame
  rw [Host.readMessages_eq, Host.clientFraming.readAll_eq_iff hvalid, hframes, TagsUnread]
  exact exists_congr fun rest => and_congr_right fun _ => Host.readMessage_eq_none_iff rest

/-! ## Every MAC -/

/-- A tag that begins with a given byte, zeros otherwise. -/
def zeroTag (b : UInt8) : Bytes32 := ⟨b :: List.replicate 31 0, by simp⟩

/-- For every sequence of messages some MAC gives tags that are noticed: the tag of the first
    message begins with another byte than what should follow the header. -/
theorem exists_not_tagsUnread {ps : List Packet} (hne : ps ≠ []) :
    ∃ hmac key, ¬TagsUnread hmac key ps := by
  obtain ⟨p, ps, rfl⟩ := List.exists_cons_of_ne_nil hne
  -- what the server should find behind the first header
  let follows := p.payload ++ untaggedStream ps
  let b : UInt8 := if follows.head? = some 0 then 1 else 0
  refine ⟨fun _ _ => zeroTag b, Bytes.zero32, ?_⟩
  rintro ⟨rest, hstream, hrest⟩
  have hbehind : (zeroTag b).val ++
      (p.payload ++ taggedStream (fun _ _ => zeroTag b) Bytes.zero32 ps) = follows ++ rest := by
    have htagged : taggedStream (fun _ _ => zeroTag b) Bytes.zero32 (p :: ps) =
        packetCodecEncodeHeader p.hdr ++ ((zeroTag b).val ++
          (p.payload ++ taggedStream (fun _ _ => zeroTag b) Bytes.zero32 ps)) := by
      simp only [taggedStream, List.flatMap_cons, Packet.bytes, Packet.tag, List.append_assoc]
    have huntagged : untaggedStream (p :: ps) = packetCodecEncodeHeader p.hdr ++ follows := by
      simp only [untaggedStream, List.flatMap_cons, List.append_assoc, follows]
    rw [htagged, huntagged, List.append_assoc] at hstream
    exact List.append_cancel_left hstream
  cases hfollows : follows with
  | nil =>
    -- nothing follows, and the tag reads as another message
    obtain ⟨hpayload, huntagged⟩ := List.append_eq_nil_iff.mp hfollows
    have hps : ps = [] := by
      cases ps with
      | nil => rfl
      | cons q ps =>
        rw [untaggedStream, List.flatMap_cons] at huntagged
        exact absurd huntagged (by simp [packetCodecEncodeHeader])
    rw [hfollows, hpayload, hps] at hbehind
    have hzero : rest = (zeroTag b).val := by simpa [taggedStream] using hbehind.symm
    have hb : b = 0 := if_neg (by rw [hfollows]; simp)
    rw [hzero, hb] at hrest
    exact absurd hrest (by decide)
  | cons x xs =>
    -- the tag was chosen to begin with another byte
    have hx : b ≠ x := by
      simp only [b, hfollows, List.head?_cons, Option.some.injEq]
      split_ifs with h0
      · rw [h0]
        decide
      · exact fun h => h0 h.symm
    rw [hfollows] at hbehind
    exact hx (List.cons.inj hbehind).1

/-- The server reads a sequence of messages as it was sent, under every MAC, exactly when it is
    empty; and under one MAC exactly when its tags are not noticed. -/
theorem framingAgrees_iff (ps : List Packet) :
    ((∀ hmac key, FramingAgrees hmac key ps) ↔ ps = []) ∧
      ∀ hmac key, FramingAgrees hmac key ps ↔ TagsUnread hmac key ps := by
  have hunread : ∀ hmac key, FramingAgrees hmac key ps ↔ TagsUnread hmac key ps :=
    fun hmac key => (framingAgrees_eq hmac key ps).trans (tagsUnread_iff hmac key ps)
  refine ⟨⟨fun hall => ?_, ?_⟩, hunread⟩
  · by_contra hne
    obtain ⟨hmac, key, hnoticed⟩ := exists_not_tagsUnread hne
    exact hnoticed ((hunread hmac key).mp (hall hmac key))
  · rintro rfl hmac key
    exact (hunread hmac key).mpr ⟨[], rfl, by decide⟩

/-- Of a message with the payload 7 and a zero tag the server dispatches the payload 0. -/
theorem bytePacket_misread :
    ¬FramingAgrees (fun _ _ => Bytes.zero32) Bytes.zero32 [Native.bytePacket 7] := by
  rw [framingAgrees_eq, tagsUnread_iff]
  rintro ⟨rest, hstream, -⟩
  have hbyte := congrArg (fun s : Bytes => s[16]?) hstream
  rw [List.getElem?_append_left (by decide)] at hbyte
  exact absurd hbyte (by decide)

end SwiftAgg
