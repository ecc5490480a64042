import SwiftAgg.ForStd.Bits
import SwiftAgg.Spec.HeaderCodec
import Mathlib.Data.List.Basic

/-!
# Messages of the packet codec

What the codec writes into its `mac_data` array, when that stays inside, and
what a message that passes the tag check says about the one the tag was made
for. The authenticated string leaves out the payload length and the reserved
field; the length is bound all the same, as the string is its twelve header
bytes and the payload to its end.

## Key results

- `macData_inBounds_iff`: the writes stay inside exactly for payloads of at most 1024 bytes
- `packetCodec_roundTrip`: what was encoded is decoded
- `macDataBytes_inj`: the authenticated string determines all but two fields
-/

namespace SwiftAgg.Native

variable {hmac : Hmac} {key : Bytes32} {hdr hdr' : MsgHeader}

/-! ## Buffers -/

theorem Memory.read_ofBytes {b : Bytes} {n : Nat} (h : n ≤ b.length) :
    (Memory.ofBytes b).read n = b.take n := by
  apply List.ext_getElem?
  intro i
  by_cases hi : i < n
  · have hib : i < b.length := by omega
    rw [Memory.read, List.getElem?_map, List.getElem?_range hi, List.getElem?_take_of_lt hi,
      List.getElem?_eq_getElem hib]
    simp [Memory.ofBytes, hib]
  · rw [List.getElem?_eq_none (by simpa using hi), List.getElem?_eq_none (by simp; omega)]

theorem Memory.read_ofBytes_length (b : Bytes) : (Memory.ofBytes b).read b.length = b := by
  rw [Memory.read_ofBytes le_rfl, List.take_length]

/-! ## The authenticated string -/

theorem macDataBytes_eq (hdr : MsgHeader) (payload : Option Memory) (payloadLen : Nat) :
    macDataBytes hdr payload payloadLen =
      (packetCodecEncodeHeader hdr).take 12 ++ payload.elim [] fun mem => mem.read payloadLen := rfl

theorem length_macDataBytes (hdr : MsgHeader) (payload : Option Memory) (payloadLen : Nat) :
    (macDataBytes hdr payload payloadLen).length =
      12 + payload.elim 0 fun _ => payloadLen := by
  cases payload <;> simp [macDataBytes_eq, headerSize]

/-- `build_mac_data` writes one index after the other. -/
theorem exists_mem_buildMacData {payload : Option Memory} {payloadLen i : Nat} :
    (∃ w ∈ buildMacData hdr payload payloadLen, w.2 = i) ↔
      i < 12 + payload.elim 0 fun _ => payloadLen := by
  rw [← length_macDataBytes hdr]
  constructor
  · rintro ⟨⟨b, j⟩, hw, rfl⟩
    exact (List.mem_zipIdx' hw).1
  · intro hi
    exact ⟨((macDataBytes hdr payload payloadLen)[i], i), List.mem_zipIdx_iff_getElem?.mpr
      (List.getElem?_eq_getElem hi), rfl⟩

/-- All writes stay inside `mac_data` exactly when what is written fits into it. -/
theorem macData_inBounds_iff {payload : Option Memory} {payloadLen : Nat} :
    (∀ w ∈ buildMacData hdr payload payloadLen, w.2 < macDataSize) ↔
      (payload.elim 0 fun _ => payloadLen) ≤ 1024 := by
  constructor
  · intro hwrites
    by_contra hlong
    obtain ⟨w, hw, hidx⟩ : ∃ w ∈ buildMacData hdr payload payloadLen, w.2 = macDataSize :=
      exists_mem_buildMacData.mpr (by rw [macDataSize]; omega)
    have hlt := hwrites w hw
    omega
  · intro hlen w hw
    have hidx := exists_mem_buildMacData.mp ⟨w, hw, rfl⟩
    rw [macDataSize]
    omega

theorem macData_eq (hdr : MsgHeader) {payload : Option Memory} {payloadLen : Nat}
    (h : (payload.elim 0 fun _ => payloadLen) ≤ 1024) :
    macData hdr payload payloadLen = some (macDataBytes hdr payload payloadLen) := by
  rw [macData, if_pos (macData_inBounds_iff.mpr h), buildMacData, List.zipIdx_map_fst]

theorem macData_eq_some {payload : Option Memory} {payloadLen : Nat} {data : Bytes}
    (h : macData hdr payload payloadLen = some data) :
    (payload.elim 0 fun _ => payloadLen) ≤ 1024 ∧ data = macDataBytes hdr payload payloadLen := by
  rw [macData] at h
  split at h
  · rename_i hwrites
    cases h
    exact ⟨macData_inBounds_iff.mp hwrites, List.zipIdx_map_fst 0 _⟩
  · cases h

/-- The authenticated string determines the header, its last two fields apart, and the payload. -/
theorem macDataBytes_inj {mem mem' : Memory} {len len' : Nat}
    (h : macDataBytes hdr (some mem) len = macDataBytes hdr' (some mem') len') :
    hdr' = { hdr with payloadLength := hdr'.payloadLength, reserved := hdr'.reserved } ∧
      mem.read len = mem'.read len' := by
  rw [macDataBytes_eq, macDataBytes_eq] at h
  obtain ⟨hheader, hpayload⟩ := List.append_inj h rfl
  refine ⟨?_, hpayload⟩
  have hbyte : ∀ i < 12, Memory.ofBytes (packetCodecEncodeHeader hdr) i =
      Memory.ofBytes (packetCodecEncodeHeader hdr') i := by
    intro i hi
    have hget := congrArg (fun b : Bytes => b.getD i 0) hheader
    simpa only [Memory.ofBytes, List.getD_eq_getElem?_getD, List.getElem?_take_of_lt hi] using hget
  -- both headers are decoded from the same first bytes
  have hdecode := packetCodecDecodeHeader_encodeHeader hdr
  have hdecode' := packetCodecDecodeHeader_encodeHeader hdr'
  simp only [packetCodecDecodeHeader] at hdecode hdecode'
  simp only [← hbyte, Nat.reduceLT] at hdecode'
  rw [← hdecode, ← hdecode']

/-! ## Tags -/

/-- The constant-time comparison finds no difference exactly between equal strings. -/
theorem cryptoCtMemcmp_eq_zero_iff {a b : Bytes} (h : a.length = b.length) :
    cryptoCtMemcmp a b = 0 ↔ a = b := by
  rw [cryptoCtMemcmp, Bytes.foldl_or_eq_zero_iff]
  simp only [true_and]
  induction a generalizing b with
  | nil =>
    cases b with
    | nil => simp
    | cons y b => cases h
  | cons x a ih =>
    cases b with
    | nil => cases h
    | cons y b =>
      rw [List.zipWith_cons_cons, List.forall_mem_cons, ih (Nat.succ.inj h),
        UInt8.xor_eq_zero_iff, List.cons.injEq]

theorem packetCodecVerifyMac_eq (hmac : Hmac) (key : Bytes32) (data : Bytes) {mac : Bytes}
    (h : mac.length = macSize) : packetCodecVerifyMac hmac key data mac =
      if (hmac key.val data).val = mac then .success else .errAuthFailed := by
  have hlen := (packetCodecComputeMac hmac key data).property
  have hcmp := cryptoCtMemcmp_eq_zero_iff (hlen.trans h.symm)
  rw [packetCodecVerifyMac, ite_not]
  exact if_congr hcmp rfl rfl

/-! ## Messages -/

/-- The checks of `packet_codec_encode_message`. -/
def PassesEncode (hdr : MsgHeader) (payload : Option Memory) : Prop :=
  0 < hdr.payloadLength → payload ≠ none

/-- The header of a message as the decoder reads it. -/
def receivedHeader (input : Bytes) : MsgHeader := packetCodecDecodeHeader (.ofBytes input)

/-- The decoder looks at the first sixteen bytes only. -/
theorem receivedHeader_encodeHeader (h : MsgHeader) (rest : Bytes) :
    receivedHeader (packetCodecEncodeHeader h ++ rest) = h := by
  have hbyte : ∀ i < 16, Memory.ofBytes (packetCodecEncodeHeader h ++ rest) i =
      Memory.ofBytes (packetCodecEncodeHeader h) i := by
    intro i hi
    have hlen : i < (packetCodecEncodeHeader h).length := hi
    rw [Memory.ofBytes, Memory.ofBytes, List.getD_eq_getElem?_getD, List.getD_eq_getElem?_getD,
      List.getElem?_append_left hlen]
  have hdecode := packetCodecDecodeHeader_encodeHeader h
  simp only [packetCodecDecodeHeader, ← hbyte, Nat.reduceLT] at hdecode
  exact hdecode

/-- The payload of a message as the decoder reads it. -/
def receivedPayload (input : Bytes) : Bytes :=
  (input.drop payloadOffset).take (receivedHeader input).payloadLength.toNat

/-- The checks of `packet_codec_decode_message` before it builds the authenticated string. -/
def PassesDecode (input : Bytes) : Prop :=
  payloadOffset ≤ input.length ∧
    payloadOffset + (receivedHeader input).payloadLength.toNat ≤ input.length

/-- The tag field of a message. -/
def tagField (input : Bytes) : Bytes := (input.drop macOffset).take macSize

/-- The string that `packet_codec_decode_message` authenticates. -/
def receivedMacData (input : Bytes) : Bytes :=
  macDataBytes (receivedHeader input) (some (.ofBytes (input.drop payloadOffset)))
    (receivedHeader input).payloadLength.toNat

/-- A message as the firmware sends it, with a payload of the announced length that the buffer of
    the codec can take. -/
structure Packet where
  hdr : MsgHeader
  payload : Bytes
  length_eq : payload.length = hdr.payloadLength.toNat
  fits : hdr.payloadLength.toNat ≤ 1024

namespace Packet

/-- The string that is authenticated. -/
def macData (p : Packet) : Bytes := (packetCodecEncodeHeader p.hdr).take 12 ++ p.payload

/-- The tag of the message. -/
def tag (hmac : Hmac) (key : Bytes32) (p : Packet) : Bytes32 := hmac key.val p.macData

/-- The bytes of the message. -/
def bytes (hmac : Hmac) (key : Bytes32) (p : Packet) : Bytes :=
  packetCodecEncodeHeader p.hdr ++ (p.tag hmac key).val ++ p.payload

theorem macDataBytes_eq (p : Packet) :
    macDataBytes p.hdr (some (.ofBytes p.payload)) p.hdr.payloadLength.toNat = p.macData := by
  rw [Native.macDataBytes_eq, ← p.length_eq, Option.elim_some, Memory.read_ofBytes_length]
  rfl

/-- Encoding gives header, tag and payload. -/
theorem encodeMessage_eq (p : Packet) (hmac : Hmac) (key : Bytes32) :
    packetCodecEncodeMessage hmac p.hdr (some (.ofBytes p.payload)) key =
      some (.ok (p.bytes hmac key)) := by
  have hdata : Native.macData p.hdr (some (.ofBytes p.payload)) p.hdr.payloadLength.toNat =
      some p.macData := by
    rw [macData_eq p.hdr (by exact p.fits), p.macDataBytes_eq]
  have hpayload : (Memory.ofBytes p.payload).read p.hdr.payloadLength.toNat = p.payload := by
    rw [← p.length_eq, Memory.read_ofBytes_length]
  rw [packetCodecEncodeMessage, if_neg (fun h => Option.some_ne_none _ h.2), hdata]
  simp only [Option.elim_some, hpayload]
  rfl

/-- The announced length and the string that is checked are those of the message. -/
theorem decode_bytes (p : Packet) (hmac : Hmac) (key : Bytes32) :
    receivedHeader (p.bytes hmac key) = p.hdr ∧
      tagField (p.bytes hmac key) = (p.tag hmac key).val ∧
      (p.bytes hmac key).drop payloadOffset = p.payload := by
  have hlen : (packetCodecEncodeHeader p.hdr).length = headerSize := rfl
  have htag : (p.tag hmac key).val.length = macSize := (p.tag hmac key).property
  refine ⟨?_, ?_, ?_⟩
  · rw [bytes, List.append_assoc, receivedHeader_encodeHeader]
  · rw [tagField, macOffset, bytes, List.append_assoc, List.drop_left' hlen,
      List.take_left' htag]
  · rw [bytes, List.drop_left' (by rw [List.length_append, hlen, htag]; rfl)]

end Packet

/-- A message that passes the checks and fits the buffer is accepted exactly if its tag is that of
    the string it announces. -/
theorem decodeMessage_eq {input : Bytes} (h : PassesDecode input)
    (hfits : (receivedHeader input).payloadLength.toNat ≤ 1024) :
    packetCodecDecodeMessage hmac input key =
      some (if (hmac key.val (receivedMacData input)).val = tagField input then
          ⟨.success, some (receivedHeader input), receivedPayload input⟩
        else ⟨.errAuthFailed, some (receivedHeader input), []⟩) := by
  obtain ⟨hshort, hcut⟩ := h
  -- the parts of the message that the decoder takes out
  have htaglen : (tagField input).length = macSize := by
    rw [tagField, List.length_take, List.length_drop]
    simp only [payloadOffset, macOffset, headerSize, macSize] at hshort ⊢
    omega
  have hdata : macData (receivedHeader input) (some (.ofBytes (input.drop payloadOffset)))
      (receivedHeader input).payloadLength.toNat = some (receivedMacData input) :=
    macData_eq _ (by exact hfits)
  have hread : (Memory.ofBytes (input.drop payloadOffset)).read
      (receivedHeader input).payloadLength.toNat = receivedPayload input := by
    refine Memory.read_ofBytes ?_
    rw [List.length_drop]
    omega
  -- both checks pass, and what is left is the comparison of the tags
  rw [packetCodecDecodeMessage, if_neg (not_lt.mpr hshort)]
  simp only
  rw [← receivedHeader, if_neg (not_lt.mpr hcut), hdata]
  simp only [Option.bind_eq_bind, Option.bind_some]
  rw [← tagField, packetCodecVerifyMac_eq hmac key (receivedMacData input) htaglen, hread]
  by_cases htag : (hmac key.val (receivedMacData input)).val = tagField input
  · rw [if_pos htag, if_pos htag]
    rfl
  · rw [if_neg htag, if_neg htag]
    rfl

/-- Only such messages are accepted. -/
theorem passesDecode_of_success {input : Bytes} {d : Decoded}
    (h : packetCodecDecodeMessage hmac input key = some d) (hs : d.status = .success) :
    PassesDecode input ∧ (receivedHeader input).payloadLength.toNat ≤ 1024 := by
  rw [packetCodecDecodeMessage] at h
  split at h
  · cases h
    cases hs
  rename_i hshort
  simp only at h
  split at h
  · cases h
    cases hs
  rename_i hcut
  obtain ⟨data, hdata, -⟩ := Option.bind_eq_some_iff.mp h
  exact ⟨⟨not_lt.mp hshort, not_lt.mp hcut⟩, (macData_eq_some hdata).1⟩

/-- An accepted message has the tag of the string it announces, and its parts are returned. -/
theorem eq_of_success {input : Bytes} {d : Decoded}
    (h : packetCodecDecodeMessage hmac input key = some d) (hs : d.status = .success) :
    (hmac key.val (receivedMacData input)).val = tagField input ∧
      d = ⟨.success, some (receivedHeader input), receivedPayload input⟩ := by
  obtain ⟨hpasses, hfits⟩ := passesDecode_of_success h hs
  rw [decodeMessage_eq hpasses hfits] at h
  by_cases hmatch : (hmac key.val (receivedMacData input)).val = tagField input
  · rw [if_pos hmatch] at h
    exact ⟨hmatch, (Option.some.inj h).symm⟩
  · -- the decoder has refused it
    rw [if_neg hmatch] at h
    cases h
    cases hs

/-! ## Round trip and authenticity -/

/-- What was encoded is decoded. -/
theorem packetCodec_roundTrip (p : Packet) (hmac : Hmac) (key : Bytes32) :
    packetCodecDecodeMessage hmac (p.bytes hmac key) key =
      some ⟨.success, some p.hdr, p.payload⟩ := by
  obtain ⟨hhdr, htag, hrest⟩ := p.decode_bytes hmac key
  have hpayload : receivedPayload (p.bytes hmac key) = p.payload := by
    rw [receivedPayload, hrest, hhdr, ← p.length_eq, List.take_length]
  have hdata : receivedMacData (p.bytes hmac key) = p.macData := by
    rw [receivedMacData, hhdr, hrest]
    exact p.macDataBytes_eq
  have hlen : (p.bytes hmac key).length = payloadOffset + p.hdr.payloadLength.toNat := by
    rw [Packet.bytes, List.length_append, List.length_append, p.length_eq,
      (p.tag hmac key).property]
    rfl
  have hpasses : PassesDecode (p.bytes hmac key) := by
    rw [PassesDecode, hhdr, hlen]
    exact ⟨Nat.le_add_right _ _, le_rfl⟩
  rw [decodeMessage_eq hpasses (hhdr ▸ p.fits), hdata, htag, hhdr, hpayload]
  exact congrArg some (if_pos rfl)

/-- No other string has the tag of the message. -/
def Packet.TagUnique (hmac : Hmac) (key : Bytes32) (p : Packet) : Prop :=
  ∀ data, hmac key.val data = p.tag hmac key → data = p.macData

/-- An accepted message with the tag of `p` is `p` but for the reserved field. -/
theorem Packet.TagUnique.eq_of_accepted {p : Packet} (h : p.TagUnique hmac key) {input : Bytes}
    {d : Decoded} (hdecode : packetCodecDecodeMessage hmac input key = some d)
    (hs : d.status = .success) (htag : tagField input = (p.tag hmac key).val) :
    ∃ hdr, d.hdr = some hdr ∧ hdr = { p.hdr with reserved := hdr.reserved } ∧
      d.payload = p.payload := by
  obtain ⟨⟨-, hcut⟩, -⟩ := passesDecode_of_success hdecode hs
  obtain ⟨hmatch, rfl⟩ := eq_of_success hdecode hs
  have hdata := h _ (Subtype.ext (hmatch.trans htag))
  rw [← p.macDataBytes_eq] at hdata
  obtain ⟨hhdr, hpayload⟩ := macDataBytes_inj hdata.symm
  rw [← p.length_eq, Memory.read_ofBytes_length] at hpayload
  have hread : (Memory.ofBytes (input.drop payloadOffset)).read
      (receivedHeader input).payloadLength.toNat = receivedPayload input := by
    refine Memory.read_ofBytes ?_
    rw [List.length_drop]
    omega
  have hsame : receivedPayload input = p.payload := hread.symm.trans hpayload.symm
  -- the payloads are equal, so the announced lengths are
  have hlength : (receivedHeader input).payloadLength = p.hdr.payloadLength := by
    apply UInt16.toNat_inj.mp
    rw [← p.length_eq, ← hsame, ← hread, Memory.length_read]
  refine ⟨_, rfl, ?_, hsame⟩
  rw [hlength] at hhdr
  exact hhdr

/-- A message is decoded as it was encoded; and if no other string has its tag, every accepted
    message with this tag is the same but for the reserved field. -/
theorem packetCodec_authentic (hmac : Hmac) (key : Bytes32) (p : Packet) :
    ∃ bytes, packetCodecEncodeMessage hmac p.hdr (some (.ofBytes p.payload)) key =
        some (.ok bytes) ∧
      packetCodecDecodeMessage hmac bytes key = some ⟨.success, some p.hdr, p.payload⟩ ∧
      (p.TagUnique hmac key → ∀ input d, packetCodecDecodeMessage hmac input key = some d →
        d.status = .success → tagField input = tagField bytes →
          ∃ hdr, d.hdr = some hdr ∧ hdr = { p.hdr with reserved := hdr.reserved } ∧
            d.payload = p.payload) := by
  refine ⟨_, p.encodeMessage_eq hmac key, packetCodec_roundTrip p hmac key, ?_⟩
  intro hunique input d hdecode hs htag
  exact hunique.eq_of_accepted hdecode hs (htag.trans (p.decode_bytes hmac key).2.1)

/-- A message with one payload byte. -/
def bytePacket (b : UInt8) : Packet where
  hdr := ⟨0x10000, 1, 1, MsgType.maskChunk.code, 0, 1, 0⟩
  payload := [b]
  length_eq := rfl
  fits := by decide

/-- A MAC that gives the message with the byte 7 a tag of its own. -/
def sevenMac : Hmac := fun _ data =>
  if data = (bytePacket 7).macData then ⟨List.replicate 32 1, by simp⟩ else Bytes.zero32

/-- The message with the byte 7, its reserved field changed. -/
def reservedChanged : Bytes :=
  packetCodecEncodeHeader { (bytePacket 7).hdr with reserved := 5 } ++ List.replicate 32 1 ++ [7]

/-- The changed message is accepted, and it is the message but for the reserved field. -/
theorem reservedChanged_accepted :
    packetCodecDecodeMessage sevenMac reservedChanged Bytes.zero32 =
      some ⟨.success, some { (bytePacket 7).hdr with reserved := 5 }, [7]⟩ ∧
    ∃ hdr, some { (bytePacket 7).hdr with reserved := 5 } = some hdr ∧
      hdr = { (bytePacket 7).hdr with reserved := hdr.reserved } ∧
        [7] = (bytePacket 7).payload := by
  -- this MAC gives its tag to no other message
  have hunique : (bytePacket 7).TagUnique sevenMac Bytes.zero32 := by
    intro data hdata
    by_contra hne
    have hother : sevenMac Bytes.zero32.val data = Bytes.zero32 := if_neg hne
    have hown : sevenMac Bytes.zero32.val (bytePacket 7).macData =
        ⟨List.replicate 32 1, by simp⟩ := if_pos rfl
    rw [hother, Packet.tag, hown] at hdata
    exact absurd hdata (by decide)
  have hdecode : packetCodecDecodeMessage sevenMac reservedChanged Bytes.zero32 =
      some ⟨.success, some { (bytePacket 7).hdr with reserved := 5 }, [7]⟩ := by
    decide +kernel
  obtain ⟨bytes, hbytes, -, hauthentic⟩ :=
    packetCodec_authentic sevenMac Bytes.zero32 (bytePacket 7)
  have htag : tagField reservedChanged = tagField bytes := by
    rw [Packet.encodeMessage_eq] at hbytes
    cases hbytes
    decide +kernel
  exact ⟨hdecode, hauthentic hunique reservedChanged _ hdecode rfl htag⟩

/-! ## The buffer -/

/-- The writes of `packet_codec_encode_message` into `mac_data` stay inside. -/
def EncodeInBounds (hdr : MsgHeader) (payload : Option Memory) : Prop :=
  ∀ w ∈ buildMacData hdr payload hdr.payloadLength.toNat, w.2 < macDataSize

/-- The writes of `packet_codec_decode_message` into `mac_data` stay inside. -/
def DecodeInBounds (input : Bytes) : Prop :=
  ∀ w ∈ buildMacData (receivedHeader input) (some (.ofBytes (input.drop payloadOffset)))
    (receivedHeader input).payloadLength.toNat, w.2 < macDataSize

/-- Of everything that passes the checks of the codec, the writes stay inside `mac_data` exactly
    when the announced payload has at most 1024 bytes. -/
theorem macData_inBounds (hdr : MsgHeader) (payload : Option Memory) (input : Bytes) :
    (PassesEncode hdr payload →
      (EncodeInBounds hdr payload ↔ hdr.payloadLength ≤ 1024)) ∧
    (PassesDecode input →
      (DecodeInBounds input ↔ (receivedHeader input).payloadLength ≤ 1024)) := by
  constructor
  · intro hpasses
    rw [EncodeInBounds, macData_inBounds_iff, UInt16.le_iff_toNat_le]
    cases payload with
    | none =>
      -- a missing payload is announced as empty
      have hzero : ¬0 < hdr.payloadLength := fun hpos => hpasses hpos rfl
      rw [UInt16.lt_iff_toNat_lt] at hzero
      simp only [Option.elim_none, UInt16.reduceToNat] at hzero ⊢
      omega
    | some mem => rfl
  · intro _
    rw [DecodeInBounds, macData_inBounds_iff, UInt16.le_iff_toNat_le]
    rfl

/-- The header of a KEM_PUBLIC_KEY message with an ML-KEM-768 key. -/
def kemKeyHeader : MsgHeader where
  protocolVersion := 0x10000
  roundId := 1
  clientId := 1
  messageType := MsgType.kemPublicKey.code
  sequenceNumber := 0
  payloadLength := 1184
  reserved := 0

/-- Such a message without a valid tag. -/
def untaggedKemKey : Bytes :=
  packetCodecEncodeHeader kemKeyHeader ++ List.replicate (macSize + 1184) 0

/-- Encoding a public key writes past `mac_data`, and so does decoding any message of its size,
    whatever its tag. -/
theorem kemKey_outOfBounds :
    (PassesEncode kemKeyHeader (some fun _ => 0) ∧
      ¬EncodeInBounds kemKeyHeader (some fun _ => 0)) ∧
    PassesDecode untaggedKemKey ∧ ¬DecodeInBounds untaggedKemKey := by
  have hhdr : receivedHeader untaggedKemKey = kemKeyHeader := receivedHeader_encodeHeader _ _
  refine ⟨⟨fun _ => by simp, ?_⟩, ?_, ?_⟩
  · rw [EncodeInBounds, macData_inBounds_iff]
    decide
  · rw [PassesDecode, hhdr, untaggedKemKey, List.length_append, List.length_replicate]
    decide
  · rw [DecodeInBounds, macData_inBounds_iff, hhdr]
    decide

end SwiftAgg.Native
