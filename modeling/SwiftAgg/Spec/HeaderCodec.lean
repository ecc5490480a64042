import SwiftAgg.Native.PacketCodec
import SwiftAgg.Host.Runs
import SwiftAgg.Host.Connection

/-!
# One header format for both programs

The firmware shifts and masks the fields of a header by hand, the host packs
them with a format string. Both write the same sixteen bytes, and each of the
two codecs is a bijection between headers and strings of sixteen bytes.

## Key results

- `packHeader_eq_ok_iff`: packing and unpacking on the host are inverse
- `packHeader_fields` / `unpackHeader_eq`: the firmware's codec is the host's
- `headerCodec_bijective`: both codecs as one statement
-/

namespace SwiftAgg

open Native (MsgHeader packetCodecEncodeHeader packetCodecDecodeHeader Memory)

/-- The seven values of a header. -/
def Native.MsgHeader.fields (h : MsgHeader) : Host.HeaderFields where
  protocolVersion := h.protocolVersion.toNat
  roundId := h.roundId.toNat
  clientId := h.clientId.toNat
  messageType := h.messageType.toNat
  sequenceNumber := h.sequenceNumber.toNat
  payloadLength := h.payloadLength.toNat
  reserved := h.reserved.toNat

/-- The header with given values. -/
def Host.HeaderFields.msgHeader (f : Host.HeaderFields) : MsgHeader where
  protocolVersion := UInt32.ofNat f.protocolVersion
  roundId := UInt32.ofNat f.roundId
  clientId := UInt8.ofNat f.clientId
  messageType := UInt8.ofNat f.messageType
  sequenceNumber := UInt16.ofNat f.sequenceNumber
  payloadLength := UInt16.ofNat f.payloadLength
  reserved := UInt16.ofNat f.reserved

theorem Native.MsgHeader.inRange_fields (h : MsgHeader) : h.fields.InRange :=
  ⟨h.protocolVersion.toNat_lt, h.roundId.toNat_lt, h.clientId.toNat_lt, h.messageType.toNat_lt,
    h.sequenceNumber.toNat_lt, h.payloadLength.toNat_lt, h.reserved.toNat_lt⟩

@[simp] theorem Native.MsgHeader.msgHeader_fields (h : MsgHeader) : h.fields.msgHeader = h := by
  simp [MsgHeader.fields, Host.HeaderFields.msgHeader]

theorem Host.HeaderFields.fields_msgHeader {f : Host.HeaderFields} (hf : f.InRange) :
    f.msgHeader.fields = f := by
  obtain ⟨hv, hr, hc, ht, hs, hl, hz⟩ := hf
  simp only [Host.HeaderFields.msgHeader, MsgHeader.fields, UInt32.toNat_ofNat', UInt8.toNat_ofNat',
    UInt16.toNat_ofNat', Nat.mod_eq_of_lt, hv, hr, hc, ht, hs, hl, hz]

/-! ## The host's format -/

namespace Host

/-- Packed values unpack to themselves. -/
theorem unpackHeader_of_packHeader {f : HeaderFields} {b : Bytes} (h : packHeader f = .ok b) :
    unpackHeader b = .ok f := by
  unfold packHeader at h
  split at h
  · rename_i hrange
    obtain ⟨hv, hr, hc, ht, hs, hl, hz⟩ := hrange
    cases h
    simp only [Bytes.be32, Bytes.be16, List.cons_append, List.nil_append, unpackHeader,
      Bytes.word32_ofNat hv, Bytes.word32_ofNat hr, Bytes.word16_ofNat hs, Bytes.word16_ofNat hl,
      Bytes.word16_ofNat hz, UInt8.toNat_ofNat', Nat.mod_eq_of_lt hc, Nat.mod_eq_of_lt ht]
  · cases h

/-- Unpacked values pack to the bytes they came from. -/
theorem packHeader_of_unpackHeader {f : HeaderFields} {b : Bytes} (h : unpackHeader b = .ok f) :
    packHeader f = .ok b := by
  unfold unpackHeader at h
  split at h
  · rename_i v₀ v₁ v₂ v₃ r₀ r₁ r₂ r₃ clientId messageType s₀ s₁ l₀ l₁ z₀ z₁
    cases h
    rw [packHeader, if_pos ⟨Bytes.word32_lt v₀ v₁ v₂ v₃, Bytes.word32_lt r₀ r₁ r₂ r₃,
      clientId.toNat_lt, messageType.toNat_lt, Bytes.word16_lt s₁ s₀, Bytes.word16_lt l₁ l₀,
      Bytes.word16_lt z₁ z₀⟩]
    simp only [Bytes.be32_word32, Bytes.be16_word16, UInt8.ofNat_toNat, List.cons_append,
      List.nil_append]
  · cases h

/-- Packing and unpacking are inverse. -/
theorem packHeader_eq_ok_iff {f : HeaderFields} {b : Bytes} :
    packHeader f = .ok b ↔ unpackHeader b = .ok f :=
  ⟨unpackHeader_of_packHeader, packHeader_of_unpackHeader⟩

/-- `_build_header` packs the protocol version and a zero reserved field with its arguments. -/
theorem buildHeader_eq_packHeader
    (messageType roundId clientId sequenceNumber payloadLength : Nat) :
    buildHeader messageType roundId clientId sequenceNumber payloadLength =
      packHeader ⟨0x00010000, roundId, clientId, messageType, sequenceNumber, payloadLength,
        0⟩ := by
  rw [buildHeader, packHeader]
  refine if_congr ?_ rfl rfl
  simp [HeaderFields.InRange]

/-- `_parse_header` unpacks the header. -/
theorem parseHeader_eq_unpackHeader (b : Bytes) :
    parseHeader b = (unpackHeader b).map HeaderFields.header := by
  unfold parseHeader
  split
  · rfl
  · -- the two functions take strings of the same shape
    rename_i hshape
    have herror : unpackHeader b = .error .structError := by
      rw [unpackHeader]
      exact hshape
    exact (congrArg (Except.map HeaderFields.header) herror).symm

end Host

/-! ## The firmware's codec -/

theorem Native.packetCodecEncodeHeader_eq (h : MsgHeader) :
    packetCodecEncodeHeader h =
      Bytes.be32 h.protocolVersion.toNat ++ Bytes.be32 h.roundId.toNat ++
        [h.clientId, h.messageType] ++ Bytes.be16 h.sequenceNumber.toNat ++
        Bytes.be16 h.payloadLength.toNat ++ Bytes.be16 h.reserved.toNat := by
  rw [← Bytes.shifted_be32, ← Bytes.shifted_be32, ← Bytes.shifted_be16, ← Bytes.shifted_be16,
    ← Bytes.shifted_be16]
  rfl

@[simp] theorem Native.length_packetCodecEncodeHeader (h : MsgHeader) :
    (packetCodecEncodeHeader h).length = Native.headerSize := rfl

/-- Encoding in the firmware is packing on the host. -/
theorem Host.packHeader_fields (h : MsgHeader) :
    Host.packHeader h.fields = .ok (packetCodecEncodeHeader h) := by
  rw [Host.packHeader, if_pos h.inRange_fields, Native.packetCodecEncodeHeader_eq]
  simp only [MsgHeader.fields, UInt8.ofNat_toNat]

/-- Decoding in the firmware is unpacking on the host. -/
theorem Host.unpackHeader_eq {b : Bytes} (hb : b.length = 16) :
    Host.unpackHeader b = .ok (packetCodecDecodeHeader (.ofBytes b)).fields := by
  match b, hb with
  | [v₀, v₁, v₂, v₃, r₀, r₁, r₂, r₃, clientId, messageType, s₀, s₁, l₀, l₁, z₀, z₁], _ =>
    simp only [Host.unpackHeader, MsgHeader.fields, packetCodecDecodeHeader,
      Bytes.toNat_shifted32, Bytes.toNat_shifted16]
    rfl

theorem Native.packetCodecDecodeHeader_encodeHeader (h : MsgHeader) :
    packetCodecDecodeHeader (.ofBytes (packetCodecEncodeHeader h)) = h := by
  have hunpack := Host.unpackHeader_of_packHeader (Host.packHeader_fields h)
  rw [Host.unpackHeader_eq (Native.length_packetCodecEncodeHeader h)] at hunpack
  have hfields := Except.ok.inj hunpack
  rw [← MsgHeader.msgHeader_fields (packetCodecDecodeHeader _), hfields,
    MsgHeader.msgHeader_fields]

theorem Native.packetCodecEncodeHeader_decodeHeader {b : Bytes} (hb : b.length = 16) :
    packetCodecEncodeHeader (packetCodecDecodeHeader (.ofBytes b)) = b := by
  have hpack := Host.packHeader_of_unpackHeader (Host.unpackHeader_eq hb)
  rw [Host.packHeader_fields] at hpack
  exact Except.ok.inj hpack

/-- Encoding and decoding a header are inverse in the firmware, and the host packs the same bytes
    and unpacks them to the same values. -/
theorem headerCodec_bijective :
    (∀ h : MsgHeader, packetCodecDecodeHeader (.ofBytes (packetCodecEncodeHeader h)) = h) ∧
      (∀ b : Bytes, b.length = 16 →
        packetCodecEncodeHeader (packetCodecDecodeHeader (.ofBytes b)) = b) ∧
      ∀ f : Host.HeaderFields, f.InRange →
        Host.packHeader f = .ok (packetCodecEncodeHeader f.msgHeader) ∧
          Host.unpackHeader (packetCodecEncodeHeader f.msgHeader) = .ok f := by
  refine ⟨Native.packetCodecDecodeHeader_encodeHeader,
    fun b => Native.packetCodecEncodeHeader_decodeHeader, fun f hf => ?_⟩
  have hpack := Host.packHeader_fields f.msgHeader
  rw [Host.HeaderFields.fields_msgHeader hf] at hpack
  exact ⟨hpack, Host.unpackHeader_of_packHeader hpack⟩

end SwiftAgg
