import SwiftAgg.Native.Types

/-!
# Messages on the wire

`packet_codec.c`: the header in 16 big-endian bytes, the authenticated data and
the message `header, tag, payload`. HMAC-SHA256 of TinyCrypt is a parameter.
The authenticated data is built in a local array of `12 + 1024` bytes; a call
that writes past its end has no result (`none`).
-/

namespace SwiftAgg.Native

/-- `HEADER_SIZE`. -/
def headerSize : Nat := 16

/-- `MAC_SIZE`. -/
def macSize : Nat := 32

/-- `MAC_OFFSET`. -/
def macOffset : Nat := headerSize

/-- `PAYLOAD_OFFSET`. -/
def payloadOffset : Nat := headerSize + macSize

/-! ## Headers -/

/-- `packet_codec_encode_header` (its pointers are not `NULL`). -/
def packetCodecEncodeHeader (hdr : MsgHeader) : Bytes :=
  [(hdr.protocolVersion >>> 24 &&& 0xFF).toUInt8, (hdr.protocolVersion >>> 16 &&& 0xFF).toUInt8,
    (hdr.protocolVersion >>> 8 &&& 0xFF).toUInt8, (hdr.protocolVersion &&& 0xFF).toUInt8,
    (hdr.roundId >>> 24 &&& 0xFF).toUInt8, (hdr.roundId >>> 16 &&& 0xFF).toUInt8,
    (hdr.roundId >>> 8 &&& 0xFF).toUInt8, (hdr.roundId &&& 0xFF).toUInt8,
    hdr.clientId, hdr.messageType,
    (hdr.sequenceNumber >>> 8 &&& 0xFF).toUInt8, (hdr.sequenceNumber &&& 0xFF).toUInt8,
    (hdr.payloadLength >>> 8 &&& 0xFF).toUInt8, (hdr.payloadLength &&& 0xFF).toUInt8,
    (hdr.reserved >>> 8 &&& 0xFF).toUInt8, (hdr.reserved &&& 0xFF).toUInt8]

/-- `packet_codec_decode_header` (its pointers are not `NULL`). -/
def packetCodecDecodeHeader (input : Memory) : MsgHeader where
  protocolVersion := ((input 0).toUInt32 <<< 24) ||| ((input 1).toUInt32 <<< 16) |||
    ((input 2).toUInt32 <<< 8) ||| (input 3).toUInt32
  roundId := ((input 4).toUInt32 <<< 24) ||| ((input 5).toUInt32 <<< 16) |||
    ((input 6).toUInt32 <<< 8) ||| (input 7).toUInt32
  clientId := input 8
  messageType := input 9
  sequenceNumber := ((input 10).toUInt16 <<< 8) ||| (input 11).toUInt16
  payloadLength := ((input 12).toUInt16 <<< 8) ||| (input 13).toUInt16
  reserved := ((input 14).toUInt16 <<< 8) ||| (input 15).toUInt16

/-! ## Authenticated data -/

/-- The bytes `build_mac_data` writes, in its order; `payload` may be `NULL`. -/
def macDataBytes (hdr : MsgHeader) (payload : Option Memory) (payloadLen : Nat) : Bytes :=
  [(hdr.protocolVersion >>> 24 &&& 0xFF).toUInt8, (hdr.protocolVersion >>> 16 &&& 0xFF).toUInt8,
    (hdr.protocolVersion >>> 8 &&& 0xFF).toUInt8, (hdr.protocolVersion &&& 0xFF).toUInt8,
    (hdr.roundId >>> 24 &&& 0xFF).toUInt8, (hdr.roundId >>> 16 &&& 0xFF).toUInt8,
    (hdr.roundId >>> 8 &&& 0xFF).toUInt8, (hdr.roundId &&& 0xFF).toUInt8,
    hdr.clientId, hdr.messageType,
    (hdr.sequenceNumber >>> 8 &&& 0xFF).toUInt8, (hdr.sequenceNumber &&& 0xFF).toUInt8] ++
  -- neither the payload length nor the reserved field is authenticated
  payload.elim [] fun mem => mem.read payloadLen

/-- `build_mac_data`: its writes `mac_data[idx++] = byte`, each with its index. -/
def buildMacData (hdr : MsgHeader) (payload : Option Memory) (payloadLen : Nat) :
    List (UInt8 × Nat) :=
  (macDataBytes hdr payload payloadLen).zipIdx

/-- The size of the local array `mac_data`. -/
def macDataSize : Nat := 12 + 1024

/-- The contents of `mac_data` after `build_mac_data`; `none` if a write lies past its end. -/
def macData (hdr : MsgHeader) (payload : Option Memory) (payloadLen : Nat) : Option Bytes :=
  let writes := buildMacData hdr payload payloadLen
  if ∀ w ∈ writes, w.2 < macDataSize then some (writes.map Prod.fst) else none

/-- `packet_codec_compute_mac` (its pointers are not `NULL`). -/
def packetCodecComputeMac (hmac : Hmac) (key : Bytes32) (data : Bytes) : Bytes32 :=
  hmac key.val data

/-- `crypto_ct_memcmp`. -/
def cryptoCtMemcmp (a b : Bytes) : UInt8 :=
  (List.zipWith (· ^^^ ·) a b).foldl (· ||| ·) 0

/-- `packet_codec_verify_mac` (its pointers are not `NULL`). -/
def packetCodecVerifyMac (hmac : Hmac) (key : Bytes32) (data mac : Bytes) : PqcStatus :=
  if cryptoCtMemcmp (packetCodecComputeMac hmac key data).val mac ≠ 0 then .errAuthFailed
  else .success

/-! ## Messages -/

/-- `packet_codec_encode_message` (its pointers, `payload` apart, are not `NULL`): the bytes written
    to `out`, whose number is `*out_len`. -/
def packetCodecEncodeMessage (hmac : Hmac) (hdr : MsgHeader) (payload : Option Memory)
    (macKey : Bytes32) : Option (Except PqcStatus Bytes) :=
  if 0 < hdr.payloadLength ∧ payload = none then some (.error .errInvalidArgument)
  else do
    let data ← macData hdr payload hdr.payloadLength.toNat
    let mac := packetCodecComputeMac hmac macKey data
    return .ok (packetCodecEncodeHeader hdr ++ mac.val ++
      payload.elim [] fun mem => mem.read hdr.payloadLength.toNat)

/-- What `packet_codec_decode_message` returns: its status, the header if it wrote one, and the
    bytes it copied to `payload`. -/
structure Decoded where
  status : PqcStatus
  hdr : Option MsgHeader
  payload : Bytes
  deriving DecidableEq

/-- `packet_codec_decode_message` of `in_len` bytes (its pointers are not `NULL`). -/
def packetCodecDecodeMessage (hmac : Hmac) (input : Bytes) (macKey : Bytes32) : Option Decoded :=
  if input.length < payloadOffset then some ⟨.errInvalidArgument, none, []⟩
  else
    let hdr := packetCodecDecodeHeader (.ofBytes input)
    if input.length < payloadOffset + hdr.payloadLength.toNat then
      some ⟨.errInvalidArgument, some hdr, []⟩
    else do
      -- the announced length is used before the tag is checked
      let payload := Memory.ofBytes (input.drop payloadOffset)
      let data ← macData hdr (some payload) hdr.payloadLength.toNat
      let receivedMac := (input.drop macOffset).take macSize
      match packetCodecVerifyMac hmac macKey data receivedMac with
      | .success => return ⟨.success, some hdr, payload.read hdr.payloadLength.toNat⟩
      | status => return ⟨status, some hdr, []⟩

end SwiftAgg.Native
