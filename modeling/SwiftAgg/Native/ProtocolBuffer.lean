import SwiftAgg.ForStd.ByteMemory
import SwiftAgg.Native.PacketCodec
import SwiftAgg.Native.Timeouts

/-!
# The protocol state buffer

`packet_codec_encode_message` as it writes to memory, and the calls of
`state_machine.c` that encode into `proto_state` of the scratchpad: the share
messages of `state_machine_handle_completion` and the DROPOUT_NOTIFY messages
of `protocol_check_timeouts`. Both pass `proto->data` for the packet and
`&proto->data[0]` for its length.
-/

namespace SwiftAgg.Native

open ByteMemory

/-! ## The encoder in memory -/

/-- The number of bytes of a `size_t`. -/
abbrev SizeWidth := { width : Nat // 0 < width }

/-- The bytes of a `size_t`, the low byte first. -/
def sizeBytes (width : SizeWidth) (n : Nat) : Bytes :=
  (List.range width.val).map fun i => UInt8.ofNat (n / 256 ^ i)

/-- `packet_codec_encode_message` with the addresses `out` and `out_len` of one memory (its
    pointers, `payload` apart, are not `NULL`): the status and the memory, in the order of the
    writes. -/
def packetCodecEncodeInto (hmac : Hmac) (width : SizeWidth) (hdr : MsgHeader)
    (payload : Option Memory) (macKey : Bytes32) (out outLen : Nat) (mem : Memory) :
    Option (PqcStatus × Memory) :=
  if 0 < hdr.payloadLength ∧ payload = none then some (.errInvalidArgument, mem)
  else do
    let mem := writeAt mem out (packetCodecEncodeHeader hdr)
    let mem := writeAt mem (out + payloadOffset)
      (payload.elim [] fun p => p.read hdr.payloadLength.toNat)
    let data ← macData hdr payload hdr.payloadLength.toNat
    let mac := packetCodecComputeMac hmac macKey data
    let mem := writeAt mem (out + macOffset) mac.val
    -- the length is stored last
    let mem := writeAt mem outLen (sizeBytes width (payloadOffset + hdr.payloadLength.toNat))
    return (.success, mem)

/-! ## The buffer -/

/-- `PROTOCOL_STATE_BYTES`. -/
def protocolStateBytes : Nat := 512

/-- `packet_codec_encode_message(.., proto->data, &proto->data[0])`; the status is discarded. -/
def encodeToProtoState (hmac : Hmac) (width : SizeWidth) (hdr : MsgHeader) (payload : Option Memory)
    (macKey : Bytes32) (proto : Memory) : Option Memory :=
  (packetCodecEncodeInto hmac width hdr payload macKey 0 0 proto).map Prod.snd

/-- The bytes of a `shamir_share_t`. -/
def ShamirShare.bytes (share : ShamirShare) : Bytes := share.shareId :: share.value

/-- The buffer after the share messages of `state_machine_handle_completion`. -/
def protoStateAfterShares (hmac : Hmac) (width : SizeWidth) (sessionKey : Bytes32)
    (sent : List (MsgHeader × ShamirShare)) (proto : Memory) : Option Memory :=
  sent.foldlM (fun proto m =>
    encodeToProtoState hmac width m.1 (some (.ofBytes m.2.bytes)) sessionKey proto) proto

/-- The contexts for which `protocol_check_timeouts` encodes a DROPOUT_NOTIFY, as they were. -/
def ClientSystem.notified (msToTicks : UInt32 → UInt32) (sys : ClientSystem) (tick : UInt32) :
    List ClientProtocolCtx :=
  (detectDropouts (msToTicks dropoutTimeoutMs) (sys.registered.map fun ctx => (tick, ctx))
    sys.contexts).2

/-- The buffer after these messages. -/
def protoStateAfterNotices (hmac : Hmac) (width : SizeWidth) (notified : List ClientProtocolCtx)
    (proto : Memory) : Option Memory :=
  notified.foldlM (fun proto ctx =>
    encodeToProtoState hmac width (ClientSystem.dropoutHeader ctx) none ctx.sessionKey proto) proto

end SwiftAgg.Native
