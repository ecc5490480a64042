import SwiftAgg.ForStd.PartialRun
import SwiftAgg.Native.ProtocolBuffer
import SwiftAgg.Spec.KeyAgreement
import SwiftAgg.Spec.PacketCodecCorrect

/-!
# Packets in the protocol state buffer

The encoder stores the length of a packet last. With a place of its own for it
the memory holds the packet; the calls of the state machine give the start of
the packet as this place, so that the length lies over the header and the
version of the protocol is lost.

## Key results

- `encodeInto_readAt` / `encodeInto_decode`: the packet, its length stored elsewhere
- `encodeToProtoState_zero`: the first byte of the buffer
- `protocolBuffer_readsBack_iff`: the last packet of a call is never read back
-/

namespace SwiftAgg.Native

open ByteMemory

variable {hmac : Hmac} {key : Bytes32} {hdr : MsgHeader} {payload : Option Memory}
  {width : SizeWidth} {mem mem' proto proto' : Memory}

@[simp] theorem length_sizeBytes (width : SizeWidth) (n : Nat) :
    (sizeBytes width n).length = width.val := by
  rw [sizeBytes, List.length_map, List.length_range]

/-! ## The encoder in memory -/

/-- What the encoder leaves in memory: the packet and, on top of it, its length. -/
theorem encodeInto_eq_some {out outLen : Nat} {status : PqcStatus}
    (hpass : PassesEncode hdr payload)
    (h : packetCodecEncodeInto hmac width hdr payload key out outLen mem = some (status, mem')) :
    status = .success ∧ ∃ data, macData hdr payload hdr.payloadLength.toNat = some data ∧
      mem' =
        writeAt
          (writeAt
            (writeAt (writeAt mem out (packetCodecEncodeHeader hdr)) (out + payloadOffset)
              (payload.elim [] fun p => p.read hdr.payloadLength.toNat))
            (out + macOffset) (packetCodecComputeMac hmac key data).val)
          outLen (sizeBytes width (payloadOffset + hdr.payloadLength.toNat)) := by
  rw [packetCodecEncodeInto, if_neg fun hnull => hpass hnull.1 hnull.2] at h
  obtain ⟨data, hdata, hret⟩ := Option.bind_eq_some_iff.mp h
  cases hret
  exact ⟨rfl, data, hdata, rfl⟩

/-- With the length stored outside of it, the packet is in memory as it was encoded. -/
theorem encodeInto_readAt {out outLen : Nat} {status : PqcStatus} (hpass : PassesEncode hdr payload)
    (hlen : outLen + width.val ≤ out ∨ out + payloadOffset + hdr.payloadLength.toNat ≤ outLen)
    (h : packetCodecEncodeInto hmac width hdr payload key out outLen mem = some (status, mem')) :
    packetCodecEncodeMessage hmac hdr payload key =
      some (.ok (readAt mem' out (payloadOffset + hdr.payloadLength.toNat))) := by
  obtain ⟨-, data, hdata, rfl⟩ := encodeInto_eq_some hpass h
  rw [packetCodecEncodeMessage, if_neg fun hnull => hpass hnull.1 hnull.2, hdata]
  refine congrArg (fun b => some (Except.ok b)) ?_
  -- the parts of the packet lie one behind the other
  generalize hbody : (payload.elim [] fun p => p.read hdr.payloadLength.toNat) = body
  have hbodylen : body.length = hdr.payloadLength.toNat := by
    rw [← hbody]
    cases payload with
    | some p => exact p.length_read _
    | none =>
      have hzero : ¬0 < hdr.payloadLength := fun hpos => hpass hpos rfl
      have hnat := UInt16.lt_iff_toNat_lt.not.mp hzero
      exact (Nat.eq_zero_of_not_pos hnat).symm
  have hhdrlen := length_packetCodecEncodeHeader hdr
  have hmaclen : (packetCodecComputeMac hmac key data).val.length = macSize :=
    (packetCodecComputeMac hmac key data).property
  rw [readAt_writeAt_of_disjoint (by rw [length_sizeBytes]; omega), readAt_add, payloadOffset,
    readAt_add]
  congr 1
  · congr 1
    · rw [readAt_writeAt_of_disjoint (.inl (by rw [macOffset])),
        readAt_writeAt_of_disjoint (.inl (by omega)), ← hhdrlen, readAt_writeAt]
    · rw [← hmaclen, macOffset, readAt_writeAt]
  · rw [readAt_writeAt_of_disjoint (.inr (by rw [hmaclen, macOffset, Nat.add_assoc])), ← hbodylen,
      readAt_writeAt]

/-- So the decoder returns what was encoded. -/
theorem encodeInto_decode (p : Packet) {out outLen : Nat} {status : PqcStatus}
    (hlen : outLen + width.val ≤ out ∨ out + payloadOffset + p.hdr.payloadLength.toNat ≤ outLen)
    (h : packetCodecEncodeInto hmac width p.hdr (some (.ofBytes p.payload)) key out outLen mem =
      some (status, mem')) :
    packetCodecDecodeMessage hmac
        (readAt mem' out (payloadOffset + p.hdr.payloadLength.toNat)) key =
      some ⟨.success, some p.hdr, p.payload⟩ := by
  have hmessage := encodeInto_readAt (fun _ => Option.some_ne_none _) hlen h
  rw [p.encodeMessage_eq] at hmessage
  rw [← Except.ok.inj (Option.some.inj hmessage)]
  exact packetCodec_roundTrip p hmac key

/-! ## The buffer -/

/-- The first byte of the buffer is the low byte of the length of the packet. -/
theorem encodeToProtoState_zero (hpass : PassesEncode hdr payload)
    (h : encodeToProtoState hmac width hdr payload key proto = some proto') :
    proto' 0 = UInt8.ofNat (payloadOffset + hdr.payloadLength.toNat) := by
  obtain ⟨⟨status, mem⟩, hencode, rfl⟩ := Option.map_eq_some_iff.mp h
  obtain ⟨-, data, -, rfl⟩ := encodeInto_eq_some hpass hencode
  have hlt : 0 < (sizeBytes width (payloadOffset + hdr.payloadLength.toNat)).length := by
    rw [length_sizeBytes]
    exact width.property
  refine (writeAt_add (a := 0) hlt).trans ?_
  simp [sizeBytes]

/-- The buffer is accepted as a packet with this header and payload. -/
def ReadsBack (hmac : Hmac) (key : Bytes32) (proto : Memory) (hdr : MsgHeader) (payload : Bytes) :
    Prop :=
  ∃ len ≤ protocolStateBytes,
    packetCodecDecodeMessage hmac (proto.read len) key = some ⟨.success, some hdr, payload⟩

/-- A packet that carries the version of the protocol begins with a zero. -/
theorem ReadsBack.apply_zero {payload : Bytes} (h : ReadsBack hmac key proto hdr payload)
    (hversion : hdr.protocolVersion = protocolVersion) : proto 0 = 0 := by
  obtain ⟨len, -, hdecode⟩ := h
  obtain ⟨⟨hshort, -⟩, -⟩ := passesDecode_of_success hdecode rfl
  obtain ⟨-, hparts⟩ := eq_of_success hdecode rfl
  obtain rfl : hdr = receivedHeader (proto.read len) :=
    Option.some.inj (congrArg Decoded.hdr hparts)
  have hbyte : Memory.ofBytes (proto.read len) 0 = proto 0 := by
    rw [Memory.length_read] at hshort
    have hlen : 0 < len := Nat.lt_of_lt_of_le (by decide) hshort
    simp [Memory.ofBytes, Memory.read, hlen]
  have hshifted := Bytes.toNat_shifted32 (Memory.ofBytes (proto.read len) 0)
    (Memory.ofBytes (proto.read len) 1) (Memory.ofBytes (proto.read len) 2)
    (Memory.ofBytes (proto.read len) 3)
  have hnat : (receivedHeader (proto.read len)).protocolVersion.toNat = 2 ^ 16 := by
    rw [hversion]
    rfl
  have hsum := hshifted.symm.trans hnat
  rw [hbyte, Bytes.word16, Bytes.word16] at hsum
  refine UInt8.toNat_inj.mp ?_
  rw [UInt8.toNat_zero]
  omega

/-- No packet of the protocol is read back whose length does not end in a zero byte. -/
theorem not_readsBack {data : Bytes} (hpass : PassesEncode hdr payload)
    (hversion : hdr.protocolVersion = protocolVersion)
    (hlen : UInt8.ofNat (payloadOffset + hdr.payloadLength.toNat) ≠ 0)
    (h : encodeToProtoState hmac width hdr payload key proto = some proto') :
    ¬ReadsBack hmac key proto' hdr data := by
  intro hreads
  rw [← encodeToProtoState_zero hpass h] at hlen
  exact hlen (hreads.apply_zero hversion)

/-- Of packets encoded one after the other the last one is read back only where there is none. -/
theorem lastReadsBack_iff {α : Type} (header : α → MsgHeader) (payload : α → Option Memory)
    (data : α → Bytes) (key : α → Bytes32) {packets : List α}
    (hpackets : ∀ p ∈ packets, PassesEncode (header p) (payload p) ∧
      (header p).protocolVersion = protocolVersion ∧
      UInt8.ofNat (payloadOffset + (header p).payloadLength.toNat) ≠ 0) (proto : Memory) :
    (∀ p, packets.getLast? = some p → ∃ proto',
      packets.foldlM (fun proto p =>
          encodeToProtoState hmac width (header p) (payload p) (key p) proto) proto =
        some proto' ∧ ReadsBack hmac (key p) proto' (header p) (data p)) ↔
      packets = [] := by
  refine ⟨fun hreads => ?_, fun hnone p hlast => ?_⟩
  · by_contra hsome
    obtain ⟨p, hlast⟩ := Option.ne_none_iff_exists'.mp (List.getLast?_eq_none_iff.not.mpr hsome)
    obtain ⟨hpass, hversion, hlen⟩ := hpackets p (List.mem_of_getLast? hlast)
    obtain ⟨proto', hrun, hback⟩ := hreads p hlast
    obtain ⟨before, hpre⟩ := List.getLast?_eq_some_iff.mp hlast
    rw [hpre] at hrun
    obtain ⟨proto₁, -, hstep⟩ := Option.bind_eq_some_iff.mp
      ((PartialRun.run_concat proto before p).symm.trans hrun)
    exact not_readsBack hpass hversion hlen hstep hback
  · rw [hnone] at hlast
    cases hlast

/-! ## The calls of the state machine -/

/-- The last share message of a completion, if there is one, is read back from the buffer. -/
def SharesReadBack (hmac : Hmac) (width : SizeWidth) (pf : Platform) (env : StepEnv)
    (ctx : ClientProtocolCtx) (hdr : MsgHeader) (payload proto : Memory) : Prop :=
  let sent := (handleCompletion pf env ctx hdr payload).sent
  ∀ m, sent.getLast? = some m → ∃ proto',
    protoStateAfterShares hmac width ctx.sessionKey sent proto = some proto' ∧
      ReadsBack hmac ctx.sessionKey proto' m.1 m.2.bytes

/-- The last DROPOUT_NOTIFY of `protocol_check_timeouts`, if there is one, is read back from the
    buffer. -/
def NoticeReadsBack (hmac : Hmac) (width : SizeWidth) (msToTicks : UInt32 → UInt32)
    (sys : ClientSystem) (tick : UInt32) (proto : Memory) : Prop :=
  let notified := sys.notified msToTicks tick
  ∀ ctx, notified.getLast? = some ctx → ∃ proto',
    protoStateAfterNotices hmac width notified proto = some proto' ∧
      ReadsBack hmac ctx.sessionKey proto' (ClientSystem.dropoutHeader ctx) []

/-- The headers that `protocol_check_timeouts` encodes. -/
theorem protocolCheckTimeouts_headers (msToTicks : UInt32 → UInt32) (sys : ClientSystem)
    (tick : UInt32) :
    (sys.protocolCheckTimeouts msToTicks tick).2 =
      (sys.notified msToTicks tick).map ClientSystem.dropoutHeader :=
  rfl

/-- All share messages announce the version of the protocol and 65 bytes. -/
theorem handleCompletion_header {pf : Platform} {env : StepEnv} {ctx : ClientProtocolCtx}
    {payload : Memory} {m : MsgHeader × ShamirShare}
    (h : m ∈ (handleCompletion pf env ctx hdr payload).sent) :
    m.1.protocolVersion = protocolVersion ∧ m.1.payloadLength = 65 := by
  rw [handleCompletion] at h
  split at h
  · cases h
  split at h
  · cases h
  simp only at h
  split at h
  · cases h
  obtain ⟨i, -, rfl⟩ := List.mem_map.mp h
  exact ⟨rfl, rfl⟩

theorem sharesReadBack_iff (hmac : Hmac) (width : SizeWidth) (pf : Platform) (env : StepEnv)
    (ctx : ClientProtocolCtx) (hdr : MsgHeader) (payload proto : Memory) :
    SharesReadBack hmac width pf env ctx hdr payload proto ↔
      (handleCompletion pf env ctx hdr payload).sent = [] := by
  refine lastReadsBack_iff Prod.fst (fun m => some (.ofBytes (ShamirShare.bytes m.2)))
    (fun m => ShamirShare.bytes m.2) (fun _ => ctx.sessionKey) (fun m hm => ?_) proto
  obtain ⟨hversion, hlength⟩ := handleCompletion_header hm
  refine ⟨fun _ => Option.some_ne_none _, hversion, ?_⟩
  rw [hlength]
  decide

theorem noticeReadsBack_iff (hmac : Hmac) (width : SizeWidth) (msToTicks : UInt32 → UInt32)
    (sys : ClientSystem) (tick : UInt32) (proto : Memory) :
    NoticeReadsBack hmac width msToTicks sys tick proto ↔ sys.notified msToTicks tick = [] := by
  refine lastReadsBack_iff ClientSystem.dropoutHeader (fun _ => none) (fun _ => [])
    ClientProtocolCtx.sessionKey (fun ctx _ => ?_) proto
  have hlength : (ClientSystem.dropoutHeader ctx).payloadLength = 0 := rfl
  rw [PassesEncode, hlength]
  exact ⟨fun hpos => absurd hpos (by decide), rfl, by decide⟩

/-- Whatever the contexts, the session keys and the MAC function are, the last packet that a call
    encodes is never read back: this holds only where a call encodes none. -/
theorem protocolBuffer_readsBack_iff (hmac : Hmac) (width : SizeWidth) :
    (∀ pf env ctx hdr payload proto, SharesReadBack hmac width pf env ctx hdr payload proto ↔
      (handleCompletion pf env ctx hdr payload).sent = []) ∧
    ∀ msToTicks sys tick proto, NoticeReadsBack hmac width msToTicks sys tick proto ↔
      sys.notified msToTicks tick = [] :=
  ⟨sharesReadBack_iff hmac width, noticeReadsBack_iff hmac width⟩

/-- A context that is registered and falls silent. -/
def silentSystem : ClientSystem :=
  ClientSystem.protocolRegisterContext
    { contexts := fun _ => stateMachineInit 1 1 0
      registered := []
      capacity := Nat.zero_le _
      monitored := none }
    (some 0)

/-- A context that is about to share its secret with one client. -/
def sharingClient : ClientProtocolCtx :=
  { stateMachineInit 1 1 0 with state := .maskedUpdateStream, shamirCtx := ⟨1, 1⟩ }

/-- The message that completes its stream. -/
def completeHeader : MsgHeader where
  protocolVersion := protocolVersion
  roundId := 1
  clientId := 1
  messageType := MsgType.clientComplete.code
  sequenceNumber := 0
  payloadLength := 0
  reserved := 0

/-- In a buffer of zeros, with a `size_t` of four bytes and a constant MAC, the notice of the one
    and the share message of the other begin with their lengths. -/
theorem silent_and_sharing_not_readsBack :
    ((protoStateAfterNotices (fun _ _ => Bytes.zero32) ⟨4, by decide⟩
        (silentSystem.notified id 10001) fun _ => 0).map fun proto => proto.read 4) =
      some [48, 0, 0, 0] ∧
    ¬NoticeReadsBack (fun _ _ => Bytes.zero32) ⟨4, by decide⟩ id silentSystem 10001 (fun _ => 0) ∧
    ((protoStateAfterShares (fun _ _ => Bytes.zero32) ⟨4, by decide⟩ Bytes.zero32
        (handleCompletion repeatPlatform quietEnv sharingClient completeHeader fun _ => 0).sent
        fun _ => 0).map fun proto => proto.read 4) = some [113, 0, 0, 0] ∧
    ¬SharesReadBack (fun _ _ => Bytes.zero32) ⟨4, by decide⟩ repeatPlatform quietEnv sharingClient
      completeHeader (fun _ => 0) fun _ => 0 := by
  refine ⟨by decide +kernel, ?_, by decide +kernel, ?_⟩
  · rw [noticeReadsBack_iff]
    exact fun hnone => absurd (congrArg List.length hnone) (by decide +kernel)
  · rw [sharesReadBack_iff]
    exact fun hnone => absurd (congrArg List.length hnone) (by decide +kernel)

end SwiftAgg.Native
