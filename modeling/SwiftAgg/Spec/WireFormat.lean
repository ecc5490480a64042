import SwiftAgg.Host.FlowerServer
import SwiftAgg.Spec.ChunkCount
import SwiftAgg.Spec.KeyAgreement
import SwiftAgg.Spec.DropoutRecovery
import SwiftAgg.Spec.MaskCorrect

/-!
# What survives the wire

The parameters of a round and the elements of a chunk cross from one program to
the other as bytes. The Flower strategy packs the sizes of a ROUND_INIT
big-endian, as `message_format.md` says, and both receivers read them
little-endian; the firmware leaves its chunk in native order and the server
unpacks it big-endian. A value survives when its bytes read the same from both
ends.

## Key results

- `roundInit_decoded_iff`: which ROUND_INIT parameters both receivers decode
- `chunkGeometry_never_agrees`: the two sides never agree on the length of a full chunk
- `maskedChunk_decoded_iff`: which masked elements the server reads back
-/

namespace SwiftAgg

/-! ## ROUND_INIT -/

/-- The parameters of a round. -/
structure RoundParams where
  expectedClients : Nat
  threshold : Nat
  chunkSize : Nat
  modelSize : Nat
  deriving Repr, DecidableEq

/-- The parameters a client holds; of the number of clients it keeps that of its peers. -/
def Native.ClientProtocolCtx.roundParams (ctx : Native.ClientProtocolCtx) : RoundParams where
  expectedClients := (ctx.shamirCtx.numShares + 1).toNat
  threshold := ctx.shamirCtx.threshold.toNat
  chunkSize := ctx.chunkCtx.chunkSize.toNat
  modelSize := ctx.chunkCtx.modelTotalBytes.toNat

/-- The parameters the server holds. -/
def Host.RoundState.roundParams (rs : Host.RoundState) : RoundParams where
  expectedClients := rs.expectedClients
  threshold := rs.threshold
  chunkSize := rs.chunkSize
  modelSize := rs.modelSize

/-- The client decodes a ROUND_INIT to the given parameters. -/
def Native.DecodesRoundInit (env : Native.StepEnv) (ctx : Native.ClientProtocolCtx)
    (hdr : Native.MsgHeader) (payload : Bytes) (params : RoundParams) : Prop :=
  (Native.handleRoundInit env ctx hdr (.ofBytes payload)).map (fun out => out.ctx.roundParams) =
    some params

/-- The server decodes a ROUND_INIT to the given parameters. -/
def Host.DecodesRoundInit (s : Host.ServerState) (header : Host.MessageHeader) (payload : Bytes)
    (params : RoundParams) : Prop :=
  (((Host.handleRoundInit header payload).run s).2.rounds.get? header.roundId).map
    Host.RoundState.roundParams = some params

/-- The payload that `_send_round_init` builds from values in range. -/
theorem Host.roundInitPayload_eq {numClients chunkSize modelSize : Nat}
    (hclients : numClients < 256) (hchunk : chunkSize < 2 ^ 16) (hmodel : modelSize < 2 ^ 32) :
    Host.roundInitPayload numClients chunkSize modelSize =
      .ok [UInt8.ofNat numClients, 2, UInt8.ofNat (chunkSize / 2 ^ 8), UInt8.ofNat chunkSize,
        UInt8.ofNat (modelSize / 2 ^ 24), UInt8.ofNat (modelSize / 2 ^ 16),
        UInt8.ofNat (modelSize / 2 ^ 8), UInt8.ofNat modelSize] := by
  have hcounts : Host.bytesOf [numClients, 2] = .ok [UInt8.ofNat numClients, 2] := by
    rw [Host.bytesOf, if_pos (by simp [hclients])]
    rfl
  rw [Host.roundInitPayload, hcounts]
  simp only [bind, Except.bind, hchunk, hmodel, and_self, ↓reduceIte]
  rfl

/-- The parameters that both receivers read from the bytes of a ROUND_INIT payload. -/
def decodedParams (numClients chunkSize modelSize : Nat) : RoundParams where
  expectedClients := numClients
  threshold := 2
  chunkSize := chunkSize / 2 ^ 8 + 2 ^ 8 * (chunkSize % 2 ^ 8)
  modelSize := modelSize / 2 ^ 24 + 2 ^ 8 * (modelSize / 2 ^ 16 % 2 ^ 8) +
    2 ^ 16 * (modelSize / 2 ^ 8 % 2 ^ 8) + 2 ^ 24 * (modelSize % 2 ^ 8)

/-- Two big-endian bytes, read little-endian. -/
private theorem word16_swap {n : Nat} (h : n < 2 ^ 16) :
    Bytes.word16 (UInt8.ofNat (n / 2 ^ 8)) (UInt8.ofNat n) = n / 2 ^ 8 + 2 ^ 8 * (n % 2 ^ 8) := by
  simp only [Bytes.word16, UInt8.toNat_ofNat']
  omega

/-- Four big-endian bytes, read little-endian. -/
private theorem word32_swap {n : Nat} (h : n < 2 ^ 32) :
    Bytes.word16 (UInt8.ofNat (n / 2 ^ 24)) (UInt8.ofNat (n / 2 ^ 16)) +
        2 ^ 16 * Bytes.word16 (UInt8.ofNat (n / 2 ^ 8)) (UInt8.ofNat n) =
      n / 2 ^ 24 + 2 ^ 8 * (n / 2 ^ 16 % 2 ^ 8) + 2 ^ 16 * (n / 2 ^ 8 % 2 ^ 8) +
        2 ^ 24 * (n % 2 ^ 8) := by
  simp only [Bytes.word16, UInt8.toNat_ofNat']
  omega

/-- What the client keeps of a ROUND_INIT payload. -/
private theorem Native.handleRoundInit_roundParams {env : Native.StepEnv}
    {ctx : Native.ClientProtocolCtx} {hdr : Native.MsgHeader}
    (htype : hdr.messageType = Native.MsgType.roundInit.code)
    (hround : hdr.roundId = ctx.currentRoundId) (payload : Native.Memory) :
    (Native.handleRoundInit env ctx hdr payload).map (fun out => out.ctx.roundParams) =
      if Native.roundInitChunkSize payload = 0 then none
      else some
        { expectedClients := (payload 0).toNat
          threshold := (payload 1).toNat
          chunkSize := (Native.roundInitChunkSize payload).toNat
          modelSize := (Native.roundInitModelSize payload).toNat } := by
  rw [Native.handleRoundInit, if_neg (not_not.mpr htype), if_neg (not_not.mpr hround)]
  by_cases hzero : Native.roundInitChunkSize payload = 0
  · simp only [hzero, ↓reduceIte, Option.map_none]
  · simp only [hzero, ↓reduceIte, Option.map_some, Native.transitionOutcome,
      Native.stateMachineTransition]
    -- the transition keeps the parameters, also when it is refused
    split <;> simp [Native.ClientProtocolCtx.roundParams, Native.roundInitChunkCtx]

/-- The client decodes the bytes in the wrong order, and nothing for a chunk size of zero. -/
theorem Native.decodesRoundInit_iff {env : Native.StepEnv} {ctx : Native.ClientProtocolCtx}
    {hdr : Native.MsgHeader} (htype : hdr.messageType = Native.MsgType.roundInit.code)
    (hround : hdr.roundId = ctx.currentRoundId) {numClients chunkSize modelSize : Nat}
    (hclients : numClients < 256) (hchunk : chunkSize < 2 ^ 16) (hmodel : modelSize < 2 ^ 32)
    {payload : Bytes}
    (hpayload : Host.roundInitPayload numClients chunkSize modelSize = .ok payload)
    (params : RoundParams) :
    Native.DecodesRoundInit env ctx hdr payload params ↔
      chunkSize ≠ 0 ∧ decodedParams numClients chunkSize modelSize = params := by
  rw [Host.roundInitPayload_eq hclients hchunk hmodel] at hpayload
  cases hpayload
  rw [Native.DecodesRoundInit, Native.handleRoundInit_roundParams htype hround]
  have hchunkSize : ∀ rest, Native.roundInitChunkSize (.ofBytes (UInt8.ofNat numClients :: 2 ::
      UInt8.ofNat (chunkSize / 2 ^ 8) :: UInt8.ofNat chunkSize :: rest)) =
        UInt16.ofNat (decodedParams numClients chunkSize modelSize).chunkSize :=
    fun _ => congrArg UInt16.ofNat (word16_swap hchunk)
  have hmodelSize : ∀ b₂ b₃, Native.roundInitModelSize (.ofBytes [UInt8.ofNat numClients, 2, b₂, b₃,
      UInt8.ofNat (modelSize / 2 ^ 24), UInt8.ofNat (modelSize / 2 ^ 16),
      UInt8.ofNat (modelSize / 2 ^ 8), UInt8.ofNat modelSize]) =
        UInt32.ofNat (decodedParams numClients chunkSize modelSize).modelSize :=
    fun _ _ => congrArg UInt32.ofNat (word32_swap hmodel)
  have hclients' : (Native.Memory.ofBytes (UInt8.ofNat numClients :: [2]) 0).toNat = numClients :=
    UInt8.toNat_ofNat_of_lt hclients
  have hchunkBound : (decodedParams numClients chunkSize modelSize).chunkSize < 2 ^ 16 := by
    simp only [decodedParams]
    omega
  have hmodelBound : (decodedParams numClients chunkSize modelSize).modelSize < 2 ^ 32 := by
    simp only [decodedParams]
    omega
  -- the swapped chunk size is zero exactly when the sent one is
  have hzero : UInt16.ofNat (decodedParams numClients chunkSize modelSize).chunkSize = 0 ↔
      chunkSize = 0 := by
    rw [← UInt16.toNat_inj, UInt16.toNat_ofNat_of_lt' hchunkBound]
    simp only [decodedParams, UInt16.toNat_zero]
    omega
  rw [hchunkSize, hmodelSize, if_congr hzero rfl rfl, UInt16.toNat_ofNat_of_lt' hchunkBound,
    UInt32.toNat_ofNat_of_lt' hmodelBound]
  by_cases h0 : chunkSize = 0
  · simp [h0]
  · simp only [h0, ↓reduceIte, Option.some.injEq, ne_eq, not_false_eq_true, true_and]
    exact Eq.congr_left (congrArg (RoundParams.mk · 2 _ _) hclients')

/-- The server decodes the same bytes in the same wrong order. -/
theorem Host.decodesRoundInit_iff {s : Host.ServerState} {header : Host.MessageHeader}
    (hnew : s.rounds.contains header.roundId = false) {numClients chunkSize modelSize : Nat}
    (hclients : numClients < 256) (hchunk : chunkSize < 2 ^ 16) (hmodel : modelSize < 2 ^ 32)
    {payload : Bytes}
    (hpayload : Host.roundInitPayload numClients chunkSize modelSize = .ok payload)
    (params : RoundParams) :
    Host.DecodesRoundInit s header payload params ↔
      decodedParams numClients chunkSize modelSize = params := by
  rw [Host.roundInitPayload_eq hclients hchunk hmodel] at hpayload
  cases hpayload
  rw [Host.DecodesRoundInit, Host.handleRoundInit, Coroutine.run_bind_of_ok (Coroutine.run_state s)]
  simp only [hnew, Bool.false_eq_true, ↓reduceIte, Coroutine.run_update, Dict.get?_insert,
    Option.map_some, Option.some.injEq]
  rw [word16_swap hchunk, word32_swap hmodel]
  have hclients' : (UInt8.ofNat numClients).toNat = numClients := UInt8.toNat_ofNat_of_lt hclients
  exact Eq.congr_left (congrArg (RoundParams.mk · 2 _ _) hclients')

/-- Client and server decode a ROUND_INIT of `_send_round_init` to what was encoded exactly when the
    chunk size is not zero and the bytes of both sizes read the same from both ends. -/
theorem roundInit_decoded_iff (env : Native.StepEnv) (ctx : Native.ClientProtocolCtx)
    (hdr : Native.MsgHeader) (s : Host.ServerState) (header : Host.MessageHeader)
    (htype : hdr.messageType = Native.MsgType.roundInit.code)
    (hround : hdr.roundId = ctx.currentRoundId)
    (hnew : s.rounds.contains header.roundId = false) (numClients chunkSize modelSize : Nat)
    (hclients : numClients ≤ 255) (hchunk : chunkSize ≤ 65535) (hmodel : modelSize < 2 ^ 32)
    (payload : Bytes)
    (hpayload : Host.roundInitPayload numClients chunkSize modelSize = .ok payload) :
    (Native.DecodesRoundInit env ctx hdr payload ⟨numClients, 2, chunkSize, modelSize⟩ ∧
        Host.DecodesRoundInit s header payload ⟨numClients, 2, chunkSize, modelSize⟩) ↔
      chunkSize ≠ 0 ∧ chunkSize / 2 ^ 8 = chunkSize % 2 ^ 8 ∧
        modelSize / 2 ^ 24 = modelSize % 2 ^ 8 ∧
        modelSize / 2 ^ 16 % 2 ^ 8 = modelSize / 2 ^ 8 % 2 ^ 8 := by
  have hclients' : numClients < 256 := by omega
  have hchunk' : chunkSize < 2 ^ 16 := by omega
  have hparams : decodedParams numClients chunkSize modelSize =
      ⟨numClients, 2, chunkSize, modelSize⟩ ↔ chunkSize / 2 ^ 8 = chunkSize % 2 ^ 8 ∧
        modelSize / 2 ^ 24 = modelSize % 2 ^ 8 ∧
        modelSize / 2 ^ 16 % 2 ^ 8 = modelSize / 2 ^ 8 % 2 ^ 8 := by
    have hbyte₂ : modelSize / 2 ^ 16 = modelSize / 2 ^ 8 / 2 ^ 8 := by omega
    have hbyte₃ : modelSize / 2 ^ 24 = modelSize / 2 ^ 8 / 2 ^ 8 / 2 ^ 8 := by omega
    simp only [decodedParams, RoundParams.mk.injEq, true_and, hbyte₂, hbyte₃]
    omega
  rw [Native.decodesRoundInit_iff htype hround hclients' hchunk' hmodel hpayload,
    Host.decodesRoundInit_iff hnew hclients' hchunk' hmodel hpayload, hparams]
  simp only [and_assoc, and_self]

/-- The header of a ROUND_INIT of round 1. -/
def roundInitHeader : Native.MsgHeader := ⟨Native.protocolVersion, 1, 0, 0x40, 0, 8, 0⟩

/-- Two clients, chunks of `0x0101` values and 128 chunks: all bytes read the same both ways. -/
theorem roundInit_decoded_palindromic :
    ∃ payload, Host.roundInitPayload 2 0x0101 (128 * 0x0101 * 2) = .ok payload ∧
      Native.DecodesRoundInit Native.quietEnv (Native.stateMachineInit 1 1 0) roundInitHeader
        payload ⟨2, 2, 0x0101, 128 * 0x0101 * 2⟩ ∧
      Host.DecodesRoundInit .new ⟨1, 0, 0x40, 0, 8⟩ payload ⟨2, 2, 0x0101, 128 * 0x0101 * 2⟩ :=
  ⟨_, rfl, (roundInit_decoded_iff Native.quietEnv (Native.stateMachineInit 1 1 0) roundInitHeader
    .new ⟨1, 0, 0x40, 0, 8⟩ rfl rfl rfl 2 0x0101 (128 * 0x0101 * 2) (by decide) (by decide)
    (by decide) _ rfl).mpr (by decide)⟩

/-- The default chunk size 128 is decoded as 32768, by the client and by the server. -/
theorem roundInit_default_not_decoded :
    ∃ payload, Host.roundInitPayload 3 128 (10 * 128 * 2) = .ok payload ∧
      ¬Native.DecodesRoundInit Native.quietEnv (Native.stateMachineInit 1 1 0) roundInitHeader
        payload ⟨3, 2, 128, 10 * 128 * 2⟩ ∧
      ¬Host.DecodesRoundInit .new ⟨1, 0, 0x40, 0, 8⟩ payload ⟨3, 2, 128, 10 * 128 * 2⟩ := by
  refine ⟨[3, 2, 0, 128, 0, 0, 10, 0], by decide +kernel, ?_, ?_⟩
  · show ¬_ = some _
    decide +kernel
  · show ¬_ = some _
    decide +kernel

/-! ## Chunk geometry -/

/-- The client does not refuse a chunk for its length. -/
def Native.AcceptsLength (pf : Native.Platform) (env : Native.StepEnv)
    (ctx : Native.ClientProtocolCtx) (hdr : Native.MsgHeader) (payload : Native.Memory)
    (len : UInt16) : Prop :=
  (Native.handleStreamChunk pf env ctx hdr payload len).status ≠ .errChunkTooLarge

/-- The server stores the payload of a MASK_CHUNK under its sequence number. -/
def Host.StoresChunk (s : Host.ServerState) (header : Host.MessageHeader) (payload : Bytes) :
    Prop :=
  ∃ rs c, ((Host.handleMaskChunk header payload).run s).2.rounds.get? header.roundId = some rs ∧
    rs.clients.get? header.clientId = some c ∧
    c.receivedChunks.get? header.sequenceNumber = some payload

/-- Client and server count the same chunks, and the server stores every chunk whose length the
    client accepts. -/
def GeometryAgrees (pf : Native.Platform) (env : Native.StepEnv) (ctx : Native.ClientProtocolCtx)
    (hdr : Native.MsgHeader) (s : Host.ServerState) (header : Host.MessageHeader)
    (rs : Host.RoundState) : Prop :=
  rs.numChunks = .ok ctx.chunkCtx.totalChunks.toNat ∧
    ∀ (payload : Native.Memory) (len : UInt16), Native.AcceptsLength pf env ctx hdr payload len →
      Host.StoresChunk s header
        ((Native.handleStreamChunk pf env ctx hdr payload len).payload.read len.toNat)

/-- Rounding up and rounding down agree exactly on multiples. -/
private theorem ceil_eq_floor_iff {m c : Nat} (hc : 0 < c) : (m + c - 1) / c = m / c ↔ c ∣ m := by
  constructor
  · intro heq
    by_contra hdvd
    have hmod : 0 < m % c := Nat.pos_of_ne_zero fun h => hdvd (Nat.dvd_of_mod_eq_zero h)
    have hceil : m / c + 1 ≤ (m + c - 1) / c := by
      rw [Nat.le_div_iff_mul_le hc, Nat.add_mul, Nat.one_mul]
      have hdiv := Nat.div_add_mod' m c
      omega
    omega
  · rintro ⟨k, rfl⟩
    rw [Nat.mul_div_cancel_left k hc, Nat.add_sub_assoc hc, Nat.mul_add_div hc,
      Nat.div_eq_of_lt (by omega), Nat.add_zero]

/-- A payload that has not twice as many bytes as a chunk has elements changes nothing. -/
theorem Host.handleMaskChunk_of_length_ne {s : Host.ServerState} {header : Host.MessageHeader}
    {rs : Host.RoundState} (hround : s.rounds.get? header.roundId = some rs) {payload : Bytes}
    (hlen : payload.length ≠ rs.chunkSize * 2) :
    (Host.handleMaskChunk header payload).run s = (.ok (), s) := by
  rw [Host.handleMaskChunk, Coroutine.run_bind_of_ok (Host.run_getRound header.roundId s), hround]
  simp only [hlen, ↓reduceIte, Coroutine.run_pure]

/-- A client and a server that hold the same parameters count the same chunks exactly when the chunk
    size divides the model size, and never agree on the length of a full chunk: the client accepts
    `chunk_size` bytes, the server stores `2 * chunk_size`. -/
theorem chunkGeometry_never_agrees (pf : Native.Platform) (env : Native.StepEnv)
    (ctx₀ ctx : Native.ClientProtocolCtx) (initHdr hdr : Native.MsgHeader) (init : Native.Memory)
    (s : Host.ServerState) (header : Host.MessageHeader) (rs : Host.RoundState)
    (c : Host.ClientState)
    (hchunkSize : ctx.chunkCtx.chunkSize = Native.roundInitChunkSize init)
    (htotal : ctx.chunkCtx.totalChunks =
      (Native.roundInitChunkCtx ctx₀ initHdr init).totalChunks)
    (hstate : ctx.state = .maskedUpdateStream)
    (hseq : hdr.sequenceNumber = ctx.chunkCtx.chunkIndex)
    (hround : s.rounds.get? header.roundId = some rs)
    (hclient : rs.clients.get? header.clientId = some c)
    (hfresh : c.receivedChunks.get? header.sequenceNumber = none)
    (hsameChunk : rs.chunkSize = (Native.roundInitChunkSize init).toNat)
    (hsameModel : rs.modelSize = (Native.roundInitModelSize init).toNat)
    (hpos : 1 ≤ rs.chunkSize) (hcount : rs.modelSize ≤ 65535 * rs.chunkSize) :
    (rs.numChunks = .ok ctx.chunkCtx.totalChunks.toNat ↔ rs.chunkSize ∣ rs.modelSize) ∧
      ¬GeometryAgrees pf env ctx hdr s header rs := by
  have hne : Native.roundInitChunkSize init ≠ 0 := by
    intro hzero
    rw [hsameChunk, hzero] at hpos
    exact absurd hpos (by decide)
  constructor
  · rw [htotal, Native.totalChunks_roundInit hne (hsameChunk ▸ hsameModel ▸ hcount),
      ← hsameChunk, ← hsameModel, ← ceil_eq_floor_iff hpos, Host.RoundState.numChunks,
      if_neg (by omega), Except.ok.injEq, eq_comm]
  · rintro ⟨-, hstores⟩
    -- a chunk of `chunk_size` bytes passes the client's length check
    have haccept : Native.AcceptsLength pf env ctx hdr (fun _ => 0) ctx.chunkCtx.chunkSize := by
      rw [Native.AcceptsLength, Native.handleStreamChunk]
      simp only [hstate, hseq, ne_eq, not_true_eq_false, ↓reduceIte, false_and]
      split
      · rename_i status herr
        rw [Native.maskProtocolGenerateChunkMask_error herr]
        simp
      · simp
    obtain ⟨rs', c', hrs', hc', hchunk⟩ := hstores _ _ haccept
    rw [Host.handleMaskChunk_of_length_ne hround] at hrs'
    · obtain rfl : rs = rs' := Option.some.inj (hround.symm.trans hrs')
      obtain rfl : c = c' := Option.some.inj (hclient.symm.trans hc')
      rw [hfresh] at hchunk
      cases hchunk
    · rw [Native.Memory.length_read, hchunkSize, ← hsameChunk]
      omega

/-- A ROUND_INIT payload with chunks of 4 and a model of 8, in the receivers' byte order. -/
def fourByFourInit : Native.Memory := .ofBytes [2, 2, 4, 0, 8, 0, 0, 0]

/-- Client 1 that streams under these parameters, with client 2 as its peer. -/
def fourByFourClient : Native.ClientProtocolCtx :=
  { Native.clientWithPeer with
    state := .maskedUpdateStream
    chunkCtx := Native.roundInitChunkCtx (Native.stateMachineInit 1 1 0) roundInitHeader
      fourByFourInit }

/-- The header of chunk 0 of client 1, for the client and for the server. -/
def firstChunkHeader : Native.MsgHeader := ⟨Native.protocolVersion, 1, 1, 0x21, 0, 4, 0⟩

/-- The server's round under these parameters, with client 1 registered. -/
def fourByFourServer : Host.ServerState :=
  { Host.ServerState.new with
    rounds := Dict.empty.insert 1 ((Host.RoundState.new 1 2 2 4 8).addClient 1) }

/-- Chunks of 4 and a model of 8: the counts agree, the lengths do not. -/
theorem fourByFour_never_agrees :
    ((Host.RoundState.new 1 2 2 4 8).numChunks = .ok fourByFourClient.chunkCtx.totalChunks.toNat ↔
        4 ∣ 8) ∧
      ¬GeometryAgrees Native.repeatPlatform Native.quietEnv fourByFourClient firstChunkHeader
        fourByFourServer ⟨1, 1, 0x21, 0, 4⟩ ((Host.RoundState.new 1 2 2 4 8).addClient 1) :=
  chunkGeometry_never_agrees Native.repeatPlatform Native.quietEnv (Native.stateMachineInit 1 1 0)
    fourByFourClient roundInitHeader firstChunkHeader fourByFourInit fourByFourServer
    ⟨1, 1, 0x21, 0, 4⟩ ((Host.RoundState.new 1 2 2 4 8).addClient 1) (.new 1) rfl rfl rfl rfl rfl
    rfl rfl rfl rfl (by decide) (by decide)

/-- Chunk 0 of 4 bytes is masked by the client and ignored by the server. -/
theorem fourByFour_chunk_ignored :
    Native.AcceptsLength Native.repeatPlatform Native.quietEnv fourByFourClient firstChunkHeader
        (fun _ => 7) 4 ∧
      ¬Host.StoresChunk fourByFourServer ⟨1, 1, 0x21, 0, 4⟩
        ((Native.handleStreamChunk Native.repeatPlatform Native.quietEnv fourByFourClient
          firstChunkHeader (fun _ => 7) 4).payload.read 4) := by
  refine ⟨by rw [Native.AcceptsLength]; decide +kernel, ?_⟩
  rintro ⟨rs, c, hrs, hc, hchunk⟩
  have hstored : (((Host.handleMaskChunk ⟨1, 1, 0x21, 0, 4⟩
      ((Native.handleStreamChunk Native.repeatPlatform Native.quietEnv fourByFourClient
        firstChunkHeader (fun _ => 7) 4).payload.read 4)).run
          fourByFourServer).2.rounds.get? 1).bind (fun rs => (rs.clients.get? 1).bind fun c =>
            c.receivedChunks.get? 0) = none := by
    decide +kernel
  rw [hrs, Option.bind_some, hc, Option.bind_some, hchunk] at hstored
  cases hstored

/-! ## Chunk elements -/

/-- The two bytes of a word are equal exactly when the word is a multiple of 257. -/
private theorem mod_257_eq_zero_iff {n : Nat} (h : n < 2 ^ 16) :
    n % 257 = 0 ↔ n / 2 ^ 8 = n % 2 ^ 8 := by
  constructor
  · intro hmod
    obtain ⟨k, rfl⟩ := Nat.dvd_of_mod_eq_zero hmod
    omega
  · intro heq
    omega

/-- Packed little-endian and read big-endian, a word survives when its two bytes are equal. -/
theorem int16sBE_packU16LE_eq_iff {vs : List Int} (h : ∀ v ∈ vs, 0 ≤ v ∧ v < 2 ^ 15) :
    Bytes.int16sBE (Bytes.packU16LE (vs.map fun v => (v % 2 ^ 16).toNat)) = vs ↔
      ∀ v ∈ vs, v % 257 = 0 := by
  induction vs with
  | nil => simp [Bytes.packU16LE, Bytes.int16sBE]
  | cons v vs ih =>
    have hv := h v (by simp)
    have ih' := ih fun u hu => h u (List.mem_cons_of_mem _ hu)
    obtain ⟨w, rfl⟩ := Int.eq_ofNat_of_zero_le hv.1
    have hw : ((w : Int) % 2 ^ 16).toNat = w := by omega
    -- a word with its bytes exchanged is itself if the bytes are equal
    have hword : Bytes.toInt16 (Bytes.word16 (UInt8.ofNat (w / 2 ^ 8)) (UInt8.ofNat w)) = w ↔
        (w : Int) % 257 = 0 := by
      have hbytes := mod_257_eq_zero_iff (n := w) (by omega)
      rw [word16_swap (by omega), Bytes.toInt16]
      split <;> omega
    simp only [Bytes.packU16LE, List.map_cons, List.flatMap_cons, Bytes.le16, List.cons_append,
      List.nil_append, Bytes.int16sBE, List.cons.injEq, List.mem_cons, forall_eq_or_imp, hw]
      at ih' ⊢
    rw [hword, ih']

/-- The native little-endian memory of a masked chunk. -/
def Native.maskedChunkBytes (xs mask : List Int) : Bytes :=
  Bytes.packU16LE ((Native.maskProtocolApplyMask xs mask).map fun v => (v % 2 ^ 16).toNat)

/-- An accepted chunk is left in the payload in native order. -/
theorem Native.handleStreamChunk_payload {pf : Native.Platform} {env : Native.StepEnv}
    {ctx : Native.ClientProtocolCtx} {hdr : Native.MsgHeader} {payload : Native.Memory}
    {len : UInt16} {xs mask : List Int} (hlen : xs.length = mask.length)
    (hok : (Native.handleStreamChunk pf env ctx hdr payload len).status = .success)
    (hxs : Bytes.int16sLE (payload.read (2 * (ctx.chunkCtx.chunkSize.toNat / 2))) = xs)
    (hmask : Native.maskProtocolGenerateChunkMask pf.kdf pf.prg env.kem ctx.pairwiseCtx
      ctx.clientId ctx.currentRoundId ctx.chunkCtx.chunkIndex (ctx.chunkCtx.chunkSize.toNat / 2) =
        .ok mask) :
    (Native.handleStreamChunk pf env ctx hdr payload len).payload.read (2 * xs.length) =
      Native.maskedChunkBytes xs mask := by
  have hsize : 2 * xs.length = (Native.maskedChunkBytes xs mask).length := by
    simp [Native.maskedChunkBytes, Native.maskProtocolApplyMask, ← hlen]
  simp only [Native.handleStreamChunk] at hok ⊢
  -- the handler succeeds only past its three checks
  by_cases hstate : ctx.state = .maskedUpdateStream
  · by_cases hseq : hdr.sequenceNumber = ctx.chunkCtx.chunkIndex
    · by_cases hfull : len ≠ ctx.chunkCtx.chunkSize ∧
          ¬(ctx.chunkCtx.isFinalChunk ≠ 0 ∧ len < ctx.chunkCtx.chunkSize)
      · rw [if_neg (not_not.mpr hstate), if_neg (not_not.mpr hseq), if_pos hfull] at hok
        cases hok
      · rw [if_neg (not_not.mpr hstate), if_neg (not_not.mpr hseq), if_neg hfull, hmask, hxs, hsize]
        exact Native.Memory.read_write payload _
    · rw [if_neg (not_not.mpr hstate), if_pos hseq] at hok
      cases hok
  · rw [if_pos hstate] at hok
    cases hok

/-- The server reads the masked values of a chunk back from the bytes the client leaves in the
    payload exactly when every one of them is a multiple of 257. -/
theorem maskedChunk_decoded_iff (xs mask : List Int) (hlen : xs.length = mask.length) :
    (Host.unpackChunk xs.length (Native.maskedChunkBytes xs mask) =
        .ok (Native.maskProtocolApplyMask xs mask) ↔
      ∀ p ∈ xs.zip mask, (p.1 + p.2) % 3329 % 257 = 0) ∧
    ∀ (pf : Native.Platform) (env : Native.StepEnv) (ctx : Native.ClientProtocolCtx)
      (hdr : Native.MsgHeader) (payload : Native.Memory) (len : UInt16),
      (Native.handleStreamChunk pf env ctx hdr payload len).status = .success →
      Bytes.int16sLE (payload.read (2 * (ctx.chunkCtx.chunkSize.toNat / 2))) = xs →
      Native.maskProtocolGenerateChunkMask pf.kdf pf.prg env.kem ctx.pairwiseCtx ctx.clientId
        ctx.currentRoundId ctx.chunkCtx.chunkIndex (ctx.chunkCtx.chunkSize.toNat / 2) = .ok mask →
      (Native.handleStreamChunk pf env ctx hdr payload len).payload.read (2 * xs.length) =
        Native.maskedChunkBytes xs mask := by
  refine ⟨?_, fun pf env ctx hdr payload len => Native.handleStreamChunk_payload hlen⟩
  have hrange : ∀ v ∈ Native.maskProtocolApplyMask xs mask, 0 ≤ v ∧ v < 2 ^ 15 := by
    intro v hv
    rw [Native.maskProtocolApplyMask, ← List.map_uncurry_zip_eq_zipWith] at hv
    obtain ⟨p, -, rfl⟩ := List.mem_map.mp hv
    have hcanon := Native.modQ_canonical (p.1 + p.2)
    exact ⟨hcanon.1, hcanon.2.trans (by decide)⟩
  rw [Host.unpackChunk,
    if_pos (by simp [Native.maskedChunkBytes, Native.maskProtocolApplyMask, hlen]),
    Except.ok.injEq, Native.maskedChunkBytes, int16sBE_packU16LE_eq_iff hrange,
    Native.maskProtocolApplyMask, ← List.map_uncurry_zip_eq_zipWith]
  simp only [List.forall_mem_map, Function.uncurry, Native.modQ_eq_emod]

/-- The masked value `257` has equal bytes and is read back. -/
theorem maskedChunk_257_decoded :
    ([100] : List Int).length = [157].length ∧
      Host.unpackChunk 1 (Native.maskedChunkBytes [100] [157]) =
        .ok (Native.maskProtocolApplyMask [100] [157]) :=
  ⟨rfl, (maskedChunk_decoded_iff [100] [157] rfl).1.mpr (by decide)⟩

/-- The client accepts the chunk `1, 2`, its masks are zero, and the server reads `256, 512`. -/
theorem maskedChunk_one_two_swapped :
    (Native.handleStreamChunk Native.repeatPlatform Native.quietEnv fourByFourClient
        firstChunkHeader (.ofBytes [1, 0, 2, 0]) 4).status = .success ∧
      Native.maskProtocolGenerateChunkMask Native.repeatPlatform.kdf Native.repeatPlatform.prg
        Native.quietEnv.kem fourByFourClient.pairwiseCtx 1 1 0 2 = .ok [0, 0] ∧
      Host.unpackChunk 2 ((Native.handleStreamChunk Native.repeatPlatform Native.quietEnv
        fourByFourClient firstChunkHeader (.ofBytes [1, 0, 2, 0]) 4).payload.read 4) =
          .ok [256, 512] ∧
      Native.maskProtocolApplyMask [1, 2] [0, 0] = [1, 2] := by
  decide +kernel

end SwiftAgg
