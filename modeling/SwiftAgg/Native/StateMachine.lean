import SwiftAgg.Native.ContextLayout
import SwiftAgg.Native.MaskProtocol
import SwiftAgg.Native.Shamir

/-!
# The client state machine

`state_machine.c`: one function per handler and `processMessage` over them. A
step takes the context, the header and the payload and gives the status, the
new context and payload, the Shamir share messages it encoded and the copies it
made into the `shared_secret` of peers. What a step reads from the platform
(tick counter, KEM variant and randomness, uninitialised stack) comes with it.

A public key is copied whole into the 32 bytes of a peer's `shared_secret`. It
runs over what lies behind them: the rest of the peer's entry, the entries of
the later peers, and the counters of the stream and of the sharing. Entries
behind `num_peers` are not modelled: the copy that a new peer begins with
covers all of its entry but the id, which is written too.
-/

namespace SwiftAgg.Native

/-- `client_protocol_ctx_t`. -/
structure ClientProtocolCtx where
  clientId : UInt8
  state : ProtocolState
  currentRoundId : UInt32
  kemKp : KemKeypair
  pairwiseCtx : PairwiseContext
  chunkCtx : ChunkContext
  shamirCtx : ShamirContext
  sessionKey : Bytes32
  timeoutMs : UInt32
  lastActivityTick : UInt32

/-- What the state machine is built with: the cryptographic code it is linked with, and how the
    fields of a context are stored. -/
structure Platform where
  lib : KemLib
  kdf : Kdf
  prg : MaskPrg
  storage : FieldStorage

/-- What one step reads from its surroundings: the tick counter on entry and at a transition, the
    adapter's globals, the randomness of the KEM and of `RNG_FUNC`, and the uninitialised bytes of
    its stack buffers. -/
structure StepEnv where
  tick : UInt32
  transitionTick : UInt32
  kem : KemGlobals
  coins : Nat
  rng : Rng
  stack : Memory

/-- Where the bytes of a copy into a peer's `shared_secret` come from. -/
inductive CopySource where
  | payload
  | decapsulated
  | kemSecrets
  deriving Repr, DecidableEq

/-- A `memcpy` of `len` bytes to `peers[slot].shared_secret`. -/
structure SlotCopy where
  slot : Nat
  source : CopySource
  len : Nat
  deriving Repr, DecidableEq

/-- The result of a step. -/
structure Outcome where
  status : PqcStatus
  ctx : ClientProtocolCtx
  payload : Memory
  copies : List SlotCopy := []
  sent : List (MsgHeader × ShamirShare) := []

/-- `STATE_TIMEOUT_MS`. -/
def stateTimeoutMs : UInt32 := 5000

/-- `PROTOCOL_VERSION`. -/
def protocolVersion : UInt32 := 0x10000

/-- `state_machine_init`, with the tick counter as it reads it. -/
def stateMachineInit (clientId : UInt8) (roundId tick : UInt32) : ClientProtocolCtx where
  clientId := clientId
  state := .roundInit
  currentRoundId := roundId
  kemKp := .zero
  pairwiseCtx := .empty
  chunkCtx := ⟨0, 0, 0, 0, 0, 0, 0, 0⟩
  shamirCtx := ⟨0, 0⟩
  sessionKey := Bytes.zero32
  timeoutMs := stateTimeoutMs
  lastActivityTick := tick

/-- `state_machine_transition`. -/
def stateMachineTransition (env : StepEnv) (ctx : ClientProtocolCtx) (newState : ProtocolState) :
    PqcStatus × ClientProtocolCtx :=
  if ctx.state = .error then (.errInvalidState, ctx)
  else (.success, { ctx with state := newState, lastActivityTick := env.transitionTick })

/-- A handler's last call `return state_machine_transition(...)`. -/
def transitionOutcome (env : StepEnv) (ctx : ClientProtocolCtx) (newState : ProtocolState)
    (payload : Memory) : Outcome :=
  let (status, ctx) := stateMachineTransition env ctx newState
  { status, ctx, payload }

/-! ## Round and key setup -/

/-- The `chunk_size` of a ROUND_INIT payload. -/
def roundInitChunkSize (payload : Memory) : UInt16 :=
  UInt16.ofNat (Bytes.word16 (payload 2) (payload 3))

/-- The `model_size` of a ROUND_INIT payload. -/
def roundInitModelSize (payload : Memory) : UInt32 :=
  UInt32.ofNat (Bytes.word16 (payload 4) (payload 5) +
    2 ^ 16 * Bytes.word16 (payload 6) (payload 7))

/-- `ctx->chunk_ctx` after a ROUND_INIT: the sum and the quotient are taken in `uint32_t`, the
    quotient is narrowed to `uint16_t`. -/
def roundInitChunkCtx (ctx : ClientProtocolCtx) (hdr : MsgHeader) (payload : Memory) :
    ChunkContext :=
  let chunkSize := roundInitChunkSize payload
  let modelSize := roundInitModelSize payload
  { roundId := hdr.roundId
    clientId := ctx.clientId
    chunkSize
    modelTotalBytes := modelSize
    totalChunks := ((modelSize + chunkSize.toUInt32 - 1) / chunkSize.toUInt32).toUInt16
    chunkIndex := 0
    bytesProcessed := 0
    isFinalChunk := 0 }

/-- `state_machine_handle_round_init`; `none` when the division by the received chunk size is by
    zero. -/
def handleRoundInit (env : StepEnv) (ctx : ClientProtocolCtx) (hdr : MsgHeader)
    (payload : Memory) : Option Outcome :=
  if hdr.messageType ≠ MsgType.roundInit.code then
    some { status := .errInvalidArgument, ctx, payload }
  else if hdr.roundId ≠ ctx.currentRoundId then
    some { status := .errRoundMismatch, ctx, payload }
  else
    let expectedClients := payload 0
    let threshold := payload 1
    if roundInitChunkSize payload = 0 then none
    else
      -- `expected_clients - 1` wraps around in `uint8_t`
      let chunkCtx := roundInitChunkCtx ctx hdr payload
      let shamirCtx : ShamirContext := { threshold, numShares := expectedClients - 1 }
      some (transitionOutcome env { ctx with chunkCtx, shamirCtx } .keySetup payload)

/-- `state_machine_handle_key_setup`. -/
def handleKeySetup (pf : Platform) (env : StepEnv) (ctx : ClientProtocolCtx) (hdr : MsgHeader)
    (payload : Memory) : Outcome :=
  if ctx.state ≠ .keySetup then { status := .errInvalidState, ctx, payload }
  else if hdr.messageType = MsgType.kemPublicKey.code then
    let (status, kemKp) := kemAdapterKeypair pf.lib env.kem env.coins ctx.kemKp
    { status, ctx := { ctx with kemKp }, payload }
  else if hdr.messageType = MsgType.kemCiphertext.code then
    if hdr.payloadLength.toNat ≠ ctx.kemKp.ciphertextLen then
      { status := .errInvalidArgument, ctx, payload }
    else
      match kemAdapterDecapsulate pf.lib env.kem payload hdr.payloadLength.toNat
        (.ofBytes ctx.kemKp.secretKey) ctx.kemKp.secretKeyLen with
      | .error status => { status, ctx, payload }
      | .ok sharedSecret =>
        transitionOutcome env { ctx with kemKp := { ctx.kemKp with sharedSecret } } .maskSetup
          payload
  else { status := .errInvalidArgument, ctx, payload }

/-! ## Mask setup -/

/-- The index of the first peer with an id. -/
def PairwiseContext.findPeer (ctx : PairwiseContext) (peerId : UInt8) : Option Nat :=
  ctx.peers.findIdx? fun peer => peer.peerClientId = peerId

/-- Write a peer's `shared_secret`. -/
def PairwiseContext.setSecret (ctx : PairwiseContext) (i : Nat) (secret : Bytes32) :
    PairwiseContext :=
  ⟨ctx.peers.modify i fun peer => { peer with sharedSecret := secret }, by
    simpa using ctx.capacity⟩

/-- Append a peer if the table is not full. -/
def PairwiseContext.addPeer (ctx : PairwiseContext) (peerId : UInt8) : PairwiseContext :=
  if h : ctx.peers.length < maxPeersPerClient then
    ⟨ctx.peers ++ [⟨peerId, Bytes.zero32, Bytes.zero32⟩], by simpa using Nat.succ_le_of_lt h⟩
  else ctx

/-- The entries of the peers after `memcpy(dst, src, len)`. -/
def PairwiseContext.afterCopy (ctx : PairwiseContext) (dst : Nat) (src : Memory) (len : Nat) :
    PairwiseContext :=
  ⟨ctx.peers.mapIdx fun i peer =>
      PairwiseSecret.layout.afterCopy (peerAddress i) peer dst src len, by
    simpa using ctx.capacity⟩

/-- `memcpy(peers[i].shared_secret, payload, ML_KEM_768_PUBLIC_KEY_BYTES)`. -/
def ClientProtocolCtx.copyPubkey (storage : FieldStorage) (ctx : ClientProtocolCtx) (i : Nat)
    (payload : Memory) : ClientProtocolCtx :=
  let len := KemVariant.mlKem768.publicKeyBytes
  match storage with
  | .contiguous =>
    { ctx with
      pairwiseCtx := ctx.pairwiseCtx.afterCopy (secretAddress i) payload len
      chunkCtx :=
        ChunkContext.layout.afterCopy chunkCtxAddress ctx.chunkCtx (secretAddress i) payload len
      shamirCtx :=
        ShamirContext.layout.afterCopy shamirCtxAddress ctx.shamirCtx (secretAddress i) payload
          len }
  -- the secret keeps what fits
  | .separate => { ctx with pairwiseCtx := ctx.pairwiseCtx.setSecret i payload.read32 }

/-- The branch of `state_machine_handle_mask_setup` for a peer's public key, which is copied where
    the peer's secret belongs. -/
def handlePairwisePubkey (pf : Platform) (ctx : ClientProtocolCtx) (hdr : MsgHeader)
    (payload : Memory) : Outcome :=
  if hdr.payloadLength.toNat ≠ KemVariant.mlKem768.publicKeyBytes then
    { status := .errInvalidArgument, ctx, payload }
  else
    match ctx.pairwiseCtx.findPeer hdr.clientId with
    | some i =>
      { status := .success
        ctx := ctx.copyPubkey pf.storage i payload
        payload
        copies := [⟨i, .payload, KemVariant.mlKem768.publicKeyBytes⟩] }
    | none =>
      -- a full table drops the key and still reports success
      if ctx.pairwiseCtx.numPeers < maxPeersPerClient then
        let pairwiseCtx := ctx.pairwiseCtx.addPeer hdr.clientId
        { status := .success
          ctx := { ctx with pairwiseCtx }.copyPubkey pf.storage ctx.pairwiseCtx.numPeers payload
          payload
          copies := [⟨ctx.pairwiseCtx.numPeers, .payload, KemVariant.mlKem768.publicKeyBytes⟩] }
      else { status := .success, ctx, payload }

/-- The branch of `state_machine_handle_mask_setup` for a ciphertext: the peer's `shared_secret` is
    passed as the secret key, with the length of a public key. -/
def handlePairwiseCiphertext (pf : Platform) (env : StepEnv) (ctx : ClientProtocolCtx)
    (hdr : MsgHeader) (payload : Memory) : Outcome :=
  if hdr.payloadLength.toNat ≠ KemVariant.mlKem768.ciphertextBytes then
    { status := .errInvalidArgument, ctx, payload }
  else
    match ctx.pairwiseCtx.findPeer hdr.clientId with
    | none => { status := .errInvalidArgument, ctx, payload }
    | some i =>
      -- the slot has 32 bytes; the length passed on is that of a public key
      let slot := (ctx.pairwiseCtx.peers[i]?).elim Bytes.zero32 PairwiseSecret.sharedSecret
      match kemAdapterDecapsulate pf.lib env.kem payload hdr.payloadLength.toNat
        (.ofBytes slot.val) KemVariant.mlKem768.publicKeyBytes with
      | .error status => { status, ctx, payload }
      | .ok sharedSecret =>
        { status := .success
          ctx := { ctx with pairwiseCtx := ctx.pairwiseCtx.setSecret i sharedSecret }
          payload
          copies := [⟨i, .decapsulated, KemVariant.mlKem768.sharedSecretBytes⟩] }

/-- The buffer `client_client_kem_secrets` that the confirmation fills from the peers. -/
def clientClientKemSecrets (ctx : PairwiseContext) (stack : Memory) : Memory := fun n =>
  match ctx.peers[n / 32]? with
  | some peer => peer.sharedSecret.val.getD (n % 32) 0
  | none => stack n

/-- The branch of `state_machine_handle_mask_setup` for the confirmation. -/
def handlePairwiseConfirm (pf : Platform) (env : StepEnv) (ctx : ClientProtocolCtx)
    (payload : Memory) : Outcome :=
  match maskProtocolDerivePairwiseSeeds pf.kdf env.kem ctx.pairwiseCtx ctx.clientId
    (clientClientKemSecrets ctx.pairwiseCtx env.stack) ctx.currentRoundId with
  | (.success, pairwiseCtx) =>
    { transitionOutcome env { ctx with pairwiseCtx } .localTraining payload with
      copies := (List.range pairwiseCtx.numPeers).map fun i => ⟨i, .kemSecrets, 32⟩ }
  | (status, pairwiseCtx) => { status, ctx := { ctx with pairwiseCtx }, payload }

/-- `state_machine_handle_mask_setup`. -/
def handleMaskSetup (pf : Platform) (env : StepEnv) (ctx : ClientProtocolCtx) (hdr : MsgHeader)
    (payload : Memory) : Outcome :=
  if ctx.state ≠ .maskSetup then { status := .errInvalidState, ctx, payload }
  else if hdr.messageType = MsgType.pairwisePubkey.code then
    handlePairwisePubkey pf ctx hdr payload
  else if hdr.messageType = MsgType.pairwiseCiphertext.code then
    handlePairwiseCiphertext pf env ctx hdr payload
  else if hdr.messageType = MsgType.pairwiseConfirm.code then
    handlePairwiseConfirm pf env ctx payload
  else { status := .errInvalidArgument, ctx, payload }

/-! ## Training and streaming -/

/-- `state_machine_handle_local_training`; the delay of `mock_local_training` has no effect. -/
def handleLocalTraining (env : StepEnv) (ctx : ClientProtocolCtx) (payload : Memory) : Outcome :=
  if ctx.state ≠ .localTraining then { status := .errInvalidState, ctx, payload }
  else transitionOutcome env ctx .maskedUpdateStream payload

/-- `state_machine_handle_stream_chunk`. -/
def handleStreamChunk (pf : Platform) (env : StepEnv) (ctx : ClientProtocolCtx) (hdr : MsgHeader)
    (payload : Memory) (payloadLen : UInt16) : Outcome :=
  let chunk := ctx.chunkCtx
  if ctx.state ≠ .maskedUpdateStream then { status := .errInvalidState, ctx, payload }
  else if hdr.sequenceNumber ≠ chunk.chunkIndex then
    { status := .errSequenceMismatch, ctx, payload }
  else if payloadLen ≠ chunk.chunkSize ∧
      ¬(chunk.isFinalChunk ≠ 0 ∧ payloadLen < chunk.chunkSize) then
    { status := .errChunkTooLarge, ctx, payload }
  else
    -- `chunk_size` counts bytes, also where the final chunk is shorter
    let chunkElements := chunk.chunkSize.toNat / 2
    match maskProtocolGenerateChunkMask pf.kdf pf.prg env.kem ctx.pairwiseCtx ctx.clientId
      ctx.currentRoundId chunk.chunkIndex chunkElements with
    | .error status => { status, ctx, payload }
    | .ok mask =>
      let plaintextChunk := Bytes.int16sLE (payload.read (2 * chunkElements))
      let maskedChunk := maskProtocolApplyMask plaintextChunk mask
      let chunkIndex := chunk.chunkIndex + 1
      { status := .success
        payload := payload.write (Bytes.packU16LE (maskedChunk.map fun v => (v % 2 ^ 16).toNat))
        ctx :=
          { ctx with
            chunkCtx :=
              { chunk with
                chunkIndex
                bytesProcessed := chunk.bytesProcessed + payloadLen.toUInt32
                -- `total_chunks - 1` is an `int`, negative for no chunks
                isFinalChunk :=
                  if (chunk.totalChunks.toNat : Int) - 1 ≤ chunkIndex.toNat then 1
                  else chunk.isFinalChunk } } }

/-! ## Completion -/

/-- The share message `i` of `state_machine_handle_completion`. -/
def shareMessage (ctx : ClientProtocolCtx) (shareX : Memory) (shareY : Nat → Memory) (i : Nat) :
    MsgHeader × ShamirShare :=
  ({ protocolVersion := protocolVersion
     roundId := ctx.currentRoundId
     clientId := ctx.clientId
     messageType := MsgType.shamirShare.code
     sequenceNumber := UInt16.ofNat i
     payloadLength := 65
     reserved := 0 },
    { shareId := shareX i, value := (shareY i).read shamirSecretBytes })

/-- `state_machine_handle_completion`. The derived secret fills the first 32 bytes of the 64-byte
    buffer that is shared. -/
def handleCompletion (pf : Platform) (env : StepEnv) (ctx : ClientProtocolCtx) (hdr : MsgHeader)
    (payload : Memory) : Outcome :=
  if ctx.state ≠ .maskedUpdateStream then { status := .errInvalidState, ctx, payload }
  else if hdr.messageType ≠ MsgType.clientComplete.code then
    { status := .errInvalidArgument, ctx, payload }
  else
    let derived := kemAdapterDeriveShamirSecret pf.kdf env.kem ctx.kemKp.sharedSecret ctx.clientId
      ctx.currentRoundId
    -- the other 32 bytes of the buffer are not initialised
    let shamirSecret := env.stack.write derived.val
    let (ret, shareX, shareY) := shamirShareBytes env.rng shamirSecret shamirSecretBytes
      ctx.shamirCtx.numShares.toNat ctx.shamirCtx.threshold.toNat env.stack (fun _ => env.stack)
      env.stack.asWords
    if ret ≠ 0 then { status := .errShamirEncodeFailed, ctx, payload }
    else
      { transitionOutcome env ctx .clientCompletion payload with
        sent := (List.range ctx.shamirCtx.numShares.toNat).map (shareMessage ctx shareX shareY) }

/-- The common shape of the handlers that wait for one message in one state. -/
def handleExpected (env : StepEnv) (expectedState newState : ProtocolState) (expected : MsgType)
    (ctx : ClientProtocolCtx) (hdr : MsgHeader) (payload : Memory) : Outcome :=
  if ctx.state ≠ expectedState then { status := .errInvalidState, ctx, payload }
  else if hdr.messageType ≠ expected.code then { status := .errInvalidArgument, ctx, payload }
  else transitionOutcome env ctx newState payload

/-- `state_machine_handle_dropout_notify`. -/
def handleDropoutNotify (env : StepEnv) : ClientProtocolCtx → MsgHeader → Memory → Outcome :=
  handleExpected env .clientCompletion .maskRecovery .dropoutNotify

/-- `state_machine_handle_recovery_complete`. -/
def handleRecoveryComplete (env : StepEnv) : ClientProtocolCtx → MsgHeader → Memory → Outcome :=
  handleExpected env .maskRecovery .unmask .recoveryComplete

/-- `state_machine_handle_round_complete`, which is not dispatched to. -/
def handleRoundComplete (env : StepEnv) (ctx : ClientProtocolCtx) (hdr : MsgHeader)
    (payload : Memory) : Outcome :=
  if hdr.messageType ≠ MsgType.roundComplete.code then
    { status := .errInvalidArgument, ctx, payload }
  else transitionOutcome env ctx .roundComplete payload

/-! ## Dispatch -/

/-- The `switch` of `state_machine_process_message`. -/
def dispatchState (pf : Platform) (env : StepEnv) (ctx : ClientProtocolCtx) (hdr : MsgHeader)
    (payload : Memory) (payloadLen : UInt16) : Option Outcome :=
  match ctx.state with
  | .roundInit => handleRoundInit env ctx hdr payload
  | .keySetup => some (handleKeySetup pf env ctx hdr payload)
  | .maskSetup => some (handleMaskSetup pf env ctx hdr payload)
  | .localTraining => some (handleLocalTraining env ctx payload)
  | .maskedUpdateStream =>
    if hdr.messageType = MsgType.maskChunk.code then
      some (handleStreamChunk pf env ctx hdr payload payloadLen)
    else if hdr.messageType = MsgType.clientComplete.code then
      some (handleCompletion pf env ctx hdr payload)
    else some { status := .errInvalidState, ctx, payload }
  | .clientCompletion => some (handleDropoutNotify env ctx hdr payload)
  | .maskRecovery => some (handleRecoveryComplete env ctx hdr payload)
  | .unmask => some (transitionOutcome env ctx .fedavg payload)
  | .fedavg => some (transitionOutcome env ctx .roundComplete payload)
  | _ => some { status := .errInvalidState, ctx, payload }

/-- `state_machine_process_message`. -/
def processMessage (pf : Platform) (env : StepEnv) (ctx : ClientProtocolCtx) (hdr : MsgHeader)
    (payload : Memory) (payloadLen : UInt16) : Option Outcome :=
  if hdr.roundId ≠ ctx.currentRoundId then some { status := .errRoundMismatch, ctx, payload }
  -- messages of other clients do not reach the handlers
  else if hdr.clientId ≠ 0 ∧ hdr.clientId ≠ ctx.clientId then
    some { status := .errClientIdMismatch, ctx, payload }
  else dispatchState pf env { ctx with lastActivityTick := env.tick } hdr payload payloadLen

/-! ## Runs -/

/-- A message with the surroundings in which it is processed. -/
structure Message where
  env : StepEnv
  hdr : MsgHeader
  payload : Memory
  payloadLen : UInt16

/-- The context after a message, and the copies made into peers' `shared_secret` so far. -/
structure Trace where
  ctx : ClientProtocolCtx
  copies : List SlotCopy

/-- The trace right after `state_machine_init`. -/
def Trace.init (clientId : UInt8) (roundId tick : UInt32) : Trace :=
  ⟨stateMachineInit clientId roundId tick, []⟩

/-- One message. -/
def Trace.step (pf : Platform) (tr : Trace) (m : Message) : Option Trace :=
  (processMessage pf m.env tr.ctx m.hdr m.payload m.payloadLen).map fun out =>
    ⟨out.ctx, tr.copies ++ out.copies⟩

/-- A sequence of messages. -/
def Trace.run (pf : Platform) (tr : Trace) (ms : List Message) : Option Trace :=
  ms.foldlM (Trace.step pf) tr

end SwiftAgg.Native
