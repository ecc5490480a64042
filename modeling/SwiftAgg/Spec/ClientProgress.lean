import SwiftAgg.Spec.SeedProvenance

/-!
# The progress of a client

What the protocol fixes about a client: whom it is, its phase, how far its
stream has come and how its secret is shared. A message leaves this as it is,
or does one of four things to it: it starts the round, moves to the next
phase, counts one chunk, or is a public key that runs over the counters. The
cryptographic state is not part of it.

## Key results

- `Step.move`: every step of the state machine is such a move
- `processMessage_of_acceptsChunk`: an accepted chunk is counted
- `handleStreamChunk_of_not_accepts`: the other chunks are answered with an error
-/

namespace SwiftAgg.Native

/-- The value of a state in `protocol_state_t`. -/
def ProtocolState.number : ProtocolState → Nat
  | roundInit => 0x00
  | keySetup => 0x01
  | maskSetup => 0x02
  | localTraining => 0x03
  | maskedUpdateStream => 0x04
  | clientCompletion => 0x05
  | aggregation => 0x06
  | dropoutDetection => 0x07
  | maskRecovery => 0x08
  | unmask => 0x09
  | fedavg => 0x0A
  | roundComplete => 0x0B
  | error => 0xFF

/-- The phases in their order. -/
inductive NextPhase : ProtocolState → ProtocolState → Prop where
  | keySetup : NextPhase .roundInit .keySetup
  | maskSetup : NextPhase .keySetup .maskSetup
  | localTraining : NextPhase .maskSetup .localTraining
  | maskedUpdateStream : NextPhase .localTraining .maskedUpdateStream
  | clientCompletion : NextPhase .maskedUpdateStream .clientCompletion
  | maskRecovery : NextPhase .clientCompletion .maskRecovery
  | unmask : NextPhase .maskRecovery .unmask
  | fedavg : NextPhase .unmask .fedavg
  | roundComplete : NextPhase .fedavg .roundComplete

theorem NextPhase.number_lt {old new : ProtocolState} (h : NextPhase old new) :
    old.number < new.number := by
  cases h <;> decide

/-! ## Chunks -/

/-- The guards of `state_machine_handle_stream_chunk`, and of the calls that lead to it. -/
def AcceptsChunk (ctx : ClientProtocolCtx) (m : Message) : Prop :=
  m.Addresses ctx ∧ ctx.state = .maskedUpdateStream ∧
    m.hdr.messageType = MsgType.maskChunk.code ∧
    m.hdr.sequenceNumber = ctx.chunkCtx.chunkIndex ∧
    (m.payloadLen = ctx.chunkCtx.chunkSize ∨
      ctx.chunkCtx.isFinalChunk ≠ 0 ∧ m.payloadLen < ctx.chunkCtx.chunkSize) ∧
    ctx.chunkCtx.chunkSize.toNat / 2 ≤ chunkBufferBytes / 2

instance (ctx : ClientProtocolCtx) (m : Message) : Decidable (AcceptsChunk ctx m) :=
  inferInstanceAs (Decidable (_ ∧ _))

/-- The counters after an accepted chunk of `payloadLen` bytes. -/
def ChunkContext.next (chunk : ChunkContext) (payloadLen : UInt16) : ChunkContext :=
  { chunk with
    chunkIndex := chunk.chunkIndex + 1
    bytesProcessed := chunk.bytesProcessed + payloadLen.toUInt32
    isFinalChunk :=
      if (chunk.totalChunks.toNat : Int) - 1 ≤ (chunk.chunkIndex + 1).toNat then 1
      else chunk.isFinalChunk }

variable {pf : Platform} {ctx : ClientProtocolCtx} {m : Message} {out : Outcome}

theorem handleStreamChunk_of_accepts (pf : Platform) (h : AcceptsChunk ctx m) : ∃ payload,
    handleStreamChunk pf m.env (m.ticked ctx) m.hdr m.payload m.payloadLen =
      { status := .success
        ctx := { m.ticked ctx with chunkCtx := ctx.chunkCtx.next m.payloadLen }
        payload } := by
  obtain ⟨-, hstate, -, hseq, hlen, hfits⟩ := h
  have hlen' : ¬(m.payloadLen ≠ ctx.chunkCtx.chunkSize ∧
      ¬(ctx.chunkCtx.isFinalChunk ≠ 0 ∧ m.payloadLen < ctx.chunkCtx.chunkSize)) := by
    rintro ⟨hne, hnot⟩
    exact hlen.elim hne hnot
  have hticked : (m.ticked ctx).state = .maskedUpdateStream := hstate
  have hchunk : (m.ticked ctx).chunkCtx = ctx.chunkCtx := rfl
  simp only [handleStreamChunk, hticked, hchunk, hseq, ne_eq, not_true_eq_false, ↓reduceIte]
  rw [if_neg hlen']
  simp only [maskProtocolGenerateChunkMask, if_neg (not_lt.mpr hfits)]
  exact ⟨_, rfl⟩

theorem handleStreamChunk_of_not_accepts (pf : Platform) (hm : m.Addresses ctx)
    (hstate : ctx.state = .maskedUpdateStream)
    (htype : m.hdr.messageType = MsgType.maskChunk.code) (h : ¬AcceptsChunk ctx m) :
    (handleStreamChunk pf m.env (m.ticked ctx) m.hdr m.payload m.payloadLen).status ≠
      .success := by
  have hticked : (m.ticked ctx).state = .maskedUpdateStream := hstate
  rw [handleStreamChunk, if_neg (not_not.mpr hticked)]
  -- the first two guards, and the size of the mask buffer as the third
  split
  · exact PqcStatus.noConfusion
  rename_i hseq
  split
  · exact PqcStatus.noConfusion
  rename_i hlen
  by_cases hfits : ctx.chunkCtx.chunkSize.toNat / 2 ≤ chunkBufferBytes / 2
  · refine absurd ⟨hm, hstate, htype, not_not.mp hseq, ?_, hfits⟩ h
    by_cases heq : m.payloadLen = ctx.chunkCtx.chunkSize
    · exact .inl heq
    · exact .inr (by_contra fun hnot => hlen ⟨heq, hnot⟩)
  · have hmask : maskProtocolGenerateChunkMask pf.kdf pf.prg m.env.kem (m.ticked ctx).pairwiseCtx
        (m.ticked ctx).clientId (m.ticked ctx).currentRoundId (m.ticked ctx).chunkCtx.chunkIndex
        ((m.ticked ctx).chunkCtx.chunkSize.toNat / 2) = .error .errInvalidArgument :=
      if_pos (not_le.mp hfits)
    simp only [hmask]
    exact PqcStatus.noConfusion

/-- An addressed MASK_CHUNK in MASKED_UPDATE_STREAM is handled as a chunk. -/
theorem processMessage_of_maskChunk (pf : Platform) (hm : m.Addresses ctx)
    (hstate : ctx.state = .maskedUpdateStream)
    (htype : m.hdr.messageType = MsgType.maskChunk.code) :
    processMessage pf m.env ctx m.hdr m.payload m.payloadLen =
      some (handleStreamChunk pf m.env (m.ticked ctx) m.hdr m.payload m.payloadLen) := by
  have hticked : (m.ticked ctx).state = .maskedUpdateStream := hstate
  rw [processMessage_of_addresses pf hm, dispatchState, hticked]
  exact if_pos htype

/-- An accepted chunk is counted. -/
theorem processMessage_of_acceptsChunk (pf : Platform) (h : AcceptsChunk ctx m) : ∃ payload,
    processMessage pf m.env ctx m.hdr m.payload m.payloadLen =
      some
        { status := .success
          ctx := { m.ticked ctx with chunkCtx := ctx.chunkCtx.next m.payloadLen }
          payload } := by
  obtain ⟨payload, hout⟩ := handleStreamChunk_of_accepts pf h
  exact ⟨payload, by rw [processMessage_of_maskChunk pf h.1 h.2.1 h.2.2.1, hout]⟩

/-! ## Moves -/

/-- The part of a context that the protocol fixes. -/
structure ClientProgress where
  clientId : UInt8
  currentRoundId : UInt32
  state : ProtocolState
  chunkCtx : ChunkContext
  shamirCtx : ShamirContext

/-- The progress of a context. -/
def ClientProtocolCtx.progress (ctx : ClientProtocolCtx) : ClientProgress where
  clientId := ctx.clientId
  currentRoundId := ctx.currentRoundId
  state := ctx.state
  chunkCtx := ctx.chunkCtx
  shamirCtx := ctx.shamirCtx

/-- What a message can do to the progress of a client, and the status it is answered with. -/
inductive Move (pf : Platform) (ctx : ClientProtocolCtx) (m : Message) :
    PqcStatus → ClientProgress → Prop where
  | stays (status : PqcStatus) : Move pf ctx m status ctx.progress
  | starts (hm : m.Addresses ctx) (hstate : ctx.state = .roundInit)
      (htype : m.hdr.messageType = MsgType.roundInit.code)
      (hsize : roundInitChunkSize m.payload ≠ 0) :
      Move pf ctx m .success
        { ctx.progress with
          state := .keySetup
          chunkCtx := roundInitChunkCtx ctx m.hdr m.payload
          shamirCtx := ⟨m.payload 1, m.payload 0 - 1⟩ }
  | advances (hm : m.Addresses ctx) {new : ProtocolState} (hstate : ctx.state ≠ .roundInit)
      (hnext : NextPhase ctx.state new) :
      Move pf ctx m .success { ctx.progress with state := new }
  | masks (h : AcceptsChunk ctx m) :
      Move pf ctx m .success { ctx.progress with chunkCtx := ctx.chunkCtx.next m.payloadLen }
  | overwrites (hstorage : pf.storage = .contiguous) (hstores : StoresPubkey ctx m) {i : Nat}
      (hslot : ctx.pairwiseCtx.keySlot m.hdr.clientId = some i) :
      Move pf ctx m .success
        { ctx.progress with
          chunkCtx := pubkeyChunkCtx i m.payload
          shamirCtx := pubkeyShamirCtx i m.payload }

theorem Advance.nextPhase {old new : ProtocolState} {t : UInt8} (h : Advance old t new) :
    old ≠ .roundInit ∧ NextPhase old new := by
  cases h with
  | training => exact ⟨by decide, .maskedUpdateStream⟩
  | dropoutNotify => exact ⟨by decide, .maskRecovery⟩
  | recoveryComplete => exact ⟨by decide, .unmask⟩
  | unmask => exact ⟨by decide, .fedavg⟩
  | fedavg => exact ⟨by decide, .roundComplete⟩

/-- A public key is copied over the counters, where they lie behind the secrets. -/
theorem StoresPubkey.move (pf : Platform) (h : StoresPubkey ctx m) {i : Nat}
    (hslot : ctx.pairwiseCtx.keySlot m.hdr.clientId = some i) (pairwiseCtx : PairwiseContext) :
    Move pf ctx m .success
      ({ m.ticked ctx with pairwiseCtx }.copyPubkey pf.storage i m.payload).progress := by
  cases hstorage : pf.storage with
  | separate => exact .stays _
  | contiguous =>
    have hi := PairwiseContext.keySlot_lt hslot
    have hmove := Move.overwrites hstorage h hslot
    rwa [← ClientProtocolCtx.copyPubkey_chunkCtx { m.ticked ctx with pairwiseCtx } m.payload hi,
      ← ClientProtocolCtx.copyPubkey_shamirCtx { m.ticked ctx with pairwiseCtx } m.payload hi]
      at hmove

/-- Every step of the state machine is a move. -/
theorem Step.move (h : Step pf ctx m out) : Move pf ctx m out.status out.ctx.progress := by
  cases h with
  | mismatched | rejected | keypair | tableFull => exact .stays _
  | pubkeyStored hstores hslot => exact hstores.move pf hslot _
  | roundStarted hm hstate htype hsize => exact .starts hm hstate htype hsize
  | keyAgreed hm hstate =>
    exact .advances hm (by rw [hstate]; decide) (by rw [hstate]; exact .maskSetup)
  | confirmed hm hstate =>
    exact .advances hm (by rw [hstate]; decide) (by rw [hstate]; exact .localTraining)
  | completed hm hstate =>
    exact .advances hm (by rw [hstate]; decide) (by rw [hstate]; exact .clientCompletion)
  | advanced hm hadvance => exact .advances hm hadvance.nextPhase.1 hadvance.nextPhase.2
  | chunkMasked hm hstate htype hout hsuccess =>
    -- a successful chunk passed the guards
    by_cases haccepts : AcceptsChunk ctx m
    · obtain ⟨payload, hchunk⟩ := handleStreamChunk_of_accepts pf haccepts
      rw [← hout, hchunk]
      exact .masks haccepts
    · rw [← hout] at hsuccess
      exact absurd hsuccess (handleStreamChunk_of_not_accepts pf hm hstate htype haccepts)

/-- Only messages of this round to this client succeed. -/
theorem Step.addresses (h : Step pf ctx m out) (hsuccess : out.status = .success) :
    m.Addresses ctx := by
  cases h with
  | mismatched _ hs => exact absurd hsuccess hs
  | pubkeyStored hstores | tableFull hstores => exact hstores.1
  | _ => assumption

/-- Messages of other rounds and of other clients change nothing. -/
theorem Step.foreign (h : Step pf ctx m out) (hm : ¬m.Addresses ctx) : out.ctx = ctx := by
  cases h with
  | mismatched => rfl
  | pubkeyStored hstores | tableFull hstores => exact absurd hstores.1 hm
  | _ => exact absurd ‹m.Addresses ctx› hm

/-- The step of a run and its move. -/
theorem Trace.step_move {tr tr' : Trace} (h : Trace.step pf tr m = some tr') :
    ∃ status, Move pf tr.ctx m status tr'.ctx.progress := by
  obtain ⟨out, hout, rfl⟩ := Option.map_eq_some_iff.mp h
  exact ⟨out.status, (processMessage_step hout).move⟩

/-! ## A run to the stream -/

/-- ROUND_INIT for two clients with threshold 1 and the given sizes. -/
def roundStart (chunkSize modelSize : UInt8) : Message :=
  { serverMessage .roundInit 8 0 with
    payload := .ofBytes [2, 1, chunkSize, 0, modelSize, 0, 0, 0] }

/-- A public key for the first entry that repeats, where it runs over them, the counters that this
    ROUND_INIT sets. -/
def repeatingPubkey (start : Message) : Message :=
  let chunk := roundInitChunkCtx (stateMachineInit 1 1 0) start.hdr start.payload
  let front := List.replicate (chunkCtxAddress - secretAddress 0) 7
  { serverMessage .pairwisePubkey 1184 0 with
    payload := .ofBytes (front ++ chunk.bytes ++ [start.payload 1, start.payload 0 - 1]) }

/-- The messages that bring client 1 from this ROUND_INIT into MASKED_UPDATE_STREAM, with this
    public key on the way; any message ends the training. -/
def streamVia (start key : Message) : List Message :=
  [start, serverMessage .kemPublicKey 1184 0, serverMessage .kemCiphertext 1088 9, key,
    serverMessage .pairwiseConfirm 0 0, serverMessage .maskAck 0 0]

/-- A run to the stream with the counters of the ROUND_INIT. -/
def streamFrom (start : Message) : List Message := streamVia start (repeatingPubkey start)

/-- A run to the stream of chunks of the given sizes. -/
def streamStart (chunkSize modelSize : UInt8) : List Message :=
  streamFrom (roundStart chunkSize modelSize)

end SwiftAgg.Native
