import SwiftAgg.Spec.MaskStream
import SwiftAgg.Spec.PhaseOrder

/-!
# The accounting of a stream

ROUND_INIT announces the number of chunks and of bytes, and a client counts
both. Neither counter is compared with what was announced, the stream is left
whenever CLIENT_COMPLETE arrives, and the public keys before it run over all of
this. The counters stay within the announced sizes, and the stream is left
complete, as long as the messages keep to them.

## Key results

- `processMessage_completes`: how the stream is left
- `Accounted.step`: what the admitted messages keep
- `run_accounted`: the accounting of runs
-/

namespace SwiftAgg.Native

variable {pf : Platform} {ctx : ClientProtocolCtx} {tr tr' : Trace} {m : Message}

/-! ## The end of the stream -/

/-- The client can share its secret when the message arrives: `shamir_share_bytes` gives 0. -/
def SharesSecret (pf : Platform) (ctx : ClientProtocolCtx) (m : Message) : Prop :=
  (shamirShareBytes m.env.rng
    (m.env.stack.write (kemAdapterDeriveShamirSecret pf.kdf m.env.kem ctx.kemKp.sharedSecret
      ctx.clientId ctx.currentRoundId).val)
    shamirSecretBytes ctx.shamirCtx.numShares.toNat ctx.shamirCtx.threshold.toNat m.env.stack
    (fun _ => m.env.stack) m.env.stack.asWords).1 = 0

/-- The guards of `state_machine_handle_completion`, and of the calls that lead to it. -/
def AcceptsCompletion (pf : Platform) (ctx : ClientProtocolCtx) (m : Message) : Prop :=
  m.Addresses ctx ∧ ctx.state = .maskedUpdateStream ∧
    m.hdr.messageType = MsgType.clientComplete.code ∧ SharesSecret pf ctx m

instance (pf : Platform) (ctx : ClientProtocolCtx) (m : Message) :
    Decidable (SharesSecret pf ctx m) :=
  inferInstanceAs (Decidable (_ = _))

instance (pf : Platform) (ctx : ClientProtocolCtx) (m : Message) :
    Decidable (AcceptsCompletion pf ctx m) :=
  inferInstanceAs (Decidable (_ ∧ _))

/-- Masking a chunk does not change the state. -/
theorem handleStreamChunk_state (pf : Platform) (env : StepEnv) (ctx : ClientProtocolCtx)
    (hdr : MsgHeader) (payload : Memory) (payloadLen : UInt16) :
    (handleStreamChunk pf env ctx hdr payload payloadLen).ctx.state = ctx.state := by
  simp only [handleStreamChunk]
  split
  · rfl
  split
  · rfl
  split
  · rfl
  split <;> rfl

/-- A client whose secret cannot be shared stays where it is. -/
theorem handleCompletion_of_not_sharesSecret (hshares : ¬SharesSecret pf ctx m) :
    (handleCompletion pf m.env (m.ticked ctx) m.hdr m.payload).ctx.state = ctx.state := by
  simp only [handleCompletion]
  split
  · rfl
  split
  · rfl
  split
  · rfl
  · rename_i hret
    exact absurd (not_not.mp hret) hshares

/-- CLIENT_COMPLETION is only entered by way of the guards. -/
theorem processMessage_completes {out : Outcome} (hstate : ctx.state = .maskedUpdateStream)
    (hout : processMessage pf m.env ctx m.hdr m.payload m.payloadLen = some out)
    (hdone : out.ctx.state = .clientCompletion) : AcceptsCompletion pf ctx m := by
  have hkept : out.ctx.state ≠ ctx.state := by
    rw [hdone, hstate]
    exact ProtocolState.noConfusion
  by_cases hm : m.Addresses ctx
  · -- of the two handlers for the stream only that of the completion moves on
    have hticked : (m.ticked ctx).state = .maskedUpdateStream := hstate
    rw [processMessage_of_addresses pf hm, dispatchState, hticked] at hout
    dsimp only at hout
    split at hout
    · cases hout
      exact absurd (handleStreamChunk_state pf m.env (m.ticked ctx) m.hdr m.payload m.payloadLen)
        hkept
    · split at hout
      · rename_i htype
        cases hout
        refine ⟨hm, hstate, htype, ?_⟩
        by_contra hshares
        exact hkept (handleCompletion_of_not_sharesSecret hshares)
      · cases hout
        exact absurd rfl hkept
  · exact absurd (congrArg ClientProtocolCtx.state ((processMessage_step hout).foreign hm)) hkept

/-! ## The accounting -/

/-- The counters are within what was announced, at their beginning before the stream, and at their
    end once the stream is left. -/
structure Accounted (tr : Trace) : Prop where
  fresh : tr.ctx.state.number < ProtocolState.maskedUpdateStream.number →
    tr.ctx.chunkCtx.chunkIndex = 0
  index_le : tr.ctx.chunkCtx.chunkIndex ≤ tr.ctx.chunkCtx.totalChunks
  bytes_le : tr.ctx.chunkCtx.bytesProcessed ≤ tr.ctx.chunkCtx.modelTotalBytes
  complete : ProtocolState.clientCompletion.number ≤ tr.ctx.state.number →
    tr.ctx.chunkCtx.chunkIndex = tr.ctx.chunkCtx.totalChunks

/-- The message keeps to the announced sizes: a chunk that meets the guards is one of the chunks
    and within the model, CLIENT_COMPLETE comes after the last one, and a public key that runs over
    the counters leaves a stream that has not begun. -/
def KeepsAccounting (pf : Platform) (tr : Trace) (m : Message) : Prop :=
  (AcceptsChunk tr.ctx m →
    tr.ctx.chunkCtx.chunkIndex < tr.ctx.chunkCtx.totalChunks ∧
      tr.ctx.chunkCtx.bytesProcessed.toNat + m.payloadLen.toNat ≤
        tr.ctx.chunkCtx.modelTotalBytes.toNat) ∧
  (AcceptsCompletion pf tr.ctx m → tr.ctx.chunkCtx.chunkIndex = tr.ctx.chunkCtx.totalChunks) ∧
  (pf.storage = .contiguous → StoresPubkey tr.ctx m →
    ∀ i ∈ tr.ctx.pairwiseCtx.keySlot m.hdr.clientId,
      (pubkeyChunkCtx i m.payload).chunkIndex = 0 ∧
        (pubkeyChunkCtx i m.payload).bytesProcessed ≤ (pubkeyChunkCtx i m.payload).modelTotalBytes)

instance (pf : Platform) (tr : Trace) (m : Message) : Decidable (KeepsAccounting pf tr m) :=
  inferInstanceAs (Decidable ((_ → _) ∧ (_ → _) ∧ (_ → _ → _)))

/-- A counter below its bound does not wrap around. -/
theorem chunkIndex_succ_le {i n : UInt16} (h : i < n) : i + 1 ≤ n := by
  rw [UInt16.lt_iff_toNat_lt] at h
  have hn := n.toNat_lt
  rw [UInt16.le_iff_toNat_le, UInt16.toNat_add]
  simp only [UInt16.reduceToNat]
  omega

theorem bytesProcessed_add_le {b n : UInt32} {len : UInt16}
    (h : b.toNat + len.toNat ≤ n.toNat) : b + len.toUInt32 ≤ n := by
  have hn := n.toNat_lt
  rw [UInt32.le_iff_toNat_le, UInt32.toNat_add, UInt16.toNat_toUInt32]
  omega

theorem Accounted.init (clientId : UInt8) (roundId tick : UInt32) :
    Accounted (.init clientId roundId tick) where
  fresh _ := rfl
  index_le := UInt16.le_refl 0
  bytes_le := UInt32.le_refl 0
  complete _ := rfl

theorem Accounted.step (h : Accounted tr) (hkeep : KeepsAccounting pf tr m)
    (hstep : Trace.step pf tr m = some tr') : Accounted tr' := by
  obtain ⟨status, hmove⟩ := Trace.step_move hstep
  generalize hp : tr'.ctx.progress = p at hmove
  have hstate : tr'.ctx.state = p.state := hp ▸ rfl
  have hchunk : tr'.ctx.chunkCtx = p.chunkCtx := hp ▸ rfl
  cases hmove with
  | stays =>
    refine ⟨fun hearly => ?_, hchunk ▸ h.index_le, hchunk ▸ h.bytes_le, fun hdone => ?_⟩
    · rw [hstate] at hearly
      rw [hchunk]
      exact h.fresh hearly
    · rw [hstate] at hdone
      rw [hchunk]
      exact h.complete hdone
  | starts =>
    -- the counters start at 0
    refine ⟨fun _ => ?_, ?_, ?_, fun hdone => ?_⟩
    · rw [hchunk]
      rfl
    · rw [hchunk]
      exact UInt16.zero_le
    · rw [hchunk]
      exact UInt32.zero_le
    · have hkeySetup : tr'.ctx.state = .keySetup := hstate
      rw [hkeySetup] at hdone
      exact absurd hdone (by decide)
  | @advances _ new _ hnext =>
    have hnew : tr'.ctx.state = new := hstate
    refine ⟨fun hearly => ?_, hchunk ▸ h.index_le, hchunk ▸ h.bytes_le, fun hdone => ?_⟩
    · rw [hnew] at hearly
      rw [hchunk]
      exact h.fresh (hnext.number_lt.trans hearly)
    rw [hchunk]
    rw [hnew] at hdone
    by_cases hbefore : ProtocolState.clientCompletion.number ≤ tr.ctx.state.number
    · exact h.complete hbefore
    -- the step leaves the stream
    obtain ⟨out, hout, rfl⟩ := Option.map_eq_some_iff.mp hstep
    generalize hold : tr.ctx.state = old at hnext hbefore
    cases hnext with
    | clientCompletion => exact hkeep.2.1 (processMessage_completes hold hout hnew)
    | _ => exact absurd hdone (by first | decide | exact absurd (by decide) hbefore)
  | masks haccepts =>
    have hstream : tr'.ctx.state = .maskedUpdateStream := hstate.trans haccepts.2.1
    obtain ⟨hindex, hbytes⟩ := hkeep.1 haccepts
    refine ⟨fun hearly => ?_, ?_, ?_, fun hdone => ?_⟩
    · rw [hstream] at hearly
      exact absurd hearly (by decide)
    · rw [hchunk]
      exact chunkIndex_succ_le hindex
    · rw [hchunk]
      exact bytesProcessed_add_le hbytes
    · rw [hstream] at hdone
      exact absurd hdone (by decide)
  | @overwrites hstorage hstores i hslot =>
    have hsetup : tr'.ctx.state = .maskSetup := hstate.trans hstores.2.1
    obtain ⟨hindex, hbytes⟩ := hkeep.2.2 hstorage hstores i hslot
    refine ⟨fun _ => ?_, ?_, ?_, fun hdone => ?_⟩
    · rw [hchunk]
      exact hindex
    · rw [hchunk]
      exact hindex ▸ UInt16.zero_le
    · rw [hchunk]
      exact hbytes
    · rw [hsetup] at hdone
      exact absurd hdone (by decide)

/-- Where the messages keep to the sizes, nothing but the chunks moves the index. -/
theorem Accounted.leaves (h : Accounted tr) (hkeep : KeepsAccounting pf tr m) :
    PartialRun.Leaves (Trace.step pf) (maskedIndex pf) (fun tr => tr.ctx.chunkCtx.chunkIndex) tr
      m := by
  intro hf tr' hstep
  have hzero : ∀ s : ProtocolState, tr.ctx.state = s → s.number < 4 →
      tr.ctx.chunkCtx.chunkIndex = 0 := fun s hs hearly => h.fresh (hs ▸ hearly)
  dsimp only
  rcases Trace.step_chunkCtx (not_accepts_of_maskedIndex hf) hstep with
    hkept | ⟨hstate, hchunk⟩ | ⟨hstorage, hstores, i, hslot, hchunk⟩
  · rw [hkept]
  · rw [hchunk, hzero _ hstate (by decide)]
    rfl
  · rw [hchunk, hzero _ hstores.2.1 (by decide), (hkeep.2.2 hstorage hstores i hslot).1]

/-! ## Runs -/

/-- In every state that the run reaches, the counters are within what was announced, and from
    CLIENT_COMPLETION on every announced chunk has been masked. -/
def AccountedRun (pf : Platform) (start : Trace) (ms : List Message) : Prop :=
  ∀ pre, pre <+: ms → ∀ tr, Trace.run pf start pre = some tr →
    tr.ctx.chunkCtx.chunkIndex ≤ tr.ctx.chunkCtx.totalChunks ∧
      tr.ctx.chunkCtx.bytesProcessed ≤ tr.ctx.chunkCtx.modelTotalBytes ∧
      (ProtocolState.clientCompletion.number ≤ tr.ctx.state.number →
        ∀ i < tr.ctx.chunkCtx.totalChunks.toNat, UInt16.ofNat i ∈ maskedIndices pf start pre)

/-- The indices below the counter have been masked. -/
theorem mem_maskedIndices {ms : List Message} (hzero : tr.ctx.chunkCtx.chunkIndex = 0)
    (hleaves : PartialRun.Every (Trace.step pf) (PartialRun.Leaves (Trace.step pf)
      (maskedIndex pf) fun tr => tr.ctx.chunkCtx.chunkIndex) tr ms)
    (hrun : Trace.run pf tr ms = some tr') {i : Nat}
    (hi : i < tr'.ctx.chunkCtx.chunkIndex.toNat) : UInt16.ofNat i ∈ maskedIndices pf tr ms := by
  have hcount := (maskedIndex_counts pf).run_count hleaves hrun
  have heq := (maskedIndex_counts pf).observe_eq_iterate hleaves
  rw [hzero, Bytes.iterate_succ_uint16] at hcount
  rw [maskedIndices, heq, hzero, List.mem_iterate]
  refine ⟨i, ?_, ?_⟩
  · -- the counter is the number of masks, up to its width
    rw [hcount, UInt16.zero_add, UInt16.toNat_ofNat'] at hi
    exact hi.trans_le (Nat.mod_le _ _)
  · rw [Bytes.iterate_succ_uint16, UInt16.zero_add]

/-- A run whose messages keep to the announced sizes stays within them, and leaves the stream
    only after all chunks. -/
theorem run_accounted (pf : Platform) (clientId : UInt8) (roundId tick : UInt32)
    (ms : List Message)
    (hms : PartialRun.Every (Trace.step pf) (KeepsAccounting pf) (.init clientId roundId tick) ms) :
    AccountedRun pf (.init clientId roundId tick) ms := by
  -- the steps of a prefix meet the condition too
  rintro pre ⟨post, rfl⟩ tr hrun
  have hpre := (PartialRun.every_append.mp hms).1
  have hinit := Accounted.init clientId roundId tick
  have hkeeps : ∀ tr m tr', Accounted tr → KeepsAccounting pf tr m →
      Trace.step pf tr m = some tr' → Accounted tr' :=
    fun _ _ _ hkept hkeep hstep => hkept.step hkeep hstep
  have haccounted : Accounted tr := hpre.run_invariant hkeeps hinit hrun
  have hleaves := hpre.imp_of_invariant hkeeps (fun _ _ hkept hkeep => hkept.leaves hkeep) hinit
  refine ⟨haccounted.index_le, haccounted.bytes_le, fun hdone i hi => ?_⟩
  rw [← haccounted.complete hdone] at hi
  exact mem_maskedIndices rfl hleaves hrun hi

/-- A stream of one chunk of two bytes keeps to its size. -/
theorem completedRun_accounted : AccountedRun repeatPlatform (.init 1 1 0) completedRun :=
  run_accounted repeatPlatform 1 1 0 completedRun (by decide +kernel)

/-- A second chunk is counted although one was announced, and the stream may be left before the
    first one. -/
theorem extraChunk_not_accounted :
    ¬AccountedRun repeatPlatform (.init 1 1 0) (streamStart 2 2 ++ [shortChunk 0, shortChunk 1]) ∧
      ¬AccountedRun repeatPlatform (.init 1 1 0)
        (streamStart 2 2 ++ [serverMessage .clientComplete 0 0]) := by
  constructor
  · -- `chunk_index` is 2 of 1
    intro haccounted
    have hend : (Trace.run repeatPlatform (.init 1 1 0)
        (streamStart 2 2 ++ [shortChunk 0, shortChunk 1])).map (fun tr =>
          (tr.ctx.chunkCtx.chunkIndex, tr.ctx.chunkCtx.totalChunks)) = some (2, 1) := by
      decide +kernel
    obtain ⟨tr, hrun, htr⟩ := Option.map_eq_some_iff.mp hend
    obtain ⟨hindex, htotal⟩ := Prod.mk.inj htr
    have hle := (haccounted _ (List.prefix_refl _) tr hrun).1
    rw [hindex, htotal] at hle
    exact absurd hle (by decide)
  · -- the client has completed, and nothing is masked
    intro haccounted
    have hend : (Trace.run repeatPlatform (.init 1 1 0)
        (streamStart 2 2 ++ [serverMessage .clientComplete 0 0])).map (fun tr =>
          (tr.ctx.state, tr.ctx.chunkCtx.totalChunks)) = some (.clientCompletion, 1) := by
      decide +kernel
    obtain ⟨tr, hrun, htr⟩ := Option.map_eq_some_iff.mp hend
    obtain ⟨hstate, htotal⟩ := Prod.mk.inj htr
    have hmem := (haccounted _ (List.prefix_refl _) tr hrun).2.2 (by rw [hstate]) 0
      (by rw [htotal]; decide)
    exact absurd hmem (by decide +kernel)

end SwiftAgg.Native
