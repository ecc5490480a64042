import SwiftAgg.Spec.ChunkCount
import SwiftAgg.Spec.MaskStream
import SwiftAgg.Spec.PhaseOrder

/-!
# The stream of a model

A model of `m` bytes is sent in chunks of `c` bytes, the last of which may be
shorter. The client takes a shorter chunk only after it has seen a chunk before
the last one: `is_final_chunk` starts at 0, so a model that is smaller than one
chunk is refused. What is taken depends on the counters with which the stream
begins: those that ROUND_INIT has set, unless a public key ran over them.

## Key results

- `ReachesStream.chunkCtx_eq`: the counters when the stream begins, if no key ran over them
- `accepted_iff_fits`: which chunks are accepted one after the other
- `modelStream_accepted_iff`: which streams are accepted
-/

namespace SwiftAgg.Native

variable {pf : Platform} {tr tr' : Trace} {m : Message} {ms : List Message}

/-! ## The sizes -/

/-- The number of chunks of a model: the quotient, rounded up. -/
def numChunks (chunkSize modelSize : Nat) : Nat := (modelSize + chunkSize - 1) / chunkSize

/-- The length of a chunk: all but the last are full. -/
def chunkLength (chunkSize modelSize i : Nat) : Nat :=
  if i + 1 < numChunks chunkSize modelSize then chunkSize
  else modelSize - (numChunks chunkSize modelSize - 1) * chunkSize

/-- The sizes of a valid model stream. -/
structure ValidSizes (chunkSize modelSize : Nat) : Prop where
  even_chunk : Even chunkSize
  two_le_chunk : 2 ≤ chunkSize
  chunk_le : chunkSize ≤ chunkBufferBytes
  even_model : Even modelSize
  two_le_model : 2 ≤ modelSize
  numChunks_le : numChunks chunkSize modelSize ≤ 65535

/-- All chunks but the last are full, and the last is not empty. -/
theorem ValidSizes.numChunks_spec {c size : Nat} (h : ValidSizes c size) :
    0 < numChunks c size ∧ (numChunks c size - 1) * c < size ∧ size ≤ numChunks c size * c := by
  have hc := h.two_le_chunk
  have hsize := h.two_le_model
  have hpos : 0 < numChunks c size := Nat.div_pos (by omega) (by omega)
  have hdiv := Nat.div_add_mod (size + c - 1) c
  have hmod := Nat.mod_lt (size + c - 1) (show 0 < c by omega)
  have hn : c * numChunks c size = numChunks c size * c := Nat.mul_comm _ _
  have hpred : (numChunks c size - 1) * c = numChunks c size * c - c := by
    rw [Nat.sub_mul, Nat.one_mul]
  rw [← numChunks, hn] at hdiv
  exact ⟨hpos, by omega, by omega⟩

/-- The model and one more chunk fit into `uint32_t`. -/
theorem ValidSizes.add_lt {c size : Nat} (h : ValidSizes c size) : size + c < 2 ^ 32 := by
  have hchunk := h.chunk_le
  have hmul : numChunks c size * c ≤ 65535 * chunkBufferBytes :=
    Nat.mul_le_mul h.numChunks_le hchunk
  have hspec := h.numChunks_spec.2.2
  simp only [chunkBufferBytes] at hchunk hmul
  omega

/-- One chunk is enough for models that fit into it. -/
theorem ValidSizes.numChunks_eq_one {c size : Nat} (h : ValidSizes c size) (hle : size ≤ c) :
    numChunks c size = 1 := by
  have hc := h.two_le_chunk
  have hsize := h.two_le_model
  refine Nat.div_eq_of_lt_le ?_ ?_ <;> omega

/-- The last chunk is not longer than the others. -/
theorem ValidSizes.chunkLength_le {c size : Nat} (h : ValidSizes c size) (i : Nat) :
    chunkLength c size i ≤ c := by
  obtain ⟨hpos, -, hge⟩ := h.numChunks_spec
  obtain ⟨n, hn⟩ := Nat.exists_eq_succ_of_ne_zero hpos.ne'
  rw [chunkLength]
  split
  · exact le_rfl
  · rw [hn, Nat.succ_mul] at hge
    rw [hn, Nat.succ_sub_one]
    omega

/-- The chunks make up the model. -/
theorem ValidSizes.sum_chunkLength {c size : Nat} (h : ValidSizes c size) :
    ((List.range (numChunks c size)).map (chunkLength c size)).sum = size := by
  obtain ⟨hpos, hlt, -⟩ := h.numChunks_spec
  obtain ⟨n, hn⟩ := Nat.exists_eq_succ_of_ne_zero hpos.ne'
  have hfull : (List.range n).map (chunkLength c size) = List.replicate n c := by
    refine List.eq_replicate_iff.mpr ⟨by simp, fun len hlen => ?_⟩
    obtain ⟨i, hi, rfl⟩ := List.mem_map.mp hlen
    have hlt := List.mem_range.mp hi
    rw [chunkLength, if_pos (by omega)]
  have hlast : chunkLength c size n = size - n * c := by
    rw [chunkLength, if_neg (by omega), hn, Nat.succ_sub_one]
  rw [hn, Nat.succ_sub_one] at hlt
  rw [hn, List.range_succ, List.map_append, hfull, List.map_singleton, hlast, List.sum_append,
    List.sum_replicate_nat, List.sum_singleton]
  omega

/-! ## The start of the stream -/

/-- The message starts the round of a client. -/
def Message.StartsRound (m : Message) (ctx : ClientProtocolCtx) : Prop :=
  m.Addresses ctx ∧ ctx.state = .roundInit ∧ m.hdr.messageType = MsgType.roundInit.code

/-- The messages bring a client into MASKED_UPDATE_STREAM, with a ROUND_INIT of these sizes on the
    way and before the first chunk. -/
structure ReachesStream (pf : Platform) (start : Trace) (ms : List Message)
    (chunkSize modelSize : Nat) (tr : Trace) : Prop where
  run : Trace.run pf start ms = some tr
  state : tr.ctx.state = .maskedUpdateStream
  first : acceptedChunks pf start ms = []
  started : ∃ pre r post tr₁, ms = pre ++ r :: post ∧ Trace.run pf start pre = some tr₁ ∧
    r.StartsRound tr₁.ctx ∧ (roundInitChunkSize r.payload).toNat = chunkSize ∧
    (roundInitModelSize r.payload).toNat = modelSize

/-- ROUND_INIT is answered with success and sets the counters. -/
theorem Trace.step_of_startsRound (pf : Platform) (h : m.StartsRound tr.ctx)
    (hsize : roundInitChunkSize m.payload ≠ 0) : ∃ tr', Trace.step pf tr m = some tr' ∧
      tr'.ctx.state = .keySetup ∧
      tr'.ctx.chunkCtx = roundInitChunkCtx tr.ctx m.hdr m.payload := by
  obtain ⟨hm, hstate, htype⟩ := h
  have hticked : (m.ticked tr.ctx).state = .roundInit := hstate
  have hround : m.hdr.roundId = (m.ticked tr.ctx).currentRoundId := hm.1
  have hnot : (m.ticked tr.ctx).state ≠ .error := by
    rw [hticked]
    exact ProtocolState.noConfusion
  rw [Trace.step, processMessage_of_addresses pf hm, dispatchState, hticked]
  simp only [handleRoundInit, htype, hround, hsize, ne_eq, not_true_eq_false, ↓reduceIte,
    transitionOutcome, stateMachineTransition, hnot, Option.map_some]
  exact ⟨_, rfl, rfl, rfl⟩

/-- Where the message is a public key that runs over the counters of the stream, it repeats them. -/
def RepeatsCounters (pf : Platform) (tr : Trace) (m : Message) : Prop :=
  pf.storage = .contiguous → StoresPubkey tr.ctx m →
    ∀ i ∈ tr.ctx.pairwiseCtx.keySlot m.hdr.clientId,
      pubkeyChunkCtx i m.payload = tr.ctx.chunkCtx

instance (pf : Platform) (tr : Trace) (m : Message) : Decidable (RepeatsCounters pf tr m) :=
  inferInstanceAs (Decidable (_ → _ → _))

/-- Until the first chunk, the counters stay as ROUND_INIT has set them, if the keys repeat them. -/
theorem Trace.run_chunkCtx (hstate : tr.ctx.state ≠ .roundInit)
    (hnone : acceptedChunks pf tr ms = [])
    (hkeys : PartialRun.Every (Trace.step pf) (RepeatsCounters pf) tr ms)
    (hrun : Trace.run pf tr ms = some tr') : tr'.ctx.chunkCtx = tr.ctx.chunkCtx := by
  induction ms generalizing tr with
  | nil =>
    cases hrun
    rfl
  | cons m ms ih =>
    obtain ⟨tr₁, hstep, hrun⟩ := PartialRun.run_cons hrun
    rw [acceptedChunks, PartialRun.observe, hstep, Option.elim_some,
      List.append_eq_nil_iff] at hnone
    obtain ⟨hhead, htail⟩ := hnone
    -- nothing is observed, so the message is no accepted chunk
    have hnot : ¬AcceptsChunk tr.ctx m := by
      intro h
      rw [if_pos h] at hhead
      cases hhead
    -- and the client does not come back to ROUND_INIT
    have hpos : 0 < tr.ctx.state.number := by
      cases hold : tr.ctx.state <;> first | decide | exact absurd hold hstate
    have hstate₁ : tr₁.ctx.state ≠ .roundInit := by
      intro h
      have hle := Trace.step_number_le hstep
      rw [h] at hle
      exact absurd (hpos.trans_le hle) (by decide)
    rw [ih hstate₁ htail (hkeys.2 tr₁ hstep) hrun]
    rcases Trace.step_chunkCtx hnot hstep with
      hkept | ⟨hinit, -⟩ | ⟨hstorage, hstores, i, hslot, hchunk⟩
    · exact hkept
    · exact absurd hinit hstate
    · rw [hchunk, hkeys.1 hstorage hstores i hslot]

/-- The number of chunks that the client computes is the right one. -/
theorem totalChunks_eq {ctx : ClientProtocolCtx} {hdr : MsgHeader} {payload : Memory} {c size : Nat}
    (hvalid : ValidSizes c size) (hc : (roundInitChunkSize payload).toNat = c)
    (hsize : (roundInitModelSize payload).toNat = size) :
    (roundInitChunkCtx ctx hdr payload).totalChunks.toNat = numChunks c size := by
  subst hc hsize
  have hpos := hvalid.two_le_chunk
  have hne : roundInitChunkSize payload ≠ 0 := by
    intro hzero
    rw [hzero] at hpos
    exact absurd hpos (by decide)
  have hcount := hvalid.numChunks_spec.2.2.trans (Nat.mul_le_mul_right _ hvalid.numChunks_le)
  exact totalChunks_roundInit hne hcount

/-- The counters when the stream begins, if the keys before it repeat them. -/
theorem ReachesStream.chunkCtx_eq {clientId : UInt8} {roundId tick : UInt32} {c size : Nat}
    (hvalid : ValidSizes c size)
    (h : ReachesStream pf (.init clientId roundId tick) ms c size tr)
    (hkeys : PartialRun.Every (Trace.step pf) (RepeatsCounters pf) (.init clientId roundId tick)
      ms) :
    tr.ctx.chunkCtx.chunkSize.toNat = c ∧ tr.ctx.chunkCtx.totalChunks.toNat = numChunks c size ∧
      tr.ctx.chunkCtx.chunkIndex = 0 ∧ tr.ctx.chunkCtx.bytesProcessed = 0 ∧
      tr.ctx.chunkCtx.isFinalChunk = 0 := by
  obtain ⟨pre, r, post, tr₁, rfl, hpre, hstarts, hc, hsize⟩ := h.started
  -- the run up to ROUND_INIT and with it
  have hne : roundInitChunkSize r.payload ≠ 0 := by
    intro hzero
    have hpos := hvalid.two_le_chunk
    rw [← hc, hzero] at hpos
    exact absurd hpos (by decide)
  obtain ⟨tr₂, hstep, hstate₂, hchunk₂⟩ := Trace.step_of_startsRound pf hstarts hne
  have hpre₂ : Trace.run pf (.init clientId roundId tick) (pre ++ [r]) = some tr₂ := by
    rw [Trace.run_concat, hpre, Option.bind_some, hstep]
  -- the messages after it
  have hrun := h.run
  have hfirst := h.first
  rw [List.append_cons] at hrun hfirst hkeys
  have hpost : Trace.run pf tr₂ post = some tr := by rw [← Trace.run_append hpre₂, hrun]
  rw [acceptedChunks_append pf hpre₂, List.append_eq_nil_iff] at hfirst
  have hkept := Trace.run_chunkCtx (by rw [hstate₂]; exact ProtocolState.noConfusion) hfirst.2
    ((PartialRun.every_append.mp hkeys).2 tr₂ hpre₂) hpost
  rw [hkept, hchunk₂]
  exact ⟨hc, totalChunks_eq hvalid hc hsize, rfl, rfl, rfl⟩

/-! ## The chunks -/

/-- With these counters a chunk is not refused for its length. -/
def ChunkContext.Fits (chunk : ChunkContext) (len : Nat) : Prop :=
  chunk.chunkSize.toNat / 2 ≤ chunkBufferBytes / 2 ∧
    (len = chunk.chunkSize.toNat ∨ chunk.isFinalChunk ≠ 0 ∧ len < chunk.chunkSize.toNat)

/-- With these counters the `i`-th chunk from now on is not refused for its length: the flag for
    the final chunk is set, or set by the chunk before it. -/
def ChunkContext.FitsAt (chunk : ChunkContext) (i len : Nat) : Prop :=
  chunk.chunkSize.toNat / 2 ≤ chunkBufferBytes / 2 ∧
    (len = chunk.chunkSize.toNat ∨
      (chunk.isFinalChunk ≠ 0 ∨ 0 < i ∧
        chunk.totalChunks.toNat ≤ chunk.chunkIndex.toNat + i + 1) ∧
      len < chunk.chunkSize.toNat)

theorem ChunkContext.fitsAt_zero (chunk : ChunkContext) (len : Nat) :
    chunk.FitsAt 0 len ↔ chunk.Fits len := by
  simp [FitsAt, Fits]

/-- A chunk sets the flag if it is the one before the last. -/
theorem ChunkContext.fitsAt_next (chunk : ChunkContext) (payloadLen : UInt16) {i len : Nat}
    (hwidth : chunk.chunkIndex.toNat + 1 < 2 ^ 16) :
    (chunk.next payloadLen).FitsAt i len ↔ chunk.FitsAt (i + 1) len := by
  have hindex : (chunk.chunkIndex + 1).toNat = chunk.chunkIndex.toNat + 1 := by
    rw [UInt16.toNat_add]
    exact Nat.mod_eq_of_lt hwidth
  have hflag : (chunk.next payloadLen).isFinalChunk ≠ 0 ↔
      chunk.isFinalChunk ≠ 0 ∨ chunk.totalChunks.toNat ≤ chunk.chunkIndex.toNat + 2 := by
    rw [next, hindex]
    dsimp only
    split
    · exact iff_of_true (by decide) (.inr (by omega))
    · rename_i hearly
      exact (or_iff_left (by omega)).symm
  rw [FitsAt, FitsAt, hflag]
  refine and_congr_right fun _ => or_congr_right (and_congr_left fun _ => ?_)
  rw [next, hindex, or_assoc]
  refine or_congr_right ?_
  dsimp only
  omega

/-- A chunk in sequence succeeds if it is not refused for its length. -/
theorem Message.IsChunk.success_iff (pf : Platform) {k len : Nat}
    (hstate : tr.ctx.state = .maskedUpdateStream) (hindex : tr.ctx.chunkCtx.chunkIndex.toNat = k)
    (hm : m.IsChunk tr.ctx k len) :
    ((∃ out, processMessage pf m.env tr.ctx m.hdr m.payload m.payloadLen = some out ∧
      out.status = .success) ↔ AcceptsChunk tr.ctx m) ∧
    (AcceptsChunk tr.ctx m ↔ tr.ctx.chunkCtx.Fits len) := by
  have hseq : m.hdr.sequenceNumber = tr.ctx.chunkCtx.chunkIndex := by
    rw [hm.number_eq, ← hindex, UInt16.ofNat_toNat]
  constructor
  · constructor
    · rintro ⟨out, hout, hsuccess⟩
      by_contra hnot
      rw [processMessage_of_maskChunk pf hm.addresses hstate hm.type] at hout
      cases hout
      exact handleStreamChunk_of_not_accepts pf hm.addresses hstate hm.type hnot hsuccess
    · intro haccepts
      obtain ⟨payload, hout⟩ := processMessage_of_acceptsChunk pf haccepts
      exact ⟨_, hout, rfl⟩
  · have hlen : m.payloadLen = tr.ctx.chunkCtx.chunkSize ↔
        len = tr.ctx.chunkCtx.chunkSize.toNat := by
      rw [← UInt16.toNat_inj, hm.length_eq]
    have hshort : m.payloadLen < tr.ctx.chunkCtx.chunkSize ↔
        len < tr.ctx.chunkCtx.chunkSize.toNat := by
      rw [UInt16.lt_iff_toNat_lt, hm.length_eq]
    rw [AcceptsChunk, ChunkContext.Fits, hlen, hshort]
    constructor
    · rintro ⟨-, -, -, -, hlength, hfits⟩
      exact ⟨hfits, hlength⟩
    · rintro ⟨hfits, hlength⟩
      exact ⟨hm.addresses, hstate, hm.type, hseq, hlength, hfits⟩

/-- The message is answered with success. -/
def Succeeds (pf : Platform) (tr : Trace) (m : Message) : Prop :=
  ∃ out, processMessage pf m.env tr.ctx m.hdr m.payload m.payloadLen = some out ∧
    out.status = .success

/-- The index behind an accepted chunk. -/
theorem masked_chunkIndex {k : Nat} (m : Message) (hindex : tr.ctx.chunkCtx.chunkIndex.toNat = k)
    (hwidth : k + 1 < 2 ^ 16) : (tr.masked m).ctx.chunkCtx.chunkIndex.toNat = k + 1 := by
  show (tr.ctx.chunkCtx.chunkIndex + 1).toNat = k + 1
  rw [UInt16.toNat_add, hindex]
  exact Nat.mod_eq_of_lt hwidth

/-- The rest of a stream of chunks, behind its first one. -/
theorem isChunk_tail {k : Nat} {lens : Nat → Nat}
    (hms : ∀ i (h : i < (m :: ms).length), (m :: ms)[i].IsChunk tr.ctx (k + i) (lens i)) :
    ∀ i (h : i < ms.length), ms[i].IsChunk (tr.masked m).ctx (k + 1 + i) (lens (i + 1)) := by
  intro i hi
  have hi' := hms (i + 1) (by simpa using hi)
  rw [← Nat.add_assoc, Nat.add_right_comm] at hi'
  exact ⟨hi'.addresses, hi'.type, hi'.number_eq, hi'.length_eq⟩

/-- Chunks in sequence are accepted exactly if none is refused for its length. -/
theorem accepted_iff_fits {k : Nat} {lens : Nat → Nat}
    (hstate : tr.ctx.state = .maskedUpdateStream)
    (hindex : tr.ctx.chunkCtx.chunkIndex.toNat = k) (hwidth : k + ms.length < 2 ^ 16)
    (hms : ∀ i (h : i < ms.length), ms[i].IsChunk tr.ctx (k + i) (lens i)) :
    PartialRun.Every (Trace.step pf) (Succeeds pf) tr ms ↔
      ∀ i < ms.length, tr.ctx.chunkCtx.FitsAt i (lens i) := by
  induction ms generalizing tr k lens with
  | nil => exact iff_of_true trivial fun i hi => absurd hi (Nat.not_lt_zero i)
  | cons m ms ih =>
    rw [List.length_cons] at hwidth
    obtain ⟨hsuccess, hfits⟩ := (hms 0 (by simp)).success_iff pf hstate hindex
    rw [PartialRun.Every, Succeeds, List.getElem_cons_zero] at *
    rw [List.length_cons, Nat.forall_lt_succ_left, ChunkContext.fitsAt_zero, hsuccess, hfits]
    refine and_congr_right fun hfirst => ?_
    have hstep := Trace.step_of_accepts pf (hfits.mpr hfirst)
    have hindex₁ := masked_chunkIndex m hindex (by omega)
    have hstate₁ : (tr.masked m).ctx.state = .maskedUpdateStream := hstate
    have htail := ih hstate₁ hindex₁ (by omega) (isChunk_tail hms)
    simp only [hstep, Option.some.injEq, forall_eq', htail]
    exact forall₂_congr fun i _ => tr.ctx.chunkCtx.fitsAt_next m.payloadLen (by omega)

/-- A stream of accepted chunks counts their bytes. -/
theorem run_bytesProcessed {k : Nat} {lens : Nat → Nat}
    (hstate : tr.ctx.state = .maskedUpdateStream)
    (hindex : tr.ctx.chunkCtx.chunkIndex.toNat = k) (hwidth : k + ms.length < 2 ^ 16)
    (hms : ∀ i (h : i < ms.length), ms[i].IsChunk tr.ctx (k + i) (lens i))
    (haccepted : PartialRun.Every (Trace.step pf) (Succeeds pf) tr ms) :
    ∃ tr', Trace.run pf tr ms = some tr' ∧ tr'.ctx.chunkCtx.bytesProcessed.toNat =
      (tr.ctx.chunkCtx.bytesProcessed.toNat + ((List.range ms.length).map lens).sum) % 2 ^ 32 := by
  induction ms generalizing tr k lens with
  | nil => exact ⟨tr, rfl, (Nat.mod_eq_of_lt tr.ctx.chunkCtx.bytesProcessed.toNat_lt).symm⟩
  | cons m ms ih =>
    rw [List.length_cons] at hwidth
    have hm : m.IsChunk tr.ctx (k + 0) (lens 0) := hms 0 (by simp)
    have hstep := Trace.step_of_accepts pf ((hm.success_iff pf hstate hindex).1.mp haccepted.1)
    have hindex₁ := masked_chunkIndex m hindex (by omega)
    have hstate₁ : (tr.masked m).ctx.state = .maskedUpdateStream := hstate
    obtain ⟨tr', hrun, hbytes⟩ := ih hstate₁ hindex₁ (by omega)
      (isChunk_tail hms) (haccepted.2 _ hstep)
    refine ⟨tr', Option.bind_eq_some_iff.mpr ⟨_, hstep, hrun⟩, ?_⟩
    have hfirst : (tr.masked m).ctx.chunkCtx.bytesProcessed.toNat =
        (tr.ctx.chunkCtx.bytesProcessed.toNat + lens 0) % 2 ^ 32 := by
      show (tr.ctx.chunkCtx.bytesProcessed + m.payloadLen.toUInt32).toNat = _
      rw [UInt32.toNat_add, UInt16.toNat_toUInt32, hm.length_eq]
    rw [hbytes, hfirst, Nat.mod_add_mod, List.length_cons, List.range_succ_eq_map, List.map_cons,
      List.sum_cons, List.map_map, Nat.add_assoc]
    rfl

/-! ## The stream -/

/-- The chunks of a model, in their order. -/
structure IsModelStream (ctx : ClientProtocolCtx) (chunkSize modelSize : Nat)
    (ms : List Message) : Prop where
  length_eq : ms.length = numChunks chunkSize modelSize
  isChunk : ∀ i (h : i < ms.length), ms[i].IsChunk ctx i (chunkLength chunkSize modelSize i)

/-- Every message is answered with success, and in the end all bytes are counted. -/
structure StreamAccepted (pf : Platform) (tr : Trace) (ms : List Message) (modelSize : Nat) :
    Prop where
  success : PartialRun.Every (Trace.step pf) (Succeeds pf) tr ms
  total : ∃ tr', Trace.run pf tr ms = some tr' ∧ tr'.ctx.chunkCtx.bytesProcessed.toNat = modelSize

/-- The counters with which the stream of a model is taken: nothing is counted yet, and every chunk
    has the length that is expected or is shorter and taken for the final one. -/
structure ChunkContext.Takes (chunk : ChunkContext) (chunkSize modelSize : Nat) : Prop where
  index : chunk.chunkIndex = 0
  bytes : chunk.bytesProcessed = 0
  fits : ∀ i < numChunks chunkSize modelSize, chunk.FitsAt i (chunkLength chunkSize modelSize i)

section

variable {c size : Nat}

/-- The counters decide whether a stream is accepted. -/
theorem IsModelStream.accepted_iff (hvalid : ValidSizes c size)
    (hstate : tr.ctx.state = .maskedUpdateStream) (hms : IsModelStream tr.ctx c size ms) :
    StreamAccepted pf tr ms size ↔ tr.ctx.chunkCtx.Takes c size := by
  have hpos : 0 < ms.length := hms.length_eq ▸ hvalid.numChunks_spec.1
  have hcount : 0 + ms.length < 2 ^ 16 := by
    have hle := hvalid.numChunks_le
    rw [hms.length_eq]
    omega
  have hchunks : ∀ i (h : i < ms.length), ms[i].IsChunk tr.ctx (0 + i) (chunkLength c size i) :=
    fun i hi => (Nat.zero_add i).symm ▸ hms.isChunk i hi
  have hsum : ((List.range ms.length).map (chunkLength c size)).sum = size := by
    rw [hms.length_eq, hvalid.sum_chunkLength]
  have hsize : size < 2 ^ 32 := by
    have hlt := hvalid.add_lt
    omega
  constructor
  · rintro ⟨hsuccess, tr', hrun, htotal⟩
    have hindex : tr.ctx.chunkCtx.chunkIndex = 0 := by
      -- the first chunk has the number 0
      obtain ⟨m, rest, rfl⟩ := List.exists_cons_of_length_pos hpos
      obtain ⟨out, hout, hok⟩ := hsuccess.1
      have hm : m.IsChunk tr.ctx 0 (chunkLength c size 0) := hms.isChunk 0 hpos
      by_contra hne
      rw [processMessage_of_maskChunk pf hm.addresses hstate hm.type] at hout
      cases hout
      refine handleStreamChunk_of_not_accepts pf hm.addresses hstate hm.type ?_ hok
      intro haccepts
      exact hne (haccepts.2.2.2.1.symm.trans hm.number_eq)
    have hindex₀ : tr.ctx.chunkCtx.chunkIndex.toNat = 0 := by rw [hindex]; rfl
    refine ⟨hindex, ?_, ?_⟩
    · obtain ⟨tr₁, hrun₁, hbytes⟩ := run_bytesProcessed hstate hindex₀ hcount hchunks hsuccess
      cases hrun.symm.trans hrun₁
      -- the counter comes back to where it began, so it began at 0
      have hlt := tr.ctx.chunkCtx.bytesProcessed.toNat_lt
      rw [htotal, hsum] at hbytes
      rw [← UInt32.toNat_inj]
      show tr.ctx.chunkCtx.bytesProcessed.toNat = 0
      omega
    · rw [← hms.length_eq]
      exact (accepted_iff_fits hstate hindex₀ hcount hchunks).mp hsuccess
  · rintro ⟨hindex, hbytes, hfits⟩
    have hindex₀ : tr.ctx.chunkCtx.chunkIndex.toNat = 0 := by rw [hindex]; rfl
    have hsuccess : PartialRun.Every (Trace.step pf) (Succeeds pf) tr ms :=
      (accepted_iff_fits hstate hindex₀ hcount hchunks).mpr (hms.length_eq ▸ hfits)
    obtain ⟨tr', hrun, htotal⟩ := run_bytesProcessed hstate hindex₀ hcount hchunks hsuccess
    refine ⟨hsuccess, tr', hrun, ?_⟩
    have hzero : tr.ctx.chunkCtx.bytesProcessed.toNat = 0 := by rw [hbytes]; rfl
    rw [htotal, hsum, hzero, Nat.zero_add, Nat.mod_eq_of_lt hsize]

/-- The counters that ROUND_INIT sets take the stream of a model of one chunk at least. -/
theorem takes_iff_le (hvalid : ValidSizes c size) {chunk : ChunkContext}
    (hsize : chunk.chunkSize.toNat = c) (htotal : chunk.totalChunks.toNat = numChunks c size)
    (hindex : chunk.chunkIndex = 0) (hbytes : chunk.bytesProcessed = 0)
    (hfinal : chunk.isFinalChunk = 0) : chunk.Takes c size ↔ c ≤ size := by
  obtain ⟨hpos, -, -⟩ := hvalid.numChunks_spec
  have hindex₀ : chunk.chunkIndex.toNat = 0 := by rw [hindex]; rfl
  have hbuffer : chunk.chunkSize.toNat / 2 ≤ chunkBufferBytes / 2 :=
    Nat.div_le_div_right (hsize ▸ hvalid.chunk_le)
  constructor
  · intro htakes
    by_contra hlt
    -- the only chunk is the first one, which has to be full
    have hone := hvalid.numChunks_eq_one (not_le.mp hlt).le
    obtain ⟨-, hfull | hshort⟩ := htakes.fits 0 hpos
    · rw [chunkLength, hone, hsize] at hfull
      simp at hfull
      omega
    · simp [hfinal] at hshort
  · intro hle
    refine ⟨hindex, hbytes, fun i hi => ⟨hbuffer, ?_⟩⟩
    rw [hsize, htotal, hindex₀]
    obtain hfull | hshort := (hvalid.chunkLength_le i).eq_or_lt
    · exact .inl hfull
    · -- a short chunk is the last one, and not the first
      refine .inr ⟨.inr ⟨?_, ?_⟩, hshort⟩
      · rw [Nat.pos_iff_ne_zero]
        rintro rfl
        rw [chunkLength] at hshort
        split at hshort
        · omega
        · rename_i hlast
          have hone : numChunks c size = 1 := by omega
          rw [hone] at hshort
          omega
      · rw [chunkLength] at hshort
        split at hshort
        · omega
        · omega

end

/-- A client that has received ROUND_INIT with valid sizes and begins to stream accepts the whole
    stream of the model and counts all its bytes exactly if its counters take it. These are the
    counters of the ROUND_INIT if no public key ran over them with others, and they take the stream
    exactly if the model fills one chunk at least. -/
theorem modelStream_accepted_iff (pf : Platform) (clientId : UInt8) (roundId tick : UInt32)
    {c size : Nat} (hvalid : ValidSizes c size) {pre : List Message} {tr : Trace}
    (hreach : ReachesStream pf (.init clientId roundId tick) pre c size tr) {ms : List Message}
    (hms : IsModelStream tr.ctx c size ms) :
    (StreamAccepted pf tr ms size ↔ tr.ctx.chunkCtx.Takes c size) ∧
      (PartialRun.Every (Trace.step pf) (RepeatsCounters pf) (.init clientId roundId tick) pre →
        (StreamAccepted pf tr ms size ↔ c ≤ size)) := by
  have haccepted : StreamAccepted pf tr ms size ↔ _ := hms.accepted_iff hvalid hreach.state
  refine ⟨haccepted, fun hkeys => ?_⟩
  obtain ⟨hsize, htotal, hindex, hbytes, hfinal⟩ := hreach.chunkCtx_eq hvalid hkeys
  rw [haccepted, takes_iff_le hvalid hsize htotal hindex hbytes hfinal]

/-- A MASK_CHUNK of the server in round 1. -/
def serverChunk (number payloadLen : UInt16) : Message :=
  { serverMessage .maskChunk payloadLen 0 with
    hdr := ⟨protocolVersion, 1, 0, MsgType.maskChunk.code, number, payloadLen, 0⟩ }

/-- The run to the stream on the example platform. -/
theorem streamVia_reaches (c size : UInt8) (key : Message)
    (hrun : (Trace.run repeatPlatform (.init 1 1 0) (streamVia (roundStart c size) key)).map
      (fun tr => (tr.ctx.state, tr.ctx.currentRoundId)) = some (.maskedUpdateStream, 1))
    (hfirst : (acceptedChunks repeatPlatform (.init 1 1 0)
      (streamVia (roundStart c size) key)).length = 0) :
    ∃ tr, tr.ctx.currentRoundId = 1 ∧
      ReachesStream repeatPlatform (.init 1 1 0) (streamVia (roundStart c size) key) c.toNat
        size.toNat tr := by
  obtain ⟨tr, hrun, htr⟩ := Option.map_eq_some_iff.mp hrun
  obtain ⟨hstate, hround⟩ := Prod.mk.inj htr
  have hlow (b : UInt8) : Bytes.word16 b 0 = b.toNat := by simp [Bytes.word16]
  refine ⟨tr, hround, hrun, hstate, List.length_eq_zero_iff.mp hfirst, [], roundStart c size, _,
    _, rfl, rfl, ⟨⟨rfl, .inl rfl⟩, rfl, rfl⟩, ?_, ?_⟩
  · have hb := c.toNat_lt
    have hsize : roundInitChunkSize (roundStart c size).payload = UInt16.ofNat c.toNat :=
      congrArg UInt16.ofNat (hlow c)
    rw [hsize]
    exact UInt16.toNat_ofNat_of_lt' (by simp only [UInt16.size]; omega)
  · have hb := size.toNat_lt
    have hmodel : roundInitModelSize (roundStart c size).payload = UInt32.ofNat size.toNat :=
      congrArg UInt32.ofNat (hlow size)
    rw [hmodel]
    exact UInt32.toNat_ofNat_of_lt' (by simp only [UInt32.size]; omega)

/-- A model of six bytes is accepted in chunks of four. -/
theorem sixBytes_accepted :
    ∃ tr, ReachesStream repeatPlatform (.init 1 1 0) (streamStart 4 6) 4 6 tr ∧
      StreamAccepted repeatPlatform tr [serverChunk 0 4, serverChunk 1 2] 6 := by
  obtain ⟨tr, hround, hreach⟩ := streamVia_reaches 4 6 (repeatingPubkey (roundStart 4 6))
    (by decide +kernel) (by decide +kernel)
  have hms : IsModelStream tr.ctx 4 6 [serverChunk 0 4, serverChunk 1 2] := by
    refine ⟨rfl, fun i hi => ?_⟩
    have hi' : i = 0 ∨ i = 1 := by
      simp only [List.length_cons, List.length_nil] at hi
      omega
    rcases hi' with rfl | rfl
    · exact ⟨⟨hround.symm, .inl rfl⟩, rfl, rfl, rfl⟩
    · exact ⟨⟨hround.symm, .inl rfl⟩, rfl, rfl, rfl⟩
  have hvalid : ValidSizes 4 6 := ⟨⟨2, rfl⟩, by decide, by decide, ⟨3, rfl⟩, by decide, by decide⟩
  exact ⟨tr, hreach, ((modelStream_accepted_iff repeatPlatform 1 1 0 hvalid hreach hms).2
    (by decide +kernel)).mpr (by decide)⟩

/-- One chunk in sequence is the stream of a model that is not longer. -/
theorem isModelStream_singleton {tr : Trace} {c size : Nat} {len : UInt16}
    (hround : tr.ctx.currentRoundId = 1) (hnum : numChunks c size = 1)
    (hlen : len.toNat = chunkLength c size 0) :
    IsModelStream tr.ctx c size [serverChunk 0 len] := by
  refine ⟨hnum.symm, fun i hi => ?_⟩
  obtain rfl : i = 0 := Nat.lt_one_iff.mp hi
  exact ⟨⟨hround.symm, .inl rfl⟩, rfl, rfl, hlen⟩

/-- A model of two bytes is refused when the chunks have four; and a model of four bytes is refused
    after a public key of other bytes. -/
theorem twoBytes_refused :
    (ValidSizes 4 2 ∧ ∃ tr, ReachesStream repeatPlatform (.init 1 1 0) (streamStart 4 2) 4 2 tr ∧
      IsModelStream tr.ctx 4 2 [serverChunk 0 2] ∧
      ¬StreamAccepted repeatPlatform tr [serverChunk 0 2] 2) ∧
    (ValidSizes 4 4 ∧ ∃ tr, ReachesStream repeatPlatform (.init 1 1 0)
        (streamVia (roundStart 4 4) (serverMessage .pairwisePubkey 1184 7)) 4 4 tr ∧
      IsModelStream tr.ctx 4 4 [serverChunk 0 4] ∧
      ¬StreamAccepted repeatPlatform tr [serverChunk 0 4] 4) := by
  constructor
  · have hvalid : ValidSizes 4 2 :=
      ⟨⟨2, rfl⟩, by decide, by decide, ⟨1, rfl⟩, by decide, by decide⟩
    obtain ⟨tr, hround, hreach⟩ := streamVia_reaches 4 2 (repeatingPubkey (roundStart 4 2))
      (by decide +kernel) (by decide +kernel)
    have hms : IsModelStream tr.ctx 4 2 [serverChunk 0 2] :=
      isModelStream_singleton hround rfl rfl
    obtain ⟨hsize, htotal, hindex, hbytes, hfinal⟩ :=
      hreach.chunkCtx_eq hvalid (by decide +kernel)
    refine ⟨hvalid, tr, hreach, hms, ?_⟩
    rw [hms.accepted_iff hvalid hreach.state, takes_iff_le hvalid hsize htotal hindex hbytes hfinal]
    decide
  · have hvalid : ValidSizes 4 4 :=
      ⟨⟨2, rfl⟩, by decide, by decide, ⟨2, rfl⟩, by decide, by decide⟩
    obtain ⟨tr, hround, hreach⟩ := streamVia_reaches 4 4 (serverMessage .pairwisePubkey 1184 7)
      (by decide +kernel) (by decide +kernel)
    have hms : IsModelStream tr.ctx 4 4 [serverChunk 0 4] :=
      isModelStream_singleton hround rfl rfl
    -- the number of the next chunk is made of bytes of the key
    have hindex : (Trace.run repeatPlatform (.init 1 1 0) (streamVia (roundStart 4 4)
        (serverMessage .pairwisePubkey 1184 7))).map (fun tr => tr.ctx.chunkCtx.chunkIndex) =
          some 0x0707 := by
      decide +kernel
    rw [show Trace.run _ _ _ = _ from hreach.run, Option.map_some, Option.some.injEq] at hindex
    refine ⟨hvalid, tr, hreach, hms, fun haccepted => ?_⟩
    have htakes := (hms.accepted_iff hvalid hreach.state).mp haccepted
    rw [htakes.index] at hindex
    exact absurd hindex (by decide)

end SwiftAgg.Native
