import SwiftAgg.ForStd.PartialRun
import SwiftAgg.Spec.PhaseOrder

/-!
# The masks of a stream

Every accepted chunk is masked under the value of `chunk_index`, and moves the
counter on. Public keys may set the counter before the stream; in the stream
nothing else does. The counter has 16 bits and acceptance does not bound it, so
the masks of a run are all different as long as no more than `2^16` chunks are
accepted, and the next chunk is masked like the first one.

## Key results

- `maskedIndices_eq`: the indices of a run are successive counter values
- `maskedIndices_nodup_iff`: when they are all different
- `acceptedChunks_of_full`: chunks of full size in sequence are accepted without a bound
-/

namespace SwiftAgg.Native

variable {pf : Platform} {tr tr' : Trace} {m : Message}

/-! ## What is masked -/

/-- The `chunk_index` under which a message is masked, where it is an accepted MASK_CHUNK. -/
def maskedIndex (pf : Platform) (tr : Trace) (m : Message) : Option UInt16 :=
  (processMessage pf m.env tr.ctx m.hdr m.payload m.payloadLen).bind fun out =>
    if tr.ctx.state = .maskedUpdateStream ∧ m.hdr.messageType = MsgType.maskChunk.code ∧
        out.status = .success then
      some tr.ctx.chunkCtx.chunkIndex
    else none

/-- The indices of the accepted chunks of a run. -/
def maskedIndices (pf : Platform) : Trace → List Message → List UInt16 :=
  PartialRun.observe (Trace.step pf) (maskedIndex pf)

/-- The messages of a run that meet the guards for chunks when they arrive. -/
def acceptedChunks (pf : Platform) : Trace → List Message → List Message :=
  PartialRun.observe (Trace.step pf) fun tr m => if AcceptsChunk tr.ctx m then some m else none

theorem maskedIndex_of_accepts (pf : Platform) (h : AcceptsChunk tr.ctx m) :
    maskedIndex pf tr m = some tr.ctx.chunkCtx.chunkIndex := by
  obtain ⟨payload, hout⟩ := processMessage_of_acceptsChunk pf h
  rw [maskedIndex, hout, Option.bind_some, if_pos ⟨h.2.1, h.2.2.1, rfl⟩]

theorem maskedIndex_of_not_accepts (pf : Platform) (h : ¬AcceptsChunk tr.ctx m) :
    maskedIndex pf tr m = none := by
  rw [maskedIndex, Option.bind_eq_none_iff]
  intro out hout
  rw [if_neg]
  rintro ⟨hstate, htype, hsuccess⟩
  have hm := (processMessage_step hout).addresses hsuccess
  rw [processMessage_of_maskChunk pf hm hstate htype] at hout
  cases hout
  exact handleStreamChunk_of_not_accepts pf hm hstate htype h hsuccess

/-- As many chunks are masked as meet the guards. -/
theorem length_maskedIndices (pf : Platform) (tr : Trace) (ms : List Message) :
    (maskedIndices pf tr ms).length = (acceptedChunks pf tr ms).length := by
  refine PartialRun.length_observe_congr (fun tr m => ?_) tr ms
  by_cases h : AcceptsChunk tr.ctx m
  · rw [maskedIndex_of_accepts pf h, if_pos h]
    rfl
  · rw [maskedIndex_of_not_accepts pf h, if_neg h]
    rfl

theorem Trace.run_append {ms ms' : List Message} (hrun : Trace.run pf tr ms = some tr') :
    Trace.run pf tr (ms ++ ms') = Trace.run pf tr' ms' := by
  have hrun' : PartialRun.run (Trace.step pf) tr ms = some tr' := hrun
  refine (PartialRun.run_append tr ms ms').trans ?_
  rw [hrun', Option.bind_some]
  rfl

theorem acceptedChunks_append (pf : Platform) {ms : List Message}
    (hrun : Trace.run pf tr ms = some tr') (ms' : List Message) :
    acceptedChunks pf tr (ms ++ ms') = acceptedChunks pf tr ms ++ acceptedChunks pf tr' ms' := by
  have hrun' : PartialRun.run (Trace.step pf) tr ms = some tr' := hrun
  rw [acceptedChunks, PartialRun.observe_append, hrun']
  rfl

/-! ## The counter -/

/-- The trace after an accepted chunk. -/
def Trace.masked (tr : Trace) (m : Message) : Trace :=
  ⟨{ m.ticked tr.ctx with chunkCtx := tr.ctx.chunkCtx.next m.payloadLen }, tr.copies⟩

theorem Trace.step_of_accepts (pf : Platform) (h : AcceptsChunk tr.ctx m) :
    Trace.step pf tr m = some (tr.masked m) := by
  obtain ⟨payload, hout⟩ := processMessage_of_acceptsChunk pf h
  rw [Trace.step, hout, Option.map_some, List.append_nil, Trace.masked]

/-- Apart from the chunks, the counters are written by ROUND_INIT and by public keys. -/
theorem Trace.step_chunkCtx (hnot : ¬AcceptsChunk tr.ctx m)
    (hstep : Trace.step pf tr m = some tr') :
    tr'.ctx.chunkCtx = tr.ctx.chunkCtx ∨
      tr.ctx.state = .roundInit ∧ tr'.ctx.chunkCtx = roundInitChunkCtx tr.ctx m.hdr m.payload ∨
      pf.storage = .contiguous ∧ StoresPubkey tr.ctx m ∧
        ∃ i, tr.ctx.pairwiseCtx.keySlot m.hdr.clientId = some i ∧
          tr'.ctx.chunkCtx = pubkeyChunkCtx i m.payload := by
  obtain ⟨status, hmove⟩ := Trace.step_move hstep
  generalize hp : tr'.ctx.progress = p at hmove
  have hchunk : tr'.ctx.chunkCtx = p.chunkCtx := hp ▸ rfl
  rw [hchunk]
  cases hmove with
  | stays => exact .inl rfl
  | starts hm hstate => exact .inr (.inl ⟨hstate, rfl⟩)
  | advances => exact .inl rfl
  | masks haccepts => exact absurd haccepts hnot
  | overwrites hstorage hstores hslot =>
    exact .inr (.inr ⟨hstorage, hstores, _, hslot, rfl⟩)

/-- The client has come to the stream. -/
def Trace.Streams (tr : Trace) : Prop :=
  ProtocolState.maskedUpdateStream.number ≤ tr.ctx.state.number

theorem Trace.Streams.step (h : tr.Streams) (hstep : Trace.step pf tr m = some tr') :
    tr'.Streams :=
  h.trans (Trace.step_number_le hstep)

/-- The index is read and moved on by the accepted chunks. -/
theorem maskedIndex_counts (pf : Platform) :
    PartialRun.Counts (Trace.step pf) (maskedIndex pf) (fun tr => tr.ctx.chunkCtx.chunkIndex)
      (· + 1) where
  reads {tr m c} hf := by
    by_cases h : AcceptsChunk tr.ctx m
    · rw [maskedIndex_of_accepts pf h] at hf
      exact (Option.some.inj hf).symm
    · rw [maskedIndex_of_not_accepts pf h] at hf
      cases hf
  counted {tr m c tr'} hf hstep := by
    by_cases h : AcceptsChunk tr.ctx m
    · rw [Trace.step_of_accepts pf h] at hstep
      cases hstep
      rfl
    · rw [maskedIndex_of_not_accepts pf h] at hf
      cases hf

theorem not_accepts_of_maskedIndex (h : maskedIndex pf tr m = none) : ¬AcceptsChunk tr.ctx m := by
  intro haccepts
  rw [maskedIndex_of_accepts pf haccepts] at h
  cases h

/-- In the stream the other messages leave the index. -/
theorem Trace.Streams.leaves (h : tr.Streams) (m : Message) :
    PartialRun.Leaves (Trace.step pf) (maskedIndex pf) (fun tr => tr.ctx.chunkCtx.chunkIndex) tr
      m := by
  intro hf tr' hstep
  have hphase : ∀ s : ProtocolState, tr.ctx.state = s → 4 ≤ s.number := fun s hs => hs ▸ h
  rcases Trace.step_chunkCtx (not_accepts_of_maskedIndex hf) hstep with
    hkept | ⟨hstate, -⟩ | ⟨-, hstores, -⟩
  · exact congrArg ChunkContext.chunkIndex hkept
  · exact absurd (hphase _ hstate) (by decide)
  · exact absurd (hphase _ hstores.2.1) (by decide)

/-- The masks are taken under the values of `chunk_index`, one after the other. -/
theorem maskedIndices_eq (pf : Platform) (tr : Trace) (ms : List Message) : ∃ first,
    maskedIndices pf tr ms = List.iterate (· + 1) first (acceptedChunks pf tr ms).length := by
  have hnone : ∀ (tr : Trace) m, ¬tr.Streams → maskedIndex pf tr m = none := by
    intro tr m hnot
    refine maskedIndex_of_not_accepts pf fun haccepts => hnot ?_
    rw [Trace.Streams, haccepts.2.1]
  rw [← length_maskedIndices]
  rcases PartialRun.observe_eq_nil_or hnone tr ms with hnil | ⟨pre, post, tr₁, -, -, hstreams, heq⟩
  · exact ⟨0, by rw [maskedIndices, hnil]; rfl⟩
  · refine ⟨tr₁.ctx.chunkCtx.chunkIndex, ?_⟩
    rw [maskedIndices, heq]
    exact (maskedIndex_counts pf).observe_eq_iterate
      (PartialRun.every_of_invariant (fun _ _ _ => Trace.Streams.step)
        (fun _ m hs => hs.leaves m) hstreams post)

/-! ## Chunks in sequence -/

/-- A MASK_CHUNK for the client of a context, with its number and length. -/
structure Message.IsChunk (m : Message) (ctx : ClientProtocolCtx) (number len : Nat) : Prop where
  addresses : m.Addresses ctx
  type : m.hdr.messageType = MsgType.maskChunk.code
  number_eq : m.hdr.sequenceNumber = UInt16.ofNat number
  length_eq : m.payloadLen.toNat = len

/-- Chunks of full size that continue the stream are accepted, however many there are. -/
theorem acceptedChunks_of_full (pf : Platform) {k : Nat}
    (hstate : tr.ctx.state = .maskedUpdateStream)
    (hfits : tr.ctx.chunkCtx.chunkSize.toNat / 2 ≤ chunkBufferBytes / 2)
    (hindex : tr.ctx.chunkCtx.chunkIndex = UInt16.ofNat k) {ms : List Message}
    (hms : ∀ i (h : i < ms.length),
      ms[i].IsChunk tr.ctx (k + i) tr.ctx.chunkCtx.chunkSize.toNat) :
    acceptedChunks pf tr ms = ms := by
  induction ms generalizing tr k with
  | nil => rfl
  | cons m ms ih =>
    have hm : m.IsChunk tr.ctx k tr.ctx.chunkCtx.chunkSize.toNat := hms 0 (by simp)
    have hlen : m.payloadLen = tr.ctx.chunkCtx.chunkSize := UInt16.toNat.inj hm.length_eq
    have haccepts : AcceptsChunk tr.ctx m :=
      ⟨hm.addresses, hstate, hm.type, hm.number_eq.trans hindex.symm, .inl hlen, hfits⟩
    -- the rest of the stream continues with the next number
    have hindex₁ : (tr.masked m).ctx.chunkCtx.chunkIndex = UInt16.ofNat (k + 1) := by
      rw [UInt16.ofNat_add, ← hindex]
      rfl
    have hms₁ : ∀ i (h : i < ms.length),
        ms[i].IsChunk (tr.masked m).ctx (k + 1 + i) tr.ctx.chunkCtx.chunkSize.toNat := by
      intro i hi
      have hi' := hms (i + 1) (by simpa using hi)
      rw [← Nat.add_assoc, Nat.add_right_comm] at hi'
      exact ⟨hi'.addresses, hi'.type, hi'.number_eq, hi'.length_eq⟩
    have hstate₁ : (tr.masked m).ctx.state = .maskedUpdateStream := hstate
    rw [acceptedChunks, PartialRun.observe, if_pos haccepts, Trace.step_of_accepts pf haccepts]
    exact congrArg (m :: ·) (ih hstate₁ hfits hindex₁ hms₁)

/-! ## The whole stream -/

/-- The chunks of a run are masked under different indices exactly if no more of them are accepted
    than `chunk_index` has values. -/
theorem maskedIndices_nodup_iff (pf : Platform) (clientId : UInt8) (roundId tick : UInt32)
    (ms : List Message) :
    (maskedIndices pf (.init clientId roundId tick) ms).Nodup ↔
      (acceptedChunks pf (.init clientId roundId tick) ms).length ≤ 2 ^ 16 := by
  obtain ⟨first, heq⟩ := maskedIndices_eq pf (.init clientId roundId tick) ms
  rw [heq]
  exact Bytes.nodup_iterate_uint16 _ _

/-- Chunk `i` of a stream of two bytes each. -/
def shortChunk (i : Nat) : Message :=
  { serverMessage .maskChunk 2 0 with
    hdr := ⟨protocolVersion, 1, 0, MsgType.maskChunk.code, UInt16.ofNat i, 2, 0⟩ }

/-- One chunk more than `chunk_index` has values. -/
def wrappedChunks : List Message := (List.range (2 ^ 16 + 1)).map shortChunk

/-- The last chunk is masked like the first one. -/
theorem wrappedChunks_reuse :
    ¬(maskedIndices repeatPlatform (.init 1 1 0) (streamStart 2 2 ++ wrappedChunks)).Nodup := by
  have hstart : (Trace.run repeatPlatform (.init 1 1 0) (streamStart 2 2)).map (fun tr =>
      (tr.ctx.state, tr.ctx.currentRoundId, tr.ctx.chunkCtx.chunkSize,
        tr.ctx.chunkCtx.chunkIndex)) = some (.maskedUpdateStream, 1, 2, 0) := by
    decide +kernel
  obtain ⟨tr, hrun, htr⟩ := Option.map_eq_some_iff.mp hstart
  simp only [Prod.mk.injEq] at htr
  obtain ⟨hstate, hround, hsize, hindex⟩ := htr
  -- every chunk is full and continues the stream, up to the width of its number
  have hms : ∀ i (h : i < wrappedChunks.length),
      wrappedChunks[i].IsChunk tr.ctx (0 + i) tr.ctx.chunkCtx.chunkSize.toNat := by
    intro i hi
    rw [hsize, Nat.zero_add]
    simp only [wrappedChunks, List.getElem_map, List.getElem_range]
    exact ⟨⟨hround.symm, .inl rfl⟩, rfl, rfl, rfl⟩
  have hchunks : acceptedChunks repeatPlatform tr wrappedChunks = wrappedChunks :=
    acceptedChunks_of_full repeatPlatform hstate (by rw [hsize]; decide) hindex hms
  obtain ⟨first, heq⟩ :=
    maskedIndices_eq repeatPlatform (.init 1 1 0) (streamStart 2 2 ++ wrappedChunks)
  rw [heq, Bytes.nodup_iterate_uint16, acceptedChunks_append repeatPlatform hrun, hchunks,
    List.length_append, wrappedChunks, List.length_map, List.length_range]
  omega

end SwiftAgg.Native
