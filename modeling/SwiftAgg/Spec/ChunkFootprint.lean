import SwiftAgg.ForStd.WordLoop
import SwiftAgg.Spec.WireFormat
import SwiftAgg.Spec.ClientProgress

/-!
# What the masking of a chunk touches

`state_machine_handle_stream_chunk` masks as many words as half the announced
chunk size, whatever the length of the payload. It stays within the payload and
reaches all of it only if these words are the payload: an odd chunk size leaves
a last byte as it was, and a short final chunk is read and written beyond its
end.

## Key results

- `handleStreamChunk_payload_eq`: what an accepted chunk does to the memory behind the payload
- `readWord_maskPayload`: the words it masks
- `masksExactly_iff`: the lengths for which it masks the payload and nothing else
-/

namespace SwiftAgg.Native

open WordLoop

/-! ## The masked memory -/

/-- The memory behind the payload with the first words masked. -/
def maskPayload (mask : List Int) (payload : Memory) : Memory :=
  payload.write (maskedChunkBytes (Bytes.int16sLE (payload.read (2 * mask.length))) mask)

section

variable {mask : List Int} {payload : Memory}

theorem length_maskedChunkBytes_read (mask : List Int) (payload : Memory) :
    (maskedChunkBytes (Bytes.int16sLE (payload.read (2 * mask.length))) mask).length =
      2 * mask.length := by
  rw [maskedChunkBytes, maskProtocolApplyMask, Bytes.length_packU16LE, List.length_map,
    List.length_zipWith, Bytes.length_int16sLE, Memory.length_read]
  omega

/-- Behind the words of the mask nothing is written. -/
theorem maskPayload_of_ge {i : Nat} (hi : 2 * mask.length ≤ i) :
    maskPayload mask payload i = payload i := by
  rw [maskPayload, Memory.write, List.getD_eq_default]
  rw [length_maskedChunkBytes_read]
  exact hi

/-- The words of the mask are read and nothing else. -/
theorem read_maskPayload :
    (maskPayload mask payload).read (2 * mask.length) =
      maskedChunkBytes (Bytes.int16sLE (payload.read (2 * mask.length))) mask := by
  have hread := payload.read_write
    (maskedChunkBytes (Bytes.int16sLE (payload.read (2 * mask.length))) mask)
  rwa [length_maskedChunkBytes_read] at hread

theorem getD_read {len i : Nat} (hi : i < len) : (payload.read len).getD i 0 = payload i := by
  rw [Memory.read, List.getD_eq_getElem _ _ (by simpa using hi)]
  simp

variable (payload) in
/-- Signed word `e` behind a pointer. -/
theorem getElem?_int16sLE_read {n e : Nat} (he : e < n) :
    (Bytes.int16sLE (payload.read (2 * n)))[e]? =
      some (Bytes.toInt16 (readWord payload (2 * e))) := by
  have hlen : e < (Bytes.u16sLE (payload.read (2 * n))).length := by
    rw [Bytes.length_u16sLE, Memory.length_read]
    omega
  have hword := Bytes.getD_u16sLE (b := payload.read (2 * n)) (by simp) e
  rw [getD_read (by omega), getD_read (by omega), List.getD_eq_getElem _ _ hlen] at hword
  rw [Bytes.int16sLE, List.getElem?_map, List.getElem?_eq_getElem hlen, hword]
  rfl

/-- Word `e` of packed words, read from the memory they were written to. -/
theorem readWord_write_packU16LE {ws : List Nat} {e : Nat} (he : e < ws.length)
    (hws : ws[e] < 2 ^ 16) : readWord (payload.write (Bytes.packU16LE ws)) (2 * e) = ws[e] := by
  obtain ⟨hlow, hhigh⟩ := Bytes.getElem?_packU16LE ws e
  rw [List.getElem?_eq_getElem he, Option.map_some, Nat.mul_comm] at hlow
  rw [List.getElem?_eq_getElem he, Option.map_some, Nat.mul_comm] at hhigh
  rw [readWord, Memory.write, Memory.write, List.getD_eq_getElem?_getD, List.getD_eq_getElem?_getD,
    hlow, hhigh]
  exact Bytes.word16_ofNat hws

variable (payload) in
/-- Word `e` of the mask is added to word `e` of the payload. -/
theorem readWord_maskPayload {e : Nat} (he : e < mask.length) :
    (readWord (maskPayload mask payload) (2 * e) : Int) =
      modQ (Bytes.toInt16 (readWord payload (2 * e)) + mask[e]) := by
  have hxs := getElem?_int16sLE_read payload he
  have hlen : e < (maskProtocolApplyMask (Bytes.int16sLE (payload.read (2 * mask.length)))
      mask).length := by
    rw [maskProtocolApplyMask, List.length_zipWith, Bytes.length_int16sLE, Memory.length_read]
    omega
  have hword : (maskProtocolApplyMask (Bytes.int16sLE (payload.read (2 * mask.length)))
      mask)[e] = modQ (Bytes.toInt16 (readWord payload (2 * e)) + mask[e]) := by
    apply (List.getElem_eq_iff hlen).mpr
    rw [maskProtocolApplyMask, List.getElem?_zipWith, hxs, List.getElem?_eq_getElem he]
  have hcanon := modQ_canonical (Bytes.toInt16 (readWord payload (2 * e)) + mask[e])
  rw [maskPayload, maskedChunkBytes, readWord_write_packU16LE (by rwa [List.length_map])]
  · rw [List.getElem_map, hword]
    simp only [Canonical] at hcanon
    omega
  · rw [List.getElem_map, hword]
    simp only [Canonical] at hcanon
    omega

end

/-! ## The handler -/

variable {pf : Platform} {env : StepEnv} {ctx : ClientProtocolCtx} {hdr : MsgHeader}
  {len : UInt16} {payload : Memory} {mask : List Int}

/-- The chunk mask has half as many words as the chunk has bytes. -/
theorem length_maskProtocolGenerateChunkMask {kdf : Kdf} {prg : MaskPrg} {g : KemGlobals}
    {ctx : PairwiseContext} {clientId : UInt8} {roundId : UInt32} {chunkIndex : UInt16}
    {chunkSize : Nat}
    (hmask : maskProtocolGenerateChunkMask kdf prg g ctx clientId roundId chunkIndex chunkSize =
      .ok mask) : mask.length = chunkSize := by
  rw [maskProtocolGenerateChunkMask] at hmask
  split at hmask
  · exact absurd hmask (by simp)
  · obtain rfl := Except.ok.inj hmask
    apply combinePeerMasks_length
    intro p hp
    obtain ⟨peer, -, rfl⟩ := List.mem_map.mp hp
    exact (prg _ _).property

/-- Once a chunk is accepted, every payload of its length is masked. -/
theorem handleStreamChunk_payload_eq
    (hok : (handleStreamChunk pf env ctx hdr payload len).status = .success)
    (hmask : maskProtocolGenerateChunkMask pf.kdf pf.prg env.kem ctx.pairwiseCtx ctx.clientId
      ctx.currentRoundId ctx.chunkCtx.chunkIndex (ctx.chunkCtx.chunkSize.toNat / 2) = .ok mask)
    (payload' : Memory) :
    (handleStreamChunk pf env ctx hdr payload' len).payload = maskPayload mask payload' := by
  have hlen := length_maskProtocolGenerateChunkMask hmask
  simp only [handleStreamChunk] at hok ⊢
  split at hok
  · exact PqcStatus.noConfusion hok
  rename_i hstate
  split at hok
  · exact PqcStatus.noConfusion hok
  rename_i hseq
  split at hok
  · exact PqcStatus.noConfusion hok
  rename_i hfull
  rw [if_neg hstate, if_neg hseq, if_neg hfull, hmask, maskPayload, maskedChunkBytes, hlen]

/-- A change of memory reads and writes a payload of `len` bytes and nothing else, and leaves every
    one of its bytes in a masked word. -/
structure MasksExactly (f : Memory → Memory) (len : Nat) (mask : List Int) : Prop where
  outside : ∀ payload i, len ≤ i → f payload i = payload i
  reads : ∀ payload payload', payload.read len = payload'.read len →
    (f payload).read len = (f payload').read len
  masked : ∀ payload i, i < len → ∃ e m, (i = 2 * e ∨ i = 2 * e + 1) ∧ 2 * e + 1 < len ∧
    mask[e]? = some m ∧
    (readWord (f payload) (2 * e) : Int) = modQ (Bytes.toInt16 (readWord payload (2 * e)) + m)

/-- A payload that is as long as the mask is masked. -/
theorem masksExactly_maskPayload (mask : List Int) :
    MasksExactly (maskPayload mask) (2 * mask.length) mask where
  outside payload i hi := maskPayload_of_ge hi
  reads payload payload' heq := by rw [read_maskPayload, read_maskPayload, heq]
  masked payload i hi := by
    have he : i / 2 < mask.length := by omega
    exact ⟨i / 2, mask[i / 2], by omega, by omega, List.getElem?_eq_getElem he,
      readWord_maskPayload payload he⟩

/-- No other length is masked exactly. -/
theorem MasksExactly.length_eq {len : Nat} (h : MasksExactly (maskPayload mask) len mask) :
    len = 2 * mask.length := by
  by_contra hne
  obtain hshort | hlong := Nat.lt_or_gt_of_ne hne
  · -- the last masked word ends outside; its high byte cannot stay `0x7f`
    have he : mask.length - 1 < mask.length := by omega
    have hword := readWord_maskPayload (fun _ => 0x7f) he
    have hcanon := modQ_canonical
      (Bytes.toInt16 (readWord (fun _ => 0x7f) (2 * (mask.length - 1))) + mask[mask.length - 1])
    have hbyte := h.outside (fun _ => 0x7f) (2 * (mask.length - 1) + 1) (by omega)
    rw [← hword, readWord, hbyte, Bytes.word16] at hcanon
    have hvalue : (0x7f : UInt8).toNat = 127 := rfl
    rw [hvalue] at hcanon
    have hlow := (maskPayload mask (fun _ => 0x7f) (2 * (mask.length - 1))).toNat_lt
    simp only [Canonical] at hcanon
    omega
  · -- the first byte behind the masked words is in none of them
    obtain ⟨e, m, hword, -, hm, -⟩ := h.masked (fun _ => 0) (2 * mask.length) hlong
    obtain ⟨he, -⟩ := List.getElem?_eq_some_iff.mp hm
    omega

/-- An accepted chunk is masked without a byte more or less exactly if its payload has two bytes
    for each word of half the announced chunk size. -/
theorem masksExactly_iff (payload : Memory)
    (hok : (handleStreamChunk pf env ctx hdr payload len).status = .success)
    (hmask : maskProtocolGenerateChunkMask pf.kdf pf.prg env.kem ctx.pairwiseCtx ctx.clientId
      ctx.currentRoundId ctx.chunkCtx.chunkIndex (ctx.chunkCtx.chunkSize.toNat / 2) = .ok mask) :
    MasksExactly (fun payload => (handleStreamChunk pf env ctx hdr payload len).payload) len.toNat
        mask ↔
      len.toNat = 2 * (ctx.chunkCtx.chunkSize.toNat / 2) := by
  have hpayload : (fun payload => (handleStreamChunk pf env ctx hdr payload len).payload) =
      maskPayload mask := funext (handleStreamChunk_payload_eq hok hmask)
  have hlen := length_maskProtocolGenerateChunkMask hmask
  rw [hpayload, ← hlen]
  constructor
  · exact MasksExactly.length_eq
  · intro heq
    rw [heq]
    exact masksExactly_maskPayload mask

/-- Chunk 0 of 4 bytes out of chunks of 4. -/
theorem masksExactly_fourByFour :
    MasksExactly (fun payload => (handleStreamChunk repeatPlatform quietEnv fourByFourClient
        firstChunkHeader payload 4).payload) 4 [0, 0] ↔
      (4 : UInt16).toNat = 2 * (fourByFourClient.chunkCtx.chunkSize.toNat / 2) :=
  masksExactly_iff (fun _ => 0) (by decide +kernel) (by decide +kernel)

/-- Client 1 in a round with chunks of 3 bytes. -/
def oddChunkClient : ClientProtocolCtx :=
  { clientWithPeer with
    state := .maskedUpdateStream
    chunkCtx := roundInitChunkCtx (stateMachineInit 1 1 0) roundInitHeader
      (.ofBytes [2, 2, 3, 0, 6, 0, 0, 0]) }

/-- Client 1 after the first of two chunks of 4 bytes. -/
def finalChunkClient : ClientProtocolCtx :=
  { fourByFourClient with chunkCtx := fourByFourClient.chunkCtx.next 4 }

/-- A payload whose length is not that of the mask is accepted, but not masked exactly. -/
private theorem not_masksExactly (payload : Memory)
    (hok : (handleStreamChunk pf env ctx hdr payload len).status = .success)
    (hmask : maskProtocolGenerateChunkMask pf.kdf pf.prg env.kem ctx.pairwiseCtx ctx.clientId
      ctx.currentRoundId ctx.chunkCtx.chunkIndex (ctx.chunkCtx.chunkSize.toNat / 2) = .ok mask)
    {n : Nat} (hn : n ≠ 2 * mask.length) :
    ¬MasksExactly (fun payload => (handleStreamChunk pf env ctx hdr payload len).payload) n
      mask := by
  intro h
  rw [show (fun payload => (handleStreamChunk pf env ctx hdr payload len).payload) =
    maskPayload mask from funext (handleStreamChunk_payload_eq hok hmask)] at h
  exact hn h.length_eq

/-- A chunk of 3 bytes is accepted and keeps its last byte, and a final chunk of 2 bytes is
    accepted and the 2 bytes behind it are written. -/
theorem oddChunk_finalChunk_not_masksExactly :
    ((handleStreamChunk repeatPlatform quietEnv oddChunkClient firstChunkHeader
        (fun _ => 0) 3).status = .success ∧
      maskProtocolGenerateChunkMask repeatPlatform.kdf repeatPlatform.prg quietEnv.kem
        oddChunkClient.pairwiseCtx 1 1 0 (3 / 2) = .ok [0] ∧
      ¬MasksExactly (fun payload => (handleStreamChunk repeatPlatform quietEnv oddChunkClient
        firstChunkHeader payload 3).payload) 3 [0]) ∧
    (handleStreamChunk repeatPlatform quietEnv finalChunkClient
        { firstChunkHeader with sequenceNumber := 1 } (fun _ => 0) 2).status = .success ∧
      maskProtocolGenerateChunkMask repeatPlatform.kdf repeatPlatform.prg quietEnv.kem
        finalChunkClient.pairwiseCtx 1 1 1 (4 / 2) = .ok [0, 0] ∧
      ¬MasksExactly (fun payload => (handleStreamChunk repeatPlatform quietEnv finalChunkClient
        { firstChunkHeader with sequenceNumber := 1 } payload 2).payload) 2 [0, 0] := by
  refine ⟨⟨by decide +kernel, by decide +kernel, ?_⟩, by decide +kernel, by decide +kernel, ?_⟩
  · exact not_masksExactly (fun _ => 0) (by decide +kernel) (by decide +kernel)
      (by decide)
  · exact not_masksExactly (fun _ => 0) (by decide +kernel) (by decide +kernel)
      (by decide)

end SwiftAgg.Native
