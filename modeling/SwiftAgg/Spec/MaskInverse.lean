import SwiftAgg.Native.StreamAggregator
import SwiftAgg.Spec.MaskCorrect

/-!
# Removing a mask

Masking adds a word, removing the mask subtracts it, and both reduce modulo
3329; so removing the mask that was applied leaves the residue of the input.
`mask_protocol.c` does this on arrays and `stream_aggregator.c` from the chunk
buffer of the scratchpad into its transmit buffer, which lie apart.

## Key results

- `modQ_sub_modQ_add`: one word
- `streamAggregatorChunk_int16At` / `streamAggregatorChunk_of_ge`: what a call does to the pad
- `removeMask_applyMask_and_unmask_process`: both paths
-/

namespace SwiftAgg.Native

/-! ## Words -/

/-- Subtracting the mask from a masked word leaves the residue of the word. -/
theorem modQ_sub_modQ_add (x m : Int) : modQ (modQ (x + m) - m) = x % 3329 := by
  rw [modQ_eq_emod, modQ_eq_emod, Int.emod_sub_emod, Int.add_sub_cancel]

theorem maskProtocolRemoveMask_applyMask (x m : List Int) (h : x.length = m.length) :
    maskProtocolRemoveMask (maskProtocolApplyMask x m) m = x.map (· % 3329) := by
  unfold maskProtocolRemoveMask maskProtocolApplyMask
  induction x generalizing m with
  | nil => rfl
  | cons x xs ih =>
    cases m with
    | nil => exact absurd h (Nat.succ_ne_zero _)
    | cons m ms =>
      have htail := ih ms (Nat.succ.inj h)
      simp only [List.zipWith_cons_cons, List.map_cons, modQ_sub_modQ_add, htail]

/-! ## The stream aggregator -/

/-- The result of `mod_q` is stored and read back as an `int16_t` without change. -/
theorem toInt16_maskedWord (op : Int → Int → Int) (mask : List Int) (i w : Nat) :
    Bytes.toInt16 (maskedWord op mask i w) = modQ (op (Bytes.toInt16 w) (mask.getD i 0)) := by
  have hcanon := modQ_canonical (op (Bytes.toInt16 w) (mask.getD i 0))
  unfold Canonical at hcanon
  rw [maskedWord, Bytes.toInt16_of_lt (by omega), Int.toNat_of_nonneg hcanon.1]

theorem maskedWord_lt (op : Int → Int → Int) (mask : List Int) (i w : Nat) :
    maskedWord op mask i w < 2 ^ 16 := by
  have hcanon := modQ_canonical (op (Bytes.toInt16 w) (mask.getD i 0))
  unfold Canonical at hcanon
  rw [maskedWord]
  omega

section

variable (op : Int → Int → Int) (kdf : Kdf) (prg : MaskPrg) (g : KemGlobals) (clientId : UInt8)
  (roundId : UInt32) (chunkIndex : UInt16) {chunkSize : Nat} (sharedSecret : Bytes32) (pad : Memory)

/-- The mask of a chunk. -/
def streamMask (chunkSize : Nat) : List Int :=
  Bytes.int16sLE
    (prg (kemAdapterDeriveStreamMaskSeed kdf g sharedSecret clientId roundId chunkIndex)
      chunkSize).val

theorem streamAggregatorChunk_of_le (hle : chunkSize ≤ 1024) (heven : chunkSize % 2 = 0) :
    streamAggregatorChunk op kdf prg g clientId roundId chunkIndex chunkSize sharedSecret pad =
      (.success, WordLoop.mapWords
        (maskedWord op (streamMask kdf prg g clientId roundId chunkIndex sharedSecret chunkSize))
        Scratchpad.chunkBuf Scratchpad.dmaTx (chunkSize / 2)
        (pad.zeroize Scratchpad.cryptoWs cryptoWorkspaceBytes)) := by
  have hfit : ¬chunkBufferBytes < chunkSize := by
    rw [chunkBufferBytes]
    omega
  simp only [streamAggregatorChunk, hfit, heven, ↓reduceIte, ne_eq, not_true_eq_false, streamMask]

/-- A chunk size that is odd or exceeds the chunk buffer is refused before anything is written. -/
theorem streamAggregatorChunk_refused (h : 1024 < chunkSize ∨ chunkSize % 2 = 1) :
    (streamAggregatorChunk op kdf prg g clientId roundId chunkIndex chunkSize sharedSecret pad).1 ≠
        .success ∧
      (streamAggregatorChunk op kdf prg g clientId roundId chunkIndex chunkSize sharedSecret
        pad).2 = pad := by
  unfold streamAggregatorChunk chunkBufferBytes
  split_ifs with hlarge hodd
  · exact ⟨PqcStatus.noConfusion, rfl⟩
  · exact ⟨PqcStatus.noConfusion, rfl⟩
  · omega

/-- Behind the first `chunk_size` bytes of the transmit buffer a call changes nothing. -/
theorem streamAggregatorChunk_of_ge {k : Nat} (hk : chunkSize ≤ k) :
    (streamAggregatorChunk op kdf prg g clientId roundId chunkIndex chunkSize sharedSecret pad).2
        (Scratchpad.dmaTx + k) = pad (Scratchpad.dmaTx + k) := by
  by_cases h : 1024 < chunkSize ∨ chunkSize % 2 = 1
  · rw [(streamAggregatorChunk_refused op kdf prg g clientId roundId chunkIndex sharedSecret pad
      h).2]
  · rw [streamAggregatorChunk_of_le op kdf prg g clientId roundId chunkIndex sharedSecret pad
      (by omega) (by omega)]
    show WordLoop.mapWords _ _ _ _ _ _ = _
    rw [WordLoop.mapWords_of_notMem (by omega), Memory.zeroize, if_neg]
    simp only [Scratchpad.dmaTx, Scratchpad.dmaRx, cryptoWorkspaceBytes, dmaBufferBytes]
    omega

/-- Word `i` of the transmit buffer is computed from word `i` of the chunk buffer. -/
theorem streamAggregatorChunk_int16At (hle : chunkSize ≤ 1024) (heven : chunkSize % 2 = 0) {i : Nat}
    (hi : i < chunkSize / 2) :
    (streamAggregatorChunk op kdf prg g clientId roundId chunkIndex chunkSize sharedSecret
        pad).2.int16At (Scratchpad.dmaTx + 2 * i) =
      modQ (op (pad.int16At (Scratchpad.chunkBuf + 2 * i))
        ((streamMask kdf prg g clientId roundId chunkIndex sharedSecret chunkSize).getD i 0)) := by
  have hregions : Scratchpad.dmaTx + 2 * (chunkSize / 2) ≤ Scratchpad.chunkBuf := by
    rw [Scratchpad.chunkBuf, dmaBufferBytes]
    omega
  -- the workspace that the derivation wipes lies in front of both buffers
  have hwiped : ∀ k, Scratchpad.dmaTx ≤ k →
      pad.zeroize Scratchpad.cryptoWs cryptoWorkspaceBytes k = pad k := by
    intro k hk
    rw [Memory.zeroize, if_neg]
    rw [Scratchpad.dmaTx, Scratchpad.dmaRx] at hk
    omega
  rw [streamAggregatorChunk_of_le op kdf prg g clientId roundId chunkIndex sharedSecret pad hle
    heven, Memory.int16At, Memory.int16At]
  show Bytes.toInt16 (WordLoop.readWord (WordLoop.mapWords _ _ _ _ _) _) = _
  rw [WordLoop.readWord_mapWords (maskedWord_lt _ _) (.inr hregions) hi, toInt16_maskedWord,
    WordLoop.readWord_congr (hwiped _ (by omega)) (hwiped _ (by omega))]

/-- Masking a chunk, copying the output back and unmasking it leaves the residues of the chunk. -/
theorem streamAggregatorUnmaskChunk_processChunk (hle : chunkSize ≤ 1024)
    (heven : chunkSize % 2 = 0) {i : Nat} (hi : i < chunkSize / 2) :
    (streamAggregatorUnmaskChunk kdf prg g clientId roundId chunkIndex chunkSize sharedSecret
        (WordLoop.copyBytes
          (streamAggregatorProcessChunk kdf prg g clientId roundId chunkIndex chunkSize
            sharedSecret pad).2
          Scratchpad.dmaTx Scratchpad.chunkBuf chunkSize)).2.int16At (Scratchpad.dmaTx + 2 * i) =
      pad.int16At (Scratchpad.chunkBuf + 2 * i) % 3329 := by
  rw [streamAggregatorUnmaskChunk, streamAggregatorChunk_int16At _ _ _ _ _ _ _ _ _ hle heven hi,
    Memory.int16At, WordLoop.readWord_copyBytes (by omega)]
  show modQ (Memory.int16At _ _ - _) = _
  rw [streamAggregatorProcessChunk, streamAggregatorChunk_int16At _ _ _ _ _ _ _ _ _ hle heven hi,
    modQ_sub_modQ_add]

end

/-! ## Both paths -/

/-- Removing the mask that was applied leaves the residues of the input, on both paths. The stream
    aggregator writes nothing behind the first `chunk_size` bytes of its output, and nothing at all
    if the chunk size is odd or too large. -/
theorem removeMask_applyMask_and_unmask_process :
    (∀ x m : List Int, x.length = m.length →
      maskProtocolRemoveMask (maskProtocolApplyMask x m) m = x.map (· % 3329)) ∧
    ∀ (kdf : Kdf) (prg : MaskPrg) (g : KemGlobals) (clientId : UInt8) (roundId : UInt32)
      (chunkIndex : UInt16) (chunkSize : Nat) (sharedSecret : Bytes32),
      let process := streamAggregatorProcessChunk kdf prg g clientId roundId chunkIndex chunkSize
        sharedSecret
      let unmask := streamAggregatorUnmaskChunk kdf prg g clientId roundId chunkIndex chunkSize
        sharedSecret
      let copyBack := fun pad : Memory =>
        WordLoop.copyBytes pad Scratchpad.dmaTx Scratchpad.chunkBuf chunkSize
      (chunkSize ≤ 1024 ∧ chunkSize % 2 = 0 → ∀ pad : Memory,
        (process pad).1 = .success ∧ (unmask (copyBack (process pad).2)).1 = .success ∧
        ∀ i < chunkSize / 2,
          (unmask (copyBack (process pad).2)).2.int16At (Scratchpad.dmaTx + 2 * i) =
            pad.int16At (Scratchpad.chunkBuf + 2 * i) % 3329) ∧
      (∀ pad : Memory, ∀ k ≥ chunkSize,
        (process pad).2 (Scratchpad.dmaTx + k) = pad (Scratchpad.dmaTx + k) ∧
          (unmask pad).2 (Scratchpad.dmaTx + k) = pad (Scratchpad.dmaTx + k)) ∧
      (1024 < chunkSize ∨ chunkSize % 2 = 1 → ∀ pad : Memory,
        (process pad).1 ≠ .success ∧ (process pad).2 = pad ∧
          (unmask pad).1 ≠ .success ∧ (unmask pad).2 = pad) := by
  refine ⟨maskProtocolRemoveMask_applyMask, ?_⟩
  intro kdf prg g clientId roundId chunkIndex chunkSize sharedSecret process unmask copyBack
  refine ⟨?_, ?_, ?_⟩
  · intro h pad
    refine ⟨?_, ?_, fun i hi => ?_⟩
    · exact congrArg Prod.fst (streamAggregatorChunk_of_le _ kdf prg g _ _ _ _ _ h.1 h.2)
    · exact congrArg Prod.fst (streamAggregatorChunk_of_le _ kdf prg g _ _ _ _ _ h.1 h.2)
    · exact streamAggregatorUnmaskChunk_processChunk kdf prg g _ _ _ _ _ h.1 h.2 hi
  · intro pad k hk
    constructor
    · exact streamAggregatorChunk_of_ge _ kdf prg g _ _ _ _ pad hk
    · exact streamAggregatorChunk_of_ge _ kdf prg g _ _ _ _ pad hk
  · intro h pad
    have hprocess := streamAggregatorChunk_refused (· + ·) kdf prg g clientId roundId chunkIndex
      sharedSecret pad h
    have hunmask := streamAggregatorChunk_refused (· - ·) kdf prg g clientId roundId chunkIndex
      sharedSecret pad h
    exact ⟨hprocess.1, hprocess.2, hunmask.1, hunmask.2⟩

end SwiftAgg.Native
