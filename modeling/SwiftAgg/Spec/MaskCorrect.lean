import SwiftAgg.Native.MaskProtocol
import SwiftAgg.Host.ShamirRecovery
import SwiftAgg.Spec.Field
import SwiftAgg.ForStd.List
import Mathlib.Tactic.Ring

/-!
# Combined masks in the field

The accumulation loops of firmware and host both add signed words in
`ZMod 3329` and keep canonical representatives. They differ in how they read
the words of a keystream: the firmware as signed, the host as unsigned 16-bit
integers.

## Key results

- `Native.combinePeerMasks_cast`: a position of the firmware's combined mask
- `Host.combinePeerMasks_cast`: a position of the host's combined mask
-/

namespace SwiftAgg

/-- Row loops whose steps add in the field and reduce: a position of the result is canonical and
    is the sum of the terms there. -/
theorem foldl_rows_cast {ι α : Type} (f : ι → Int → α → Int) (row : ι → List α) (t : ι → α → Gf)
    {ps : List ι} (hstep : ∀ p ∈ ps, ∀ x w, Canonical (f p x w) ∧ (f p x w : Gf) = x + t p w)
    {n : Nat} (hrow : ∀ p ∈ ps, (row p).length = n) {j : Nat} (hj : j < n) (a : α) :
    Canonical ((ps.foldl (fun acc p => List.zipWith (f p) acc (row p))
        (List.replicate n 0)).getD j 0) ∧
      (((ps.foldl (fun acc p => List.zipWith (f p) acc (row p))
        (List.replicate n 0)).getD j 0 : Int) : Gf) =
          (ps.map fun p => t p ((row p).getD j a)).sum := by
  rw [List.foldl_zipWith_getD f row hrow (by simp) hj 0 a, List.getD_replicate _ hj]
  obtain ⟨hcanon, hsum⟩ := List.foldl_reduced (R := Gf) Canonical
    (fun acc p => f p acc ((row p).getD j a)) (fun p => t p ((row p).getD j a))
    (fun p hp acc _ => hstep p hp acc _) canonical_zero
  rw [Int.cast_zero, zero_add] at hsum
  exact ⟨hcanon, hsum⟩

/-! ## Firmware -/

namespace Native

theorem cast_tmod (a : Int) : ((a.tmod 3329 : Int) : Gf) = (a : Gf) := by
  have hzero : ((3329 : Int) : Gf) = 0 := by decide
  calc ((a.tmod 3329 : Int) : Gf)
      = ((a.tmod 3329 + 3329 * a.tdiv 3329 : Int) : Gf) := by
        rw [Int.cast_add, Int.cast_mul, hzero, zero_mul, add_zero]
    _ = (a : Gf) := by rw [Int.tmod_add_mul_tdiv]

theorem modQ_canonical (val : Int) : Canonical (modQ val) := by
  have h₁ := Int.lt_tmod_of_pos val (b := 3329) (by decide)
  have h₂ := Int.tmod_lt_of_pos val (b := 3329) (by decide)
  simp only [modQ, Canonical]
  split_ifs <;> omega

theorem modQ_cast (val : Int) : (modQ val : Gf) = (val : Gf) := by
  have hzero : ((3329 : Int) : Gf) = 0 := by decide
  simp only [modQ]
  split_ifs
  · rw [Int.cast_add, hzero, add_zero, cast_tmod]
  · exact cast_tmod val

/-- `mod_q` is the reduction modulo 3329. -/
theorem modQ_eq_emod (val : Int) : modQ val = val % 3329 :=
  Gf.eq_of_cast_eq (modQ_canonical val) (canonical_emod val) (by rw [modQ_cast, Gf.cast_emod])

/-- A chunk that fits the chunk buffer gets the combined mask of the peers' keystreams. -/
theorem maskProtocolGenerateChunkMask_of_le (kdf : Kdf) (prg : MaskPrg) (g : KemGlobals)
    (ctx : PairwiseContext) (clientId : UInt8) (roundId : UInt32) (chunkIndex : UInt16)
    {chunkSize : Nat} (hsize : chunkSize ≤ 512) :
    maskProtocolGenerateChunkMask kdf prg g ctx clientId roundId chunkIndex chunkSize =
      .ok (combinePeerMasks clientId chunkSize (ctx.peers.map fun peer =>
        (peer.peerClientId,
          peerKeystream kdf prg g clientId roundId chunkIndex chunkSize peer.maskSeed))) := by
  have hguard : ¬chunkBufferBytes / 2 < chunkSize := by
    rw [chunkBufferBytes]
    omega
  rw [maskProtocolGenerateChunkMask, if_neg hguard]

/-- The signed word of a keystream at a position. -/
def keystreamWord (keystream : Bytes) (j : Nat) : Int := (Bytes.int16sLE keystream).getD j 0

private theorem length_int16sLE_of_length {ks : Bytes} {n : Nat} (h : ks.length = n * 2) :
    (Bytes.int16sLE ks).length = n := by
  rw [Bytes.length_int16sLE, h, Nat.mul_div_cancel _ (by decide)]

variable {clientId : UInt8} {chunkSize : Nat} {peers : List (UInt8 × Bytes)}

theorem combinePeerMasks_length (hks : ∀ p ∈ peers, p.2.length = chunkSize * 2) :
    (combinePeerMasks clientId chunkSize peers).length = chunkSize := by
  unfold combinePeerMasks addPeerMask
  apply List.foldl_zipWith_length
    (fun (p : UInt8 × Bytes) out word => modQ (out + maskSign clientId p.1 * word.tmod 3329))
    (fun p => Bytes.int16sLE p.2)
  · exact fun p hp => length_int16sLE_of_length (hks p hp)
  · rw [List.length_replicate]

/-- A position of the firmware's combined mask is canonical and is the sum of the signed words. -/
theorem combinePeerMasks_cast (clientId : UInt8)
    (hks : ∀ p ∈ peers, p.2.length = chunkSize * 2) {j : Nat} (hj : j < chunkSize) :
    Canonical ((combinePeerMasks clientId chunkSize peers).getD j 0) ∧
      (((combinePeerMasks clientId chunkSize peers).getD j 0 : Int) : Gf) =
        (peers.map fun p => (maskSign clientId p.1 : Gf) * keystreamWord p.2 j).sum := by
  unfold combinePeerMasks addPeerMask
  apply foldl_rows_cast
    (fun (p : UInt8 × Bytes) out word => modQ (out + maskSign clientId p.1 * word.tmod 3329))
    (fun p => Bytes.int16sLE p.2) (fun p word => (maskSign clientId p.1 : Gf) * word)
  · intro p _ out word
    refine ⟨modQ_canonical _, ?_⟩
    rw [modQ_cast, Int.cast_add, Int.cast_mul, cast_tmod]
  · exact fun p hp => length_int16sLE_of_length (hks p hp)
  · exact hj

end Native

/-! ## Host -/

namespace Host

/-- On a whole number of words the host reads the unsigned words, reduced. -/
theorem masksOfStream_eq {stream : Bytes} (h : stream.length % 2 = 0) :
    masksOfStream stream = (Bytes.u16sLE stream).map fun w : Nat => (w : Int) % 3329 := by
  induction stream using masksOfStream.induct with
  | case1 lo hi rest ih =>
    rw [masksOfStream, Bytes.u16sLE, List.map_cons, ih (by simp at h; omega), fieldModulus]
  | case2 b => simp at h
  | case3 => rfl

/-- `sign` of a peer in `recover_dropped_client_masks`. -/
def maskSign (droppedClientId peerId : Nat) : Int := if droppedClientId < peerId then 1 else -1

variable {droppedClientId chunkSize : Nat} {peers : List (Nat × List Int)}

theorem combinePeerMasks_length (hrow : ∀ p ∈ peers, p.2.length = chunkSize) :
    (combinePeerMasks droppedClientId chunkSize peers).length = chunkSize := by
  apply List.foldl_zipWith_length
    (fun (p : Nat × List Int) c m => (c + maskSign droppedClientId p.1 * m) % fieldModulus)
    Prod.snd hrow
  rw [List.length_replicate]

/-- A position of the host's combined mask is canonical and is the sum of the signed masks. -/
theorem combinePeerMasks_cast (droppedClientId : Nat)
    (hrow : ∀ p ∈ peers, p.2.length = chunkSize) {j : Nat} (hj : j < chunkSize) :
    Canonical ((combinePeerMasks droppedClientId chunkSize peers).getD j 0) ∧
      (((combinePeerMasks droppedClientId chunkSize peers).getD j 0 : Int) : Gf) =
        (peers.map fun p => (maskSign droppedClientId p.1 : Gf) * (p.2.getD j 0 : Int)).sum := by
  apply foldl_rows_cast
    (fun (p : Nat × List Int) c m => (c + maskSign droppedClientId p.1 * m) % fieldModulus)
    Prod.snd (fun p m => (maskSign droppedClientId p.1 : Gf) * m)
  · intro p _ c m
    refine ⟨canonical_emod _, ?_⟩
    rw [fieldModulus, Gf.cast_emod, Int.cast_add, Int.cast_mul]
  · exact hrow
  · exact hj

end Host

end SwiftAgg
