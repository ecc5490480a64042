import SwiftAgg.Spec.KeyDerivation
import SwiftAgg.Spec.MaskWords
import Mathlib.Algebra.BigOperators.Ring.Finset

/-!
# Regeneration of a dropped client's masks

`recover_dropped_client_masks` derives a seed for every peer and from it a
stream for every chunk. It returns exactly if the ids, the round and the chunk
indices fit the fields of the info strings, and then a chunk's mask is the
signed sum of the words of the peers' streams.

## Key results

- `recoverDroppedClientMasks_eq`: where the fields fit, the masks are returned
- `fieldsFit_of_recoverDroppedClientMasks`: and nowhere else
- `regeneratedMask_cast`: a position of a returned mask
-/

namespace SwiftAgg.Host

/-! ## Seeds -/

theorem lt_of_bytesOf {ns : List Nat} {b : Bytes} (h : bytesOf ns = .ok b) :
    ∀ n ∈ ns, n < 2 ^ 8 := by
  intro n hn
  unfold bytesOf at h
  split at h
  · rename_i hall
    exact of_decide_eq_true (List.all_eq_true.mp hall n hn)
  · cases h

section

variable {hmac : Hmac} {secret seed : Bytes} {a b id roundId chunk : Nat}

/-- A derivation that returned had arguments that fit. -/
theorem lt_of_derivePairwiseMaskSeed
    (h : derivePairwiseMaskSeed hmac secret a b roundId = .ok seed) :
    a < 2 ^ 8 ∧ b < 2 ^ 8 ∧ roundId < 2 ^ 32 := by
  obtain ⟨ids, hids, h⟩ := Except.bind_eq_ok.mp h
  obtain ⟨round, hround, -⟩ := Except.bind_eq_ok.mp h
  have hlt := lt_of_bytesOf hids
  refine ⟨hlt a (by simp), hlt b (by simp), ?_⟩
  unfold toBytes4 at hround
  split at hround
  · assumption
  · cases hround

theorem lt_of_deriveStreamMaskSeed
    (h : deriveStreamMaskSeed hmac secret id roundId chunk = .ok seed) :
    chunk < 2 ^ 16 := by
  obtain ⟨ids, -, h⟩ := Except.bind_eq_ok.mp h
  obtain ⟨round, -, h⟩ := Except.bind_eq_ok.mp h
  obtain ⟨index, hindex, -⟩ := Except.bind_eq_ok.mp h
  unfold toBytes2 at hindex
  split at hindex
  · assumption
  · cases hindex

end

/-! ## Streams -/

section

variable (hmac : Hmac) (aes : AesCtr) (secret : Bytes) (roundId d p : Nat)

/-- The seed of the pair of the dropped client `d` and a peer. -/
def pairwiseSeed : Bytes32 :=
  Native.hkdf hmac secret (Native.kdfLabelPairwiseMask ++
    ([UInt8.ofNat (min d p), UInt8.ofNat (max d p)] ++ Bytes.be32 roundId))

/-- The key stream that belongs to a peer and a chunk of `n` words. -/
def peerStream (i n : Nat) : { b : Bytes // b.length = n * 2 } :=
  let streamSeed := Native.hkdf hmac (pairwiseSeed hmac secret roundId d p).val
    (Native.kdfLabelStreamMask ++ ([UInt8.ofNat d] ++ Bytes.be32 roundId ++ Bytes.be16 i))
  aes streamSeed.val (List.replicate 16 0) (n * 2)

/-- The words of the peers' streams at position `j`, added for a peer with a larger id than `d` and
    subtracted for one with a smaller id. -/
def signedWords (peers : List Nat) (i n j : Nat) : Int :=
  (peers.map fun p =>
    maskSign d p * (unsignedWord (peerStream hmac aes secret roundId d p i n).val j : Int)).sum

/-- The mask of a chunk, once the seeds are there. -/
def regeneratedMask (peers : List Nat) (i n : Nat) : List Int :=
  combinePeerMasks d n (peers.map fun p =>
    (p, masksOfStream (peerStream hmac aes secret roundId d p i n).val))

end

/-! ## The loops -/

/-- For every peer, the ids, the round and the chunk indices fit the fields of the info strings. -/
def FieldsFit (roundId d num : Nat) (peers : List Nat) : Prop :=
  ∀ p ∈ peers, d < 2 ^ 8 ∧ p < 2 ^ 8 ∧ roundId < 2 ^ 32 ∧ num ≤ 2 ^ 16

section

variable {hmac : Hmac} {aes : AesCtr} {secret : Bytes} {roundId d num n : Nat} {peers : List Nat}

/-- The seed loop. -/
theorem recoverDroppedClientPairwiseSeeds_eq (hmac : Hmac) (secret : Bytes)
    (h : FieldsFit roundId d num peers) :
    ∃ seeds, recoverDroppedClientPairwiseSeeds hmac secret roundId peers d = .ok seeds ∧
      ∀ p ∈ peers, seeds.get? p = some (pairwiseSeed hmac secret roundId d p).val := by
  refine Exists.imp (fun seeds hseeds => ⟨hseeds.1, fun p hp => ?_⟩)
    (Dict.foldlM_insert_keys _ (fun p => some (pairwiseSeed hmac secret roundId d p).val) ?_ _)
  · rw [hseeds.2, if_pos hp, Option.some_or]
  · intro p hp r
    obtain ⟨hd, hp, hround, -⟩ := h p hp
    rw [derivePairwiseMaskSeed_eq_ok hmac secret (by omega) (by omega) hround]
    rfl

/-- The masks, if the arguments fit. -/
theorem recoverDroppedClientMasks_eq (hmac : Hmac) (aes : AesCtr) (secret : Bytes) (n : Nat)
    (h : FieldsFit roundId d num peers) :
    ∃ M, recoverDroppedClientMasks hmac aes secret roundId peers d num n = .ok M ∧
      ∀ i < num, M.get? i = some (regeneratedMask hmac aes secret roundId d peers i n) := by
  obtain ⟨seeds, hseeds, hseed⟩ := recoverDroppedClientPairwiseSeeds_eq hmac secret h
  rw [recoverDroppedClientMasks, hseeds]
  refine Exists.imp (fun M hM => ⟨hM.1, fun i hi => ?_⟩) (Dict.foldlM_insert_keys _
    (fun i => some (regeneratedMask hmac aes secret roundId d peers i n)) ?_ _)
  · rw [hM.2, if_pos (List.mem_range.mpr hi), Option.some_or]
  · intro i hi r
    refine Except.bind_eq_ok.mpr ⟨_, List.mapM_eq_ok (g := fun p =>
      (p, masksOfStream (peerStream hmac aes secret roundId d p i n).val)) fun p hp => ?_, rfl⟩
    obtain ⟨hd, -, hround, hnum⟩ := h p hp
    have hindex : i < 2 ^ 16 := (List.mem_range.mp hi).trans_le hnum
    simp only [hseed p hp, deriveStreamMaskSeed_eq_ok hmac _ hd hround hindex]
    rfl

/-- If the masks are returned, the arguments fit. -/
theorem fieldsFit_of_recoverDroppedClientMasks {M : Dict Nat (List Int)}
    (h : recoverDroppedClientMasks hmac aes secret roundId peers d num n = .ok M) :
    FieldsFit roundId d num peers := by
  intro p hp
  obtain ⟨seeds, hseeds, hmasks⟩ := Except.bind_eq_ok.mp h
  obtain ⟨_, _, hstep⟩ := List.foldlM_ok_mem hseeds hp
  obtain ⟨seed, hseed, -⟩ := Except.bind_eq_ok.mp hstep
  obtain ⟨hmin, hmax, hround⟩ := lt_of_derivePairwiseMaskSeed hseed
  refine ⟨by omega, by omega, hround, ?_⟩
  by_contra hnum
  -- chunk `2 ^ 16` has no index
  obtain ⟨_, _, hchunk⟩ := List.foldlM_ok_mem hmasks
    (List.mem_range.mpr (show 2 ^ 16 < num by omega))
  obtain ⟨rows, hrows, -⟩ := Except.bind_eq_ok.mp hchunk
  obtain ⟨row, hrow⟩ := List.mapM_ok_mem hrows hp
  cases hget : seeds.get? p with
  | none =>
    rw [hget] at hrow
    cases hrow
  | some seed =>
    rw [hget] at hrow
    obtain ⟨streamSeed, hstream, -⟩ := Except.bind_eq_ok.mp hrow
    exact absurd (lt_of_deriveStreamMaskSeed hstream) (lt_irrefl _)

/-- What was returned. -/
theorem get?_of_recoverDroppedClientMasks {M : Dict Nat (List Int)}
    (h : recoverDroppedClientMasks hmac aes secret roundId peers d num n = .ok M) {i : Nat}
    (hi : i < num) : M.get? i = some (regeneratedMask hmac aes secret roundId d peers i n) := by
  obtain ⟨M', hM', hget⟩ := recoverDroppedClientMasks_eq hmac aes secret n
    (fieldsFit_of_recoverDroppedClientMasks h)
  rw [← Except.ok.inj (hM'.symm.trans h)]
  exact hget i hi

/-! ## Positions -/

private theorem length_masksOfStream_peerStream (hmac : Hmac) (aes : AesCtr) (secret : Bytes)
    (roundId d p i n : Nat) :
    (masksOfStream (peerStream hmac aes secret roundId d p i n).val).length = n := by
  have hlen := (peerStream hmac aes secret roundId d p i n).property
  rw [masksOfStream_eq (by omega), List.length_map, Bytes.length_u16sLE, hlen,
    Nat.mul_div_cancel _ (by decide)]

theorem length_regeneratedMask (hmac : Hmac) (aes : AesCtr) (secret : Bytes)
    (roundId d : Nat) (peers : List Nat) (i n : Nat) :
    (regeneratedMask hmac aes secret roundId d peers i n).length = n := by
  apply combinePeerMasks_length
  simp only [List.mem_map]
  rintro q ⟨p, -, rfl⟩
  exact length_masksOfStream_peerStream ..

/-- A position of a mask is the signed sum of the words there. -/
theorem regeneratedMask_cast (hmac : Hmac) (aes : AesCtr) (secret : Bytes) (roundId d : Nat)
    (peers : List Nat) (i : Nat) {n j : Nat} (hj : j < n) :
    (((regeneratedMask hmac aes secret roundId d peers i n).getD j 0 : Int) : Gf) =
      (signedWords hmac aes secret roundId d peers i n j : Gf) := by
  have hrow : ∀ q ∈ peers.map fun p =>
      (p, masksOfStream (peerStream hmac aes secret roundId d p i n).val), q.2.length = n := by
    simp only [List.mem_map]
    rintro q ⟨p, -, rfl⟩
    exact length_masksOfStream_peerStream ..
  rw [regeneratedMask, (combinePeerMasks_cast d hrow hj).2, signedWords, Int.cast_list_sum,
    List.map_map, List.map_map]
  congr 1
  apply List.map_congr_left
  intro p _
  simp only [Function.comp_apply, Int.cast_mul, Int.cast_natCast,
    masksOfStream_getD_cast (peerStream hmac aes secret roundId d p i n).property]

/-- The order of the peers does not matter. -/
theorem signedWords_perm (hmac : Hmac) (aes : AesCtr) (secret : Bytes) (roundId d : Nat)
    {peers' : List Nat} (h : peers.Perm peers') (i n j : Nat) :
    signedWords hmac aes secret roundId d peers i n j =
      signedWords hmac aes secret roundId d peers' i n j :=
  (h.map _).sum_eq

end

end SwiftAgg.Host
