import SwiftAgg.Native.DropoutProtocol
import SwiftAgg.Spec.MaskCancellation

/-!
# The recovered mask of a dropped client

A client derives the seed of a pair from the two ids in order; whoever recovers
the mask of a dropped client derives it from the dropped client's id and the
peer's, as they are given. The two info strings differ if the dropped client has
the larger id, and then there is a derivation that tells them apart.

## Key results

- `maskProtocolGenerateChunkMask_eq_sumPeerMasks`: a chunk mask as a sum of peer masks
- `recoveredMask_iff`: when the recovered words are those that were applied
-/

namespace SwiftAgg.Native

/-! ## Peer masks -/

section

variable (kdf : Kdf) (prg : MaskPrg) (g : KemGlobals) (clientId : UInt8) (roundId : UInt32)
  (chunkIndex : UInt16) (chunkSize : Nat)

/-- The array `peer_mask` of `mask_protocol_generate_chunk_mask` for every peer, with the peer's
    id. -/
def peerMasks (ctx : PairwiseContext) : List (UInt8 × List Int) :=
  ctx.peers.map fun peer =>
    (peer.peerClientId, Bytes.int16sLE
      (peerKeystream kdf prg g clientId roundId chunkIndex chunkSize peer.maskSeed))

/-- The loop of `mask_protocol_generate_chunk_mask` over the peers, given their masks. -/
def sumPeerMasks (masks : List (UInt8 × List Int)) : List Int :=
  masks.foldl
    (fun output peer =>
      List.zipWith (fun out word => modQ (out + maskSign clientId peer.1 * word.tmod 3329)) output
        peer.2)
    (List.replicate chunkSize 0)

theorem maskProtocolGenerateChunkMask_eq_sumPeerMasks (hsize : chunkSize ≤ 512)
    (ctx : PairwiseContext) :
    maskProtocolGenerateChunkMask kdf prg g ctx clientId roundId chunkIndex chunkSize =
      .ok (sumPeerMasks clientId chunkSize
        (peerMasks kdf prg g clientId roundId chunkIndex chunkSize ctx)) := by
  rw [maskProtocolGenerateChunkMask_of_le kdf prg g ctx clientId roundId chunkIndex hsize,
    combinePeerMasks, sumPeerMasks, peerMasks, List.foldl_map, List.foldl_map]
  rfl

/-- The recovered words for the peer in position `i` are those that the client expands for it after
    deriving the pairwise seeds. -/
def RecoversMask (g' : KemGlobals) (secret : Bytes32) (p : UInt8) (ctx : PairwiseContext)
    (secrets : Memory) (i : Nat) : Prop :=
  let derived := maskProtocolDerivePairwiseSeeds kdf g ctx clientId secrets roundId
  let masks := peerMasks kdf prg g clientId roundId chunkIndex chunkSize derived.2
  derived.1 = .success ∧
    maskProtocolGenerateChunkMask kdf prg g derived.2 clientId roundId chunkIndex chunkSize =
      .ok (sumPeerMasks clientId chunkSize masks) ∧
    ∃ words, dropoutProtocolDeriveMaskForRecovery kdf prg g' secret clientId roundId chunkIndex p
        chunkSize = (.success, words) ∧
      masks[i]? = some (p, words)

end

/-! ## Both derivations -/

section

variable (kdf : Kdf) (prg : MaskPrg) (g g' : KemGlobals) (d p : UInt8) (roundId : UInt32)
  (chunkIndex : UInt16) (chunkSize : Nat) (secret : Bytes32)

/-- The words that both sides expand under a pairwise info string. -/
def maskWords (pairwiseInfo : Bytes) : List Int :=
  Bytes.int16sLE
    (prg (kdf (kdf secret.val pairwiseInfo).val (streamMaskInfo d roundId chunkIndex))
      (chunkSize * 2)).val

theorem dropoutProtocolDeriveMaskForRecovery_eq :
    dropoutProtocolDeriveMaskForRecovery kdf prg g secret d roundId chunkIndex p chunkSize =
      (.success, maskWords kdf prg d roundId chunkIndex chunkSize secret
        (pairwiseMaskInfo d p roundId)) := by
  simp only [dropoutProtocolDeriveMaskForRecovery, kemAdapterDeriveStreamMaskSeed,
    kemAdapterDerivePairwiseMaskSeed, deriveWithInfo_eq, maskWords]

/-- What the client expands for the peer in position `i`. -/
theorem peerMasks_derivePairwiseSeeds {ctx : PairwiseContext} {secrets : Memory} {i : Nat}
    (hpeer : (ctx.peers.map PairwiseSecret.peerClientId)[i]? = some p)
    (hsecret : kemSecret secrets i = secret) :
    (peerMasks kdf prg g d roundId chunkIndex chunkSize
        (maskProtocolDerivePairwiseSeeds kdf g ctx d secrets roundId).2)[i]? =
      some (p, maskWords kdf prg d roundId chunkIndex chunkSize secret
        (pairwiseMaskInfo (min d p) (max d p) roundId)) := by
  rw [List.getElem?_map, Option.map_eq_some_iff] at hpeer
  obtain ⟨peer, hpeer, rfl⟩ := hpeer
  simp only [peerMasks, maskProtocolDerivePairwiseSeeds_peers, List.getElem?_map,
    List.getElem?_mapIdx, hpeer, Option.map_some, derivePairwiseSeed_peerClientId,
    derivePairwiseSeed_maskSeed, hsecret, pairSeed, peerKeystream, kemAdapterDeriveStreamMaskSeed,
    kemAdapterDerivePairwiseMaskSeed, deriveWithInfo_eq, maskWords]

theorem recoversMask_iff_maskWords (hsize : chunkSize ≤ 512) {ctx : PairwiseContext}
    {secrets : Memory} {i : Nat}
    (hpeer : (ctx.peers.map PairwiseSecret.peerClientId)[i]? = some p)
    (hsecret : kemSecret secrets i = secret) :
    RecoversMask kdf prg g d roundId chunkIndex chunkSize g' secret p ctx secrets i ↔
      maskWords kdf prg d roundId chunkIndex chunkSize secret
          (pairwiseMaskInfo (min d p) (max d p) roundId) =
        maskWords kdf prg d roundId chunkIndex chunkSize secret (pairwiseMaskInfo d p roundId) := by
  have hpos : ctx.numPeers ≠ 0 := by
    intro hzero
    rw [PairwiseContext.numPeers, List.length_eq_zero_iff] at hzero
    simp [hzero] at hpeer
  have hstatus : (maskProtocolDerivePairwiseSeeds kdf g ctx d secrets roundId).1 = .success := by
    rw [maskProtocolDerivePairwiseSeeds, if_neg hpos]
  have hmask := peerMasks_derivePairwiseSeeds kdf prg g d p roundId chunkIndex chunkSize secret
    hpeer hsecret
  simp only [RecoversMask, dropoutProtocolDeriveMaskForRecovery_eq, hmask]
  constructor
  · rintro ⟨-, -, words, hwords, hsome⟩
    rw [(Prod.mk.inj hwords).2]
    exact (Prod.mk.inj (Option.some.inj hsome)).2
  · intro heq
    refine ⟨hstatus, ?_, _, rfl, by rw [heq]⟩
    exact maskProtocolGenerateChunkMask_eq_sumPeerMasks kdf prg g d roundId chunkIndex chunkSize
      hsize _

end

/-! ## Telling the orders apart -/

/-- A derivation that puts the two ids into a pairwise seed and passes it on as the stream seed. -/
def orderKdf : Kdf := fun ikm info =>
  let data := if info.length = 30 then info.drop 28 else ikm
  ⟨(data ++ Bytes.zero32.val).take 32, Bytes.length_take_zero32 data⟩

/-- With this derivation the first word of a mask is made of the two ids. -/
theorem maskWords_orderKdf (d a b : UInt8) (roundId : UInt32) (chunkIndex : UInt16)
    (secret : Bytes32) {chunkSize : Nat} (hsize : chunkSize ≠ 0) :
    (maskWords orderKdf echoPrg d roundId chunkIndex chunkSize secret
      (pairwiseMaskInfo a b roundId))[0]? = some (Bytes.toInt16 (Bytes.word16 a b)) := by
  obtain ⟨n, rfl⟩ := Nat.exists_eq_succ_of_ne_zero hsize
  have hlen : (n + 1) * 2 = n * 2 + 1 + 1 := by omega
  rw [maskWords, echoPrg]
  show (Bytes.int16sLE ((List.range ((n + 1) * 2)).map _))[0]? = _
  rw [hlen, List.range_succ_eq_map, List.range_succ_eq_map]
  rfl

theorem toInt16_word16_inj {a b a' b' : UInt8}
    (h : Bytes.toInt16 (Bytes.word16 a b) = Bytes.toInt16 (Bytes.word16 a' b')) :
    a = a' ∧ b = b' := by
  have ha := a.toNat_lt
  have ha' := a'.toNat_lt
  have hb := b.toNat_lt
  have hb' := b'.toNat_lt
  simp only [Bytes.toInt16, Bytes.word16] at h
  rw [← UInt8.toNat_inj, ← UInt8.toNat_inj]
  split_ifs at h <;> omega

/-- The recovered words are those that the dropped client `d` applied for its peer `p`, for every
    derivation and every generator, exactly if `d` has the smaller id or the chunk is empty. -/
theorem recoveredMask_iff (secret : Bytes32) (d p : UInt8) (hne : d ≠ p) (roundId : UInt32)
    (chunkIndex : UInt16) (chunkSize : Nat) (hsize : chunkSize ≤ 512) (g g' : KemGlobals)
    (ctx : PairwiseContext) (secrets : Memory) (i : Nat)
    (hpeer : (ctx.peers.map PairwiseSecret.peerClientId)[i]? = some p)
    (hsecret : kemSecret secrets i = secret) :
    (∀ (kdf : Kdf) (prg : MaskPrg),
      RecoversMask kdf prg g d roundId chunkIndex chunkSize g' secret p ctx secrets i) ↔
        d < p ∨ chunkSize = 0 := by
  simp only [recoversMask_iff_maskWords _ _ _ _ _ _ _ _ _ _ hsize hpeer hsecret]
  constructor
  · intro hall
    by_contra hcond
    rw [not_or, not_lt] at hcond
    obtain ⟨hle, hpos⟩ := hcond
    have hfirst := congrArg (fun words : List Int => words[0]?) (hall orderKdf echoPrg)
    simp only [maskWords_orderKdf d _ _ roundId chunkIndex secret hpos, min_eq_right hle,
      max_eq_left hle, Option.some.injEq] at hfirst
    exact hne (toInt16_word16_inj hfirst).1.symm
  · rintro (hlt | rfl) kdf prg
    · rw [min_eq_left hlt.le, max_eq_right hlt.le]
    · -- an empty chunk has no words
      have hempty : ∀ info, maskWords kdf prg d roundId chunkIndex 0 secret info = [] := by
        intro info
        apply List.eq_nil_of_length_eq_zero
        rw [maskWords, Bytes.length_int16sLE, (prg _ _).property]
      rw [hempty, hempty]

/-- A context with one peer, and a buffer with the zero secret for it. -/
def onePeer (p : UInt8) : PairwiseContext :=
  ⟨[⟨p, Bytes.zero32, Bytes.zero32⟩], by simp [maxPeersPerClient]⟩

/-- Client 1 dropped, its peer is client 2: the mask is recovered. -/
theorem recoveredMask_one_two :
    RecoversMask orderKdf echoPrg .initial 1 7 0 16 .initial Bytes.zero32 2 (onePeer 2)
      (fun _ => 0) 0 :=
  (recoveredMask_iff Bytes.zero32 1 2 (by decide) 7 0 16 (by decide) .initial .initial (onePeer 2)
    (fun _ => 0) 0 rfl rfl).mpr (.inl (by decide)) orderKdf echoPrg

/-- Client 2 dropped, its peer is client 1: the mask is not recovered. -/
theorem recoveredMask_two_one_differs :
    ¬RecoversMask orderKdf echoPrg .initial 2 7 0 16 .initial Bytes.zero32 1 (onePeer 1)
      (fun _ => 0) 0 := by
  unfold RecoversMask
  rintro ⟨-, -, words, hwords, hmask⟩
  have h₁ := congrArg (fun r : PqcStatus × List Int => r.2[0]?) hwords
  have h₂ := congrArg (fun m : Option (UInt8 × List Int) => m.bind fun q => q.2[0]?) hmask
  have hdiff := h₁.trans h₂.symm
  exact absurd hdiff (by decide +kernel)

end SwiftAgg.Native
