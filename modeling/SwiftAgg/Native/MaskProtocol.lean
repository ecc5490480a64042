import SwiftAgg.Native.KemAdapter

/-!
# Pairwise masks of the firmware

`mask_protocol.c`: seeds shared with each peer, expanded per chunk into words
that are added with a sign given by the order of the ids. Words are `int16_t`
read from a little-endian keystream, `%` truncates towards zero (`Int.tmod`),
and `mod_q` brings every sum back to `[0, 3328]`.
-/

namespace SwiftAgg.Native

/-- The keystream of `mask_prg_init` followed by one `mask_prg_get_bytes`. -/
abbrev MaskPrg := (seed : Bytes32) → (len : Nat) → { b : Bytes // b.length = len }

/-- `mod_q`; the result fits `int16_t`. -/
def modQ (val : Int) : Int :=
  let r := val.tmod 3329
  if r < 0 then r + 3329 else r

/-- `mask_protocol_init_pairwise`: the first `num_peers` entries of a cleared table. -/
def maskProtocolInitPairwise (ctx : PairwiseContext) (numPeers : Nat) :
    PqcStatus × PairwiseContext :=
  if h : maxPeersPerClient < numPeers then (.errInvalidArgument, ctx)
  else
    (.success, ⟨List.replicate numPeers ⟨0, Bytes.zero32, Bytes.zero32⟩, by simpa using h⟩)

/-! ## Seeds -/

/-- The secret of peer `i` in the buffer `client_client_kem_secrets`. -/
def kemSecret (secrets : Memory) (i : Nat) : Bytes32 :=
  Memory.read32 fun k => secrets (i * 32 + k)

/-- One round of the loop of `mask_protocol_derive_pairwise_seeds`: both ends of a pair pass the
    smaller id first. -/
def derivePairwiseSeed (kdf : Kdf) (g : KemGlobals) (localId : UInt8) (secret : Bytes32)
    (roundId : UInt32) (peer : PairwiseSecret) : PairwiseSecret :=
  -- both ends of the pair get the same order
  let (clientA, clientB) :=
    if peer.peerClientId < localId then (peer.peerClientId, localId)
    else (localId, peer.peerClientId)
  { peer with
    maskSeed := kemAdapterDerivePairwiseMaskSeed kdf g secret clientA clientB roundId
    sharedSecret := secret }

/-- `mask_protocol_derive_pairwise_seeds`. -/
def maskProtocolDerivePairwiseSeeds (kdf : Kdf) (g : KemGlobals) (ctx : PairwiseContext)
    (localId : UInt8) (secrets : Memory) (roundId : UInt32) : PqcStatus × PairwiseContext :=
  if ctx.numPeers = 0 then (.errInvalidArgument, ctx)
  else
    (.success,
      ⟨ctx.peers.mapIdx fun i peer =>
          derivePairwiseSeed kdf g localId (kemSecret secrets i) roundId peer,
        by simpa using ctx.capacity⟩)

/-! ## Masks -/

/-- `sign` of a peer. -/
def maskSign (clientId peerClientId : UInt8) : Int := if clientId < peerClientId then 1 else -1

/-- The inner loop of `mask_protocol_generate_chunk_mask` for one peer. -/
def addPeerMask (clientId : UInt8) (outputMask : List Int) (peer : UInt8 × Bytes) : List Int :=
  List.zipWith (fun out word => modQ (out + maskSign clientId peer.1 * word.tmod 3329)) outputMask
    (Bytes.int16sLE peer.2)

/-- The loop of `mask_protocol_generate_chunk_mask` over the peers and their keystreams. -/
def combinePeerMasks (clientId : UInt8) (chunkSize : Nat) (peers : List (UInt8 × Bytes)) :
    List Int :=
  peers.foldl (addPeerMask clientId) (List.replicate chunkSize 0)

/-- The keystream that `mask_protocol_generate_chunk_mask` expands for a peer. -/
def peerKeystream (kdf : Kdf) (prg : MaskPrg) (g : KemGlobals) (clientId : UInt8)
    (roundId : UInt32) (chunkIndex : UInt16) (chunkSize : Nat) (maskSeed : Bytes32) : Bytes :=
  (prg (kemAdapterDeriveStreamMaskSeed kdf g maskSeed clientId roundId chunkIndex)
    (chunkSize * 2)).val

/-- `mask_protocol_generate_chunk_mask`. -/
def maskProtocolGenerateChunkMask (kdf : Kdf) (prg : MaskPrg) (g : KemGlobals)
    (ctx : PairwiseContext) (clientId : UInt8) (roundId : UInt32) (chunkIndex : UInt16)
    (chunkSize : Nat) : Except PqcStatus (List Int) :=
  if chunkBufferBytes / 2 < chunkSize then .error .errInvalidArgument
  else
    .ok (combinePeerMasks clientId chunkSize (ctx.peers.map fun peer =>
      (peer.peerClientId,
        peerKeystream kdf prg g clientId roundId chunkIndex chunkSize peer.maskSeed)))

/-- `mask_protocol_apply_mask`. -/
def maskProtocolApplyMask (input mask : List Int) : List Int :=
  List.zipWith (fun x m => modQ (x + m)) input mask

/-- `mask_protocol_remove_mask`. -/
def maskProtocolRemoveMask (input mask : List Int) : List Int :=
  List.zipWith (fun x m => modQ (x - m)) input mask

end SwiftAgg.Native
