import SwiftAgg.ForStd.Bytes
import SwiftAgg.ForStd.Dict

/-!
# Recovery on the host

`shamir_recovery.py`: evaluation of shares, reconstruction of shared secrets and
regeneration of a dropped client's masks. Python integers are unbounded, `%`
rounds towards minus infinity (`Int.emod` for a positive modulus), and every
function that can raise returns in `Except PyErr`. HMAC-SHA256 and the AES-CTR
keystream are parameters.
-/

namespace SwiftAgg.Host

/-- The exceptions the host code raises. -/
inductive PyErr where
  | valueError (msg : String)
  | keyError (key : Nat)
  | indexError
  | zeroDivisionError
  | overflowError
  | structError
  | nameError (name : String)
  | runtimeError (msg : String)
  | connectionResetError
  deriving Repr, DecidableEq

/-- The keystream of AES in counter mode: `length` bytes for a key and an initial counter block. -/
abbrev AesCtr := (key nonce : Bytes) → (length : Nat) → { b : Bytes // b.length = length }

/-- `FIELD_MODULUS`. -/
def fieldModulus : Int := 3329

/-! ## Shares -/

/-- `BARRETT_MULTIPLIER`. -/
def barrettMultiplier : Int := 20159

/-- `BARRETT_SHIFT`. -/
def barrettShift : Nat := 26

/-- `barrett_reduce`; `>>` rounds towards minus infinity. -/
def barrettReduce (a : Int) : Int :=
  let t := a * barrettMultiplier / 2 ^ barrettShift
  let r := a - t * fieldModulus
  if fieldModulus ≤ r then r - fieldModulus else r

/-- `evaluate_polynomial`. -/
def evaluatePolynomial (coeffs : List Int) (x : Int) : Int :=
  coeffs.reverse.foldl (fun result coeff => barrettReduce (result * x + coeff)) 0

/-! ## Reconstruction -/

/-- `mod_inv`: `pow(a, p - 2, p)`. -/
def modInv (a : Int) : Int := a ^ 3327 % fieldModulus

/-- The inner loop of `reconstruct_secret`: numerator and denominator of the weight of share `i`. -/
def lagrangeProducts (shares : List (Int × Int)) (i : Nat) (xi : Int) : Int × Int :=
  shares.zipIdx.foldl (fun (numerator, denominator) ((xj, _), j) =>
    if i = j then (numerator, denominator)
    else (numerator * -xj % fieldModulus,
      denominator * ((xi - xj) % fieldModulus) % fieldModulus)) (1, 1)

/-- The outer loop of `reconstruct_secret`. -/
def lagrangeSum (shares : List (Int × Int)) : Int :=
  shares.zipIdx.foldl (fun secret ((xi, yi), i) =>
    let (numerator, denominator) := lagrangeProducts shares i xi
    let lagrangeCoeff := numerator * modInv denominator % fieldModulus
    (secret + yi * lagrangeCoeff) % fieldModulus) 0

/-- `reconstruct_secret`. -/
def reconstructSecret (shares : List (Int × Int)) : Except PyErr Int :=
  -- the order of the checks decides which message is raised
  if shares.length < 2 then .error (.valueError "Need at least 2 shares to reconstruct")
  else if shares.any fun s => s.1 = 0 then .error (.valueError "Share index cannot be zero")
  else if (shares.map Prod.fst).dedup.length ≠ shares.length then
    .error (.valueError "Duplicate share indices")
  else .ok (lagrangeSum shares)

/-- The share of one element: `y[elem_idx * 2] | (y[elem_idx * 2 + 1] << 8)`, reduced. -/
def elementShare (elemIdx : Nat) (share : Int × Bytes) : Except PyErr (Int × Int) :=
  match share.2[elemIdx * 2]?, share.2[elemIdx * 2 + 1]? with
  | some lo, some hi => .ok (share.1, (Bytes.word16 lo hi : Int) % fieldModulus)
  | _, _ => .error .indexError

/-- `reconstruct_secret_bytes`. -/
def reconstructSecretBytes (shares : List (Int × Bytes)) : Except PyErr Bytes :=
  match shares with
  | [] => .error (.valueError "No shares provided")
  | (_, y₀) :: _ =>
    if y₀.length ≠ 64 then
      .error (.valueError "Share value must be 64 bytes (32 GF(3329) elements)")
    else do
      let secretElements ← (List.range 32).mapM fun elemIdx => do
        reconstructSecret (← shares.mapM (elementShare elemIdx))
      return secretElements.flatMap fun val => Bytes.le16 val.toNat

/-! ## Key derivation -/

/-- `bytes([...])`. -/
def bytesOf (ns : List Nat) : Except PyErr Bytes :=
  if ns.all (· < 256) then .ok (ns.map UInt8.ofNat)
  else .error (.valueError "bytes must be in range(0, 256)")

/-- `n.to_bytes(4, 'big')`. -/
def toBytes4 (n : Nat) : Except PyErr Bytes :=
  if n < 2 ^ 32 then .ok (Bytes.be32 n) else .error .overflowError

/-- `n.to_bytes(2, 'big')`. -/
def toBytes2 (n : Nat) : Except PyErr Bytes :=
  if n < 2 ^ 16 then .ok (Bytes.be16 n) else .error .overflowError

/-- `hkdf_extract`. -/
def hkdfExtract (hmac : Hmac) (salt ikm : Bytes) : Bytes32 :=
  hmac (if salt = [] then Bytes.zero32.val else salt) ikm

/-- The loop of `hkdf_expand`; the block counter is a byte, so block 256 raises. -/
def hkdfExpandLoop (hmac : Hmac) (prk info : Bytes) (length : Nat) (okm t : Bytes) (ctr : Nat) :
    Except PyErr Bytes :=
  if okm.length < length then
    if ctr < 256 then
      let t' := hmac prk (t ++ info ++ [UInt8.ofNat ctr])
      hkdfExpandLoop hmac prk info length (okm ++ t'.val) t'.val (ctr + 1)
    else .error (.valueError "bytes must be in range(0, 256)")
  else .ok (okm.take length)
termination_by length - okm.length
decreasing_by
  have hdigest := t'.property
  rw [List.length_append, hdigest]
  omega

/-- `hkdf_expand`. -/
def hkdfExpand (hmac : Hmac) (prk info : Bytes) (length : Nat) : Except PyErr Bytes :=
  hkdfExpandLoop hmac prk info length [] [] 1

/-- The common shape of the derivations: 32 bytes from a secret, a label and an info string. -/
def deriveWithInfo (hmac : Hmac) (label : String) (sharedSecret info : Bytes) :
    Except PyErr Bytes :=
  let prk := hkdfExtract hmac [] sharedSecret
  hkdfExpand hmac prk.val (Bytes.ascii label ++ info) 32

/-- `derive_pairwise_mask_seed`, and `_derive_pairwise_seed` of the server. -/
def derivePairwiseMaskSeed (hmac : Hmac) (sharedSecret : Bytes) (clientA clientB roundId : Nat) :
    Except PyErr Bytes := do
  let info := (← bytesOf [clientA, clientB]) ++ (← toBytes4 roundId)
  deriveWithInfo hmac "SwiftAgg-PairwiseMask-v1" sharedSecret info

/-- `derive_stream_mask_seed`. -/
def deriveStreamMaskSeed (hmac : Hmac) (sharedSecret : Bytes) (clientId roundId chunkIndex : Nat) :
    Except PyErr Bytes := do
  let info := (← bytesOf [clientId]) ++ (← toBytes4 roundId) ++ (← toBytes2 chunkIndex)
  deriveWithInfo hmac "SwiftAgg-StreamMask-v1" sharedSecret info

/-- `_derive_shamir_secret` of the server. -/
def deriveShamirSecret (hmac : Hmac) (sharedSecret : Bytes) (clientId roundId : Nat) :
    Except PyErr Bytes := do
  let info := (← bytesOf [clientId]) ++ (← toBytes4 roundId)
  deriveWithInfo hmac "SwiftAgg-ShamirSecret-v1" sharedSecret info

/-! ## Mask regeneration -/

/-- What an encryptor of the `cryptography` package in counter mode returns for some data. -/
abbrev CtrEncryptor := (key nonce data : Bytes) → Bytes

/-- `aes_ctr_stream`; there is no encryptor if the package could not be imported. -/
def aesCtrStream (encryptor : Option CtrEncryptor) (key nonce : Bytes) (length : Nat) :
    Except PyErr Bytes :=
  match encryptor with
  | none => .error (.runtimeError "cryptography library not available")
  | some encryptor => .ok (encryptor key nonce (List.replicate length 0))

/-- The loop of `generate_mask_from_seed`: little-endian words, unsigned, reduced. -/
def masksOfStream : Bytes → List Int
  | lo :: hi :: rest => (Bytes.word16 lo hi : Int) % fieldModulus :: masksOfStream rest
  -- a slice past the end has one byte
  | [b] => [(b.toNat : Int) % fieldModulus]
  | [] => []

/-- `generate_mask_from_seed`. -/
def generateMaskFromSeed (aes : AesCtr) (seed : Bytes) (length : Nat) : List Int :=
  masksOfStream (aes seed (List.replicate 16 0) length).val

/-- `recover_dropped_client_pairwise_seeds`. -/
def recoverDroppedClientPairwiseSeeds (hmac : Hmac) (sharedSecret : Bytes) (roundId : Nat)
    (peerIds : List Nat) (droppedClientId : Nat) : Except PyErr (Dict Nat Bytes) :=
  peerIds.foldlM (fun seeds peerId => do
    let seed ← derivePairwiseMaskSeed hmac sharedSecret (min droppedClientId peerId)
      (max droppedClientId peerId) roundId
    return seeds.insert peerId seed) Dict.empty

/-- One peer in the accumulation of `recover_dropped_client_masks`. -/
def addPeerMask (droppedClientId : Nat) (combinedMask : List Int) (peer : Nat × List Int) :
    List Int :=
  let sign : Int := if droppedClientId < peer.1 then 1 else -1
  List.zipWith (fun c m => (c + sign * m) % fieldModulus) combinedMask peer.2

/-- The accumulation of `recover_dropped_client_masks` over the peers of one chunk. -/
def combinePeerMasks (droppedClientId chunkSize : Nat) (peers : List (Nat × List Int)) : List Int :=
  peers.foldl (addPeerMask droppedClientId) (List.replicate chunkSize 0)

/-- `recover_dropped_client_masks`. A keystream of `2 * chunk_size` bytes gives `chunk_size` words,
    so the accumulation of a chunk indexes inside both lists. -/
def recoverDroppedClientMasks (hmac : Hmac) (aes : AesCtr) (sharedSecret : Bytes) (roundId : Nat)
    (peerIds : List Nat) (droppedClientId numChunks chunkSize : Nat) :
    Except PyErr (Dict Nat (List Int)) := do
  let pairwiseSeeds ← recoverDroppedClientPairwiseSeeds hmac sharedSecret roundId peerIds
    droppedClientId
  (List.range numChunks).foldlM (fun recoveredMasks chunkIdx => do
    let peerMasks ← peerIds.mapM fun peerId => do
      match pairwiseSeeds.get? peerId with
      | none => throw (.keyError peerId)
      | some seed =>
        let streamSeed ← deriveStreamMaskSeed hmac seed droppedClientId roundId chunkIdx
        return (peerId, generateMaskFromSeed aes streamSeed (chunkSize * 2))
    return recoveredMasks.insert chunkIdx (combinePeerMasks droppedClientId chunkSize peerMasks))
    Dict.empty

end SwiftAgg.Host
