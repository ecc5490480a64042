import SwiftAgg.Native.Types

/-!
# Key encapsulation and key derivation of the firmware

`kem_adapter.c`: the adapter checks lengths against the sizes of the active
variant and calls the key encapsulation library, which is a parameter, as is
HMAC-SHA256. The derivations read `g_ss_bytes` bytes of the secret, extract
with an empty salt and expand to 32 bytes under an info string that starts
with the label of the derivation.
-/

namespace SwiftAgg.Native

/-! ## HKDF -/

/-- `hkdf_extract`; without a salt the key is 32 zero bytes. -/
def hkdfExtract (hmac : Hmac) (salt ikm : Bytes) : Bytes32 :=
  hmac (if salt = [] then Bytes.zero32.val else salt) ikm

/-- The loop of `hkdf_expand` with its byte counter. Every caller asks for 32 bytes, for which the
    body runs once, under the key that was set before it; a second block would find the key
    erased by `tc_hmac_final`. -/
def hkdfExpandLoop (hmac : Hmac) (prk info : Bytes) (remaining : Nat) (t : Bytes) (ctr : UInt8) :
    Bytes :=
  if remaining = 0 then []
  else
    let t' := hmac prk (t ++ info ++ [ctr])
    let chunk := if remaining < 32 then remaining else 32
    t'.val.take chunk ++ hkdfExpandLoop hmac prk info (remaining - chunk) t'.val (ctr + 1)
termination_by remaining
decreasing_by split <;> omega

/-- `hkdf_expand`. -/
def hkdfExpand (hmac : Hmac) (prk info : Bytes) (okmLen : Nat) : Bytes :=
  hkdfExpandLoop hmac prk info okmLen [] 1

/-- A key derivation function: 32 bytes from key material and an info string. -/
abbrev Kdf := (ikm info : Bytes) → Bytes32

/-- One block is the whole 32-byte output. -/
theorem hkdfExpand_32 (hmac : Hmac) (prk info : Bytes) :
    hkdfExpand hmac prk info 32 = (hmac prk (info ++ [1])).val := by
  have hlen := (hmac prk (info ++ [1])).property
  rw [hkdfExpand, hkdfExpandLoop]
  simp only [OfNat.ofNat_ne_zero, ↓reduceIte, lt_self_iff_false, List.nil_append, Nat.sub_self]
  rw [hkdfExpandLoop, if_pos rfl, List.append_nil, List.take_of_length_le (by omega)]

/-- `hkdf_extract(NULL, 0, ikm)` followed by `hkdf_expand` to 32 bytes. -/
def hkdf (hmac : Hmac) : Kdf := fun ikm info =>
  ⟨hkdfExpand hmac (hkdfExtract hmac [] ikm).val info 32, by
    rw [hkdfExpand_32]
    exact (hmac _ _).property⟩

/-! ## The adapter's globals -/

/-- The static variables of `kem_adapter.c`; the sizes are those of the active variant. -/
structure KemGlobals where
  activeVariant : KemVariant
  pkBytes : Nat
  skBytes : Nat
  ctBytes : Nat
  ssBytes : Nat
  sizes : pkBytes = activeVariant.publicKeyBytes ∧ skBytes = activeVariant.secretKeyBytes ∧
    ctBytes = activeVariant.ciphertextBytes ∧ ssBytes = activeVariant.sharedSecretBytes

/-- The globals with a given variant active. -/
def KemGlobals.ofVariant (v : KemVariant) : KemGlobals where
  activeVariant := v
  pkBytes := v.publicKeyBytes
  skBytes := v.secretKeyBytes
  ctBytes := v.ciphertextBytes
  ssBytes := v.sharedSecretBytes
  sizes := ⟨rfl, rfl, rfl, rfl⟩

/-- The static initialisers. -/
def KemGlobals.initial : KemGlobals := .ofVariant .mlKem768

/-- `kem_adapter_init`; the argument is an `int` that may be no variant. -/
def kemAdapterInit (variant : Int) (g : KemGlobals) : PqcStatus × KemGlobals :=
  if variant = 0 then (.success, .ofVariant .mlKem512)
  else if variant = 1 then (.success, .ofVariant .mlKem768)
  else if variant = 2 then (.success, .ofVariant .mlKem1024)
  else (.errInvalidArgument, g)

theorem KemGlobals.ssBytes_eq (g : KemGlobals) : g.ssBytes = 32 := g.sizes.2.2.2

/-! ## Encapsulation -/

/-- The key encapsulation library: per variant, the results of `crypto_kem_keypair`,
    `crypto_kem_enc` and `crypto_kem_dec` with their return codes. `coins` stands for the
    randomness a call consumes. -/
structure KemLib where
  keypair : KemVariant → (coins : Nat) → Int × Bytes × Bytes
  enc : KemVariant → (coins : Nat) → (pk : Bytes) → Int × Bytes × Bytes32
  dec : KemVariant → (ct sk : Bytes) → Int × Bytes32

/-- `kem_keypair_t`, with the field `shared_secret` that `state_machine.c` uses. -/
structure KemKeypair where
  variant : KemVariant
  publicKey : Bytes
  secretKey : Bytes
  publicKeyLen : Nat
  secretKeyLen : Nat
  ciphertextLen : Nat
  sharedSecretLen : Nat
  sharedSecret : Bytes32

/-- The keypair of a zeroed context. -/
def KemKeypair.zero : KemKeypair where
  variant := .mlKem512
  publicKey := []
  secretKey := []
  publicKeyLen := 0
  secretKeyLen := 0
  ciphertextLen := 0
  sharedSecretLen := 0
  sharedSecret := Bytes.zero32

/-- `kem_adapter_keypair`. A failing library may have written the key buffers. -/
def kemAdapterKeypair (lib : KemLib) (g : KemGlobals) (coins : Nat) (kp : KemKeypair) :
    PqcStatus × KemKeypair :=
  let (ret, pk, sk) := lib.keypair g.activeVariant coins
  if ret ≠ 0 then (.errKemKeygenFailed, { kp with publicKey := pk, secretKey := sk })
  else
    (.success,
      { kp with
        publicKey := pk
        secretKey := sk
        variant := g.activeVariant
        publicKeyLen := g.pkBytes
        secretKeyLen := g.skBytes
        ciphertextLen := g.ctBytes
        sharedSecretLen := g.ssBytes })

/-- `kem_adapter_encapsulate`: status, ciphertext and shared secret. -/
def kemAdapterEncapsulate (lib : KemLib) (g : KemGlobals) (coins : Nat) (publicKey : Bytes)
    (pkLen : Nat) : Except PqcStatus (Bytes × Bytes32) :=
  if pkLen ≠ g.pkBytes then .error .errInvalidArgument
  else
    let (ret, ct, ss) := lib.enc g.activeVariant coins publicKey
    if ret ≠ 0 then .error .errKemEncapFailed else .ok (ct, ss)

/-- `kem_adapter_decapsulate`. -/
def kemAdapterDecapsulate (lib : KemLib) (g : KemGlobals) (ciphertext : Memory) (ctLen : Nat)
    (secretKey : Memory) (skLen : Nat) : Except PqcStatus Bytes32 :=
  -- the lengths are compared, then the sizes of the variant are read
  if ctLen ≠ g.ctBytes ∨ skLen ≠ g.skBytes then .error .errInvalidArgument
  else
    let (ret, ss) := lib.dec g.activeVariant (ciphertext.read g.ctBytes) (secretKey.read g.skBytes)
    if ret ≠ 0 then .error .errCryptoFailure else .ok ss

/-! ## Derivations -/

/-- `KDF_LABEL_PAIRWISE_MASK`. -/
def kdfLabelPairwiseMask : Bytes := Bytes.ascii "SwiftAgg-PairwiseMask-v1"

/-- `KDF_LABEL_STREAM_MASK`. -/
def kdfLabelStreamMask : Bytes := Bytes.ascii "SwiftAgg-StreamMask-v1"

/-- `KDF_LABEL_SHAMIR_SECRET`. -/
def kdfLabelShamirSecret : Bytes := Bytes.ascii "SwiftAgg-ShamirSecret-v1"

/-- The common shape of the derivations: `g_ss_bytes` bytes of the secret under an info string. -/
def deriveWithInfo (kdf : Kdf) (g : KemGlobals) (sharedSecret : Bytes32) (info : Bytes) : Bytes32 :=
  kdf (sharedSecret.val.take g.ssBytes) info

theorem deriveWithInfo_eq (kdf : Kdf) (g : KemGlobals) (sharedSecret : Bytes32) (info : Bytes) :
    deriveWithInfo kdf g sharedSecret info = kdf sharedSecret.val info := by
  have hlen := sharedSecret.property
  rw [deriveWithInfo, g.ssBytes_eq, List.take_of_length_le (by omega)]

/-- The info string of `kem_adapter_derive_pairwise_mask_seed`. -/
def pairwiseMaskInfo (clientIdA clientIdB : UInt8) (roundId : UInt32) : Bytes :=
  kdfLabelPairwiseMask ++ Bytes.be32 roundId.toNat ++ [clientIdA, clientIdB]

/-- `kem_adapter_derive_pairwise_mask_seed` (its pointers are not `NULL`; the status is
    `PQC_SUCCESS`). -/
def kemAdapterDerivePairwiseMaskSeed (kdf : Kdf) (g : KemGlobals) (sharedSecret : Bytes32)
    (clientIdA clientIdB : UInt8) (roundId : UInt32) : Bytes32 :=
  deriveWithInfo kdf g sharedSecret (pairwiseMaskInfo clientIdA clientIdB roundId)

/-- The info string of `kem_adapter_derive_stream_mask_seed`. -/
def streamMaskInfo (clientId : UInt8) (roundId : UInt32) (chunkIndex : UInt16) : Bytes :=
  kdfLabelStreamMask ++ Bytes.be32 roundId.toNat ++ [clientId] ++ Bytes.be16 chunkIndex.toNat

/-- `kem_adapter_derive_stream_mask_seed`. -/
def kemAdapterDeriveStreamMaskSeed (kdf : Kdf) (g : KemGlobals) (sharedSecret : Bytes32)
    (clientId : UInt8) (roundId : UInt32) (chunkIndex : UInt16) : Bytes32 :=
  deriveWithInfo kdf g sharedSecret (streamMaskInfo clientId roundId chunkIndex)

/-- The info string of `kem_adapter_derive_shamir_secret`. -/
def shamirSecretInfo (clientId : UInt8) (roundId : UInt32) : Bytes :=
  kdfLabelShamirSecret ++ Bytes.be32 roundId.toNat ++ [clientId]

/-- `kem_adapter_derive_shamir_secret`. -/
def kemAdapterDeriveShamirSecret (kdf : Kdf) (g : KemGlobals) (sharedSecret : Bytes32)
    (clientId : UInt8) (roundId : UInt32) : Bytes32 :=
  deriveWithInfo kdf g sharedSecret (shamirSecretInfo clientId roundId)

end SwiftAgg.Native
