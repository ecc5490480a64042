import SwiftAgg.Native.KemAdapter

/-!
# Calls of the KEM adapter

The functions of `kem_adapter.c` over its static variables as they are: five
independent numbers, of which the functions select a variant by the first and
check lengths against the others. That they fit together is not part of this
model. `KemGlobals` is the same state with the invariant, and the functions on
it are these.
-/

namespace SwiftAgg.Native

/-- `kem_variant_t`. -/
def KemVariant.code : KemVariant → Int
  | mlKem512 => 0
  | mlKem768 => 1
  | mlKem1024 => 2

/-- The variant that an `int` selects, if any. -/
def KemVariant.ofCode (code : Int) : Option KemVariant :=
  if code = 0 then some mlKem512
  else if code = 1 then some mlKem768
  else if code = 2 then some mlKem1024
  else none

/-- The static variables of `kem_adapter.c`. -/
structure KemStatics where
  activeVariant : Int
  pkBytes : Nat
  skBytes : Nat
  ctBytes : Nat
  ssBytes : Nat
  deriving DecidableEq

/-- `kem_encapsulation_t`. -/
structure KemEncapsulation where
  ciphertext : Bytes
  sharedSecret : Bytes32
  ciphertextLen : Nat
  sharedSecretLen : Nat

namespace KemStatics

/-- The static initialisers. -/
def initial : KemStatics where
  activeVariant := KemVariant.mlKem768.code
  pkBytes := KemVariant.mlKem768.publicKeyBytes
  skBytes := KemVariant.mlKem768.secretKeyBytes
  ctBytes := KemVariant.mlKem768.ciphertextBytes
  ssBytes := KemVariant.mlKem768.sharedSecretBytes

/-- `kem_adapter_init`: the sizes are assigned case by case, the variant after the `switch`. -/
def init (g : KemStatics) (variant : Int) : PqcStatus × KemStatics :=
  match KemVariant.ofCode variant with
  | none => (.errInvalidArgument, g)
  | some v =>
    (.success,
      { activeVariant := variant
        pkBytes := v.publicKeyBytes
        skBytes := v.secretKeyBytes
        ctBytes := v.ciphertextBytes
        ssBytes := v.sharedSecretBytes })

variable (lib : KemLib) (g : KemStatics)

/-- `kem_adapter_keypair`. -/
def keypair (coins : Nat) (kp : KemKeypair) : PqcStatus × KemKeypair :=
  match KemVariant.ofCode g.activeVariant with
  | none => (.errInvalidArgument, kp)
  | some v =>
    let (ret, pk, sk) := lib.keypair v coins
    if ret ≠ 0 then (.errKemKeygenFailed, { kp with publicKey := pk, secretKey := sk })
    else
      (.success,
        { kp with
          publicKey := pk
          secretKey := sk
          variant := v
          publicKeyLen := g.pkBytes
          secretKeyLen := g.skBytes
          ciphertextLen := g.ctBytes
          sharedSecretLen := g.ssBytes })

/-- `kem_adapter_encapsulate`; the library reads the public key in the length of its variant. -/
def encapsulate (coins : Nat) (publicKey : Memory) (pkLen : Nat) (encap : KemEncapsulation) :
    PqcStatus × KemEncapsulation :=
  if pkLen ≠ g.pkBytes then (.errInvalidArgument, encap)
  else
    match KemVariant.ofCode g.activeVariant with
    | none => (.errInvalidArgument, encap)
    | some v =>
      let (ret, ciphertext, sharedSecret) := lib.enc v coins (publicKey.read v.publicKeyBytes)
      if ret ≠ 0 then (.errKemEncapFailed, { encap with ciphertext, sharedSecret })
      else
        (.success,
          { ciphertext, sharedSecret, ciphertextLen := g.ctBytes, sharedSecretLen := g.ssBytes })

/-- `kem_adapter_decapsulate`, with the 32 bytes behind `shared_secret` before the call. -/
def decapsulate (ciphertext : Memory) (ctLen : Nat) (secretKey : Memory) (skLen : Nat)
    (sharedSecret : Bytes32) : PqcStatus × Bytes32 :=
  if ctLen ≠ g.ctBytes ∨ skLen ≠ g.skBytes then (.errInvalidArgument, sharedSecret)
  else
    match KemVariant.ofCode g.activeVariant with
    | none => (.errInvalidArgument, sharedSecret)
    | some v =>
      let (ret, ss) := lib.dec v (ciphertext.read v.ciphertextBytes)
        (secretKey.read v.secretKeyBytes)
      if ret ≠ 0 then (.errCryptoFailure, ss) else (.success, ss)

end KemStatics

/-! ## Histories -/

/-- A call with its arguments; of the output arguments, what was there before. -/
inductive KemCall where
  | init (variant : Int)
  | keypair (coins : Nat) (kp : KemKeypair)
  | encapsulate (coins : Nat) (publicKey : Memory) (pkLen : Nat) (encap : KemEncapsulation)
  | decapsulate (ciphertext : Memory) (ctLen : Nat) (secretKey : Memory) (skLen : Nat)
      (sharedSecret : Bytes32)

/-- What a call returned, and what it left in its output argument. -/
inductive KemReply where
  | init (status : PqcStatus)
  | keypair (status : PqcStatus) (kp : KemKeypair)
  | encapsulate (status : PqcStatus) (encap : KemEncapsulation)
  | decapsulate (status : PqcStatus) (sharedSecret : Bytes32)

/-- A call that was made, with the static variables that it found. -/
structure KemEvent where
  statics : KemStatics
  call : KemCall
  reply : KemReply

/-- One call. -/
def KemCall.perform (lib : KemLib) (g : KemStatics) : KemCall → KemReply × KemStatics
  | .init variant =>
    let (status, g') := g.init variant
    (.init status, g')
  | .keypair coins kp =>
    let (status, kp') := g.keypair lib coins kp
    (.keypair status kp', g)
  | .encapsulate coins publicKey pkLen encap =>
    let (status, encap') := g.encapsulate lib coins publicKey pkLen encap
    (.encapsulate status encap', g)
  | .decapsulate ciphertext ctLen secretKey skLen sharedSecret =>
    let (status, ss) := g.decapsulate lib ciphertext ctLen secretKey skLen sharedSecret
    (.decapsulate status ss, g)

/-- A sequence of calls: the events in their order, and the static variables afterwards. -/
def kemHistory (lib : KemLib) (g : KemStatics) : List KemCall → List KemEvent × KemStatics
  | [] => ([], g)
  | call :: calls =>
    let (reply, g') := call.perform lib g
    let (events, g'') := kemHistory lib g' calls
    (⟨g, call, reply⟩ :: events, g'')

end SwiftAgg.Native
