import SwiftAgg.Native.KemAdapter

/-!
# Domain separation of the key derivations

The info string of a derivation is its label followed by its arguments in fixed
widths, with nothing between them. A pairwise mask is told from the other two
by the length of the string. The strings of a stream mask and of a Shamir
secret are equally long, since the shorter label makes up for the chunk index;
these two are told apart within the labels.

## Key results

- `Derivation.derive_eq`: every derivation is the KDF under its info string
- `derivationInfo_injective`: the info string determines the derivation and its arguments
-/

namespace SwiftAgg.Native

/-- A call of one of the three derivations, with its arguments besides the secret. -/
inductive Derivation where
  | pairwiseMaskSeed (clientIdA clientIdB : UInt8) (roundId : UInt32)
  | streamMaskSeed (clientId : UInt8) (roundId : UInt32) (chunkIndex : UInt16)
  | shamirSecret (clientId : UInt8) (roundId : UInt32)
  deriving DecidableEq

namespace Derivation

/-- The call. -/
def derive (kdf : Kdf) (g : KemGlobals) (sharedSecret : Bytes32) : Derivation → Bytes32
  | pairwiseMaskSeed a b roundId =>
    kemAdapterDerivePairwiseMaskSeed kdf g sharedSecret a b roundId
  | streamMaskSeed clientId roundId chunkIndex =>
    kemAdapterDeriveStreamMaskSeed kdf g sharedSecret clientId roundId chunkIndex
  | shamirSecret clientId roundId =>
    kemAdapterDeriveShamirSecret kdf g sharedSecret clientId roundId

/-- The info string that the call builds. -/
def info : Derivation → Bytes
  | pairwiseMaskSeed a b roundId => pairwiseMaskInfo a b roundId
  | streamMaskSeed clientId roundId chunkIndex => streamMaskInfo clientId roundId chunkIndex
  | shamirSecret clientId roundId => shamirSecretInfo clientId roundId

/-- The length of the buffer `info`. -/
def infoBufferBytes : Nat := 80

/-- All that a derivation takes from its arguments is the info string. -/
theorem derive_eq (kdf : Kdf) (g : KemGlobals) (sharedSecret : Bytes32) (d : Derivation) :
    d.derive kdf g sharedSecret = kdf sharedSecret.val d.info := by
  cases d <;> exact deriveWithInfo_eq kdf g sharedSecret _

/-! ## Lengths -/

/-- `info_len` at the end. -/
def infoLen : Derivation → Nat
  | pairwiseMaskSeed _ _ _ => 30
  | streamMaskSeed _ _ _ => 29
  | shamirSecret _ _ => 29

theorem length_info (d : Derivation) : d.info.length = d.infoLen := by
  cases d <;> rfl

theorem length_info_le (d : Derivation) : d.info.length ≤ infoBufferBytes := by
  rw [length_info]
  cases d <;> simp only [infoLen, infoBufferBytes] <;> omega

/-! ## Arguments -/

/-- Within a derivation, the fields after the label peel off from the right. -/
theorem pairwiseMaskInfo_inj {a a' b b' : UInt8} {roundId roundId' : UInt32}
    (h : pairwiseMaskInfo a b roundId = pairwiseMaskInfo a' b' roundId') :
    a = a' ∧ b = b' ∧ roundId = roundId' := by
  -- the two ids, then the round number before them
  obtain ⟨hhead, hids⟩ := List.append_inj' h rfl
  obtain ⟨-, hround⟩ := List.append_inj' hhead rfl
  simp only [List.cons.injEq, and_true] at hids
  exact ⟨hids.1, hids.2,
    UInt32.toNat_inj.mp (Bytes.be32_inj roundId.toNat_lt roundId'.toNat_lt hround)⟩

theorem streamMaskInfo_inj {clientId clientId' : UInt8} {roundId roundId' : UInt32}
    {chunkIndex chunkIndex' : UInt16}
    (h : streamMaskInfo clientId roundId chunkIndex =
      streamMaskInfo clientId' roundId' chunkIndex') :
    clientId = clientId' ∧ roundId = roundId' ∧ chunkIndex = chunkIndex' := by
  obtain ⟨hhead, hindex⟩ := List.append_inj' h rfl
  obtain ⟨hhead, hid⟩ := List.append_inj' hhead rfl
  obtain ⟨-, hround⟩ := List.append_inj' hhead rfl
  exact ⟨List.head_eq_of_cons_eq hid,
    UInt32.toNat_inj.mp (Bytes.be32_inj roundId.toNat_lt roundId'.toNat_lt hround),
    UInt16.toNat_inj.mp (Bytes.be16_inj chunkIndex.toNat_lt chunkIndex'.toNat_lt hindex)⟩

theorem shamirSecretInfo_inj {clientId clientId' : UInt8} {roundId roundId' : UInt32}
    (h : shamirSecretInfo clientId roundId = shamirSecretInfo clientId' roundId') :
    clientId = clientId' ∧ roundId = roundId' := by
  obtain ⟨hhead, hid⟩ := List.append_inj' h rfl
  obtain ⟨-, hround⟩ := List.append_inj' hhead rfl
  exact ⟨List.head_eq_of_cons_eq hid,
    UInt32.toNat_inj.mp (Bytes.be32_inj roundId.toNat_lt roundId'.toNat_lt hround)⟩

/-- The labels of a stream mask and of a Shamir secret part after their common `SwiftAgg-S`. -/
theorem streamMaskInfo_ne_shamirSecretInfo (clientId clientId' : UInt8) (roundId roundId' : UInt32)
    (chunkIndex : UInt16) :
    streamMaskInfo clientId roundId chunkIndex ≠ shamirSecretInfo clientId' roundId' := by
  intro h
  have hbyte := congrArg (fun info : Bytes => info[10]?) h
  exact absurd hbyte (show ¬some 0x74 = some (0x68 : UInt8) by decide)

/-- The three derivations never share an info string. -/
theorem info_injective : Function.Injective info := by
  intro d d' h
  have hlen := congrArg List.length h
  rw [length_info, length_info] at hlen
  -- the lengths tell a pairwise mask seed from the other two
  cases d <;> cases d' <;> simp only [infoLen, Nat.reduceEqDiff] at hlen
  case pairwiseMaskSeed.pairwiseMaskSeed =>
    obtain ⟨rfl, rfl, rfl⟩ := pairwiseMaskInfo_inj h
    rfl
  case streamMaskSeed.streamMaskSeed =>
    obtain ⟨rfl, rfl, rfl⟩ := streamMaskInfo_inj h
    rfl
  case shamirSecret.shamirSecret =>
    obtain ⟨rfl, rfl⟩ := shamirSecretInfo_inj h
    rfl
  case streamMaskSeed.shamirSecret =>
    exact absurd h (streamMaskInfo_ne_shamirSecretInfo _ _ _ _ _)
  case shamirSecret.streamMaskSeed =>
    exact absurd h.symm (streamMaskInfo_ne_shamirSecretInfo _ _ _ _ _)

end Derivation

/-- Equal info strings come from the same derivation with the same arguments, and every info
    string fits its buffer. -/
theorem derivationInfo_injective :
    Function.Injective Derivation.info ∧
      ∀ d : Derivation, d.info.length ≤ Derivation.infoBufferBytes :=
  ⟨Derivation.info_injective, Derivation.length_info_le⟩

end SwiftAgg.Native
