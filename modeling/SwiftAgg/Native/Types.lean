import SwiftAgg.ForStd.Bytes

/-!
# Types of the firmware

The enumerations and records of `protocol_types.h` that the modelled code
reads or writes. Fixed-width fields keep their width (`UInt8`, `UInt16`,
`UInt32`); buffers of a fixed size are lists with their length in the type.
-/

namespace SwiftAgg.Native

/-- `pqc_status_t`. -/
inductive PqcStatus where
  | success
  | errGeneric
  | errInvalidArgument
  | errBufferTooSmall
  | errInvalidState
  | errCryptoFailure
  | errAuthFailed
  | errReplayDetected
  | errSequenceMismatch
  | errRoundMismatch
  | errClientIdMismatch
  | errDmaTimeout
  | errDmaBusy
  | errNttFailure
  | errKemKeygenFailed
  | errKemEncapFailed
  | errKemDecapFailed
  | errKdfFailed
  | errPrgFailed
  | errShamirEncodeFailed
  | errShamirDecodeFailed
  | errInsufficientShares
  | errDuplicateShareId
  | errInvalidThreshold
  | errChunkTooLarge
  | errChunkTooSmall
  | errModelSizeMismatch
  | errNetworkTimeout
  | errPacketFragmented
  | errMtuExceeded
  | errHeapExhausted
  | errStackOverflow
  deriving Repr, DecidableEq

/-- `kem_variant_t`. -/
inductive KemVariant where
  | mlKem512
  | mlKem768
  | mlKem1024
  deriving Repr, DecidableEq

namespace KemVariant

/-- `ML_KEM_*_PUBLIC_KEY_BYTES`. -/
def publicKeyBytes : KemVariant → Nat
  | mlKem512 => 800
  | mlKem768 => 1184
  | mlKem1024 => 1568

/-- `ML_KEM_*_SECRET_KEY_BYTES`. -/
def secretKeyBytes : KemVariant → Nat
  | mlKem512 => 1632
  | mlKem768 => 2400
  | mlKem1024 => 3168

/-- `ML_KEM_*_CIPHERTEXT_BYTES`. -/
def ciphertextBytes : KemVariant → Nat
  | mlKem512 => 768
  | mlKem768 => 1088
  | mlKem1024 => 1568

/-- `ML_KEM_*_SHARED_SECRET_BYTES`. -/
def sharedSecretBytes : KemVariant → Nat
  | _ => 32

end KemVariant

/-- `msg_type_t`; `state_machine.c` spells two of them `MSG_TYPE_PAIRWISE_KEM_PUBKEY` and
    `MSG_TYPE_PAIRWISE_KEM_CIPHERTEXT`. -/
inductive MsgType where
  | kemPublicKey
  | kemCiphertext
  | kemSharedSecret
  | pairwiseInit
  | pairwisePubkey
  | pairwiseCiphertext
  | pairwiseConfirm
  | maskSeed
  | maskChunk
  | maskAck
  | clientComplete
  | dropoutNotify
  | shamirShare
  | recoveryComplete
  | roundInit
  | roundComplete
  | error
  deriving Repr, DecidableEq

/-- The value of a message type in the header. -/
def MsgType.code : MsgType → UInt8
  | kemPublicKey => 0x01
  | kemCiphertext => 0x02
  | kemSharedSecret => 0x03
  | pairwiseInit => 0x10
  | pairwisePubkey => 0x11
  | pairwiseCiphertext => 0x12
  | pairwiseConfirm => 0x13
  | maskSeed => 0x20
  | maskChunk => 0x21
  | maskAck => 0x22
  | clientComplete => 0x30
  | dropoutNotify => 0x31
  | shamirShare => 0x32
  | recoveryComplete => 0x33
  | roundInit => 0x40
  | roundComplete => 0x41
  | error => 0xFF

/-- `protocol_state_t`. -/
inductive ProtocolState where
  | roundInit
  | keySetup
  | maskSetup
  | localTraining
  | maskedUpdateStream
  | clientCompletion
  | aggregation
  | dropoutDetection
  | maskRecovery
  | unmask
  | fedavg
  | roundComplete
  | error
  deriving Repr, DecidableEq

/-- `msg_header_t`. -/
structure MsgHeader where
  protocolVersion : UInt32
  roundId : UInt32
  clientId : UInt8
  messageType : UInt8
  sequenceNumber : UInt16
  payloadLength : UInt16
  reserved : UInt16
  deriving Repr, DecidableEq

/-- `MAX_PEERS_PER_CLIENT`. -/
def maxPeersPerClient : Nat := 16

/-- `CHUNK_BUFFER_BYTES`. -/
def chunkBufferBytes : Nat := 1024

/-- `pairwise_secret_t` (its field `is_initiator` is never used). -/
structure PairwiseSecret where
  peerClientId : UInt8
  sharedSecret : Bytes32
  maskSeed : Bytes32

/-- `pairwise_context_t`: the first `num_peers` entries of `peers`. The count
    never exceeds the capacity of the array. -/
structure PairwiseContext where
  peers : List PairwiseSecret
  capacity : peers.length ≤ maxPeersPerClient

/-- `num_peers`. -/
def PairwiseContext.numPeers (ctx : PairwiseContext) : Nat := ctx.peers.length

/-- A cleared context. -/
def PairwiseContext.empty : PairwiseContext := ⟨[], by simp⟩

/-- `chunk_context_t`. -/
structure ChunkContext where
  roundId : UInt32
  clientId : UInt8
  chunkIndex : UInt16
  totalChunks : UInt16
  chunkSize : UInt16
  modelTotalBytes : UInt32
  bytesProcessed : UInt32
  isFinalChunk : UInt8
  deriving Repr, DecidableEq

/-- `shamir_context_t` (its fields `shares` and `secret` are never used). -/
structure ShamirContext where
  threshold : UInt8
  numShares : UInt8
  deriving Repr, DecidableEq

/-- `shamir_share_t`. -/
structure ShamirShare where
  shareId : UInt8
  value : Bytes

/-- Bytes behind a pointer. -/
abbrev Memory := Nat → UInt8

/-- The first `len` bytes behind a pointer. -/
def Memory.read (mem : Memory) (len : Nat) : Bytes := (List.range len).map mem

@[simp] theorem Memory.length_read (mem : Memory) (len : Nat) : (mem.read len).length = len := by
  simp [Memory.read]

/-- The 32 bytes behind a pointer. -/
def Memory.read32 (mem : Memory) : Bytes32 := ⟨mem.read 32, mem.length_read 32⟩

/-- A pointer to a buffer; what lies behind the buffer is not modelled. -/
def Memory.ofBytes (b : Bytes) : Memory := fun i => b.getD i 0

/-- Overwrite the first bytes behind a pointer. -/
def Memory.write (mem : Memory) (b : Bytes) : Memory := fun i => b.getD i (mem i)

/-- What was written is read back. -/
theorem Memory.read_write (mem : Memory) (b : Bytes) : (mem.write b).read b.length = b := by
  apply List.ext_getElem
  · simp
  · intro i _ hi
    simp [Memory.read, Memory.write, hi]

/-- The front of a buffer is what was copied there. -/
theorem Memory.read_write_read (mem data : Memory) (len : Nat) :
    (mem.write (data.read len)).read len = data.read len := by
  have hread := mem.read_write (data.read len)
  rwa [Memory.length_read] at hread

end SwiftAgg.Native
