import SwiftAgg.ForStd.WordLoop
import SwiftAgg.Native.MaskProtocol
import SwiftAgg.Native.Scratchpad

/-!
# The stream aggregator of the firmware

`stream_aggregator.c`: a chunk in the chunk buffer of the scratchpad is masked
or unmasked, word by word, into the transmit buffer. Both run on the same mask,
which is expanded from the client's shared secret.
-/

namespace SwiftAgg.Native

/-- The `int16_t` at an offset of the scratchpad. -/
def Memory.int16At (mem : Memory) (offset : Nat) : Int :=
  Bytes.toInt16 (WordLoop.readWord mem offset)

/-- The `uint16_t` that `mod_q` gives for the input word and the mask word `i`. -/
def maskedWord (op : Int → Int → Int) (mask : List Int) (i w : Nat) : Nat :=
  (modQ (op (Bytes.toInt16 w) (mask.getD i 0))).toNat

/-- The common shape of `stream_aggregator_process_chunk` and `stream_aggregator_unmask_chunk`: the
    status and the scratchpad. -/
def streamAggregatorChunk (op : Int → Int → Int) (kdf : Kdf) (prg : MaskPrg) (g : KemGlobals)
    (clientId : UInt8) (roundId : UInt32) (chunkIndex : UInt16) (chunkSize : Nat)
    (sharedSecret : Bytes32) (pad : Memory) : PqcStatus × Memory :=
  if chunkBufferBytes < chunkSize then (.errChunkTooLarge, pad)
  else if chunkSize % 2 ≠ 0 then (.errChunkTooSmall, pad)
  else
    let streamSeed := kemAdapterDeriveStreamMaskSeed kdf g sharedSecret clientId roundId chunkIndex
    -- the derivation wipes the crypto workspace
    let pad := pad.zeroize Scratchpad.cryptoWs cryptoWorkspaceBytes
    let mask := Bytes.int16sLE (prg streamSeed chunkSize).val
    let numElements := chunkSize / 2
    (.success,
      WordLoop.mapWords (maskedWord op mask) Scratchpad.chunkBuf Scratchpad.dmaTx numElements pad)

/-- `stream_aggregator_process_chunk`. -/
def streamAggregatorProcessChunk : Kdf → MaskPrg → KemGlobals → UInt8 → UInt32 → UInt16 → Nat →
    Bytes32 → Memory → PqcStatus × Memory :=
  streamAggregatorChunk (· + ·)

/-- `stream_aggregator_unmask_chunk`. -/
def streamAggregatorUnmaskChunk : Kdf → MaskPrg → KemGlobals → UInt8 → UInt32 → UInt16 → Nat →
    Bytes32 → Memory → PqcStatus × Memory :=
  streamAggregatorChunk (· - ·)

end SwiftAgg.Native
