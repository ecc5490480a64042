import SwiftAgg.Native.MaskProtocol

/-!
# Masks of a dropped client

`dropout_protocol.c`: what a peer of a dropped client expands, once the secret
of the two is recovered.
-/

namespace SwiftAgg.Native

/-- `dropout_protocol_derive_mask_for_recovery`: the status and the words of `mask`. -/
def dropoutProtocolDeriveMaskForRecovery (kdf : Kdf) (prg : MaskPrg) (g : KemGlobals)
    (shamirSecret : Bytes32) (clientId : UInt8) (roundId : UInt32) (chunkIndex : UInt16)
    (peerId : UInt8) (chunkSize : Nat) : PqcStatus × List Int :=
  let pairwiseSeed := kemAdapterDerivePairwiseMaskSeed kdf g shamirSecret clientId peerId roundId
  let streamSeed := kemAdapterDeriveStreamMaskSeed kdf g pairwiseSeed clientId roundId chunkIndex
  (.success, Bytes.int16sLE (prg streamSeed (chunkSize * 2)).val)

end SwiftAgg.Native
