import SwiftAgg.Native.Types

/-!
# The scratchpad of the firmware

`memory_scratchpad.h`: one block of memory, divided into regions that lie one
behind the other. All sizes are multiples of the alignment, as the assertions
of the header say, so there is no padding between them.
-/

namespace SwiftAgg.Native

/-- `MLKEM_WORKSPACE_BYTES`. -/
def mlkemWorkspaceBytes : Nat := 4096

/-- `CRYPTO_WORKSPACE_BYTES`. -/
def cryptoWorkspaceBytes : Nat := 2048

/-- `DMA_BUFFER_BYTES`. -/
def dmaBufferBytes : Nat := 1536

namespace Scratchpad

/-- The offset of `regions.crypto_ws`. -/
def cryptoWs : Nat := mlkemWorkspaceBytes

/-- The offset of `regions.dma_rx`. -/
def dmaRx : Nat := cryptoWs + cryptoWorkspaceBytes

/-- The offset of `regions.dma_tx`, which is that of its buffer `ping`. -/
def dmaTx : Nat := dmaRx + 2 * dmaBufferBytes

/-- The offset of `regions.chunk_buf`. -/
def chunkBuf : Nat := dmaTx + 2 * dmaBufferBytes

end Scratchpad

/-- `crypto_zeroize` of `len` bytes from `offset` on. -/
def Memory.zeroize (mem : Memory) (offset len : Nat) : Memory :=
  fun k => if offset ≤ k ∧ k < offset + len then 0 else mem k

end SwiftAgg.Native
