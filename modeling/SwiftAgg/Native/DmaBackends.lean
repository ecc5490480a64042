import SwiftAgg.Native.DmaTransport

/-!
# The hardware back ends

The transmitting sides of `dma_transport_stm32.c` and `dma_transport_esp32.c`.
Both are the same interface for the caller: `start_tx` hands a buffer to the
DMA engine, and an interrupt reports its completion. A call gives what it wrote
of the buffers and what it started, besides the new state. Starting reconfigures
the engine, so the next interrupt completes whatever was started before it.
-/

namespace SwiftAgg.Native

/-- A transfer that the engine was started for: the buffer, by its flag, and the length. -/
structure DmaTransfer where
  buffer : Bool
  len : Nat
  deriving Repr, DecidableEq

/-- What a call of `start_tx` did: its status, the bytes written to a buffer, and the transfer
    started. -/
structure DmaStart where
  status : PqcStatus
  written : Option (Bool × Nat)
  started : Option DmaTransfer
  deriving Repr, DecidableEq

/-- A buffer of a pair, by its flag. -/
def DmaDoubleBuffer.get (buffers : DmaDoubleBuffer) (buffer : Bool) : Memory :=
  if buffer then buffers.pong else buffers.ping

/-- `crypto_zeroize` of both buffers; the flag stays. -/
def DmaDoubleBuffer.zeroize (buffers : DmaDoubleBuffer) : DmaDoubleBuffer :=
  { buffers with ping := fun _ => 0, pong := fun _ => 0 }

/-! ## STM32 -/

/-- The transmit buffers and `dma_tx_active`. -/
structure Stm32Dma where
  tx : DmaDoubleBuffer

namespace Stm32Dma

/-- `dma_transport_stm32_init`. -/
def init (s : Stm32Dma) : Stm32Dma := ⟨s.tx.zeroize⟩

/-- `dma_transport_stm32_start_tx`. -/
def startTx (s : Stm32Dma) (data : Memory) (len : UInt16) : DmaStart × Stm32Dma :=
  if dmaBufferBytes < len.toNat then (⟨.errChunkTooLarge, none, none⟩, s)
  else
    (⟨.success, some (s.tx.active, len.toNat), some ⟨s.tx.active, len.toNat⟩⟩,
      ⟨s.tx.write (data.read len.toNat)⟩)

/-- `dma_tx_complete_callback`. -/
def txComplete (s : Stm32Dma) : Stm32Dma := ⟨s.tx.switch⟩

end Stm32Dma

/-! ## ESP32 -/

/-- The transmit buffers with `dma_tx_active`, and the buffer and size in each of
    `tx_descriptors`. -/
structure Esp32Dma where
  tx : DmaDoubleBuffer
  descriptors : Bool → DmaTransfer

namespace Esp32Dma

/-- `dma_transport_esp32_init`. -/
def init (s : Esp32Dma) : Esp32Dma where
  tx := s.tx.zeroize
  descriptors buffer := ⟨buffer, 0⟩

/-- `dma_transport_esp32_start_tx`, which does not look at `data`. -/
def startTx (s : Esp32Dma) (_data : Memory) (len : UInt16) : DmaStart × Esp32Dma :=
  if dmaBufferBytes < len.toNat then (⟨.errChunkTooLarge, none, none⟩, s)
  else
    let desc : DmaTransfer := ⟨s.tx.active, len.toNat⟩
    let descriptors := Function.update s.descriptors s.tx.active desc
    (⟨.success, none, some (descriptors s.tx.active)⟩, { s with descriptors })

/-- `gdma_tx_eof_callback`. -/
def txEof (s : Esp32Dma) : Esp32Dma := { s with tx := s.tx.switch }

end Esp32Dma

/-! ## Both -/

/-- What the callers of a back end rely on. -/
structure DmaBackend (Device : Type) where
  init : Device → Device
  startTx : Device → Memory → UInt16 → DmaStart × Device
  txComplete : Device → Device
  buffers : Device → DmaDoubleBuffer

/-- `dma_transport_stm32.c`. -/
def stm32Backend : DmaBackend Stm32Dma where
  init := Stm32Dma.init
  startTx := Stm32Dma.startTx
  txComplete := Stm32Dma.txComplete
  buffers := Stm32Dma.tx

/-- `dma_transport_esp32.c`. -/
def esp32Backend : DmaBackend Esp32Dma where
  init := Esp32Dma.init
  startTx := Esp32Dma.startTx
  txComplete := Esp32Dma.txEof
  buffers := Esp32Dma.tx

/-- A call of `start_tx`, or the interrupt. -/
inductive DmaEvent where
  | start (data : Memory) (len : UInt16)
  | complete

/-- The device, and the transfers that were started since the last interrupt. -/
structure DmaTrace {Device : Type} (backend : DmaBackend Device) where
  device : Device
  inFlight : List DmaTransfer

namespace DmaTrace

variable {Device : Type} {backend : DmaBackend Device}

/-- Right after the initialisation. -/
def start (backend : DmaBackend Device) (device : Device) : DmaTrace backend :=
  ⟨backend.init device, []⟩

/-- One event. -/
def step (tr : DmaTrace backend) : DmaEvent → Option (DmaTrace backend)
  | .start data len =>
    let (result, device) := backend.startTx tr.device data len
    some ⟨device, tr.inFlight ++ result.started.toList⟩
  | .complete => some ⟨backend.txComplete tr.device, []⟩

end DmaTrace

end SwiftAgg.Native
