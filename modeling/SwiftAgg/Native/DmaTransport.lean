import SwiftAgg.ForStd.PartialRun
import SwiftAgg.ForStd.PingPong
import SwiftAgg.Native.Impairment
import SwiftAgg.Native.Scratchpad

/-!
# Transport over DMA buffers

`dma_transport.c` with the buffers of `dma_isr_handler.c`: per direction a pair
of buffers, the flag that selects one, and a pending flag. The completion
handlers switch the buffers; they are called by the polls themselves.
-/

namespace SwiftAgg.Native

/-- `DMA_CHUNK_SIZE`. -/
def dmaChunkSize : Nat := 256

/-- `dma_double_buffer_t` with the flag that selects a buffer. -/
abbrev DmaDoubleBuffer := PingPong Memory

/-- Both buffers after `crypto_zeroize`, the first of them selected. -/
def DmaDoubleBuffer.zero : DmaDoubleBuffer := .both fun _ => 0

/-- Write the first bytes of the selected buffer. -/
def DmaDoubleBuffer.write (buffers : DmaDoubleBuffer) (b : Bytes) : DmaDoubleBuffer :=
  buffers.store (buffers.current.write b)

/-- The static variables of `dma_transport.c` and `dma_isr_handler.c`, and the impairments. -/
structure DmaTransport where
  rxSock : Int
  txSock : Int
  rxPending : Bool
  txPending : Bool
  rx : DmaDoubleBuffer
  tx : DmaDoubleBuffer
  impairment : Impairment

namespace DmaTransport

/-- The static initialisers. -/
def initial : DmaTransport where
  rxSock := -1
  txSock := -1
  rxPending := false
  txPending := false
  rx := .zero
  tx := .zero
  impairment := .initial

/-- `dma_transport_init`, which passes on a configuration without impairments. -/
def init (t : DmaTransport) (rxSock txSock : Int) : DmaTransport where
  rxSock := rxSock
  txSock := txSock
  rxPending := false
  txPending := false
  rx := .zero
  tx := .zero
  impairment := t.impairment.init .zero

/-- `dma_transport_rx_poll`, with the bytes that the socket delivers. -/
def rxPoll (t : DmaTransport) (result : RecvResult) :
    Option (PqcStatus × Bytes × DmaTransport) := do
  if t.rxSock < 0 ∨ t.rxPending then return (.errInvalidState, [], t)
  let ((ret, received), impairment) ← t.impairment.recv dmaChunkSize result
  let rx := t.rx.write received
  if ret = .success ∧ 0 < received.length then
    return (ret, received, { t with rx := rx.switch, rxPending := true, impairment })
  return (ret, received, { t with rx, impairment })

/-- `dma_transport_tx_poll`, with the bytes that the socket accepts. -/
def txPoll (t : DmaTransport) (result : SendResult) :
    Option (PqcStatus × Bytes × DmaTransport) := do
  if t.txSock < 0 ∨ !t.txPending then return (.errInvalidState, [], t)
  -- whatever was queued, the whole chunk is offered
  let ((ret, sent), impairment) ← t.impairment.send (t.tx.current.read dmaChunkSize) result
  if ret = .success then
    return (ret, sent, { t with tx := t.tx.switch, txPending := false, impairment })
  return (ret, sent, { t with impairment })

/-- `dma_transport_queue_tx`; `data` may be `NULL`. -/
def queueTx (t : DmaTransport) (data : Option Memory) (len : Nat) : PqcStatus × DmaTransport :=
  match data with
  | none => (.errInvalidArgument, t)
  | some data =>
    if dmaChunkSize < len ∨ t.txPending then (.errInvalidArgument, t)
    else (.success, { t with tx := t.tx.write (data.read len), txPending := true })

/-- `dma_transport_get_rx_data`: `*len` and the bytes that are copied. One of the pointers may be
    `NULL`. -/
def getRxData (t : DmaTransport) (null : Bool) : Except PqcStatus (Nat × Bytes × DmaTransport) :=
  if null ∨ !t.rxPending then .error .errInvalidState
  else .ok (dmaChunkSize, t.rx.current.read dmaChunkSize, { t with rxPending := false })

/-- `dma_transport_rx_complete_callback`. -/
def rxCompleteCallback (t : DmaTransport) : DmaTransport := { t with rxPending := false }

/-- `dma_transport_tx_complete_callback`. -/
def txCompleteCallback (t : DmaTransport) : DmaTransport := { t with txPending := false }

end DmaTransport

/-! ## Receiving -/

/-- A call on the receiving side. -/
inductive RxCall where
  | poll (result : RecvResult)
  | get (null : Bool)

/-- The transport, and the bytes that the latest successful poll received. -/
structure RxTrace where
  transport : DmaTransport
  received : Bytes

/-- Right after `dma_transport_init`. -/
def RxTrace.start (t : DmaTransport) (rxSock txSock : Int) : RxTrace :=
  ⟨t.init rxSock txSock, []⟩

/-- One call. -/
def RxTrace.step (tr : RxTrace) : RxCall → Option RxTrace
  | .poll result => do
    let (ret, received, transport) ← tr.transport.rxPoll result
    return ⟨transport, if ret = .success then received else tr.received⟩
  | .get null =>
    match tr.transport.getRxData null with
    | .ok (_, _, transport) => some ⟨transport, tr.received⟩
    | .error _ => some tr

/-! ## Transmitting -/

/-- A call on the transmitting side. -/
inductive TxCall where
  | queue (data : Option Memory) (len : Nat)
  | poll (result : SendResult)

/-- The transport, everything that was queued successfully, the length of the last of it, and
    everything that the socket accepted. -/
structure TxTrace where
  transport : DmaTransport
  queued : Bytes
  lastLen : Nat
  accepted : Bytes

/-- Right after `dma_transport_init`. -/
def TxTrace.start (t : DmaTransport) (rxSock txSock : Int) : TxTrace :=
  ⟨t.init rxSock txSock, [], 0, []⟩

/-- One call. -/
def TxTrace.step (tr : TxTrace) : TxCall → Option TxTrace
  | .queue data len =>
    let (ret, transport) := tr.transport.queueTx data len
    if ret = .success then
      let bytes := data.elim [] fun data => data.read len
      some { tr with transport, queued := tr.queued ++ bytes, lastLen := len }
    else some { tr with transport }
  | .poll result => do
    let (_, sent, transport) ← tr.transport.txPoll result
    return { tr with transport, accepted := tr.accepted ++ sent }

end SwiftAgg.Native
