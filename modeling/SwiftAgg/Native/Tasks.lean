import SwiftAgg.ForStd.WorkQueue
import SwiftAgg.Native.DmaTransport

/-!
# The tasks of the firmware

What `app_main` sets up: the two worker tasks of `crypto_worker.c` and
`stream_aggregator.c` with their queues, the network coordinator of `main.c`,
which sleeps until it is notified, and the completion handlers of
`dma_isr_handler.c`, which notify. The tasks preempt each other, so an item of a
worker is two steps: taking it from the queue, and what comes after the call
made for it. The results of the calls do not matter to the tasks.
-/

namespace SwiftAgg.Native

/-! ## Telemetry -/

/-- `crypto_cycles_t`. -/
structure CryptoCycles where
  keygen : UInt32
  encaps : UInt32
  decaps : UInt32
  hkdf : UInt32
  maskGen : UInt32
  maskApply : UInt32
  deriving DecidableEq

/-- No cycles. -/
def CryptoCycles.zero : CryptoCycles := ⟨0, 0, 0, 0, 0, 0⟩

/-- `telemetry_round_t`, as far as the tasks write it. -/
structure TelemetryRound where
  roundId : UInt32
  crypto : CryptoCycles
  deriving DecidableEq

/-- `TELEMETRY_MAX_OPS`. -/
def telemetryMaxOps : Nat := 16

/-- `g_telemetry_session` up to `round_count`, and `g_cycle_start`. -/
structure Telemetry where
  rounds : List TelemetryRound
  cycleStart : UInt32

namespace Telemetry

/-- `telemetry_init`. -/
def init (t : Telemetry) : Telemetry := { t with rounds := [] }

/-- `telemetry_cycle_start`, with the value of the cycle counter. -/
def cycleStartAt (t : Telemetry) (cycles : UInt32) : Telemetry := { t with cycleStart := cycles }

/-- `telemetry_cycle_end`. -/
def cycleEnd (t : Telemetry) (cycles : UInt32) : UInt32 × Telemetry :=
  (cycles - t.cycleStart, { t with cycleStart := 0 })

/-- `telemetry_round_start`: the entries of the array are zero until they are used. -/
def roundStart (t : Telemetry) (roundId : UInt32) : Telemetry :=
  if t.rounds.length < telemetryMaxOps then
    { t with rounds := t.rounds ++ [⟨roundId, .zero⟩] }
  else t

/-- `telemetry_record_crypto`: all counters of the latest round are assigned, if there is one. -/
def recordCrypto (t : Telemetry) (crypto : CryptoCycles) : Telemetry :=
  { t with rounds := t.rounds.modify (t.rounds.length - 1) fun round => { round with crypto } }

end Telemetry

/-! ## Work items -/

/-- `stream_work_item_t`; the shared secret is a pointer. -/
structure StreamWorkItem where
  op : UInt8
  clientId : UInt8
  roundId : UInt32
  chunkIndex : UInt16
  chunkSize : UInt16
  sharedSecret : Nat
  deriving DecidableEq

/-- `crypto_op_t`. -/
inductive CryptoOp where
  | none
  | keypair
  | encapsulate
  | decapsulate
  | hkdf
  deriving DecidableEq

/-- `crypto_work_item_t`; a pointer may be `NULL`. -/
structure CryptoWorkItem where
  op : CryptoOp
  keypairOut : Option Nat
  publicKey : Option Nat
  pkLen : Nat
  encapOut : Option Nat
  ciphertext : Option Nat
  ctLen : Nat
  secretKey : Option Nat
  skLen : Nat
  sharedSecretOut : Option Nat
  sharedSecretIn : Option Nat
  salt : Option Nat
  saltLen : Nat
  info : Option Nat
  infoLen : Nat
  sessionKeyOut : Option Nat
  doneFlag : Option Nat
  deriving DecidableEq

/-- A call that a worker makes for an item. -/
inductive WorkerCall where
  | keypair (out : Nat)
  | encapsulate (publicKey pkLen out : Nat)
  | decapsulate (ciphertext ctLen secretKey skLen out : Nat)
  | deriveSessionKey (sharedSecret : Nat) (salt : Option Nat) (saltLen : Nat) (info : Option Nat)
      (infoLen out : Nat)
  | processChunk (clientId : UInt8) (roundId : UInt32) (chunkIndex chunkSize : UInt16)
      (sharedSecret : Nat)
  | unmaskChunk (clientId : UInt8) (roundId : UInt32) (chunkIndex chunkSize : UInt16)
      (sharedSecret : Nat)
  deriving DecidableEq

/-- The arguments of `telemetry_record_crypto` after a call. -/
def WorkerCall.cycles : WorkerCall → UInt32 → CryptoCycles
  | keypair .., cycles => { CryptoCycles.zero with keygen := cycles }
  | encapsulate .., cycles => { CryptoCycles.zero with encaps := cycles }
  | decapsulate .., cycles => { CryptoCycles.zero with decaps := cycles }
  | deriveSessionKey .., cycles => { CryptoCycles.zero with hkdf := cycles }
  | processChunk .., cycles => { CryptoCycles.zero with maskGen := cycles }
  | unmaskChunk .., cycles => { CryptoCycles.zero with maskApply := cycles }

/-- The call of `stream_aggregator_task` for an item. -/
def StreamWorkItem.call (item : StreamWorkItem) : Option WorkerCall :=
  if item.op = 1 then
    some (.processChunk item.clientId item.roundId item.chunkIndex item.chunkSize item.sharedSecret)
  else if item.op = 2 then
    some (.unmaskChunk item.clientId item.roundId item.chunkIndex item.chunkSize item.sharedSecret)
  else none

/-- The call of `crypto_worker_task` for an item: none where a pointer that it checks is `NULL`. -/
def CryptoWorkItem.call (item : CryptoWorkItem) : Option WorkerCall :=
  match item.op with
  | .none => none
  | .keypair => return .keypair (← item.keypairOut)
  | .encapsulate => return .encapsulate (← item.publicKey) item.pkLen (← item.encapOut)
  | .decapsulate =>
    return .decapsulate (← item.ciphertext) item.ctLen (← item.secretKey) item.skLen
      (← item.sharedSecretOut)
  | .hkdf =>
    return .deriveSessionKey (← item.sharedSecretIn) item.salt item.saltLen item.info item.infoLen
      (← item.sessionKeyOut)

/-! ## Workers -/

/-- `CRYPTO_QUEUE_LENGTH` and `STREAM_QUEUE_LENGTH`. -/
def queueLength : Nat := 8

/-- A worker task: its queue, the item it works on, and for the record the items that the queue has
    accepted, and that were received from it. -/
structure Worker (α : Type) where
  queue : WorkQueue α queueLength
  current : Option α
  accepted : List α
  received : List α

namespace Worker

variable {α : Type}

/-- The queue is created, and the task waits. -/
def idle : Worker α := ⟨.empty, none, [], []⟩

/-- `crypto_worker_submit` and `stream_aggregator_submit`, as far as they do not wait for room. -/
def submit (w : Worker α) (item : α) : Bool × Worker α :=
  match w.queue.send item with
  | none => (false, w)
  | some queue => (true, { w with queue, accepted := w.accepted ++ [item] })

/-- The task takes an item, unless it works on one; what it makes no call for is dropped. -/
def take (call : α → Option WorkerCall) (w : Worker α) : Worker α :=
  match w.current, w.queue.receive with
  | none, some (item, queue) =>
    { w with
      queue
      current := if (call item).isSome then some item else none
      received := w.received ++ [item] }
  | _, _ => w

end Worker

/-! ## The firmware -/

/-- The tasks that `app_main` creates. -/
inductive TaskId where
  | cryptoWorker
  | streamAggregator
  | networkCoordinator
  | stateMonitor
  deriving DecidableEq

/-- The globals that the tasks and the completion handlers share: `g_stream_task_handle`, the
    notification values of the tasks, the transport, the workers, the flags that were set through
    `done_flag`, and the telemetry; and for the record, the number of polls. -/
structure Firmware where
  streamTaskHandle : Option TaskId
  notified : TaskId → UInt32
  transport : DmaTransport
  crypto : Worker CryptoWorkItem
  stream : Worker StreamWorkItem
  doneFlags : List Nat
  telemetry : Telemetry
  polls : Nat

namespace Firmware

/-- `xTaskNotifyFromISR(g_stream_task_handle, bits, eSetBits, …)`, if the handle is set. -/
def notifyStreamTask (fw : Firmware) (bits : UInt32) : Firmware :=
  match fw.streamTaskHandle with
  | none => fw
  | some task =>
    { fw with notified := Function.update fw.notified task (fw.notified task ||| bits) }

/-- `dma_isr_rx_complete`. -/
def dmaIsrRxComplete (fw : Firmware) : Firmware :=
  notifyStreamTask { fw with transport := { fw.transport with rx := fw.transport.rx.switch } } 0x01

/-- `dma_isr_tx_complete`. -/
def dmaIsrTxComplete (fw : Firmware) : Firmware :=
  notifyStreamTask { fw with transport := { fw.transport with tx := fw.transport.tx.switch } } 0x02

/-- `dma_isr_error`. -/
def dmaIsrError (fw : Firmware) : Firmware := fw.notifyStreamTask 0x80

/-- `dma_isr_set_stream_task`. -/
def dmaIsrSetStreamTask (fw : Firmware) (handle : Option TaskId) : Firmware :=
  { fw with streamTaskHandle := handle }

/-- `dma_isr_init`, which forgets the handle. -/
def dmaIsrInit (fw : Firmware) : Firmware :=
  { fw with streamTaskHandle := none, transport := { fw.transport with rx := .zero, tx := .zero } }

/-- `stream_aggregator_get_task_handle`. -/
def streamAggregatorGetTaskHandle : Option TaskId := some .streamAggregator

/-- The state before `app_main`, with the cycle counter's variable as it was. -/
def initial : Firmware where
  streamTaskHandle := none
  notified _ := 0
  transport := .initial
  crypto := .idle
  stream := .idle
  doneFlags := []
  telemetry := ⟨[], 0⟩
  polls := 0

/-- `app_main` up to the start of the scheduler. -/
def appMain : Firmware :=
  let fw := { initial with telemetry := initial.telemetry.init }
  let fw := fw.dmaIsrSetStreamTask streamAggregatorGetTaskHandle
  fw.dmaIsrInit

/-- `dma_transport_init`. -/
def dmaTransportInit (fw : Firmware) (rxSock txSock : Int) : Firmware :=
  dmaIsrInit { fw with transport := fw.transport.init rxSock txSock }

/-- `dma_transport_rx_poll`; a successful one calls the completion handler. -/
def rxPoll (fw : Firmware) (result : RecvResult) : Option Firmware := do
  let (ret, received, transport) ← fw.transport.rxPoll result
  let fw := { fw with transport, polls := fw.polls + 1 }
  return if ret = .success ∧ 0 < received.length then fw.notifyStreamTask 0x01 else fw

/-- `dma_transport_tx_poll`. -/
def txPoll (fw : Firmware) (result : SendResult) : Option Firmware := do
  let (ret, _, transport) ← fw.transport.txPoll result
  let fw := { fw with transport, polls := fw.polls + 1 }
  return if ret = .success then fw.notifyStreamTask 0x02 else fw

/-- A turn of `network_coordinator_task`: nothing while no bit is set, else the polls. -/
def networkCoordinator (fw : Firmware) (recv : RecvResult) (send : SendResult) :
    Option Firmware := do
  let notify := fw.notified .networkCoordinator
  if notify = 0 then return fw
  let fw := { fw with notified := Function.update fw.notified .networkCoordinator 0 }
  let fw ← if notify &&& 0x01 ≠ 0 then fw.rxPoll recv else some fw
  if notify &&& 0x02 ≠ 0 then fw.txPoll send else some fw

/-- After the call for an item: the cycles are recorded. -/
def recordCycles (fw : Firmware) (call : WorkerCall) (cycles : UInt32) : Firmware :=
  let (elapsed, telemetry) := fw.telemetry.cycleEnd cycles
  { fw with telemetry := telemetry.recordCrypto (call.cycles elapsed) }

/-- `stream_aggregator_task` takes an item and starts the call. -/
def streamTake (fw : Firmware) (cycles : UInt32) : Firmware :=
  let stream := fw.stream.take StreamWorkItem.call
  if fw.stream.current.isNone ∧ stream.current.isSome then
    { fw with stream, telemetry := fw.telemetry.cycleStartAt cycles }
  else { fw with stream }

/-- `stream_aggregator_task` after the call. -/
def streamDone (fw : Firmware) (cycles : UInt32) : Firmware :=
  match fw.stream.current.bind StreamWorkItem.call with
  | none => fw
  | some call =>
    recordCycles { fw with stream := { fw.stream with current := none } } call cycles

/-- `crypto_worker_task` takes an item and starts the call. -/
def cryptoTake (fw : Firmware) (cycles : UInt32) : Firmware :=
  let crypto := fw.crypto.take CryptoWorkItem.call
  if fw.crypto.current.isNone ∧ crypto.current.isSome then
    { fw with crypto, telemetry := fw.telemetry.cycleStartAt cycles }
  else { fw with crypto }

/-- `crypto_worker_task` after the call: whatever it returned, the flag is set. -/
def cryptoDone (fw : Firmware) (cycles : UInt32) : Firmware :=
  match fw.crypto.current with
  | none => fw
  | some item =>
    match item.call with
    | none => fw
    | some call =>
      recordCycles
        { fw with
          crypto := { fw.crypto with current := none }
          doneFlags := fw.doneFlags ++ item.doneFlag.toList } call cycles

end Firmware

/-- What can happen once the scheduler runs: interrupts, turns of the tasks, and calls of the
    application. The buffers of the transport are memory that others write, too. -/
inductive FirmwareEvent where
  | dmaIsrRxComplete
  | dmaIsrTxComplete
  | dmaIsrError
  | networkCoordinator (recv : RecvResult) (send : SendResult)
  | streamTake (cycles : UInt32)
  | streamDone (cycles : UInt32)
  | cryptoTake (cycles : UInt32)
  | cryptoDone (cycles : UInt32)
  | streamSubmit (item : StreamWorkItem)
  | cryptoSubmit (item : CryptoWorkItem)
  | setStreamTask
  | transportInit (rxSock txSock : Int)
  | setImpairment (config : ImpairmentConfig)
  | queueTx (data : Option Memory) (len : Nat)
  | getRxData (null : Bool)
  | rxCompleteCallback
  | txCompleteCallback
  | writeBuffers (rx tx : Memory × Memory)
  | roundStart (roundId : UInt32)

/-- One event. -/
def Firmware.step (fw : Firmware) : FirmwareEvent → Option Firmware
  | .dmaIsrRxComplete => some fw.dmaIsrRxComplete
  | .dmaIsrTxComplete => some fw.dmaIsrTxComplete
  | .dmaIsrError => some fw.dmaIsrError
  | .networkCoordinator recv send => fw.networkCoordinator recv send
  | .streamTake cycles => some (fw.streamTake cycles)
  | .streamDone cycles => some (fw.streamDone cycles)
  | .cryptoTake cycles => some (fw.cryptoTake cycles)
  | .cryptoDone cycles => some (fw.cryptoDone cycles)
  | .streamSubmit item => some { fw with stream := (fw.stream.submit item).2 }
  | .cryptoSubmit item => some { fw with crypto := (fw.crypto.submit item).2 }
  | .setStreamTask =>
    some (fw.dmaIsrSetStreamTask Firmware.streamAggregatorGetTaskHandle)
  | .transportInit rxSock txSock => some (fw.dmaTransportInit rxSock txSock)
  | .setImpairment config =>
    some { fw with
      transport := { fw.transport with impairment := fw.transport.impairment.init config } }
  | .queueTx data len => some { fw with transport := (fw.transport.queueTx data len).2 }
  | .getRxData null =>
    match fw.transport.getRxData null with
    | .ok (_, _, transport) => some { fw with transport }
    | .error _ => some fw
  | .rxCompleteCallback => some { fw with transport := fw.transport.rxCompleteCallback }
  | .txCompleteCallback => some { fw with transport := fw.transport.txCompleteCallback }
  | .writeBuffers rx tx =>
    some { fw with
      transport := { fw.transport with
        rx := ⟨rx.1, rx.2, fw.transport.rx.active⟩
        tx := ⟨tx.1, tx.2, fw.transport.tx.active⟩ } }
  | .roundStart roundId => some { fw with telemetry := fw.telemetry.roundStart roundId }

end SwiftAgg.Native
