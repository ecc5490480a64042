import SwiftAgg.Native.Types

/-!
# Sockets with impairments

`transport_send` and `transport_recv` of `transport.c`, and the calls of
`impairment.c` that drop or delay what goes through them. What the socket does
is an input. Delays pass no data; an expression without a defined value in C
(a remainder by zero, a signed overflow) has none here.
-/

namespace SwiftAgg.Native

/-! ## Sockets -/

/-- What `recv` does: it fails, would block or not, or delivers bytes; none is the end of the
    stream. -/
inductive RecvResult where
  | failed (wouldBlock : Bool)
  | delivered (bytes : Bytes)
  deriving DecidableEq

/-- What `send` does: it fails, would block or not, or accepts a prefix of at most `len` bytes. -/
inductive SendResult where
  | failed (wouldBlock : Bool)
  | accepted (len : Nat)
  deriving DecidableEq

/-- `transport_recv` into a buffer of `len` bytes: the status, and the bytes that are stored. -/
def transportRecv (len : Nat) : RecvResult → PqcStatus × Bytes
  | .failed wouldBlock => (if wouldBlock then .errNetworkTimeout else .errGeneric, [])
  | .delivered bytes =>
    if bytes.take len = [] then (.errNetworkTimeout, []) else (.success, bytes.take len)

/-- `transport_send`: the status, and the bytes that the socket accepts. -/
def transportSend (data : Bytes) : SendResult → PqcStatus × Bytes
  | .failed wouldBlock => (if wouldBlock then .errNetworkTimeout else .errGeneric, [])
  | .accepted len => (.success, data.take len)

/-! ## Impairments -/

/-- `impairment_config_t`. -/
structure ImpairmentConfig where
  lossRatePpm : UInt32
  minLatencyMs : UInt32
  maxLatencyMs : UInt32
  jitterMs : UInt32
  seed : UInt32
  deriving DecidableEq

/-- A cleared configuration. -/
def ImpairmentConfig.zero : ImpairmentConfig := ⟨0, 0, 0, 0, 0⟩

/-- The static variables of `impairment.c`. -/
structure Impairment where
  config : ImpairmentConfig
  rngState : UInt32
  deriving DecidableEq

namespace Impairment

/-- The static initialisers. -/
def initial : Impairment := ⟨.zero, 0xDEADBEEF⟩

/-- `rng_next`, whose result is the new state. -/
def rngNext (imp : Impairment) : Impairment :=
  { imp with rngState := imp.rngState * 1664525 + 1013904223 }

@[simp] theorem rngNext_config (imp : Impairment) : imp.rngNext.config = imp.config := by
  rw [rngNext]

/-- `impairment_init`; a seed of zero keeps the generator's state. -/
def init (imp : Impairment) (config : ImpairmentConfig) : Impairment where
  config := config
  rngState := if config.seed ≠ 0 then config.seed else imp.rngState

/-- `impairment_set_loss_rate`. -/
def setLossRate (imp : Impairment) (lossRatePpm : UInt32) : Impairment :=
  { imp with config := { imp.config with lossRatePpm } }

/-- `impairment_set_latency_ms`. -/
def setLatencyMs (imp : Impairment) (minLatencyMs maxLatencyMs : UInt32) : Impairment :=
  { imp with config := { imp.config with minLatencyMs, maxLatencyMs } }

/-- `impairment_set_jitter_ms`. -/
def setJitterMs (imp : Impairment) (jitterMs : UInt32) : Impairment :=
  { imp with config := { imp.config with jitterMs } }

/-- `impairment_should_drop`. -/
def shouldDrop (imp : Impairment) : Bool × Impairment :=
  if imp.config.lossRatePpm = 0 then (false, imp)
  else
    let imp := imp.rngNext
    (imp.rngState % 1000000 < imp.config.lossRatePpm, imp)

/-- A value of `int32_t`, if it is one. -/
def int32 (n : Int) : Option Int := if -2 ^ 31 ≤ n ∧ n < 2 ^ 31 then some n else none

/-- The remainder of a division that is not by zero. -/
def umod (a b : UInt32) : Option UInt32 := if b = 0 then none else some (a % b)

/-- `impairment_get_latency_ms`. -/
def getLatencyMs (imp : Impairment) : Option (UInt32 × Impairment) := do
  if imp.config.minLatencyMs = 0 ∧ imp.config.maxLatencyMs = 0 then return (0, imp)
  let range := imp.config.maxLatencyMs - imp.config.minLatencyMs
  let jitter := imp.config.jitterMs
  let imp := imp.rngNext
  -- `range + 1` is zero for the whole range of `uint32_t`
  let latency := imp.config.minLatencyMs + (← umod imp.rngState (range + 1))
  if jitter = 0 then return (latency, imp)
  let imp := imp.rngNext
  let r ← umod imp.rngState (2 * jitter + 1)
  let jitterVal ← int32 (r.toInt32.toInt - jitter.toInt32.toInt)
  let sum ← int32 (latency.toInt32.toInt + jitterVal)
  return (if 0 < sum then UInt32.ofNat sum.toNat else latency, imp)

/-- What `impairment_recv` and `impairment_send` have in common: a packet is dropped, or passed on
    after a delay. -/
def through (imp : Impairment) (pass : PqcStatus × Bytes) :
    Option ((PqcStatus × Bytes) × Impairment) := do
  let (drop, imp) := imp.shouldDrop
  if drop then return ((.errNetworkTimeout, []), imp)
  let (_, imp) ← imp.getLatencyMs
  return (pass, imp)

/-- `impairment_recv`. -/
def recv (imp : Impairment) (len : Nat) (result : RecvResult) :
    Option ((PqcStatus × Bytes) × Impairment) :=
  imp.through (transportRecv len result)

/-- `impairment_send`. -/
def send (imp : Impairment) (data : Bytes) (result : SendResult) :
    Option ((PqcStatus × Bytes) × Impairment) :=
  imp.through (transportSend data result)

end Impairment

end SwiftAgg.Native
