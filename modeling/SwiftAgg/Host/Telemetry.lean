import SwiftAgg.Host.BaselineServer

/-!
# Telemetry records

The record that `_unmask_and_aggregate` appends to every aggregated chunk, and
the benchmark reader of `run_benchmarks.py` that takes it from the end of the
payload.
-/

namespace SwiftAgg.Host

/-- The entries of a telemetry record that are packed; `accuracy` is `final_accuracy` in steps of
    1/255, as it is packed. -/
structure Telemetry where
  roundId : Nat
  keygenCycles : Nat
  encapsCycles : Nat
  decapsCycles : Nat
  hkdfCycles : Nat
  maskGenCycles : Nat
  maskApplyCycles : Nat
  peakSram : Nat
  minFreeHeap : Nat
  largestFreeBlock : Nat
  stackHighWater : Nat
  heapZero : Bool
  aggregationSuccess : Nat
  accuracy : Nat
  deriving Repr, DecidableEq

/-- The integer fields, in the order in which they are packed. -/
def Telemetry.counters (t : Telemetry) : List Nat :=
  [t.roundId, t.keygenCycles, t.encapsCycles, t.decapsCycles, t.hkdfCycles, t.maskGenCycles,
    t.maskApplyCycles, t.peakSram, t.minFreeHeap, t.largestFreeBlock, t.stackHighWater]

/-- `_collect_telemetry`, as far as it is packed. -/
def collectTelemetry (roundId : Nat) : Telemetry where
  roundId := roundId
  keygenCycles := 0
  encapsCycles := 0
  decapsCycles := 0
  hkdfCycles := 0
  maskGenCycles := 0
  maskApplyCycles := 0
  peakSram := 0
  minFreeHeap := 0
  largestFreeBlock := 0
  stackHighWater := 0
  heapZero := false
  aggregationSuccess := 1
  accuracy := 255

/-- `struct.pack(">IIIIIIIIIIIIIIBBBB", *words, *flags)`. -/
def packRecord (words flags : List Nat) : Except PyErr Bytes :=
  if (∀ w ∈ words, w < 2 ^ 32) ∧ ∀ f ∈ flags, f < 2 ^ 8 then
    .ok (Bytes.packU32BE words ++ flags.map UInt8.ofNat)
  else .error .structError

/-- `struct.unpack(">IIIIIIIIIIIIIIBBBB", data)` for 60 bytes. -/
def unpackRecord (data : Bytes) : List Nat :=
  Bytes.u32sBE (data.take 56) ++ (data.drop 56).map UInt8.toNat

/-- `_pack_telemetry`. -/
def Telemetry.pack (t : Telemetry) : Except PyErr Bytes :=
  packRecord (t.counters ++ [0, 0, 0])
    [if t.heapZero then 1 else 0, t.aggregationSuccess, t.accuracy, 0]

/-- The payload of `_unmask_and_aggregate` for one chunk. -/
def roundCompletePayload (t : Telemetry) (chunkSize : Nat) (chunk : List Int) :
    Except PyErr Bytes := do
  let telemetry ← t.pack
  let result ← packChunk chunkSize chunk
  return result ++ telemetry

/-- `parse_telemetry`; an empty dictionary is `none`. -/
def parseTelemetry (data : Bytes) : Option Telemetry :=
  if data.length < 60 then none
  else
    let values := unpackRecord (data.take 60)
    some {
      roundId := values.getD 0 0
      keygenCycles := values.getD 1 0
      encapsCycles := values.getD 2 0
      decapsCycles := values.getD 3 0
      hkdfCycles := values.getD 4 0
      maskGenCycles := values.getD 5 0
      maskApplyCycles := values.getD 6 0
      peakSram := values.getD 7 0
      minFreeHeap := values.getD 8 0
      largestFreeBlock := values.getD 9 0
      stackHighWater := values.getD 10 0
      heapZero := values.getD 14 0 ≠ 0
      aggregationSuccess := values.getD 15 0
      accuracy := values.getD 16 0 }

/-- `handle_telemetry_client` for one message: what it puts into the queue. -/
def handleTelemetryMessage (messageType : Nat) (payload : Bytes) : Option (Option Telemetry) :=
  if messageType = 0x41 ∧ 64 ≤ payload.length then
    some (parseTelemetry (payload.drop (payload.length - 64)))
  else none

end SwiftAgg.Host
