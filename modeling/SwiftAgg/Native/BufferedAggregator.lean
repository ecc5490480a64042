import SwiftAgg.Native.MaskProtocol
import SwiftAgg.Native.Scratchpad

/-!
# The buffered baseline aggregator

`baseline_buffered_aggregator.c` (HEAD side): the model, a mask and the
aggregate of the updates each lie in a static buffer for the whole model.
Pointers are not `NULL`.
-/

namespace SwiftAgg.Native

/-- `MAX_MODEL_ELEMENTS`. -/
def maxModelElements : Nat := 250000

/-- An array of `int16_t`. -/
abbrev Int16Buffer := Nat → Int16

/-- Loop over the first `n` elements of a buffer; the others stay as they are. -/
def Int16Buffer.overwrite (buf : Int16Buffer) (n : UInt32) (f : Int16Buffer) : Int16Buffer :=
  fun i => if i < n.toNat then f i else buf i

/-- The static variables of `baseline_buffered_aggregator.c`. The buffers have room for
    `MAX_MODEL_ELEMENTS` elements, and no more than those are in use. -/
structure BufferedAggregator where
  fullModelBuffer : Int16Buffer
  maskBuffer : Int16Buffer
  aggregatedBuffer : Int16Buffer
  modelSize : UInt32
  size_le : modelSize.toNat ≤ maxModelElements
  active : Bool

namespace BufferedAggregator

/-- The static initialisers. -/
def initial : BufferedAggregator where
  fullModelBuffer := fun _ => 0
  maskBuffer := fun _ => 0
  aggregatedBuffer := fun _ => 0
  modelSize := 0
  size_le := Nat.zero_le _
  active := false

/-- `baseline_buffered_init`. -/
def baselineBufferedInit (b : BufferedAggregator) (modelElements : UInt32) :
    PqcStatus × BufferedAggregator :=
  if h : maxModelElements < modelElements.toNat then (.errBufferTooSmall, b)
  else
    -- the buffers keep what they hold
    (.success, { b with modelSize := modelElements, size_le := not_lt.mp h, active := true })

/-- `baseline_buffered_load_model`. -/
def baselineBufferedLoadModel (b : BufferedAggregator) (model : Int16Buffer) :
    PqcStatus × BufferedAggregator :=
  if ¬b.active then (.errInvalidArgument, b)
  else (.success, { b with fullModelBuffer := b.fullModelBuffer.overwrite b.modelSize model })

/-- `baseline_buffered_generate_mask`, with the scratchpad `pad` whose first bytes are taken for the
    shared secret. -/
def baselineBufferedGenerateMask (kdf : Kdf) (prg : MaskPrg) (g : KemGlobals) (clientId : UInt8)
    (roundId : UInt32) (pad : Memory) (b : BufferedAggregator) :
    PqcStatus × Memory × BufferedAggregator :=
  if ¬b.active then (.errInvalidState, pad, b)
  else
    let seed := kemAdapterDeriveStreamMaskSeed kdf g pad.read32 clientId roundId 0
    -- the derivation wipes the crypto workspace
    let pad := pad.zeroize Scratchpad.cryptoWs cryptoWorkspaceBytes
    let words := Bytes.int16sLE (prg seed (b.modelSize.toNat * 2)).val
    let mask := b.maskBuffer.overwrite b.modelSize fun i => Int16.ofInt (words.getD i 0)
    (.success, pad.zeroize 0 mlkemWorkspaceBytes, { b with maskBuffer := mask })

/-- `baseline_buffered_apply_mask`: the status and what is written to `output`. -/
def baselineBufferedApplyMask (b : BufferedAggregator) : PqcStatus × Option (List Int16) :=
  if ¬b.active then (.errInvalidArgument, none)
  else
    (.success, some ((List.range b.modelSize.toNat).map fun i =>
      Int16.ofInt (((b.fullModelBuffer i).toInt + (b.maskBuffer i).toInt).tmod 3329)))

/-- `baseline_buffered_aggregate`. The sum is formed in 64 bits, which hold it. -/
def baselineBufferedAggregate (b : BufferedAggregator) (clientUpdate : Int16Buffer)
    (weight : UInt32) : PqcStatus × BufferedAggregator :=
  if ¬b.active then (.errInvalidArgument, b)
  else
    let aggregated := b.aggregatedBuffer.overwrite b.modelSize fun i =>
      let val := (b.aggregatedBuffer i).toInt + (clientUpdate i).toInt * weight.toNat
      Int16.ofInt (val.tmod 3329)
    (.success, { b with aggregatedBuffer := aggregated })

/-- `baseline_buffered_finalize`. The weight is unsigned, so the element is converted to `uint32_t`
    before it is divided. -/
def baselineBufferedFinalize (b : BufferedAggregator) (totalWeight : UInt32) :
    PqcStatus × BufferedAggregator :=
  if ¬b.active ∨ totalWeight = 0 then (.errInvalidArgument, b)
  else
    let aggregated := b.aggregatedBuffer.overwrite b.modelSize fun i =>
      let quotient := (b.aggregatedBuffer i).toInt32.toUInt32 / totalWeight
      Int16.ofInt (quotient % 3329).toNat
    (.success, { b with aggregatedBuffer := aggregated })

/-- `baseline_buffered_get_result`: the status and what is written to `output`. -/
def baselineBufferedGetResult (b : BufferedAggregator) : PqcStatus × Option (List Int16) :=
  if ¬b.active then (.errInvalidArgument, none)
  else (.success, some ((List.range b.modelSize.toNat).map b.aggregatedBuffer))

/-- `baseline_buffered_zeroize`. -/
def baselineBufferedZeroize (b : BufferedAggregator) : BufferedAggregator :=
  { b with
    fullModelBuffer := fun _ => 0
    maskBuffer := fun _ => 0
    aggregatedBuffer := fun _ => 0
    active := false }

end BufferedAggregator

/-- A call of `baseline_buffered_aggregator.c`. -/
inductive BufferedCall where
  | init (modelElements : UInt32)
  | loadModel (model : Int16Buffer)
  | generateMask (g : KemGlobals) (clientId : UInt8) (roundId : UInt32) (pad : Memory)
  | applyMask
  | aggregate (clientUpdate : Int16Buffer) (weight : UInt32)
  | finalize (totalWeight : UInt32)
  | getResult
  | zeroize

namespace BufferedAggregator

/-- The static variables after a call. -/
def step (kdf : Kdf) (prg : MaskPrg) (b : BufferedAggregator) : BufferedCall → BufferedAggregator
  | .init modelElements => (b.baselineBufferedInit modelElements).2
  | .loadModel model => (b.baselineBufferedLoadModel model).2
  | .generateMask g clientId roundId pad =>
    (baselineBufferedGenerateMask kdf prg g clientId roundId pad b).2.2
  | .applyMask => b
  | .aggregate clientUpdate weight => (b.baselineBufferedAggregate clientUpdate weight).2
  | .finalize totalWeight => (b.baselineBufferedFinalize totalWeight).2
  | .getResult => b
  | .zeroize => b.baselineBufferedZeroize

/-- The static variables after a sequence of calls. -/
def run (kdf : Kdf) (prg : MaskPrg) (b : BufferedAggregator) (calls : List BufferedCall) :
    BufferedAggregator :=
  calls.foldl (step kdf prg) b

end BufferedAggregator

end SwiftAgg.Native
