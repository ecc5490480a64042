import SwiftAgg.ForStd.PaddedChunks
import SwiftAgg.Host.BaselineServer
import SwiftAgg.Host.NdArray

/-!
# The Flower strategy

`ChunkedFedAvg` of `flower_server.py`: it announces a round to all connected
clients, cuts models into chunks of 16-bit words and averages the chunks of
the results in the field. The modulus is the default of the constructor, which
no caller changes. Of the announcement only the message is modelled; the loop
that writes it to every writer of the bridge does not look at it. The updates
that `process_chunked_update` collects are not averaged by anyone.
-/

namespace SwiftAgg.Host

/-! ## Messages -/

/-- The payload of `_send_round_init`; the threshold is always 2. -/
def roundInitPayload (numClients chunkSize modelSize : Nat) : Except PyErr Bytes := do
  let counts ← bytesOf [numClients, 2]
  if chunkSize < 2 ^ 16 ∧ modelSize < 2 ^ 32 then
    return counts ++ Bytes.be16 chunkSize ++ Bytes.be32 modelSize
  else throw .structError

/-- What `_send_round_init` writes to every client; the model size is given in bytes. -/
def sendRoundInit (chunkSize currentRound numClients numChunks : Nat) : Except PyErr Bytes := do
  let payload ← roundInitPayload numClients chunkSize (numChunks * chunkSize * 2)
  return (← buildHeader 0x40 currentRound 0 0 payload.length) ++ payload

/-! ## Models and chunks -/

/-- `_model_to_chunks`. -/
def modelToChunks (chunkSize : Nat) (ndarrays : List NdArray) : Except PyErr (Dict Nat Bytes) :=
  if ndarrays = [] then .error (.valueError "need at least one array to concatenate")
  else
    let flat := (ndarrays.flatMap NdArray.entries).map DType.int16.cast
    if chunkSize = 0 then .error .zeroDivisionError
    else
      let numChunks := (flat.length + chunkSize - 1) / chunkSize
      (List.range numChunks).foldlM (fun chunks i => do
        return chunks.insert i (← packChunk chunkSize (flat.paddedChunk 0 chunkSize i))) .empty

/-- `all_elements` of `_chunks_to_model`. -/
def chunkElements (chunkSize : Nat) (chunks : Dict Nat Bytes) : Except PyErr (List Int) :=
  (List.range chunks.entries.length).foldlM (fun allElements i =>
    match chunks.get? i with
    | none => .ok allElements
    | some data => do return allElements ++ (← unpackChunk chunkSize data)) []

/-- The loop of `_chunks_to_model` over the reference arrays. -/
def sliceModel (flat : List Int) : (offset : Nat) → List NdArray → Except PyErr (List NdArray)
  | _, [] => .ok []
  | offset, ref :: refs => do
    let arr ← ref.reshapeLike ((flat.drop offset).take ref.size)
    return arr :: (← sliceModel flat (offset + ref.size) refs)

/-- `_chunks_to_model`. -/
def chunksToModel (chunkSize : Nat) (chunks : Dict Nat Bytes) (referenceNdarrays : List NdArray) :
    Except PyErr (List NdArray) := do
  sliceModel (← chunkElements chunkSize chunks) 0 referenceNdarrays

/-! ## Averaging -/

/-- The fields of the strategy that `configure_fit` and `aggregate_fit` use. -/
structure ChunkedFedAvg where
  chunkSize : Nat
  currentRound : Nat
  clientSamples : Dict Nat Nat
  expectedChunks : Dict Nat Nat

/-- `configure_fit`; the choice of clients is left to the base class. -/
def configureFit (st : ChunkedFedAvg) (serverRound : Nat) : ChunkedFedAvg :=
  { st with currentRound := serverRound, clientSamples := .empty, expectedChunks := .empty }

/-- What `aggregate_fit` reads of a `FitRes`; the parameters as arrays. -/
structure FitRes where
  numExamples : Nat
  parameters : List NdArray

/-- The first loop of `aggregate_fit`: the sample counts, stored under themselves. -/
def countSamples (clientSamples : Dict Nat Nat) (results : List FitRes) : Dict Nat Nat :=
  results.foldl (fun samples res => samples.insert res.numExamples res.numExamples) clientSamples

/-- One chunk of a result in the second loop of `aggregate_fit`. -/
def addFitChunk (chunkSize weight : Nat) (aggregatedChunks : Dict Nat (List Int))
    (chunk : Nat × Bytes) : Except PyErr (Dict Nat (List Int)) := do
  let values ← unpackChunk chunkSize chunk.2
  match aggregatedChunks.get? chunk.1 with
  | none => throw (.keyError chunk.1)
  | some row => return aggregatedChunks.insert chunk.1 (← addChunk weight row values)

/-- One result in the second loop of `aggregate_fit`. -/
def addFitRes (chunkSize : Nat) (aggregatedChunks : Dict Nat (List Int)) (res : FitRes) :
    Except PyErr (Dict Nat (List Int)) := do
  let clientChunks ← modelToChunks chunkSize res.parameters
  clientChunks.entries.foldlM (addFitChunk chunkSize res.numExamples) aggregatedChunks

/-- `aggregated_chunks` of `aggregate_fit`: the weighted sums, divided by the total weight. -/
def aggregateChunks (chunkSize : Nat) (clientSamples : Dict Nat Nat) (numChunks : Nat)
    (results : List FitRes) : Except PyErr (Dict Nat (List Int)) := do
  let sums ← results.foldlM (addFitRes chunkSize) (zeroChunks numChunks chunkSize)
  let totalWeight := clientSamples.values.sum
  if 0 < totalWeight then
    let invTotal := modInv totalWeight
    return sums.mapValues fun _ row => row.map fun v => v * invTotal % fieldModulus
  else return sums

/-- `aggregate_fit`: the aggregated arrays and `num_clients`, or nothing without results. What was
    written to the fields stays written if it raises. -/
def aggregateFit (st : ChunkedFedAvg) (results : List FitRes) :
    Except PyErr (Option (List NdArray × Nat)) × ChunkedFedAvg :=
  match results with
  | [] => (.ok none, st)
  | first :: _ =>
    let counted := { st with clientSamples := countSamples st.clientSamples results }
    match modelToChunks st.chunkSize first.parameters with
    | .error e => (.error e, counted)
    | .ok modelChunks =>
      let numChunks := modelChunks.entries.length
      (do
        let _ ← sendRoundInit st.chunkSize st.currentRound results.length numChunks
        let aggregated ← aggregateChunks st.chunkSize counted.clientSamples numChunks results
        let packed ← aggregated.entries.foldlM (fun chunks row => do
          return chunks.insert row.1 (← packChunk st.chunkSize row.2)) .empty
        let arrays ← chunksToModel st.chunkSize packed first.parameters
        return some (arrays, results.length),
        { counted with expectedChunks := counted.clientSamples.mapValues fun _ _ => numChunks })

end SwiftAgg.Host
