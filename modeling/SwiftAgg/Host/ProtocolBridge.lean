import SwiftAgg.Host.Runs

/-!
# The protocol bridge

`ProtocolBridge` of `protocol_bridge.py` (the first side of its conflict
markers), which the Flower strategy is built on. Its methods are word for word
those of `ClassicalProtocolBridge`, except for the ones below: one function
averages the chunks where the other server unmasks and averages, Shamir shares
are taken, and two methods are dispatched to that the class does not have.
`_encapsulate` differs, too (Kyber768 in place of X25519): that of the bridge is
the one of the environment its handlers are given.
-/

namespace SwiftAgg.Host.ProtocolBridge

/-! ## Aggregation -/

/-- One chunk in the first loop of `_finalize_aggregation`. -/
def addReceivedChunk (numChunks chunkElements weight : Nat) (fedavgChunks : Dict Nat (List Int))
    (chunk : Nat × Bytes) : Except PyErr (Dict Nat (List Int)) :=
  if numChunks ≤ chunk.1 then .ok fedavgChunks
  else do
    let values ← unpackChunk chunkElements chunk.2
    match fedavgChunks.get? chunk.1 with
    | none => throw (.keyError chunk.1)
    | some row => return fedavgChunks.insert chunk.1 (← addChunk weight row values)

/-- One client in the first loop of `_finalize_aggregation`. -/
def addSurvivor (rs : RoundState) (numChunks : Nat) (fedavgChunks : Dict Nat (List Int))
    (client : Nat × ClientState) : Except PyErr (Dict Nat (List Int)) :=
  if client.1 ∈ rs.dropoutClients then .ok fedavgChunks
  else if client.2.completed then
    client.2.receivedChunks.entries.foldlM
      (addReceivedChunk numChunks rs.chunkSize client.2.weight) fedavgChunks
  else .ok fedavgChunks

/-- One dropped client in the second loop of `_finalize_aggregation`. The function it calls is
    imported inside `_trigger_recovery` only, so the call raises; what follows it is not reached. -/
def addDropout (rs : RoundState) (fedavgChunks : Dict Nat (List Int)) (dropoutId : Nat) :
    Except PyErr (Dict Nat (List Int)) :=
  match rs.clients.get? dropoutId with
  | none => .ok fedavgChunks
  | some dropoutState =>
    if truthy dropoutState.sharedSecret then .error (.nameError "recover_dropped_client_masks")
    else .ok fedavgChunks

/-- `total_samples` of `_finalize_aggregation`: all completed clients count, dropped ones too. -/
def totalSamples (rs : RoundState) : Nat :=
  let completed := rs.clients.values.filter ClientState.completed
  let total := ((completed.filter fun c => 0 < c.sampleCount).map ClientState.sampleCount).sum
  if total = 0 then completed.length else total

/-- `_finalize_aggregation`, up to its two assignments to the round. -/
def finalizeAggregation (rs : RoundState) : Except PyErr (Dict Nat (List Int)) := do
  let numChunks ← rs.numChunks
  let survivors ← rs.clients.entries.foldlM (addSurvivor rs numChunks)
    (zeroChunks numChunks rs.chunkSize)
  let sums ← rs.dropoutClients.foldlM (addDropout rs) survivors
  let total := totalSamples rs
  if 1 < total then
    let invTotal := modInv total
    return sums.mapValues fun _ row => row.map fun v => v * invTotal % fieldModulus
  else return sums

/-- `_unmask_and_aggregate`. -/
def unmaskAndAggregate (env : HostEnv) (roundId : Nat) : Server Unit := do
  setupKeysAndMasks env roundId
  runRecovery env roundId
  match ← getRound roundId with
  | none => return
  | some rs =>
    let fedavgChunks ← Coroutine.liftExcept (finalizeAggregation rs)
    modifyRound roundId fun rs =>
      { rs with unmaskedChunks := fedavgChunks, stage := .roundComplete }
    let telemetry ← Coroutine.liftExcept (packTelemetry rs.roundId)
    Coroutine.forPositions (fun s => s.clientWriters.entries.length) dictChanged fun i => do
      match (← Coroutine.state).clientWriters.entries[i]? with
      | some (_, writer) =>
        let numChunks ← Coroutine.liftExcept rs.numChunks
        (List.range numChunks).forM (sendChunk rs fedavgChunks telemetry writer)
      | none => return

/-- `_check_round_completion`. -/
def checkRoundCompletion (env : HostEnv) (roundId : Nat) : Server Unit := do
  match ← getRound roundId with
  | none => return
  | some rs =>
    let completed := rs.clients.values.countP ClientState.completed
    let surviving : Int := (rs.expectedClients : Int) - rs.dropoutClients.length
    if surviving ≤ completed ∧ (rs.threshold : Int) ≤ surviving then
      modifyRound roundId fun rs => { rs with stage := .unmasking }
      unmaskAndAggregate env roundId
    else if surviving < rs.threshold then
      modifyRound roundId fun rs => { rs with stage := .error }
      handleRoundFailure
    else return

/-! ## Handlers -/

theorem clientId_of_completed (sampleCount : ClientState → Nat) (c : ClientState) :
    { c with sampleCount := sampleCount c, completed := true }.clientId = c.clientId := rfl

/-- `_handle_client_complete`. -/
def handleClientComplete (env : HostEnv) (header : MessageHeader) (payload : Bytes) :
    Server Unit := do
  match ← getClient header.roundId header.clientId with
  | none => return
  | some _ =>
    let sampleCount (c : ClientState) : Nat :=
      match payload with
      | b₀ :: b₁ :: b₂ :: b₃ :: _ => 2 ^ 16 * Bytes.word16 b₁ b₀ + Bytes.word16 b₃ b₂
      | _ => c.sampleCount
    modifyClient header.roundId header.clientId
      (fun c => { c with sampleCount := sampleCount c, completed := true })
      (clientId_of_completed sampleCount)
    checkRoundCompletion env header.roundId

/-- `_handle_dropout_notify`. -/
def handleDropoutNotify (env : HostEnv) (header : MessageHeader) : Server Unit := do
  match ← getRound header.roundId with
  | none => return
  | some _ =>
    modifyRound header.roundId fun rs =>
      if header.clientId ∈ rs.dropoutClients then rs
      else { rs with dropoutClients := rs.dropoutClients ++ [header.clientId] }
    runRecovery env header.roundId
    checkRoundCompletion env header.roundId

/-- `_handle_shamir_share`; no function reads the shares. -/
def handleShamirShare (header : MessageHeader) (payload : Bytes) : Server Unit := do
  match ← getClient header.roundId header.clientId with
  | none => return
  | some _ =>
    modifyClient header.roundId header.clientId
      (fun c => { c with shamirShares := c.shamirShares ++ [payload] }) fun _ => rfl

/-- The exception of a call of a method that the class does not have. It is an `AttributeError`,
    and kept among the exceptions for unknown names here. -/
def missingMethod (name : String) : PyErr := .nameError name

/-- `_dispatch_message`. -/
def dispatchMessage (env : HostEnv) (header : MessageHeader) (payload : Bytes) (writer : Nat) :
    Server Unit :=
  if header.messageType = 0x01 then handlePublicKey header payload writer
  else if header.messageType = 0x21 then handleMaskChunk header payload
  else if header.messageType = 0x30 then handleClientComplete env header payload
  else if header.messageType = 0x31 then handleDropoutNotify env header
  else if header.messageType = 0x40 then handleRoundInit header payload
  else if header.messageType = 0x10 then Coroutine.raise (missingMethod "_handle_pairwise_pubkey")
  else if header.messageType = 0x11 then
    Coroutine.raise (missingMethod "_handle_pairwise_ciphertext")
  else if header.messageType = 0x32 then handleShamirShare header payload
  else return

/-! ## Runs -/

/-- The handler of a message that was just read. -/
def startTask (env : HostEnv) (m : Message) : Task :=
  ⟨m, dispatchMessage env m.header m.payload m.writer, [], none⟩

/-- A step of the event loop. -/
def step (env : HostEnv) (sys : System) : Event → System
  | .dispatch m =>
    if sys.tasks.any fun t => t.message.writer == m.writer then sys
    else System.turn { sys with state := { sys.state with closing := m.closing } } (startTask env m)
  | .resume i =>
    match sys.tasks[i]? with
    | some t => System.turn { sys with tasks := sys.tasks.eraseIdx i } t
    | none => sys
  | .close writers => { sys with state := { sys.state with closing := writers } }

/-- Any interleaving of the bridge's handlers. -/
def run (env : HostEnv) (sys : System) (events : List Event) : System :=
  events.foldl (step env) sys

end SwiftAgg.Host.ProtocolBridge
