import SwiftAgg.Host.RoundState
import SwiftAgg.ForStd.Coroutine

/-!
# The message handlers of the host server

`ClassicalProtocolBridge` of `baseline_server.py`, from `_dispatch_message` on.
A method that awaits is a coroutine over the server's state; the only points
where it suspends are the `await writer.drain()` after a write. A handler holds
a reference to its round, which is never replaced, so it looks the round up
under its number. Key encapsulation is a parameter that may raise, numbered by
the calls made before.
-/

namespace SwiftAgg.Host

/-- `MessageHeader`, its version and reserved fields apart. -/
structure MessageHeader where
  roundId : Nat
  clientId : Nat
  messageType : Nat
  sequenceNumber : Nat
  payloadLength : Nat
  deriving Repr, DecidableEq

/-- What the server is linked with: HMAC-SHA256, the AES-CTR keystream, and `_encapsulate` by the
    number of the call, giving a ciphertext and a shared secret. -/
structure HostEnv where
  hmac : Hmac
  aes : AesCtr
  encapsulate : (call : Nat) → (pubkey : Bytes) → Except PyErr (Bytes × Bytes)

/-- The attributes of `ClassicalProtocolBridge`; a writer is the number of its connection. `closing`
    are the connections that are being closed, `sent` is what was written to the writers. -/
structure ServerState where
  rounds : Dict Nat RoundState
  currentRoundId : Nat
  clientWriters : Dict Nat Nat
  closing : List Nat
  sent : List (Nat × Bytes)
  encapsulations : Nat

/-- `ClassicalProtocolBridge()`. -/
def ServerState.new : ServerState where
  rounds := .empty
  currentRoundId := 0
  clientWriters := .empty
  closing := []
  sent := []
  encapsulations := 0

/-- A method of the server. -/
abbrev Server := Coroutine PyErr ServerState

/-- `self.rounds.get(round_id)`. -/
def getRound (roundId : Nat) : Server (Option RoundState) := do
  return (← Coroutine.state).rounds.get? roundId

/-- Assign to the attributes of a round. -/
def modifyRound (roundId : Nat) (f : RoundState → RoundState) : Server Unit :=
  Coroutine.update fun s => { s with rounds := s.rounds.modify roundId f }

/-- Assign to the attributes of a client of a round, its id apart. -/
def modifyClient (roundId clientId : Nat) (f : ClientState → ClientState)
    (hf : ∀ c, (f c).clientId = c.clientId) : Server Unit :=
  modifyRound roundId fun rs => rs.updateClient clientId f hf

/-- The attributes of a client of a round, as they are now. -/
def getClient (roundId clientId : Nat) : Server (Option ClientState) := do
  return (← getRound roundId).bind fun rs => rs.clients.get? clientId

/-! ## Messages -/

/-- `_build_header`: `struct.pack(">IIBBHHH", ...)` raises for a field out of range. -/
def buildHeader (messageType roundId clientId sequenceNumber payloadLength : Nat) :
    Except PyErr Bytes :=
  if roundId < 2 ^ 32 ∧ clientId < 2 ^ 8 ∧ messageType < 2 ^ 8 ∧ sequenceNumber < 2 ^ 16 ∧
      payloadLength < 2 ^ 16 then
    .ok (Bytes.be32 0x00010000 ++ Bytes.be32 roundId ++
      [UInt8.ofNat clientId, UInt8.ofNat messageType] ++ Bytes.be16 sequenceNumber ++
      Bytes.be16 payloadLength ++ Bytes.be16 0)
  else .error .structError

/-- `await writer.drain()`: if the connection is being closed when the handler goes on, it
    raises. -/
def drain (writer : Nat) : Server Unit := do
  Coroutine.suspend
  if writer ∈ (← Coroutine.state).closing then Coroutine.raise .connectionResetError else return

/-- `writer.write(data)` followed by `await writer.drain()`. -/
def writeAndDrain (writer : Nat) (data : Bytes) : Server Unit := do
  Coroutine.update fun s => { s with sent := s.sent ++ [(writer, data)] }
  drain writer

/-- `struct.pack(f">{n}h", *values)`. -/
def packChunk (n : Nat) (values : List Int) : Except PyErr Bytes :=
  if values.length = n ∧ ∀ v ∈ values, -2 ^ 15 ≤ v ∧ v < 2 ^ 15 then .ok (Bytes.packInt16BE values)
  else .error .structError

/-- `_pack_telemetry` of `_collect_telemetry`: the round number, thirteen zero counters and the
    flags. The other entries of the record are not packed. -/
def packTelemetry (roundId : Nat) : Except PyErr Bytes :=
  if roundId < 2 ^ 32 then .ok (Bytes.be32 roundId ++ List.replicate 52 0 ++ [0, 1, 255, 0])
  else .error .structError

/-! ## Key and mask setup -/

/-- The block of `_setup_keys_and_masks` and `_orchestrate_pairwise_kem` that gives a client a
    shared secret and sends it the ciphertext. -/
def encapsulateFor (env : HostEnv) (roundId clientId : Nat) (publicKey : Bytes) : Server Unit := do
  let call := (← Coroutine.state).encapsulations
  Coroutine.update fun s => { s with encapsulations := call + 1 }
  -- the secret is stored before the ciphertext is sent
  let (ct, ss) ← Coroutine.liftExcept (env.encapsulate call publicKey)
  modifyClient roundId clientId (fun c => { c with sharedSecret := some ss })
    (ClientState.clientId_with_sharedSecret ss)
  let header ← Coroutine.liftExcept (buildHeader 0x02 roundId 0 0 ct.length)
  match (← Coroutine.state).clientWriters.get? clientId with
  | some writer => writeAndDrain writer (header ++ ct)
  | none => return

/-- `if not state.shared_secret: ...` with a public key that was found present. -/
def encapsulateUnlessShared (env : HostEnv) (roundId clientId : Nat) : Server Unit := do
  match ← getClient roundId clientId with
  | none => Coroutine.raise (.keyError clientId)
  | some c =>
    if truthy c.sharedSecret then return
    else encapsulateFor env roundId clientId (c.publicKey.getD [])

/-- The pairs `(ids[i], ids[j])` with `i < j`, in the order of the nested loops. -/
def idPairs : List Nat → List (Nat × Nat)
  | [] => []
  | a :: rest => rest.map (fun b => (a, b)) ++ idPairs rest

/-- One pair of the second loop of `_setup_keys_and_masks`. -/
def setupPair (env : HostEnv) (roundId : Nat) (pair : Nat × Nat) : Server Unit := do
  match ← getClient roundId pair.1, ← getClient roundId pair.2 with
  | some a, some b =>
    if truthy a.sharedSecret && truthy b.sharedSecret then return
    else if truthy a.publicKey && truthy b.publicKey then
      encapsulateUnlessShared env roundId (min pair.1 pair.2)
      encapsulateUnlessShared env roundId (max pair.1 pair.2)
    else return
  | none, _ => Coroutine.raise (.keyError pair.1)
  | _, none => Coroutine.raise (.keyError pair.2)

/-- `client.pairwise_seeds[peer_id] = seed`. -/
def setSeed (roundId clientId peerId : Nat) (seed : Bytes) : Server Unit :=
  modifyClient roundId clientId
    (fun c => { c with pairwiseSeeds := c.pairwiseSeeds.insert peerId seed }) fun _ => rfl

/-- One pair of `_orchestrate_pairwise_kem`. -/
def orchestratePair (env : HostEnv) (roundId : Nat) (pair : Nat × Nat) : Server Unit := do
  match ← getClient roundId pair.1, ← getClient roundId pair.2 with
  | some a, some b =>
    if !(truthy a.publicKey && truthy b.publicKey) then return
    else if truthy a.sharedSecret && truthy b.sharedSecret then return
    else
      let initiator := min pair.1 pair.2
      let responder := max pair.1 pair.2
      encapsulateUnlessShared env roundId initiator
      encapsulateUnlessShared env roundId responder
      match ← getClient roundId initiator, ← getClient roundId responder with
      | some i, some r =>
        if truthy i.sharedSecret && truthy r.sharedSecret then
          let seed ← Coroutine.liftExcept
            (derivePairwiseMaskSeed env.hmac (i.sharedSecret.getD []) initiator responder roundId)
          setSeed roundId initiator responder seed
          setSeed roundId responder initiator seed
        else return
      | none, _ => Coroutine.raise (.keyError initiator)
      | _, none => Coroutine.raise (.keyError responder)
  | none, _ => Coroutine.raise (.keyError pair.1)
  | _, none => Coroutine.raise (.keyError pair.2)

/-- `_orchestrate_pairwise_kem`. -/
def orchestratePairwiseKem (env : HostEnv) (roundId : Nat) : Server Unit := do
  let ids := ((← getRound roundId).map fun rs => rs.clients.keys).getD []
  (idPairs ids).forM (orchestratePair env roundId)

/-- One client of the last loop of `_setup_keys_and_masks`: its seeds with all peers. The loop does
    not suspend, so the clients are those of `rs`, the round under `roundId`. -/
def deriveSeeds (env : HostEnv) (roundId : Nat) (rs : RoundState) (client : Nat × ClientState) :
    Server Unit :=
  if truthy client.2.sharedSecret then
    rs.clients.entries.forM fun peer =>
      if peer.1 ≠ client.1 && truthy peer.2.sharedSecret then do
        let seed ← Coroutine.liftExcept (derivePairwiseMaskSeed env.hmac
          (client.2.sharedSecret.getD []) (min client.1 peer.1) (max client.1 peer.1) rs.roundId)
        setSeed roundId client.1 peer.1 seed
      else return
  else return

/-- The error of a dictionary that changed its size under a loop. -/
def dictChanged : PyErr := .runtimeError "dictionary changed size during iteration"

/-- `_setup_keys_and_masks`. -/
def setupKeysAndMasks (env : HostEnv) (roundId : Nat) : Server Unit := do
  -- the first loop runs over the live dictionary and suspends inside its body
  Coroutine.forPositions
    (fun s => ((s.rounds.get? roundId).map fun rs => rs.clients.entries.length).getD 0) dictChanged
    fun i => do
      match (← getRound roundId).bind fun rs => rs.clients.entries[i]? with
      | some (clientId, c) =>
        if truthy c.publicKey && !truthy c.sharedSecret then
          encapsulateFor env roundId clientId (c.publicKey.getD [])
        else return
      | none => return
  -- the loops over pairs run over `list(round_state.clients.keys())`
  let ids := ((← getRound roundId).map fun rs => rs.clients.keys).getD []
  (idPairs ids).forM (setupPair env roundId)
  orchestratePairwiseKem env roundId
  match ← getRound roundId with
  | some rs =>
    rs.clients.entries.forM (deriveSeeds env roundId rs)
    modifyRound roundId fun rs => { rs with stage := .maskSetup }
  | none => return

/-! ## Completion of a round -/

/-- `_trigger_recovery` as a method: what it changed before an exception stays. -/
def runRecovery (env : HostEnv) (roundId : Nat) : Server Unit := do
  match ← getRound roundId with
  | none => return
  | some rs =>
    let (raised, rs') := triggerRecovery env.hmac rs
    modifyRound roundId fun _ => rs'
    match raised with
    | some e => Coroutine.raise e
    | none => return

/-- The broadcast of one aggregated chunk to one writer. -/
def sendChunk (rs : RoundState) (fedavgChunks : Dict Nat (List Int)) (telemetry : Bytes)
    (writer seqNum : Nat) : Server Unit := do
  let values ← Coroutine.liftExcept
    ((fedavgChunks.get? seqNum).elim (.error (.keyError seqNum)) .ok)
  let result ← Coroutine.liftExcept (packChunk rs.chunkSize values)
  let header ← Coroutine.liftExcept
    (buildHeader 0x41 rs.roundId 0 seqNum (result.length + telemetry.length))
  writeAndDrain writer (header ++ result ++ telemetry)

/-- `_unmask_and_aggregate`. -/
def unmaskAndAggregate (env : HostEnv) (roundId : Nat) : Server Unit := do
  setupKeysAndMasks env roundId
  runRecovery env roundId
  match ← getRound roundId with
  | none => return
  | some rs =>
    let clientUnmasked ← Coroutine.liftExcept (unmaskClientChunks env.hmac env.aes rs)
    let fedavgChunks ← Coroutine.liftExcept (computeFedavg rs clientUnmasked)
    let numChunks ← Coroutine.liftExcept rs.numChunks
    -- looks for missing chunks among the rows of the result
    if (List.range numChunks).any fun seqNum => !fedavgChunks.contains seqNum then return
    else
      modifyRound roundId fun rs =>
        { rs with unmaskedChunks := fedavgChunks, stage := .roundComplete }
      let telemetry ← Coroutine.liftExcept (packTelemetry rs.roundId)
      -- the stage is set before the first write; the writers are those of all rounds
      Coroutine.forPositions (fun s => s.clientWriters.entries.length) dictChanged fun i => do
        match (← Coroutine.state).clientWriters.entries[i]? with
        | some (_, writer) =>
          (List.range numChunks).forM (sendChunk rs fedavgChunks telemetry writer)
        | none => return

/-- `_handle_round_failure`: the name `MSG_TYPE_ERROR` is not defined. -/
def handleRoundFailure : Server Unit :=
  Coroutine.forPositions (fun s => s.clientWriters.entries.length) dictChanged fun i => do
    let s ← Coroutine.state
    match s.clientWriters.entries[i]? with
    | some (_, writer) =>
      if writer ∈ s.closing then return else Coroutine.raise (.nameError "MSG_TYPE_ERROR")
    | none => return

/-- `_check_round_completion`; the number of survivors may be negative. -/
def checkRoundCompletion (env : HostEnv) (roundId : Nat) : Server Unit := do
  match ← getRound roundId with
  | none => return
  | some rs =>
    -- two counts are compared, not the sets of clients behind them
    let completed := rs.clients.values.countP ClientState.completed
    let surviving : Int := (rs.expectedClients : Int) - rs.dropoutClients.length
    if surviving ≤ completed ∧ (rs.threshold : Int) ≤ surviving then
      modifyRound roundId fun rs => { rs with stage := .unmasking }
      unmaskAndAggregate env roundId
    else if surviving < rs.threshold then
      modifyRound roundId fun rs => { rs with stage := .error }
      handleRoundFailure
    else return

/-! ## Handlers -/

/-- `_handle_round_init`. -/
def handleRoundInit (header : MessageHeader) (payload : Bytes) : Server Unit := do
  if (← Coroutine.state).rounds.contains header.roundId then return
  else
    match payload with
    | b₀ :: b₁ :: b₂ :: b₃ :: b₄ :: b₅ :: b₆ :: b₇ :: _ =>
      -- both sizes are read little-endian
      let modelSize := Bytes.word16 b₄ b₅ + 2 ^ 16 * Bytes.word16 b₆ b₇
      let rs := RoundState.new header.roundId b₀.toNat b₁.toNat (Bytes.word16 b₂ b₃) modelSize
      Coroutine.update fun s =>
        { s with rounds := s.rounds.insert header.roundId rs, currentRoundId := header.roundId }
    | _ => Coroutine.raise .indexError

/-- `_handle_public_key`. -/
def handlePublicKey (header : MessageHeader) (payload : Bytes) (writer : Nat) : Server Unit := do
  match ← getRound header.roundId with
  | none => return
  | some rs =>
    if !rs.clients.contains header.clientId then
      modifyRound header.roundId fun rs => rs.addClient header.clientId
    modifyClient header.roundId header.clientId
      (fun c => { c with publicKey := some payload }) fun _ => rfl
    Coroutine.update fun s =>
      { s with clientWriters := s.clientWriters.insert header.clientId writer }

/-- `_handle_pairwise_pubkey`. -/
def handlePairwisePubkey (header : MessageHeader) (payload : Bytes) (writer : Nat) :
    Server Unit := do
  match ← getClient header.roundId header.clientId with
  | none => return
  | some _ =>
    modifyClient header.roundId header.clientId
      (fun c => { c with publicKey := some payload }) fun _ => rfl
    Coroutine.update fun s =>
      { s with clientWriters := s.clientWriters.insert header.clientId writer }

/-- `_handle_pairwise_ciphertext`. -/
def handlePairwiseCiphertext (header : MessageHeader) (payload : Bytes) : Server Unit := do
  match ← getClient header.roundId header.clientId with
  | none => return
  | some _ =>
    if 32 ≤ payload.length then
      modifyClient header.roundId header.clientId
        (fun c => { c with sharedSecret := some (payload.take 32) }) fun _ => rfl
    else return

/-- `_handle_mask_chunk`. -/
def handleMaskChunk (header : MessageHeader) (payload : Bytes) : Server Unit := do
  match ← getRound header.roundId with
  | none => return
  | some rs =>
    if payload.length = rs.chunkSize * 2 then
      modifyClient header.roundId header.clientId
        (fun c => { c with
          receivedChunks := c.receivedChunks.insert header.sequenceNumber payload }) fun _ => rfl
    else return

/-- `_handle_client_complete`. -/
def handleClientComplete (env : HostEnv) (header : MessageHeader) (payload : Bytes) :
    Server Unit := do
  match ← getClient header.roundId header.clientId with
  | none => return
  | some _ =>
    let sampleCount (c : ClientState) : Nat :=
      match payload with
      | b₀ :: b₁ :: b₂ :: b₃ :: _ => 2 ^ 16 * Bytes.word16 b₁ b₀ + Bytes.word16 b₃ b₂
      -- a short payload leaves the count as it was
      | _ => c.sampleCount
    modifyClient header.roundId header.clientId
      (fun c => { c with sampleCount := sampleCount c, completed := true }) fun _ => rfl
    checkRoundCompletion env header.roundId

/-- `_handle_dropout_notify`. -/
def handleDropoutNotify (env : HostEnv) (header : MessageHeader) : Server Unit := do
  match ← getRound header.roundId with
  | none => return
  | some _ =>
    -- the id need not be that of a registered client
    modifyRound header.roundId fun rs =>
      if header.clientId ∈ rs.dropoutClients then rs
      else { rs with dropoutClients := rs.dropoutClients ++ [header.clientId] }
    runRecovery env header.roundId
    checkRoundCompletion env header.roundId

/-- `_dispatch_message`; messages of other types are ignored. -/
def dispatchMessage (env : HostEnv) (header : MessageHeader) (payload : Bytes) (writer : Nat) :
    Server Unit :=
  if header.messageType = 0x01 then handlePublicKey header payload writer
  else if header.messageType = 0x21 then handleMaskChunk header payload
  else if header.messageType = 0x30 then handleClientComplete env header payload
  else if header.messageType = 0x31 then handleDropoutNotify env header
  else if header.messageType = 0x40 then handleRoundInit header payload
  else if header.messageType = 0x10 then handlePairwisePubkey header payload writer
  else if header.messageType = 0x11 then handlePairwiseCiphertext header payload
  else return

end SwiftAgg.Host
