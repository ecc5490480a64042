import SwiftAgg.Host.ShamirRecovery

/-!
# Rounds of the host server

The data classes of `baseline_server.py` and its methods that do not suspend:
recovery, unmasking and averaging. Dictionaries keep insertion order, and
`for` loops over them run in that order. Ids and round numbers come out of
message headers and are natural numbers.
-/

namespace SwiftAgg.Host

/-- `round_state.stage`. -/
inductive Stage where
  | init
  | maskSetup
  | unmasking
  | error
  | roundComplete
  deriving Repr, DecidableEq

/-- `ClientState` (its fields `round_id`, `expected_chunks` and `stream_seeds` are never read). The
    last one is the attribute `shamir_shares` that `ProtocolBridge` alone gives to a client. -/
structure ClientState where
  clientId : Nat
  publicKey : Option Bytes
  sharedSecret : Option Bytes
  receivedChunks : Dict Nat Bytes
  completed : Bool
  pairwiseSeeds : Dict Nat Bytes
  sampleCount : Nat
  shamirShares : List Bytes

/-- `ClientState(client_id=..., round_id=...)`. -/
def ClientState.new (clientId : Nat) : ClientState where
  clientId := clientId
  publicKey := none
  sharedSecret := none
  receivedChunks := .empty
  completed := false
  pairwiseSeeds := .empty
  sampleCount := 0
  shamirShares := []

/-- Truth value of an optional byte string: present and not empty. -/
def truthy (b : Option Bytes) : Bool := b.any fun b => !b.isEmpty

/-- `RoundState`. Every client is registered under its own id. -/
structure RoundState where
  roundId : Nat
  expectedClients : Nat
  threshold : Nat
  chunkSize : Nat
  modelSize : Nat
  clients : Dict Nat ClientState
  stage : Stage
  dropoutClients : List Nat
  unmaskedChunks : Dict Nat (List Int)
  registered : ∀ id c, clients.get? id = some c → c.clientId = id

/-- `RoundState(round_id=..., ...)`. -/
def RoundState.new (roundId expectedClients threshold chunkSize modelSize : Nat) : RoundState where
  roundId := roundId
  expectedClients := expectedClients
  threshold := threshold
  chunkSize := chunkSize
  modelSize := modelSize
  clients := .empty
  stage := .init
  dropoutClients := []
  unmaskedChunks := .empty
  registered := by simp

/-- Change the fields of one client, its id apart. -/
def RoundState.updateClient (rs : RoundState) (id : Nat) (f : ClientState → ClientState)
    (hf : ∀ c, (f c).clientId = c.clientId) : RoundState :=
  { rs with
    clients := rs.clients.modify id f
    registered := by
      intro id' c hc
      rw [Dict.get?_modify] at hc
      split at hc
      · obtain ⟨c₀, hc₀, rfl⟩ := Option.map_eq_some_iff.mp hc
        rw [hf, rs.registered id' c₀ hc₀]
      · exact rs.registered id' c hc }

/-- `round_state.clients[id] = ClientState(...)`. -/
def RoundState.addClient (rs : RoundState) (id : Nat) : RoundState :=
  { rs with
    clients := rs.clients.insert id (.new id)
    registered := by
      intro id' c hc
      rw [Dict.get?_insert] at hc
      split at hc
      · rename_i heq
        cases hc
        exact heq.symm
      · exact rs.registered id' c hc }

theorem ClientState.clientId_with_sharedSecret (secret : Bytes) (c : ClientState) :
    { c with sharedSecret := some secret }.clientId = c.clientId := rfl

/-- `round_state.clients[id].shared_secret = secret`. -/
def RoundState.setSharedSecret (rs : RoundState) (id : Nat) (secret : Bytes) : RoundState :=
  rs.updateClient id (fun c => { c with sharedSecret := some secret })
    (ClientState.clientId_with_sharedSecret secret)

/-- `round_state.model_size // round_state.chunk_size`. -/
def RoundState.numChunks (rs : RoundState) : Except PyErr Nat :=
  if rs.chunkSize = 0 then .error .zeroDivisionError else .ok (rs.modelSize / rs.chunkSize)

/-! ## Recovery -/

/-- One client in the share loop of `_trigger_recovery`. -/
def addShare (hmac : Hmac) (roundId dropoutId : Nat) (shares : List (Int × Bytes))
    (client : Nat × ClientState) : Except PyErr (List (Int × Bytes)) :=
  -- the dropped client has no share of its own secret
  if client.1 = dropoutId then .ok shares
  else
    match client.2.sharedSecret with
    | some secret =>
      if truthy (some secret) then do
        let shamirSecret ← deriveShamirSecret hmac secret dropoutId roundId
        return shares ++ [((client.1 : Int), shamirSecret)]
      else .ok shares
    | none => .ok shares

/-- The shares `_trigger_recovery` collects for a dropped client. -/
def collectShares (hmac : Hmac) (rs : RoundState) (dropoutId : Nat) :
    Except PyErr (List (Int × Bytes)) :=
  rs.clients.entries.foldlM (addShare hmac rs.roundId dropoutId) []

/-- One round of the loop of `_trigger_recovery`. -/
def recoverDropout (hmac : Hmac) (rs : RoundState) (dropoutId : Nat) : Except PyErr RoundState := do
  let shares ← collectShares hmac rs dropoutId
  -- with too few shares the client is skipped and the loop goes on
  if rs.threshold ≤ shares.length then
    let recovered ← reconstructSecretBytes shares
    -- the assignment looks the client up again, so an unknown one raises
    if rs.clients.contains dropoutId then return rs.setSharedSecret dropoutId recovered
    else throw (.keyError dropoutId)
  else return rs

/-- The loop of `_trigger_recovery`: what was changed before an exception stays. -/
def recoverDropouts (hmac : Hmac) : List Nat → RoundState → Option PyErr × RoundState
  | [], rs => (none, rs)
  | dropoutId :: rest, rs =>
    match recoverDropout hmac rs dropoutId with
    | .error e => (some e, rs)
    | .ok rs' => recoverDropouts hmac rest rs'

/-- `_trigger_recovery`. -/
def triggerRecovery (hmac : Hmac) (rs : RoundState) : Option PyErr × RoundState :=
  recoverDropouts hmac rs.dropoutClients rs

/-! ## Unmasking -/

/-- `struct.unpack(f">{n}h", data)`. -/
def unpackChunk (n : Nat) (data : Bytes) : Except PyErr (List Int) :=
  if data.length = 2 * n then .ok (Bytes.int16sBE data) else .error .structError

/-- Packed values are unpacked again. -/
theorem unpackChunk_packInt16BE {n : Nat} {values : List Int} (hlen : values.length = n)
    (hvalues : ∀ v ∈ values, -2 ^ 15 ≤ v ∧ v < 2 ^ 15) :
    unpackChunk n (Bytes.packInt16BE values) = .ok values := by
  rw [unpackChunk, if_pos (by rw [Bytes.length_packInt16BE, hlen]),
    Bytes.int16sBE_packInt16BE hvalues]

/-- One chunk in the loops of `_unmask_client_chunks`: an index from `numChunks` on is skipped. -/
def unmaskChunk (numChunks : Nat) (f : Nat → Bytes → Except PyErr (List Int))
    (unmasked : Dict Nat (List Int)) (chunk : Nat × Bytes) : Except PyErr (Dict Nat (List Int)) :=
  if numChunks ≤ chunk.1 then .ok unmasked
  else do return unmasked.insert chunk.1 (← f chunk.1 chunk.2)

/-- The chunks of one client, each turned into values by `f`. -/
def unmaskChunks (numChunks : Nat) (f : Nat → Bytes → Except PyErr (List Int))
    (received : Dict Nat Bytes) : Except PyErr (Dict Nat (List Int)) :=
  received.entries.foldlM (unmaskChunk numChunks f) .empty

/-- The values of a dropped client's chunk: `(values[i] + recovered_masks[seq_num][i]) % 3329`. -/
def unmaskDropoutChunk (n : Nat) (recoveredMasks : Dict Nat (List Int)) (seqNum : Nat)
    (data : Bytes) : Except PyErr (List Int) := do
  let values ← unpackChunk n data
  -- without elements the mask is never looked up
  if n = 0 then return []
  match recoveredMasks.get? seqNum with
  | none => throw (.keyError seqNum)
  | some mask =>
    if mask.length < n then throw .indexError
    else return List.zipWith (fun v m => (v + m) % fieldModulus) values mask

/-- One client in the first loop of `_unmask_client_chunks`. -/
def unmaskSurvivor (rs : RoundState) (numChunks : Nat) (unmasked : Dict Nat (Dict Nat (List Int)))
    (client : Nat × ClientState) : Except PyErr (Dict Nat (Dict Nat (List Int))) :=
  if client.1 ∈ rs.dropoutClients then .ok unmasked
  else do
    let chunks ← unmaskChunks numChunks (fun _ => unpackChunk rs.chunkSize)
      client.2.receivedChunks
    return unmasked.insert client.1 chunks

/-- The chunks of a dropped client, with its masks recovered from its secret. -/
def unmaskDropoutChunks (hmac : Hmac) (aes : AesCtr) (rs : RoundState) (numChunks : Nat)
    (dropoutId : Nat) (dropoutState : ClientState) (secret : Bytes) :
    Except PyErr (Dict Nat (List Int)) := do
  -- all registered peers, dropped ones too
  let allPeerIds := rs.clients.keys.filter (· ≠ dropoutId)
  let recoveredMasks ← recoverDroppedClientMasks hmac aes secret rs.roundId allPeerIds dropoutId
    numChunks rs.chunkSize
  unmaskChunks numChunks (unmaskDropoutChunk rs.chunkSize recoveredMasks)
    dropoutState.receivedChunks

/-- One dropped client in the second loop of `_unmask_client_chunks`. -/
def unmaskDropout (hmac : Hmac) (aes : AesCtr) (rs : RoundState) (numChunks : Nat)
    (unmasked : Dict Nat (Dict Nat (List Int))) (dropoutId : Nat) :
    Except PyErr (Dict Nat (Dict Nat (List Int))) :=
  match rs.clients.get? dropoutId with
  | none => .ok unmasked
  | some dropoutState =>
    match dropoutState.sharedSecret with
    | none => .ok unmasked
    | some secret =>
      if truthy (some secret) then do
        let chunks ← unmaskDropoutChunks hmac aes rs numChunks dropoutId dropoutState secret
        return unmasked.insert dropoutId chunks
      else .ok unmasked

/-- `_unmask_client_chunks`. -/
def unmaskClientChunks (hmac : Hmac) (aes : AesCtr) (rs : RoundState) :
    Except PyErr (Dict Nat (Dict Nat (List Int))) := do
  let numChunks ← rs.numChunks
  let survivors ← rs.clients.entries.foldlM (unmaskSurvivor rs numChunks) .empty
  rs.dropoutClients.foldlM (unmaskDropout hmac aes rs numChunks) survivors

/-! ## Averaging -/

/-- The normaliser of `_compute_fedavg`. -/
def totalSamples (rs : RoundState) (clientUnmasked : Dict Nat (Dict Nat (List Int))) : Nat :=
  let counted := rs.clients.values.filter fun c => c.completed && clientUnmasked.contains c.clientId
  let total := ((counted.filter fun c => 0 < c.sampleCount).map ClientState.sampleCount).sum
  -- without any sample count every client counts once
  if total = 0 then counted.length else total

/-- The weight of a client in `_compute_fedavg`. -/
def ClientState.weight (c : ClientState) : Nat := if 0 < c.sampleCount then c.sampleCount else 1

/-- Add the values of one chunk to its row, position by position. -/
def addChunk (weight : Nat) (row values : List Int) : Except PyErr (List Int) :=
  -- `fedavg_chunks[seq_num][i]` is indexed by the positions of `values`
  if row.length < values.length then .error .indexError
  else
    .ok (List.zipWith (fun acc val => (acc + val * weight) % fieldModulus) row values ++
      row.drop values.length)

/-- One chunk of a client in the loop of `_compute_fedavg`. -/
def addSeqChunk (weight : Nat) (chunks fedavgChunks : Dict Nat (List Int)) (seqNum : Nat) :
    Except PyErr (Dict Nat (List Int)) :=
  match chunks.get? seqNum with
  | none => .ok fedavgChunks
  | some values =>
    match fedavgChunks.get? seqNum with
    | none => .error (.keyError seqNum)
    | some row => do return fedavgChunks.insert seqNum (← addChunk weight row values)

/-- One client in the loop of `_compute_fedavg`. -/
def addClient (rs : RoundState) (numChunks : Nat) (fedavgChunks : Dict Nat (List Int))
    (client : Nat × Dict Nat (List Int)) : Except PyErr (Dict Nat (List Int)) :=
  match rs.clients.get? client.1 with
  | none => .ok fedavgChunks
  | some clientState =>
    -- a client that has not completed adds nothing, although it was unmasked
    if clientState.completed then
      (List.range numChunks).foldlM (addSeqChunk clientState.weight client.2) fedavgChunks
    else .ok fedavgChunks

/-- `fedavg_chunks` before the clients are added. -/
def zeroChunks (numChunks chunkElements : Nat) : Dict Nat (List Int) :=
  (List.range numChunks).foldl
    (fun chunks i => chunks.insert i (List.replicate chunkElements 0)) .empty

/-- `_compute_fedavg`. -/
def computeFedavg (rs : RoundState) (clientUnmasked : Dict Nat (Dict Nat (List Int))) :
    Except PyErr (Dict Nat (List Int)) := do
  let total := totalSamples rs clientUnmasked
  let numChunks ← rs.numChunks
  let sums ← clientUnmasked.entries.foldlM (addClient rs numChunks)
    (zeroChunks numChunks rs.chunkSize)
  -- the inverse of 1 is left out
  if 1 < total then
    let invTotal := modInv total
    return sums.mapValues fun _ row => row.map fun v => v * invTotal % fieldModulus
  else return sums

end SwiftAgg.Host
