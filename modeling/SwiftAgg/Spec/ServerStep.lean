import SwiftAgg.ForStd.RelyGuarantee
import SwiftAgg.Host.Runs

/-!
# What the server's handlers write

Every assignment of a handler to the server's state is one of the writes listed
here; the handlers keep to them whatever happens while they are suspended. The
invariants of the server follow from the list, not from the handlers.

## Key results

- `dispatchMessage_follows`: every handler keeps to the writes of its round
- `unmaskAndAggregate_aggregateOnly`: aggregation changes secrets, seeds, stage and result only
-/

namespace SwiftAgg.Host

/-! ## Headers of written messages -/

/-- A header that was built is parsed to its fields. -/
theorem parseHeader_buildHeader {messageType roundId clientId seq len : Nat} {header : Bytes}
    (h : buildHeader messageType roundId clientId seq len = .ok header) (rest : Bytes) :
    parseHeader ((header ++ rest).take 16) = .ok ⟨roundId, clientId, messageType, seq, len⟩ := by
  unfold buildHeader at h
  split at h
  · rename_i hrange
    obtain ⟨hround, hclient, htype, hseq, hlen⟩ := hrange
    cases h
    -- the four bytes of the round number, as `_parse_header` puts them together
    have hwords : 2 ^ 16 * Bytes.word16 (UInt8.ofNat (roundId / 2 ^ 16))
        (UInt8.ofNat (roundId / 2 ^ 24)) +
        Bytes.word16 (UInt8.ofNat roundId) (UInt8.ofNat (roundId / 2 ^ 8)) = roundId := by
      have hdiv : roundId / 2 ^ 24 = roundId / 2 ^ 16 / 2 ^ 8 := by omega
      rw [hdiv, Bytes.word16_ofNat (by omega)]
      simp only [Bytes.word16, UInt8.toNat_ofNat']
      omega
    show Except.ok _ = _
    rw [hwords, Bytes.word16_ofNat hseq, Bytes.word16_ofNat hlen]
    have hclient' : (UInt8.ofNat clientId).toNat = clientId := UInt8.toNat_ofNat_of_lt hclient
    have htype' : (UInt8.ofNat messageType).toNat = messageType := UInt8.toNat_ofNat_of_lt htype
    rw [hclient', htype']
  · cases h

/-- A header that `_parse_header` can return. -/
def MessageHeader.Parsed (h : MessageHeader) : Prop := ∃ data, parseHeader data = .ok h

/-- These are the headers whose fields fit their bytes. -/
theorem MessageHeader.parsed_iff {h : MessageHeader} : h.Parsed ↔
    h.roundId < 2 ^ 32 ∧ h.clientId < 2 ^ 8 ∧ h.messageType < 2 ^ 8 ∧ h.sequenceNumber < 2 ^ 16 ∧
      h.payloadLength < 2 ^ 16 := by
  constructor
  · rintro ⟨data, hparse⟩
    unfold parseHeader at hparse
    split at hparse
    · rename_i r₀ r₁ r₂ r₃ clientId messageType s₀ s₁ l₀ l₁ _ _
      cases hparse
      have hbytes := fun b : UInt8 => b.toNat_lt
      simp only [Bytes.word16]
      refine ⟨?_, hbytes _, hbytes _, ?_, ?_⟩
      · have := hbytes r₀; have := hbytes r₁; have := hbytes r₂; have := hbytes r₃
        omega
      · have := hbytes s₀; have := hbytes s₁
        omega
      · have := hbytes l₀; have := hbytes l₁
        omega
    · cases hparse
  · -- such a header can be built, and is parsed to its fields
    intro hrange
    exact ⟨_, parseHeader_buildHeader (if_pos hrange) []⟩

instance (h : MessageHeader) : Decidable h.Parsed :=
  decidable_of_iff _ MessageHeader.parsed_iff.symm

/-- A message belongs to an aggregate by its header. -/
theorem aggregateSeq_buildHeader {messageType roundId clientId seq len : Nat} {header : Bytes}
    (h : buildHeader messageType roundId clientId seq len = .ok header) (rest : Bytes) (id : Nat) :
    aggregateSeq id (header ++ rest) =
      if messageType = 0x41 ∧ roundId = id then some seq else none := by
  rw [aggregateSeq, parseHeader_buildHeader h rest]

theorem aggregatesOf_concat (id : Nat) (sent : List (Nat × Bytes)) (writer : Nat) (data : Bytes) :
    aggregatesOf id (sent ++ [(writer, data)]) =
      aggregatesOf id sent ++ ((aggregateSeq id data).map fun seq => (writer, seq)).toList := by
  rw [aggregatesOf, aggregatesOf, List.filterMap_append]
  rfl

theorem aggregatesOf_append (id : Nat) (sent sent' : List (Nat × Bytes)) :
    aggregatesOf id (sent ++ sent') = aggregatesOf id sent ++ aggregatesOf id sent' :=
  List.filterMap_append

/-- A message that carries no aggregated chunk. -/
def KeyMessage (data : Bytes) : Prop := ∀ id, aggregateSeq id data = none

/-- A message that carries no aggregated chunk of another round. -/
def RoundMessage (roundId : Nat) (data : Bytes) : Prop :=
  ∀ id, id ≠ roundId → aggregateSeq id data = none

/-! ## Writes -/

/-- The number of clients that `_check_round_completion` waits for; it may be negative. -/
def RoundState.surviving (rs : RoundState) : Int :=
  (rs.expectedClients : Int) - rs.dropoutClients.length

/-- Enough clients survive. -/
def RoundState.Healthy (rs : RoundState) : Prop := (rs.threshold : Int) ≤ rs.surviving

/-- The condition under which `_check_round_completion` starts to unmask. -/
def RoundState.Unmasks (rs : RoundState) : Prop :=
  rs.surviving ≤ rs.clients.values.countP ClientState.completed ∧ rs.Healthy

instance (rs : RoundState) : Decidable rs.Healthy :=
  inferInstanceAs (Decidable ((rs.threshold : Int) ≤ rs.surviving))

instance (rs : RoundState) : Decidable rs.Unmasks :=
  inferInstanceAs (Decidable
    (rs.surviving ≤ rs.clients.values.countP ClientState.completed ∧ rs.Healthy))

/-- An assignment to the attributes of a client, in a round with chunks of `n` values. -/
inductive ClientWrite (n : Nat) : ClientState → ClientState → Prop
  | publicKey (c : ClientState) (key : Bytes) : ClientWrite n c { c with publicKey := some key }
  | sharedSecret (c : ClientState) (secret : Bytes) :
    ClientWrite n c { c with sharedSecret := some secret }
  | pairwiseSeed (c : ClientState) (peerId : Nat) (seed : Bytes) :
    ClientWrite n c { c with pairwiseSeeds := c.pairwiseSeeds.insert peerId seed }
  | chunk (c : ClientState) (seq : Nat) (data : Bytes) (h : data.length = n * 2) :
    ClientWrite n c { c with receivedChunks := c.receivedChunks.insert seq data }
  | complete (c : ClientState) (count : Nat) :
    ClientWrite n c { c with sampleCount := count, completed := true }
  | share (c : ClientState) (data : Bytes) :
    ClientWrite n c { c with shamirShares := c.shamirShares ++ [data] }

/-- An assignment to a round inside `_unmask_and_aggregate`. -/
inductive InternalWrite : RoundState → RoundState → Prop
  | secret (rs : RoundState) (id : Nat) (secret : Bytes) :
    InternalWrite rs (rs.setSharedSecret id secret)
  | seed (rs : RoundState) (id peerId : Nat) (seed : Bytes) :
    InternalWrite rs (rs.updateClient id
      (fun c => { c with pairwiseSeeds := c.pairwiseSeeds.insert peerId seed }) fun _ => rfl)
  | recovered (rs : RoundState) (secrets : List (Nat × Bytes)) :
    InternalWrite rs (secrets.foldl (fun rs p => rs.setSharedSecret p.1 p.2) rs)
  | maskSetup (rs : RoundState) : InternalWrite rs { rs with stage := .maskSetup }
  | complete (rs : RoundState) (chunks : Dict Nat (List Int)) :
    InternalWrite rs { rs with unmaskedChunks := chunks, stage := .roundComplete }

/-- An assignment to a round inside `_check_round_completion`. -/
inductive CompletionWrite : RoundState → RoundState → Prop
  | unmasking (rs : RoundState) (h : rs.Unmasks) :
    CompletionWrite rs { rs with stage := .unmasking }
  | failed (rs : RoundState) (h : ¬rs.Healthy) : CompletionWrite rs { rs with stage := .error }
  | internal {rs rs' : RoundState} (h : InternalWrite rs rs') : CompletionWrite rs rs'

/-- An assignment to a round. -/
inductive RoundWrite : RoundState → RoundState → Prop
  | refl (rs : RoundState) : RoundWrite rs rs
  | register (rs : RoundState) (id : Nat) (h : id ∉ rs.clients.keys) :
    RoundWrite rs (rs.addClient id)
  | client (rs : RoundState) (id : Nat) (f : ClientState → ClientState)
    (hf : ∀ c, (f c).clientId = c.clientId) (h : ∀ c, ClientWrite rs.chunkSize c (f c)) :
    RoundWrite rs (rs.updateClient id f hf)
  | dropout (rs : RoundState) (id : Nat) (h : id ∉ rs.dropoutClients) :
    RoundWrite rs { rs with dropoutClients := rs.dropoutClients ++ [id] }
  | completion {rs rs' : RoundState} (h : CompletionWrite rs rs') : RoundWrite rs rs'

/-- A write to the server's state that assigns to one round as `R` says, counts an encapsulation or
    sends a message as `S` says. -/
inductive ServerWrite (R : RoundState → RoundState → Prop) (S : Bytes → Prop) (roundId : Nat) :
    ServerState → ServerState → Prop
  | round (s : ServerState) (f : RoundState → RoundState)
    (h : ∀ rs, s.rounds.get? roundId = some rs → R rs (f rs)) :
    ServerWrite R S roundId s { s with rounds := s.rounds.modify roundId f }
  | encapsulated (s : ServerState) (n : Nat) :
    ServerWrite R S roundId s { s with encapsulations := n }
  | sent (s : ServerState) (writer : Nat) (data : Bytes) (h : S data) :
    ServerWrite R S roundId s { s with sent := s.sent ++ [(writer, data)] }

/-- A write of a handler of a message of a round. -/
inductive HandlerWrite (roundId : Nat) : ServerState → ServerState → Prop
  | write {s s' : ServerState} (h : ServerWrite RoundWrite (RoundMessage roundId) roundId s s') :
    HandlerWrite roundId s s'
  | created (s : ServerState) (expectedClients threshold chunkSize modelSize : Nat)
    (h : s.rounds.contains roundId = false) :
    HandlerWrite roundId s
      { s with
        rounds := s.rounds.insert roundId
          (.new roundId expectedClients threshold chunkSize modelSize)
        currentRoundId := roundId }
  | connected (s : ServerState) (id writer : Nat) :
    HandlerWrite roundId s { s with clientWriters := s.clientWriters.insert id writer }

section

variable {R R' : RoundState → RoundState → Prop} {S S' : Bytes → Prop} {roundId : Nat}
  {s s' : ServerState}

theorem ServerWrite.imp (h : ServerWrite R S roundId s s') (hR : ∀ rs rs', R rs rs' → R' rs rs')
    (hS : ∀ data, S data → S' data) : ServerWrite R' S' roundId s s' := by
  cases h with
  | round f h => exact .round s f fun rs hrs => hR _ _ (h rs hrs)
  | encapsulated n => exact .encapsulated s n
  | sent writer data h => exact .sent s writer data (hS data h)

/-- Assigning to a round that was just looked up. -/
theorem ServerWrite.round_of_get {rs : RoundState} {f : RoundState → RoundState}
    (hround : s.rounds.get? roundId = some rs) (hf : R rs (f rs)) :
    ServerWrite R S roundId s { s with rounds := s.rounds.modify roundId f } := by
  refine .round s f fun rs' hrs' => ?_
  obtain rfl : rs = rs' := Option.some.inj (hround.symm.trans hrs')
  exact hf

end

/-- Written messages stay written. -/
theorem ServerWrite.sent_chain {R : RoundState → RoundState → Prop} {S : Bytes → Prop}
    {roundId : Nat} {s s' : ServerState}
    (h : Relation.ReflTransGen (ServerWrite R S roundId) s s') :
    ∃ new, s'.sent = s.sent ++ new ∧ ∀ x ∈ new, S x.2 := by
  induction h with
  | refl => exact ⟨[], (List.append_nil _).symm, nofun⟩
  | tail _ hwrite ih =>
    obtain ⟨new, hsent, hnew⟩ := ih
    -- only a write to a client sends
    cases hwrite with
    | round f h => exact ⟨new, hsent, hnew⟩
    | encapsulated n => exact ⟨new, hsent, hnew⟩
    | sent writer data h =>
      refine ⟨new ++ [(writer, data)], by rw [hsent, List.append_assoc], fun x hx => ?_⟩
      rcases List.mem_append.mp hx with hx | hx
      · exact hnew x hx
      · cases List.mem_singleton.mp hx
        exact h

/-- The round after the notification is recorded. -/
def RoundState.recordDropout (rs : RoundState) (d : Nat) : RoundState :=
  if d ∈ rs.dropoutClients then rs else { rs with dropoutClients := rs.dropoutClients ++ [d] }

theorem advance_getRound_bind {α : Type} {s : ServerState} (roundId : Nat)
    (f : Option RoundState → Server α) :
    (getRound roundId >>= f).advance s = (f (s.rounds.get? roundId)).advance s := rfl

theorem advance_getClient_bind {α : Type} {s : ServerState} (roundId clientId : Nat)
    (f : Option ClientState → Server α) : (getClient roundId clientId >>= f).advance s =
      (f ((s.rounds.get? roundId).bind fun rs => rs.clients.get? clientId)).advance s := rfl

/-! ## Rounds keep their numbers -/

/-- Every round is stored under its own number. -/
def ServerState.Keyed (s : ServerState) : Prop :=
  ∀ id rs, s.rounds.get? id = some rs → rs.roundId = id

theorem ServerState.keyed_new : ServerState.new.Keyed := by
  intro id rs hrs
  cases hrs

theorem InternalWrite.roundId {rs rs' : RoundState} (h : InternalWrite rs rs') :
    rs'.roundId = rs.roundId := by
  cases h with
  | secret id secret => rfl
  | seed id peerId seed => rfl
  | recovered secrets =>
    induction secrets generalizing rs with
    | nil => rfl
    | cons p secrets ih => exact ih
  | maskSetup => rfl
  | complete chunks => rfl

theorem CompletionWrite.roundId {rs rs' : RoundState} (h : CompletionWrite rs rs') :
    rs'.roundId = rs.roundId := by
  cases h with
  | unmasking h => rfl
  | failed h => rfl
  | internal h => exact h.roundId

theorem RoundWrite.roundId {rs rs' : RoundState} (h : RoundWrite rs rs') :
    rs'.roundId = rs.roundId := by
  cases h with
  | refl => rfl
  | register id h => rfl
  | client id f hf h => rfl
  | dropout id h => rfl
  | completion h => exact h.roundId

theorem ServerWrite.keyed {R : RoundState → RoundState → Prop} {S : Bytes → Prop} {roundId : Nat}
    (hR : ∀ rs rs', R rs rs' → rs'.roundId = rs.roundId) (s s' : ServerState)
    (h : ServerWrite R S roundId s s') (hkeyed : s.Keyed) : s'.Keyed := by
  cases h with
  | round f h =>
    exact Dict.forall_modify hkeyed fun rs hrs => (hR _ _ (h rs hrs)).trans (hkeyed _ rs hrs)
  | encapsulated n => exact hkeyed
  | sent writer data h => exact hkeyed

theorem HandlerWrite.keyed {roundId : Nat} (s s' : ServerState) (h : HandlerWrite roundId s s')
    (hkeyed : s.Keyed) : s'.Keyed := by
  cases h with
  | write h => exact h.keyed (fun _ _ => RoundWrite.roundId) s s' hkeyed
  | connected id writer => exact hkeyed
  | created e t c m h => exact Dict.forall_insert hkeyed rfl

/-! ## Aggregation -/

theorem recoverDropout_ok {hmac : Hmac} {rs rs' : RoundState} {d : Nat}
    (h : recoverDropout hmac rs d = .ok rs') :
    rs' = rs ∨ ∃ secret, rs' = rs.setSharedSecret d secret := by
  unfold recoverDropout at h
  cases hshares : collectShares hmac rs d with
  | error e =>
    rw [hshares] at h
    cases h
  | ok shares =>
    rw [hshares] at h
    -- with too few shares nothing happens
    by_cases hthreshold : rs.threshold ≤ shares.length
    · cases hrec : reconstructSecretBytes shares with
      | error e =>
        simp only [bind, Except.bind, hthreshold, ↓reduceIte, hrec] at h
        cases h
      | ok secret =>
        simp only [bind, Except.bind, hthreshold, ↓reduceIte, hrec] at h
        split at h
        · cases h
          exact .inr ⟨secret, rfl⟩
        · cases h
    · simp only [bind, Except.bind, hthreshold, ↓reduceIte] at h
      cases h
      exact .inl rfl

/-- Recovery assigns secrets only. -/
theorem recoverDropouts_secrets (hmac : Hmac) (dropouts : List Nat) (rs : RoundState) :
    ∃ secrets : List (Nat × Bytes), (recoverDropouts hmac dropouts rs).2 =
      secrets.foldl (fun rs p => rs.setSharedSecret p.1 p.2) rs := by
  induction dropouts generalizing rs with
  | nil => exact ⟨[], rfl⟩
  | cons d dropouts ih =>
    rw [recoverDropouts]
    cases hstep : recoverDropout hmac rs d with
    | error e => exact ⟨[], rfl⟩
    | ok rs' =>
      obtain ⟨secrets, hrest⟩ := ih rs'
      obtain rfl | ⟨secret, rfl⟩ := recoverDropout_ok hstep
      · exact ⟨secrets, hrest⟩
      · exact ⟨(d, secret) :: secrets, hrest⟩

/-- So does `_trigger_recovery`, also if it raises. -/
theorem triggerRecovery_internal (hmac : Hmac) (rs : RoundState) :
    InternalWrite rs (triggerRecovery hmac rs).2 := by
  obtain ⟨secrets, hsecrets⟩ := recoverDropouts_secrets hmac rs.dropoutClients rs
  rw [triggerRecovery, hsecrets]
  exact .recovered rs secrets

open Coroutine

section

variable {I : ServerState → Prop} {C : Contract ServerState} {roundId clientId : Nat}

/-- Looking a round up does not suspend. -/
theorem safe_getRound_bind {α : Type} {s : ServerState} {post : Except PyErr α → ServerState → Prop}
    {f : Option RoundState → Server α} (h : Safe C post (f (s.rounds.get? roundId)) s) :
    Safe C post (getRound roundId >>= f) s := h

/-- Assigning to a round does not suspend. -/
theorem safe_modifyRound_bind {α : Type} {s : ServerState}
    {post : Except PyErr α → ServerState → Prop} {f : RoundState → RoundState} {g : Unit → Server α}
    (hguar : C.guar s { s with rounds := s.rounds.modify roundId f })
    (h : Safe C post (g ()) { s with rounds := s.rounds.modify roundId f }) :
    Safe C post (modifyRound roundId f >>= g) s := ⟨hguar, h⟩

theorem getRound_follows : Follows I C (getRound roundId) :=
  Follows.state.bind fun _ => Follows.pure _

theorem getClient_follows : Follows I C (getClient roundId clientId) :=
  getRound_follows.bind fun _ => Follows.pure _

end

section

variable {env : HostEnv} {roundId : Nat}

/-- A computation whose writes are those of `ServerWrite`, in any surroundings that keep the rounds
    under their numbers. -/
abbrev WritesOnly {α : Type} (R : RoundState → RoundState → Prop) (S : Bytes → Prop) (roundId : Nat)
    (c : Server α) : Prop :=
  Follows ServerState.Keyed (Contract.writing ServerState.Keyed (ServerWrite R S roundId)) c

theorem WritesOnly.imp {α : Type} {R R' : RoundState → RoundState → Prop} {S S' : Bytes → Prop}
    {c : Server α} (h : WritesOnly R S roundId c) (hR : ∀ rs rs', R rs rs' → R' rs rs')
    (hS : ∀ data, S data → S' data) : WritesOnly R' S' roundId c :=
  Follows.weaken h (fun _ _ hrely => hrely) (fun _ _ hw => hw.imp hR hS) fun _ _ => trivial

/-- Neither key setup nor its surroundings change the number of a round. -/
theorem internalWrite_preserves (S : Bytes → Prop) :
    (Contract.writing ServerState.Keyed (ServerWrite InternalWrite S roundId)).Preserves
      ServerState.Keyed :=
  Contract.writing_preserves (ServerWrite.keyed fun _ _ => InternalWrite.roundId)

theorem modifyRound_internal {S : Bytes → Prop} {f : RoundState → RoundState}
    (hf : ∀ rs, InternalWrite rs (f rs)) :
    WritesOnly InternalWrite S roundId (modifyRound roundId f) :=
  Follows.update (internalWrite_preserves S) fun s _ => ServerWrite.round s f fun rs _ => hf rs

/-- Waiting for a connection writes nothing. -/
theorem drain_follows {I : ServerState → Prop} {C : Contract ServerState} (hC : C.Preserves I)
    (hpause : ∀ s, I s → C.pause s) (writer : Nat) : Follows I C (drain writer) := by
  refine Follows.bind (Follows.suspend hC hpause) fun _ => Follows.state.bind fun s => ?_
  split
  · exact Follows.raise _
  · exact Follows.pure _

theorem writeAndDrain_internal {S : Bytes → Prop} (writer : Nat) {data : Bytes} (h : S data) :
    WritesOnly InternalWrite S roundId (writeAndDrain writer data) :=
  Follows.bind
    (Follows.update (internalWrite_preserves S) fun s _ => ServerWrite.sent s writer data h)
    fun _ => drain_follows (internalWrite_preserves S) (fun _ _ => trivial) writer

theorem encapsulateFor_keyOnly (clientId : Nat) (publicKey : Bytes) :
    WritesOnly InternalWrite KeyMessage roundId
      (encapsulateFor env roundId clientId publicKey) := by
  unfold encapsulateFor
  refine Follows.state.bind fun s => ?_
  refine Follows.bind (Follows.update (internalWrite_preserves _)
    fun s _ => ServerWrite.encapsulated s _) fun _ => ?_
  refine (Follows.liftExcept _).bind fun p => ?_
  refine Follows.bind (modifyRound_internal fun rs => .secret rs clientId p.2) fun _ => ?_
  refine Follows.liftExcept_bind fun header hheader => Follows.state.bind fun s => ?_
  split
  · refine writeAndDrain_internal _ fun id => ?_
    rw [aggregateSeq_buildHeader hheader, if_neg (fun h => absurd h.1 (by decide))]
  · exact Follows.pure _

theorem encapsulateUnlessShared_keyOnly (clientId : Nat) :
    WritesOnly InternalWrite KeyMessage roundId (encapsulateUnlessShared env roundId clientId) := by
  unfold encapsulateUnlessShared
  refine getClient_follows.bind fun c => ?_
  split
  · exact Follows.raise _
  · split
    · exact Follows.pure _
    · exact encapsulateFor_keyOnly _ _

theorem setupPair_keyOnly (pair : Nat × Nat) :
    WritesOnly InternalWrite KeyMessage roundId (setupPair env roundId pair) := by
  unfold setupPair
  refine getClient_follows.bind fun a => getClient_follows.bind fun b => ?_
  split
  · split
    · exact Follows.pure _
    · split
      · exact (encapsulateUnlessShared_keyOnly _).bind fun _ => encapsulateUnlessShared_keyOnly _
      · exact Follows.pure _
  · exact Follows.raise _
  · exact Follows.raise _

theorem setSeed_keyOnly (clientId peerId : Nat) (seed : Bytes) :
    WritesOnly InternalWrite KeyMessage roundId (setSeed roundId clientId peerId seed) :=
  modifyRound_internal fun rs => .seed rs clientId peerId seed

theorem orchestratePair_keyOnly (pair : Nat × Nat) :
    WritesOnly InternalWrite KeyMessage roundId (orchestratePair env roundId pair) := by
  unfold orchestratePair
  refine getClient_follows.bind fun a => getClient_follows.bind fun b => ?_
  split
  · split
    · exact Follows.pure _
    · split
      · exact Follows.pure _
      -- both sides get a secret, then the seeds are derived from them
      · refine (encapsulateUnlessShared_keyOnly _).bind fun _ => ?_
        refine (encapsulateUnlessShared_keyOnly _).bind fun _ => ?_
        refine getClient_follows.bind fun i => getClient_follows.bind fun r => ?_
        split
        · split
          · refine (Follows.liftExcept _).bind fun seed => ?_
            exact (setSeed_keyOnly _ _ _).bind fun _ => setSeed_keyOnly _ _ _
          · exact Follows.pure _
        · exact Follows.raise _
        · exact Follows.raise _
  · exact Follows.raise _
  · exact Follows.raise _

theorem orchestratePairwiseKem_keyOnly :
    WritesOnly InternalWrite KeyMessage roundId (orchestratePairwiseKem env roundId) :=
  getRound_follows.bind fun _ => Follows.forM orchestratePair_keyOnly _

theorem deriveSeeds_keyOnly (rs : RoundState) (client : Nat × ClientState) :
    WritesOnly InternalWrite KeyMessage roundId (deriveSeeds env roundId rs client) := by
  unfold deriveSeeds
  split
  · refine Follows.forM (fun peer => ?_) _
    split
    · exact (Follows.liftExcept _).bind fun seed => setSeed_keyOnly _ _ _
    · exact Follows.pure _
  · exact Follows.pure _

/-- Key setup assigns secrets, seeds and the stage, and sends no aggregated chunk. -/
theorem setupKeysAndMasks_keyOnly :
    WritesOnly InternalWrite KeyMessage roundId (setupKeysAndMasks env roundId) := by
  unfold setupKeysAndMasks
  -- the four loops, one after the other
  refine Follows.bind (Follows.forPositions fun i => ?_) fun _ => ?_
  · refine getRound_follows.bind fun rs => ?_
    split
    · split
      · exact encapsulateFor_keyOnly _ _
      · exact Follows.pure _
    · exact Follows.pure _
  refine getRound_follows.bind fun rs => ?_
  refine Follows.bind (Follows.forM setupPair_keyOnly _) fun _ => ?_
  refine orchestratePairwiseKem_keyOnly.bind fun _ => getRound_follows.bind fun rs' => ?_
  split
  · refine Follows.bind (Follows.forM (deriveSeeds_keyOnly _) _) fun _ => ?_
    exact modifyRound_internal fun rs => .maskSetup rs
  · exact Follows.pure _

theorem runRecovery_keyOnly :
    WritesOnly InternalWrite KeyMessage roundId (runRecovery env roundId) := by
  intro s hkeyed
  refine safe_getRound_bind ?_
  cases hround : s.rounds.get? roundId with
  | none => exact hkeyed
  | some rs =>
    have hwrite : ServerWrite InternalWrite KeyMessage roundId s { s with
        rounds := s.rounds.modify roundId fun _ => (triggerRecovery env.hmac rs).2 } :=
      .round_of_get hround (triggerRecovery_internal env.hmac rs)
    have hkeyed' := hwrite.keyed (fun _ _ => InternalWrite.roundId) _ _ hkeyed
    refine safe_modifyRound_bind hwrite ?_
    -- the exception is raised after the assignment
    split
    · exact hkeyed'
    · exact hkeyed'

theorem sendChunk_aggregateOnly {rs : RoundState} (h : rs.roundId = roundId)
    (fedavgChunks : Dict Nat (List Int)) (telemetry : Bytes) (writer seqNum : Nat) :
    WritesOnly InternalWrite (RoundMessage roundId) roundId
      (sendChunk rs fedavgChunks telemetry writer seqNum) := by
  unfold sendChunk
  refine (Follows.liftExcept _).bind fun values => (Follows.liftExcept _).bind fun result => ?_
  refine Follows.liftExcept_bind fun header hheader => writeAndDrain_internal _ fun id hid => ?_
  rw [List.append_assoc, aggregateSeq_buildHeader hheader,
    if_neg fun heq => hid (heq.2.symm.trans h)]

/-- `_unmask_and_aggregate` assigns secrets, seeds, the stage and the result, whatever happens
    while it is suspended. -/
theorem unmaskAndAggregate_aggregateOnly :
    WritesOnly InternalWrite (RoundMessage roundId) roundId (unmaskAndAggregate env roundId) := by
  have hkey : ∀ data, KeyMessage data → RoundMessage roundId data := fun _ h id _ => h id
  unfold unmaskAndAggregate
  refine Follows.bind (setupKeysAndMasks_keyOnly.imp (fun _ _ h => h) hkey) fun _ => ?_
  refine Follows.bind (runRecovery_keyOnly.imp (fun _ _ h => h) hkey) fun _ => ?_
  intro s hkeyed
  refine safe_getRound_bind ?_
  cases hround : s.rounds.get? roundId with
  | none => exact hkeyed
  | some rs =>
    -- from here on only the round's number matters, so any keyed state will do
    refine (?_ : Follows _ _ _) s hkeyed
    have hid : rs.roundId = roundId := hkeyed roundId rs hround
    refine (Follows.liftExcept _).bind fun unmasked => (Follows.liftExcept _).bind fun fed => ?_
    refine (Follows.liftExcept _).bind fun num => ?_
    split
    · exact Follows.pure _
    refine Follows.bind (modifyRound_internal fun rs => .complete rs fed) fun _ => ?_
    refine (Follows.liftExcept _).bind fun telemetry => Follows.forPositions fun i => ?_
    refine Follows.state.bind fun s => ?_
    split
    · exact Follows.forM (sendChunk_aggregateOnly hid _ _ _) _
    · exact Follows.pure _

/-! ## Handlers -/

/-- A computation that writes only what the handlers of a round write. -/
abbrev HandlerOnly {α : Type} (roundId : Nat) (c : Server α) : Prop :=
  Follows ServerState.Keyed (Contract.writing ServerState.Keyed (HandlerWrite roundId)) c

theorem handlerWrite_preserves :
    (Contract.writing ServerState.Keyed (HandlerWrite roundId)).Preserves ServerState.Keyed :=
  Contract.writing_preserves HandlerWrite.keyed

theorem WritesOnly.handlerOnly {α : Type} {c : Server α}
    (h : WritesOnly CompletionWrite (RoundMessage roundId) roundId c) : HandlerOnly roundId c :=
  Follows.weaken h (fun _ _ hrely => hrely)
    (fun _ _ hw => .write (hw.imp (fun _ _ => RoundWrite.completion) fun _ h => h))
    fun _ _ => trivial

theorem modifyRound_handlerOnly {f : RoundState → RoundState} (hf : ∀ rs, RoundWrite rs (f rs)) :
    HandlerOnly roundId (modifyRound roundId f) :=
  Follows.update handlerWrite_preserves fun s _ => .write (.round s f fun rs _ => hf rs)

/-- Assign to a round that was just looked up, and go on. -/
theorem safe_modifyRound_follows {α : Type} {s : ServerState} {rs : RoundState}
    {f : RoundState → RoundState} {g : Unit → Server α} (hkeyed : s.Keyed)
    (hround : s.rounds.get? roundId = some rs) (hf : RoundWrite rs (f rs))
    (hg : HandlerOnly roundId (g ())) :
    Safe (Contract.writing ServerState.Keyed (HandlerWrite roundId)) (fun _ s => s.Keyed)
      (modifyRound roundId f >>= g) s :=
  have hwrite := HandlerWrite.write (.round_of_get hround hf)
  safe_modifyRound_bind hwrite (hg _ (hwrite.keyed _ _ hkeyed))

theorem handleRoundFailure_completionOnly :
    WritesOnly CompletionWrite (RoundMessage roundId) roundId handleRoundFailure := by
  refine Follows.forPositions fun i => Follows.state.bind fun s => ?_
  split
  · split
    · exact Follows.pure _
    · exact Follows.raise _
  · exact Follows.pure _

/-- The check of a round, with any aggregation, starts to aggregate a complete round, fails an
    unhealthy one, and does nothing else. -/
theorem safe_check {aggregation : Server Unit} {s : ServerState} {rs : RoundState}
    (h : WritesOnly CompletionWrite (RoundMessage roundId) roundId aggregation) (hkeyed : s.Keyed)
    (hround : s.rounds.get? roundId = some rs) :
    Safe (Contract.writing ServerState.Keyed
        (ServerWrite CompletionWrite (RoundMessage roundId) roundId)) (fun _ s => s.Keyed)
      (if rs.Unmasks then
        modifyRound roundId (fun rs => { rs with stage := .unmasking }) >>= fun _ => aggregation
      else if rs.surviving < rs.threshold then
        modifyRound roundId (fun rs => { rs with stage := .error }) >>= fun _ => handleRoundFailure
      else pure ()) s := by
  split
  -- the stage is written first, then the aggregation runs
  · rename_i hunmasks
    have hwrite : ServerWrite CompletionWrite (RoundMessage roundId) roundId s _ :=
      .round_of_get (f := fun rs => { rs with stage := .unmasking }) hround
        (.unmasking rs hunmasks)
    exact safe_modifyRound_bind hwrite
      (h _ (hwrite.keyed (fun _ _ => CompletionWrite.roundId) _ _ hkeyed))
  split
  -- too few clients are left
  · rename_i hfew
    have hwrite : ServerWrite CompletionWrite (RoundMessage roundId) roundId s _ :=
      .round_of_get (f := fun rs => { rs with stage := .error }) hround
        (.failed rs (not_le.mpr hfew))
    exact safe_modifyRound_bind hwrite (handleRoundFailure_completionOnly _
      (hwrite.keyed (fun _ _ => CompletionWrite.roundId) _ _ hkeyed))
  · exact hkeyed

theorem checkRoundCompletion_completionOnly :
    WritesOnly CompletionWrite (RoundMessage roundId) roundId
      (checkRoundCompletion env roundId) := by
  intro s hkeyed
  refine safe_getRound_bind ?_
  cases hround : s.rounds.get? roundId with
  | none => exact hkeyed
  | some rs =>
    have haggregation : WritesOnly CompletionWrite (RoundMessage roundId) roundId
        (unmaskAndAggregate env roundId) :=
      unmaskAndAggregate_aggregateOnly.imp (fun _ _ => CompletionWrite.internal) fun _ h => h
    exact safe_check haggregation hkeyed hround

theorem handleRoundInit_handlerOnly (header : MessageHeader) (payload : Bytes) :
    HandlerOnly header.roundId (handleRoundInit header payload) := by
  intro s hkeyed
  show Safe _ _ (if s.rounds.contains header.roundId then _ else _) s
  by_cases hnew : s.rounds.contains header.roundId
  · rw [if_pos hnew]
    exact hkeyed
  · rw [if_neg hnew]
    split
    · refine ⟨.created s _ _ _ _ (Bool.not_eq_true _ ▸ hnew), ?_⟩
      exact HandlerWrite.keyed _ _ (.created s _ _ _ _ (Bool.not_eq_true _ ▸ hnew)) hkeyed
    · exact hkeyed

/-- Assign to a client, in a round with chunks of any size. -/
theorem modifyClient_handlerOnly (clientId : Nat) {f : ClientState → ClientState}
    {hf : ∀ c, (f c).clientId = c.clientId} (h : ∀ n c, ClientWrite n c (f c)) :
    HandlerOnly roundId (modifyClient roundId clientId f hf) :=
  modifyRound_handlerOnly fun rs => .client rs clientId f hf (h rs.chunkSize)

/-- Store the key of a registered client and the writer of its connection. -/
theorem storeKey_handlerOnly (clientId : Nat) (key : Bytes) (writer : Nat) :
    HandlerOnly roundId (do
      modifyClient roundId clientId (fun c => { c with publicKey := some key }) fun _ => rfl
      Coroutine.update fun s =>
        { s with clientWriters := s.clientWriters.insert clientId writer }) :=
  Follows.bind (modifyClient_handlerOnly _ fun _ c => .publicKey c key) fun _ =>
    Follows.update handlerWrite_preserves fun s _ => HandlerWrite.connected s _ _

theorem handlePublicKey_handlerOnly (header : MessageHeader) (payload : Bytes) (writer : Nat) :
    HandlerOnly header.roundId (handlePublicKey header payload writer) := by
  intro s hkeyed
  refine safe_getRound_bind ?_
  cases hround : s.rounds.get? header.roundId with
  | none => exact hkeyed
  | some rs =>
    by_cases hmem : rs.clients.contains header.clientId
    · simp only [hmem]
      exact storeKey_handlerOnly _ _ _ s hkeyed
    · simp only [hmem]
      exact safe_modifyRound_follows hkeyed hround
        (.register rs header.clientId (by simpa using hmem)) (storeKey_handlerOnly _ _ _)

theorem handlePairwisePubkey_handlerOnly (header : MessageHeader) (payload : Bytes)
    (writer : Nat) : HandlerOnly header.roundId (handlePairwisePubkey header payload writer) := by
  refine getClient_follows.bind fun c => ?_
  split
  · exact Follows.pure _
  · exact storeKey_handlerOnly _ _ _

theorem handlePairwiseCiphertext_handlerOnly (header : MessageHeader) (payload : Bytes) :
    HandlerOnly header.roundId (handlePairwiseCiphertext header payload) := by
  refine getClient_follows.bind fun c => ?_
  split
  · exact Follows.pure _
  · split
    · exact modifyClient_handlerOnly _ fun _ c => .sharedSecret c _
    · exact Follows.pure _

theorem handleMaskChunk_handlerOnly (header : MessageHeader) (payload : Bytes) :
    HandlerOnly header.roundId (handleMaskChunk header payload) := by
  intro s hkeyed
  refine safe_getRound_bind ?_
  cases hround : s.rounds.get? header.roundId with
  | none => exact hkeyed
  | some rs =>
    -- a chunk of another size is dropped
    by_cases hlen : payload.length = rs.chunkSize * 2
    · simp only [hlen]
      have hwrite : RoundWrite rs (rs.updateClient header.clientId
          (fun c => { c with
            receivedChunks := c.receivedChunks.insert header.sequenceNumber payload })
          fun _ => rfl) :=
        .client rs header.clientId _ _ fun c => .chunk c header.sequenceNumber payload hlen
      exact safe_modifyRound_follows hkeyed hround hwrite (Follows.pure ())
    · simp only [hlen]
      exact hkeyed

theorem handleClientComplete_handlerOnly (header : MessageHeader) (payload : Bytes) :
    HandlerOnly header.roundId (handleClientComplete env header payload) := by
  refine getClient_follows.bind fun c => ?_
  split
  · exact Follows.pure _
  · exact Follows.bind (modifyClient_handlerOnly _ fun _ c => .complete c _) fun _ =>
      checkRoundCompletion_completionOnly.handlerOnly

/-- A dropout is noted, then the recovery runs, then a check. -/
theorem reportDropout_handlerOnly {check : Server Unit} (clientId : Nat)
    (h : WritesOnly CompletionWrite (RoundMessage roundId) roundId check) :
    HandlerOnly roundId (do
      modifyRound roundId fun rs =>
        if clientId ∈ rs.dropoutClients then rs
        else { rs with dropoutClients := rs.dropoutClients ++ [clientId] }
      runRecovery env roundId
      check) := by
  refine Follows.bind (modifyRound_handlerOnly fun rs => ?_) fun _ => ?_
  · split
    · exact .refl rs
    · rename_i hmem
      exact .dropout rs _ hmem
  · have hrecovery : WritesOnly CompletionWrite (RoundMessage roundId) roundId
        (runRecovery env roundId) :=
      runRecovery_keyOnly.imp (fun _ _ => CompletionWrite.internal) fun _ h id _ => h id
    exact WritesOnly.handlerOnly (Follows.bind hrecovery fun _ => h)

theorem handleDropoutNotify_handlerOnly (header : MessageHeader) :
    HandlerOnly header.roundId (handleDropoutNotify env header) := by
  refine getRound_follows.bind fun rs => ?_
  split
  · exact Follows.pure _
  · exact reportDropout_handlerOnly header.clientId checkRoundCompletion_completionOnly

end

/-! ## The check -/

/-- `round_state.stage = stage`. -/
def ServerState.setStage (s : ServerState) (roundId : Nat) (stage : Stage) : ServerState :=
  { s with rounds := s.rounds.modify roundId fun rs => { rs with stage := stage } }

theorem ServerState.get?_setStage {s : ServerState} {roundId : Nat} {rs : RoundState}
    (h : s.rounds.get? roundId = some rs) (stage : Stage) :
    (s.setStage roundId stage).rounds.get? roundId = some { rs with stage := stage } := by
  rw [ServerState.setStage, Dict.get?_modify, if_pos rfl, h, Option.map_some]

theorem ServerState.Keyed.setStage {s : ServerState} (h : s.Keyed) (roundId : Nat)
    (stage : Stage) : (s.setStage roundId stage).Keyed := by
  unfold ServerState.setStage
  exact Dict.forall_modify h (h _)

section

variable (env : HostEnv) {roundId : Nat} {s : ServerState} {rs : RoundState}

theorem checkRoundCompletion_of_unmasks (hround : s.rounds.get? roundId = some rs)
    (h : rs.Unmasks) : (checkRoundCompletion env roundId).advance s =
      (unmaskAndAggregate env roundId).advance (s.setStage roundId .unmasking) := by
  rw [checkRoundCompletion, advance_getRound_bind, hround]
  show (if rs.Unmasks then _ else _ : Server Unit).advance s = _
  rw [if_pos h]
  rfl

theorem checkRoundCompletion_of_unhealthy (hround : s.rounds.get? roundId = some rs)
    (h : ¬rs.Healthy) : (checkRoundCompletion env roundId).advance s =
      handleRoundFailure.advance (s.setStage roundId .error) := by
  rw [checkRoundCompletion, advance_getRound_bind, hround]
  show (if rs.Unmasks then _ else if rs.surviving < rs.threshold then _ else _ :
    Server Unit).advance s = _
  rw [if_neg fun hunmasks => h hunmasks.2, if_pos (not_le.mp h)]
  rfl

theorem checkRoundCompletion_of_waiting (hround : s.rounds.get? roundId = some rs)
    (h : ¬rs.Unmasks) (hhealthy : rs.Healthy) :
    (checkRoundCompletion env roundId).advance s = (.ended (.ok ()), s) := by
  rw [checkRoundCompletion, advance_getRound_bind, hround]
  show (if rs.Unmasks then _ else if rs.surviving < rs.threshold then _ else _ :
    Server Unit).advance s = _
  rw [if_neg h, if_neg (not_lt.mpr hhealthy)]
  rfl

end

/-! ## All handlers -/

/-- Every handler writes only what the handlers of its round may write. -/
theorem dispatchMessage_follows (env : HostEnv) (header : MessageHeader) (payload : Bytes)
    (writer : Nat) :
    HandlerOnly header.roundId (dispatchMessage env header payload writer) := by
  unfold dispatchMessage
  -- one handler for each type of message
  split
  · exact handlePublicKey_handlerOnly header payload writer
  split
  · exact handleMaskChunk_handlerOnly header payload
  split
  · exact handleClientComplete_handlerOnly header payload
  split
  · exact handleDropoutNotify_handlerOnly header
  split
  · exact handleRoundInit_handlerOnly header payload
  split
  · exact handlePairwisePubkey_handlerOnly header payload writer
  split
  · exact handlePairwiseCiphertext_handlerOnly header payload
  · exact Follows.pure _

end SwiftAgg.Host
