import SwiftAgg.Spec.HostErrors
import SwiftAgg.Spec.ServerInvariant

/-!
# The progress of a round

What the completion of a round depends on: its parameters, what each client has
delivered, and who was reported dropped. The progress of a round is a function
of the messages that were dispatched, whatever else the handlers do and whether
or not they raise.

## Key results

- `handler_eq`: a handler is its part before `_check_round_completion`, then the check
- `beforeCheck_arrival`: the part before the check receives the message, without suspending
- `handle_progress`: handling a message is receiving it
-/

namespace SwiftAgg.Host

/-! ## Receiving messages -/

/-- What a client has delivered. -/
structure Delivery where
  chunks : Dict Nat Bytes
  completed : Bool
  sampleCount : Nat

/-- What a client that has just registered has delivered. -/
def Delivery.new : Delivery := ⟨.empty, false, 0⟩

/-- The part of a round that its completion depends on. -/
structure Progress where
  expectedClients : Nat
  threshold : Nat
  chunkSize : Nat
  modelSize : Nat
  deliveries : Dict Nat Delivery
  dropouts : List Nat

/-- The sample count that a CLIENT_COMPLETE message sets. -/
def announcedSamples (payload : Bytes) (old : Nat) : Nat :=
  match payload with
  | b₀ :: b₁ :: b₂ :: b₃ :: _ => 2 ^ 16 * Bytes.word16 b₁ b₀ + Bytes.word16 b₃ b₂
  | _ => old

/-- What a message adds to the progress of its round. -/
def Progress.receive (p : Progress) (m : Message) : Progress :=
  if m.header.messageType = 0x01 then
    if p.deliveries.contains m.header.clientId then p
    else { p with deliveries := p.deliveries.insert m.header.clientId .new }
  else if m.header.messageType = 0x21 then
    if m.payload.length = p.chunkSize * 2 then
      { p with
        deliveries := p.deliveries.modify m.header.clientId fun d =>
          { d with chunks := d.chunks.insert m.header.sequenceNumber m.payload } }
    else p
  else if m.header.messageType = 0x30 then
    { p with
      deliveries := p.deliveries.modify m.header.clientId fun d =>
        { d with sampleCount := announcedSamples m.payload d.sampleCount, completed := true } }
  else if m.header.messageType = 0x31 then
    if m.header.clientId ∈ p.dropouts then p
    else { p with dropouts := p.dropouts ++ [m.header.clientId] }
  else p

section

variable {m : Message} (p : Progress)

theorem Progress.receive_key (h : m.header.messageType = 0x01) :
    p.receive m = if p.deliveries.contains m.header.clientId then p
      else { p with deliveries := p.deliveries.insert m.header.clientId .new } :=
  if_pos h

theorem Progress.receive_chunk (h : m.header.messageType = 0x21) :
    p.receive m = if m.payload.length = p.chunkSize * 2 then
      { p with
        deliveries := p.deliveries.modify m.header.clientId fun d =>
          { d with chunks := d.chunks.insert m.header.sequenceNumber m.payload } }
      else p := by
  rw [Progress.receive, if_neg (by rw [h]; decide), if_pos h]

theorem Progress.receive_complete (h : m.header.messageType = 0x30) :
    p.receive m = { p with
      deliveries := p.deliveries.modify m.header.clientId fun d =>
        { d with
          sampleCount := announcedSamples m.payload d.sampleCount, completed := true } } := by
  rw [Progress.receive, if_neg (by rw [h]; decide), if_neg (by rw [h]; decide), if_pos h]

theorem Progress.receive_dropout (h : m.header.messageType = 0x31) :
    p.receive m = if m.header.clientId ∈ p.dropouts then p
      else { p with dropouts := p.dropouts ++ [m.header.clientId] } := by
  rw [Progress.receive, if_neg (by rw [h]; decide), if_neg (by rw [h]; decide),
    if_neg (by rw [h]; decide), if_pos h]

/-- Messages of other types do not show in the progress of a round. -/
theorem Progress.receive_of_ne (hkey : m.header.messageType ≠ 0x01)
    (hchunk : m.header.messageType ≠ 0x21) (hcomplete : m.header.messageType ≠ 0x30)
    (hdropout : m.header.messageType ≠ 0x31) : p.receive m = p := by
  rw [Progress.receive, if_neg hkey, if_neg hchunk, if_neg hcomplete, if_neg hdropout]

theorem Progress.receive_of_notMem (h : m.header.messageType ∉ [0x01, 0x21, 0x30, 0x31]) :
    p.receive m = p := by
  simp only [List.mem_cons, List.not_mem_nil, or_false, not_or] at h
  exact p.receive_of_ne h.1 h.2.1 h.2.2.1 h.2.2.2

end

/-- The ways in which a message can change the progress of its round. -/
inductive Progress.Receipt (m : Message) (p : Progress) : Progress → Prop
  | ignored : p.Receipt m p
  | registered (htype : m.header.messageType = 0x01)
    (hnew : m.header.clientId ∉ p.deliveries.keys) :
    p.Receipt m { p with deliveries := p.deliveries.insert m.header.clientId .new }
  | chunk (htype : m.header.messageType = 0x21) (hlen : m.payload.length = p.chunkSize * 2) :
    p.Receipt m { p with
      deliveries := p.deliveries.modify m.header.clientId fun d =>
        { d with chunks := d.chunks.insert m.header.sequenceNumber m.payload } }
  | completed (htype : m.header.messageType = 0x30) :
    p.Receipt m { p with
      deliveries := p.deliveries.modify m.header.clientId fun d =>
        { d with sampleCount := announcedSamples m.payload d.sampleCount, completed := true } }
  | dropped (htype : m.header.messageType = 0x31) (hnew : m.header.clientId ∉ p.dropouts) :
    p.Receipt m { p with dropouts := p.dropouts ++ [m.header.clientId] }

theorem Progress.receipt (p : Progress) (m : Message) : p.Receipt m (p.receive m) := by
  unfold Progress.receive
  -- in the order of the tests in `receive`
  split
  · rename_i htype
    split
    · exact .ignored
    · rename_i hnew
      exact .registered htype (by simpa using hnew)
  split
  · rename_i htype
    split
    · rename_i hlen
      exact .chunk htype hlen
    · exact .ignored
  split
  · rename_i htype
    exact .completed htype
  split
  · rename_i htype
    split
    · exact .ignored
    · rename_i hnew
      exact .dropped htype hnew
  · exact .ignored

/-- Messages do not change the parameters of a round. -/
theorem Progress.receive_params (p : Progress) (m : Message) :
    (p.receive m).expectedClients = p.expectedClients ∧ (p.receive m).threshold = p.threshold ∧
      (p.receive m).chunkSize = p.chunkSize ∧ (p.receive m).modelSize = p.modelSize := by
  generalize hp' : p.receive m = p'
  cases hp' ▸ p.receipt m with
  | ignored => exact ⟨rfl, rfl, rfl, rfl⟩
  | registered htype hnew => exact ⟨rfl, rfl, rfl, rfl⟩
  | chunk htype hlen => exact ⟨rfl, rfl, rfl, rfl⟩
  | completed htype => exact ⟨rfl, rfl, rfl, rfl⟩
  | dropped htype hnew => exact ⟨rfl, rfl, rfl, rfl⟩

/-- The round that a message creates. -/
def Message.createdRound (m : Message) : Option RoundState :=
  if m.header.messageType = 0x40 then
    match m.payload with
    | b₀ :: b₁ :: b₂ :: b₃ :: b₄ :: b₅ :: b₆ :: b₇ :: _ =>
      some (.new m.header.roundId b₀.toNat b₁.toNat (Bytes.word16 b₂ b₃)
        (Bytes.word16 b₄ b₅ + 2 ^ 16 * Bytes.word16 b₆ b₇))
    | _ => none
  else none

theorem Message.createdRound_of_ne {m : Message} (h : m.header.messageType ≠ 0x40) :
    m.createdRound = none :=
  if_neg h

theorem Message.createdRound_eq_some {m : Message} {rs : RoundState}
    (h : m.createdRound = some rs) : ∃ expectedClients threshold chunkSize modelSize,
      rs = .new m.header.roundId expectedClients threshold chunkSize modelSize := by
  unfold Message.createdRound at h
  split at h
  · split at h
    · cases h
      exact ⟨_, _, _, _, rfl⟩
    · cases h
  · cases h

/-- A message that stores the writer of its client's connection. -/
def Message.Connects (m : Message) (s : ServerState) : Prop :=
  ∃ rs, s.rounds.get? m.header.roundId = some rs ∧
    (m.header.messageType = 0x01 ∨
      m.header.messageType = 0x10 ∧ m.header.clientId ∈ rs.clients.keys)

/-- A message whose handler may call `_check_round_completion`. -/
def Message.Checks (m : Message) (s : ServerState) : Prop :=
  ∃ rs, s.rounds.get? m.header.roundId = some rs ∧
    (m.header.messageType = 0x30 ∧ m.header.clientId ∈ rs.clients.keys ∨
      m.header.messageType = 0x31)

theorem Message.Checks.not_connects {m : Message} {s : ServerState} (h : m.Checks s) :
    ¬m.Connects s := by
  obtain ⟨rs, -, hchecks⟩ := h
  rintro ⟨rs', -, hconnects⟩
  omega

/-- What the server stores of a client's delivery. -/
def ClientState.delivery (c : ClientState) : Delivery :=
  ⟨c.receivedChunks, c.completed, c.sampleCount⟩

/-- What the server stores of a round's progress. -/
def RoundState.progress (rs : RoundState) : Progress where
  expectedClients := rs.expectedClients
  threshold := rs.threshold
  chunkSize := rs.chunkSize
  modelSize := rs.modelSize
  deliveries := rs.clients.map ClientState.delivery
  dropouts := rs.dropoutClients

/-- The progress of a round of the server. -/
def ServerState.progress (s : ServerState) (id : Nat) : Option Progress :=
  (s.rounds.get? id).map RoundState.progress

/-! ## Writes that keep the progress -/

theorem RoundState.progress_updateClient (rs : RoundState) (id : Nat)
    {f : ClientState → ClientState} {hf : ∀ c, (f c).clientId = c.clientId}
    (h : ∀ c, (f c).delivery = c.delivery) : (rs.updateClient id f hf).progress = rs.progress := by
  simp only [RoundState.progress, RoundState.updateClient, rs.clients.map_modify_of_eq id h]

theorem RoundState.progress_setSharedSecret (rs : RoundState) (id : Nat) (secret : Bytes) :
    (rs.setSharedSecret id secret).progress = rs.progress :=
  rs.progress_updateClient id fun _ => rfl

theorem InternalWrite.progress {rs rs' : RoundState} (h : InternalWrite rs rs') :
    rs'.progress = rs.progress := by
  cases h with
  | secret id secret => exact rs.progress_setSharedSecret id secret
  | seed id peerId seed => exact rs.progress_updateClient id fun _ => rfl
  | recovered secrets =>
    induction secrets generalizing rs with
    | nil => rfl
    | cons p secrets ih => exact ih.trans (rs.progress_setSharedSecret p.1 p.2)
  | maskSetup => rfl
  | complete chunks => rfl

theorem CompletionWrite.progress {rs rs' : RoundState} (h : CompletionWrite rs rs') :
    rs'.progress = rs.progress := by
  cases h with
  | unmasking h => rfl
  | failed h => rfl
  | internal h => exact h.progress

theorem ServerWrite.progress {S : Bytes → Prop} {roundId : Nat} {s s' : ServerState}
    (h : ServerWrite CompletionWrite S roundId s s') (id : Nat) :
    s'.progress id = s.progress id := by
  cases h with
  | round f h =>
    rw [ServerState.progress, Dict.get?_modify]
    by_cases hid : id = roundId
    · rw [if_pos hid, ServerState.progress]
      cases hrs : s.rounds.get? id with
      | none => rfl
      | some rs => exact congrArg some (h rs (hid ▸ hrs)).progress
    · rw [if_neg hid, ServerState.progress]
  | encapsulated n => rfl
  | sent writer data h => rfl

section

variable {R : RoundState → RoundState → Prop} {S : Bytes → Prop} {roundId : Nat}
  {s s' : ServerState}

theorem ServerWrite.clientWriters (h : ServerWrite R S roundId s s') :
    s'.clientWriters = s.clientWriters := by
  cases h with
  | round f h => rfl
  | encapsulated n => rfl
  | sent writer data h => rfl

/-- Messages without an aggregated chunk of a round do not show among those that have one. -/
theorem ServerWrite.aggregatesOf (h : ServerWrite R S roundId s s') {id : Nat}
    (hS : ∀ data, S data → aggregateSeq id data = none) :
    aggregatesOf id s'.sent = aggregatesOf id s.sent := by
  cases h with
  | round f h => rfl
  | encapsulated n => rfl
  | sent writer data h =>
    rw [aggregatesOf_concat, hS data h]
    exact List.append_nil _

/-- Where the writes keep the progress of rounds, a chain of them keeps it too, as well as the
    writers and the aggregates that the messages do not carry. -/
theorem ServerWrite.chain (h : Relation.ReflTransGen (ServerWrite CompletionWrite S roundId) s s') :
    s'.clientWriters = s.clientWriters ∧ (∀ id, s'.progress id = s.progress id) ∧
      ∀ id, (∀ data, S data → aggregateSeq id data = none) →
        Host.aggregatesOf id s'.sent = Host.aggregatesOf id s.sent := by
  induction h with
  | refl => exact ⟨rfl, fun _ => rfl, fun _ _ => rfl⟩
  | tail _ hw ih =>
    obtain ⟨hwriters, hprogress, haggregates⟩ := ih
    exact ⟨hw.clientWriters.trans hwriters, fun id => (hw.progress id).trans (hprogress id),
      fun id hid => (hw.aggregatesOf hid).trans (haggregates id hid)⟩

end

/-! ## Handlers up to the check -/

/-- A handler up to its call of `_check_round_completion`; the result says whether it is reached. -/
def beforeCheck (env : HostEnv) (m : Message) : Server Bool :=
  if m.header.messageType = 0x30 then do
    match ← getClient m.header.roundId m.header.clientId with
    | none => return false
    | some _ =>
      modifyClient m.header.roundId m.header.clientId
        (fun c => { c with
          sampleCount := announcedSamples m.payload c.sampleCount, completed := true }) fun _ => rfl
      return true
  else if m.header.messageType = 0x31 then do
    match ← getRound m.header.roundId with
    | none => return false
    | some _ =>
      modifyRound m.header.roundId fun rs => rs.recordDropout m.header.clientId
      runRecovery env m.header.roundId
      return true
  else do
    m.handler env
    return false

/-- A handler is its part before the check, then the check. -/
theorem handler_eq (env : HostEnv) (m : Message) :
    m.handler env = do
      if ← beforeCheck env m then checkRoundCompletion env m.header.roundId else return := by
  unfold beforeCheck
  by_cases hcomplete : m.header.messageType = 0x30
  · -- both sides look the client up first; an unknown client ends them
    rw [if_pos hcomplete, bind_assoc]
    have hhandler : m.handler env = handleClientComplete env m.header m.payload := by
      simp [Message.handler, dispatchMessage, hcomplete]
    rw [hhandler, handleClientComplete]
    refine congrArg _ (funext fun c => ?_)
    cases c with
    | none => rfl
    | some c => rfl
  · rw [if_neg hcomplete]
    by_cases hdropout : m.header.messageType = 0x31
    · rw [if_pos hdropout, bind_assoc]
      have hhandler : m.handler env = handleDropoutNotify env m.header := by
        simp [Message.handler, dispatchMessage, hdropout]
      rw [hhandler, handleDropoutNotify]
      refine congrArg _ (funext fun rs => ?_)
      cases rs with
      | none => rfl
      | some rs =>
        simp only [bind_assoc, pure_bind, ↓reduceIte]
        rfl
    · rw [if_neg hdropout]
      simp

/-- What receiving a message does to its round: the stage and the result are left alone. -/
structure Receives (m : Message) (rs rs₁ : RoundState) : Prop where
  progress : rs₁.progress = rs.progress.receive m
  roundId : rs₁.roundId = rs.roundId
  stage : rs₁.stage = rs.stage
  unmaskedChunks : rs₁.unmaskedChunks = rs.unmaskedChunks

theorem Receives.numChunks {m : Message} {rs rs₁ : RoundState} (h : Receives m rs rs₁) :
    rs₁.modelSize / rs₁.chunkSize = rs.modelSize / rs.chunkSize := by
  obtain ⟨-, -, hchunk, hmodel⟩ := rs.progress.receive_params m
  rw [← h.progress] at hchunk hmodel
  exact congrArg₂ (· / ·) hmodel hchunk

/-- What receiving a message does to the server. -/
structure Arrival (m : Message) (s s₁ : ServerState) : Prop where
  other : ∀ id, id ≠ m.header.roundId → s₁.rounds.get? id = s.rounds.get? id
  own : ∀ rs, s.rounds.get? m.header.roundId = some rs →
    ∃ rs₁, s₁.rounds.get? m.header.roundId = some rs₁ ∧ Receives m rs rs₁
  created : s.rounds.get? m.header.roundId = none →
    s₁.rounds.get? m.header.roundId = m.createdRound
  sent : s₁.sent = s.sent
  clientWriters : s₁.clientWriters = s.clientWriters ∨
    m.Connects s ∧ s₁.clientWriters = s.clientWriters.insert m.header.clientId m.writer
  closing : s.closing = m.closing → s₁.closing = m.closing

section

variable {m : Message} {s : ServerState} {rs : RoundState}

/-- A message that is ignored. -/
theorem Arrival.ignored (hown : ∀ rs, s.rounds.get? m.header.roundId = some rs →
      rs.progress.receive m = rs.progress)
    (hcreated : s.rounds.get? m.header.roundId = none → m.createdRound = none) :
    Arrival m s s where
  other _ _ := rfl
  own rs hrs := ⟨rs, hrs, (hown rs hrs).symm, rfl, rfl, rfl⟩
  created hnone := hnone.trans (hcreated hnone).symm
  sent := rfl
  clientWriters := .inl rfl
  closing := id

/-- A message that changes its round. -/
theorem Arrival.modify {f : RoundState → RoundState}
    (hround : s.rounds.get? m.header.roundId = some rs) (hf : Receives m rs (f rs)) :
    Arrival m s { s with rounds := s.rounds.modify m.header.roundId f } where
  other id hid := by rw [Dict.get?_modify, if_neg hid]
  own rs' hrs' := by
    obtain rfl : rs = rs' := Option.some.inj (hround.symm.trans hrs')
    refine ⟨f rs, ?_, hf⟩
    rw [Dict.get?_modify, if_pos rfl, hround, Option.map_some]
  created hnone := by
    rw [hround] at hnone
    cases hnone
  sent := rfl
  clientWriters := .inl rfl
  closing := id

/-- A message that changes its round in two assignments. -/
theorem Arrival.modify_modify {f g : RoundState → RoundState}
    (hround : s.rounds.get? m.header.roundId = some rs) (hf : Receives m rs (g (f rs))) :
    Arrival m s { s with
      rounds := (s.rounds.modify m.header.roundId f).modify m.header.roundId g } := by
  rw [Dict.modify_modify]
  exact .modify hround hf

/-- The message also stores a writer. -/
theorem Arrival.connect {s₁ : ServerState} (h : Arrival m s s₁)
    (hwriters : s₁.clientWriters = s.clientWriters) (hconnects : m.Connects s) :
    Arrival m s
      { s₁ with clientWriters := s₁.clientWriters.insert m.header.clientId m.writer } where
  other := h.other
  own := h.own
  created := h.created
  sent := h.sent
  clientWriters := .inr ⟨hconnects, by rw [hwriters]⟩
  closing := h.closing

/-- An assignment to a client that its delivery does not show. -/
theorem Receives.updateClient_of_eq (id : Nat) {f : ClientState → ClientState}
    {hf : ∀ c, (f c).clientId = c.clientId} (h : ∀ c, (f c).delivery = c.delivery)
    (hreceive : rs.progress.receive m = rs.progress) : Receives m rs (rs.updateClient id f hf) where
  progress := (rs.progress_updateClient id h).trans hreceive.symm
  roundId := rfl
  stage := rfl
  unmaskedChunks := rfl

/-- A registered client, found by `getClient`. -/
theorem getClient_eq_some {roundId clientId : Nat} {c : ClientState}
    (h : ((s.rounds.get? roundId).bind fun rs => rs.clients.get? clientId) = some c) :
    ∃ rs, s.rounds.get? roundId = some rs ∧ rs.clients.get? clientId = some c :=
  Option.bind_eq_some_iff.mp h

/-- A client that `getClient` does not find has delivered nothing. -/
theorem getClient_eq_none {roundId clientId : Nat}
    (h : ((s.rounds.get? roundId).bind fun rs => rs.clients.get? clientId) = none)
    (hround : s.rounds.get? roundId = some rs) : clientId ∉ rs.clients.keys := by
  rw [hround, Option.bind_some, Dict.get?_eq_none_iff] at h
  exact h

/-- Registration of a new client, with its key. -/
theorem Receives.register (key : Bytes) (htype : m.header.messageType = 0x01)
    (hnew : m.header.clientId ∉ rs.clients.keys) :
    Receives m rs ((rs.addClient m.header.clientId).updateClient m.header.clientId
      (fun c => { c with publicKey := some key }) fun _ => rfl) where
  progress := by
    have hnew' : rs.progress.deliveries.contains m.header.clientId = false := by
      simpa [RoundState.progress, ← Bool.not_eq_true] using hnew
    rw [RoundState.progress_updateClient _ _ (f := fun c => { c with publicKey := some key })
      fun _ => rfl, Progress.receive_key _ htype, hnew']
    simp only [RoundState.progress, RoundState.addClient, Dict.map_insert]
    rfl
  roundId := rfl
  stage := rfl
  unmaskedChunks := rfl

theorem handlePublicKey_arrival (htype : m.header.messageType = 0x01) : ∃ s₁,
    (handlePublicKey m.header m.payload m.writer).advance s = (.ended (.ok ()), s₁) ∧
      Arrival m s s₁ := by
  have hcreated : m.createdRound = none := Message.createdRound_of_ne (by rw [htype]; decide)
  cases hround : s.rounds.get? m.header.roundId with
  | none =>
    refine ⟨s, ?_, .ignored (fun rs hrs => nomatch hround.symm.trans hrs) fun _ => hcreated⟩
    rw [handlePublicKey, advance_getRound_bind, hround]
    rfl
  | some rs =>
    have hconnects : m.Connects s := ⟨rs, hround, .inl htype⟩
    rw [handlePublicKey, advance_getRound_bind, hround]
    by_cases hmem : m.header.clientId ∈ rs.clients.keys
    · -- a client that registers again keeps what it has delivered
      have hcontains : rs.clients.contains m.header.clientId = true := by simpa using hmem
      have hreceive : rs.progress.receive m = rs.progress := by
        rw [Progress.receive_key _ htype, if_pos]
        simpa [RoundState.progress] using hmem
      simp only [hcontains]
      exact ⟨_, rfl, Arrival.connect (.modify hround
        (.updateClient_of_eq m.header.clientId (fun _ => rfl) hreceive)) rfl hconnects⟩
    · have hcontains : rs.clients.contains m.header.clientId = false := by
        simpa [← Bool.not_eq_true] using hmem
      have harrival := Arrival.modify_modify (f := fun rs => rs.addClient m.header.clientId)
        (g := fun rs => rs.updateClient m.header.clientId
          (fun c => { c with publicKey := some m.payload }) fun _ => rfl)
        hround (.register m.payload htype hmem)
      simp only [hcontains]
      exact ⟨_, rfl, harrival.connect rfl hconnects⟩

theorem handlePairwisePubkey_arrival (htype : m.header.messageType = 0x10) : ∃ s₁,
    (handlePairwisePubkey m.header m.payload m.writer).advance s = (.ended (.ok ()), s₁) ∧
      Arrival m s s₁ := by
  have hcreated : m.createdRound = none := Message.createdRound_of_ne (by rw [htype]; decide)
  have hreceive : ∀ p : Progress, p.receive m = p := fun p =>
    p.receive_of_notMem (by rw [htype]; decide)
  rw [handlePairwisePubkey, advance_getClient_bind]
  cases hclient : (s.rounds.get? m.header.roundId).bind
      fun rs => rs.clients.get? m.header.clientId with
  | none => exact ⟨s, rfl, .ignored (fun rs _ => hreceive _) fun _ => hcreated⟩
  | some c =>
    obtain ⟨rs, hround, hc⟩ := getClient_eq_some hclient
    exact ⟨_, rfl, Arrival.connect (.modify hround
      (.updateClient_of_eq m.header.clientId (fun _ => rfl) (hreceive _))) rfl
      ⟨rs, hround, .inr ⟨htype, Dict.mem_keys_of_get? hc⟩⟩⟩

theorem handlePairwiseCiphertext_arrival (htype : m.header.messageType = 0x11) : ∃ s₁,
    (handlePairwiseCiphertext m.header m.payload).advance s = (.ended (.ok ()), s₁) ∧
      Arrival m s s₁ := by
  have hcreated : m.createdRound = none := Message.createdRound_of_ne (by rw [htype]; decide)
  have hreceive : ∀ p : Progress, p.receive m = p := fun p =>
    p.receive_of_notMem (by rw [htype]; decide)
  have hignored : Arrival m s s := .ignored (fun rs _ => hreceive _) fun _ => hcreated
  rw [handlePairwiseCiphertext, advance_getClient_bind]
  cases hclient : (s.rounds.get? m.header.roundId).bind
      fun rs => rs.clients.get? m.header.clientId with
  | none => exact ⟨s, rfl, hignored⟩
  | some c =>
    obtain ⟨rs, hround, hc⟩ := getClient_eq_some hclient
    -- a shared secret is no part of the progress
    by_cases hlen : 32 ≤ m.payload.length
    · simp only [hlen]
      exact ⟨_, rfl, .modify hround
        (.updateClient_of_eq m.header.clientId (fun _ => rfl) (hreceive _))⟩
    · simp only [hlen]
      exact ⟨s, rfl, hignored⟩

theorem handleMaskChunk_arrival (htype : m.header.messageType = 0x21) : ∃ s₁,
    (handleMaskChunk m.header m.payload).advance s = (.ended (.ok ()), s₁) ∧
      Arrival m s s₁ := by
  have hcreated : m.createdRound = none := Message.createdRound_of_ne (by rw [htype]; decide)
  rw [handleMaskChunk, advance_getRound_bind]
  cases hround : s.rounds.get? m.header.roundId with
  | none =>
    exact ⟨s, rfl, .ignored (fun rs hrs => nomatch hround.symm.trans hrs) fun _ => hcreated⟩
  | some rs =>
    -- the chunk is stored if it has the size of the round
    by_cases hlen : m.payload.length = rs.chunkSize * 2
    · simp only [hlen]
      refine ⟨_, rfl, .modify hround ⟨?_, rfl, rfl, rfl⟩⟩
      rw [Progress.receive_chunk _ htype,
        if_pos (show m.payload.length = rs.progress.chunkSize * 2 from hlen)]
      simp only [RoundState.progress, RoundState.updateClient]
      rw [Dict.map_modify]
      exact fun c => rfl
    · simp only [hlen]
      refine ⟨s, rfl, .ignored (fun rs' hrs' => ?_) fun _ => hcreated⟩
      obtain rfl : rs = rs' := Option.some.inj (hround.symm.trans hrs')
      rw [Progress.receive_chunk _ htype]
      exact if_neg hlen

theorem handleRoundInit_arrival (htype : m.header.messageType = 0x40) : ∃ r s₁,
    (handleRoundInit m.header m.payload).advance s = (.ended r, s₁) ∧ Arrival m s s₁ ∧
      Quiet r := by
  have hreceive : ∀ p : Progress, p.receive m = p := fun p =>
    p.receive_of_notMem (by rw [htype]; decide)
  by_cases hmem : m.header.roundId ∈ s.rounds.keys
  · have hcontains : s.rounds.contains m.header.roundId = true := by simpa using hmem
    refine ⟨.ok (), s, ?_, .ignored (fun rs _ => hreceive _) fun hnone => ?_, .ok ()⟩
    · show (if s.rounds.contains m.header.roundId then _ else _ : Server Unit).advance s = _
      rw [if_pos hcontains]
      rfl
    · exact absurd hmem (Dict.get?_eq_none_iff.mp hnone)
  · have hcontains : ¬s.rounds.contains m.header.roundId = true := by simpa using hmem
    have hnone := Dict.get?_eq_none_iff.mpr hmem
    show ∃ r s₁, (if s.rounds.contains m.header.roundId then _ else _ : Server Unit).advance s =
      (.ended r, s₁) ∧ _
    rw [if_neg hcontains]
    split
    · -- eight bytes at least: the round is created
      rename_i hpayload
      refine ⟨_, _, rfl, ⟨fun id hid => ?_, fun rs hrs => ?_, fun _ => ?_, rfl, .inl rfl, id⟩,
        .ok ()⟩
      · rw [Dict.get?_insert, if_neg hid]
      · rw [hnone] at hrs
        cases hrs
      · rw [Dict.get?_insert, if_pos rfl, Message.createdRound, if_pos htype, hpayload]
    · -- a shorter payload raises before anything is changed
      rename_i hshort
      refine ⟨_, _, rfl, .ignored (fun rs _ => hreceive _) fun _ => ?_, .error (by decide)⟩
      rw [Message.createdRound, if_pos htype]
      split
      · rename_i hpayload
        exact absurd hpayload (hshort _ _ _ _ _ _ _ _ _)
      · rfl

/-- A completed client, with its sample count. -/
theorem Receives.complete (htype : m.header.messageType = 0x30) :
    Receives m rs (rs.updateClient m.header.clientId
      (fun c => { c with
        sampleCount := announcedSamples m.payload c.sampleCount, completed := true })
      fun _ => rfl) where
  progress := by
    rw [Progress.receive_complete _ htype]
    simp only [RoundState.progress, RoundState.updateClient]
    rw [Dict.map_modify]
    exact fun c => rfl
  roundId := rfl
  stage := rfl
  unmaskedChunks := rfl

/-- Recovery shows neither in the progress of a round nor in its stage and result. -/
theorem Receives.recover (hmac : Hmac) (dropouts : List Nat) {rs₁ : RoundState}
    (h : Receives m rs rs₁) : Receives m rs (recoverDropouts hmac dropouts rs₁).2 := by
  obtain ⟨secrets, hsecrets⟩ := recoverDropouts_secrets hmac dropouts rs₁
  rw [hsecrets]
  clear hsecrets
  induction secrets generalizing rs₁ with
  | nil => exact h
  | cons p secrets ih =>
    refine ih ⟨?_, h.roundId, h.stage, h.unmaskedChunks⟩
    exact (rs₁.progress_setSharedSecret p.1 p.2).trans h.progress

/-- Recovery does not suspend; what it changed before an exception stays. -/
theorem advance_runRecovery (env : HostEnv) {roundId : Nat}
    (hround : s.rounds.get? roundId = some rs) : ∃ r,
    (runRecovery env roundId).advance s = (.ended r, { s with
      rounds := s.rounds.modify roundId fun _ => (triggerRecovery env.hmac rs).2 }) ∧ Quiet r := by
  rw [runRecovery, advance_getRound_bind, hround]
  have hquiet := triggerRecovery_quiet env.hmac rs
  dsimp only
  generalize triggerRecovery env.hmac rs = result at hquiet ⊢
  obtain ⟨raised, rs'⟩ := result
  cases raised with
  | none => exact ⟨_, rfl, .ok ()⟩
  | some e => exact ⟨_, rfl, .error (hquiet e rfl)⟩

/-- A reported dropout. -/
theorem Receives.dropout (htype : m.header.messageType = 0x31) :
    Receives m rs (rs.recordDropout m.header.clientId) := by
  have hreceive : rs.progress.receive m =
      if m.header.clientId ∈ rs.dropoutClients then rs.progress
      else { rs.progress with dropouts := rs.dropoutClients ++ [m.header.clientId] } :=
    rs.progress.receive_dropout htype
  unfold RoundState.recordDropout
  by_cases hmem : m.header.clientId ∈ rs.dropoutClients
  · rw [if_pos hmem] at hreceive ⊢
    exact ⟨hreceive.symm, rfl, rfl, rfl⟩
  · rw [if_neg hmem] at hreceive ⊢
    exact ⟨hreceive.symm, rfl, rfl, rfl⟩

/-- The handlers that do not call the check. -/
theorem handler_arrival (env : HostEnv) (hcomplete : m.header.messageType ≠ 0x30)
    (hdropout : m.header.messageType ≠ 0x31) : ∃ r s₁,
    (m.handler env).advance s = (.ended r, s₁) ∧ Arrival m s s₁ ∧ Quiet r := by
  have hreturns : ∀ {c : Server Unit},
      (∃ s₁, c.advance s = (.ended (.ok ()), s₁) ∧ Arrival m s s₁) →
        ∃ r s₁, c.advance s = (.ended r, s₁) ∧ Arrival m s s₁ ∧ Quiet r :=
    fun ⟨s₁, hadvance, harrival⟩ => ⟨_, s₁, hadvance, harrival, .ok ()⟩
  unfold Message.handler dispatchMessage
  split
  · rename_i htype
    exact hreturns (handlePublicKey_arrival htype)
  rename_i hkey
  split
  · rename_i htype
    exact hreturns (handleMaskChunk_arrival htype)
  rename_i hchunk
  split
  · rename_i htype
    exact handleRoundInit_arrival htype
  rename_i hinit
  split
  · rename_i htype
    exact hreturns (handlePairwisePubkey_arrival htype)
  split
  · rename_i htype
    exact hreturns (handlePairwiseCiphertext_arrival htype)
  · -- messages of other types
    refine hreturns ⟨s, rfl, .ignored (fun rs _ => ?_) fun _ => Message.createdRound_of_ne hinit⟩
    exact rs.progress.receive_of_ne hkey hchunk hcomplete hdropout

/-- The part of a handler before the check does not suspend, and receives the message. -/
theorem beforeCheck_arrival (env : HostEnv) (m : Message) (s : ServerState) : ∃ r s₁,
    (beforeCheck env m).advance s = (.ended r, s₁) ∧ Arrival m s s₁ ∧ Quiet r ∧
      (r = .ok true → m.Checks s) := by
  unfold beforeCheck
  by_cases hcomplete : m.header.messageType = 0x30
  · have hcreated : m.createdRound = none := Message.createdRound_of_ne (by rw [hcomplete]; decide)
    rw [if_pos hcomplete, advance_getClient_bind]
    cases hclient : (s.rounds.get? m.header.roundId).bind
        fun rs => rs.clients.get? m.header.clientId with
    | none =>
      refine ⟨.ok false, s, rfl, .ignored (fun rs hrs => ?_) fun _ => hcreated, .ok false, nofun⟩
      have hnew : m.header.clientId ∉ rs.progress.deliveries.keys := by
        rw [RoundState.progress, Dict.keys_map]
        exact getClient_eq_none hclient hrs
      rw [Progress.receive_complete _ hcomplete, Dict.modify_of_notMem _ hnew]
    | some c =>
      obtain ⟨rs, hround, hc⟩ := getClient_eq_some hclient
      exact ⟨.ok true, _, rfl, .modify hround (.complete hcomplete), .ok true,
        fun _ => ⟨rs, hround, .inl ⟨hcomplete, Dict.mem_keys_of_get? hc⟩⟩⟩
  rw [if_neg hcomplete]
  by_cases hdropout : m.header.messageType = 0x31
  · have hcreated : m.createdRound = none := Message.createdRound_of_ne (by rw [hdropout]; decide)
    rw [if_pos hdropout, advance_getRound_bind]
    cases hround : s.rounds.get? m.header.roundId with
    | none =>
      exact ⟨.ok false, s, rfl, .ignored (fun rs hrs => nomatch hround.symm.trans hrs)
        fun _ => hcreated, .ok false, nofun⟩
    | some rs =>
      -- the dropout is recorded before recovery runs, and stays also if recovery raises
      let s₂ : ServerState := { s with
        rounds := s.rounds.modify m.header.roundId fun rs => rs.recordDropout m.header.clientId }
      have hround₂ : s₂.rounds.get? m.header.roundId =
          some (rs.recordDropout m.header.clientId) := by
        rw [Dict.get?_modify, if_pos rfl, hround, Option.map_some]
      have hreceives : Receives m rs
          (triggerRecovery env.hmac (rs.recordDropout m.header.clientId)).2 :=
        .recover env.hmac _ (.dropout hdropout)
      have harrival := Arrival.modify_modify
        (f := fun rs => rs.recordDropout m.header.clientId)
        (g := fun _ => (triggerRecovery env.hmac (rs.recordDropout m.header.clientId)).2)
        hround hreceives
      obtain ⟨r, hrecovery, hquiet⟩ := advance_runRecovery env hround₂
      show ∃ r s₁, (runRecovery env m.header.roundId >>= fun _ => pure true).advance s₂ =
        (.ended r, s₁) ∧ _
      rw [Coroutine.advance_bind, hrecovery]
      cases r with
      | ok _ => exact ⟨_, _, rfl, harrival, .ok true, fun _ => ⟨rs, hround, .inr hdropout⟩⟩
      | error e => exact ⟨_, _, rfl, harrival, .error (hquiet e rfl), nofun⟩
  rw [if_neg hdropout]
  obtain ⟨r, s₁, hhandler, harrival, hquiet⟩ := handler_arrival (s := s) env hcomplete hdropout
  rw [Coroutine.advance_bind, hhandler]
  cases r with
  | ok _ => exact ⟨_, _, rfl, harrival, .ok false, nofun⟩
  | error e => exact ⟨_, _, rfl, harrival, .error (hquiet e rfl), nofun⟩

end

/-! ## Whole messages -/

/-- The server when the handler of a message has come to the check, or to its end without it. -/
def ServerState.receive (env : HostEnv) (s : ServerState) (m : Message) :
    Except PyErr Bool × ServerState :=
  (beforeCheck env m).run { s with closing := m.closing }

theorem receive_arrival (env : HostEnv) (s : ServerState) (m : Message) :
    Arrival m s (s.receive env m).2 ∧ ((s.receive env m).1 = .ok true → m.Checks s) := by
  obtain ⟨r, s₁, hadvance, harrival, -, hchecks⟩ :=
    beforeCheck_arrival env m { s with closing := m.closing }
  rw [ServerState.receive, Coroutine.run_of_advance hadvance]
  exact ⟨⟨harrival.other, harrival.own, harrival.created, harrival.sent, harrival.clientWriters,
    fun _ => harrival.closing rfl⟩, hchecks⟩

theorem receive_closing (env : HostEnv) (s : ServerState) (m : Message) :
    (s.receive env m).2.closing = m.closing := by
  obtain ⟨r, s₁, hadvance, harrival, -⟩ :=
    beforeCheck_arrival env m { s with closing := m.closing }
  rw [ServerState.receive, Coroutine.run_of_advance hadvance]
  exact harrival.closing rfl

/-- Handling a message is receiving it, and then the check. -/
theorem handle_eq (env : HostEnv) (s : ServerState) (m : Message) :
    s.handle env m =
      if (s.receive env m).1 = .ok true then
        ((checkRoundCompletion env m.header.roundId).run (s.receive env m).2).2
      else (s.receive env m).2 := by
  rw [ServerState.handle, handler_eq, Coroutine.run_bind, ServerState.receive]
  obtain ⟨r, s₁⟩ := (beforeCheck env m).run { s with closing := m.closing }
  cases r with
  | error e => rfl
  | ok reached =>
    cases reached with
    | false => rfl
    | true => rfl

/-- A round after a message was there before, has received it, or is created by it. -/
theorem Arrival.origin {m : Message} {s s₁ : ServerState} (h : Arrival m s s₁) {id : Nat}
    {rs₁ : RoundState} (hrs₁ : s₁.rounds.get? id = some rs₁) :
    s.rounds.get? id = some rs₁ ∨ (∃ rs, s.rounds.get? id = some rs ∧ Receives m rs rs₁) ∨
      id = m.header.roundId ∧ m.createdRound = some rs₁ := by
  by_cases hid : id = m.header.roundId
  · subst hid
    cases hrs : s.rounds.get? m.header.roundId with
    | some rs =>
      obtain ⟨rs₁', hrs₁', hreceives⟩ := h.own rs hrs
      obtain rfl : rs₁' = rs₁ := Option.some.inj (hrs₁'.symm.trans hrs₁)
      exact .inr (.inl ⟨rs, rfl, hreceives⟩)
    | none =>
      rw [h.created hrs] at hrs₁
      exact .inr (.inr ⟨rfl, hrs₁⟩)
  · exact .inl ((h.other id hid).symm.trans hrs₁)

theorem Arrival.keyed {m : Message} {s s₁ : ServerState} (h : Arrival m s s₁) (hkeyed : s.Keyed) :
    s₁.Keyed := by
  intro id rs₁ hrs₁
  obtain hbefore | ⟨rs, hrs, hreceives⟩ | ⟨rfl, hcreated⟩ := h.origin hrs₁
  · exact hkeyed id rs₁ hbefore
  · exact hreceives.roundId.trans (hkeyed id rs hrs)
  · obtain ⟨_, _, _, _, rfl⟩ := Message.createdRound_eq_some hcreated
    rfl

/-- What the check does to the server, without interference. -/
theorem checkRoundCompletion_writes (env : HostEnv) (roundId : Nat) {s : ServerState}
    (hkeyed : s.Keyed) : Relation.ReflTransGen
      (ServerWrite CompletionWrite (RoundMessage roundId) roundId) s
      ((checkRoundCompletion env roundId).run s).2 :=
  ((checkRoundCompletion_completionOnly s hkeyed).run fun _ h => h).1

/-- What a message adds to the progress of a round. -/
def Message.advance (m : Message) (id : Nat) (p : Option Progress) : Option Progress :=
  if id = m.header.roundId then
    match p with
    | some p => some (p.receive m)
    | none => m.createdRound.map RoundState.progress
  else p

theorem Arrival.progress {m : Message} {s s₁ : ServerState} (h : Arrival m s s₁) (id : Nat) :
    s₁.progress id = m.advance id (s.progress id) := by
  unfold Message.advance
  by_cases hid : id = m.header.roundId
  · subst hid
    rw [if_pos rfl, ServerState.progress, ServerState.progress]
    cases hrs : s.rounds.get? m.header.roundId with
    | some rs =>
      obtain ⟨rs₁, hrs₁, hreceives⟩ := h.own rs hrs
      rw [hrs₁, Option.map_some, hreceives.progress]
      rfl
    | none =>
      rw [h.created hrs]
      rfl
  · rw [if_neg hid, ServerState.progress, h.other id hid, ServerState.progress]

/-- Handling a message is receiving it, as far as the progress of rounds goes. -/
theorem handle_progress (env : HostEnv) {s : ServerState} (m : Message) (hkeyed : s.Keyed)
    (id : Nat) : (s.handle env m).progress id = m.advance id (s.progress id) := by
  obtain ⟨harrival, -⟩ := receive_arrival env s m
  rw [handle_eq, ← harrival.progress]
  split
  · refine (checkRoundCompletion_writes env _ (harrival.keyed hkeyed)).preserves
      (P := fun s' => s'.progress id = (s.receive env m).2.progress id) ?_ rfl
    intro s' s'' hwrite ih
    rw [hwrite.progress, ih]
  · rfl

/-- A message that leaves a new writer has connected it. -/
theorem Arrival.mem_writers {m : Message} {s s₁ : ServerState} (h : Arrival m s s₁) {w : Nat}
    (hw : w ∈ s₁.clientWriters.values) :
    w ∈ s.clientWriters.values ∨ m.Connects s ∧ w = m.writer := by
  obtain hsame | ⟨hconnects, hinsert⟩ := h.clientWriters
  · exact .inl (hsame ▸ hw)
  · rw [hinsert, Dict.mem_values_iff] at hw
    obtain ⟨id, hid⟩ := hw
    rw [Dict.get?_insert] at hid
    split at hid
    · cases hid
      exact .inr ⟨hconnects, rfl⟩
    · exact .inl (Dict.mem_values_iff.mpr ⟨id, hid⟩)

/-- The writers that messages leave are those there were, or theirs. -/
theorem handleAll_mem_writers (env : HostEnv) {s : ServerState} (hkeyed : s.Keyed)
    (ms : List Message) {w : Nat} (hw : w ∈ (s.handleAll env ms).clientWriters.values) :
    w ∈ s.clientWriters.values ∨ ∃ m ∈ ms, m.header.messageType ∈ [0x01, 0x10] ∧ m.writer = w := by
  induction ms generalizing s with
  | nil => exact .inl hw
  | cons m ms ih =>
    obtain ⟨harrival, -⟩ := receive_arrival env s m
    have hwriters : (s.handle env m).clientWriters = (s.receive env m).2.clientWriters := by
      rw [handle_eq]
      split
      · exact (ServerWrite.chain
          (checkRoundCompletion_writes env _ (harrival.keyed hkeyed))).1
      · rfl
    obtain hw | ⟨m', hm', hregisters⟩ := ih (handle_writes env m hkeyed).2 hw
    · rw [hwriters] at hw
      obtain hw | ⟨⟨rs, -, hconnects⟩, rfl⟩ := harrival.mem_writers hw
      · exact .inl hw
      · refine .inr ⟨m, List.mem_cons_self, ?_, rfl⟩
        obtain htype | ⟨htype, -⟩ := hconnects
        · simp [htype]
        · simp [htype]
    · exact .inr ⟨m', List.mem_cons_of_mem m hm', hregisters⟩

/-- The progress of a round after messages: it does not depend on the environment. -/
def progressOf (ms : List Message) (id : Nat) (p : Option Progress) : Option Progress :=
  ms.foldl (fun p m => m.advance id p) p

/-- The server refines the progress of its rounds, over whole runs. -/
theorem handleAll_progress (env : HostEnv) {s : ServerState} (hkeyed : s.Keyed)
    (ms : List Message) (id : Nat) :
    (s.handleAll env ms).progress id = progressOf ms id (s.progress id) := by
  induction ms generalizing s with
  | nil => rfl
  | cons m ms ih =>
    have hrest := ih (handle_writes env m hkeyed).2
    rwa [handle_progress env m hkeyed] at hrest

end SwiftAgg.Host
