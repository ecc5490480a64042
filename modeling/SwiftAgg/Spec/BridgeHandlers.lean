import SwiftAgg.Spec.BridgeAggregation
import SwiftAgg.Spec.Interleaving
import SwiftAgg.Spec.PublicView

/-!
# The handlers of the protocol bridge

In states without dropouts the handlers of the protocol bridge and of the
baseline server agree up to key material, also if the clients have keys for the
one server and their counterparts for the other. The two aggregations are
different functions, and the bridge stores Shamir shares, which the baseline
server ignores.

## Key results

- `publish_agrees`: both publish the same aggregate
- `checkRoundCompletion_agrees`: the two checks
- `handler_agrees`: the two handlers of a message
-/

namespace SwiftAgg.Host

open Coroutine

/-! ## Rounds without dropouts -/

/-- Nobody has dropped out, and the stored chunks have the length of the round. -/
structure Progress.Undropped (p : Progress) : Prop where
  dropouts : p.dropouts = []
  chunks : ∀ id d, p.deliveries.get? id = some d →
    ∀ seq data, d.chunks.get? seq = some data → data.length = p.chunkSize * 2

theorem Progress.undropped_new {m : Message} {rs : RoundState} (h : m.createdRound = some rs) :
    rs.progress.Undropped := by
  obtain ⟨_, _, _, _, rfl⟩ := Message.createdRound_eq_some h
  exact ⟨rfl, nofun⟩

theorem Progress.Undropped.receive {p : Progress} {m : Message} (h : p.Undropped)
    (hm : m.header.messageType ≠ 0x31) : (p.receive m).Undropped := by
  generalize hp' : p.receive m = p'
  cases hp' ▸ p.receipt m with
  | ignored => exact h
  | dropped htype hnew => exact (hm htype).elim
  | registered htype hnew => exact ⟨h.dropouts, Dict.forall_insert h.chunks nofun⟩
  | chunk htype hlen =>
    -- the new chunk has the length of the round, the client's others had it before
    refine ⟨h.dropouts, Dict.forall_modify h.chunks fun d hd => ?_⟩
    exact Dict.forall_insert (h.chunks _ d hd) hlen
  | completed htype => exact ⟨h.dropouts, Dict.forall_modify h.chunks (h.chunks _)⟩

theorem Progress.Undropped.wellFormed {rs : RoundState} (h : rs.progress.Undropped) :
    rs.WellFormed where
  dropouts := by
    have hnone : rs.dropoutClients = [] := h.dropouts
    exact hnone ▸ List.nodup_nil
  chunks id c hc := by
    refine h.chunks id c.delivery ?_
    rw [RoundState.progress, Dict.get?_map, hc, Option.map_some]

/-- The states in which the two servers agree. -/
abbrev ServerState.Undropped (s : ServerState) : Prop := ProgressInvariant Progress.Undropped s

theorem ServerState.Undropped.round {s : ServerState} (h : s.Undropped) {id : Nat}
    {rs : RoundState} (hrs : s.rounds.get? id = some rs) : rs.progress.Undropped := by
  refine h.progress id rs.progress ?_
  rw [ServerState.progress, hrs, Option.map_some]

section

variable {J : Progress → Prop} {roundId : Nat} {s s' : ServerState}

/-- A write of completion keeps what depends on the progress. -/
theorem ProgressInvariant.completion {S : Bytes → Prop} (h : ProgressInvariant J s)
    (hw : ServerWrite CompletionWrite S roundId s s') : ProgressInvariant J s' where
  keyed := ServerWrite.keyed (fun _ _ => CompletionWrite.roundId) s s' hw h.keyed
  progress id p hp := by
    rw [hw.progress] at hp
    exact h.progress id p hp

theorem keeps_of_completes {α : Type} {S : Bytes → Prop} {c : Server α}
    (h : WritesOnly CompletionWrite S roundId c) : Maintains (ProgressInvariant J) c :=
  Follows.keeps h (fun _ hs => hs.keyed) fun _ _ hw hs => hs.completion hw

end

/-! ## Publication -/

/-- The states in which the two servers agree: the same up to key material, and without dropouts. -/
abbrev Matches (counterpart : Bytes → Bytes) (s t : ServerState) : Prop :=
  SameView counterpart s t ∧ s.Undropped

/-- The second server has no dropouts either. -/
theorem Matches.right {counterpart : Bytes → Bytes} {s t : ServerState}
    (h : Matches counterpart s t) : t.Undropped := by
  have hround : ∀ id rs', t.rounds.get? id = some rs' → rs'.roundId = id ∧
      rs'.progress.Undropped := by
    intro id rs' hrs'
    have hget := h.1.get? id
    rw [hrs', Option.map_some] at hget
    obtain ⟨rs, hrs, hview⟩ := Option.map_eq_some_iff.mp hget
    have hid : rs'.roundId = rs.roundId := congrArg RoundView.roundId hview.symm
    exact ⟨hid.trans (h.2.keyed id rs hrs), progress_of_view hview ▸ h.2.round hrs⟩
  refine ⟨fun id rs' hrs' => (hround id rs' hrs').1, fun id p hp => ?_⟩
  obtain ⟨rs', hrs', rfl⟩ := Option.map_eq_some_iff.mp hp
  exact (hround id rs' hrs').2

namespace ProtocolBridge

variable {env env' : HostEnv} {counterpart : Bytes → Bytes} {roundId : Nat}

/-- `_unmask_and_aggregate` after key setup and recovery. -/
def publish (roundId : Nat) : Server Unit := do
  match ← getRound roundId with
  | none => return
  | some rs =>
    let fedavgChunks ← Coroutine.liftExcept (finalizeAggregation rs)
    modifyRound roundId fun rs =>
      { rs with unmaskedChunks := fedavgChunks, stage := .roundComplete }
    let telemetry ← Coroutine.liftExcept (packTelemetry rs.roundId)
    Coroutine.forPositions (fun s => s.clientWriters.entries.length) dictChanged fun i => do
      match (← Coroutine.state).clientWriters.entries[i]? with
      | some (_, writer) =>
        let numChunks ← Coroutine.liftExcept rs.numChunks
        (List.range numChunks).forM (sendChunk rs fedavgChunks telemetry writer)
      | none => return

theorem unmaskAndAggregate_eq (env : HostEnv) (roundId : Nat) :
    unmaskAndAggregate env roundId = prepare env roundId >>= fun _ => publish roundId := by
  rw [prepare, bind_assoc]
  rfl

/-- Rounds with the same view, without dropouts, have the same aggregate. -/
theorem finalizeAggregation_of_view {rs rs' : RoundState} {f f' : Bytes → Bytes}
    (hview : rs.view f = rs'.view f') (hund : rs.progress.Undropped) (hmac : Hmac) (aes : AesCtr) :
    finalizeAggregation rs' = aggregate hmac aes rs := by
  have hprogress := progress_of_view hview
  have hund' : rs'.progress.Undropped := hprogress ▸ hund
  rw [finalizeAggregation_eq_aggregate hund'.wellFormed hund'.dropouts hmac aes]
  have hchunk : rs'.chunkSize = rs.chunkSize := congrArg Progress.chunkSize hprogress.symm
  have hmodel : rs'.modelSize = rs.modelSize := congrArg Progress.modelSize hprogress.symm
  by_cases hzero : rs.chunkSize = 0
  · -- neither of them counts the chunks
    have hnum : rs.numChunks = .error .zeroDivisionError := if_pos hzero
    have hnum' : rs'.numChunks = .error .zeroDivisionError := if_pos (hchunk.trans hzero)
    rw [aggregate, aggregate, unmaskClientChunks, unmaskClientChunks, hnum, hnum']
    rfl
  · obtain ⟨fed, hfed, hkeys, hrows⟩ :=
      aggregate_delivered hund.wellFormed hmac aes hzero hund.dropouts
    obtain ⟨fed', hfed', hkeys', hrows'⟩ :=
      aggregate_delivered hund'.wellFormed hmac aes (hchunk ▸ hzero) hund'.dropouts
    rw [hchunk, hmodel] at hkeys' hrows'
    rw [← hprogress] at hrows'
    rw [hfed, hfed', hrows.unique hrows' hkeys hkeys']

/-- The turn of the bridge after key setup and recovery. -/
theorem publish_advance {s : ServerState} {rs : RoundState}
    (hround : s.rounds.get? roundId = some rs) :
    (publish roundId).advance s =
      match finalizeAggregation rs with
      | .error e => (.ended (.error e), s)
      | .ok fed =>
        (Coroutine.liftExcept (packTelemetry rs.roundId) >>= fun telemetry =>
          broadcast rs fed telemetry (rs.modelSize / rs.chunkSize)).advance
            (s.storeResult roundId fed) := by
  rw [publish, advance_getRound_bind, hround]
  cases hfinal : finalizeAggregation rs with
  | error e =>
    simp only [hfinal]
    rfl
  | ok fed =>
    -- a round that is averaged has chunks, so their number is found again
    obtain ⟨num, hnum, -⟩ := Except.bind_eq_ok.mp hfinal
    have hnumChunks : rs.numChunks = .ok (rs.modelSize / rs.chunkSize) := by
      unfold RoundState.numChunks at hnum ⊢
      split
      · rename_i hzero
        rw [if_pos hzero] at hnum
        cases hnum
      · rfl
    simp only [hfinal, broadcast, hnumChunks, liftExcept_ok_bind]
    rfl

/-- The same chunks are sent by both. -/
theorem broadcast_agrees (rs : RoundState) (fed : Dict Nat (List Int)) (telemetry : Bytes)
    (num : Nat) : Agrees (SameView counterpart) Eq (broadcast rs fed telemetry num)
      (broadcast rs fed telemetry num) := by
  refine Agrees.forPositions (fun s t hst => by rw [hst.clientWriters]) fun i => ?_
  refine Agrees.state_bind fun s t hst => ?_
  rw [hst.clientWriters]
  split
  · refine Agrees.forM (P := Eq) (List.forall₂_refl _) ?_
    rintro seqNum _ rfl
    rw [sendChunk_eq]
    exact Agrees.liftExcept_bind_self _ fun data => writeAndDrain_agrees _ rfl
  · exact .ret rfl

theorem broadcast_keeps {rs : RoundState} (fed : Dict Nat (List Int)) (num : Nat) :
    Maintains ServerState.Undropped (Coroutine.liftExcept (packTelemetry rs.roundId) >>=
      fun telemetry => broadcast rs fed telemetry num) := by
  suffices hwrites : WritesOnly InternalWrite (RoundMessage rs.roundId) rs.roundId _ from
    keeps_of_completes (hwrites.imp (fun _ _ => CompletionWrite.internal) fun _ h => h)
  refine (Follows.liftExcept _).bind fun telemetry => Follows.forPositions fun i => ?_
  refine Follows.state.bind fun s => ?_
  split
  · exact Follows.forM (sendChunk_aggregateOnly rfl _ _ _) _
  · exact Follows.pure _

theorem Matches.storeResult {s t : ServerState} (h : Matches counterpart s t) (roundId : Nat)
    (fed : Dict Nat (List Int)) :
    Matches counterpart (s.storeResult roundId fed) (t.storeResult roundId fed) := by
  have hwrite : ServerWrite CompletionWrite (RoundMessage roundId) roundId s
      (s.storeResult roundId fed) :=
    .round s _ fun rs _ => .internal (.complete rs fed)
  refine ⟨?_, h.2.completion hwrite⟩
  have hstore : ∀ (s : ServerState) (f : Bytes → Bytes), (s.storeResult roundId fed).view f =
      { s.view f with rounds := (s.view f).rounds.modify roundId fun v =>
          { v with unmaskedChunks := fed, stage := .roundComplete } } :=
    fun s f => view_modifyRound (fun _ => rfl) s
  rw [SameView, hstore, hstore, show s.view counterpart = t.view id from h.1]

/-- Of its round, the broadcast uses the number and the length of the chunks. -/
theorem broadcast_of_view {rs rs' : RoundState} {f f' : Bytes → Bytes} (h : rs.view f = rs'.view f')
    (fed : Dict Nat (List Int)) (telemetry : Bytes) (num : Nat) :
    broadcast rs' fed telemetry num = broadcast rs fed telemetry num := by
  have hid : rs'.roundId = rs.roundId := congrArg RoundView.roundId h.symm
  have hchunk : rs'.chunkSize = rs.chunkSize := congrArg RoundView.chunkSize h.symm
  have hsend : sendChunk rs' = sendChunk rs := by
    funext fed telemetry writer seqNum
    rw [sendChunk, sendChunk, hid, hchunk]
  rw [broadcast, broadcast, hsend]

/-- Both publish the same aggregate. -/
theorem publish_agrees (env : HostEnv) (roundId : Nat) :
    Agrees (Matches counterpart) Eq (Host.publish env roundId) (publish roundId) := by
  intro s t hst
  have hget := hst.1.get? roundId
  cases hround : s.rounds.get? roundId with
  | none =>
    have hround' : t.rounds.get? roundId = none := by
      rw [hround, Option.map_none] at hget
      exact Option.map_eq_none_iff.mp hget.symm
    refine (Agrees.ret (a := ()) (b := ()) rfl s t hst).congr ?_ ?_
    · rw [Host.publish, advance_getRound_bind, hround]
      rfl
    · rw [publish, advance_getRound_bind, hround']
      rfl
  | some rs =>
    -- both turns start with the aggregate of the baseline server's round
    rw [hround, Option.map_some] at hget
    obtain ⟨rs', hround', hview⟩ := Option.map_eq_some_iff.mp hget.symm
    have hund := hst.2.round hround
    have hadvance := Host.publish_advance env hround
    have hadvance' := publish_advance hround'
    rw [finalizeAggregation_of_view hview.symm hund env.hmac env.aes] at hadvance'
    cases hfed : aggregate env.hmac env.aes rs with
    | error e =>
      rw [hfed] at hadvance hadvance'
      exact (Agrees.raise e s t hst).congr hadvance hadvance'
    | ok fed =>
      rw [hfed] at hadvance hadvance'
      obtain ⟨unmasked, hunmasked, -⟩ := Except.bind_eq_ok.mp hfed
      have hchunk : rs.chunkSize ≠ 0 := fun hzero => by
        have hnum := numChunks_of_unmaskClientChunks hunmasked
        rw [RoundState.numChunks, if_pos hzero] at hnum
        cases hnum
      -- no chunk is missing
      obtain ⟨fed', hfed', hkeys, -⟩ :=
        aggregate_delivered hund.wellFormed env.hmac env.aes hchunk hund.dropouts
      obtain rfl := Except.ok.inj (hfed.symm.trans hfed')
      simp only [hkeys, imp_self, implies_true, if_true] at hadvance
      -- the bridge's broadcast is the one of the baseline server's round
      obtain ⟨hid, -, -, hchunkSize, hmodelSize, -⟩ := RoundView.mk.inj hview
      simp only [broadcast_of_view hview.symm] at hadvance'
      rw [show rs'.roundId = rs.roundId from hid, show rs'.chunkSize = rs.chunkSize from hchunkSize,
        show rs'.modelSize = rs.modelSize from hmodelSize] at hadvance'
      have hbroadcast : Agrees (SameView counterpart) Eq _ _ :=
        Agrees.liftExcept_bind_self (packTelemetry rs.roundId) fun telemetry =>
          broadcast_agrees rs fed telemetry (rs.modelSize / rs.chunkSize)
      have hagrees := hbroadcast.keeps (broadcast_keeps fed _)
      exact (hagrees _ _ (Matches.storeResult hst roundId fed)).congr hadvance hadvance'

/-- Nobody is to be recovered. -/
theorem runRecovery_undropped {s : ServerState} (h : s.Undropped) :
    (runRecovery env roundId).advance s = (.ended (.ok ()), s) := by
  rw [runRecovery, advance_getRound_bind]
  cases hround : s.rounds.get? roundId with
  | none => rfl
  | some rs =>
    have hnone : rs.dropoutClients = [] := (h.round hround).dropouts
    -- the round is written back as it was read
    have hsame : s.rounds.modify roundId (fun _ => rs) = s.rounds := by
      refine Dict.ext_get? (Dict.keys_modify _ _ _) fun id => ?_
      rw [Dict.get?_modify]
      split
      · rename_i hid
        rw [hid, hround, Option.map_some]
      · rfl
    have hrecovery : triggerRecovery env.hmac rs = (none, rs) := by
      rw [triggerRecovery, hnone, recoverDropouts]
    simp only [hrecovery]
    show (Stop.ended (.ok ()), { s with rounds := s.rounds.modify roundId fun _ => rs }) = _
    rw [hsame]

section

variable (henv : env.Counterpart env' counterpart)

include henv

theorem prepare_agrees (roundId : Nat) :
    Agrees (Matches counterpart) Eq (prepare env roundId) (prepare env' roundId) := by
  have hsetup : WritesOnly CompletionWrite KeyMessage roundId (setupKeysAndMasks env roundId) :=
    setupKeysAndMasks_keyOnly.imp (fun _ _ => CompletionWrite.internal) fun _ h => h
  refine Agrees.bind ((setupKeysAndMasks_agrees henv).keeps (keeps_of_completes hsetup))
    fun _ _ _ s t hst => ?_
  exact (Agrees.ret (a := ()) (b := ()) rfl s t hst).congr (runRecovery_undropped hst.2)
    (runRecovery_undropped hst.right)

theorem unmaskAndAggregate_agrees (roundId : Nat) :
    Agrees (Matches counterpart) Eq (Host.unmaskAndAggregate env roundId)
      (unmaskAndAggregate env' roundId) := by
  rw [Host.unmaskAndAggregate_eq, unmaskAndAggregate_eq]
  exact (prepare_agrees henv roundId).bind fun _ _ _ => publish_agrees env roundId

end

/-! ## The check -/

/-- An assignment to a round keeps what holds without dropouts, if it keeps the round's. -/
theorem keeps_modifyRound {roundId : Nat} {f : RoundState → RoundState}
    (hid : ∀ rs, (f rs).roundId = rs.roundId)
    (hf : ∀ rs, rs.progress.Undropped → (f rs).progress.Undropped) :
    Maintains ServerState.Undropped (modifyRound roundId f) := by
  refine Maintains.update fun s hs => ⟨?_, fun id p hp => ?_⟩
  · exact Dict.forall_modify hs.keyed fun rs hrs => (hid rs).trans (hs.keyed roundId rs hrs)
  · obtain ⟨rs', hrs', rfl⟩ := Option.map_eq_some_iff.mp hp
    exact Dict.forall_modify (fun _ _ => hs.round) (fun rs hrs => hf rs (hs.round hrs)) id rs' hrs'

/-- Where the names of messages are not defined, both servers find that out. -/
theorem handleRoundFailure_agrees :
    Agrees (Matches counterpart) Eq handleRoundFailure handleRoundFailure := by
  have hwrites : WritesOnly CompletionWrite (RoundMessage 0) 0 handleRoundFailure :=
    handleRoundFailure_completionOnly
  refine Agrees.keeps ?_ (keeps_of_completes hwrites)
  refine Agrees.forPositions (fun s t hst => by rw [hst.clientWriters]) fun i => ?_
  refine Agrees.state_bind fun s t hst => ?_
  rw [hst.clientWriters, hst.closing]
  split
  · split
    · exact .ret rfl
    · exact .raise _
  · exact .ret rfl

/-- Setting the stage of a round. -/
theorem setStage_agrees (stage : Stage) :
    Agrees (Matches counterpart) Eq (modifyRound roundId fun rs => { rs with stage := stage })
      (modifyRound roundId fun rs => { rs with stage := stage }) :=
  (modifyRound_agrees (fun v => { v with stage := stage }) (fun _ => rfl) fun _ => rfl).keeps
    (keeps_modifyRound (fun _ => rfl) fun _ h => h)

/-- The two checks agree in states without dropouts. -/
theorem checkRoundCompletion_agrees (henv : env.Counterpart env' counterpart) (roundId : Nat) :
    Agrees (Matches counterpart) Eq (Host.checkRoundCompletion env roundId)
      (checkRoundCompletion env' roundId) := by
  refine getRound_agrees (fun _ _ h => h.1) (.ret rfl) fun rs rs' hview => ?_
  show Agrees _ _ (if rs.Unmasks then _ else if rs.surviving < rs.threshold then _ else _)
    (if rs'.Unmasks then _ else if rs'.surviving < rs'.threshold then _ else _)
  have hunmasks : rs'.Unmasks ↔ rs.Unmasks := by
    rw [rs'.unmasks_iff, rs.unmasks_iff, progress_of_view hview]
  have hsurviving : rs'.surviving = rs.surviving := by
    rw [RoundState.surviving, RoundState.surviving,
      show rs'.expectedClients = rs.expectedClients from
        congrArg RoundView.expectedClients hview.symm,
      show rs'.dropoutClients = rs.dropoutClients from congrArg RoundView.dropoutClients hview.symm]
  rw [hsurviving, show rs'.threshold = rs.threshold from congrArg RoundView.threshold hview.symm]
  simp only [hunmasks]
  split
  · exact (setStage_agrees _).bind fun _ _ _ => unmaskAndAggregate_agrees henv roundId
  split
  · exact (setStage_agrees _).bind fun _ _ _ => handleRoundFailure_agrees
  · exact .ret rfl

/-! ## The handlers -/

/-- The events that the two servers handle alike: no messages of the pairwise key exchange, for
    which the bridge has no methods, and no reports of dropouts. -/
def Handled : Event → Prop
  | .dispatch m => m.header.messageType ∉ [0x10, 0x11, 0x31]
  | _ => True

instance : DecidablePred Handled
  | .dispatch m => inferInstanceAs (Decidable (m.header.messageType ∉ [0x10, 0x11, 0x31]))
  | .resume _ | .close _ => isTrue trivial

end ProtocolBridge

/-- The message for a server that is given the counterparts of the public keys. -/
def Message.translate (counterpart : Bytes → Bytes) (m : Message) : Message :=
  if m.header.messageType = 0x01 then
    { m with
      header := { m.header with payloadLength := (counterpart m.payload).length }
      payload := counterpart m.payload }
  else m

theorem Message.translate_key {counterpart : Bytes → Bytes} {m : Message}
    (h : m.header.messageType = 0x01) : m.translate counterpart =
      { m with
        header := { m.header with payloadLength := (counterpart m.payload).length }
        payload := counterpart m.payload } :=
  if_pos h

theorem Message.translate_of_ne {counterpart : Bytes → Bytes} {m : Message}
    (h : m.header.messageType ≠ 0x01) : m.translate counterpart = m :=
  if_neg h

@[simp] theorem Message.writer_translate (counterpart : Bytes → Bytes) (m : Message) :
    (m.translate counterpart).writer = m.writer := by
  rw [Message.translate]
  split
  · rfl
  · rfl

@[simp] theorem Message.closing_translate (counterpart : Bytes → Bytes) (m : Message) :
    (m.translate counterpart).closing = m.closing := by
  rw [Message.translate]
  split
  · rfl
  · rfl

namespace ProtocolBridge

theorem handlePublicKey_agrees (header : MessageHeader) (len : Nat) (payload : Bytes)
    (writer : Nat) : Agrees (SameView counterpart) Eq (handlePublicKey header payload writer)
      (handlePublicKey { header with payloadLength := len } (counterpart payload) writer) := by
  refine getRound_agrees (fun _ _ h => h) (.ret rfl) fun rs rs' hview => ?_
  have hcontains : rs'.clients.contains header.clientId = rs.clients.contains header.clientId := by
    rw [Dict.contains, Dict.contains, keys_of_view hview]
  have hstore : Agrees (SameView counterpart) Eq
      (do
        modifyClient header.roundId header.clientId
          (fun c => { c with publicKey := some payload }) fun _ => rfl
        Coroutine.update fun s =>
          { s with clientWriters := s.clientWriters.insert header.clientId writer } : Server Unit)
      (do
        modifyClient header.roundId header.clientId
          (fun c => { c with publicKey := some (counterpart payload) }) fun _ => rfl
        Coroutine.update fun s =>
          { s with clientWriters := s.clientWriters.insert header.clientId writer }) := by
    refine Agrees.bind (modifyClient_agrees
      (fun v => { v with publicKey := some (counterpart payload) }) (fun _ => rfl) fun _ => rfl)
      fun _ _ _ => ?_
    exact update_agrees
      (fun v => { v with clientWriters := v.clientWriters.insert header.clientId writer })
      (fun _ => rfl) fun _ => rfl
  simp only [hcontains]
  split
  · -- a client not seen before is added first
    refine Agrees.bind (modifyRound_agrees (fun v => { v with
      clients := v.clients.insert header.clientId ⟨none, false, .new⟩ }) ?_ ?_) fun _ _ _ => hstore
    · intro rs
      simp only [RoundState.view, RoundState.addClient, Dict.map_insert]
      rfl
    · intro rs
      simp only [RoundState.view, RoundState.addClient, Dict.map_insert]
      rfl
  · exact hstore

theorem handleMaskChunk_agrees (header : MessageHeader) (payload : Bytes) :
    Agrees (SameView counterpart) Eq (handleMaskChunk header payload)
      (handleMaskChunk header payload) := by
  refine getRound_agrees (fun _ _ h => h) (.ret rfl) fun rs rs' hview => ?_
  simp only [show rs'.chunkSize = rs.chunkSize from congrArg RoundView.chunkSize hview.symm]
  split
  · exact modifyClient_agrees (fun v => { v with
      delivery := { v.delivery with
        chunks := v.delivery.chunks.insert header.sequenceNumber payload } })
      (fun _ => rfl) fun _ => rfl
  · exact .ret rfl

theorem handleRoundInit_agrees (header : MessageHeader) (payload : Bytes) :
    Agrees (SameView counterpart) Eq (handleRoundInit header payload)
      (handleRoundInit header payload) := by
  refine Agrees.state_bind fun s t hst => ?_
  have hkeys : t.rounds.keys = s.rounds.keys := by
    have hkeys := congrArg (fun v => v.rounds.keys) hst
    simpa only [ServerState.view, Dict.keys_map] using hkeys.symm
  have hcontains : t.rounds.contains header.roundId = s.rounds.contains header.roundId := by
    rw [Dict.contains, Dict.contains, hkeys]
  rw [hcontains]
  split
  · exact .ret rfl
  split
  · rename_i b₀ b₁ b₂ b₃ b₄ b₅ b₆ b₇ rest
    have hview : ∀ (rs : RoundState) (f : Bytes → Bytes) (s : ServerState),
        { s with
          rounds := s.rounds.insert header.roundId rs, currentRoundId := header.roundId }.view f =
        { s.view f with
          rounds := (s.view f).rounds.insert header.roundId (rs.view f)
          currentRoundId := header.roundId } := by
      intro rs f s
      simp only [ServerState.view, Dict.map_insert]
    let rs : RoundState := .new header.roundId b₀.toNat b₁.toNat (Bytes.word16 b₂ b₃)
      (Bytes.word16 b₄ b₅ + 2 ^ 16 * Bytes.word16 b₆ b₇)
    exact update_agrees (fun v => { v with
      rounds := v.rounds.insert header.roundId (rs.view id)
      currentRoundId := header.roundId }) (hview rs counterpart) (hview rs id)
  · exact .raise _

/-- Nobody sees the shares that the bridge stores. -/
theorem handleShamirShare_agrees (header : MessageHeader) (payload : Bytes) :
    Agrees (SameView counterpart) Eq (pure ()) (handleShamirShare header payload) := by
  intro s t hst
  -- a turn that the view does not show
  have hturn : ∃ t', (handleShamirShare header payload).advance t = (.ended (.ok ()), t') ∧
      t'.view id = t.view id := by
    rw [handleShamirShare, advance_getClient_bind]
    split
    · exact ⟨t, rfl, rfl⟩
    · exact ⟨_, rfl, view_modifyClient_of_eq
        (f := fun c => { c with shamirShares := c.shamirShares ++ [payload] }) (fun _ => rfl) t⟩
  obtain ⟨t', hadvance, hview⟩ := hturn
  exact ⟨(), t', hadvance, show s.view counterpart = t'.view id from hst.trans hview.symm, rfl⟩

theorem handleClientComplete_agrees (henv : env.Counterpart env' counterpart) {m : Message}
    (htype : m.header.messageType = 0x30) :
    Agrees (Matches counterpart) Eq (Host.handleClientComplete env m.header m.payload)
      (handleClientComplete env' m.header m.payload) := by
  refine getClient_agrees (fun _ _ h => h.1) (.ret rfl) fun c c' _ => ?_
  refine Agrees.bind (Agrees.keeps (modifyClient_agrees (fun v => { v with
    delivery := { v.delivery with
      sampleCount := announcedSamples m.payload v.delivery.sampleCount, completed := true } })
    (fun _ => rfl) fun _ => rfl) (keeps_modifyRound (fun _ => rfl) fun rs h => ?_)) fun _ _ _ =>
    checkRoundCompletion_agrees henv m.header.roundId
  have hreceived := h.receive (m := m) (by rw [htype]; decide)
  rwa [← (Receives.complete htype).progress] at hreceived

/-- A handler that is through in one turn leaves no dropouts behind. -/
theorem agrees_of_ends {m : Message} (hm : Handled (.dispatch m))
    (htype : m.header.messageType ≠ 0x30) {d : Server Unit}
    (h : Agrees (SameView counterpart) Eq (m.handler env) d) :
    Agrees (Matches counterpart) Eq (m.handler env) d := by
  intro s t hst
  have hdropout : m.header.messageType ≠ 0x31 := fun heq => hm (by simp [heq])
  -- only a completion or a dropout leads to the check, which takes more than one turn
  obtain ⟨s₁, c, harrival, hadvance, ⟨r, -, rfl⟩ | ⟨⟨_, -, hchecks⟩, -⟩⟩ := handler_turn env m s
  · have hund : s₁.Undropped := hst.2.arrival (A := fun _ m => m.header.messageType ≠ 0x31)
      (fun _ _ => Progress.undropped_new) (fun _ _ => Progress.Undropped.receive)
      (fun _ _ => hdropout) harrival
    refine (h s t hst.1).keeps_of_ended (r := r) (hadvance.trans ?_) hund
    cases r with
    | ok a => rfl
    | error e => rfl
  · omega

/-- The two handlers of a message agree. -/
theorem handler_agrees (henv : env.Counterpart env' counterpart) {m : Message}
    (hm : Handled (.dispatch m)) : Agrees (Matches counterpart) Eq (m.handler env)
      (dispatchMessage env' (m.translate counterpart).header (m.translate counterpart).payload
        (m.translate counterpart).writer) := by
  have hkeep : m.header.messageType ≠ 0x30 → ∀ {d : Server Unit},
      Agrees (SameView counterpart) Eq (m.handler env) d →
        Agrees (Matches counterpart) Eq (m.handler env) d := fun htype _ => agrees_of_ends hm htype
  by_cases hkey : m.header.messageType = 0x01
  · refine hkeep (by rw [hkey]; decide) ?_
    rw [Message.translate_key hkey, Message.handler, Host.dispatchMessage, if_pos hkey,
      dispatchMessage, if_pos hkey]
    exact handlePublicKey_agrees m.header _ m.payload m.writer
  rw [Message.translate_of_ne hkey]
  simp only [Handled, List.mem_cons, List.not_mem_nil, or_false, not_or] at hm
  obtain ⟨hpair, hct, hdropout⟩ := hm
  unfold Message.handler Host.dispatchMessage at hkeep ⊢
  unfold dispatchMessage
  simp only [if_neg hkey, if_neg hpair, if_neg hct, if_neg hdropout] at hkeep ⊢
  -- in the order of the tests in the two functions
  by_cases hchunk : m.header.messageType = 0x21
  · simp only [if_pos hchunk] at hkeep ⊢
    exact hkeep (by rw [hchunk]; decide) (handleMaskChunk_agrees m.header m.payload)
  by_cases hcomplete : m.header.messageType = 0x30
  · rw [if_neg hchunk, if_pos hcomplete, if_neg hchunk, if_pos hcomplete]
    exact handleClientComplete_agrees henv hcomplete
  simp only [if_neg hchunk, if_neg hcomplete] at hkeep ⊢
  refine hkeep hcomplete ?_
  split
  · exact handleRoundInit_agrees m.header m.payload
  split
  · exact handleShamirShare_agrees m.header m.payload
  · exact .ret rfl

end ProtocolBridge

end SwiftAgg.Host
