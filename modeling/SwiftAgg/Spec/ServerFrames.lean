import SwiftAgg.Spec.Interleaving
import SwiftAgg.Spec.KeyAgreement
import SwiftAgg.Spec.KeySetupWrites
import SwiftAgg.Spec.RoundCompletion
import SwiftAgg.Spec.StreamFraming

/-!
# What the server writes to a connection

The handlers of all connections write through the same table of writers and
interleave where they suspend. Whatever they do, each connection carries whole
messages of two kinds, of rounds that the server has and in the format of these
rounds, and only connections on which a client has registered carry any. The
server's own read loop would find exactly these messages in the stream.

## Key results

- `checkRoundCompletion_serves`: a suspended handler writes such messages only
- `System.Served.run`: over all interleavings
- `server_streams`: the stream of a connection
-/

namespace SwiftAgg.Host

open Coroutine
open Native (packetCodecEncodeHeader)

/-! ## Messages -/

/-- The messages of a round: a ciphertext of an encapsulation, or a chunk of the aggregate followed
    by the telemetry record. -/
inductive Written (env : HostEnv) (rs : RoundState) : HeaderFields × Bytes → Prop
  | kemCiphertext (call : Nat) (key ct ss : Bytes) (h : env.encapsulate call key = .ok (ct, ss)) :
    Written env rs (⟨0x00010000, rs.roundId, 0, 0x02, 0, ct.length, 0⟩, ct)
  | roundComplete (seq : Nat) (values : List Int) (chunk telemetry : Bytes)
    (hseq : seq < rs.modelSize / rs.chunkSize) (hchunk : packChunk rs.chunkSize values = .ok chunk)
    (htelemetry : packTelemetry rs.roundId = .ok telemetry) :
    Written env rs (⟨0x00010000, rs.roundId, 0, 0x41, seq, chunk.length + telemetry.length, 0⟩,
      chunk ++ telemetry)

/-- The parameters of a round that its messages depend on. -/
structure SameFormat (rs rs' : RoundState) : Prop where
  roundId : rs'.roundId = rs.roundId
  chunkSize : rs'.chunkSize = rs.chunkSize
  modelSize : rs'.modelSize = rs.modelSize

theorem SameFormat.refl (rs : RoundState) : SameFormat rs rs := ⟨rfl, rfl, rfl⟩

theorem SameFormat.symm {rs rs' : RoundState} (h : SameFormat rs rs') : SameFormat rs' rs :=
  ⟨h.roundId.symm, h.chunkSize.symm, h.modelSize.symm⟩

theorem SameFormat.trans {rs₁ rs₂ rs₃ : RoundState} (h : SameFormat rs₁ rs₂)
    (h' : SameFormat rs₂ rs₃) : SameFormat rs₁ rs₃ :=
  ⟨h'.roundId.trans h.roundId, h'.chunkSize.trans h.chunkSize, h'.modelSize.trans h.modelSize⟩

theorem SameFormat.of_internal {rs rs' : RoundState} (h : InternalWrite rs rs') :
    SameFormat rs rs' :=
  ⟨h.evolves.roundId, h.evolves.chunkSize, h.evolves.modelSize⟩

theorem SameFormat.of_receives {m : Message} {rs rs' : RoundState} (h : Receives m rs rs') :
    SameFormat rs rs' := by
  obtain ⟨-, -, hchunk, hmodel⟩ := rs.progress.receive_params m
  rw [← h.progress] at hchunk hmodel
  exact ⟨h.roundId, hchunk, hmodel⟩

theorem Written.of_sameFormat {env : HostEnv} {rs rs' : RoundState} {m : HeaderFields × Bytes}
    (h : Written env rs m) (hformat : SameFormat rs rs') : Written env rs' m := by
  obtain ⟨hround, hchunk, hmodel⟩ := hformat
  cases h with
  | kemCiphertext call key ct ss h =>
    rw [← hround]
    exact .kemCiphertext call key ct ss h
  | roundComplete seq values chunk telemetry hseq hpack htelemetry =>
    rw [← hround] at htelemetry ⊢
    rw [← hchunk] at hpack
    rw [← hchunk, ← hmodel] at hseq
    exact .roundComplete seq values chunk telemetry hseq hpack htelemetry

theorem Written.roundId {env : HostEnv} {rs : RoundState} {m : HeaderFields × Bytes}
    (h : Written env rs m) : m.1.roundId = rs.roundId := by
  cases h with
  | kemCiphertext call key ct ss h => rfl
  | roundComplete seq values chunk telemetry hseq hpack htelemetry => rfl

/-- The server never starts a round for its clients. -/
theorem Written.messageType {env : HostEnv} {rs : RoundState} {m : HeaderFields × Bytes}
    (h : Written env rs m) : m.1.messageType = 0x02 ∨ m.1.messageType = 0x41 := by
  cases h with
  | kemCiphertext call key ct ss h => exact .inl rfl
  | roundComplete seq values chunk telemetry hseq hpack htelemetry => exact .inr rfl

/-- A header that was built for a payload and the payload are a frame. -/
theorem messageFrame_of_buildHeader {messageType roundId clientId seq len : Nat}
    {header payload : Bytes} (h : buildHeader messageType roundId clientId seq len = .ok header)
    (hlen : payload.length = len) :
    ValidMessage (⟨0x00010000, roundId, clientId, messageType, seq, len, 0⟩, payload) ∧
      header ++ payload =
        messageFrame (⟨0x00010000, roundId, clientId, messageType, seq, len, 0⟩, payload) := by
  rw [buildHeader_eq_packHeader] at h
  have hrange : HeaderFields.InRange ⟨0x00010000, roundId, clientId, messageType, seq, len, 0⟩ := by
    by_contra hnot
    rw [packHeader, if_neg hnot] at h
    cases h
  refine ⟨⟨hrange, hlen⟩, ?_⟩
  have hpack := packHeader_fields (HeaderFields.msgHeader
    ⟨0x00010000, roundId, clientId, messageType, seq, len, 0⟩)
  rw [HeaderFields.fields_msgHeader hrange, h] at hpack
  rw [messageFrame, Except.ok.inj hpack]

/-! ## Writes -/

/-- The bytes are one message of a round that the server has. -/
def ServerFrame (env : HostEnv) (s : ServerState) (data : Bytes) : Prop :=
  ∃ m rs, s.rounds.get? m.1.roundId = some rs ∧ Written env rs m ∧ ValidMessage m ∧
    data = messageFrame m

/-- Rounds are kept, with their format. -/
def FormatsKept (s s' : ServerState) : Prop :=
  ∀ id rs, s.rounds.get? id = some rs → ∃ rs', s'.rounds.get? id = some rs' ∧ SameFormat rs rs'

theorem FormatsKept.of_eq {s s' : ServerState} (h : s'.rounds = s.rounds) : FormatsKept s s' :=
  fun _ rs hrs => ⟨rs, h ▸ hrs, .refl rs⟩

theorem FormatsKept.trans {s₁ s₂ s₃ : ServerState} (h : FormatsKept s₁ s₂)
    (h' : FormatsKept s₂ s₃) : FormatsKept s₁ s₃ := by
  intro id rs hrs
  obtain ⟨rs₂, hrs₂, hformat⟩ := h id rs hrs
  obtain ⟨rs₃, hrs₃, hformat'⟩ := h' id rs₂ hrs₂
  exact ⟨rs₃, hrs₃, hformat.trans hformat'⟩

theorem FormatsKept.modify {s : ServerState} {roundId : Nat} {f : RoundState → RoundState}
    (hf : ∀ rs, s.rounds.get? roundId = some rs → SameFormat rs (f rs)) :
    FormatsKept s { s with rounds := s.rounds.modify roundId f } := by
  intro id rs hrs
  rw [Dict.get?_modify]
  by_cases hid : id = roundId
  · rw [if_pos hid, hrs]
    exact ⟨f rs, rfl, hf rs (hid ▸ hrs)⟩
  · rw [if_neg hid]
    exact ⟨rs, hrs, .refl rs⟩

theorem ServerFrame.kept {env : HostEnv} {s s' : ServerState} {data : Bytes}
    (h : ServerFrame env s data) (hkept : FormatsKept s s') : ServerFrame env s' data := by
  obtain ⟨m, rs, hrs, hwritten, hvalid, hdata⟩ := h
  obtain ⟨rs', hrs', hformat⟩ := hkept _ rs hrs
  exact ⟨m, rs', hrs', hwritten.of_sameFormat hformat, hvalid, hdata⟩

section

variable {env : HostEnv} {W : Nat → Prop} {rs : RoundState} {roundId : Nat}

/-- Rounds are stored under their numbers, and the writers are known connections. -/
structure Admits (W : Nat → Prop) (s : ServerState) : Prop where
  keyed : s.Keyed
  writers : ∀ w ∈ s.clientWriters.values, W w

/-- The server has the round `rs`, whatever has become of it. -/
structure Serving (W : Nat → Prop) (rs : RoundState) (s : ServerState) : Prop where
  admits : Admits W s
  round : ∃ rs', s.rounds.get? rs.roundId = some rs' ∧ SameFormat rs rs'

/-- What a handler writes: it may send one message of a round that the server has, to a known
    connection. -/
structure FrameWrite (env : HostEnv) (W : Nat → Prop) (s s' : ServerState) : Prop where
  kept : FormatsKept s s'
  admits : Admits W s → Admits W s'
  sent : s'.sent = s.sent ∨
    ∃ w data, W w ∧ ServerFrame env s data ∧ s'.sent = s.sent ++ [(w, data)]

theorem Serving.kept {s s' : ServerState} (h : Serving W rs s) (hkept : FormatsKept s s')
    (hadmits : Admits W s → Admits W s') : Serving W rs s' := by
  obtain ⟨rs₁, hrs₁, hformat⟩ := h.round
  obtain ⟨rs₂, hrs₂, hformat'⟩ := hkept _ rs₁ hrs₁
  exact ⟨hadmits h.admits, rs₂, hrs₂, hformat.trans hformat'⟩

theorem FrameWrite.serving (s s' : ServerState) (h : FrameWrite env W s s')
    (hs : Serving W rs s) : Serving W rs s' :=
  hs.kept h.kept h.admits

theorem frameWrite_preserves :
    (Contract.writing (Serving W rs) (FrameWrite env W)).Preserves (Serving W rs) :=
  Contract.writing_preserves FrameWrite.serving

/-- A computation for the round `rs` that writes only messages of rounds that the server has. -/
abbrev Serves {α : Type} (env : HostEnv) (W : Nat → Prop) (rs : RoundState) (c : Server α) : Prop :=
  Follows (Serving W rs) (Contract.writing (Serving W rs) (FrameWrite env W)) c

theorem FrameWrite.round {s : ServerState} {f : RoundState → RoundState}
    (hf : ∀ rs, s.rounds.get? roundId = some rs → SameFormat rs (f rs)) :
    FrameWrite env W s { s with rounds := s.rounds.modify roundId f } where
  kept := .modify hf
  admits h := by
    refine ⟨Dict.forall_modify h.keyed fun rs hrs => ?_, h.writers⟩
    rw [(hf rs hrs).roundId, h.keyed roundId rs hrs]
  sent := .inl rfl

theorem modifyRound_serves {f : RoundState → RoundState}
    (hf : ∀ rs, SameFormat rs (f rs)) : Serves env W rs (modifyRound roundId f) :=
  Follows.update frameWrite_preserves fun _ _ => .round fun rs _ => hf rs

/-- Read a round: where the server has the round `rs`, that is a later state of it. -/
theorem getRound_bind_serves {α : Type} {f : Option RoundState → Server α}
    (hf : ∀ rs', SameFormat rs rs' → Serves env W rs (f (some rs'))) :
    Serves env W rs (getRound rs.roundId >>= f) := by
  intro s hs
  refine safe_getRound_bind ?_
  obtain ⟨rs', hrs', hformat⟩ := hs.round
  rw [hrs']
  exact hf rs' hformat s hs

/-- A message in the format of the round goes to a known connection. -/
theorem writeAndDrain_serves {writer : Nat} {m : HeaderFields × Bytes} (hwriter : W writer)
    (hm : Written env rs m) (hvalid : ValidMessage m) :
    Serves env W rs (writeAndDrain writer (messageFrame m)) := by
  refine Follows.bind (Follows.update frameWrite_preserves fun s hs => ?_) fun _ =>
    drain_follows frameWrite_preserves (fun _ _ => trivial) writer
  obtain ⟨rs', hrs', hformat⟩ := hs.round
  have hframe : ServerFrame env s (messageFrame m) :=
    ⟨m, rs', hm.roundId ▸ hrs', hm.of_sameFormat hformat, hvalid, rfl⟩
  exact ⟨.of_eq rfl, fun h => ⟨h.keyed, h.writers⟩, .inr ⟨writer, _, hwriter, hframe, rfl⟩⟩

/-! ## Key setup -/

/-- What key setup and recovery write are ciphertexts for known connections. -/
theorem keyWriting_serves :
    KeyWriting env rs.roundId (Serving W rs)
      (Contract.writing (Serving W rs) (FrameWrite env W)) where
  preserves := frameWrite_preserves
  pause _ _ := trivial
  encapsulated _ _ _ := ⟨.of_eq rfl, fun h => ⟨h.keyed, h.writers⟩, .inl rfl⟩
  round _ _ _ hf := .round fun rs' hrs' => .of_internal (hf rs' hrs').internal
  ciphertext s id writer call key ct ss header hs hwriter hcall hheader := by
    obtain ⟨rs', hrs', hformat⟩ := hs.round
    obtain ⟨hvalid, hframe⟩ := messageFrame_of_buildHeader hheader (rfl : ct.length = _)
    have hwritten : Written env rs (⟨0x00010000, rs.roundId, 0, 0x02, 0, ct.length, 0⟩, ct) :=
      .kemCiphertext call key ct ss hcall
    refine ⟨.of_eq rfl, fun h => ⟨h.keyed, h.writers⟩, .inr ⟨writer, _,
      hs.admits.writers writer (Dict.mem_values_iff.mpr ⟨id, hwriter⟩), ?_, rfl⟩⟩
    exact ⟨_, rs', hrs', hwritten.of_sameFormat hformat, hvalid, hframe⟩

/-! ## Aggregation -/

/-- One aggregated chunk with the telemetry record of its round. -/
theorem sendChunk_serves {rs' : RoundState} (hformat : SameFormat rs rs')
    {fed : Dict Nat (List Int)} {telemetry : Bytes} {writer seq : Nat} (hwriter : W writer)
    (hseq : seq < rs'.modelSize / rs'.chunkSize)
    (htelemetry : packTelemetry rs'.roundId = .ok telemetry) :
    Serves env W rs (sendChunk rs' fed telemetry writer seq) := by
  unfold sendChunk
  refine (Follows.liftExcept _).bind fun values => ?_
  refine Follows.liftExcept_bind fun result hresult => ?_
  refine Follows.liftExcept_bind fun header hheader => ?_
  obtain ⟨hvalid, hframe⟩ := messageFrame_of_buildHeader hheader
    (List.length_append : (result ++ telemetry).length = _)
  have hwritten : Written env rs' (⟨0x00010000, rs'.roundId, 0, 0x41, seq,
      result.length + telemetry.length, 0⟩, result ++ telemetry) :=
    .roundComplete seq values result telemetry hseq hresult htelemetry
  rw [List.append_assoc, hframe]
  exact writeAndDrain_serves hwriter (hwritten.of_sameFormat hformat.symm) hvalid

theorem unmaskAndAggregate_serves :
    Serves env W rs (unmaskAndAggregate env rs.roundId) := by
  rw [unmaskAndAggregate_eq]
  refine Follows.bind keyWriting_serves.prepare fun _ => ?_
  unfold publish
  refine getRound_bind_serves fun rs' hformat => ?_
  refine (Follows.liftExcept _).bind fun unmasked => (Follows.liftExcept _).bind fun fed => ?_
  refine Follows.liftExcept_bind fun num hnum => ?_
  split
  · exact Follows.pure _
  refine Follows.bind (modifyRound_serves fun rs => .of_internal (.complete rs fed)) fun _ => ?_
  refine Follows.liftExcept_bind fun telemetry htelemetry => Follows.forPositions fun i => ?_
  -- the writer is looked up before the first chunk, the chunks are all sent to it
  refine Follows.state_bind fun s hs => ?_
  split
  · rename_i writer hwriter
    have hmem : writer ∈ s.clientWriters.values :=
      List.mem_map_of_mem (f := Prod.snd) (List.mem_of_getElem? hwriter)
    have hsize : num = rs'.modelSize / rs'.chunkSize := by
      unfold RoundState.numChunks at hnum
      split at hnum
      · cases hnum
      · exact (Except.ok.inj hnum).symm
    refine Follows.forM_mem fun seq hseq => ?_
    exact sendChunk_serves hformat (hs.admits.writers writer hmem)
      (hsize ▸ List.mem_range.mp hseq) htelemetry
  · exact Follows.pure _

/-- A failed round is announced to no one. -/
theorem handleRoundFailure_serves : Serves env W rs handleRoundFailure := by
  refine Follows.forPositions fun i => Follows.state.bind fun s => ?_
  split
  · split
    · exact Follows.pure _
    · exact Follows.raise _
  · exact Follows.pure _

/-- What is left of a handler after its message was received writes messages of its round only. -/
theorem checkRoundCompletion_serves : Serves env W rs (checkRoundCompletion env rs.roundId) := by
  unfold checkRoundCompletion
  refine getRound_bind_serves fun rs' _ => ?_
  show Serves env W rs (if rs'.Unmasks then _ else if rs'.surviving < rs'.threshold then _ else _)
  split
  · exact Follows.bind (modifyRound_serves fun _ => ⟨rfl, rfl, rfl⟩) fun _ =>
      unmaskAndAggregate_serves
  · split
    · exact Follows.bind (modifyRound_serves fun _ => ⟨rfl, rfl, rfl⟩) fun _ =>
        handleRoundFailure_serves
    · exact Follows.pure _

end

/-! ## Interleaved handlers -/

/-- Everything that was written is a message of a round that the server has, on a known
    connection. -/
def FramesSent (env : HostEnv) (W : Nat → Prop) (s : ServerState) : Prop :=
  ∀ p ∈ s.sent, W p.1 ∧ ServerFrame env s p.2

/-- What was written stays so, and every suspended handler writes only such messages. -/
structure System.Served (env : HostEnv) (W : Nat → Prop) (sys : System) : Prop where
  admits : Admits W sys.state
  sent : FramesSent env W sys.state
  tasks : ∀ t ∈ sys.tasks, ∃ rs, Serving W rs sys.state ∧ Serves env W rs t.rest

/-- A message that is read, and stores the writer of its client's connection. -/
def System.Connects (sys : System) (m : Message) : Prop :=
  m.Connects sys.state ∧ ∀ t ∈ sys.tasks, t.message.writer ≠ m.writer

section

variable {env : HostEnv} {W : Nat → Prop} {s s' : ServerState}

theorem FramesSent.kept (h : FramesSent env W s) (hkept : FormatsKept s s')
    (hsent : s'.sent = s.sent) : FramesSent env W s' := by
  intro p hp
  obtain ⟨hwriter, hframe⟩ := h p (hsent ▸ hp)
  exact ⟨hwriter, hframe.kept hkept⟩

theorem FrameWrite.framesSent (h : FrameWrite env W s s') (hs : FramesSent env W s) :
    FramesSent env W s' := by
  obtain hsame | ⟨w, data, hw, hframe, hsent⟩ := h.sent
  · exact hs.kept h.kept hsame
  · intro p hp
    rw [hsent] at hp
    obtain hp | hp := List.mem_append.mp hp
    · exact ⟨(hs p hp).1, (hs p hp).2.kept h.kept⟩
    · obtain rfl := List.mem_singleton.mp hp
      exact ⟨hw, hframe.kept h.kept⟩

theorem FrameWrite.chain (h : Relation.ReflTransGen (FrameWrite env W) s s') :
    FormatsKept s s' ∧ (Admits W s → Admits W s') ∧
      (FramesSent env W s → FramesSent env W s') := by
  induction h with
  | refl => exact ⟨.of_eq rfl, id, id⟩
  | tail _ hwrite ih =>
    obtain ⟨hkept, hadmits, hsent⟩ := ih
    exact ⟨hkept.trans hwrite.kept, fun h => hwrite.admits (hadmits h),
      fun h => hwrite.framesSent (hsent h)⟩

/-- Receiving a message changes no format, and connects its own connection at most. -/
theorem Arrival.formatsKept {m : Message} (h : Arrival m s s') : FormatsKept s s' := by
  intro id rs hrs
  by_cases hid : id = m.header.roundId
  · subst hid
    obtain ⟨rs', hrs', hreceives⟩ := h.own rs hrs
    exact ⟨rs', hrs', .of_receives hreceives⟩
  · exact ⟨rs, (h.other id hid).trans hrs, .refl rs⟩

theorem Arrival.admits {m : Message} (h : Arrival m s s') (hs : Admits W s)
    (hm : m.Connects s → W m.writer) : Admits W s' := by
  refine ⟨h.keyed hs.keyed, fun w hw => ?_⟩
  obtain hw | ⟨hconnects, rfl⟩ := h.mem_writers hw
  · exact hs.writers w hw
  · exact hm hconnects

/-- The part of the first turn after the message was received. -/
theorem first_serves {m : Message} {s₁ : ServerState} {c : Server Unit} (h : Arrival m s s₁)
    (hc : (∃ r, Quiet r ∧ c = liftExcept r) ∨
      m.Checks s ∧ c = checkRoundCompletion env m.header.roundId) (hs : Admits W s₁) :
    Relation.ReflTransGen (FrameWrite env W) s₁ (c.advance s₁).2 ∧
      ∀ k, (c.advance s₁).1 = .suspended k →
        ∃ rs, Serving W rs (c.advance s₁).2 ∧ Serves env W rs k := by
  obtain ⟨r, -, rfl⟩ | ⟨⟨rs, hrs, -⟩, rfl⟩ := hc
  · cases r with
    | ok a => exact ⟨.refl, nofun⟩
    | error e => exact ⟨.refl, nofun⟩
  · -- the round of the message is there
    obtain ⟨rs₁, hrs₁, -⟩ := h.own rs hrs
    have hid : rs₁.roundId = m.header.roundId := hs.keyed _ rs₁ hrs₁
    have hserving : Serving W rs₁ s₁ := ⟨hs, rs₁, hid ▸ hrs₁, .refl rs₁⟩
    rw [← hid]
    obtain ⟨hwrites, hserving', hrest⟩ :=
      Follows.advance_writing checkRoundCompletion_serves FrameWrite.serving hserving
    exact ⟨hwrites, fun k hk => ⟨rs₁, hserving', hrest k hk⟩⟩

theorem System.served_new : System.new.Served env W :=
  ⟨⟨ServerState.keyed_new, nofun⟩, nofun, nofun⟩

theorem System.Served.turn {sys sys' : System} {e : Event} (h : sys.Served env W)
    (he : ∀ m, e = .dispatch m → sys.Connects m → W m.writer) (hturn : sys.Turn env e sys') :
    sys'.Served env W := by
  -- the handlers that do not have this turn only see what the others may do
  have hothers : ∀ {s'}, FormatsKept sys.state s' → (Admits W sys.state → Admits W s') →
      ∀ t ∈ sys.tasks, ∃ rs, Serving W rs s' ∧ Serves env W rs t.rest := by
    intro s' hkept hadmits t ht
    obtain ⟨rs, hserving, hserves⟩ := h.tasks t ht
    exact ⟨rs, hserving.kept hkept hadmits, hserves⟩
  cases hturn with
  | idle => exact h
  | closed writers =>
    refine ⟨⟨h.admits.keyed, h.admits.writers⟩, h.sent, fun t ht => ?_⟩
    obtain ⟨rs, hserving, hserves⟩ := h.tasks t ht
    exact ⟨rs, hserving.kept (.of_eq rfl) fun hadmits => ⟨hadmits.keyed, hadmits.writers⟩, hserves⟩
  | @first m s₁ c _ hfree harrival hc hstate htasks hended =>
    have hadmits₁ := harrival.admits h.admits fun hconnects => he m rfl ⟨hconnects, hfree⟩
    obtain ⟨hwrites, hrest⟩ := first_serves harrival hc hadmits₁
    obtain ⟨hkept, hadmits, hsent⟩ := FrameWrite.chain hwrites
    rw [← hstate] at hkept hadmits hsent hrest
    refine ⟨hadmits hadmits₁, hsent (h.sent.kept harrival.formatsKept harrival.sent), ?_⟩
    intro t ht
    obtain ht | ⟨k, hk, rfl⟩ := htasks t ht
    · exact hothers (harrival.formatsKept.trans hkept) (fun _ => hadmits hadmits₁) t ht
    · exact hrest k hk
  | @next i t _ ht hstate htasks hended =>
    obtain ⟨rs, hserving, hserves⟩ := h.tasks t (List.mem_of_getElem? ht)
    obtain ⟨hwrites, hserving', hrest⟩ :=
      Follows.advance_writing hserves FrameWrite.serving hserving
    obtain ⟨hkept, hadmits, hsent⟩ := FrameWrite.chain hwrites
    rw [← hstate] at hkept hadmits hsent hserving'
    refine ⟨hadmits h.admits, hsent h.sent, fun t' ht' => ?_⟩
    obtain ht' | ⟨k, hk, rfl⟩ := htasks t' ht'
    · exact hothers hkept hadmits t' ht'
    · exact ⟨rs, hserving', hrest k hk⟩

theorem System.Served.run {sys : System} {events : List Event} (h : sys.Served env W)
    (hevents : ∀ pre m post, events = pre ++ .dispatch m :: post →
      (sys.run env pre).Connects m → W m.writer) : (sys.run env events).Served env W := by
  induction events generalizing sys with
  | nil => exact h
  | cons e events ih =>
    refine ih (h.turn (fun m hm => ?_) (sys.step_turn env e)) fun pre m post hpost => ?_
    · exact hevents [] m events (by rw [hm, List.nil_append])
    · exact hevents (e :: pre) m post (by rw [hpost, List.cons_append])

end

/-! ## The streams -/

/-- What was written to a connection, one message after the other. -/
def writtenTo (writer : Nat) (sent : List (Nat × Bytes)) : List Bytes :=
  (sent.filter fun p => p.1 == writer).map Prod.snd

/-- A client registered on the connection. -/
def Registered (env : HostEnv) (events : List Event) (writer : Nat) : Prop :=
  ∃ pre m post, events = pre ++ .dispatch m :: post ∧ (System.new.run env pre).Connects m ∧
    m.writer = writer

theorem mem_writtenTo {writer : Nat} {sent : List (Nat × Bytes)} {data : Bytes} :
    data ∈ writtenTo writer sent ↔ (writer, data) ∈ sent := by
  simp [writtenTo]

/-- In every interleaving everything that was written is a message of a round of the server. -/
theorem run_framesSent (env : HostEnv) (events : List Event) :
    FramesSent env (Registered env events) (System.new.run env events).state :=
  (System.served_new.run fun pre m post h hconnects => ⟨pre, m, post, h, hconnects, rfl⟩).sent

/-- In every interleaving the stream of a connection is read as the messages that were written to
    it, each in the format of its round; and a connection that has a stream has a client. -/
theorem server_streams (env : HostEnv) (events : List Event) (writer : Nat) :
    ∃ ms : List (HeaderFields × Bytes),
      writtenTo writer (System.new.run env events).state.sent = ms.map messageFrame ∧
        readMessages (writtenTo writer (System.new.run env events).state.sent).flatten = ms ∧
        ∀ m ∈ ms, Registered env events writer ∧
          ∃ rs, (System.new.run env events).state.rounds.get? m.1.roundId = some rs ∧
            Written env rs m := by
  have hsent := run_framesSent env events
  generalize (System.new.run env events).state = s at hsent
  -- every message written to the connection is the frame of some message
  have hframes : ∀ data ∈ writtenTo writer s.sent, ∃ m, data = messageFrame m ∧ ValidMessage m ∧
      Registered env events writer ∧ ∃ rs, s.rounds.get? m.1.roundId = some rs ∧
        Written env rs m := by
    intro data hdata
    obtain ⟨hregistered, m, rs, hrs, hwritten, hvalid, hframe⟩ :=
      hsent _ (mem_writtenTo.mp hdata)
    exact ⟨m, hframe, hvalid, hregistered, rs, hrs, hwritten⟩
  obtain ⟨ms, hms, hall⟩ := List.exists_map_eq hframes
  refine ⟨ms, hms, ?_, fun m hm => (hall m hm).2⟩
  rw [readMessages_eq, clientFraming.readAll_eq_iff fun m hm => (hall m hm).1, hms]
  exact ⟨[], (List.append_nil _).symm, readMessage_of_short (by decide)⟩

end SwiftAgg.Host
