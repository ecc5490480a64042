import SwiftAgg.ForStd.PartialRun
import SwiftAgg.Spec.ClientProgress

/-!
# The phases of a client

Every message leaves the phase or moves it to the next one, and a message that
is not answered with success changes neither the phase nor the parameters. What
ROUND_INIT has fixed stays, where no copy runs from one field into another. The
last phase is reached by the way of the dropout only: a client that has
completed answers ROUND_COMPLETE with an error.

## Key results

- `Move.orderly`: what every move keeps
- `run_orderly`: runs follow the phases, and no run fails
- `roundComplete_refused`: ROUND_COMPLETE does not end a round without dropouts
-/

namespace SwiftAgg.Native

variable {pf : Platform} {ctx : ClientProtocolCtx} {m : Message} {out : Outcome}

/-! ## One message -/

/-- The outcome follows the phase order, keeps what the round fixed, and rejects atomically. -/
structure OrderlyStep (ctx : ClientProtocolCtx) (m : Message) (out : Outcome) : Prop where
  phase : out.ctx.state = ctx.state ∨ NextPhase ctx.state out.ctx.state
  clientId : out.ctx.clientId = ctx.clientId
  currentRoundId : out.ctx.currentRoundId = ctx.currentRoundId
  geometry : (out.ctx.chunkCtx.chunkSize = ctx.chunkCtx.chunkSize ∧
      out.ctx.chunkCtx.totalChunks = ctx.chunkCtx.totalChunks ∧
      out.ctx.chunkCtx.modelTotalBytes = ctx.chunkCtx.modelTotalBytes) ∨
    ctx.state = .roundInit ∧ out.ctx.state = .keySetup
  rejection : out.status ≠ .success → out.ctx.state = ctx.state ∧
    out.ctx.chunkCtx = ctx.chunkCtx ∧ out.ctx.shamirCtx = ctx.shamirCtx
  foreign : ¬m.Addresses ctx → out.ctx = ctx

/-- What the moves say about the parts of the context. -/
theorem Move.orderly {status : PqcStatus} {p : ClientProgress} (h : Move pf ctx m status p) :
    (p.state = ctx.state ∨ NextPhase ctx.state p.state) ∧ p.clientId = ctx.clientId ∧
      p.currentRoundId = ctx.currentRoundId ∧
      (status ≠ .success → p.state = ctx.state ∧ p.chunkCtx = ctx.chunkCtx ∧
        p.shamirCtx = ctx.shamirCtx) := by
  cases h with
  | stays => exact ⟨.inl rfl, rfl, rfl, fun _ => ⟨rfl, rfl, rfl⟩⟩
  | starts hm hstate =>
    refine ⟨.inr ?_, rfl, rfl, fun hne => absurd rfl hne⟩
    rw [hstate]
    exact .keySetup
  | advances hm hstate hnext => exact ⟨.inr hnext, rfl, rfl, fun hne => absurd rfl hne⟩
  | masks => exact ⟨.inl rfl, rfl, rfl, fun hne => absurd rfl hne⟩
  | overwrites => exact ⟨.inl rfl, rfl, rfl, fun hne => absurd rfl hne⟩

/-- Without copies from one field into another, only ROUND_INIT sets the sizes. -/
theorem Move.geometry (hstorage : pf.storage = .separate) {status : PqcStatus}
    {p : ClientProgress} (h : Move pf ctx m status p) :
    (p.chunkCtx.chunkSize = ctx.chunkCtx.chunkSize ∧
      p.chunkCtx.totalChunks = ctx.chunkCtx.totalChunks ∧
      p.chunkCtx.modelTotalBytes = ctx.chunkCtx.modelTotalBytes) ∨
      ctx.state = .roundInit ∧ p.state = .keySetup := by
  cases h with
  | stays | advances | masks => exact .inl ⟨rfl, rfl, rfl⟩
  | starts hm hstate => exact .inr ⟨hstate, rfl⟩
  | overwrites hcontiguous =>
    rw [hstorage] at hcontiguous
    cases hcontiguous

theorem Step.orderly (hstorage : pf.storage = .separate) (h : Step pf ctx m out) :
    OrderlyStep ctx m out := by
  obtain ⟨phase, clientId, currentRoundId, rejection⟩ := h.move.orderly
  exact ⟨phase, clientId, currentRoundId, h.move.geometry hstorage, rejection, h.foreign⟩

/-- A message has an outcome, unless it announces chunks of no bytes. -/
theorem processMessage_isSome (pf : Platform) (ctx : ClientProtocolCtx) {m : Message}
    (h : m.hdr.messageType = MsgType.roundInit.code → roundInitChunkSize m.payload ≠ 0) :
    ∃ out, processMessage pf m.env ctx m.hdr m.payload m.payloadLen = some out := by
  by_cases hm : m.Addresses ctx
  · rw [processMessage_of_addresses pf hm, dispatchState]
    cases (m.ticked ctx).state with
    | roundInit =>
      -- the only handler that divides
      simp only [handleRoundInit]
      split
      · exact ⟨_, rfl⟩
      rename_i htype
      split
      · exact ⟨_, rfl⟩
      rw [if_neg (h (not_not.mp htype))]
      exact ⟨_, rfl⟩
    | maskedUpdateStream =>
      dsimp only
      split
      · exact ⟨_, rfl⟩
      · split <;> exact ⟨_, rfl⟩
    | _ => exact ⟨_, rfl⟩
  · rw [processMessage]
    split
    · exact ⟨_, rfl⟩
    rename_i hround
    split
    · exact ⟨_, rfl⟩
    rename_i hid
    refine absurd ⟨not_not.mp hround, ?_⟩ hm
    by_contra hne
    exact hid (not_or.mp hne)

/-! ## Runs -/

theorem Trace.step_number_le {tr tr' : Trace} (h : Trace.step pf tr m = some tr') :
    tr.ctx.state.number ≤ tr'.ctx.state.number := by
  obtain ⟨status, hmove⟩ := Trace.step_move h
  rcases hmove.orderly.1 with hsame | hnext
  · exact (congrArg ProtocolState.number hsame).ge
  · exact hnext.number_lt.le

theorem Trace.run_number_le {tr tr' : Trace} {ms : List Message}
    (h : Trace.run pf tr ms = some tr') : tr.ctx.state.number ≤ tr'.ctx.state.number :=
  Trace.run_invariant (fun t => tr.ctx.state.number ≤ t.ctx.state.number)
    (fun _ _ _ hle hstep => hle.trans (Trace.step_number_le hstep)) le_rfl h

theorem Trace.run_identity {tr tr' : Trace} {ms : List Message}
    (h : Trace.run pf tr ms = some tr') :
    tr'.ctx.clientId = tr.ctx.clientId ∧ tr'.ctx.currentRoundId = tr.ctx.currentRoundId := by
  refine Trace.run_invariant (fun t => t.ctx.clientId = tr.ctx.clientId ∧
    t.ctx.currentRoundId = tr.ctx.currentRoundId) ?_ ⟨rfl, rfl⟩ h
  rintro t m t' ⟨hid, hround⟩ hstep
  obtain ⟨status, hmove⟩ := Trace.step_move hstep
  obtain ⟨-, hid', hround', -⟩ := hmove.orderly
  exact ⟨hid'.trans hid, hround'.trans hround⟩

/-- Without a ROUND_INIT of empty chunks, no run fails. -/
theorem Trace.run_isSome (pf : Platform) (tr : Trace) {ms : List Message}
    (h : ∀ m ∈ ms, m.hdr.messageType = MsgType.roundInit.code →
      roundInitChunkSize m.payload ≠ 0) : ∃ tr', Trace.run pf tr ms = some tr' := by
  induction ms generalizing tr with
  | nil => exact ⟨tr, rfl⟩
  | cons m ms ih =>
    obtain ⟨out, hout⟩ := processMessage_isSome pf tr.ctx (h m (by simp))
    have hstep : Trace.step pf tr m = some ⟨out.ctx, tr.copies ++ out.copies⟩ := by
      rw [Trace.step, hout, Option.map_some]
    obtain ⟨tr', hrun⟩ := ih ⟨out.ctx, tr.copies ++ out.copies⟩ fun m' hm' =>
      h m' (List.mem_cons_of_mem m hm')
    exact ⟨tr', Option.bind_eq_some_iff.mpr ⟨_, hstep, hrun⟩⟩

/-- Every message of the run has an outcome, and it is orderly. -/
def OrderlyRun (pf : Platform) (start : Trace) (ms : List Message) : Prop :=
  ∀ pre m, pre ++ [m] <+: ms → ∃ tr out, Trace.run pf start pre = some tr ∧
    processMessage pf m.env tr.ctx m.hdr m.payload m.payloadLen = some out ∧
    OrderlyStep tr.ctx m out

/-- With the fields of the context stored separately, in every run of a client without a ROUND_INIT
    of empty chunks, every message is answered in an orderly way, the identity of the client stays,
    and the state number never decreases. -/
theorem run_orderly (pf : Platform) (hstorage : pf.storage = .separate) (clientId : UInt8)
    (roundId tick : UInt32) (ms : List Message)
    (hsize : ∀ m ∈ ms, m.hdr.messageType = MsgType.roundInit.code →
      roundInitChunkSize m.payload ≠ 0) :
    OrderlyRun pf (.init clientId roundId tick) ms ∧
      (∃ tr, Trace.run pf (.init clientId roundId tick) ms = some tr ∧
        tr.ctx.clientId = clientId ∧ tr.ctx.currentRoundId = roundId) ∧
      ∀ pre mid, pre ++ mid <+: ms → ∀ tr tr',
        Trace.run pf (.init clientId roundId tick) pre = some tr → Trace.run pf tr mid = some tr' →
          tr.ctx.state.number ≤ tr'.ctx.state.number := by
  refine ⟨fun pre m hpre => ?_, ?_, fun _ _ _ _ _ _ hrun => Trace.run_number_le hrun⟩
  · have hmem : ∀ m' ∈ pre ++ [m], m' ∈ ms := fun m' hm' => hpre.subset hm'
    obtain ⟨tr, hrun⟩ := Trace.run_isSome pf (.init clientId roundId tick) fun m' hm' =>
      hsize m' (hmem m' (List.mem_append_left [m] hm'))
    obtain ⟨out, hout⟩ := processMessage_isSome pf tr.ctx (hsize m (hmem m (by simp)))
    exact ⟨tr, out, hrun, hout, (processMessage_step hout).orderly hstorage⟩
  · obtain ⟨tr, hrun⟩ := Trace.run_isSome pf (.init clientId roundId tick) hsize
    exact ⟨tr, hrun, Trace.run_identity hrun⟩

/-- A run to the stream with one chunk and the completion. -/
def completedRun : List Message :=
  streamStart 2 2 ++ [serverMessage .maskChunk 2 0, serverMessage .clientComplete 0 0]

/-- The run to CLIENT_COMPLETION is orderly. -/
theorem completedRun_orderly :
    ∃ tr, Trace.run { repeatPlatform with storage := .separate } (.init 1 1 0) completedRun =
        some tr ∧
      tr.ctx.clientId = 1 ∧ tr.ctx.currentRoundId = 1 :=
  (run_orderly { repeatPlatform with storage := .separate } rfl 1 1 0 completedRun (by decide)).2.1

/-! ## The end of the round -/

/-- The message ends the round for the client. -/
def FinishesRound (pf : Platform) (tr : Trace) (m : Message) : Prop :=
  ∃ tr', Trace.step pf tr m = some tr' ∧ tr'.ctx.state = .roundComplete

/-- The server's ROUND_COMPLETE message for the round of a client. -/
def Message.EndsRound (m : Message) (ctx : ClientProtocolCtx) : Prop :=
  m.hdr.messageType = MsgType.roundComplete.code ∧ m.hdr.clientId = 0 ∧
    m.hdr.roundId = ctx.currentRoundId

/-- In CLIENT_COMPLETION only DROPOUT_NOTIFY is expected. -/
theorem processMessage_clientCompletion (pf : Platform) (hstate : ctx.state = .clientCompletion)
    (hends : m.EndsRound ctx) :
    processMessage pf m.env ctx m.hdr m.payload m.payloadLen =
      some { status := .errInvalidArgument, ctx := m.ticked ctx, payload := m.payload } := by
  obtain ⟨htype, hid, hround⟩ := hends
  have hticked : (m.ticked ctx).state = .clientCompletion := hstate
  rw [processMessage_of_addresses pf ⟨hround, .inl hid⟩, dispatchState, hticked]
  simp only [handleDropoutNotify, handleExpected, hticked, htype, ne_eq, not_true_eq_false,
    ↓reduceIte]
  rw [if_pos (by decide)]

/-- The handler for the message would move on from every state but ERROR. -/
theorem handleRoundComplete_finishes (env : StepEnv) (hstate : ctx.state ≠ .error)
    (htype : m.hdr.messageType = MsgType.roundComplete.code) :
    (handleRoundComplete env ctx m.hdr m.payload).ctx.state = .roundComplete := by
  rw [handleRoundComplete, if_neg (not_not.mpr htype), transitionOutcome, stateMachineTransition,
    if_neg hstate]

/-- A client in CLIENT_COMPLETION refuses the server's ROUND_COMPLETE and stays where it is, in
    every run without a DROPOUT_NOTIFY; the handler that exists for the message would have ended
    the round. -/
theorem roundComplete_refused (pf : Platform) (clientId : UInt8) (roundId tick : UInt32)
    (ms : List Message) (_hms : ∀ m ∈ ms, m.hdr.messageType ≠ MsgType.dropoutNotify.code)
    (tr : Trace) (_hrun : Trace.run pf (.init clientId roundId tick) ms = some tr)
    (hstate : tr.ctx.state = .clientCompletion) (m : Message) (hends : m.EndsRound tr.ctx) :
    ¬FinishesRound pf tr m ∧ Trace.step pf tr m = some ⟨m.ticked tr.ctx, tr.copies⟩ ∧
      (handleRoundComplete m.env tr.ctx m.hdr m.payload).ctx.state = .roundComplete := by
  have hstep : Trace.step pf tr m = some ⟨m.ticked tr.ctx, tr.copies⟩ := by
    rw [Trace.step, processMessage_clientCompletion pf hstate hends, Option.map_some,
      List.append_nil]
  refine ⟨?_, hstep, handleRoundComplete_finishes m.env (by rw [hstate]; decide) hends.1⟩
  rintro ⟨tr', htr', hfinished⟩
  rw [hstep] at htr'
  cases htr'
  exact ProtocolState.noConfusion (hstate.symm.trans hfinished)

/-- Client 1 completes and receives ROUND_COMPLETE. -/
theorem completedRun_refuses : ∃ tr,
    Trace.run repeatPlatform (.init 1 1 0) completedRun = some tr ∧
      tr.ctx.state = .clientCompletion ∧
      ¬FinishesRound repeatPlatform tr (serverMessage .roundComplete 0 0) := by
  have hend : (Trace.run repeatPlatform (.init 1 1 0) completedRun).map
      (fun tr => (tr.ctx.state, tr.ctx.currentRoundId)) = some (.clientCompletion, 1) := by
    decide +kernel
  obtain ⟨tr, hrun, htr⟩ := Option.map_eq_some_iff.mp hend
  obtain ⟨hstate, hround⟩ := Prod.mk.inj htr
  exact ⟨tr, hrun, hstate, (roundComplete_refused repeatPlatform 1 1 0 completedRun (by decide) tr
    hrun hstate (serverMessage .roundComplete 0 0) ⟨rfl, rfl, hround.symm⟩).1⟩

/-- The last message leaves the client in CLIENT_COMPLETION. -/
theorem completedRun_not_finished :
    (Trace.run repeatPlatform (.init 1 1 0)
        (completedRun ++ [serverMessage .roundComplete 0 0])).map (fun tr => tr.ctx.state) =
      some .clientCompletion := by
  decide +kernel

end SwiftAgg.Native
