import SwiftAgg.ForStd.PartialRun
import SwiftAgg.Spec.PeerCopy

/-!
# What one message can do

`Step` lists every way in which `state_machine_process_message` can end, with
the guard it passed and the context it leaves. Invariants of runs are proved by
cases over it, without unfolding the handlers again.

## Key results

- `processMessage_step`: every outcome of a message is one of these
- `Trace.run_invariant`: what a step keeps, a run keeps
-/

namespace SwiftAgg.Native

/-- The message passes the round and id checks of `state_machine_process_message`. -/
def Message.Addresses (m : Message) (ctx : ClientProtocolCtx) : Prop :=
  m.hdr.roundId = ctx.currentRoundId ∧ (m.hdr.clientId = 0 ∨ m.hdr.clientId = ctx.clientId)

/-- The context a handler sees. -/
def Message.ticked (m : Message) (ctx : ClientProtocolCtx) : ClientProtocolCtx :=
  { ctx with lastActivityTick := m.env.tick }

/-- The context after a handler that changed it to `ctx` and moved on. -/
def Message.moved (m : Message) (ctx : ClientProtocolCtx) (new : ProtocolState) :
    ClientProtocolCtx :=
  { ctx with state := new, lastActivityTick := m.env.transitionTick }

/-- The message is a public key that `state_machine_handle_mask_setup` takes. -/
def StoresPubkey (ctx : ClientProtocolCtx) (m : Message) : Prop :=
  m.Addresses ctx ∧ ctx.state = .maskSetup ∧
    m.hdr.messageType = MsgType.pairwisePubkey.code ∧
    m.hdr.payloadLength.toNat = KemVariant.mlKem768.publicKeyBytes

instance (ctx : ClientProtocolCtx) (m : Message) : Decidable (m.Addresses ctx) :=
  inferInstanceAs (Decidable (_ ∧ _))

instance (ctx : ClientProtocolCtx) (m : Message) : Decidable (StoresPubkey ctx m) :=
  inferInstanceAs (Decidable (_ ∧ _))

/-- The transitions that change nothing but the state. -/
inductive Advance : ProtocolState → UInt8 → ProtocolState → Prop where
  | training (t : UInt8) : Advance .localTraining t .maskedUpdateStream
  | dropoutNotify : Advance .clientCompletion MsgType.dropoutNotify.code .maskRecovery
  | recoveryComplete : Advance .maskRecovery MsgType.recoveryComplete.code .unmask
  | unmask (t : UInt8) : Advance .unmask t .fedavg
  | fedavg (t : UInt8) : Advance .fedavg t .roundComplete

/-- The ways in which a message can be processed. -/
inductive Step (pf : Platform) (ctx : ClientProtocolCtx) (m : Message) : Outcome → Prop where
  | mismatched {status : PqcStatus} (hm : ¬m.Addresses ctx) (hs : status ≠ .success) :
      Step pf ctx m { status, ctx, payload := m.payload }
  | rejected {status : PqcStatus} (hm : m.Addresses ctx) (hs : status ≠ .success) :
      Step pf ctx m { status, ctx := m.ticked ctx, payload := m.payload }
  | roundStarted (hm : m.Addresses ctx) (hstate : ctx.state = .roundInit)
      (htype : m.hdr.messageType = MsgType.roundInit.code)
      (hsize : roundInitChunkSize m.payload ≠ 0) :
      Step pf ctx m
        { status := .success
          ctx := m.moved
            { ctx with
              chunkCtx := roundInitChunkCtx ctx m.hdr m.payload
              shamirCtx := ⟨m.payload 1, m.payload 0 - 1⟩ } .keySetup
          payload := m.payload }
  | keypair (hm : m.Addresses ctx) (hstate : ctx.state = .keySetup)
      (htype : m.hdr.messageType = MsgType.kemPublicKey.code) {status : PqcStatus}
      {kemKp : KemKeypair}
      (hkp : kemAdapterKeypair pf.lib m.env.kem m.env.coins ctx.kemKp = (status, kemKp)) :
      Step pf ctx m { status, ctx := { m.ticked ctx with kemKp }, payload := m.payload }
  | keyAgreed (hm : m.Addresses ctx) (hstate : ctx.state = .keySetup)
      (htype : m.hdr.messageType = MsgType.kemCiphertext.code) {sharedSecret : Bytes32}
      (hdec : kemAdapterDecapsulate pf.lib m.env.kem m.payload m.hdr.payloadLength.toNat
        (.ofBytes ctx.kemKp.secretKey) ctx.kemKp.secretKeyLen = .ok sharedSecret) :
      Step pf ctx m
        { status := .success
          ctx := m.moved { ctx with kemKp := { ctx.kemKp with sharedSecret } } .maskSetup
          payload := m.payload }
  | pubkeyStored (hstores : StoresPubkey ctx m) {i : Nat}
      (hslot : ctx.pairwiseCtx.keySlot m.hdr.clientId = some i) :
      Step pf ctx m
        { status := .success
          ctx := { m.ticked ctx with
            pairwiseCtx := ctx.pairwiseCtx.withPeer m.hdr.clientId }.copyPubkey pf.storage i
              m.payload
          payload := m.payload
          copies := [⟨i, .payload, KemVariant.mlKem768.publicKeyBytes⟩] }
  | tableFull (hstores : StoresPubkey ctx m)
      (hslot : ctx.pairwiseCtx.keySlot m.hdr.clientId = none) :
      Step pf ctx m { status := .success, ctx := m.ticked ctx, payload := m.payload }
  | confirmed (hm : m.Addresses ctx) (hstate : ctx.state = .maskSetup)
      (htype : m.hdr.messageType = MsgType.pairwiseConfirm.code) {pairwiseCtx : PairwiseContext}
      (hseeds : maskProtocolDerivePairwiseSeeds pf.kdf m.env.kem ctx.pairwiseCtx ctx.clientId
        (clientClientKemSecrets ctx.pairwiseCtx m.env.stack) ctx.currentRoundId =
          (.success, pairwiseCtx)) :
      Step pf ctx m
        { status := .success
          ctx := m.moved { ctx with pairwiseCtx } .localTraining
          payload := m.payload
          copies := (List.range pairwiseCtx.numPeers).map fun i => ⟨i, .kemSecrets, 32⟩ }
  | chunkMasked (hm : m.Addresses ctx) (hstate : ctx.state = .maskedUpdateStream)
      (htype : m.hdr.messageType = MsgType.maskChunk.code) {out : Outcome}
      (hout : handleStreamChunk pf m.env (m.ticked ctx) m.hdr m.payload m.payloadLen = out)
      (hsuccess : out.status = .success) {chunkCtx : ChunkContext}
      (hctx : out.ctx = { m.ticked ctx with chunkCtx }) (hcopies : out.copies = [])
      (hsent : out.sent = []) :
      Step pf ctx m out
  | completed (hm : m.Addresses ctx) (hstate : ctx.state = .maskedUpdateStream)
      (htype : m.hdr.messageType = MsgType.clientComplete.code)
      {sent : List (MsgHeader × ShamirShare)} :
      Step pf ctx m
        { status := .success
          ctx := m.moved ctx .clientCompletion
          payload := m.payload
          sent }
  | advanced (hm : m.Addresses ctx) {new : ProtocolState}
      (hadvance : Advance ctx.state m.hdr.messageType new) :
      Step pf ctx m { status := .success, ctx := m.moved ctx new, payload := m.payload }

/-! ## The handlers -/

/-- No variant has secret keys of the length of an ML-KEM-768 public key, so the adapter refuses
    what `state_machine_handle_mask_setup` passes it. -/
theorem kemAdapterDecapsulate_publicKeyBytes (lib : KemLib) (g : KemGlobals) (ct : Memory)
    (ctLen : Nat) (sk : Memory) :
    kemAdapterDecapsulate lib g ct ctLen sk KemVariant.mlKem768.publicKeyBytes =
      .error .errInvalidArgument := by
  have hlen : KemVariant.mlKem768.publicKeyBytes ≠ g.skBytes := by
    rw [g.sizes.2.1]
    cases g.activeVariant <;> decide
  rw [kemAdapterDecapsulate, if_pos (.inr hlen)]

/-- A failing adapter call does not report success. -/
theorem kemAdapterDecapsulate_ne_success {lib : KemLib} {g : KemGlobals} {ct : Memory}
    {ctLen : Nat} {sk : Memory} {skLen : Nat} {status : PqcStatus}
    (h : kemAdapterDecapsulate lib g ct ctLen sk skLen = .error status) : status ≠ .success := by
  simp only [kemAdapterDecapsulate] at h
  split at h
  · cases h
    decide
  · split at h
    · cases h
      decide
    · cases h

theorem maskProtocolGenerateChunkMask_error {kdf : Kdf} {prg : MaskPrg} {g : KemGlobals}
    {ctx : PairwiseContext} {clientId : UInt8} {roundId : UInt32} {chunkIndex : UInt16}
    {chunkSize : Nat} {status : PqcStatus}
    (h : maskProtocolGenerateChunkMask kdf prg g ctx clientId roundId chunkIndex chunkSize =
      .error status) : status = .errInvalidArgument := by
  simp only [maskProtocolGenerateChunkMask] at h
  split at h
  · cases h
    rfl
  · cases h

/-- A derivation that fails changes nothing. -/
theorem maskProtocolDerivePairwiseSeeds_of_ne_success {kdf : Kdf} {g : KemGlobals}
    {ctx ctx' : PairwiseContext} {localId : UInt8} {secrets : Memory} {roundId : UInt32}
    {status : PqcStatus}
    (h : maskProtocolDerivePairwiseSeeds kdf g ctx localId secrets roundId = (status, ctx'))
    (hne : status ≠ .success) : ctx' = ctx := by
  simp only [maskProtocolDerivePairwiseSeeds] at h
  split at h
  · cases h
    rfl
  · cases h
    exact absurd rfl hne

section

variable {pf : Platform} {ctx : ClientProtocolCtx} {m : Message}

/-- Outside the error state a transition succeeds. -/
private theorem transitionOutcome_eq (c : ClientProtocolCtx) (new : ProtocolState)
    (hstate : c.state ≠ .error) :
    transitionOutcome m.env c new m.payload =
      { status := .success, ctx := m.moved c new, payload := m.payload } := by
  simp only [transitionOutcome, stateMachineTransition, hstate, ↓reduceIte, Message.moved]

private theorem handleRoundInit_step (hm : m.Addresses ctx) (hstate : ctx.state = .roundInit)
    {out : Outcome} (hout : handleRoundInit m.env (m.ticked ctx) m.hdr m.payload = some out) :
    Step pf ctx m out := by
  simp only [handleRoundInit] at hout
  -- another message, another round, a chunk size of zero
  split at hout
  · cases hout
    exact .rejected hm (by decide)
  · rename_i htype
    split at hout
    · cases hout
      exact .rejected hm (by decide)
    · split at hout
      · cases hout
      · rename_i hsize
        rw [transitionOutcome_eq _ _ (by simp [Message.ticked, hstate])] at hout
        cases hout
        exact .roundStarted hm hstate (not_not.mp htype) hsize

private theorem handleKeySetup_step (hm : m.Addresses ctx) (hstate : ctx.state = .keySetup) :
    Step pf ctx m (handleKeySetup pf m.env (m.ticked ctx) m.hdr m.payload) := by
  have hticked : (m.ticked ctx).state = .keySetup := hstate
  rw [handleKeySetup, if_neg (not_not.mpr hticked)]
  -- a public key asks for a keypair, a ciphertext is decapsulated
  split
  · rename_i htype
    generalize hkp : kemAdapterKeypair pf.lib m.env.kem m.env.coins (m.ticked ctx).kemKp = result
    obtain ⟨status, kemKp⟩ := result
    exact .keypair hm hstate htype hkp
  · split
    · rename_i htype
      split
      · exact .rejected hm (by decide)
      · split
        · rename_i status hdec
          exact .rejected hm (kemAdapterDecapsulate_ne_success hdec)
        · rename_i sharedSecret hdec
          rw [transitionOutcome_eq _ _ (by simp [hticked])]
          exact .keyAgreed hm hstate htype hdec
    · exact .rejected hm (by decide)

private theorem handlePairwisePubkey_step (hm : m.Addresses ctx) (hstate : ctx.state = .maskSetup)
    (htype : m.hdr.messageType = MsgType.pairwisePubkey.code) :
    Step pf ctx m (handlePairwisePubkey pf (m.ticked ctx) m.hdr m.payload) := by
  have hticked : (m.ticked ctx).pairwiseCtx = ctx.pairwiseCtx := rfl
  rw [handlePairwisePubkey, hticked]
  split
  · exact .rejected hm (by decide)
  rename_i hlen
  have hstores : StoresPubkey ctx m := ⟨hm, hstate, htype, not_not.mp hlen⟩
  split
  · -- a known peer keeps its entry
    rename_i i hfind
    have hstep : Step pf ctx m _ := .pubkeyStored hstores
      (PairwiseContext.keySlot_of_findPeer hfind)
    rwa [PairwiseContext.withPeer_of_findPeer hfind] at hstep
  · rename_i hfind
    have hnot := PairwiseContext.findPeer_eq_none_iff.mp hfind
    have hslot := PairwiseContext.keySlot_of_notMem hnot
    split
    · rename_i hroom
      rw [if_pos hroom] at hslot
      have hstep : Step pf ctx m _ := .pubkeyStored hstores hslot
      rwa [PairwiseContext.withPeer_of_notMem hnot] at hstep
    · rename_i hroom
      exact .tableFull hstores (by rw [hslot, if_neg hroom])

private theorem handlePairwiseCiphertext_step (hm : m.Addresses ctx) :
    Step pf ctx m (handlePairwiseCiphertext pf m.env (m.ticked ctx) m.hdr m.payload) := by
  simp only [handlePairwiseCiphertext, kemAdapterDecapsulate_publicKeyBytes]
  split
  · exact .rejected hm (by decide)
  · split <;> exact .rejected hm (by decide)

private theorem handlePairwiseConfirm_step (hm : m.Addresses ctx) (hstate : ctx.state = .maskSetup)
    (htype : m.hdr.messageType = MsgType.pairwiseConfirm.code) :
    Step pf ctx m (handlePairwiseConfirm pf m.env (m.ticked ctx) m.payload) := by
  simp only [handlePairwiseConfirm]
  split
  · rename_i pairwiseCtx hseeds
    rw [transitionOutcome_eq _ _ (by simp [Message.ticked, hstate])]
    exact .confirmed hm hstate htype hseeds
  · rename_i status pairwiseCtx hne hseeds
    rw [maskProtocolDerivePairwiseSeeds_of_ne_success hseeds hne]
    exact .rejected hm hne

private theorem handleMaskSetup_step (hm : m.Addresses ctx) (hstate : ctx.state = .maskSetup) :
    Step pf ctx m (handleMaskSetup pf m.env (m.ticked ctx) m.hdr m.payload) := by
  have hticked : (m.ticked ctx).state = .maskSetup := hstate
  rw [handleMaskSetup, if_neg (not_not.mpr hticked)]
  split
  · rename_i htype
    exact handlePairwisePubkey_step hm hstate htype
  · split
    · exact handlePairwiseCiphertext_step hm
    · split
      · rename_i htype
        exact handlePairwiseConfirm_step hm hstate htype
      · exact .rejected hm (by decide)

private theorem handleStreamChunk_step (hm : m.Addresses ctx)
    (hstate : ctx.state = .maskedUpdateStream)
    (htype : m.hdr.messageType = MsgType.maskChunk.code) :
    Step pf ctx m (handleStreamChunk pf m.env (m.ticked ctx) m.hdr m.payload m.payloadLen) := by
  have hticked : (m.ticked ctx).state = .maskedUpdateStream := hstate
  generalize hout : handleStreamChunk pf m.env (m.ticked ctx) m.hdr m.payload m.payloadLen = out
  have hfull := hout
  rw [handleStreamChunk, if_neg (not_not.mpr hticked)] at hout
  -- wrong sequence number or length, then the mask itself
  split at hout
  · subst hout
    exact .rejected hm (by decide)
  · split at hout
    · subst hout
      exact .rejected hm (by decide)
    · dsimp only at hout
      split at hout
      · rename_i status hmask
        subst hout
        exact .rejected hm (maskProtocolGenerateChunkMask_error hmask ▸ by decide)
      · subst hout
        exact .chunkMasked hm hstate htype hfull rfl rfl rfl rfl

private theorem handleCompletion_step (hm : m.Addresses ctx)
    (hstate : ctx.state = .maskedUpdateStream)
    (htype : m.hdr.messageType = MsgType.clientComplete.code) :
    Step pf ctx m (handleCompletion pf m.env (m.ticked ctx) m.hdr m.payload) := by
  have hticked : (m.ticked ctx).state = .maskedUpdateStream := hstate
  rw [handleCompletion, if_neg (not_not.mpr hticked), if_neg (not_not.mpr htype)]
  simp only
  split
  · exact .rejected hm (by decide)
  · rw [transitionOutcome_eq _ _ (by simp [hticked])]
    exact .completed hm hstate htype

/-- The handlers that wait for one message in one state. -/
private theorem handleExpected_step (hm : m.Addresses ctx) {expected : MsgType}
    {old new : ProtocolState} (hstate : ctx.state = old) (hold : old ≠ .error)
    (hadvance : Advance old expected.code new) :
    Step pf ctx m (handleExpected m.env old new expected (m.ticked ctx) m.hdr m.payload) := by
  have hticked : (m.ticked ctx).state = old := hstate
  rw [handleExpected, if_neg (not_not.mpr hticked)]
  split
  · exact .rejected hm (by decide)
  · rename_i htype
    rw [transitionOutcome_eq _ _ (hticked ▸ hold)]
    apply Step.advanced hm
    rw [hstate, not_not.mp htype]
    exact hadvance

private theorem dispatchState_step (hm : m.Addresses ctx) {out : Outcome}
    (hout : dispatchState pf m.env (m.ticked ctx) m.hdr m.payload m.payloadLen = some out) :
    Step pf ctx m out := by
  -- recording the tick does not change the state
  have hticked : (m.ticked ctx).state = ctx.state := rfl
  rw [dispatchState, hticked] at hout
  cases hstate : ctx.state <;> simp only [hstate] at hout
  case roundInit => exact handleRoundInit_step hm hstate hout
  case keySetup =>
    cases hout
    exact handleKeySetup_step hm hstate
  case maskSetup =>
    cases hout
    exact handleMaskSetup_step hm hstate
  case localTraining =>
    cases hout
    rw [handleLocalTraining, if_neg (not_not.mpr (hticked.trans hstate)),
      transitionOutcome_eq _ _ (by simp [Message.ticked, hstate])]
    exact .advanced hm (hstate ▸ .training _)
  case maskedUpdateStream =>
    split at hout
    · rename_i htype
      cases hout
      exact handleStreamChunk_step hm hstate htype
    · split at hout
      · rename_i htype
        cases hout
        exact handleCompletion_step hm hstate htype
      · cases hout
        exact .rejected hm (by decide)
  case clientCompletion =>
    cases hout
    exact handleExpected_step hm hstate (by decide) .dropoutNotify
  case maskRecovery =>
    cases hout
    exact handleExpected_step hm hstate (by decide) .recoveryComplete
  case unmask =>
    cases hout
    rw [transitionOutcome_eq _ _ (by simp [Message.ticked, hstate])]
    exact .advanced hm (hstate ▸ .unmask _)
  case fedavg =>
    cases hout
    rw [transitionOutcome_eq _ _ (by simp [Message.ticked, hstate])]
    exact .advanced hm (hstate ▸ .fedavg _)
  -- the states without a handler
  all_goals
    cases hout
    exact .rejected hm (by decide)

/-- A message for this client in this round reaches the handlers. -/
theorem processMessage_of_addresses (pf : Platform) (hm : m.Addresses ctx) :
    processMessage pf m.env ctx m.hdr m.payload m.payloadLen =
      dispatchState pf m.env (m.ticked ctx) m.hdr m.payload m.payloadLen := by
  have hid : ¬(m.hdr.clientId ≠ 0 ∧ m.hdr.clientId ≠ ctx.clientId) := by
    rintro ⟨h₁, h₂⟩
    exact hm.2.elim h₁ h₂
  rw [processMessage, if_neg (not_not.mpr hm.1), if_neg hid]
  rfl

/-- Everything `state_machine_process_message` can do. -/
theorem processMessage_step {out : Outcome}
    (hout : processMessage pf m.env ctx m.hdr m.payload m.payloadLen = some out) :
    Step pf ctx m out := by
  simp only [processMessage] at hout
  -- messages of another round or client end here
  split at hout
  · rename_i hround
    cases hout
    exact .mismatched (fun h => hround h.1) (by decide)
  rename_i hround
  split at hout
  · rename_i hid
    cases hout
    exact .mismatched (fun h => h.2.elim hid.1 hid.2) (by decide)
  · rename_i hid
    have hm : m.Addresses ctx := ⟨not_not.mp hround, by
      by_contra h
      exact hid (not_or.mp h)⟩
    exact dispatchState_step hm hout

/-! ## Runs -/

/-- What every step keeps, every run keeps. -/
theorem Trace.run_invariant (P : Trace → Prop)
    (hstep : ∀ tr m tr', P tr → Trace.step pf tr m = some tr' → P tr') {tr tr' : Trace}
    {ms : List Message} (hP : P tr) (hrun : Trace.run pf tr ms = some tr') : P tr' :=
  PartialRun.run_invariant hstep hP hrun

end

end SwiftAgg.Native
