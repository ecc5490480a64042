import SwiftAgg.Spec.KeyAgreement
import Mathlib.Data.List.Infix

/-!
# Where the mask seeds come from

Every copy into a peer's `shared_secret` is recorded with its source. A public
key message copies payload bytes there; decapsulation into a peer's slot never
succeeds; and the confirmation derives the seeds from whatever the slots hold.
So the seeds come from decapsulated secrets only in runs in which no
confirmation is accepted at all.

## Key results

- `Trace.run_no_decapsulated`: no run copies a decapsulated secret into a slot
- `seedsDecapsulated_iff`: in which runs the seeds come only from decapsulated secrets
-/

namespace SwiftAgg.Native

/-- The source of the bytes in a slot: its last copy, the write-back of the derivation apart, which
    copies the slot's own bytes. -/
def slotOrigin (copies : List SlotCopy) (slot : Nat) : Option CopySource :=
  (copies.reverse.find? fun c => c.slot = slot ∧ c.source ≠ .kemSecrets).map SlotCopy.source

/-- In the run over `ms`, whenever the client is in LOCAL_TRAINING, every registered peer's seed was
    derived from a decapsulated secret. -/
def SeedsDecapsulated (pf : Platform) (start : Trace) (ms : List Message) : Prop :=
  ∀ pre, pre <+: ms → ∀ tr, Trace.run pf start pre = some tr → tr.ctx.state = .localTraining →
    ∀ i < tr.ctx.pairwiseCtx.numPeers, slotOrigin tr.copies i = some .decapsulated

/-- The message is a confirmation that the client accepts: it is addressed to it, the client is in
    MASK_SETUP and has a peer. -/
def AcceptsConfirm (ctx : ClientProtocolCtx) (m : Message) : Prop :=
  m.Addresses ctx ∧ ctx.state = .maskSetup ∧
    m.hdr.messageType = MsgType.pairwiseConfirm.code ∧ 0 < ctx.pairwiseCtx.numPeers

variable {pf : Platform} {ctx : ClientProtocolCtx} {m : Message} {out : Outcome}

/-! ## One message -/

/-- No step copies a decapsulated secret. -/
theorem Step.no_decapsulated (h : Step pf ctx m out) :
    ∀ c ∈ out.copies, c.source ≠ .decapsulated := by
  cases h with
  | pubkeyStored => simp
  | confirmed => simp
  | chunkMasked _ _ _ _ _ _ hcopies _ => simp [hcopies]
  | _ => simp

/-- LOCAL_TRAINING is entered by an accepted confirmation only. -/
theorem Step.localTraining_of (h : Step pf ctx m out) (hout : out.ctx.state = .localTraining) :
    ctx.state = .localTraining ∨ AcceptsConfirm ctx m := by
  cases h with
  | mismatched | rejected | tableFull => exact .inl hout
  | keypair => exact .inl hout
  | pubkeyStored =>
    rw [ClientProtocolCtx.copyPubkey_state] at hout
    exact .inl hout
  | roundStarted | keyAgreed | completed => exact ProtocolState.noConfusion hout
  | chunkMasked hm hstate _ _ _ hctx _ _ =>
    rw [hctx] at hout
    exact .inl hout
  -- deriving seeds fails without peers
  | confirmed hm hstate htype hseeds =>
    refine .inr ⟨hm, hstate, htype, Nat.pos_of_ne_zero ?_⟩
    intro hnone
    simp [maskProtocolDerivePairwiseSeeds, hnone] at hseeds
  | @advanced hm new hadvance =>
    have hnone : ∀ old t, ¬Advance old t .localTraining := fun old t h => by cases h
    have hnew : new = .localTraining := hout
    rw [hnew] at hadvance
    exact absurd hadvance (hnone _ _)

/-- An accepted confirmation leads to LOCAL_TRAINING with the same number of peers. -/
theorem processMessage_of_acceptsConfirm (pf : Platform) (h : AcceptsConfirm ctx m) : ∃ out,
    processMessage pf m.env ctx m.hdr m.payload m.payloadLen = some out ∧
      out.ctx.state = .localTraining ∧
        out.ctx.pairwiseCtx.numPeers = ctx.pairwiseCtx.numPeers := by
  obtain ⟨hm, hstate, htype, hpeers⟩ := h
  have hticked : (m.ticked ctx).state = .maskSetup := hstate
  have hpeers' : (m.ticked ctx).pairwiseCtx.numPeers ≠ 0 := Nat.ne_of_gt hpeers
  rw [processMessage_of_addresses pf hm, dispatchState, hticked]
  simp only [handleMaskSetup, hticked, ne_eq, not_true_eq_false, ↓reduceIte, htype]
  rw [if_neg (by decide), if_neg (by decide)]
  simp only [handlePairwiseConfirm, maskProtocolDerivePairwiseSeeds, hpeers', ↓reduceIte,
    transitionOutcome, stateMachineTransition, hticked, reduceCtorEq]
  exact ⟨_, rfl, rfl, by simp [PairwiseContext.numPeers, Message.ticked]⟩

/-! ## Runs -/

theorem Trace.run_concat (tr : Trace) (pre : List Message) :
    Trace.run pf tr (pre ++ [m]) = (Trace.run pf tr pre).bind fun tr₁ => Trace.step pf tr₁ m :=
  PartialRun.run_concat tr pre m

theorem Trace.step_eq_some {tr tr' : Trace} (h : Trace.step pf tr m = some tr') :
    ∃ out, Step pf tr.ctx m out ∧ tr' = ⟨out.ctx, tr.copies ++ out.copies⟩ := by
  obtain ⟨out, hout, rfl⟩ := Option.map_eq_some_iff.mp h
  exact ⟨out, processMessage_step hout, rfl⟩

/-- No run copies a decapsulated secret into a slot. -/
theorem Trace.run_no_decapsulated {clientId : UInt8} {roundId tick : UInt32} {ms : List Message}
    {tr : Trace} (h : Trace.run pf (.init clientId roundId tick) ms = some tr) :
    ∀ c ∈ tr.copies, c.source ≠ .decapsulated := by
  apply Trace.run_invariant (fun tr => ∀ c ∈ tr.copies, c.source ≠ .decapsulated) ?_ ?_ h
  · intro tr m tr' hinv hstep c hc
    obtain ⟨out, hout, rfl⟩ := Trace.step_eq_some hstep
    rcases List.mem_append.mp hc with hc | hc
    · exact hinv c hc
    · exact hout.no_decapsulated c hc
  · simp [Trace.init]

/-- A run that ends in LOCAL_TRAINING accepted a confirmation on the way. -/
theorem Trace.run_localTraining {clientId : UInt8} {roundId tick : UInt32} {ms : List Message}
    {tr : Trace} (h : Trace.run pf (.init clientId roundId tick) ms = some tr)
    (hstate : tr.ctx.state = .localTraining) : ∃ pre m tr₁, pre ++ [m] <+: ms ∧
      Trace.run pf (.init clientId roundId tick) pre = some tr₁ ∧ AcceptsConfirm tr₁.ctx m := by
  induction ms using List.reverseRecOn generalizing tr with
  | nil =>
    cases h
    exact ProtocolState.noConfusion hstate
  | append_singleton ms m ih =>
    rw [Trace.run_concat] at h
    obtain ⟨tr₁, hrun, hstep⟩ := Option.bind_eq_some_iff.mp h
    obtain ⟨out, hout, rfl⟩ := Trace.step_eq_some hstep
    rcases hout.localTraining_of hstate with hbefore | haccept
    · obtain ⟨pre, m', tr₂, hpre, hrun₂, haccept⟩ := ih hrun hbefore
      exact ⟨pre, m', tr₂, hpre.trans (List.prefix_append ms [m]), hrun₂, haccept⟩
    · exact ⟨ms, m, tr₁, List.prefix_refl _, hrun, haccept⟩

/-- The origin of a slot is the source of one of the copies. -/
private theorem mem_of_slotOrigin {copies : List SlotCopy} {slot : Nat} {source : CopySource}
    (h : slotOrigin copies slot = some source) : ∃ c ∈ copies, c.source = source := by
  obtain ⟨c, hc, hsource⟩ := Option.map_eq_some_iff.mp h
  exact ⟨c, List.mem_reverse.mp (List.mem_of_find?_eq_some hc), hsource⟩

/-- The seeds of a run come only from decapsulated secrets exactly when no message of it is a
    confirmation that the client accepts. -/
theorem seedsDecapsulated_iff (pf : Platform) (clientId : UInt8) (roundId tick : UInt32)
    (ms : List Message) :
    SeedsDecapsulated pf (.init clientId roundId tick) ms ↔
      ∀ pre m, pre ++ [m] <+: ms → ∀ tr,
        Trace.run pf (.init clientId roundId tick) pre = some tr → ¬AcceptsConfirm tr.ctx m := by
  constructor
  · intro hseeds pre m hpre tr hrun haccept
    obtain ⟨out, hout, hstate, hpeers⟩ := processMessage_of_acceptsConfirm pf haccept
    have hrun' : Trace.run pf (.init clientId roundId tick) (pre ++ [m]) =
        some ⟨out.ctx, tr.copies ++ out.copies⟩ := by
      rw [Trace.run_concat, hrun, Option.bind_some, Trace.step, hout, Option.map_some]
    have horigin := hseeds _ hpre _ hrun' hstate 0 (hpeers ▸ haccept.2.2.2)
    obtain ⟨c, hc, hsource⟩ := mem_of_slotOrigin horigin
    exact Trace.run_no_decapsulated hrun' c hc hsource
  · intro hnone pre hpre tr hrun hstate
    obtain ⟨pre', m, tr₁, hpre', hrun', haccept⟩ := Trace.run_localTraining hrun hstate
    exact absurd haccept (hnone pre' m (hpre'.trans hpre) tr₁ hrun')

/-! ## A run with seeds from a payload -/

/-- A message of the server to client 1 in round 1, with a constant payload. -/
def serverMessage (type : MsgType) (payloadLength : UInt16) (b : UInt8) : Message where
  env := quietEnv
  hdr := ⟨protocolVersion, 1, 0, type.code, 0, payloadLength, 0⟩
  payload _ := b
  payloadLen := payloadLength

/-- Round setup, key setup, one public key message and the confirmation. -/
def payloadSeedRun : List Message :=
  [serverMessage .roundInit 8 2, serverMessage .kemPublicKey 1184 0,
    serverMessage .kemCiphertext 1088 9, serverMessage .pairwisePubkey 1184 7,
    serverMessage .pairwiseConfirm 0 0]

/-- The run ends in LOCAL_TRAINING with one peer whose secret is payload bytes. -/
theorem payloadSeedRun_not_decapsulated :
    ¬SeedsDecapsulated repeatPlatform (.init 1 1 0) payloadSeedRun := by
  have hend : (Trace.run repeatPlatform (.init 1 1 0) payloadSeedRun).map (fun tr =>
      (tr.ctx.state, tr.ctx.pairwiseCtx.numPeers, slotOrigin tr.copies 0)) =
        some (.localTraining, 1, some .payload) := by
    decide +kernel
  obtain ⟨tr, hrun, htr⟩ := Option.map_eq_some_iff.mp hend
  simp only [Prod.mk.injEq] at htr
  obtain ⟨hstate, hpeers, horigin⟩ := htr
  intro hseeds
  have hdec := hseeds payloadSeedRun (List.prefix_refl _) tr hrun hstate 0 (by omega)
  rw [horigin] at hdec
  exact absurd hdec (by decide)

end SwiftAgg.Native
