import SwiftAgg.Spec.Broadcast

/-!
# What key setup and recovery write

Up to its result `_unmask_and_aggregate` assigns secrets, seeds and a stage to
the clients of its round, counts encapsulations and sends ciphertexts to the
writers it looks up. A contract that allows these writes is kept by all of it.

## Key results

- `KeyWriting.prepare`: key setup and recovery keep such a contract
-/

namespace SwiftAgg.Host

open Coroutine

/-- An assignment of key setup and recovery to their round: the result is left alone. -/
structure KeyWrite (rs rs' : RoundState) : Prop where
  internal : InternalWrite rs rs'
  unmaskedChunks : rs'.unmaskedChunks = rs.unmaskedChunks

theorem KeyWrite.recovered (hmac : Hmac) (rs : RoundState) :
    KeyWrite rs (triggerRecovery hmac rs).2 := by
  refine ⟨triggerRecovery_internal hmac rs, ?_⟩
  obtain ⟨secrets, hsecrets⟩ := recoverDropouts_secrets hmac rs.dropoutClients rs
  rw [triggerRecovery, hsecrets]
  clear hsecrets
  induction secrets generalizing rs with
  | nil => rfl
  | cons p secrets ih => exact ih (rs.setSharedSecret p.1 p.2)

/-- The contract allows the writes of key setup and recovery in a round, from states with `I`. -/
structure KeyWriting (env : HostEnv) (roundId : Nat) (I : ServerState → Prop)
    (C : Contract ServerState) : Prop where
  preserves : C.Preserves I
  pause : ∀ s, I s → C.pause s
  encapsulated : ∀ s n, I s → C.guar s { s with encapsulations := n }
  round : ∀ s f, I s → (∀ rs, s.rounds.get? roundId = some rs → KeyWrite rs (f rs)) →
    C.guar s { s with rounds := s.rounds.modify roundId f }
  ciphertext : ∀ s id writer call key ct ss header, I s → s.clientWriters.get? id = some writer →
    env.encapsulate call key = .ok (ct, ss) →
    buildHeader 0x02 roundId 0 0 ct.length = .ok header →
    C.guar s { s with sent := s.sent ++ [(writer, header ++ ct)] }

namespace KeyWriting

variable {env : HostEnv} {roundId : Nat} {I : ServerState → Prop} {C : Contract ServerState}

theorem modifyRound (h : KeyWriting env roundId I C) {f : RoundState → RoundState}
    (hf : ∀ rs, KeyWrite rs (f rs)) : Follows I C (modifyRound roundId f) :=
  Follows.update h.preserves fun s hs => h.round s f hs fun rs _ => hf rs

theorem encapsulateFor (h : KeyWriting env roundId I C) (clientId : Nat) (publicKey : Bytes) :
    Follows I C (encapsulateFor env roundId clientId publicKey) := by
  unfold Host.encapsulateFor
  refine Follows.state.bind fun s => ?_
  refine Follows.bind (Follows.update h.preserves fun s hs => h.encapsulated s _ hs) fun _ => ?_
  refine Follows.liftExcept_bind fun (ct, ss) hcall => ?_
  refine Follows.bind (h.modifyRound fun rs => ⟨.secret rs clientId ss, rfl⟩) fun _ => ?_
  refine Follows.liftExcept_bind fun header hheader => ?_
  -- the writer is looked up in the state in which the ciphertext is written
  refine fun s hs => Safe.state_bind ?_
  split
  · rename_i writer hwriter
    have hguar := h.ciphertext s clientId writer _ publicKey ct ss header hs hwriter hcall hheader
    exact ⟨hguar, drain_follows h.preserves h.pause writer _ (h.preserves.guar _ _ hguar hs)⟩
  · exact hs

theorem encapsulateUnlessShared (h : KeyWriting env roundId I C) (clientId : Nat) :
    Follows I C (encapsulateUnlessShared env roundId clientId) := by
  unfold Host.encapsulateUnlessShared
  refine getClient_follows.bind fun c => ?_
  split
  · exact Follows.raise _
  · split
    · exact Follows.pure _
    · exact h.encapsulateFor _ _

theorem setupPair (h : KeyWriting env roundId I C) (pair : Nat × Nat) :
    Follows I C (setupPair env roundId pair) := by
  unfold Host.setupPair
  refine getClient_follows.bind fun a => getClient_follows.bind fun b => ?_
  split
  · split
    · exact Follows.pure _
    · split
      · exact (h.encapsulateUnlessShared _).bind fun _ => h.encapsulateUnlessShared _
      · exact Follows.pure _
  · exact Follows.raise _
  · exact Follows.raise _

theorem setSeed (h : KeyWriting env roundId I C) (clientId peerId : Nat) (seed : Bytes) :
    Follows I C (setSeed roundId clientId peerId seed) :=
  h.modifyRound fun rs => ⟨.seed rs clientId peerId seed, rfl⟩

theorem orchestratePair (h : KeyWriting env roundId I C) (pair : Nat × Nat) :
    Follows I C (orchestratePair env roundId pair) := by
  unfold Host.orchestratePair
  refine getClient_follows.bind fun a => getClient_follows.bind fun b => ?_
  split
  · split
    · exact Follows.pure _
    · split
      · exact Follows.pure _
      · refine (h.encapsulateUnlessShared _).bind fun _ => ?_
        refine (h.encapsulateUnlessShared _).bind fun _ => ?_
        refine getClient_follows.bind fun i => getClient_follows.bind fun r => ?_
        split
        · split
          · refine (Follows.liftExcept _).bind fun seed => ?_
            exact (h.setSeed _ _ _).bind fun _ => h.setSeed _ _ _
          · exact Follows.pure _
        · exact Follows.raise _
        · exact Follows.raise _
  · exact Follows.raise _
  · exact Follows.raise _

theorem deriveSeeds (h : KeyWriting env roundId I C) (rs : RoundState)
    (client : Nat × ClientState) : Follows I C (deriveSeeds env roundId rs client) := by
  unfold Host.deriveSeeds
  split
  · refine Follows.forM (fun peer => ?_) _
    split
    · exact (Follows.liftExcept _).bind fun seed => h.setSeed _ _ _
    · exact Follows.pure _
  · exact Follows.pure _

theorem setupKeysAndMasks (h : KeyWriting env roundId I C) :
    Follows I C (setupKeysAndMasks env roundId) := by
  unfold Host.setupKeysAndMasks
  refine Follows.bind (Follows.forPositions fun i => ?_) fun _ => ?_
  · refine getRound_follows.bind fun rs => ?_
    split
    · split
      · exact h.encapsulateFor _ _
      · exact Follows.pure _
    · exact Follows.pure _
  refine getRound_follows.bind fun rs => ?_
  refine Follows.bind (Follows.forM h.setupPair _) fun _ => ?_
  have horchestrate : Follows I C (orchestratePairwiseKem env roundId) :=
    getRound_follows.bind fun _ => Follows.forM h.orchestratePair _
  refine horchestrate.bind fun _ => getRound_follows.bind fun rs' => ?_
  split
  · refine Follows.bind (Follows.forM (h.deriveSeeds _) _) fun _ => ?_
    exact h.modifyRound fun rs => ⟨.maskSetup rs, rfl⟩
  · exact Follows.pure _

theorem runRecovery (h : KeyWriting env roundId I C) : Follows I C (runRecovery env roundId) := by
  intro s hs
  refine safe_getRound_bind ?_
  cases hround : s.rounds.get? roundId with
  | none => exact hs
  | some rs =>
    have hguar := h.round s (fun _ => (triggerRecovery env.hmac rs).2) hs fun rs' hrs' => by
      obtain rfl : rs = rs' := Option.some.inj (hround.symm.trans hrs')
      exact .recovered env.hmac rs
    refine safe_modifyRound_bind hguar ?_
    -- the exception is raised after the assignment
    split
    · exact h.preserves.guar _ _ hguar hs
    · exact h.preserves.guar _ _ hguar hs

/-- Key setup and recovery keep the contract. -/
theorem prepare (h : KeyWriting env roundId I C) : Follows I C (prepare env roundId) :=
  h.setupKeysAndMasks.bind fun _ => h.runRecovery

end KeyWriting

end SwiftAgg.Host
