import SwiftAgg.Spec.Broadcast
import SwiftAgg.Spec.KeyDerivation
import SwiftAgg.Spec.RoundProgress

/-!
# What key setup can raise

Key setup and recovery look up only clients of their round. As long as no client
registers meanwhile, the loop over the clients does not find its dictionary
changed, and every exception comes from encapsulation, from a header that
cannot be built, from a connection that is lost, from a derivation or from recovery.

## Key results

- `setupKeysAndMasks_raises`: the exceptions of key setup, in a round whose clients stay
- `prepare_raises`: those of key setup and recovery
-/

namespace SwiftAgg.Host

open Coroutine

/-! ## In a round -/

/-- A round is there, under its number, its progress satisfies `J`, and the clients' writers and the
    connections that are being closed satisfy `K`. -/
structure InRound (roundId : Nat) (J : Progress → Prop) (K : Dict Nat Nat → List Nat → Prop)
    (s : ServerState) : Prop where
  keyed : s.Keyed
  progress : ∃ p, s.progress roundId = some p ∧ J p
  connections : K s.clientWriters s.closing

section

variable {roundId : Nat} {J : Progress → Prop} {K : Dict Nat Nat → List Nat → Prop}
  {s s' : ServerState}

theorem InRound.exists_round (h : InRound roundId J K s) :
    ∃ rs, s.rounds.get? roundId = some rs ∧ rs.roundId = roundId ∧ J rs.progress := by
  obtain ⟨p, hp, hJ⟩ := h.progress
  obtain ⟨rs, hrs, rfl⟩ := Option.map_eq_some_iff.mp hp
  exact ⟨rs, hrs, h.keyed roundId rs hrs, hJ⟩

/-- The writes of aggregation keep the progress. -/
theorem InRound.write {S : Bytes → Prop} (h : InRound roundId J K s)
    (hwrite : ServerWrite InternalWrite S roundId s s') : InRound roundId J K s' := by
  refine ⟨hwrite.keyed (fun _ _ => InternalWrite.roundId) s s' h.keyed, ?_, ?_⟩
  · rw [(hwrite.imp (fun _ _ => CompletionWrite.internal) fun _ hS => hS).progress]
    exact h.progress
  · cases hwrite <;> exact h.connections

end

section

variable {env : HostEnv} {roundId : Nat} {J : Progress → Prop}
  {K : Dict Nat Nat → List Nat → Prop} {E : PyErr → Prop} {ks : List Nat}

/-- A round that is there is found. -/
theorem getRound_raises {α : Type} {f : Option RoundState → Server α}
    (hf : ∀ rs, rs.roundId = roundId → J rs.progress →
      Raises (InRound roundId J K) E (f (some rs))) :
    Raises (InRound roundId J K) E (getRound roundId >>= f) := by
  intro s hs
  obtain ⟨rs, hrs, hid, hJ⟩ := hs.exists_round
  refine safe_getRound_bind ?_
  rw [hrs]
  exact hf rs hid hJ s hs

/-- So is a client of the round. -/
theorem getClient_raises {α : Type} {clientId : Nat} {f : Option ClientState → Server α}
    (hid : ∀ p, J p → clientId ∈ p.deliveries.keys)
    (hf : ∀ c, Raises (InRound roundId J K) E (f (some c))) :
    Raises (InRound roundId J K) E (getClient roundId clientId >>= f) := by
  have hclient : ∀ rs : RoundState, J rs.progress → ∃ c, rs.clients.get? clientId = some c := by
    intro rs hJ
    have hmem := hid rs.progress hJ
    rw [RoundState.progress, Dict.keys_map] at hmem
    obtain ⟨c, hc⟩ := Dict.mem_keys_iff.mp hmem
    exact ⟨c, Dict.get?_eq_some_iff.mpr hc⟩
  rw [getClient, bind_assoc]
  refine getRound_raises fun rs _ hJ => ?_
  obtain ⟨c, hc⟩ := hclient rs hJ
  rw [pure_bind, Option.bind_some, hc]
  exact hf c

theorem modifyRound_raises {f : RoundState → RoundState} (hf : ∀ rs, InternalWrite rs (f rs)) :
    Raises (InRound roundId J K) E (modifyRound roundId f) :=
  Raises.update fun s hs => hs.write (S := KeyMessage) (.round s f fun rs _ => hf rs)

theorem writeAndDrain_raises {writer : Nat} (data : Bytes)
    (hreset : ∀ writers closing, K writers closing → writer ∈ closing → E .connectionResetError) :
    Raises (InRound roundId J K) E (writeAndDrain writer data) := by
  refine Raises.bind (Raises.update fun s hs => ?_) fun _ => ?_
  · exact hs.write (S := fun _ => True) (.sent s writer data trivial)
  refine Raises.bind Raises.suspend fun _ => Raises.state_bind fun s hs => ?_
  split
  · exact Raises.raise (hreset _ _ hs.connections ‹_›)
  · exact Raises.pure _

theorem setSeed_raises (clientId peerId : Nat) (seed : Bytes) :
    Raises (InRound roundId J K) E (setSeed roundId clientId peerId seed) :=
  modifyRound_raises fun rs => .seed rs clientId peerId seed

/-- The exceptions of key setup in a round with the clients `ks` are of the kind `E`; a client's
    connection may be lost after it was looked up. -/
structure KeyErrors (env : HostEnv) (roundId : Nat) (K : Dict Nat Nat → List Nat → Prop)
    (ks : List Nat) (E : PyErr → Prop) : Prop where
  encapsulate : ∀ n key e, env.encapsulate n key = .error e → E e
  header : ∀ n key ct ss, env.encapsulate n key = .ok (ct, ss) →
    ∀ e, buildHeader 0x02 roundId 0 0 ct.length = .error e → E e
  seed : ∀ a ∈ ks, ∀ b ∈ ks, ∀ secret e,
    derivePairwiseMaskSeed env.hmac secret (min a b) (max a b) roundId = .error e → E e
  reset : ∀ writers closing, K writers closing → ∀ writer ∈ writers.values,
    ∀ writers' closing', K writers' closing' → writer ∈ closing' → E .connectionResetError

theorem encapsulateFor_raises (hE : KeyErrors env roundId K ks E) (clientId : Nat) (key : Bytes) :
    Raises (InRound roundId J K) E (encapsulateFor env roundId clientId key) := by
  unfold encapsulateFor
  refine Raises.state_bind fun s _ => ?_
  refine Raises.bind (Raises.update fun s' hs' => ?_) fun _ => ?_
  · exact hs'.write (S := KeyMessage) (.encapsulated s' _)
  refine Raises.liftExcept_bind (fun secret hsecret => ?_) (hE.encapsulate _ _)
  refine Raises.bind (modifyRound_raises fun rs => .secret rs clientId _) fun _ => ?_
  refine Raises.liftExcept_bind (fun header _ => ?_) (hE.header _ _ _ _ hsecret)
  refine Raises.state_bind fun s' hs' => ?_
  split
  · rename_i writer hwriter
    exact writeAndDrain_raises _ fun writers closing hK hlost =>
      hE.reset _ _ hs'.connections writer (Dict.mem_values_iff.mpr ⟨clientId, hwriter⟩) _ _ hK hlost
  · exact Raises.pure _

section

variable (hks : ∀ p, J p → p.deliveries.keys = ks) (hE : KeyErrors env roundId K ks E)

include hks hE

theorem encapsulateUnlessShared_raises {clientId : Nat} (hid : clientId ∈ ks) :
    Raises (InRound roundId J K) E (encapsulateUnlessShared env roundId clientId) := by
  refine getClient_raises (fun p hp => hks p hp ▸ hid) fun c => ?_
  show Raises _ _ (if truthy c.sharedSecret then _ else _)
  split
  · exact Raises.pure _
  · exact encapsulateFor_raises hE _ _

theorem setupPair_raises {pair : Nat × Nat} (h₁ : pair.1 ∈ ks) (h₂ : pair.2 ∈ ks) :
    Raises (InRound roundId J K) E (setupPair env roundId pair) := by
  refine getClient_raises (fun p hp => hks p hp ▸ h₁) fun a => ?_
  refine getClient_raises (fun p hp => hks p hp ▸ h₂) fun b => ?_
  show Raises _ _ (if truthy a.sharedSecret && truthy b.sharedSecret then _ else
    if truthy a.publicKey && truthy b.publicKey then _ else _)
  split
  · exact Raises.pure _
  split
  · exact (encapsulateUnlessShared_raises hks hE (min_rec' (· ∈ ks) h₁ h₂)).bind fun _ =>
      encapsulateUnlessShared_raises hks hE (max_rec' (· ∈ ks) h₁ h₂)
  · exact Raises.pure _

theorem orchestratePair_raises {pair : Nat × Nat} (h₁ : pair.1 ∈ ks) (h₂ : pair.2 ∈ ks) :
    Raises (InRound roundId J K) E (orchestratePair env roundId pair) := by
  -- the smaller id is the initiator; both are clients, so no lookup fails
  have hmin : min pair.1 pair.2 ∈ ks := min_rec' (· ∈ ks) h₁ h₂
  have hmax : max pair.1 pair.2 ∈ ks := max_rec' (· ∈ ks) h₁ h₂
  refine getClient_raises (fun p hp => hks p hp ▸ h₁) fun a => ?_
  refine getClient_raises (fun p hp => hks p hp ▸ h₂) fun b => ?_
  show Raises _ _ (if !(truthy a.publicKey && truthy b.publicKey) then _ else
    if truthy a.sharedSecret && truthy b.sharedSecret then _ else _)
  split
  · exact Raises.pure _
  split
  · exact Raises.pure _
  refine (encapsulateUnlessShared_raises hks hE hmin).bind fun _ => ?_
  refine (encapsulateUnlessShared_raises hks hE hmax).bind fun _ => ?_
  refine getClient_raises (fun p hp => hks p hp ▸ hmin) fun i => ?_
  refine getClient_raises (fun p hp => hks p hp ▸ hmax) fun r => ?_
  show Raises _ _ (if truthy i.sharedSecret && truthy r.sharedSecret then _ else _)
  split
  · refine Raises.liftExcept_bind (fun seed _ => ?_) fun e he => hE.seed _ h₁ _ h₂ _ e he
    exact (setSeed_raises _ _ _).bind fun _ => setSeed_raises _ _ _
  · exact Raises.pure _

omit hks hE in
theorem mem_of_mem_idPairs {ids : List Nat} {pair : Nat × Nat} (h : pair ∈ idPairs ids) :
    pair.1 ∈ ids ∧ pair.2 ∈ ids := by
  induction ids with
  | nil => cases h
  | cons a rest ih =>
    rw [idPairs, List.mem_append] at h
    obtain h | h := h
    · obtain ⟨b, hb, rfl⟩ := List.mem_map.mp h
      exact ⟨List.mem_cons_self, List.mem_cons_of_mem a hb⟩
    · exact (ih h).imp (List.mem_cons_of_mem a) (List.mem_cons_of_mem a)

omit hE in
/-- The loops over pairs run over pairs of clients. -/
theorem forPairs_raises {body : Nat × Nat → Server PUnit}
    (hbody : ∀ pair : Nat × Nat, pair.1 ∈ ks → pair.2 ∈ ks →
      Raises (InRound roundId J K) E (body pair)) (g : Unit → Server Unit)
    (hg : Raises (InRound roundId J K) E (g ())) :
    Raises (InRound roundId J K) E (getRound roundId >>= fun round =>
      (idPairs ((round.map fun rs => rs.clients.keys).getD [])).forM body >>= g) := by
  refine getRound_raises fun rs _ hJ => ?_
  have hkeys : rs.clients.keys = ks := by
    rw [← hks rs.progress hJ, RoundState.progress, Dict.keys_map]
  rw [Option.map_some, Option.getD_some, hkeys]
  refine Raises.bind (Raises.forM fun pair hpair => ?_) fun _ => hg
  obtain ⟨h₁, h₂⟩ := mem_of_mem_idPairs hpair
  exact hbody pair h₁ h₂

omit hks in
theorem deriveSeeds_raises {rs : RoundState} (hid : rs.roundId = roundId)
    (hkeys : rs.clients.keys = ks) {client : Nat × ClientState} (hclient : client.1 ∈ ks) :
    Raises (InRound roundId J K) E (deriveSeeds env roundId rs client) := by
  unfold deriveSeeds
  split
  · refine Raises.forM fun peer hpeer => ?_
    have hpeer' : peer.1 ∈ ks := hkeys ▸ List.mem_map_of_mem hpeer
    split
    · rw [hid]
      exact Raises.liftExcept_bind (fun seed _ => setSeed_raises _ _ _)
        fun e he => hE.seed _ hclient _ hpeer' _ e he
    · exact Raises.pure _
  · exact Raises.pure _

/-- The exceptions of key setup, in a round whose clients stay. -/
theorem setupKeysAndMasks_raises :
    Raises (InRound roundId J K) E (setupKeysAndMasks env roundId) := by
  have hkeys : ∀ rs : RoundState, J rs.progress → rs.clients.keys = ks := by
    intro rs hJ
    rw [← hks rs.progress hJ, RoundState.progress, Dict.keys_map]
  unfold setupKeysAndMasks
  -- the first loop finds as many clients at every position as when it began
  refine Raises.bind (Raises.forPositions (n := ks.length) (fun s hs => ?_) fun i => ?_) fun _ => ?_
  · obtain ⟨rs, hrs, -, hJ⟩ := hs.exists_round
    rw [hrs, Option.map_some, Option.getD_some, ← hkeys rs hJ, Dict.keys, List.length_map]
  · refine getRound_raises fun rs _ _ => ?_
    rw [Option.bind_some]
    split
    · split
      · exact encapsulateFor_raises hE _ _
      · exact Raises.pure _
    · exact Raises.pure _
  refine forPairs_raises hks (fun pair => setupPair_raises hks hE) _ ?_
  refine Raises.bind ?_ fun _ => getRound_raises fun rs hid hJ => ?_
  · have hpairs := forPairs_raises hks
      (fun pair => orchestratePair_raises hks hE) pure (Raises.pure ())
    simp only [bind_pure] at hpairs
    exact hpairs
  · refine Raises.bind (Raises.forM fun client hclient => ?_) fun _ => ?_
    · exact deriveSeeds_raises hE hid (hkeys rs hJ) (hkeys rs hJ ▸ List.mem_map_of_mem hclient)
    · exact modifyRound_raises fun rs => .maskSetup rs

/-- The exceptions of key setup and recovery. -/
theorem prepare_raises (hrecovery : ∀ rs : RoundState, J rs.progress →
      ∀ e, (triggerRecovery env.hmac rs).1 = some e → E e) :
    Raises (InRound roundId J K) E (prepare env roundId) := by
  refine (setupKeysAndMasks_raises hks hE).bind fun _ s hs => ?_
  obtain ⟨rs, hrs, -, hJ⟩ := hs.exists_round
  have hwrite : ServerWrite InternalWrite KeyMessage roundId s { s with
      rounds := s.rounds.modify roundId fun _ => (triggerRecovery env.hmac rs).2 } :=
    .round_of_get hrs (triggerRecovery_internal env.hmac rs)
  have hs' := hs.write hwrite
  have herrors := hrecovery rs hJ
  refine safe_getRound_bind ?_
  rw [hrs]
  dsimp only
  -- the exception, if any, comes after the assignment
  generalize triggerRecovery env.hmac rs = result at hs' herrors ⊢
  obtain ⟨raised, rs'⟩ := result
  refine safe_modifyRound_bind (fun _ => hs') ?_
  cases raised with
  | none =>
    refine ⟨hs', fun e' he' => ?_⟩
    cases he'
  | some e =>
    refine ⟨hs', fun e' he' => ?_⟩
    cases he'
    exact herrors e rfl

end

end

end SwiftAgg.Host
