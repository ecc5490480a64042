import Mathlib.Data.Finset.Card
import SwiftAgg.Spec.DropoutRecovery
import SwiftAgg.Spec.RoundProgress
import SwiftAgg.Spec.StoredChunks

/-!
# Completion of a round, with atomic handlers

When `_check_round_completion` starts to unmask, what is then complete, and what
later messages do to a finished round.

## Key results

- `Progress.Counted.survivors_completed`: where the counts stand for the sets, unmasking waits
-/

namespace SwiftAgg.Host

/-! ## Runs -/

/-- An invariant that the admitted steps keep carries a property of steps over a run. -/
theorem EveryStep.of_invariant {env : HostEnv} {C P : ServerState → Message → Prop}
    {I : ServerState → Prop} (hkeep : ∀ s m, I s → C s m → I (s.handle env m))
    (hprop : ∀ s m, I s → C s m → P s m) {s : ServerState} (hs : I s) {ms : List Message}
    (h : EveryStep env C s ms) : EveryStep env P s ms := by
  induction ms generalizing s with
  | nil => trivial
  | cons m ms ih => exact ⟨hprop s m hs h.1, ih (hkeep s m hs h.1) h.2⟩

/-- The last step of a run. -/
theorem EveryStep.last {env : HostEnv} {P : ServerState → Message → Prop} {s : ServerState}
    {ms : List Message} {m : Message} (h : EveryStep env P s (ms ++ [m])) :
    P (s.handleAll env ms) m := by
  induction ms generalizing s with
  | nil => exact h.1
  | cons m' ms ih => exact ih h.2

/-- A condition on a message and the progress of its round. -/
def OnProgress (A : Progress → Message → Prop) (s : ServerState) (m : Message) : Prop :=
  ∀ p ∈ s.progress m.header.roundId, A p m

instance (A : Progress → Message → Prop) [∀ p m, Decidable (A p m)] (s : ServerState)
    (m : Message) : Decidable (OnProgress A s m) :=
  inferInstanceAs (Decidable (∀ p ∈ s.progress m.header.roundId, A p m))

/-- What holds of the progress of every round, and that rounds are stored under their numbers. -/
structure ProgressInvariant (J : Progress → Prop) (s : ServerState) : Prop where
  keyed : s.Keyed
  progress : ∀ id p, s.progress id = some p → J p

theorem ProgressInvariant.new (J : Progress → Prop) : ProgressInvariant J ServerState.new :=
  ⟨ServerState.keyed_new, nofun⟩

section

variable {A : Progress → Message → Prop} {J : Progress → Prop} {s s₁ : ServerState} {m : Message}

/-- What new rounds have and admitted messages keep, a message keeps. -/
theorem ProgressInvariant.arrival (hnew : ∀ m rs, Message.createdRound m = some rs → J rs.progress)
    (hreceive : ∀ p m, J p → A p m → J (p.receive m)) (h : ProgressInvariant J s)
    (hA : OnProgress A s m) (harrival : Arrival m s s₁) : ProgressInvariant J s₁ where
  keyed := harrival.keyed h.keyed
  progress id p hp := by
    rw [harrival.progress] at hp
    unfold Message.advance at hp
    split at hp
    · rename_i hid
      subst hid
      -- the message creates its round or is received by it
      cases hbefore : s.progress m.header.roundId with
      | none =>
        rw [hbefore] at hp
        obtain ⟨rs, hrs, rfl⟩ := Option.map_eq_some_iff.mp hp
        exact hnew m rs hrs
      | some p₀ =>
        rw [hbefore] at hp
        cases hp
        exact hreceive p₀ m (h.progress _ p₀ hbefore) (hA p₀ hbefore)
    · exact h.progress id p hp

theorem ProgressInvariant.handle (env : HostEnv)
    (hnew : ∀ m rs, Message.createdRound m = some rs → J rs.progress)
    (hreceive : ∀ p m, J p → A p m → J (p.receive m)) (h : ProgressInvariant J s)
    (hA : OnProgress A s m) : ProgressInvariant J (s.handle env m) where
  keyed := (handle_writes env m h.keyed).2
  progress id p hp := by
    have harrival := (receive_arrival env s m).1
    rw [handle_progress env m h.keyed, ← harrival.progress] at hp
    exact (h.arrival hnew hreceive hA harrival).progress id p hp

end

/-! ## Waiting for the survivors -/

/-- Every registered client that is not reported dropped has completed. -/
def RoundState.SurvivorsCompleted (rs : RoundState) : Prop :=
  ∀ client ∈ rs.clients.entries, client.1 ∉ rs.dropoutClients → client.2.completed = true

/-- Where the handling of a message comes to `_check_round_completion`, and this finds a round that
    it sets to UNMASKING, all survivors of the round have completed. -/
def WaitsForSurvivors (env : HostEnv) (s : ServerState) (m : Message) : Prop :=
  (s.receive env m).1 = .ok true →
    ∀ rs ∈ (s.receive env m).2.rounds.get? m.header.roundId, rs.Unmasks → rs.SurvivorsCompleted

instance (rs : RoundState) : Decidable rs.SurvivorsCompleted :=
  inferInstanceAs (Decidable (∀ client ∈ rs.clients.entries,
    client.1 ∉ rs.dropoutClients → client.2.completed = true))

instance (env : HostEnv) (s : ServerState) (m : Message) : Decidable (WaitsForSurvivors env s m) :=
  inferInstanceAs (Decidable ((s.receive env m).1 = .ok true →
    ∀ rs ∈ (s.receive env m).2.rounds.get? m.header.roundId, rs.Unmasks → rs.SurvivorsCompleted))

/-- The number of clients that have completed. -/
def Progress.completed (p : Progress) : Nat := p.deliveries.values.countP Delivery.completed

/-- The counts that `_check_round_completion` compares start the unmasking. -/
def Progress.Unmasks (p : Progress) : Prop :=
  (p.expectedClients : Int) - p.dropouts.length ≤ p.completed ∧
    (p.threshold : Int) ≤ p.expectedClients - p.dropouts.length

theorem RoundState.unmasks_iff (rs : RoundState) : rs.Unmasks ↔ rs.progress.Unmasks := by
  have hcompleted : rs.progress.completed = rs.clients.values.countP ClientState.completed := by
    simp only [Progress.completed, RoundState.progress, Dict.values, Dict.map, List.map_map,
      List.countP_map]
    rfl
  rw [Progress.Unmasks, hcompleted]
  rfl

/-- The messages under which the counts stand for the sets: a dropped client does not complete, a
    completed one is not reported dropped, and at most the expected clients show up. -/
def Progress.Admits (p : Progress) (m : Message) : Prop :=
  (m.header.messageType = 0x30 → m.header.clientId ∈ p.deliveries.keys →
    m.header.clientId ∉ p.dropouts) ∧
  (m.header.messageType = 0x31 → ∀ d ∈ p.deliveries.get? m.header.clientId, d.completed = false) ∧
  (m.header.messageType = 0x01 ∨ m.header.messageType = 0x31 →
    (insert m.header.clientId (p.deliveries.keys.toFinset ∪ p.dropouts.toFinset)).card ≤
      p.expectedClients)

instance (p : Progress) (m : Message) : Decidable (p.Admits m) :=
  inferInstanceAs (Decidable (_ ∧ _ ∧ _))

/-- No client has completed and is reported dropped, and at most the expected clients showed up. -/
structure Progress.Counted (p : Progress) : Prop where
  nodup : p.dropouts.Nodup
  disjoint : ∀ id d, p.deliveries.get? id = some d → d.completed = true → id ∉ p.dropouts
  bounded : (p.deliveries.keys.toFinset ∪ p.dropouts.toFinset).card ≤ p.expectedClients

/-- The clients that have completed. -/
def Progress.completedClients (p : Progress) : Finset Nat :=
  ((p.deliveries.entries.filter fun e => e.2.completed).map Prod.fst).toFinset

theorem Progress.mem_completedClients {p : Progress} {id : Nat} :
    id ∈ p.completedClients ↔ ∃ d, p.deliveries.get? id = some d ∧ d.completed = true := by
  simp [Progress.completedClients, Dict.get?_eq_some_iff]

theorem Progress.card_completedClients (p : Progress) :
    p.completedClients.card = p.completed := by
  have hnodup : ((p.deliveries.entries.filter fun e => e.2.completed).map Prod.fst).Nodup :=
    p.deliveries.nodup.sublist (List.filter_sublist.map _)
  rw [Progress.completedClients, List.toFinset_card_of_nodup hnodup, List.length_map,
    Progress.completed, Dict.values, List.countP_map, List.countP_eq_length_filter]
  rfl

/-- Where the counts stand for the sets, the unmasking waits for every survivor. -/
theorem Progress.Counted.survivors_completed {p : Progress} (h : p.Counted) (hunmasks : p.Unmasks)
    {id : Nat} {d : Delivery} (hd : p.deliveries.get? id = some d) (hid : id ∉ p.dropouts) :
    d.completed = true := by
  -- the completed clients are survivors, and there are no fewer of them
  let survivors := p.deliveries.keys.toFinset \ p.dropouts.toFinset
  have hsubset : p.completedClients ⊆ survivors := by
    intro id' hid'
    obtain ⟨d', hd', hdone⟩ := Progress.mem_completedClients.mp hid'
    rw [Finset.mem_sdiff, List.mem_toFinset, List.mem_toFinset]
    exact ⟨Dict.mem_keys_of_get? hd', h.disjoint id' d' hd' hdone⟩
  have hcard : survivors.card ≤ p.completedClients.card := by
    have hunion : survivors.card + p.dropouts.toFinset.card = _ := Finset.card_sdiff_add_card _ _
    have hbounded := h.bounded
    have hcount := hunmasks.1
    rw [List.toFinset_card_of_nodup h.nodup] at hunion
    rw [p.card_completedClients]
    omega
  have hmem : id ∈ survivors := by
    rw [Finset.mem_sdiff, List.mem_toFinset, List.mem_toFinset]
    exact ⟨Dict.mem_keys_of_get? hd, hid⟩
  rw [← Finset.eq_of_subset_of_card_le hsubset hcard] at hmem
  obtain ⟨d', hd', hdone⟩ := Progress.mem_completedClients.mp hmem
  obtain rfl : d = d' := Option.some.inj (hd.symm.trans hd')
  exact hdone

theorem Progress.Counted.receive {p : Progress} {m : Message} (h : p.Counted)
    (hadmits : p.Admits m) : (p.receive m).Counted := by
  obtain ⟨hcomplete, hdropout, hbounded⟩ := hadmits
  generalize hp' : p.receive m = p'
  cases hp' ▸ p.receipt m with
  | ignored => exact h
  | registered htype hnew =>
    -- a new client has not completed
    refine ⟨h.nodup, Dict.forall_insert h.disjoint nofun, ?_⟩
    · refine (Finset.card_le_card ?_).trans (hbounded (.inl htype))
      intro id hid
      simp only [Finset.mem_union, List.mem_toFinset, Dict.mem_keys_insert, Finset.mem_insert] at *
      tauto
  | chunk htype hlen =>
    exact ⟨h.nodup, Dict.forall_modify h.disjoint (h.disjoint _),
      by rw [Dict.keys_modify]; exact h.bounded⟩
  | completed htype =>
    exact ⟨h.nodup, Dict.forall_modify h.disjoint fun d hd _ =>
      hcomplete htype (Dict.mem_keys_of_get? hd), by rw [Dict.keys_modify]; exact h.bounded⟩
  | dropped htype hnew =>
    refine ⟨?_, fun id d hd hdone => ?_, ?_⟩
    · have happend := h.nodup.concat hnew
      rwa [List.concat_eq_append] at happend
    · rw [List.mem_append, List.mem_singleton, not_or]
      refine ⟨h.disjoint id d hd hdone, ?_⟩
      rintro rfl
      rw [hdropout htype d hd] at hdone
      cases hdone
    · refine (Finset.card_le_card ?_).trans (hbounded (.inr htype))
      intro id hid
      simp only [Finset.mem_union, List.mem_toFinset, List.mem_append, List.mem_singleton,
        Finset.mem_insert] at *
      tauto

theorem Progress.counted_new {m : Message} {rs : RoundState} (h : m.createdRound = some rs) :
    rs.progress.Counted := by
  obtain ⟨_, _, _, _, rfl⟩ := Message.createdRound_eq_some h
  exact ⟨List.nodup_nil, nofun, Nat.zero_le _⟩

/-- In every run in which no completed client is reported dropped, no dropped client completes and
    at most the expected clients show up, unmasking waits for every survivor. -/
theorem unmasking_waits_for_survivors (env : HostEnv) (ms : List Message)
    (h : EveryStep env (OnProgress Progress.Admits) .new ms) :
    EveryStep env (WaitsForSurvivors env) .new ms := by
  have hreceive : ∀ p m, Progress.Counted p → p.Admits m → (p.receive m).Counted :=
    fun p m => Progress.Counted.receive
  refine h.of_invariant (I := ProgressInvariant Progress.Counted) ?_ ?_ (.new _)
  · exact fun s m hs hadmits => hs.handle env (fun _ _ => Progress.counted_new) hreceive hadmits
  · intro s m hs hadmits _ rs hrs hunmasks client hclient hid
    -- the state in which the check is made
    have hs₁ := hs.arrival (fun _ _ => Progress.counted_new) hreceive hadmits
      (receive_arrival env s m).1
    have hcounted : rs.progress.Counted := by
      refine hs₁.progress m.header.roundId rs.progress ?_
      rw [ServerState.progress, hrs, Option.map_some]
    have hdelivery : rs.progress.deliveries.get? client.1 = some client.2.delivery := by
      rw [RoundState.progress, Dict.get?_map, Dict.get?_eq_some_iff.mpr hclient, Option.map_some]
    exact hcounted.survivors_completed (rs.unmasks_iff.mp hunmasks) hdelivery hid

/-- A message on the connection of its client, which has the client's number. -/
def Message.of (roundId clientId messageType seq : Nat) (payload : Bytes) : Message where
  header := ⟨roundId, clientId, messageType, seq, payload.length⟩
  payload := payload
  writer := clientId
  closing := []

/-- A public key of 32 bytes. -/
def someKey : Bytes := List.replicate 32 7

/-- Two clients are expected and one is enough; both register and one completes. -/
def twoClients : List Message :=
  [.of 1 0 0x40 0 [2, 1, 1, 0, 1, 0, 0, 0], .of 1 1 0x01 0 someKey, .of 1 2 0x01 0 someKey,
    .of 1 1 0x21 0 [0, 5], .of 1 1 0x30 0 []]

/-- The second client drops out. -/
theorem twoClients_waits_for_survivors :
    EveryStep zeroEnv (WaitsForSurvivors zeroEnv) .new (twoClients ++ [.of 1 2 0x31 0 []]) :=
  unmasking_waits_for_survivors zeroEnv _ (by decide +kernel)

/-- The completed client is reported dropped, and unmasking does not wait for the other one. -/
theorem twoClients_unmasks_early :
    ¬EveryStep zeroEnv (WaitsForSurvivors zeroEnv) .new (twoClients ++ [.of 1 1 0x31 0 []]) := by
  decide +kernel

/-! ## Missing chunks -/

/-- Every completed client that is not reported dropped has delivered every chunk of the round. -/
def RoundState.ChunksDelivered (rs : RoundState) : Prop :=
  ∀ client ∈ rs.clients.entries, client.2.completed = true → client.1 ∉ rs.dropoutClients →
    ∀ i < rs.modelSize / rs.chunkSize, i ∈ client.2.receivedChunks.keys

/-- Every element is an average over all these clients: in what `_unmask_client_chunks` returns,
    `_compute_fedavg` finds every chunk of each of them. -/
def RoundState.AveragesAll (env : HostEnv) (rs : RoundState) : Prop :=
  ∀ unmasked ∈ (unmaskClientChunks env.hmac env.aes rs).toOption,
    ∀ client ∈ rs.clients.entries, client.2.completed = true → client.1 ∉ rs.dropoutClients →
      ∀ i < rs.modelSize / rs.chunkSize, ∃ chunks ∈ unmasked.get? client.1, i ∈ chunks.keys

/-- After a message, no chunk is missing in any round that is then in stage ROUND_COMPLETE. -/
def NoChunkMissing (env : HostEnv) (s : ServerState) (m : Message) : Prop :=
  ∀ round ∈ (s.handle env m).rounds.entries, round.2.stage = .roundComplete →
    round.2.ChunksDelivered ∧ round.2.AveragesAll env

instance (rs : RoundState) : Decidable rs.ChunksDelivered :=
  inferInstanceAs (Decidable (∀ client ∈ rs.clients.entries, client.2.completed = true →
    client.1 ∉ rs.dropoutClients →
      ∀ i < rs.modelSize / rs.chunkSize, i ∈ client.2.receivedChunks.keys))

instance (env : HostEnv) (rs : RoundState) : Decidable (rs.AveragesAll env) :=
  inferInstanceAs (Decidable (∀ unmasked ∈ (unmaskClientChunks env.hmac env.aes rs).toOption,
    ∀ client ∈ rs.clients.entries, client.2.completed = true → client.1 ∉ rs.dropoutClients →
      ∀ i < rs.modelSize / rs.chunkSize, ∃ chunks ∈ unmasked.get? client.1, i ∈ chunks.keys))

instance (env : HostEnv) (s : ServerState) (m : Message) : Decidable (NoChunkMissing env s m) :=
  inferInstanceAs (Decidable (∀ round ∈ (s.handle env m).rounds.entries,
    round.2.stage = .roundComplete → round.2.ChunksDelivered ∧ round.2.AveragesAll env))

/-- A client completes only when all its chunks have arrived. -/
def Progress.CompletesFull (p : Progress) (m : Message) : Prop :=
  m.header.messageType = 0x30 → ∀ d ∈ p.deliveries.get? m.header.clientId,
    ∀ i < p.modelSize / p.chunkSize, i ∈ d.chunks.keys

instance (p : Progress) (m : Message) : Decidable (p.CompletesFull m) :=
  inferInstanceAs (Decidable (m.header.messageType = 0x30 →
    ∀ d ∈ p.deliveries.get? m.header.clientId, ∀ i < p.modelSize / p.chunkSize, i ∈ d.chunks.keys))

/-- Every client that has completed has delivered all chunks. -/
def Progress.Full (p : Progress) : Prop :=
  ∀ id d, p.deliveries.get? id = some d → d.completed = true →
    ∀ i < p.modelSize / p.chunkSize, i ∈ d.chunks.keys

theorem Progress.full_new {m : Message} {rs : RoundState} (h : m.createdRound = some rs) :
    rs.progress.Full := by
  obtain ⟨_, _, _, _, rfl⟩ := Message.createdRound_eq_some h
  exact nofun

theorem Progress.Full.receive {p : Progress} {m : Message} (h : p.Full)
    (hfull : p.CompletesFull m) : (p.receive m).Full := by
  generalize hp' : p.receive m = p'
  cases hp' ▸ p.receipt m with
  | ignored => exact h
  | dropped htype hnew => exact h
  | registered htype hnew => exact Dict.forall_insert h nofun
  | chunk htype hlen =>
    -- a client may deliver after it has completed: the chunks only grow
    refine Dict.forall_modify h fun d hd hdone i hi => ?_
    exact Dict.mem_keys_insert.mpr (.inr (h _ d hd hdone i hi))
  | completed htype => exact Dict.forall_modify h fun d hd _ => hfull htype d hd

theorem RoundState.chunksDelivered_of_full {rs : RoundState} (h : rs.progress.Full) :
    rs.ChunksDelivered := by
  intro client hclient hdone _
  refine h client.1 client.2.delivery ?_ hdone
  rw [RoundState.progress, Dict.get?_map, Dict.get?_eq_some_iff.mpr hclient, Option.map_some]

/-- Delivered chunks are averaged. -/
theorem RoundState.ChunksDelivered.averagesAll {rs : RoundState} (h : rs.ChunksDelivered)
    (hwf : rs.WellFormed) (env : HostEnv) : rs.AveragesAll env := by
  intro unmasked hunmasked client hclient hdone hid i hi
  have hok : unmaskClientChunks env.hmac env.aes rs = .ok unmasked :=
    Except.toOption_eq_some hunmasked
  have hc := Dict.get?_eq_some_iff.mpr hclient
  refine ⟨_, (unmaskClientChunks_survivor hwf hok hid).trans (congrArg _ hc), ?_⟩
  obtain ⟨data, hdata⟩ := Dict.mem_keys_iff.mp (h client hclient hdone hid i hi)
  have hget := (ClientState.unmaskChunks_eq (rs.modelSize / rs.chunkSize)
    (hwf.chunks client.1 client.2 hc)).2 i
  rw [if_pos hi, Dict.get?_eq_some_iff.mpr hdata] at hget
  exact Dict.mem_keys_of_get? hget

/-- In every run in which clients complete only when all their chunks have arrived, no chunk is
    missing in a complete round. -/
theorem complete_rounds_miss_no_chunk (env : HostEnv) (ms : List Message)
    (h : EveryStep env (OnProgress Progress.CompletesFull) .new ms) :
    EveryStep env (NoChunkMissing env) .new ms := by
  have hkeep : ∀ s m, ProgressInvariant Progress.Full s ∧ s.WellFormed →
      OnProgress Progress.CompletesFull s m →
        ProgressInvariant Progress.Full (s.handle env m) ∧ (s.handle env m).WellFormed :=
    fun s m hs hfull =>
      ⟨hs.1.handle env (fun _ _ => Progress.full_new) (fun _ _ => Progress.Full.receive) hfull,
        handle_wellFormed env m hs.1.keyed hs.2⟩
  refine h.of_invariant hkeep ?_ ⟨.new _, ServerState.wellFormed_new⟩
  intro s m hs hfull round hround _
  obtain ⟨hinv, hwf⟩ := hkeep s m hs hfull
  have hrs := Dict.get?_eq_some_iff.mpr hround
  have hdelivered : round.2.ChunksDelivered := by
    refine RoundState.chunksDelivered_of_full (hinv.progress round.1 round.2.progress ?_)
    rw [ServerState.progress, hrs, Option.map_some]
  exact ⟨hdelivered, hdelivered.averagesAll (hwf round.1 round.2 hrs) env⟩

/-- A round with one client and one chunk, which the client has not sent. -/
def oneClient : List Message := [.of 1 0 0x40 0 [1, 1, 1, 0, 1, 0, 0, 0], .of 1 1 0x01 0 someKey]

/-- The client sends its chunk and completes. -/
theorem oneClient_misses_no_chunk : EveryStep zeroEnv (NoChunkMissing zeroEnv) .new
    (oneClient ++ [.of 1 1 0x21 0 [0, 5], .of 1 1 0x30 0 []]) :=
  complete_rounds_miss_no_chunk zeroEnv _ (by decide +kernel)

/-- The client completes without its chunk, and with that the round becomes complete. -/
theorem oneClient_completes_without_chunk :
    (∀ rs ∈ (ServerState.new.handleAll zeroEnv oneClient).rounds.get? 1, rs.stage = .init) ∧
      ¬EveryStep zeroEnv (NoChunkMissing zeroEnv) .new (oneClient ++ [.of 1 1 0x30 0 []]) := by
  decide +kernel

end SwiftAgg.Host
