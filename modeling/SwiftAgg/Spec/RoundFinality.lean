import SwiftAgg.Spec.Broadcast
import SwiftAgg.Spec.RoundCompletion

/-!
# Finished rounds

A round in stage ROUND_COMPLETE is final, and broadcast once, as long as no
CLIENT_COMPLETE or DROPOUT_NOTIFY message comes for it any more: these two are
the messages that lead to `_check_round_completion`, which does not look at the
stage.

## Key results

- `checkRoundCompletion_aggregates`: what one check writes of the aggregate
- `complete_rounds_stay_final`: finality over whole runs
-/

namespace SwiftAgg.Host

open Coroutine

/-! ## What a check writes -/

/-- At most one pass over the writers was written of a round, and only after its stage was set. -/
def BroadcastWithin (roundId : Nat) (writers : Dict Nat Nat) (num : Nat) (s : ServerState) : Prop :=
  aggregatesOf roundId s.sent <+: onePass writers num ∧
    (aggregatesOf roundId s.sent ≠ [] →
      ∃ rs, s.rounds.get? roundId = some rs ∧ rs.stage = .roundComplete)

theorem BroadcastWithin.of_nil {roundId : Nat} {s : ServerState}
    (h : aggregatesOf roundId s.sent = []) (writers : Dict Nat Nat) (num : Nat) :
    BroadcastWithin roundId writers num s :=
  ⟨h ▸ List.nil_prefix, fun hne => absurd h hne⟩

section

variable (env : HostEnv) {roundId : Nat} {s : ServerState} {rs : RoundState}

/-- Publishing writes at most one pass over the writers, after it has set the stage. -/
theorem publish_aggregates (hkeyed : s.Keyed) (hround : s.rounds.get? roundId = some rs)
    (hnone : aggregatesOf roundId s.sent = []) :
    BroadcastWithin roundId s.clientWriters (rs.modelSize / rs.chunkSize)
      ((publish env roundId).run s).2 := by
  have hid : rs.roundId = roundId := hkeyed roundId rs hround
  obtain ⟨r, hends⟩ | ⟨fed, -, hpublish⟩ := publish_cases env hround
  · rw [run_of_advance hends]
    exact .of_nil hnone _ _
  · -- the stage is set before the first chunk is written, and the broadcast leaves it
    rw [run_eq_of_advance_eq hpublish]
    have hstored : (s.storeResult roundId fed).rounds.get? roundId =
        some { rs with unmaskedChunks := fed, stage := .roundComplete } := by
      rw [ServerState.storeResult, Dict.get?_modify, if_pos rfl, hround, Option.map_some]
    cases packTelemetry rs.roundId with
    | error e => exact .of_nil (s := s.storeResult roundId fed) hnone _ _
    | ok telemetry =>
      obtain ⟨hrounds, l, hl, hsent⟩ := broadcast_run rs fed telemetry
        (rs.modelSize / rs.chunkSize) (s.storeResult roundId fed)
      rw [hid, show aggregatesOf roundId (s.storeResult roundId fed).sent = [] from hnone] at hsent
      rw [liftExcept_ok_bind]
      refine ⟨?_, fun _ => ⟨_, (congrArg (·.get? roundId) hrounds).trans hstored, rfl⟩⟩
      rw [hsent]
      exact hl

theorem unmaskAndAggregate_aggregates (hkeyed : s.Keyed) (hround : s.rounds.get? roundId = some rs)
    (hnone : aggregatesOf roundId s.sent = []) :
    BroadcastWithin roundId s.clientWriters (rs.modelSize / rs.chunkSize)
      ((unmaskAndAggregate env roundId).run s).2 := by
  have hprepare : WritesOnly CompletionWrite KeyMessage roundId (prepare env roundId) :=
    (prepare_keyOnly env roundId).imp (fun _ _ => CompletionWrite.internal) fun _ h => h
  obtain ⟨hwrites, hkeyed'⟩ := (hprepare s hkeyed).run fun _ h => h
  obtain ⟨hwriters, hprogress, haggregates⟩ := ServerWrite.chain hwrites
  have hnone' := (haggregates roundId fun data h => h roundId).trans hnone
  rw [unmaskAndAggregate_eq, run_bind]
  generalize (prepare env roundId).run s = result at *
  obtain ⟨r, s'⟩ := result
  cases r with
  | error e => exact .of_nil hnone' _ _
  | ok _ =>
    -- key setup and recovery leave the round in place, with its size
    have hpresent := hprogress roundId
    rw [ServerState.progress, ServerState.progress, hround, Option.map_some] at hpresent
    obtain ⟨rs', hround', hrs'⟩ := Option.map_eq_some_iff.mp hpresent
    have hmodel : rs'.modelSize = rs.modelSize := congrArg Progress.modelSize hrs'
    have hchunk : rs'.chunkSize = rs.chunkSize := congrArg Progress.chunkSize hrs'
    rw [← hwriters, ← hmodel, ← hchunk]
    exact publish_aggregates env hkeyed' hround' hnone'

/-- One check of a round of which nothing was broadcast. -/
theorem checkRoundCompletion_aggregates (hkeyed : s.Keyed)
    (hround : s.rounds.get? roundId = some rs) (hnone : aggregatesOf roundId s.sent = []) :
    BroadcastWithin roundId s.clientWriters (rs.modelSize / rs.chunkSize)
      ((checkRoundCompletion env roundId).run s).2 := by
  by_cases hunmasks : rs.Unmasks
  · rw [run_eq_of_advance_eq (checkRoundCompletion_of_unmasks env hround hunmasks)]
    have hbroadcast := unmaskAndAggregate_aggregates env (hkeyed.setStage roundId .unmasking)
      (ServerState.get?_setStage hround .unmasking) hnone
    exact hbroadcast
  · by_cases hhealthy : rs.Healthy
    · rw [run_of_advance (checkRoundCompletion_of_waiting env hround hunmasks hhealthy)]
      exact .of_nil hnone _ _
    · obtain ⟨r, -, hends⟩ := handleRoundFailure_ends (s.setStage roundId .error)
      rw [run_eq_of_advance_eq (checkRoundCompletion_of_unhealthy env hround hhealthy),
        run_of_advance hends]
      exact .of_nil (s := s.setStage roundId .error) hnone _ _

end

/-! ## Finality -/

/-- A message leaves the stage and the result of complete rounds alone. -/
def StaysFinal (env : HostEnv) (s : ServerState) (m : Message) : Prop :=
  ∀ round ∈ s.rounds.entries, round.2.stage = .roundComplete →
    ∃ rs' ∈ (s.handle env m).rounds.get? round.1, rs'.stage = .roundComplete ∧
      rs'.unmaskedChunks = round.2.unmaskedChunks

/-- Handling a message writes nothing of the aggregate of a round; or nothing of it was written
    before, and now every chunk is written at most once for every client, to its writer. -/
def BroadcastsOnce (env : HostEnv) (s : ServerState) (m : Message) : Prop :=
  ∀ id, aggregatesOf id (s.handle env m).sent = aggregatesOf id s.sent ∨
    aggregatesOf id s.sent = [] ∧ ∃ rs, s.rounds.get? id = some rs ∧
      aggregatesOf id (s.handle env m).sent <+:
        onePass s.clientWriters (rs.modelSize / rs.chunkSize)

/-- No CLIENT_COMPLETE of a registered client and no DROPOUT_NOTIFY for a complete round. -/
def LeavesFinal (s : ServerState) (m : Message) : Prop :=
  ∀ rs ∈ s.rounds.get? m.header.roundId, rs.stage = .roundComplete →
    ¬(m.header.messageType = 0x30 ∧ m.header.clientId ∈ rs.clients.keys) ∧
      m.header.messageType ≠ 0x31

instance (s : ServerState) (m : Message) : Decidable (LeavesFinal s m) :=
  inferInstanceAs (Decidable (∀ rs ∈ s.rounds.get? m.header.roundId, rs.stage = .roundComplete →
    ¬(m.header.messageType = 0x30 ∧ m.header.clientId ∈ rs.clients.keys) ∧
      m.header.messageType ≠ 0x31))

/-- Of the rounds that are not complete nothing was broadcast. -/
structure BroadcastComplete (s : ServerState) : Prop where
  keyed : s.Keyed
  stage : ∀ id, aggregatesOf id s.sent ≠ [] →
    ∃ rs, s.rounds.get? id = some rs ∧ rs.stage = .roundComplete

section

variable {env : HostEnv} {s : ServerState} {m : Message}

/-- The rounds that receiving a message leaves as they are keep their stage and result. -/
theorem Arrival.stage {s₁ : ServerState} (h : Arrival m s s₁) {id : Nat} {rs : RoundState}
    (hrs : s.rounds.get? id = some rs) : ∃ rs₁, s₁.rounds.get? id = some rs₁ ∧
      rs₁.stage = rs.stage ∧ rs₁.unmaskedChunks = rs.unmaskedChunks := by
  by_cases hid : id = m.header.roundId
  · subst hid
    obtain ⟨rs₁, hrs₁, hreceives⟩ := h.own rs hrs
    exact ⟨rs₁, hrs₁, hreceives.stage, hreceives.unmaskedChunks⟩
  · exact ⟨rs, (h.other id hid).trans hrs, rfl, rfl⟩

/-- A check is called only for a round that is not complete. -/
theorem LeavesFinal.not_complete (h : LeavesFinal s m) (hchecks : m.Checks s) :
    ∃ rs, s.rounds.get? m.header.roundId = some rs ∧ rs.stage ≠ .roundComplete := by
  obtain ⟨rs, hrs, hcomplete | hdropout⟩ := hchecks
  · exact ⟨rs, hrs, fun hstage => (h rs hrs hstage).1 hcomplete⟩
  · exact ⟨rs, hrs, fun hstage => (h rs hrs hstage).2 hdropout⟩

/-- Where a message comes to the check, nothing of its round was broadcast. -/
theorem BroadcastComplete.aggregatesOf_checks (hs : BroadcastComplete s) (h : LeavesFinal s m)
    (hchecks : m.Checks s) : aggregatesOf m.header.roundId s.sent = [] := by
  obtain ⟨rs, hrs, hstage⟩ := h.not_complete hchecks
  by_contra hne
  obtain ⟨rs', hrs', hstage'⟩ := hs.stage _ hne
  obtain rfl : rs = rs' := Option.some.inj (hrs.symm.trans hrs')
  exact hstage hstage'

theorem handle_staysFinal (env : HostEnv) (hs : BroadcastComplete s) (h : LeavesFinal s m) :
    StaysFinal env s m := by
  rintro ⟨id, rs⟩ hround hstage
  have hrs : s.rounds.get? id = some rs := Dict.get?_eq_some_iff.mpr hround
  obtain ⟨harrival, hchecks⟩ := receive_arrival env s m
  by_cases hcheck : (s.receive env m).1 = .ok true
  · -- the round of the message is not complete, so this is another one
    have hid : id ≠ m.header.roundId := by
      rintro rfl
      obtain ⟨rs', hrs', hstage'⟩ := h.not_complete (hchecks hcheck)
      obtain rfl : rs = rs' := Option.some.inj (hrs.symm.trans hrs')
      exact hstage' hstage
    exact ⟨rs, ((handle_rounds env m hs.keyed).other id hid).trans hrs, hstage, rfl⟩
  · obtain ⟨rs₁, hrs₁, hstage₁, hresult₁⟩ := harrival.stage hrs
    rw [handle_eq, if_neg hcheck]
    exact ⟨rs₁, hrs₁, hstage₁.trans hstage, hresult₁⟩

theorem handle_broadcastsOnce (env : HostEnv) (hs : BroadcastComplete s) (h : LeavesFinal s m) :
    BroadcastsOnce env s m ∧ BroadcastComplete (s.handle env m) := by
  have hfinal := handle_staysFinal env hs h
  have hkeyed' := (handle_writes env m hs.keyed).2
  obtain ⟨harrival, hchecks⟩ := receive_arrival env s m
  -- a round of which nothing new was written is complete if something was written before
  have hkept : ∀ id, aggregatesOf id (s.handle env m).sent = aggregatesOf id s.sent →
      aggregatesOf id (s.handle env m).sent ≠ [] →
        ∃ rs, (s.handle env m).rounds.get? id = some rs ∧ rs.stage = .roundComplete := by
    intro id hsame hne
    obtain ⟨rs, hrs, hstage⟩ := hs.stage id (hsame ▸ hne)
    obtain ⟨rs', hrs', hstage', -⟩ := hfinal (id, rs) (Dict.get?_eq_some_iff.mp hrs) hstage
    exact ⟨rs', hrs', hstage'⟩
  by_cases hcheck : (s.receive env m).1 = .ok true
  · have hnone := hs.aggregatesOf_checks h (hchecks hcheck)
    obtain ⟨rs, hrs, -⟩ := hchecks hcheck
    obtain ⟨rs₁, hrs₁, hreceives⟩ := harrival.own rs hrs
    have hkeyed₁ := harrival.keyed hs.keyed
    have hwriters : (s.receive env m).2.clientWriters = s.clientWriters :=
      harrival.clientWriters.resolve_right fun hconnects =>
        (hchecks hcheck).not_connects hconnects.1
    have hother : ∀ id, id ≠ m.header.roundId →
        aggregatesOf id (s.handle env m).sent = aggregatesOf id s.sent := by
      intro id hid
      rw [handle_eq, if_pos hcheck, ← harrival.sent]
      exact (ServerWrite.chain (checkRoundCompletion_writes env _ hkeyed₁)).2.2 id
        fun data hdata => hdata id hid
    have hown : BroadcastWithin m.header.roundId s.clientWriters (rs.modelSize / rs.chunkSize)
        (s.handle env m) := by
      rw [handle_eq, if_pos hcheck, ← hreceives.numChunks, ← hwriters]
      exact checkRoundCompletion_aggregates env hkeyed₁ hrs₁ (by rw [harrival.sent, hnone])
    refine ⟨fun id => ?_, hkeyed', fun id hne => ?_⟩
    · by_cases hid : id = m.header.roundId
      · subst hid
        exact .inr ⟨hnone, rs, hrs, hown.1⟩
      · exact .inl (hother id hid)
    · by_cases hid : id = m.header.roundId
      · subst hid
        exact hown.2 hne
      · exact hkept id (hother id hid) hne
  · have hsent : (s.handle env m).sent = s.sent := by
      rw [handle_eq, if_neg hcheck, harrival.sent]
    exact ⟨fun id => .inl (by rw [hsent]), hkeyed', fun id hne => hkept id (by rw [hsent]) hne⟩

end

/-- In every run in which complete rounds get no CLIENT_COMPLETE of a registered client and no
    DROPOUT_NOTIFY, they are final and are broadcast at most once. -/
theorem complete_rounds_stay_final (env : HostEnv) (ms : List Message)
    (h : EveryStep env LeavesFinal .new ms) :
    EveryStep env (fun s m => StaysFinal env s m ∧ BroadcastsOnce env s m) .new ms := by
  refine h.of_invariant (I := BroadcastComplete) ?_ ?_ ⟨ServerState.keyed_new, ?_⟩
  · exact fun s m hs hleaves => (handle_broadcastsOnce env hs hleaves).2
  · exact fun s m hs hleaves =>
      ⟨handle_staysFinal env hs hleaves, (handle_broadcastsOnce env hs hleaves).1⟩
  · exact fun id hne => absurd rfl hne

/-- A round with one client, which sends its chunk and completes. -/
def finishedRound : List Message :=
  oneClient ++ [.of 1 1 0x21 0 [0, 5], .of 1 1 0x30 0 []]

/-- A chunk that comes late, and a new key, do no harm. -/
theorem finishedRound_stays_final :
    EveryStep zeroEnv (fun s m => StaysFinal zeroEnv s m ∧ BroadcastsOnce zeroEnv s m) .new
      (finishedRound ++ [.of 1 1 0x21 0 [0, 6], .of 1 1 0x01 0 someKey]) :=
  complete_rounds_stay_final zeroEnv _ (by decide +kernel)

/-- A repeated CLIENT_COMPLETE is answered with a second broadcast, and a late DROPOUT_NOTIFY turns
    the complete round into a failed one. -/
theorem finishedRound_not_final :
    ¬EveryStep zeroEnv (fun s m => StaysFinal zeroEnv s m ∧ BroadcastsOnce zeroEnv s m) .new
        (finishedRound ++ [.of 1 1 0x30 0 []]) ∧
      ¬EveryStep zeroEnv (fun s m => StaysFinal zeroEnv s m ∧ BroadcastsOnce zeroEnv s m) .new
        (finishedRound ++ [.of 1 1 0x31 0 []]) := by
  constructor
  -- one aggregate was written before, two after
  · intro h
    have honce := h.last.2 1
    have hbefore : aggregatesOf 1 (ServerState.new.handleAll zeroEnv finishedRound).sent =
        [(1, 0)] := by
      decide +kernel
    have hafter : aggregatesOf 1 ((ServerState.new.handleAll zeroEnv finishedRound).handle zeroEnv
        (.of 1 1 0x30 0 [])).sent = [(1, 0), (1, 0)] := by
      decide +kernel
    rw [hbefore, hafter] at honce
    obtain hsame | ⟨hnone, -⟩ := honce
    · cases hsame
    · cases hnone
  · intro h
    -- the round is complete before the notification and failed after it
    obtain ⟨round, hround, hid, hstage⟩ : ∃ round ∈
        (ServerState.new.handleAll zeroEnv finishedRound).rounds.entries,
          round.1 = 1 ∧ round.2.stage = .roundComplete := by
      decide +kernel
    have hfailed : ∀ rs' ∈ ((ServerState.new.handleAll zeroEnv finishedRound).handle zeroEnv
        (.of 1 1 0x31 0 [])).rounds.get? 1, rs'.stage = .error := by
      decide +kernel
    obtain ⟨rs', hrs', hstage', -⟩ := h.last.1 round hround hstage
    rw [hid] at hrs'
    rw [hfailed rs' hrs'] at hstage'
    cases hstage'

end SwiftAgg.Host
