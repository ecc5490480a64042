import SwiftAgg.Spec.DropoutRecovery
import SwiftAgg.Spec.Interleaving
import SwiftAgg.Spec.RoundCompletion

/-!
# Failed rounds, with interleaved handlers

A round fails when too few clients survive. Aggregation does not look at the
stage or the dropouts again after a suspension, so a round can fail while a
handler of it is suspended, and be published when that handler goes on. This is
the only way: as long as no DROPOUT_NOTIFY brings the survivors of a round
below its threshold while a handler of the round is suspended, a failed round
stays failed and nothing of it is broadcast.

## Key results

- `System.Guarded.turn`: the invariant, over one turn
- `failed_rounds_stay_unpublished`: over all interleavings
-/

namespace SwiftAgg.Host

open Coroutine

/-! ## Enough survivors -/

/-- Enough clients survive. -/
def Progress.Healthy (p : Progress) : Prop :=
  (p.threshold : Int) ≤ p.expectedClients - p.dropouts.length

instance (p : Progress) : Decidable p.Healthy :=
  inferInstanceAs (Decidable ((p.threshold : Int) ≤ p.expectedClients - p.dropouts.length))

theorem RoundState.healthy_iff (rs : RoundState) : rs.Healthy ↔ rs.progress.Healthy := Iff.rfl

/-- Dropouts are never taken back. -/
theorem Progress.not_healthy_receive {p : Progress} (m : Message) (h : ¬p.Healthy) :
    ¬(p.receive m).Healthy := by
  generalize hp' : p.receive m = p'
  cases hp' ▸ p.receipt m with
  | ignored => exact h
  | registered htype hnew => exact h
  | chunk htype hlen => exact h
  | completed htype => exact h
  | dropped htype hnew =>
    unfold Progress.Healthy at h
    show ¬(p.threshold : Int) ≤ p.expectedClients - (p.dropouts ++ [m.header.clientId]).length
    rw [List.length_append, List.length_singleton]
    omega

/-- A failed round has too few survivors. -/
def RoundState.FailedRightly (rs : RoundState) : Prop := rs.stage = .error → ¬rs.progress.Healthy

theorem InternalWrite.stage {rs rs' : RoundState} (h : InternalWrite rs rs') :
    rs'.stage = rs.stage ∨ rs'.stage = .maskSetup ∨ rs'.stage = .roundComplete := by
  cases h with
  | secret id secret => exact .inl rfl
  | seed id peerId seed => exact .inl rfl
  | recovered secrets =>
    induction secrets generalizing rs with
    | nil => exact .inl rfl
    | cons p secrets ih => exact ih
  | maskSetup => exact .inr (.inl rfl)
  | complete chunks => exact .inr (.inr rfl)

theorem CompletionWrite.failedRightly {rs rs' : RoundState} (h : CompletionWrite rs rs')
    (hfailed : rs.FailedRightly) : rs'.FailedRightly := by
  intro hstage
  rw [h.progress]
  cases h with
  | unmasking h => cases hstage
  | failed h => exact h
  | internal h =>
    obtain hsame | hother | hother := h.stage
    · exact hfailed (hsame.symm.trans hstage)
    · rw [hother] at hstage
      cases hstage
    · rw [hother] at hstage
      cases hstage

/-- Every failed round of the server has too few survivors. -/
def ServerState.FailedRightly (s : ServerState) : Prop :=
  ∀ id rs, s.rounds.get? id = some rs → rs.FailedRightly

theorem ServerWrite.failedRightly {S : Bytes → Prop} {roundId : Nat} (s s' : ServerState)
    (h : ServerWrite CompletionWrite S roundId s s') (hfailed : s.FailedRightly) :
    s'.FailedRightly := by
  cases h with
  | round f h =>
    exact Dict.forall_modify hfailed fun rs hrs => (h rs hrs).failedRightly (hfailed _ rs hrs)
  | encapsulated n => exact hfailed
  | sent writer data h => exact hfailed

theorem Arrival.failedRightly {m : Message} {s s₁ : ServerState} (h : Arrival m s s₁)
    (hfailed : s.FailedRightly) : s₁.FailedRightly := by
  intro id rs₁ hrs₁ hstage
  obtain hbefore | ⟨rs, hrs, hreceives⟩ | ⟨-, hcreated⟩ := h.origin hrs₁
  · exact hfailed id rs₁ hbefore hstage
  · rw [hreceives.progress]
    exact Progress.not_healthy_receive m (hfailed id rs hrs (hreceives.stage.symm.trans hstage))
  · -- a new round is in INIT
    obtain ⟨_, _, _, _, rfl⟩ := Message.createdRound_eq_some hcreated
    cases hstage

/-! ## The invariant -/

/-- While a handler of a round is suspended, no message brings the survivors of the round below the
    threshold. -/
def KeepsThreshold (sys : System) : Event → Prop
  | .dispatch m => (∃ t ∈ sys.tasks, t.roundId = m.header.roundId) →
      ∀ p ∈ sys.state.progress m.header.roundId, p.Healthy → (p.receive m).Healthy
  | _ => True

instance (sys : System) (e : Event) : Decidable (KeepsThreshold sys e) :=
  match e with
  | .dispatch m => inferInstanceAs (Decidable ((∃ t ∈ sys.tasks, t.roundId = m.header.roundId) →
      ∀ p ∈ sys.state.progress m.header.roundId, p.Healthy → (p.receive m).Healthy))
  | .resume _ | .close _ => isTrue trivial

/-- Handlers are suspended only in rounds with enough survivors, and only rounds without have
    failed. -/
structure System.Guarded (sys : System) : Prop where
  sound : sys.Sound
  healthy : ∀ t ∈ sys.tasks, ∃ p, sys.state.progress t.roundId = some p ∧ p.Healthy
  failed : sys.state.FailedRightly

theorem System.guarded_new : System.new.Guarded := ⟨System.sound_new, nofun, nofun⟩

/-- A check of a round with too few survivors does not suspend. -/
theorem checkRoundCompletion_suspends {env : HostEnv} {roundId : Nat} {s : ServerState}
    {k : Server Unit} (h : ((checkRoundCompletion env roundId).advance s).1 = .suspended k) :
    ∃ p, s.progress roundId = some p ∧ p.Healthy := by
  cases hround : s.rounds.get? roundId with
  | none =>
    rw [checkRoundCompletion, advance_getRound_bind, hround] at h
    cases h
  | some rs =>
    by_cases hhealthy : rs.Healthy
    · exact ⟨rs.progress, by rw [ServerState.progress, hround, Option.map_some], hhealthy⟩
    · obtain ⟨r, -, hends⟩ := handleRoundFailure_ends (s.setStage roundId .error)
      rw [checkRoundCompletion_of_unhealthy env hround hhealthy, hends] at h
      cases h

theorem System.Guarded.turn {env : HostEnv} {sys sys' : System} {e : Event} (h : sys.Guarded)
    (hkeeps : KeepsThreshold sys e) (hturn : sys.Turn env e sys') : sys'.Guarded := by
  have hsound := h.sound.turn hturn
  cases hturn with
  | idle => exact h
  | closed writers => exact ⟨hsound, h.healthy, h.failed⟩
  | @first m s₁ c _ _ harrival hc hstate htasks hended =>
    obtain ⟨hwrites, -⟩ := (completes_of_first hc).advance (harrival.keyed h.sound.keyed)
    rw [← hstate] at hwrites
    obtain ⟨-, hprogress, -⟩ := ServerWrite.chain hwrites
    refine ⟨hsound, fun t ht => ?_, ?_⟩
    · rw [hprogress]
      obtain ht | ⟨k, hk, rfl⟩ := htasks t ht
      · -- a message of the same round is the one the condition speaks about
        obtain ⟨p, hp, hhealthy⟩ := h.healthy t ht
        rw [harrival.progress, Message.advance.eq_def, hp]
        by_cases hid : t.roundId = m.header.roundId
        · rw [if_pos hid]
          exact ⟨_, rfl, hkeeps ⟨t, ht, hid⟩ p (hid ▸ hp) hhealthy⟩
        · rw [if_neg hid]
          exact ⟨p, rfl, hhealthy⟩
      · obtain ⟨r, -, rfl⟩ | ⟨-, rfl⟩ := hc
        · cases r with
          | ok _ => cases hk
          | error _ => cases hk
        · exact checkRoundCompletion_suspends hk
    · exact hwrites.preserves ServerWrite.failedRightly (harrival.failedRightly h.failed)
  | @next i t _ hi hstate htasks hended =>
    have ht := List.mem_of_getElem? hi
    obtain ⟨hwrites, -⟩ := (h.sound.tasks t ht).advance h.sound.keyed
    rw [← hstate] at hwrites
    obtain ⟨-, hprogress, -⟩ := ServerWrite.chain hwrites
    refine ⟨hsound, fun t' ht' => ?_, hwrites.preserves ServerWrite.failedRightly h.failed⟩
    rw [hprogress]
    obtain ht' | ⟨k, -, rfl⟩ := htasks t' ht'
    · exact h.healthy t' ht'
    · exact h.healthy t ht

/-! ## Failed rounds stay failed -/

/-- The writes of one round's completion leave the others alone. -/
theorem CompletionWrites.other {roundId : Nat} {s s' : ServerState}
    (h : CompletionWrites roundId s s') {id : Nat} (hid : id ≠ roundId) :
    s'.rounds.get? id = s.rounds.get? id ∧ aggregatesOf id s'.sent = aggregatesOf id s.sent :=
  ⟨(RoundsFollow.of_chain (fun _ _ => ServerWrite.rounds) h).other id hid,
    (ServerWrite.chain h).2.2 id fun _ hdata => hdata id hid⟩

/-- One turn leaves a failed round failed, and writes nothing of its aggregate. -/
theorem System.Guarded.turn_failed {env : HostEnv} {sys sys' : System} {e : Event}
    (h : sys.Guarded) (hturn : sys.Turn env e sys') {id : Nat} {rs : RoundState}
    (hrs : sys.state.rounds.get? id = some rs) (hstage : rs.stage = .error) :
    (∃ rs', sys'.state.rounds.get? id = some rs' ∧ rs'.stage = .error) ∧
      aggregatesOf id sys'.state.sent = aggregatesOf id sys.state.sent := by
  have hfailed := h.failed id rs hrs hstage
  cases hturn with
  | idle | closed writers => exact ⟨⟨rs, hrs, hstage⟩, rfl⟩
  | @first m s₁ c _ _ harrival hc hstate htasks hended =>
    rw [hstate]
    by_cases hid : id = m.header.roundId
    · subst hid
      obtain ⟨rs₁, hrs₁, hreceives⟩ := harrival.own rs hrs
      have hstage₁ := hreceives.stage.trans hstage
      obtain ⟨r, -, rfl⟩ | ⟨-, rfl⟩ := hc
      · have hends : ((liftExcept r : Server Unit).advance s₁).2 = s₁ := by
          cases r with
          | ok _ => rfl
          | error _ => rfl
        rw [hends, harrival.sent]
        exact ⟨⟨rs₁, hrs₁, hstage₁⟩, rfl⟩
      · -- the check finds too few survivors again
        have hunhealthy : ¬rs₁.Healthy := by
          rw [rs₁.healthy_iff, hreceives.progress]
          exact Progress.not_healthy_receive m hfailed
        obtain ⟨r, -, hends⟩ := handleRoundFailure_ends (s₁.setStage m.header.roundId .error)
        rw [checkRoundCompletion_of_unhealthy env hrs₁ hunhealthy, hends]
        exact ⟨⟨_, ServerState.get?_setStage hrs₁ .error, rfl⟩, congrArg _ harrival.sent⟩
    · obtain ⟨hwrites, -⟩ := (completes_of_first hc).advance (harrival.keyed h.sound.keyed)
      obtain ⟨hrounds, haggregates⟩ := CompletionWrites.other hwrites hid
      rw [hrounds, haggregates, harrival.other id hid, harrival.sent]
      exact ⟨⟨rs, hrs, hstage⟩, rfl⟩
  | @next i t _ hi hstate htasks hended =>
    have ht := List.mem_of_getElem? hi
    have hid : id ≠ t.roundId := by
      rintro rfl
      obtain ⟨p, hp, hhealthy⟩ := h.healthy t ht
      rw [ServerState.progress, hrs] at hp
      cases hp
      exact hfailed hhealthy
    obtain ⟨hwrites, -⟩ := (h.sound.tasks t ht).advance h.sound.keyed
    obtain ⟨hrounds, haggregates⟩ := CompletionWrites.other hwrites hid
    rw [hstate, hrounds, haggregates]
    exact ⟨⟨rs, hrs, hstage⟩, rfl⟩

/-- From one system to a later one, no failed round became complete and nothing of its aggregate
    was broadcast. -/
def FailedUnpublished (sys sys' : System) : Prop :=
  ∀ round ∈ sys.state.rounds.entries, round.2.stage = .error →
    (∀ rs' ∈ sys'.state.rounds.get? round.1, rs'.stage ≠ .roundComplete) ∧
      aggregatesOf round.1 sys'.state.sent = aggregatesOf round.1 sys.state.sent

instance (sys sys' : System) : Decidable (FailedUnpublished sys sys') :=
  inferInstanceAs (Decidable (∀ round ∈ sys.state.rounds.entries, round.2.stage = .error →
    (∀ rs' ∈ sys'.state.rounds.get? round.1, rs'.stage ≠ .roundComplete) ∧
      aggregatesOf round.1 sys'.state.sent = aggregatesOf round.1 sys.state.sent))

/-- Over a run, a failed round stays failed, and nothing of its aggregate is written. -/
theorem System.Guarded.run_failed {env : HostEnv} {sys : System} (h : sys.Guarded)
    {events : List Event} (hkeeps : EveryEvent env KeepsThreshold sys events) {id : Nat}
    {rs : RoundState} (hrs : sys.state.rounds.get? id = some rs) (hstage : rs.stage = .error) :
    (∃ rs', (sys.run env events).state.rounds.get? id = some rs' ∧ rs'.stage = .error) ∧
      aggregatesOf id (sys.run env events).state.sent = aggregatesOf id sys.state.sent := by
  induction events generalizing sys rs with
  | nil => exact ⟨⟨rs, hrs, hstage⟩, rfl⟩
  | cons e events ih =>
    have hturn := sys.step_turn env e
    obtain ⟨⟨rs₁, hrs₁, hstage₁⟩, hsent⟩ := h.turn_failed hturn hrs hstage
    obtain ⟨hfailed, haggregates⟩ := ih (h.turn hkeeps.1 hturn) hkeeps.2 hrs₁ hstage₁
    exact ⟨hfailed, haggregates.trans hsent⟩

/-- In every interleaving in which no message brings the survivors of a round below its threshold
    while a handler of the round is suspended, a failed round is never published. -/
theorem failed_rounds_stay_unpublished (env : HostEnv) (pre post : List Event)
    (h : EveryEvent env KeepsThreshold .new (pre ++ post)) :
    FailedUnpublished (System.new.run env pre) (System.new.run env (pre ++ post)) := by
  obtain ⟨hpre, hpost⟩ := h.append
  have hguarded : (System.new.run env pre).Guarded := by
    refine hpre.run_invariant (fun sys e hsys hkeeps => ?_) System.guarded_new
    exact hsys.turn hkeeps (sys.step_turn env e)
  rintro ⟨id, rs⟩ hround hstage
  have hrs : (System.new.run env pre).state.rounds.get? id = some rs :=
    Dict.get?_eq_some_iff.mpr hround
  obtain ⟨⟨rs', hrs', hstage'⟩, haggregates⟩ := hguarded.run_failed hpost hrs hstage
  rw [System.run, List.foldl_append]
  refine ⟨fun rs'' hrs'' => ?_, haggregates⟩
  obtain rfl : rs' = rs'' := Option.some.inj (hrs'.symm.trans hrs'')
  rw [hstage']
  decide

/-- A round that needs both of its two clients. -/
def bothNeeded : List Event :=
  [.dispatch (.of 1 0 0x40 0 [2, 2, 1, 0, 1, 0, 0, 0]), .dispatch (.of 1 1 0x01 0 someKey),
    .dispatch (.of 1 2 0x01 0 someKey), .dispatch (.of 1 1 0x21 0 [0, 5]),
    .dispatch (.of 1 2 0x21 0 [0, 6])]

/-- A client is reported dropped before the other one completes: the round fails, and stays so. -/
theorem bothNeeded_stays_unpublished :
    FailedUnpublished
      (System.new.run zeroEnv (bothNeeded ++ [.dispatch (.of 1 1 0x31 0 [])]))
      (System.new.run zeroEnv ((bothNeeded ++ [.dispatch (.of 1 1 0x31 0 [])]) ++
        [.dispatch (.of 1 2 0x30 0 [])])) :=
  failed_rounds_stay_unpublished zeroEnv _ _ (by decide +kernel)

/-- Both clients complete, and the handler of the second is suspended in key setup when the first
    client is reported dropped. The round fails; when the handler goes on, it is published. -/
theorem bothNeeded_fails_and_is_published :
    ¬∀ pre post, FailedUnpublished (System.new.run zeroEnv pre)
      (System.new.run zeroEnv (pre ++ post)) := by
  intro h
  have hrun := h (bothNeeded ++ [.dispatch (.of 1 1 0x30 0 []), .dispatch (.of 1 2 0x30 0 []),
    .dispatch (.of 1 1 0x31 0 [])]) [.resume 0, .resume 0]
  revert hrun
  decide +kernel

end SwiftAgg.Host
