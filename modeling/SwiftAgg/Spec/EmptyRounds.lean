import SwiftAgg.ForStd.Agreement
import SwiftAgg.Spec.DeliveredAverage
import SwiftAgg.Spec.Interleaving
import SwiftAgg.Spec.KeySetupWrites

/-!
# Rounds without chunks

A chunk whose length is not that of its round is not stored, and the server
does not look for missing chunks: a round in which no chunk was stored is
completed like any other, and what is published of it are zeros.

## Key results

- `aggregate_of_no_chunks`: the aggregate of a round without chunks
- `System.Blank.run`: over all interleavings nothing but zeros is stored and sent
-/

namespace SwiftAgg.Host

open Coroutine

/-! ## The aggregate -/

/-- No client has a chunk. -/
def Progress.NoChunks (p : Progress) : Prop :=
  ∀ id d, p.deliveries.get? id = some d → d.chunks = .empty

/-- What was unmasked are no chunks. -/
def NoValues (unmasked : Dict Nat (Dict Nat (List Int))) : Prop :=
  ∀ id values, unmasked.get? id = some values → values = .empty

theorem NoValues.insert {unmasked : Dict Nat (Dict Nat (List Int))} (h : NoValues unmasked)
    (id : Nat) : NoValues (unmasked.insert id .empty) :=
  Dict.forall_insert h rfl

section

variable {rs : RoundState}

theorem Progress.NoChunks.receivedChunks (h : rs.progress.NoChunks) {id : Nat} {c : ClientState}
    (hc : rs.clients.get? id = some c) : c.receivedChunks = .empty := by
  refine h id c.delivery ?_
  rw [RoundState.progress, Dict.get?_map, hc, Option.map_some]

/-- Without chunks nothing is unmasked, with or without dropouts. -/
theorem unmaskClientChunks_noValues (h : rs.progress.NoChunks) {hmac : Hmac} {aes : AesCtr}
    {unmasked : Dict Nat (Dict Nat (List Int))}
    (hunmasked : unmaskClientChunks hmac aes rs = .ok unmasked) : NoValues unmasked := by
  obtain ⟨num, -, hrest⟩ := Except.bind_eq_ok.mp hunmasked
  obtain ⟨survivors, hsurvivors, hdropouts⟩ := Except.bind_eq_ok.mp hrest
  have hstart : NoValues survivors := by
    refine List.foldlM_ok_invariant NoValues (fun client hclient acc acc' hacc hstep => ?_)
      (fun _ _ hnone => by cases hnone) hsurvivors
    unfold unmaskSurvivor at hstep
    split at hstep
    · cases hstep
      exact hacc
    · rw [h.receivedChunks (Dict.get?_eq_some_iff.mpr hclient)] at hstep
      cases hstep
      exact hacc.insert client.1
  refine List.foldlM_ok_invariant NoValues (fun id _ acc acc' hacc hstep => ?_) hstart hdropouts
  unfold unmaskDropout at hstep
  split at hstep
  · cases hstep
    exact hacc
  rename_i c hc
  split at hstep
  · cases hstep
    exact hacc
  split at hstep
  · -- the masks are recovered, and added to nothing
    obtain ⟨chunks, hchunks, hinsert⟩ := Except.bind_eq_ok.mp hstep
    obtain ⟨masks, -, hadd⟩ := Except.bind_eq_ok.mp hchunks
    rw [h.receivedChunks hc] at hadd
    cases hadd
    cases hinsert
    exact hacc.insert id
  · cases hstep
    exact hacc

/-- No values change no row. -/
theorem addClient_noValues {num : Nat} (fed : Dict Nat (List Int)) (id : Nat) :
    addClient rs num fed (id, .empty) = .ok fed := by
  have hnothing : ∀ l : List Nat, l.foldlM (addSeqChunk 1 .empty) fed = .ok fed := by
    intro l
    induction l with
    | nil => rfl
    | cons i l ih => exact ih
  unfold addClient
  split
  · rfl
  · split
    · exact hnothing _
    · rfl

theorem zeroChunks_mapValues (num n : Nat) (inv : Int) :
    ((zeroChunks num n).mapValues fun _ row => row.map fun v => v * inv % fieldModulus) =
      zeroChunks num n := by
  apply Dict.ext
  show (zeroChunks num n).entries.map _ = _
  rw [entries_zeroChunks, List.map_map]
  refine List.map_congr_left fun i _ => ?_
  simp [List.map_replicate]

/-- The aggregate of a round without chunks are zeros. -/
theorem aggregate_of_no_chunks (h : rs.progress.NoChunks) {hmac : Hmac} {aes : AesCtr}
    {fed : Dict Nat (List Int)} (hfed : aggregate hmac aes rs = .ok fed) :
    fed = zeroChunks (rs.modelSize / rs.chunkSize) rs.chunkSize := by
  obtain ⟨unmasked, hunmasked, hcompute⟩ := Except.bind_eq_ok.mp hfed
  have hno := unmaskClientChunks_noValues h hunmasked
  obtain ⟨num, hnum, hrest⟩ := Except.bind_eq_ok.mp hcompute
  obtain ⟨sums, hsums, hscaled⟩ := Except.bind_eq_ok.mp hrest
  have hsize : num = rs.modelSize / rs.chunkSize := by
    unfold RoundState.numChunks at hnum
    split at hnum
    · cases hnum
    · exact (Except.ok.inj hnum).symm
  have hzero : sums = zeroChunks num rs.chunkSize := by
    refine List.foldlM_ok_invariant (· = zeroChunks num rs.chunkSize)
      (fun e he acc acc' hacc hstep => ?_) rfl hsums
    have hvalues : e.2 = .empty := hno e.1 e.2 (Dict.get?_eq_some_iff.mpr he)
    rw [show e = (e.1, e.2) from rfl, hvalues, addClient_noValues] at hstep
    cases hstep
    exact hacc
  subst hzero hsize
  split at hscaled
  · exact (Except.ok.inj hscaled).symm.trans (zeroChunks_mapValues _ _ _)
  · exact (Except.ok.inj hscaled).symm

end

/-! ## Servers without chunks -/

/-- The round has chunks of `size` values, none of which is there, and its result is not there or
    consists of zeros. -/
structure RoundState.Blank (size : Nat) (rs : RoundState) : Prop where
  chunkSize : rs.chunkSize = size
  noChunks : rs.progress.NoChunks
  result : rs.unmaskedChunks = .empty ∨
    rs.unmaskedChunks = zeroChunks (rs.modelSize / rs.chunkSize) rs.chunkSize

/-- A message that carries no aggregated chunk, or zeros followed by a telemetry record. -/
def BlankMessage (data : Bytes) : Prop :=
  KeyMessage data ∨ ∃ roundId seq n header telemetry, packTelemetry roundId = .ok telemetry ∧
    buildHeader 0x41 roundId 0 seq (2 * n + telemetry.length) = .ok header ∧
    data = header ++ (List.replicate (2 * n) 0 ++ telemetry)

/-- All rounds are blank, with chunks of `size id` values, and so is what was sent. -/
structure ServerState.Blank (size : Nat → Nat) (s : ServerState) : Prop where
  keyed : s.Keyed
  rounds : ∀ id rs, s.rounds.get? id = some rs → rs.Blank (size id)
  sent : ∀ p ∈ s.sent, BlankMessage p.2

theorem ServerState.blank_new (size : Nat → Nat) : ServerState.new.Blank size :=
  ⟨ServerState.keyed_new, nofun, nofun⟩

section

variable {env : HostEnv} {size : Nat → Nat} {roundId : Nat} {s s' : ServerState} {rs : RoundState}

theorem RoundState.Blank.internal {n : Nat} {rs' : RoundState} (h : rs.Blank n)
    (hwrite : KeyWrite rs rs') : rs'.Blank n := by
  have hformat := hwrite.internal.evolves
  refine ⟨hformat.chunkSize.trans h.chunkSize, ?_, ?_⟩
  · rw [hwrite.internal.progress]
    exact h.noChunks
  · rw [hwrite.unmaskedChunks, hformat.modelSize, hformat.chunkSize]
    exact h.result

/-- An assignment to a round that is blank again. -/
theorem ServerState.Blank.modify (h : s.Blank size) {f : RoundState → RoundState}
    (hf : ∀ rs, s.rounds.get? roundId = some rs →
      (f rs).roundId = rs.roundId ∧ (f rs).Blank (size roundId)) :
    ServerState.Blank size { s with rounds := s.rounds.modify roundId f } := by
  refine ⟨?_, ?_, h.sent⟩
  · exact Dict.forall_modify h.keyed fun rs hrs => (hf rs hrs).1.trans (h.keyed _ rs hrs)
  · exact Dict.forall_modify h.rounds fun rs hrs => (hf rs hrs).2

theorem ServerState.Blank.send (h : s.Blank size) (writer : Nat) {data : Bytes}
    (hdata : BlankMessage data) :
    ServerState.Blank size { s with sent := s.sent ++ [(writer, data)] } := by
  refine ⟨h.keyed, h.rounds, fun p hp => ?_⟩
  obtain hp | hp := List.mem_append.mp hp
  · exact h.sent p hp
  · obtain rfl := List.mem_singleton.mp hp
    exact hdata

/-- Key setup and recovery keep rounds blank. -/
theorem keyWriting_blank : KeyWriting env roundId (ServerState.Blank size)
    (Contract.keeping (ServerState.Blank size)) where
  preserves := Contract.keeping_preserves _
  pause _ _ := trivial
  encapsulated _ _ _ h := ⟨h.keyed, h.rounds, h.sent⟩
  round _ _ _ hf h := h.modify fun rs hrs =>
    ⟨(hf rs hrs).internal.roundId, (h.rounds _ rs hrs).internal (hf rs hrs)⟩
  ciphertext _ _ _ _ _ _ _ _ _ _ _ hheader h := h.send _ <| .inl fun id => by
    rw [aggregateSeq_buildHeader hheader, if_neg fun heq => absurd heq.1 (by decide)]

theorem packInt16BE_replicate_zero (n : Nat) :
    Bytes.packInt16BE (List.replicate n 0) = List.replicate (2 * n) 0 := by
  induction n with
  | zero => rfl
  | succ n ih =>
    rw [List.replicate_succ, Bytes.packInt16BE, List.flatMap_cons]
    exact congrArg ([0, 0] ++ ·) ih

/-- Of zeros a chunk of zeros is sent. -/
theorem sendChunk_blank {num : Nat} {telemetry : Bytes}
    (htelemetry : packTelemetry rs.roundId = .ok telemetry) (writer seq : Nat) :
    Maintains (ServerState.Blank size)
      (sendChunk rs (zeroChunks num rs.chunkSize) telemetry writer seq) := by
  unfold sendChunk
  refine Follows.liftExcept_bind fun values hvalues => ?_
  refine Follows.liftExcept_bind fun result hresult => ?_
  refine Follows.liftExcept_bind fun header hheader => ?_
  have hzero : values = List.replicate rs.chunkSize 0 := by
    cases hrow : (zeroChunks num rs.chunkSize).get? seq with
    | none =>
      rw [hrow] at hvalues
      cases hvalues
    | some row =>
      rw [hrow] at hvalues
      cases hvalues
      have hmem := Dict.get?_eq_some_iff.mp hrow
      rw [entries_zeroChunks] at hmem
      obtain ⟨i, -, heq⟩ := List.mem_map.mp hmem
      exact (congrArg Prod.snd heq).symm
  unfold packChunk at hresult
  split at hresult
  · rw [hzero, packInt16BE_replicate_zero] at hresult
    cases hresult
    rw [List.length_replicate] at hheader
    refine Follows.bind (Maintains.update fun s hs => hs.send writer (.inr ?_)) fun _ =>
      drain_follows (Contract.keeping_preserves _) (fun _ _ => trivial) writer
    exact ⟨_, _, _, header, telemetry, htelemetry, hheader, List.append_assoc _ _ _⟩
  · cases hresult

/-- A computation without state does not suspend. -/
theorem safe_liftExcept_bind {α β : Type} {I : ServerState → Prop} {C : Contract ServerState}
    {x : Except PyErr α} {f : α → Server β} (hs : I s)
    (hf : ∀ a, x = .ok a → Safe C (fun _ s => I s) (f a) s) :
    Safe C (fun _ s => I s) (liftExcept x >>= f) s := by
  cases x with
  | ok a => exact hf a rfl
  | error e => exact hs

/-- What is published of a blank round are zeros. -/
theorem publish_blank : Maintains (ServerState.Blank size) (publish env roundId) := by
  intro s hs
  refine safe_getRound_bind ?_
  cases hround : s.rounds.get? roundId with
  | none => exact hs
  | some rs =>
    have hblank := hs.rounds roundId rs hround
    refine safe_liftExcept_bind hs fun unmasked hunmasked => ?_
    refine safe_liftExcept_bind hs fun fed hfed => ?_
    refine safe_liftExcept_bind hs fun num _ => ?_
    have hzero : fed = zeroChunks (rs.modelSize / rs.chunkSize) rs.chunkSize :=
      aggregate_of_no_chunks hblank.noChunks (Except.bind_eq_ok.mpr ⟨unmasked, hunmasked, hfed⟩)
    subst hzero
    split
    · exact hs
    -- the result is stored in the round that it was computed for
    have hstored := hs.modify (f := fun rs' => { rs' with
        unmaskedChunks := zeroChunks (rs.modelSize / rs.chunkSize) rs.chunkSize
        stage := .roundComplete }) fun rs' hrs' => by
      obtain rfl : rs = rs' := Option.some.inj (hround.symm.trans hrs')
      exact ⟨rfl, hblank.chunkSize, hblank.noChunks, .inr rfl⟩
    refine safe_modifyRound_bind (fun _ => hstored) ?_
    suffices hrest : Maintains (ServerState.Blank size) _ from hrest _ hstored
    refine Follows.liftExcept_bind fun telemetry htelemetry => Follows.forPositions fun i => ?_
    refine Follows.state.bind fun s' => ?_
    split
    · exact Follows.forM (sendChunk_blank htelemetry _) _
    · exact Follows.pure _

theorem handleRoundFailure_blank : Maintains (ServerState.Blank size) handleRoundFailure := by
  refine Follows.forPositions fun i => Follows.state.bind fun s => ?_
  split
  · split
    · exact Follows.pure _
    · exact Follows.raise _
  · exact Follows.pure _

/-- What is left of a handler after its message was received keeps rounds blank. -/
theorem checkRoundCompletion_blank :
    Maintains (ServerState.Blank size) (checkRoundCompletion env roundId) := by
  have hstage : ∀ stage, Maintains (ServerState.Blank size)
      (modifyRound roundId fun rs => { rs with stage := stage }) := fun stage =>
    Maintains.update fun s hs => hs.modify fun rs hrs => by
      have hblank := hs.rounds roundId rs hrs
      exact ⟨rfl, hblank.chunkSize, hblank.noChunks, hblank.result⟩
  unfold checkRoundCompletion
  refine getRound_follows.bind fun round => ?_
  split
  · exact Follows.pure _
  rename_i rs
  show Maintains _ (if rs.Unmasks then _ else if rs.surviving < rs.threshold then _ else _)
  split
  · refine Follows.bind (hstage _) fun _ => ?_
    rw [unmaskAndAggregate_eq]
    exact Follows.bind keyWriting_blank.prepare fun _ => publish_blank
  · split
    · exact Follows.bind (hstage _) fun _ => handleRoundFailure_blank
    · exact Follows.pure _

/-! ## Runs -/

/-- The message creates only rounds with chunks of `size id` values, and has no chunk of such a
    round. -/
structure Message.Blank (size : Nat → Nat) (m : Message) : Prop where
  created : ∀ rs, m.createdRound = some rs → rs.chunkSize = size m.header.roundId
  chunk : m.header.messageType = 0x21 → m.payload.length ≠ size m.header.roundId * 2

theorem Progress.NoChunks.receive {p : Progress} {m : Message} (h : p.NoChunks)
    (hm : m.header.messageType = 0x21 → m.payload.length ≠ p.chunkSize * 2) :
    (p.receive m).NoChunks := by
  generalize hp' : p.receive m = p'
  cases hp' ▸ p.receipt m with
  | ignored => exact h
  | dropped htype hnew => exact h
  | chunk htype hlen => exact (hm htype hlen).elim
  | registered htype hnew => exact Dict.forall_insert h rfl
  | completed htype => exact Dict.forall_modify h (h _)

theorem Arrival.blank {m : Message} (h : Arrival m s s') (hs : s.Blank size) (hm : m.Blank size) :
    s'.Blank size := by
  refine ⟨h.keyed hs.keyed, fun id rs hrs => ?_, fun p hp => hs.sent p (h.sent ▸ hp)⟩
  by_cases hid : id = m.header.roundId
  · subst hid
    cases hbefore : s.rounds.get? m.header.roundId with
    | none =>
      rw [h.created hbefore] at hrs
      have hchunk := hm.created rs hrs
      obtain ⟨_, _, _, _, rfl⟩ := Message.createdRound_eq_some hrs
      exact ⟨hchunk, nofun, .inl rfl⟩
    | some rs₀ =>
      obtain ⟨rs₁, hrs₁, hreceives⟩ := h.own rs₀ hbefore
      obtain rfl : rs₁ = rs := Option.some.inj (hrs₁.symm.trans hrs)
      have hblank := hs.rounds _ rs₀ hbefore
      obtain ⟨-, -, hchunk, hmodel⟩ := rs₀.progress.receive_params m
      rw [← hreceives.progress] at hchunk hmodel
      have hchunk' : rs₁.chunkSize = rs₀.chunkSize := hchunk
      have hmodel' : rs₁.modelSize = rs₀.modelSize := hmodel
      refine ⟨hchunk'.trans hblank.chunkSize, ?_, ?_⟩
      · rw [hreceives.progress]
        refine hblank.noChunks.receive fun htype => ?_
        show m.payload.length ≠ rs₀.chunkSize * 2
        rw [hblank.chunkSize]
        exact hm.chunk htype
      · rw [hreceives.unmaskedChunks, hchunk', hmodel']
        exact hblank.result
  · rw [h.other id hid] at hrs
    exact hs.rounds id rs hrs

/-- The server is blank, and every suspended handler keeps it so. -/
structure System.Blank (size : Nat → Nat) (sys : System) : Prop where
  state : sys.state.Blank size
  tasks : ∀ t ∈ sys.tasks, Maintains (ServerState.Blank size) t.rest

theorem System.blank_new (size : Nat → Nat) : System.new.Blank size :=
  ⟨ServerState.blank_new size, nofun⟩

/-- One turn of a computation that keeps rounds blank. -/
theorem keeps_advance {c : Server Unit} (h : Maintains (ServerState.Blank size) c)
    (hs : s.Blank size) : (c.advance s).2.Blank size ∧
      ∀ k, (c.advance s).1 = .suspended k → Maintains (ServerState.Blank size) k := by
  obtain ⟨hsteps, hstop⟩ := (h s hs).advance
  refine ⟨hsteps.preserves (fun _ _ hguar => hguar) hs, fun k hk => ?_⟩
  rw [hk] at hstop
  exact fun s' hs' => hstop.2 s' hs'

theorem System.Blank.turn {sys sys' : System} {e : Event} (h : sys.Blank size)
    (he : ∀ m, e = .dispatch m → m.Blank size) (hturn : sys.Turn env e sys') :
    sys'.Blank size := by
  cases hturn with
  | idle => exact h
  | closed writers => exact ⟨⟨h.state.keyed, h.state.rounds, h.state.sent⟩, h.tasks⟩
  | @first m s₁ c _ _ harrival hc hstate htasks hended =>
    have hkeeps : Maintains (ServerState.Blank size) c := by
      obtain ⟨r, -, rfl⟩ | ⟨-, rfl⟩ := hc
      · exact Follows.liftExcept r
      · exact checkRoundCompletion_blank
    obtain ⟨hs, hrest⟩ := keeps_advance hkeeps (harrival.blank h.state (he m rfl))
    refine ⟨hstate ▸ hs, fun t ht => ?_⟩
    obtain ht | ⟨k, hk, rfl⟩ := htasks t ht
    · exact h.tasks t ht
    · exact hrest k hk
  | @next i t _ ht hstate htasks hended =>
    obtain ⟨hs, hrest⟩ := keeps_advance (h.tasks t (List.mem_of_getElem? ht)) h.state
    refine ⟨hstate ▸ hs, fun t' ht' => ?_⟩
    obtain ht' | ⟨k, hk, rfl⟩ := htasks t' ht'
    · exact h.tasks t' ht'
    · exact hrest k hk

/-- In every interleaving the server stays blank. -/
theorem System.Blank.run {sys : System} {events : List Event} (h : sys.Blank size)
    (hevents : ∀ m, .dispatch m ∈ events → m.Blank size) : (sys.run env events).Blank size := by
  induction events generalizing sys with
  | nil => exact h
  | cons e events ih =>
    refine ih (h.turn (fun m hm => hevents m (hm ▸ List.mem_cons_self)) (sys.step_turn env e)) ?_
    exact fun m hm => hevents m (List.mem_cons_of_mem e hm)

end

end SwiftAgg.Host
