import SwiftAgg.ForStd.Turns
import SwiftAgg.Spec.ServerStep
import SwiftAgg.Spec.Aggregation
import SwiftAgg.Spec.HostErrors

/-!
# The broadcast of an aggregate

What `_unmask_and_aggregate` does after key setup and recovery: it aggregates,
stores the result and writes every chunk to every client's writer, suspended
after each. As long as no writer is added or replaced meanwhile, the broadcast
is one pass over the writers.

## Key results

- `publish_cases`: the turn in which the result is stored
- `broadcast_emits`: the broadcast, turn by turn
- `broadcast_run`: the broadcast without interference
-/

namespace SwiftAgg.Host

/-- One pass over the clients' writers: every chunk index for the writer of every client. A writer
    that two clients registered is sent every chunk twice. -/
def onePass (writers : Dict Nat Nat) (num : Nat) : List (Nat × Nat) :=
  writers.values.flatMap fun writer => (List.range num).map fun i => (writer, i)

/-- The message with an aggregated chunk. -/
def aggregateMessage (rs : RoundState) (fedavgChunks : Dict Nat (List Int)) (telemetry : Bytes)
    (seqNum : Nat) : Except PyErr Bytes := do
  let values ← (fedavgChunks.get? seqNum).elim (.error (.keyError seqNum)) .ok
  let result ← packChunk rs.chunkSize values
  let header ← buildHeader 0x41 rs.roundId 0 seqNum (result.length + telemetry.length)
  return header ++ result ++ telemetry

/-- The loops of `_unmask_and_aggregate` that write the result. -/
def broadcast (rs : RoundState) (fedavgChunks : Dict Nat (List Int)) (telemetry : Bytes)
    (numChunks : Nat) : Server Unit :=
  Coroutine.forPositions (fun s => s.clientWriters.entries.length) dictChanged fun i => do
    match (← Coroutine.state).clientWriters.entries[i]? with
    | some (_, writer) =>
      (List.range numChunks).forM (sendChunk rs fedavgChunks telemetry writer)
    | none => return

/-- `_unmask_and_aggregate` after key setup and recovery. -/
def publish (env : HostEnv) (roundId : Nat) : Server Unit := do
  match ← getRound roundId with
  | none => return
  | some rs =>
    let clientUnmasked ← Coroutine.liftExcept (unmaskClientChunks env.hmac env.aes rs)
    let fedavgChunks ← Coroutine.liftExcept (computeFedavg rs clientUnmasked)
    let numChunks ← Coroutine.liftExcept rs.numChunks
    if (List.range numChunks).any fun seqNum => !fedavgChunks.contains seqNum then return
    else
      modifyRound roundId fun rs =>
        { rs with unmaskedChunks := fedavgChunks, stage := .roundComplete }
      let telemetry ← Coroutine.liftExcept (packTelemetry rs.roundId)
      broadcast rs fedavgChunks telemetry numChunks

/-- `_unmask_and_aggregate` up to its result: key setup and recovery. -/
def prepare (env : HostEnv) (roundId : Nat) : Server Unit := do
  setupKeysAndMasks env roundId
  runRecovery env roundId

theorem unmaskAndAggregate_eq (env : HostEnv) (roundId : Nat) :
    unmaskAndAggregate env roundId = prepare env roundId >>= fun _ => publish env roundId := by
  rw [prepare, bind_assoc]
  rfl

theorem prepare_keyOnly (env : HostEnv) (roundId : Nat) :
    WritesOnly InternalWrite KeyMessage roundId (prepare env roundId) :=
  Coroutine.Follows.bind setupKeysAndMasks_keyOnly fun _ => runRecovery_keyOnly

/-! ## Turn by turn -/

/-- The effect of one turn of the broadcast: chunk `x.2` is written to `x.1`. -/
def SendsChunk (rs : RoundState) (fedavgChunks : Dict Nat (List Int)) (telemetry : Bytes)
    (x : Nat × Nat) (s s' : ServerState) : Prop :=
  ∃ data, aggregateMessage rs fedavgChunks telemetry x.2 = .ok data ∧
    s' = { s with sent := s.sent ++ [(x.1, data)] }

section

variable {rs : RoundState} {fed : Dict Nat (List Int)} {telemetry : Bytes} {E : PyErr → Prop}
  {I : ServerState → Prop} {R : Nat × Nat → ServerState → Prop}

open Coroutine

theorem sendChunk_eq (writer seqNum : Nat) :
    sendChunk rs fed telemetry writer seqNum =
      Coroutine.liftExcept (aggregateMessage rs fed telemetry seqNum) >>=
        writeAndDrain writer := by
  simp only [sendChunk, aggregateMessage, liftExcept_bind, bind_assoc]
  rfl

/-- Waiting for a connection that stays open ends. -/
theorem drain_emits {ι : Type} {act : ι → ServerState → ServerState → Prop}
    {Q : ι → ServerState → Prop} {P : ServerState → Prop} {writer : Nat}
    (hopen : ∀ s, P s → writer ∉ s.closing ∨ E .connectionResetError) :
    Emits I Q E act P [] (state >>= fun s : ServerState =>
      if writer ∈ s.closing then Coroutine.raise .connectionResetError else pure ()) := by
  intro s _ hP
  have hturn : (state >>= fun s : ServerState => if writer ∈ s.closing then
        Coroutine.raise .connectionResetError else pure () : Server Unit).advance s =
      (if writer ∈ s.closing then Coroutine.raise .connectionResetError
        else pure () : Server Unit).advance s := rfl
  rw [hturn]
  split
  · rename_i hclosing
    exact .inr ⟨_, (hopen s hP).resolve_left (not_not.mpr hclosing), rfl⟩
  · exact .inl ⟨(), rfl⟩

/-- A chunk is sent, where the writer's connection is open when the handler goes on. -/
theorem sendChunk_emits {writer seqNum : Nat}
    (hE : ∀ e, aggregateMessage rs fed telemetry seqNum = .error e → E e)
    (hopen : ∀ s, R (writer, seqNum) s → writer ∉ s.closing ∨ E .connectionResetError) :
    Emits I R E (SendsChunk rs fed telemetry) (fun _ => True) [(writer, seqNum)]
      (sendChunk rs fed telemetry writer seqNum) := by
  rw [sendChunk_eq]
  refine Emits.liftExcept_bind (fun data hdata s _ _ => .inl ⟨_, _, rfl, ?_, ?_⟩) hE
  · exact ⟨data, hdata, rfl⟩
  · exact drain_emits hopen

/-- A loop over the positions of a list visits its elements. -/
private theorem flatMap_range_elim {α β : Type} (l : List α) (g : α → List β) :
    ((List.range l.length).flatMap fun i => l[i]?.elim [] g) = l.flatMap g := by
  induction l with
  | nil => rfl
  | cons a l ih =>
    rw [List.length_cons, List.range_succ_eq_map, List.flatMap_cons, List.flatMap_map,
      List.flatMap_cons, ← ih]
    rfl

/-- As long as the writers stay as they are and their connections open, the broadcast is one pass
    over them. -/
theorem broadcast_emits (rs : RoundState) (fed : Dict Nat (List Int)) (telemetry : Bytes)
    (num : Nat) (writers : Dict Nat Nat)
    (hE : ∀ i < num, ∀ e, aggregateMessage rs fed telemetry i = .error e → E e)
    (hwriters : ∀ s, I s → s.clientWriters = writers)
    (hopen : ∀ x s, R x s → x.1 ∉ s.closing ∨ E .connectionResetError) :
    Emits I R E (SendsChunk rs fed telemetry) (fun _ => True) (onePass writers num)
      (broadcast rs fed telemetry num) := by
  have hpass : onePass writers num = (List.range writers.entries.length).flatMap fun i =>
      writers.entries[i]?.elim [] fun p => (List.range num).map fun j => (p.2, j) := by
    rw [flatMap_range_elim, onePass, Dict.values, List.flatMap_map]
  rw [hpass]
  refine Emits.forPositions (fun s hs => by rw [hwriters s hs]) fun i _ => ?_
  have hbody : Emits I R E (SendsChunk rs fed telemetry) (fun _ => True)
      (writers.entries[i]?.elim [] fun p => (List.range num).map fun j => (p.2, j))
      (match writers.entries[i]? with
        | some (_, writer) => (List.range num).forM (sendChunk rs fed telemetry writer)
        | none => pure () : Server Unit) := by
    cases hentry : writers.entries[i]? with
    | none => exact Emits.ret ()
    | some p =>
      rw [Option.elim_some, List.map_eq_flatMap]
      exact Emits.forM fun j hj =>
        sendChunk_emits (hE j (List.mem_range.mp hj)) (hopen (p.2, j))
  -- the source reads the writers again at every position; they are the ones it began with
  refine hbody.congr fun s hs => ?_
  rw [← hwriters s hs]
  rfl

/-- A turn of the broadcast writes one aggregated chunk of its round. -/
theorem SendsChunk.aggregatesOf {rs : RoundState} {fed : Dict Nat (List Int)} {telemetry : Bytes}
    {x : Nat × Nat} {s s' : ServerState} (h : SendsChunk rs fed telemetry x s s') :
    Host.aggregatesOf rs.roundId s'.sent = Host.aggregatesOf rs.roundId s.sent ++ [x] := by
  obtain ⟨data, hdata, rfl⟩ := h
  obtain ⟨values, -, hdata⟩ := Except.bind_eq_ok.mp hdata
  obtain ⟨result, -, hdata⟩ := Except.bind_eq_ok.mp hdata
  obtain ⟨header, hheader, hdata⟩ := Except.bind_eq_ok.mp hdata
  cases hdata
  have hseq : aggregateSeq rs.roundId (header ++ result ++ telemetry) = some x.2 := by
    rw [List.append_assoc, aggregateSeq_buildHeader hheader, if_pos ⟨rfl, rfl⟩]
  rw [aggregatesOf_concat, hseq]
  rfl

/-- The broadcast without interference: the rounds are left alone, and at most one pass over the
    writers is written. -/
theorem broadcast_run (rs : RoundState) (fed : Dict Nat (List Int)) (telemetry : Bytes) (num : Nat)
    (s : ServerState) :
    ((broadcast rs fed telemetry num).run s).2.rounds = s.rounds ∧
      ∃ l, l <+: onePass s.clientWriters num ∧
        aggregatesOf rs.roundId ((broadcast rs fed telemetry num).run s).2.sent =
          aggregatesOf rs.roundId s.sent ++ l := by
  let I : ServerState → Prop := fun s' =>
    s'.clientWriters = s.clientWriters ∧ s'.rounds = s.rounds
  have hemits : Emits I (fun _ _ => True) (fun _ => True) (SendsChunk rs fed telemetry)
      (fun _ => True) (onePass s.clientWriters num) (broadcast rs fed telemetry num) :=
    broadcast_emits rs fed telemetry _ s.clientWriters (fun _ _ _ _ => trivial)
      (fun _ hs => hs.1) fun _ _ _ => .inr trivial
  have hkeep : ∀ x s₁ s₂, SendsChunk rs fed telemetry x s₁ s₂ → I s₁ → I s₂ ∧ True := by
    rintro x s₁ _ ⟨data, -, rfl⟩ hI
    exact ⟨hI, trivial⟩
  obtain ⟨⟨-, hrounds⟩, l, hl, hsent⟩ := hemits.run_log hkeep
    (fun _ _ _ => SendsChunk.aggregatesOf) ⟨rfl, rfl⟩ trivial
  exact ⟨hrounds, l, hl, hsent⟩

/-- The server with the result of a round stored. -/
def ServerState.storeResult (s : ServerState) (roundId : Nat) (fed : Dict Nat (List Int)) :
    ServerState :=
  { s with
    rounds := s.rounds.modify roundId fun rs =>
      { rs with unmaskedChunks := fed, stage := .roundComplete } }

/-- A round that aggregates has chunks. -/
theorem numChunks_of_unmaskClientChunks {hmac : Hmac} {aes : AesCtr}
    {unmasked : Dict Nat (Dict Nat (List Int))}
    (h : unmaskClientChunks hmac aes rs = .ok unmasked) :
    rs.numChunks = .ok (rs.modelSize / rs.chunkSize) := by
  obtain ⟨num, hnum, -⟩ := Except.bind_eq_ok.mp h
  unfold RoundState.numChunks at hnum ⊢
  split
  · rename_i hzero
    rw [if_pos hzero] at hnum
    cases hnum
  · rfl

/-- The turn after key setup and recovery. -/
theorem publish_advance (env : HostEnv) {roundId : Nat} {s : ServerState}
    (hround : s.rounds.get? roundId = some rs) :
    (publish env roundId).advance s =
      match aggregate env.hmac env.aes rs with
      | .error e => (.ended (.error e), s)
      | .ok fed =>
        if ∀ i ∈ List.range (rs.modelSize / rs.chunkSize), i ∈ fed.keys then
          (Coroutine.liftExcept (packTelemetry rs.roundId) >>= fun telemetry =>
            broadcast rs fed telemetry (rs.modelSize / rs.chunkSize)).advance
              (s.storeResult roundId fed)
        else (.ended (.ok ()), s) := by
  rw [publish, advance_getRound_bind, hround, aggregate]
  simp only
  cases hunmasked : unmaskClientChunks env.hmac env.aes rs with
  | error e => rfl
  | ok unmasked =>
    rw [numChunks_of_unmaskClientChunks hunmasked, liftExcept_ok_bind]
    show _ = match computeFedavg rs unmasked with
      | .error e => _
      | .ok fed => _
    cases hfed : computeFedavg rs unmasked with
    | error e => rfl
    | ok fed =>
      rw [liftExcept_ok_bind, liftExcept_ok_bind]
      -- the guard of the source, as a statement about the keys
      by_cases hall : ∀ i ∈ List.range (rs.modelSize / rs.chunkSize), i ∈ fed.keys
      · have hany : ((List.range (rs.modelSize / rs.chunkSize)).any
            fun seqNum => !fed.contains seqNum) = false := by
          simpa using hall
        simp only [hany, if_pos hall]
        rfl
      · have hany : ((List.range (rs.modelSize / rs.chunkSize)).any
            fun seqNum => !fed.contains seqNum) = true := by
          simpa using hall
        simp only [hany, if_neg hall]
        rfl

/-- The turn after key setup and recovery ends with the round as it was, or it stores the aggregate
    of the round and goes on with the broadcast. -/
theorem publish_cases (env : HostEnv) {roundId : Nat} {s : ServerState}
    (hround : s.rounds.get? roundId = some rs) :
    (∃ r, (publish env roundId).advance s = (.ended r, s)) ∨
      ∃ fed, aggregate env.hmac env.aes rs = .ok fed ∧
        (publish env roundId).advance s =
          (Coroutine.liftExcept (packTelemetry rs.roundId) >>= fun telemetry =>
            broadcast rs fed telemetry (rs.modelSize / rs.chunkSize)).advance
              (s.storeResult roundId fed) := by
  rw [publish_advance env hround]
  cases aggregate env.hmac env.aes rs with
  | error e => exact .inl ⟨_, rfl⟩
  | ok fed =>
    by_cases hall : ∀ i ∈ List.range (rs.modelSize / rs.chunkSize), i ∈ fed.keys
    · exact .inr ⟨fed, rfl, if_pos hall⟩
    · exact .inl ⟨_, if_neg hall⟩

/-! ## Failed rounds -/

/-- `_handle_round_failure` writes nothing and does not suspend, so it finds no dictionary
    changed. -/
theorem handleRoundFailure_ends (s : ServerState) :
    ∃ r, Quiet r ∧ handleRoundFailure.advance s = (.ended r, s) := by
  have hbody : ∀ (i : Nat) (s' : ServerState), ∃ r, Quiet r ∧
      (match s'.clientWriters.entries[i]? with
        | some (_, writer) =>
          if writer ∈ s'.closing then pure () else Coroutine.raise (.nameError "MSG_TYPE_ERROR")
        | none => pure () : Server Unit).advance s' = (.ended r, s') := by
    intro i s'
    split
    · split
      · exact ⟨_, .ok (), rfl⟩
      · exact ⟨.error (.nameError "MSG_TYPE_ERROR"), .error (by decide), rfl⟩
    · exact ⟨_, .ok (), rfl⟩
  -- a loop that emits nothing: the type of its messages does not matter
  have hemits : Emits (fun s' => s'.clientWriters = s.clientWriters) (fun _ _ => True)
      (· ≠ dictChanged) (fun (_ : Unit) _ _ => False) (fun _ => True)
      ((List.range s.clientWriters.entries.length).flatMap fun _ => []) handleRoundFailure := by
    refine Emits.forPositions (fun s' hs' => by rw [hs']) fun i _ s' _ _ => ?_
    obtain ⟨r, hquiet, hr⟩ := hbody i s'
    cases r with
    | ok a => exact .inl ⟨a, hr⟩
    | error e => exact .inr ⟨e, hquiet e rfl, hr⟩
  rw [List.flatMap_eq_nil_iff.mpr fun _ _ => rfl] at hemits
  obtain ⟨a, ha⟩ | ⟨e, he, ha⟩ := hemits s rfl trivial
  · exact ⟨_, .ok a, ha⟩
  · exact ⟨_, .error he, ha⟩

end

end SwiftAgg.Host
