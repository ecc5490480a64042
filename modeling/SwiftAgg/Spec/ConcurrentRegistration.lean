import SwiftAgg.Spec.DropoutRecovery
import SwiftAgg.Spec.Interleaving
import SwiftAgg.Spec.KeySetup
import SwiftAgg.Spec.RoundCompletion

/-!
# Registration while handlers are suspended

Key setup loops over the clients of its round and the broadcast over the writers
of all clients; both suspend inside the loop. A client that registers in the
round meanwhile makes the first loop fail, a writer that is added or replaced
the second one, and so does a connection that is lost before the broadcast goes
on; a connection of two clients is served twice. As long as nothing of this
happens, and the chunks of the round fit into messages, no loop finds its
dictionary changed, and a broadcast sends every chunk exactly once to every
writer there was when it began.

## Key results

- `keyPhase_turn`: what a turn that starts in key setup comes to
- `System.Steady.turn`: the invariant, over one turn
- `loops_survive`: over all interleavings
-/

namespace SwiftAgg.Host

open Coroutine

/-! ## Chunks that can be sent -/

/-- The chunks of the round and their numbers fit into messages. -/
def Progress.Sendable (p : Progress) : Prop :=
  2 * p.chunkSize + 60 < 2 ^ 16 ∧ p.modelSize / p.chunkSize ≤ 2 ^ 16

instance (p : Progress) : Decidable p.Sendable := inferInstanceAs (Decidable (_ ∧ _))

theorem length_packTelemetry {roundId : Nat} {telemetry : Bytes}
    (h : packTelemetry roundId = .ok telemetry) : telemetry.length = 60 := by
  unfold packTelemetry at h
  split at h
  · cases h
    rfl
  · cases h

section

variable {rs : RoundState} {fed : Dict Nat (List Int)} {telemetry : Bytes}

/-- Every chunk of a computed aggregate can be sent. -/
theorem aggregateMessage_ok (hsend : rs.progress.Sendable) (hround : rs.roundId < 2 ^ 32)
    (hrows : CanonicalRows rs.chunkSize fed) (hlen : telemetry.length = 60) {i : Nat}
    (hi : i < rs.modelSize / rs.chunkSize) (hmem : i ∈ fed.keys) :
    ∃ data, aggregateMessage rs fed telemetry i = .ok data := by
  obtain ⟨hsize, hnum⟩ := hsend
  obtain ⟨row, hrow⟩ := Dict.mem_keys_iff.mp hmem
  have hget := Dict.get?_eq_some_iff.mpr hrow
  obtain ⟨hrowlen, hvals⟩ := hrows i row hget
  -- the values are below 3329, so they fit 16 bits
  have hpack : packChunk rs.chunkSize row = .ok (Bytes.packInt16BE row) := by
    refine if_pos ⟨hrowlen, fun v hv => ?_⟩
    obtain ⟨hnonneg, hlt⟩ := hvals v hv
    omega
  have hseq : i < 2 ^ 16 := hi.trans_le hnum
  have hfits : (Bytes.packInt16BE row).length + telemetry.length < 2 ^ 16 := by
    rw [Bytes.length_packInt16BE, hrowlen, hlen]
    exact hsize
  have hheader : ∃ header, buildHeader 0x41 rs.roundId 0 i
      ((Bytes.packInt16BE row).length + telemetry.length) = .ok header :=
    ⟨_, if_pos ⟨hround, by decide, by decide, hseq, hfits⟩⟩
  obtain ⟨header, hheader⟩ := hheader
  have hvalues : (fed.get? i).elim (.error (PyErr.keyError i)) Except.ok = .ok row := by
    rw [hget]
    rfl
  exact ⟨_, Except.bind_eq_ok.mpr ⟨row, hvalues, Except.bind_eq_ok.mpr
    ⟨_, hpack, Except.bind_eq_ok.mpr ⟨header, hheader, rfl⟩⟩⟩⟩

/-- A turn of the broadcast writes one message, with its aggregated chunk. -/
theorem SendsChunk.sent {x : Nat × Nat} {s s' : ServerState}
    (h : SendsChunk rs fed telemetry x s s') :
    s'.clientWriters = s.clientWriters ∧ ∃ new, s'.sent = s.sent ++ new ∧
      Host.aggregatesOf rs.roundId new = [x] := by
  have hall := h.aggregatesOf
  obtain ⟨data, -, rfl⟩ := h
  refine ⟨rfl, _, rfl, ?_⟩
  rw [aggregatesOf_append] at hall
  exact List.append_cancel_left hall

end

/-- A pass over different writers sends no chunk twice. -/
theorem onePass_nodup {writers : Dict Nat Nat} (h : writers.values.Nodup) (num : Nat) :
    (onePass writers num).Nodup :=
  h.product List.nodup_range

/-! ## Phases of a handler -/

/-- Key setup or recovery, as far as it is left: it writes no aggregated chunk, and where the
    clients of the round stay as they are, it does not find them changed. -/
structure KeyPhase (roundId : Nat) (s : ServerState) (c : Server Unit) : Prop where
  writes : WritesOnly CompletionWrite KeyMessage roundId c
  raises : ∃ ks,
    Raises (InRound roundId (fun p => p.deliveries.keys = ks) fun _ _ => True)
      (· ≠ dictChanged) c ∧
    InRound roundId (fun p => p.deliveries.keys = ks) (fun _ _ => True) s

/-- The connection of a written message is not being closed. -/
def Open (x : Nat × Nat) (s : ServerState) : Prop := x.1 ∉ s.closing

/-- The broadcast after the chunk `x`: as long as the writers stay as they are, and the connection
    of every chunk open until the handler goes on, it sends the chunks of the list `l` and ends. -/
structure BroadcastPhase (roundId : Nat) (writers : Dict Nat Nat) (x : Nat × Nat)
    (l : List (Nat × Nat)) (c : Server Unit) : Prop where
  emits : ∃ rs fed telemetry, rs.roundId = roundId ∧
    Emits (fun s => s.clientWriters = writers) Open (fun _ => False)
      (SendsChunk rs fed telemetry) (Open x) l c

/-- What a turn that starts in key setup comes to, in a round of `num` chunks: the aggregated chunks
    it writes, and where it stops. -/
inductive KeyTurn (env : HostEnv) (roundId num : Nat) (writers : Dict Nat Nat) (s' : ServerState) :
    List (Nat × Nat) → Stop PyErr ServerState Unit → Prop
  | ended {r : Except PyErr Unit} (hquiet : Quiet r) :
    KeyTurn env roundId num writers s' [] (.ended r)
  | setup {c : Server Unit} (hc : KeyPhase roundId s' c) :
    KeyTurn env roundId num writers s' [] (.suspended (c >>= fun _ => publish env roundId))
  | broadcast {x : Nat × Nat} {l : List (Nat × Nat)} {k : Server Unit}
    (hk : BroadcastPhase roundId writers x l k) (hpass : x :: l = onePass writers num) :
    KeyTurn env roundId num writers s' [x] (.suspended k)

section

variable {env : HostEnv} {roundId : Nat} {s : ServerState} {rs : RoundState}

/-- A turn of which this is known. -/
def HasKeyTurn (env : HostEnv) (roundId num : Nat) (c : Server Unit) (s : ServerState) : Prop :=
  ∃ new, (c.advance s).2.sent = s.sent ++ new ∧
    KeyTurn env roundId num s.clientWriters (c.advance s).2 (aggregatesOf roundId new)
      (c.advance s).1

theorem HasKeyTurn.of_ended {num : Nat} {c : Server Unit} {r : Except PyErr Unit}
    (h : c.advance s = (.ended r, s)) (hquiet : Quiet r) : HasKeyTurn env roundId num c s := by
  rw [HasKeyTurn, h]
  exact ⟨[], (List.append_nil _).symm, .ended hquiet⟩

/-- The turn in which the broadcast begins. -/
theorem broadcast_turn (env : HostEnv) (hsend : rs.progress.Sendable)
    (hround : rs.roundId < 2 ^ 32) {fed : Dict Nat (List Int)}
    (hrows : CanonicalRows rs.chunkSize fed)
    (hall : ∀ i ∈ List.range (rs.modelSize / rs.chunkSize), i ∈ fed.keys) {telemetry : Bytes}
    (hlen : telemetry.length = 60) (s : ServerState) :
    HasKeyTurn env rs.roundId (rs.modelSize / rs.chunkSize)
      (broadcast rs fed telemetry (rs.modelSize / rs.chunkSize)) s := by
  have hmessages : ∀ i < rs.modelSize / rs.chunkSize, ∀ e,
      aggregateMessage rs fed telemetry i = .error e → False := by
    intro i hi e he
    obtain ⟨data, hdata⟩ := aggregateMessage_ok hsend hround hrows hlen hi
      (hall i (List.mem_range.mpr hi))
    rw [hdata] at he
    cases he
  have hemits := broadcast_emits (I := fun s' => s'.clientWriters = s.clientWriters) (R := Open)
    (E := fun _ => False) rs fed telemetry (rs.modelSize / rs.chunkSize) s.clientWriters hmessages
    (fun _ hs => hs) fun _ _ hopen => .inl hopen
  -- the turn writes the first chunk of the pass, or ends if there is none
  generalize hpass : onePass s.clientWriters (rs.modelSize / rs.chunkSize) = pass at hemits
  cases pass with
  | nil =>
    obtain ⟨a, ha⟩ | ⟨e, he, -⟩ := hemits s rfl trivial
    · exact .of_ended ha (.ok a)
    · exact he.elim
  | cons x l =>
    obtain ⟨k, s', ha, hsends, hk⟩ | ⟨e, he, -⟩ := hemits s rfl trivial
    · obtain ⟨-, new, hsent, hnew⟩ := hsends.sent
      rw [HasKeyTurn, ha]
      refine ⟨new, hsent, ?_⟩
      rw [hnew]
      exact .broadcast ⟨rs, fed, telemetry, rfl, hk⟩ hpass.symm
    · exact he.elim

/-- The turn after key setup and recovery. -/
theorem publish_turn (hround : s.rounds.get? roundId = some rs) (hid : rs.roundId = roundId)
    (hlt : roundId < 2 ^ 32) (hsend : rs.progress.Sendable) :
    HasKeyTurn env roundId (rs.modelSize / rs.chunkSize) (publish env roundId) s := by
  have hadvance := publish_advance env hround
  cases hfed : aggregate env.hmac env.aes rs with
  | error e =>
    rw [hfed] at hadvance
    refine .of_ended hadvance (.error ?_)
    exact ((unmaskClientChunks_quiet env.hmac env.aes rs).bind (computeFedavg_quiet rs)) e hfed
  | ok fed =>
    simp only [hfed] at hadvance
    by_cases hall : ∀ i ∈ List.range (rs.modelSize / rs.chunkSize), i ∈ fed.keys
    · -- the result is stored, and the broadcast begins in the same turn
      have htelemetry : packTelemetry rs.roundId = .ok _ := if_pos (hid ▸ hlt)
      rw [if_pos hall, htelemetry, liftExcept_ok_bind] at hadvance
      obtain ⟨unmasked, -, hcompute⟩ := Except.bind_eq_ok.mp hfed
      have hturn := broadcast_turn env hsend (hid ▸ hlt)
        (computeFedavg_canonical hcompute) hall (length_packTelemetry htelemetry)
        (s.storeResult roundId fed)
      rw [HasKeyTurn, ← hadvance, hid] at hturn
      exact hturn
    · rw [if_neg hall] at hadvance
      exact .of_ended hadvance (.ok ())

/-- A turn that starts in key setup. -/
theorem keyPhase_turn (env : HostEnv) {c : Server Unit} (hc : KeyPhase roundId s c)
    (hlt : roundId < 2 ^ 32) {p : Progress} (hp : s.progress roundId = some p)
    (hsend : p.Sendable) :
    HasKeyTurn env roundId (p.modelSize / p.chunkSize) (c >>= fun _ => publish env roundId) s := by
  obtain ⟨ks, hraises, hs⟩ := hc.raises
  obtain ⟨hs', herror, hrest⟩ := hraises.advance hs
  obtain ⟨hwrites, hkeyed', hwrites'⟩ := Follows.advance_writing hc.writes
    (ServerWrite.keyed fun _ _ => CompletionWrite.roundId) hs.keyed
  obtain ⟨hwriters, hprogress, -⟩ := ServerWrite.chain hwrites
  obtain ⟨new, hsent, hnew⟩ := ServerWrite.sent_chain hwrites
  have hnone : aggregatesOf roundId new = [] := by
    refine List.filterMap_eq_nil_iff.mpr fun x hx => ?_
    rw [hnew x hx roundId, Option.map_none]
  rw [HasKeyTurn, advance_bind]
  generalize c.advance s = result at *
  obtain ⟨stop, s₁⟩ := result
  cases stop with
  | suspended k =>
    refine ⟨new, hsent, ?_⟩
    rw [hnone]
    exact .setup ⟨hwrites' k rfl, ks, hrest k rfl, hs'⟩
  | ended r =>
    cases r with
    | error e =>
      refine ⟨new, hsent, ?_⟩
      rw [hnone]
      exact .ended (.error (herror e rfl))
    | ok a =>
      -- the turn goes on with the aggregation
      have hp₁ : s₁.progress roundId = some p := (hprogress roundId).trans hp
      obtain ⟨rs, hround, rfl⟩ := Option.map_eq_some_iff.mp hp₁
      obtain ⟨new', hsent', hturn⟩ := publish_turn hround
        (hs'.keyed roundId rs hround) hlt hsend
      have hsent₁ : s₁.sent = s.sent ++ new := hsent
      have hwriters₁ : s₁.clientWriters = s.clientWriters := hwriters
      refine ⟨new ++ new', ?_, ?_⟩
      · rw [← List.append_assoc, ← hsent₁]
        exact hsent'
      · rw [aggregatesOf_append, hnone, ← hwriters₁]
        exact hturn

/-- Key setup, before its first turn. -/
theorem keyPhase_prepare (henv : ∀ n key, Quiet (env.encapsulate n key)) (hkeyed : s.Keyed)
    (hround : s.rounds.get? roundId = some rs) : KeyPhase roundId s (prepare env roundId) where
  writes := (prepare_keyOnly env roundId).imp (fun _ _ => CompletionWrite.internal) fun _ h => h
  raises := by
    have hE : KeyErrors env roundId (fun _ _ => True) rs.clients.keys (· ≠ dictChanged) :=
      ⟨henv, fun _ _ _ _ _ => buildHeader_quiet _ _ _ _ _,
        fun _ _ _ _ _ => derivePairwiseMaskSeed_quiet env.hmac _ _ _ _,
        fun _ _ _ _ _ _ _ _ _ => by decide⟩
    refine ⟨rs.clients.keys, prepare_raises (fun p hp => hp) hE fun rs' _ => ?_, hkeyed,
      ⟨rs.progress, ?_, ?_⟩, trivial⟩
    · exact triggerRecovery_quiet env.hmac rs'
    · rw [ServerState.progress, hround, Option.map_some]
    · rw [RoundState.progress, Dict.keys_map]

/-- The turn of a check. -/
theorem check_turn (henv : ∀ n key, Quiet (env.encapsulate n key)) (hkeyed : s.Keyed)
    (hround : s.rounds.get? roundId = some rs) (hlt : roundId < 2 ^ 32)
    (hsend : rs.progress.Sendable) :
    HasKeyTurn env roundId (rs.modelSize / rs.chunkSize) (checkRoundCompletion env roundId) s := by
  -- the three branches of the check
  by_cases hunmasks : rs.Unmasks
  · have hround' := ServerState.get?_setStage hround .unmasking
    have hprogress : (s.setStage roundId .unmasking).progress roundId = some rs.progress := by
      rw [ServerState.progress, hround']
      rfl
    have hturn := keyPhase_turn env
      (keyPhase_prepare henv (hkeyed.setStage roundId .unmasking) hround') hlt hprogress hsend
    rw [HasKeyTurn, ← unmaskAndAggregate_eq,
      ← checkRoundCompletion_of_unmasks env hround hunmasks] at hturn
    exact hturn
  by_cases hhealthy : rs.Healthy
  · exact .of_ended (checkRoundCompletion_of_waiting env hround hunmasks hhealthy) (.ok ())
  · obtain ⟨r, hquiet, hends⟩ := handleRoundFailure_ends (s.setStage roundId .error)
    have hturn : HasKeyTurn env roundId (rs.modelSize / rs.chunkSize) handleRoundFailure
        (s.setStage roundId .error) := .of_ended hends hquiet
    rw [HasKeyTurn, ← checkRoundCompletion_of_unhealthy env hround hhealthy] at hturn
    exact hturn

end

/-! ## The invariant -/

/-- A handler that is suspended, in key setup or in the broadcast; what it has written and has still
    to write is one pass over different writers. -/
inductive Task.Steady (env : HostEnv) (s : ServerState) (num : Nat) (t : Task) : Prop
  | keySetup {c : Server Unit} (hwritten : aggregatesOf t.roundId t.written = [])
    (hnone : t.broadcastTo = none) (hrest : t.rest = c >>= fun _ => publish env t.roundId)
    (hc : KeyPhase t.roundId s c)
  | broadcast {done : List (Nat × Nat)} {x : Nat × Nat} {l : List (Nat × Nat)}
    (hto : t.broadcastTo = some s.clientWriters)
    (hwritten : aggregatesOf t.roundId t.written = done ++ [x])
    (hpass : done ++ x :: l = onePass s.clientWriters num)
    (hwriters : s.clientWriters.values.Nodup)
    (hrest : BroadcastPhase t.roundId s.clientWriters x l t.rest)

/-- A handler that has ended: it did not find a dictionary changed, and if it began to broadcast, it
    has written one pass over different writers. -/
structure Task.Finished (s : ServerState) (t : Task) (r : Except PyErr Unit) : Prop where
  quiet : Quiet r
  pass : ∀ writers, t.broadcastTo = some writers →
    writers.values.Nodup ∧ ∃ p, s.progress t.roundId = some p ∧
      aggregatesOf t.roundId t.written = onePass writers (p.modelSize / p.chunkSize)

/-- What a turn that wrote `new` takes down. -/
theorem Task.record_eq {t : Task} {s s' : ServerState} {new : List (Nat × Bytes)}
    (h : s'.sent = s.sent ++ new) :
    t.record s s' = { t with
      written := t.written ++ new
      broadcastTo := t.broadcastTo.or
        (if aggregatesOf t.roundId new = [] then none else some s.clientWriters) } := by
  have hdrop : s'.sent.drop s.sent.length = new := by rw [h, List.drop_left]
  simp only [Task.record, hdrop]
  rfl

section

variable {env : HostEnv} {s s' : ServerState} {num : Nat} {t : Task} {new : List (Nat × Bytes)}
  {stop : Stop PyErr ServerState Unit}

/-- A handler after a turn that started in key setup. -/
theorem KeyTurn.steady (h : KeyTurn env t.roundId num s.clientWriters s'
      (aggregatesOf t.roundId new) stop) (hsent : s'.sent = s.sent ++ new)
    (hwriters : s'.clientWriters = s.clientWriters) (hnodup : s.clientWriters.values.Nodup)
    (hwritten : aggregatesOf t.roundId t.written = []) (hnone : t.broadcastTo = none) :
    (∀ r, stop = .ended r → (t.record s s').Finished s' r) ∧
      ∀ k, stop = .suspended k → Task.Steady env s' num { t.record s s' with rest := k } := by
  rw [Task.record_eq hsent, hnone, Option.none_or]
  -- nothing was written before, so what the handler has written is what the turn wrote
  generalize hlog : aggregatesOf t.roundId new = log at h
  have hall : aggregatesOf t.roundId (t.written ++ new) = log := by
    rw [aggregatesOf_append, hwritten, hlog, List.nil_append]
  cases h with
  | ended hquiet =>
    refine ⟨fun r hr => ?_, nofun⟩
    cases hr
    exact ⟨hquiet, nofun⟩
  | setup hc =>
    refine ⟨nofun, fun k hk => ?_⟩
    cases hk
    exact .keySetup hall rfl rfl hc
  | @broadcast x l k hk hpass =>
    refine ⟨nofun, fun k' hk' => ?_⟩
    cases hk'
    rw [← hwriters] at hnodup hpass hk
    have hfirst : aggregatesOf t.roundId (t.written ++ new) = [] ++ [x] := hall
    refine .broadcast ?_ hfirst hpass hnodup hk
    rw [hwriters]
    rfl

/-- A handler after a turn of the broadcast, for which the connection it wrote to was open. -/
theorem BroadcastPhase.steady {p : Progress} (hp : s.progress t.roundId = some p)
    {done l : List (Nat × Nat)} {x : Nat × Nat} (hto : t.broadcastTo = some s.clientWriters)
    (hwritten : aggregatesOf t.roundId t.written = done ++ [x])
    (hpass : done ++ x :: l = onePass s.clientWriters (p.modelSize / p.chunkSize))
    (hnodup : s.clientWriters.values.Nodup)
    (hrest : BroadcastPhase t.roundId s.clientWriters x l t.rest) (hopen : Open x s) :
    (∀ r, (t.rest.advance s).1 = .ended r →
      (t.record s (t.rest.advance s).2).Finished (t.rest.advance s).2 r) ∧
    ∀ k, (t.rest.advance s).1 = .suspended k →
      Task.Steady env (t.rest.advance s).2 (p.modelSize / p.chunkSize)
        { t.record s (t.rest.advance s).2 with rest := k } := by
  obtain ⟨rs, fed, telemetry, hid, hemits⟩ := hrest.emits
  cases l with
  | nil =>
    obtain ⟨a, ha⟩ | ⟨e, he, -⟩ := hemits s rfl hopen
    · rw [ha, Task.record_eq (List.append_nil s.sent).symm]
      refine ⟨fun r hr => ?_, nofun⟩
      cases hr
      refine ⟨.ok a, fun writers hwriters => ?_⟩
      rw [hto, Option.some_or] at hwriters
      cases hwriters
      refine ⟨hnodup, p, hp, ?_⟩
      rw [← hpass, ← hwritten]
      show aggregatesOf t.roundId (t.written ++ []) = _
      rw [aggregatesOf_append]
      exact List.append_nil _
    · exact he.elim
  | cons y l =>
    obtain ⟨k, s', ha, hsends, hk⟩ | ⟨e, he, -⟩ := hemits s rfl hopen
    · -- one chunk goes from what is left to what is written; the pass is the same
      obtain ⟨hwriters, new, hsent, hnew⟩ := hsends.sent
      rw [ha, Task.record_eq hsent]
      refine ⟨nofun, fun k' hk' => ?_⟩
      cases hk'
      rw [← hwriters] at hto hpass hnodup hk
      have hwritten' : aggregatesOf t.roundId (t.written ++ new) = done ++ [x] ++ [y] := by
        rw [aggregatesOf_append, hwritten, ← hid, hnew]
      have hpass' : done ++ [x] ++ y :: l =
          onePass s'.clientWriters (p.modelSize / p.chunkSize) := by
        rw [List.append_assoc]
        exact hpass
      refine .broadcast ?_ hwritten' hpass' hnodup ⟨rs, fed, telemetry, hid, hk⟩
      rw [hto]
      rfl
    · exact he.elim

end

/-- What suspended handlers rely on: the rounds keep their size, the clients of a round stay while a
    handler of the round is in key setup, and the writers stay while a handler broadcasts. -/
structure System.Keeps (sys : System) (s' : ServerState) : Prop where
  keyed : s'.Keyed
  progress : ∀ id p, sys.state.progress id = some p → ∃ p', s'.progress id = some p' ∧
    p'.chunkSize = p.chunkSize ∧ p'.modelSize = p.modelSize ∧
    ((∃ t ∈ sys.tasks, t.roundId = id ∧ t.broadcastTo.isNone) →
      p'.deliveries.keys = p.deliveries.keys)
  writers : (∃ t ∈ sys.tasks, t.broadcastTo.isSome) → s'.clientWriters = sys.state.clientWriters

/-- Every suspended handler is in key setup or in the broadcast, every ended one has come through
    its loops, and all chunks can be sent. -/
structure System.Steady (env : HostEnv) (sys : System) : Prop where
  sound : sys.Sound
  sendable : ∀ id p, sys.state.progress id = some p → p.Sendable
  tasks : ∀ t ∈ sys.tasks, t.roundId < 2 ^ 32 ∧ ∃ p, sys.state.progress t.roundId = some p ∧
    t.Steady env sys.state (p.modelSize / p.chunkSize)
  ended : ∀ e ∈ sys.ended, e.1.Finished sys.state e.2

theorem System.steady_new (env : HostEnv) : System.new.Steady env :=
  ⟨System.sound_new, nofun, nofun, nofun⟩

section

variable {env : HostEnv} {sys sys' : System} {s' : ServerState} {t : Task}

theorem System.Keeps.task (h : sys.Keeps s') (ht : t ∈ sys.tasks)
    (hsteady : ∃ p, sys.state.progress t.roundId = some p ∧
      t.Steady env sys.state (p.modelSize / p.chunkSize)) :
    ∃ p, s'.progress t.roundId = some p ∧ t.Steady env s' (p.modelSize / p.chunkSize) := by
  obtain ⟨p, hp, hsteady⟩ := hsteady
  obtain ⟨p', hp', hchunk, hmodel, hkeys⟩ := h.progress t.roundId p hp
  refine ⟨p', hp', ?_⟩
  rw [hchunk, hmodel]
  -- a task before its broadcast needs the ids, one in it the writers
  cases hsteady with
  | @keySetup c hwritten hnone hrest hc =>
    obtain ⟨ks, hraises, hin⟩ := hc.raises
    refine .keySetup hwritten hnone hrest
      ⟨hc.writes, ks, hraises, h.keyed, ⟨p', hp', ?_⟩, trivial⟩
    obtain ⟨q, hq, hks⟩ := hin.progress
    obtain rfl : p = q := Option.some.inj (hp.symm.trans hq)
    exact (hkeys ⟨t, ht, rfl, by rw [hnone]; rfl⟩).trans hks
  | @broadcast done x l hto hwritten hpass hnodup hrest =>
    have hwriters := h.writers ⟨t, ht, by rw [hto]; rfl⟩
    rw [← hwriters] at hto hpass hnodup hrest
    exact .broadcast hto hwritten hpass hnodup hrest

theorem System.Keeps.finished (h : sys.Keeps s') {r : Except PyErr Unit}
    (hfinished : t.Finished sys.state r) : t.Finished s' r where
  quiet := hfinished.quiet
  pass writers hwriters := by
    obtain ⟨hnodup, p, hp, hpass⟩ := hfinished.pass writers hwriters
    obtain ⟨p', hp', hchunk, hmodel, -⟩ := h.progress t.roundId p hp
    exact ⟨hnodup, p', hp', by rw [hchunk, hmodel]; exact hpass⟩

end

/-! ## The condition -/

/-- While a handler of the round is in key setup, no new client registers in the round; while any
    handler broadcasts, no writer is added or replaced, and it goes on while the connection it wrote
    to is open. Handlers that may begin to broadcast have turns while no two clients share a
    connection, and the chunks of a new round can be sent. -/
def KeepsLoops (sys : System) : Event → Prop
  | .dispatch m =>
    (m.header.messageType = 0x01 →
      (∃ t ∈ sys.tasks, t.roundId = m.header.roundId ∧ t.broadcastTo.isNone) →
        ∀ p ∈ sys.state.progress m.header.roundId, m.header.clientId ∈ p.deliveries.keys) ∧
    (m.Connects sys.state → (∃ t ∈ sys.tasks, t.broadcastTo.isSome) →
      sys.state.clientWriters.get? m.header.clientId = some m.writer) ∧
    ((sys.state.progress m.header.roundId).isNone → ∀ rs ∈ m.createdRound, rs.progress.Sendable) ∧
    (m.Checks sys.state → sys.state.clientWriters.values.Nodup)
  | .resume i => ∀ t ∈ sys.tasks[i]?,
    (∀ x ∈ (aggregatesOf t.roundId t.written).getLast?, Open x sys.state) ∧
    (t.broadcastTo.isNone → sys.state.clientWriters.values.Nodup)
  | .close _ => True

instance (m : Message) (s : ServerState) : Decidable (m.Connects s) :=
  match hround : s.rounds.get? m.header.roundId with
  | none => isFalse fun ⟨_, hrs, _⟩ => nomatch hround.symm.trans hrs
  | some rs =>
    decidable_of_iff (m.header.messageType = 0x01 ∨
      m.header.messageType = 0x10 ∧ m.header.clientId ∈ rs.clients.keys)
      ⟨fun h => ⟨rs, hround, h⟩, fun ⟨_, hrs, h⟩ => Option.some.inj (hround.symm.trans hrs) ▸ h⟩

instance (m : Message) (s : ServerState) : Decidable (m.Checks s) :=
  inferInstanceAs (Decidable (∃ rs, rs ∈ s.rounds.get? m.header.roundId ∧
    (m.header.messageType = 0x30 ∧ m.header.clientId ∈ rs.clients.keys ∨
      m.header.messageType = 0x31)))

instance (x : Nat × Nat) (s : ServerState) : Decidable (Open x s) :=
  inferInstanceAs (Decidable (x.1 ∉ s.closing))

instance (sys : System) (e : Event) : Decidable (KeepsLoops sys e) :=
  match e with
  | .dispatch _ => inferInstanceAs (Decidable (_ ∧ _ ∧ _ ∧ _))
  | .resume i => inferInstanceAs (Decidable (∀ t ∈ sys.tasks[i]?, _ ∧ _))
  | .close _ => isTrue trivial

theorem Progress.keys_receive {p : Progress} {m : Message}
    (h : m.header.messageType = 0x01 → m.header.clientId ∈ p.deliveries.keys) :
    (p.receive m).deliveries.keys = p.deliveries.keys := by
  generalize hp' : p.receive m = p'
  cases hp' ▸ p.receipt m with
  | ignored => rfl
  | registered htype hnew => exact absurd (h htype) hnew
  | chunk htype hlen => exact Dict.keys_modify _ _ _
  | completed htype => exact Dict.keys_modify _ _ _
  | dropped htype hnew => rfl

section

variable {env : HostEnv} {sys : System} {m : Message} {s₁ s' : ServerState}

/-- A message that meets the condition disturbs no suspended handler. -/
theorem KeepsLoops.keeps (h : KeepsLoops sys (.dispatch m)) (harrival : Arrival m sys.state s₁)
    (hkeyed : s'.Keyed) (hwriters : s'.clientWriters = s₁.clientWriters)
    (hprogress : ∀ id, s'.progress id = s₁.progress id) : sys.Keeps s' where
  keyed := hkeyed
  progress id p hp := by
    rw [hprogress, harrival.progress, Message.advance.eq_def, hp]
    by_cases hid : id = m.header.roundId
    · obtain ⟨-, -, hchunk, hmodel⟩ := p.receive_params m
      rw [if_pos hid]
      refine ⟨p.receive m, rfl, hchunk, hmodel, fun ⟨t, ht, hround, hnone⟩ => ?_⟩
      exact Progress.keys_receive fun htype =>
        h.1 htype ⟨t, ht, hround.trans hid, hnone⟩ p (hid ▸ hp)
    · rw [if_neg hid]
      exact ⟨p, rfl, rfl, rfl, fun _ => rfl⟩
  writers hbroadcast := by
    obtain hsame | ⟨hconnects, hinsert⟩ := harrival.clientWriters
    · exact hwriters.trans hsame
    · -- the writer is the one that is there already
      rw [hwriters, hinsert]
      exact Dict.insert_of_get? (h.2.1 hconnects hbroadcast)

theorem KeepsLoops.sendable (h : KeepsLoops sys (.dispatch m))
    (hsend : ∀ id p, sys.state.progress id = some p → p.Sendable)
    (harrival : Arrival m sys.state s₁) {id : Nat} {p : Progress} (hp : s₁.progress id = some p) :
    p.Sendable := by
  rw [harrival.progress, Message.advance.eq_def] at hp
  -- the message is for this round or for another one
  split at hp
  · rename_i hid
    cases hbefore : sys.state.progress id with
    | none =>
      rw [hbefore] at hp
      obtain ⟨rs, hrs, rfl⟩ := Option.map_eq_some_iff.mp hp
      exact h.2.2.1 (by rw [← hid, hbefore]; rfl) rs hrs
    | some q =>
      rw [hbefore] at hp
      cases hp
      obtain ⟨-, -, hchunk, hmodel⟩ := q.receive_params m
      rw [Progress.Sendable, hchunk, hmodel]
      exact hsend id q hbefore
  · exact hsend id p hp

/-- A dispatched message has a header that `_parse_header` returned. -/
def Event.Parsed : Event → Prop
  | .dispatch m => m.header.Parsed
  | _ => True

instance (e : Event) : Decidable e.Parsed :=
  match e with
  | .dispatch m => inferInstanceAs (Decidable m.header.Parsed)
  | .resume _ | .close _ => isTrue trivial

variable {sys' : System} {e : Event}

/-- The first turn of a handler. -/
theorem System.Steady.first {c : Server Unit} (h : sys.Steady env)
    (henv : ∀ n key, Quiet (env.encapsulate n key)) (hkeeps : KeepsLoops sys (.dispatch m))
    (hparsed : m.header.Parsed) (harrival : Arrival m sys.state s₁)
    (hc : (∃ r, Quiet r ∧ c = liftExcept r) ∨
      m.Checks sys.state ∧ c = checkRoundCompletion env m.header.roundId) :
    (∀ r, (c.advance s₁).1 = .ended r →
      ((Task.start env m).record sys.state (c.advance s₁).2).Finished (c.advance s₁).2 r) ∧
    ∀ k, (c.advance s₁).1 = .suspended k →
      ∃ p, (c.advance s₁).2.progress m.header.roundId = some p ∧
        Task.Steady env (c.advance s₁).2 (p.modelSize / p.chunkSize)
          { (Task.start env m).record sys.state (c.advance s₁).2 with rest := k } := by
  obtain ⟨r, hquiet, rfl⟩ | ⟨hchecks, rfl⟩ := hc
  · have hadvance : (liftExcept r : Server Unit).advance s₁ = (.ended r, s₁) := by
      cases r with
      | ok _ => rfl
      | error _ => rfl
    rw [hadvance]
    refine ⟨fun r' hr' => ?_, nofun⟩
    cases hr'
    rw [Task.record_eq (harrival.sent.trans (List.append_nil _).symm)]
    exact ⟨hquiet, nofun⟩
  · obtain ⟨rs, hrs, -⟩ := id hchecks
    obtain ⟨rs₁, hrs₁, -⟩ := harrival.own rs hrs
    have hp₁ : s₁.progress m.header.roundId = some rs₁.progress := by
      rw [ServerState.progress, hrs₁, Option.map_some]
    have hkeyed₁ := harrival.keyed h.sound.keyed
    -- a message that leads to the check stores no writer
    have hwriters₁ : s₁.clientWriters = sys.state.clientWriters :=
      harrival.clientWriters.resolve_right fun hconnects => hchecks.not_connects hconnects.1
    obtain ⟨new, hsent, hturn⟩ := check_turn henv hkeyed₁ hrs₁
      (MessageHeader.parsed_iff.mp hparsed).1 (hkeeps.sendable h.sendable harrival hp₁)
    obtain ⟨hwrites, -⟩ := Completes.advance (checkRoundCompletion_completionOnly) hkeyed₁
    obtain ⟨hwriters, hprogress, -⟩ := ServerWrite.chain hwrites
    rw [harrival.sent] at hsent
    rw [hwriters₁] at hturn hwriters
    obtain ⟨hended, hsuspended⟩ :=
      hturn.steady (t := Task.start env m) (s := sys.state) hsent hwriters
        (hkeeps.2.2.2 hchecks) rfl rfl
    exact ⟨hended, fun k hk => ⟨rs₁.progress, (hprogress _).trans hp₁, hsuspended k hk⟩⟩

/-- A further turn of a handler. -/
theorem System.Steady.next {i : Nat} {t : Task} (h : sys.Steady env) (hi : sys.tasks[i]? = some t)
    (hkeeps : KeepsLoops sys (.resume i)) :
    (∀ r, (t.rest.advance sys.state).1 = .ended r →
      (t.record sys.state (t.rest.advance sys.state).2).Finished (t.rest.advance sys.state).2 r) ∧
    ∀ k, (t.rest.advance sys.state).1 = .suspended k →
      ∃ p, (t.rest.advance sys.state).2.progress t.roundId = some p ∧
        Task.Steady env (t.rest.advance sys.state).2 (p.modelSize / p.chunkSize)
          { t.record sys.state (t.rest.advance sys.state).2 with rest := k } := by
  have ht := List.mem_of_getElem? hi
  obtain ⟨hopen, hdistinct⟩ := hkeeps t hi
  obtain ⟨hlt, p, hp, hsteady⟩ := h.tasks t ht
  obtain ⟨hwrites, -⟩ := (h.sound.tasks t ht).advance h.sound.keyed
  obtain ⟨hwriters, hprogress, -⟩ := ServerWrite.chain hwrites
  have hp' := (hprogress t.roundId).trans hp
  cases hsteady with
  | @keySetup c hwritten hnone hrest hc =>
    obtain ⟨new, hsent, hturn⟩ := keyPhase_turn env hc hlt hp (h.sendable _ p hp)
    rw [← hrest] at hsent hturn
    have hnodup := hdistinct (by rw [hnone]; rfl)
    obtain ⟨hended, hsuspended⟩ := hturn.steady hsent hwriters hnodup hwritten hnone
    exact ⟨hended, fun k hk => ⟨p, hp', hsuspended k hk⟩⟩
  | @broadcast done x l hto hwritten hpass hnodup hrest =>
    -- the last chunk it wrote is the one whose connection has to be open
    have hx : x ∈ (aggregatesOf t.roundId t.written).getLast? := by
      rw [hwritten]
      exact List.getLast?_concat
    obtain ⟨hended, hsuspended⟩ :=
      hrest.steady hp hto hwritten hpass hnodup (hopen x hx)
    exact ⟨hended, fun k hk => ⟨p, hp', hsuspended k hk⟩⟩

/-- The other handlers come through a turn that keeps what they rely on. -/
theorem System.Steady.of_keeps (h : sys.Steady env) (hsound : sys'.Sound)
    (hkept : sys.Keeps sys'.state)
    (hsendable : ∀ id p, sys'.state.progress id = some p → p.Sendable)
    (htasks : ∀ t ∈ sys'.tasks, t ∈ sys.tasks ∨ t.roundId < 2 ^ 32 ∧
      ∃ p, sys'.state.progress t.roundId = some p ∧
        t.Steady env sys'.state (p.modelSize / p.chunkSize))
    (hended : ∀ e ∈ sys'.ended, e ∈ sys.ended ∨ e.1.Finished sys'.state e.2) :
    sys'.Steady env := by
  refine ⟨hsound, hsendable, fun t ht => ?_, fun e he => ?_⟩
  · obtain ht | hsteady := htasks t ht
    · exact ⟨(h.tasks t ht).1, hkept.task ht (h.tasks t ht).2⟩
    · exact hsteady
  · obtain he | hfinished := hended e he
    · exact hkept.finished (h.ended e he)
    · exact hfinished

theorem System.Steady.turn (h : sys.Steady env) (henv : ∀ n key, Quiet (env.encapsulate n key))
    (hkeeps : KeepsLoops sys e) (hparsed : e.Parsed) (hturn : sys.Turn env e sys') :
    sys'.Steady env := by
  have hsound := h.sound.turn hturn
  cases hturn with
  | idle => exact h
  | closed writers =>
    -- which connections are open matters at the next turn only
    refine h.of_keeps hsound ⟨hsound.keyed, fun id p hp => ?_, fun _ => rfl⟩ h.sendable
      (fun t ht => .inl ht) fun e he => .inl he
    exact ⟨p, hp, rfl, rfl, fun _ => rfl⟩
  | @first m s₁ c _ _ harrival hc hstate htasks hended =>
    obtain ⟨hwrites, -⟩ := (completes_of_first hc).advance (harrival.keyed h.sound.keyed)
    rw [← hstate] at hwrites
    obtain ⟨hwriters, hprogress, -⟩ := ServerWrite.chain hwrites
    have hkept := hkeeps.keeps harrival hsound.keyed hwriters hprogress
    obtain ⟨hfinished, hsuspended⟩ := h.first henv hkeeps hparsed harrival hc
    rw [← hstate] at hfinished hsuspended
    refine h.of_keeps hsound hkept (fun id p hp => ?_) (fun t ht => ?_) fun e he => ?_
    · exact hkeeps.sendable h.sendable harrival ((hprogress id).symm.trans hp)
    · refine (htasks t ht).imp_right ?_
      rintro ⟨k, hk, rfl⟩
      exact ⟨(MessageHeader.parsed_iff.mp hparsed).1, hsuspended k hk⟩
    · refine (hended e he).imp_right ?_
      rintro ⟨r, hr, rfl⟩
      exact hfinished r hr
  | @next i t _ hi hstate htasks hended =>
    have ht := List.mem_of_getElem? hi
    obtain ⟨hwrites, -⟩ := (h.sound.tasks t ht).advance h.sound.keyed
    rw [← hstate] at hwrites
    obtain ⟨hwriters, hprogress, -⟩ := ServerWrite.chain hwrites
    -- after its first turn a handler changes neither deliveries nor writers
    have hkept : sys.Keeps sys'.state :=
      ⟨hsound.keyed, fun id p hp => ⟨p, (hprogress id).trans hp, rfl, rfl, fun _ => rfl⟩,
        fun _ => hwriters⟩
    obtain ⟨hfinished, hsuspended⟩ := h.next hi hkeeps
    rw [← hstate] at hfinished hsuspended
    refine h.of_keeps hsound hkept (fun id p hp => ?_) (fun t' ht' => ?_) fun e he => ?_
    · exact h.sendable id p ((hprogress id).symm.trans hp)
    · refine (htasks t' ht').imp_right ?_
      rintro ⟨k, hk, rfl⟩
      exact ⟨(h.tasks t ht).1, hsuspended k hk⟩
    · refine (hended e he).imp_right ?_
      rintro ⟨r, hr, rfl⟩
      exact hfinished r hr

end

/-! ## The loops survive -/

/-- No handler has found a dictionary changed, and every broadcast has written its chunks in one
    pass over the writers there were when it began, nothing twice: all of it, where the handler has
    ended. -/
def System.LoopsSurvive (sys : System) : Prop :=
  (∀ e ∈ sys.ended, e.2 ≠ .error dictChanged ∧ ∀ writers ∈ e.1.broadcastTo,
    ∀ rs ∈ sys.state.rounds.get? e.1.roundId,
      aggregatesOf e.1.roundId e.1.written = onePass writers (rs.modelSize / rs.chunkSize) ∧
      (aggregatesOf e.1.roundId e.1.written).Nodup) ∧
  ∀ t ∈ sys.tasks, ∀ writers ∈ t.broadcastTo, ∀ rs ∈ sys.state.rounds.get? t.roundId,
    aggregatesOf t.roundId t.written <+: onePass writers (rs.modelSize / rs.chunkSize) ∧
    (aggregatesOf t.roundId t.written).Nodup

instance (sys : System) : Decidable sys.LoopsSurvive := inferInstanceAs (Decidable (_ ∧ _))

theorem System.Steady.loopsSurvive {env : HostEnv} {sys : System} (h : sys.Steady env) :
    sys.LoopsSurvive := by
  have hsize : ∀ {id : Nat} {p : Progress} {rs : RoundState}, sys.state.progress id = some p →
      sys.state.rounds.get? id = some rs →
        p.modelSize / p.chunkSize = rs.modelSize / rs.chunkSize := by
    intro id p rs hp hrs
    rw [ServerState.progress, hrs] at hp
    cases hp
    rfl
  -- the tasks that ended, and those that still run
  refine ⟨fun e he => ⟨fun hchanged => (h.ended e he).quiet _ hchanged rfl, ?_⟩, ?_⟩
  · intro writers hwriters rs hrs
    obtain ⟨hnodup, p, hp, hpass⟩ := (h.ended e he).pass writers hwriters
    rw [hpass, hsize hp hrs]
    exact ⟨rfl, onePass_nodup hnodup _⟩
  · intro t ht writers hwriters rs hrs
    obtain ⟨-, p, hp, hsteady⟩ := h.tasks t ht
    cases hsteady with
    | keySetup hwritten hnone hrest hc =>
      rw [hnone] at hwriters
      cases hwriters
    | @broadcast done x l hto hwritten hpass hnodup hrest =>
      rw [hto] at hwriters
      cases hwriters
      have hpre : done ++ [x] <+: onePass sys.state.clientWriters
          (rs.modelSize / rs.chunkSize) := by
        rw [← hsize hp hrs, ← hpass]
        exact ⟨l, List.append_assoc done [x] l⟩
      rw [hwritten]
      exact ⟨hpre, (onePass_nodup hnodup _).sublist hpre.sublist⟩

/-- A condition on the events alone can be added. -/
theorem EveryEvent.and_forall {env : HostEnv} {P : System → Event → Prop} {Q : Event → Prop}
    {sys : System} {events : List Event} (h : EveryEvent env P sys events)
    (hQ : ∀ e ∈ events, Q e) : EveryEvent env (fun sys e => P sys e ∧ Q e) sys events := by
  induction events generalizing sys with
  | nil => trivial
  | cons e events ih =>
    exact ⟨⟨h.1, hQ e List.mem_cons_self⟩, ih h.2 fun e' he' => hQ e' (List.mem_cons_of_mem e he')⟩

/-- In every interleaving in which no client registers in a round while a handler of the round is in
    key setup, no writer is added or replaced while a handler broadcasts, broadcasts begin over
    different writers and go on while their connections are open, and the chunks of all rounds can
    be sent, the loops survive. -/
theorem loops_survive (env : HostEnv) (henv : ∀ n key, Quiet (env.encapsulate n key))
    (events : List Event) (hparsed : ∀ e ∈ events, e.Parsed)
    (h : EveryEvent env KeepsLoops .new events) : (System.new.run env events).LoopsSurvive := by
  refine System.Steady.loopsSurvive
    ((h.and_forall hparsed).run_invariant (fun sys e hsys he => ?_) (System.steady_new env))
  exact hsys.turn henv he.1 he.2 (sys.step_turn env e)

/-- A round with two clients; the handler of the second completion is suspended in key setup. -/
def inKeySetup : List Event :=
  [.dispatch (.of 1 0 0x40 0 [2, 2, 1, 0, 1, 0, 0, 0]), .dispatch (.of 1 1 0x01 0 someKey),
    .dispatch (.of 1 2 0x01 0 someKey), .dispatch (.of 1 1 0x21 0 [0, 5]),
    .dispatch (.of 1 2 0x21 0 [0, 6]), .dispatch (.of 1 1 0x30 0 []), .dispatch (.of 1 2 0x30 0 [])]

/-- Meanwhile a client registers in another round; then the chunk is written to all three
    writers. -/
theorem inKeySetup_survives : (System.new.run zeroEnv (inKeySetup ++
    [.dispatch (.of 2 0 0x40 0 [1, 1, 1, 0, 1, 0, 0, 0]), .dispatch (.of 2 3 0x01 0 someKey),
      .resume 0, .resume 0, .resume 0, .resume 0, .resume 0])).LoopsSurvive :=
  loops_survive zeroEnv (fun _ _ => .ok _) _ (by decide +kernel) (by decide +kernel)

/-- A client that was not seen before registers in the round. In key setup, the handler then raises;
    so it does in the broadcast, when the chunk has been sent to the first client and not yet to the
    second. The same comes of a connection that is lost there; and when the second client registers
    again on the connection of the first one, this is sent the chunk twice. -/
theorem inKeySetup_disturbed :
    ¬(System.new.run zeroEnv (inKeySetup ++
      [.dispatch (.of 1 3 0x01 0 someKey), .resume 0])).LoopsSurvive ∧
    ¬(System.new.run zeroEnv (inKeySetup ++
      [.resume 0, .resume 0, .dispatch (.of 1 3 0x01 0 someKey), .resume 0])).LoopsSurvive ∧
    ¬(System.new.run zeroEnv (inKeySetup ++
      [.resume 0, .resume 0, .close [1], .resume 0])).LoopsSurvive ∧
    ¬(System.new.run zeroEnv (inKeySetup ++
      [.dispatch { Message.of 1 2 0x01 0 someKey with writer := 1 }, .resume 0, .resume 0,
        .resume 0, .resume 0])).LoopsSurvive := by
  decide +kernel

end SwiftAgg.Host
