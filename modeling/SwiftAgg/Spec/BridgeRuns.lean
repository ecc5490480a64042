import SwiftAgg.Spec.BridgeHandlers

/-!
# Runs of the protocol bridge

As long as no dropout is reported and no pairwise key exchange is tried, the
protocol bridge and the baseline server cannot be told apart: in any
interleaving of their handlers, their states and what each handler has written
are the same up to key material.

## Key results

- `Paired.step`: an event keeps the two servers paired
- `bridge_runs`: so any run does
- `bridge_averages`: what the bridge makes of a round, with or without dropouts
-/

namespace SwiftAgg.Host

open Coroutine

/-- An event of a server that is given the counterparts of the public keys. -/
def Event.translate (counterpart : Bytes → Bytes) : Event → Event
  | .dispatch m => .dispatch (m.translate counterpart)
  | .resume i => .resume i
  | .close writers => .close writers

namespace ProtocolBridge

/-! ## Runs -/

/-- Two handlers of a message and of its translation that have written the same, up to key
    material, and agree in the rest. -/
structure Alike (counterpart : Bytes → Bytes) (t t' : Task) : Prop where
  message : t'.message = t.message.translate counterpart
  written : sentView t.written = sentView t'.written
  rest : Agrees (Matches counterpart) Eq t.rest t'.rest

/-- The baseline server and the bridge, with handlers that are alike. -/
structure Paired (counterpart : Bytes → Bytes) (sys sys' : System) : Prop where
  state : Matches counterpart sys.state sys'.state
  tasks : List.Forall₂ (Alike counterpart) sys.tasks sys'.tasks
  ended : List.Forall₂ (fun e e' => e'.1.message = e.1.message.translate counterpart ∧
    sentView e.1.written = sentView e'.1.written ∧ e.2 = e'.2) sys.ended sys'.ended

variable {env env' : HostEnv} {counterpart : Bytes → Bytes} {sys sys' : System}

theorem paired_new : Paired counterpart System.new System.new :=
  ⟨⟨rfl, .new _⟩, .nil, .nil⟩

/-- What two turns take down as written looks alike. -/
theorem record_written {t t' : Task} (h : sentView t.written = sentView t'.written)
    {s s₁ s' s₁' : ServerState} (hview : SameView counterpart s s')
    (hview₁ : SameView counterpart s₁ s₁') :
    sentView (t.record s s₁).written = sentView (t'.record s' s₁').written := by
  have hsent : sentView s.sent = sentView s'.sent := congrArg ServerView.sent hview
  have hsent₁ : sentView s₁.sent = sentView s₁'.sent := congrArg ServerView.sent hview₁
  have hlength : s.sent.length = s'.sent.length := by
    simpa only [sentView, List.length_map] using congrArg List.length hsent
  show sentView (t.written ++ s₁.sent.drop s.sent.length) =
    sentView (t'.written ++ s₁'.sent.drop s'.sent.length)
  unfold sentView at h hsent₁ ⊢
  rw [List.map_append, List.map_append, List.map_drop, List.map_drop, h, hsent₁, hlength]

/-- A turn of handlers that are alike. -/
theorem Paired.turn (h : Paired counterpart sys sys') {t t' : Task} (ht : Alike counterpart t t') :
    Paired counterpart (sys.turn t) (sys'.turn t') := by
  unfold System.turn
  obtain ⟨r, s₁, s₁', hadvance, hadvance', hR⟩ | ⟨k, k', s₁, s₁', hadvance, hadvance', hR, hk⟩ :=
    ht.rest.advance h.state
  · rw [hadvance, hadvance']
    exact ⟨hR, h.tasks, List.rel_append h.ended
      (.cons ⟨ht.message, record_written ht.written h.state.1 hR.1, rfl⟩ .nil)⟩
  · rw [hadvance, hadvance']
    exact ⟨hR, List.rel_append h.tasks
      (.cons ⟨ht.message, record_written ht.written h.state.1 hR.1, hk⟩ .nil), h.ended⟩

/-- Which connections are being closed from now on is the same for both. -/
theorem Paired.close (h : Paired counterpart sys sys') (writers : List Nat) :
    Paired counterpart { sys with state := { sys.state with closing := writers } }
      { sys' with state := { sys'.state with closing := writers } } :=
  ⟨⟨h.state.1.close writers, h.state.2.keyed, h.state.2.progress⟩, h.tasks, h.ended⟩

/-- An event keeps the two servers paired. -/
theorem Paired.step (henv : env.Counterpart env' counterpart) (h : Paired counterpart sys sys')
    {e : Event} (he : Handled e) :
    Paired counterpart (sys.step env e)
      (ProtocolBridge.step env' sys' (e.translate counterpart)) := by
  cases e with
  | dispatch m =>
    have hbusy : (sys'.tasks.any fun t => t.message.writer == (m.translate counterpart).writer) =
        sys.tasks.any fun t => t.message.writer == m.writer := by
      have hwriters : sys.tasks.map (fun t => t.message.writer) =
          sys'.tasks.map fun t => t.message.writer :=
        h.tasks.map_eq_map fun t t' ht => by rw [ht.message, Message.writer_translate]
      have hany := congrArg (List.any · fun writer => writer == m.writer) hwriters
      simp only [List.any_map] at hany
      rw [Message.writer_translate]
      exact hany.symm
    rw [System.step, Event.translate, ProtocolBridge.step, hbusy, Message.closing_translate]
    split
    · exact h
    · exact (h.close m.closing).turn ⟨rfl, rfl, handler_agrees henv he⟩
  | resume i =>
    rw [System.step, Event.translate, ProtocolBridge.step]
    have hi := h.tasks.getElem? i
    generalize sys.tasks[i]? = t at hi ⊢
    generalize sys'.tasks[i]? = t' at hi ⊢
    cases hi with
    | none => exact h
    | @some t t' ht =>
      have herase : Paired counterpart { sys with tasks := sys.tasks.eraseIdx i }
          { sys' with tasks := sys'.tasks.eraseIdx i } :=
        ⟨h.state, h.tasks.eraseIdx i, h.ended⟩
      exact herase.turn ht
  | close writers => exact h.close writers

/-- Any run keeps them paired. -/
theorem Paired.run (henv : env.Counterpart env' counterpart) (h : Paired counterpart sys sys')
    {events : List Event} (hevents : ∀ e ∈ events, Handled e) :
    Paired counterpart (sys.run env events)
      (run env' sys' (events.map (Event.translate counterpart))) := by
  induction events generalizing sys sys' with
  | nil => exact h
  | cons e events ih =>
    exact ih (h.step henv (hevents e List.mem_cons_self)) fun e' he' =>
      hevents e' (List.mem_cons_of_mem e he')

/-- What can be seen of a handler: its message, and what it has written. -/
def seen (t : Task) : Message × List (Nat × Bytes) := (t.message, sentView t.written)

/-- What is seen of a handler, for the translation of its message. -/
def seenTranslated (counterpart : Bytes → Bytes) (t : Task) : Message × List (Nat × Bytes) :=
  (t.message.translate counterpart, sentView t.written)

/-- An encapsulation to keys of `n` bytes, with ciphertexts of `m` bytes. -/
def fixedLengths (n m : Nat) : HostEnv :=
  { zeroEnv with encapsulate := fun _ key =>
      if key.length = n then .ok (List.replicate m 2, List.replicate 32 1)
      else .error (.valueError "public key length") }

/-- To a key of 32 bytes belongs one of 1184 bytes, to any other a key of one byte. -/
def longKey (key : Bytes) : Bytes :=
  if key = [] then [] else if key.length = 32 then List.replicate 1184 7 else [0]

theorem fixedLengths_counterpart :
    (fixedLengths 32 32).Counterpart (fixedLengths 1184 1088) longKey where
  empty key := by
    rw [longKey]
    split
    · simp [*]
    split
    · simp [*]
    · simp [*]
  encapsulate call call' key := by
    by_cases hlen : key.length = 32
    · have hne : key ≠ [] := fun hnil => by simp [hnil] at hlen
      have hlong : (longKey key).length = 1184 := by
        rw [longKey, if_neg hne, if_pos hlen, List.length_replicate]
      refine .inl ⟨_, _, _, _, if_pos hlen, if_pos hlong, ⟨?_, ?_⟩, ?_, ?_⟩
      · rw [List.length_replicate]; decide
      · decide
      · rw [List.length_replicate]; decide
      · decide
    · have hlong : (longKey key).length ≠ 1184 := by
        rw [longKey, if_neg hlen]
        split
        · decide
        · decide
      exact .inr ⟨_, if_neg hlen, if_neg hlong⟩

/-- Two clients deliver a chunk each and complete; in key setup client 1 sends a Shamir share. Then
    the round is completed, turn by turn. -/
def shareInKeySetup : List Event :=
  [.dispatch (.of 1 0 0x40 0 [2, 2, 1, 0, 1, 0, 0, 0]), .dispatch (.of 1 1 0x01 0 someKey),
    .dispatch (.of 1 2 0x01 0 someKey), .dispatch (.of 1 1 0x21 0 [0, 5]),
    .dispatch (.of 1 2 0x21 0 [0, 6]), .dispatch (.of 1 1 0x30 0 []), .dispatch (.of 1 2 0x30 0 []),
    .dispatch (.of 1 1 0x32 0 [9]), .resume 0, .resume 0, .resume 0, .resume 0]

/-- The bridge has completed the round in this run, and has stored the share. -/
example : ((run (fixedLengths 1184 1088) .new
      (shareInKeySetup.map (Event.translate longKey))).state.rounds.get? 1).map
    (fun rs => (rs.stage, (rs.clients.get? 1).map ClientState.shamirShares)) =
      some (.roundComplete, some [[9]]) := by decide +kernel

/-! ## Well-formed rounds -/

section

variable {roundId : Nat} {s s' : ServerState}

theorem unmaskAndAggregate_completionOnly :
    WritesOnly CompletionWrite (RoundMessage roundId) roundId (unmaskAndAggregate env roundId) := by
  rw [unmaskAndAggregate_eq]
  have hprepare : WritesOnly CompletionWrite (RoundMessage roundId) roundId (prepare env roundId) :=
    (prepare_keyOnly env roundId).imp (fun _ _ => CompletionWrite.internal) fun _ h id _ => h id
  refine Follows.bind hprepare fun _ s hkeyed => safe_getRound_bind ?_
  cases hround : s.rounds.get? roundId with
  | none => exact hkeyed
  | some rs =>
    -- from here on only the round's number matters, so any keyed state will do
    have hid : rs.roundId = roundId := hkeyed roundId rs hround
    suffices WritesOnly InternalWrite (RoundMessage roundId) roundId _ from
      this.imp (fun _ _ => CompletionWrite.internal) (fun _ h => h) s hkeyed
    refine (Follows.liftExcept _).bind fun fed => ?_
    refine Follows.bind (modifyRound_internal fun rs => .complete rs fed) fun _ => ?_
    refine (Follows.liftExcept _).bind fun telemetry => Follows.forPositions fun i => ?_
    refine Follows.state.bind fun s => ?_
    split
    · exact (Follows.liftExcept _).bind fun num =>
        Follows.forM (sendChunk_aggregateOnly hid _ _ _) _
    · exact Follows.pure _

theorem checkRoundCompletion_completionOnly :
    WritesOnly CompletionWrite (RoundMessage roundId) roundId
      (checkRoundCompletion env roundId) := by
  intro s hkeyed
  refine safe_getRound_bind ?_
  cases hround : s.rounds.get? roundId with
  | none => exact hkeyed
  | some rs => exact safe_check unmaskAndAggregate_completionOnly hkeyed hround

theorem handleClientComplete_handlerOnly (header : MessageHeader) (payload : Bytes) :
    HandlerOnly header.roundId (handleClientComplete env header payload) := by
  refine getClient_follows.bind fun c => ?_
  split
  · exact Follows.pure _
  · exact Follows.bind (modifyClient_handlerOnly _ fun _ c => .complete c _) fun _ =>
      checkRoundCompletion_completionOnly.handlerOnly

theorem handleDropoutNotify_handlerOnly (header : MessageHeader) :
    HandlerOnly header.roundId (handleDropoutNotify env header) := by
  refine getRound_follows.bind fun rs => ?_
  split
  · exact Follows.pure _
  · exact reportDropout_handlerOnly header.clientId checkRoundCompletion_completionOnly

theorem handleShamirShare_handlerOnly (header : MessageHeader) (payload : Bytes) :
    HandlerOnly header.roundId (handleShamirShare header payload) := by
  refine getClient_follows.bind fun c => ?_
  split
  · exact Follows.pure _
  · exact modifyClient_handlerOnly _ fun _ c => .share c payload

/-- The bridge's handlers write what the handlers of a round may write. -/
theorem dispatchMessage_follows (env : HostEnv) (header : MessageHeader) (payload : Bytes)
    (writer : Nat) :
    HandlerOnly header.roundId (dispatchMessage env header payload writer) := by
  unfold dispatchMessage
  split
  · exact handlePublicKey_handlerOnly header payload writer
  split
  · exact handleMaskChunk_handlerOnly header payload
  split
  · exact handleClientComplete_handlerOnly header payload
  split
  · exact handleDropoutNotify_handlerOnly header
  split
  · exact handleRoundInit_handlerOnly header payload
  -- the two missing methods
  split
  · exact Follows.raise _
  split
  · exact Follows.raise _
  split
  · exact handleShamirShare_handlerOnly header payload
  · exact Follows.pure _

/-- A handler's writes keep the rounds well formed. -/
theorem HandlerWrite.wellFormed (h : HandlerWrite roundId s s') (hwf : s.WellFormed) :
    s'.WellFormed := by
  cases h with
  | write h =>
    cases h with
    | round f h => exact Dict.forall_modify hwf fun rs hrs => (h rs hrs).wellFormed (hwf _ rs hrs)
    | encapsulated n => exact hwf
    | sent writer data h => exact hwf
  | created e t c n h => exact Dict.forall_insert hwf (RoundState.wellFormed_new _ _ _ _ _)
  | connected cid writer => exact hwf

/-- Rounds are stored under their numbers and well formed, and the suspended handlers write what
    they may. -/
structure Orderly (sys : System) : Prop where
  keyed : sys.state.Keyed
  wellFormed : sys.state.WellFormed
  tasks : ∀ t ∈ sys.tasks, HandlerOnly t.roundId t.rest

theorem orderly_new : Orderly System.new :=
  ⟨ServerState.keyed_new, ServerState.wellFormed_new, nofun⟩

theorem Orderly.turn (h : Orderly sys) {t : Task} (ht : HandlerOnly t.roundId t.rest) :
    Orderly (sys.turn t) := by
  obtain ⟨hstate, htasks, -⟩ := sys.turn_spec t
  obtain ⟨hwrites, hkeyed, hrest⟩ := Follows.advance_writing ht HandlerWrite.keyed h.keyed
  refine ⟨hstate ▸ hkeyed, hstate ▸ ?_, fun t' ht' => ?_⟩
  · exact hwrites.preserves (fun _ _ => HandlerWrite.wellFormed) h.wellFormed
  · obtain ht' | ⟨k, hk, rfl⟩ := htasks t' ht'
    · exact h.tasks t' ht'
    · exact hrest k hk

theorem Orderly.run (h : Orderly sys) (events : List Event) : Orderly (run env sys events) := by
  refine List.foldlRecOn events (step env) h fun sys h e _ => ?_
  cases e with
  | dispatch m =>
    rw [step]
    split
    · exact h
    · have hread : Orderly { sys with state := { sys.state with closing := m.closing } } :=
        ⟨h.keyed, h.wellFormed, h.tasks⟩
      exact hread.turn (dispatchMessage_follows env m.header m.payload m.writer)
  | resume i =>
    rw [step]
    split
    · rename_i t ht
      have herase : Orderly { sys with tasks := sys.tasks.eraseIdx i } :=
        ⟨h.keyed, h.wellFormed, fun t' ht' => h.tasks t' (List.mem_of_mem_eraseIdx ht')⟩
      exact herase.turn (h.tasks t (List.mem_of_getElem? ht))
    · exact h
  | close writers => exact ⟨h.keyed, h.wellFormed, h.tasks⟩

end

/-- In every run, whatever the order of messages and turns: a round in which somebody who holds a
    secret was reported dropped cannot be averaged, and any other round is averaged over its
    surviving clients, with the samples of all completed ones. -/
theorem bridge_averages (env : HostEnv) (events : List Event) {id : Nat} {rs : RoundState}
    (hrs : (run env .new events).state.rounds.get? id = some rs) (hchunk : rs.chunkSize ≠ 0) :
    (finalizeAggregation rs = .error unknownRecovery ↔
        ∃ d ∈ rs.dropoutClients, holdsSecret rs d) ∧
      ((∀ d ∈ rs.dropoutClients, ¬holdsSecret rs d) → ∃ fed, finalizeAggregation rs = .ok fed ∧
        fed.keys = List.range (rs.modelSize / rs.chunkSize) ∧
        Rows (rs.modelSize / rs.chunkSize) rs.chunkSize fed (survivorAverage rs)) := by
  obtain ⟨fed, hkeys, hrows, heq⟩ :=
    finalizeAggregation_eq ((orderly_new.run events).wellFormed id rs hrs) hchunk
  by_cases hsecret : ∃ d ∈ rs.dropoutClients, holdsSecret rs d
  · rw [if_pos hsecret] at heq
    refine ⟨iff_of_true heq hsecret, fun hnone => ?_⟩
    obtain ⟨d, hd, hholds⟩ := hsecret
    exact (hnone d hd hholds).elim
  · rw [if_neg hsecret] at heq
    refine ⟨iff_of_false (fun herror => ?_) hsecret, fun _ => ⟨fed, heq, hkeys, hrows⟩⟩
    rw [heq] at herror
    cases herror

/-- Client 2 is reported dropped, and client 1 completes: then both have a secret. -/
def droppedInRound : List Event :=
  [.dispatch (.of 1 0 0x40 0 [2, 1, 1, 0, 1, 0, 0, 0]), .dispatch (.of 1 1 0x01 0 someKey),
    .dispatch (.of 1 2 0x01 0 someKey), .dispatch (.of 1 1 0x21 0 [0, 5]),
    .dispatch (.of 1 2 0x31 0 []), .dispatch (.of 1 1 0x30 0 []), .resume 0, .resume 0]

theorem bridge_averages_dropped :
    finalizeAggregation (((run zeroEnv .new droppedInRound).state.rounds.get? 1).get
      (by decide +kernel)) = .error unknownRecovery :=
  (bridge_averages zeroEnv droppedInRound (Option.some_get _).symm (by decide +kernel)).1.mpr
    (by decide +kernel)

end ProtocolBridge

end SwiftAgg.Host
