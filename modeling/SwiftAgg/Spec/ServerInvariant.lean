import SwiftAgg.Spec.ServerStep

/-!
# The server's round-state invariant

What holds of every round after any messages: its parameters stay, reported
dropouts are kept and are distinct, no client is lost or becomes incomplete
again, and every stored chunk has the length of the round. All of it follows
from the list of writes.

## Key results

- `RoundWrite.evolves`: what an assignment keeps of a round
- `handle_rounds`: a message touches its own round only
- `handleAll_evolves`, `handleAll_wellFormed`: what any messages keep of a round
-/

namespace SwiftAgg.Host

/-! ## What the writes do to rounds and clients -/

theorem RoundState.get?_updateClient (rs : RoundState) (id id' : Nat)
    (f : ClientState → ClientState) (hf : ∀ c, (f c).clientId = c.clientId) :
    (rs.updateClient id f hf).clients.get? id' =
      if id' = id then (rs.clients.get? id').map f else rs.clients.get? id' :=
  Dict.get?_modify rs.clients id id' f

theorem RoundState.get?_addClient (rs : RoundState) (id id' : Nat) :
    (rs.addClient id).clients.get? id' = if id' = id then some (.new id) else rs.clients.get? id' :=
  Dict.get?_insert rs.clients id id' (.new id)

/-- No client is lost, and each comes by assignments from what it was, or from a new client. -/
structure ClientsFollow (rs rs' : RoundState) : Prop where
  keys : ∀ id ∈ rs.clients.keys, id ∈ rs'.clients.keys
  writes : ∀ id c', rs'.clients.get? id = some c' →
    Relation.ReflTransGen (ClientWrite rs.chunkSize) ((rs.clients.get? id).getD (.new id)) c'

theorem ClientsFollow.of_eq {rs rs' : RoundState} (h : rs'.clients = rs.clients) :
    ClientsFollow rs rs' where
  keys id hid := by rwa [h]
  writes id c' hc' := by
    rw [h] at hc'
    rw [hc', Option.getD_some]

theorem ClientsFollow.updateClient (rs : RoundState) (id : Nat) {f : ClientState → ClientState}
    {hf : ∀ c, (f c).clientId = c.clientId} (h : ∀ c, ClientWrite rs.chunkSize c (f c)) :
    ClientsFollow rs (rs.updateClient id f hf) where
  keys id' hid' := by rwa [RoundState.updateClient, Dict.keys_modify]
  writes id' c' hc' := by
    rw [rs.get?_updateClient] at hc'
    by_cases hid : id' = id
    · rw [if_pos hid] at hc'
      obtain ⟨c, hc, rfl⟩ := Option.map_eq_some_iff.mp hc'
      rw [hc]
      exact .single (h c)
    · rw [if_neg hid] at hc'
      rw [hc', Option.getD_some]

theorem ClientsFollow.addClient (rs : RoundState) {id : Nat} (h : id ∉ rs.clients.keys) :
    ClientsFollow rs (rs.addClient id) where
  keys id' hid' := Dict.mem_keys_insert.mpr (.inr hid')
  writes id' c' hc' := by
    rw [rs.get?_addClient] at hc'
    by_cases hid : id' = id
    · rw [if_pos hid] at hc'
      cases hc'
      rw [hid, Dict.get?_eq_none_iff.mpr h, Option.getD_none]
    · rw [if_neg hid] at hc'
      rw [hc', Option.getD_some]

theorem ClientsFollow.trans {rs₁ rs₂ rs₃ : RoundState} (h : ClientsFollow rs₁ rs₂)
    (h' : ClientsFollow rs₂ rs₃) (hsize : rs₂.chunkSize = rs₁.chunkSize) :
    ClientsFollow rs₁ rs₃ where
  keys id hid := h'.keys id (h.keys id hid)
  writes id c'' hc'' := by
    have hsteps := h'.writes id c'' hc''
    rw [hsize] at hsteps
    cases hc' : rs₂.clients.get? id with
    | some c' =>
      rw [hc'] at hsteps
      exact (h.writes id c' hc').trans hsteps
    | none =>
      -- a client that is not there later was not there before
      have hnone : rs₁.clients.get? id = none := by
        rw [Dict.get?_eq_none_iff] at hc' ⊢
        exact fun hid => hc' (h.keys id hid)
      rw [hc'] at hsteps
      rw [hnone]
      exact hsteps

/-- The parameters of a round are fixed and its reported dropouts only grow. -/
structure RoundState.Evolves (rs rs' : RoundState) : Prop where
  roundId : rs'.roundId = rs.roundId
  expectedClients : rs'.expectedClients = rs.expectedClients
  threshold : rs'.threshold = rs.threshold
  chunkSize : rs'.chunkSize = rs.chunkSize
  modelSize : rs'.modelSize = rs.modelSize
  dropouts : rs.dropoutClients <+: rs'.dropoutClients
  clients : ClientsFollow rs rs'

theorem RoundState.Evolves.refl (rs : RoundState) : rs.Evolves rs :=
  ⟨rfl, rfl, rfl, rfl, rfl, List.prefix_rfl, .of_eq rfl⟩

theorem RoundState.Evolves.trans {rs₁ rs₂ rs₃ : RoundState} (h : rs₁.Evolves rs₂)
    (h' : rs₂.Evolves rs₃) : rs₁.Evolves rs₃ :=
  ⟨h'.roundId.trans h.roundId, h'.expectedClients.trans h.expectedClients,
    h'.threshold.trans h.threshold, h'.chunkSize.trans h.chunkSize, h'.modelSize.trans h.modelSize,
    h.dropouts.trans h'.dropouts, h.clients.trans h'.clients h.chunkSize⟩

theorem RoundState.Evolves.updateClient (rs : RoundState) (id : Nat)
    {f : ClientState → ClientState} {hf : ∀ c, (f c).clientId = c.clientId}
    (h : ∀ c, ClientWrite rs.chunkSize c (f c)) : rs.Evolves (rs.updateClient id f hf) :=
  ⟨rfl, rfl, rfl, rfl, rfl, List.prefix_rfl, .updateClient rs id h⟩

theorem InternalWrite.evolves {rs rs' : RoundState} (h : InternalWrite rs rs') :
    rs.Evolves rs' := by
  cases h with
  | secret id secret => exact .updateClient rs id fun c => .sharedSecret c secret
  | seed id peerId seed => exact .updateClient rs id fun c => .pairwiseSeed c peerId seed
  | recovered secrets =>
    induction secrets generalizing rs with
    | nil => exact .refl rs
    | cons p secrets ih =>
      exact RoundState.Evolves.trans (.updateClient rs p.1 fun c => .sharedSecret c p.2) ih
  | maskSetup => exact ⟨rfl, rfl, rfl, rfl, rfl, List.prefix_rfl, .of_eq rfl⟩
  | complete chunks => exact ⟨rfl, rfl, rfl, rfl, rfl, List.prefix_rfl, .of_eq rfl⟩

theorem InternalWrite.dropoutClients {rs rs' : RoundState} (h : InternalWrite rs rs') :
    rs'.dropoutClients = rs.dropoutClients := by
  cases h with
  | secret id secret => rfl
  | seed id peerId seed => rfl
  | recovered secrets =>
    induction secrets generalizing rs with
    | nil => rfl
    | cons p secrets ih => exact ih
  | maskSetup => rfl
  | complete chunks => rfl

theorem CompletionWrite.dropoutClients {rs rs' : RoundState} (h : CompletionWrite rs rs') :
    rs'.dropoutClients = rs.dropoutClients := by
  cases h with
  | unmasking h => rfl
  | failed h => rfl
  | internal h => exact h.dropoutClients

theorem CompletionWrite.evolves {rs rs' : RoundState} (h : CompletionWrite rs rs') :
    rs.Evolves rs' := by
  cases h with
  | unmasking h => exact ⟨rfl, rfl, rfl, rfl, rfl, List.prefix_rfl, .of_eq rfl⟩
  | failed h => exact ⟨rfl, rfl, rfl, rfl, rfl, List.prefix_rfl, .of_eq rfl⟩
  | internal h => exact h.evolves

theorem RoundWrite.evolves {rs rs' : RoundState} (h : RoundWrite rs rs') : rs.Evolves rs' := by
  cases h with
  | refl => exact .refl rs
  | register id h => exact ⟨rfl, rfl, rfl, rfl, rfl, List.prefix_rfl, .addClient rs h⟩
  | client id f hf h => exact .updateClient rs id h
  | dropout id h => exact ⟨rfl, rfl, rfl, rfl, rfl, List.prefix_append _ _, .of_eq rfl⟩
  | completion h => exact h.evolves

/-! ## What the writes do to the table of rounds -/

/-- Every round but one is untouched; that one comes by `R` from what it was, or from a new
    round. -/
structure RoundsFollow (R : RoundState → RoundState → Prop) (roundId : Nat) (s s' : ServerState) :
    Prop where
  other : ∀ id, id ≠ roundId → s'.rounds.get? id = s.rounds.get? id
  own : ∀ rs, s.rounds.get? roundId = some rs →
    ∃ rs', s'.rounds.get? roundId = some rs' ∧ Relation.ReflTransGen R rs rs'
  created : s.rounds.get? roundId = none → ∀ rs', s'.rounds.get? roundId = some rs' →
    ∃ expectedClients threshold chunkSize modelSize, Relation.ReflTransGen R
      (.new roundId expectedClients threshold chunkSize modelSize) rs'

section

variable {R : RoundState → RoundState → Prop} {roundId : Nat} {s s' : ServerState}

theorem RoundsFollow.of_eq (h : s'.rounds = s.rounds) : RoundsFollow R roundId s s' where
  other id _ := by rw [h]
  own rs hrs := ⟨rs, by rw [h]; exact hrs, .refl⟩
  created hnone rs' hrs' := by
    rw [h, hnone] at hrs'
    cases hrs'

theorem RoundsFollow.trans {s₁ s₂ s₃ : ServerState} (h : RoundsFollow R roundId s₁ s₂)
    (h' : RoundsFollow R roundId s₂ s₃) : RoundsFollow R roundId s₁ s₃ where
  other id hid := (h'.other id hid).trans (h.other id hid)
  own rs hrs := by
    obtain ⟨rs₂, hrs₂, hsteps⟩ := h.own rs hrs
    obtain ⟨rs₃, hrs₃, hsteps'⟩ := h'.own rs₂ hrs₂
    exact ⟨rs₃, hrs₃, hsteps.trans hsteps'⟩
  created hnone rs₃ hrs₃ := by
    cases hrs₂ : s₂.rounds.get? roundId with
    | none => exact h'.created hrs₂ rs₃ hrs₃
    | some rs₂ =>
      obtain ⟨e, t, c, m, hsteps⟩ := h.created hnone rs₂ hrs₂
      obtain ⟨rs, hrs, hsteps'⟩ := h'.own rs₂ hrs₂
      obtain rfl : rs = rs₃ := Option.some.inj (hrs.symm.trans hrs₃)
      exact ⟨e, t, c, m, hsteps.trans hsteps'⟩

theorem ServerWrite.rounds {S : Bytes → Prop} (h : ServerWrite R S roundId s s') :
    RoundsFollow R roundId s s' := by
  cases h with
  | round f h =>
    refine ⟨fun id hid => ?_, fun rs hrs => ⟨f rs, ?_, .single (h rs hrs)⟩,
      fun hnone rs' hrs' => ?_⟩
    · rw [Dict.get?_modify, if_neg hid]
    · rw [Dict.get?_modify, if_pos rfl, hrs, Option.map_some]
    · rw [Dict.get?_modify, if_pos rfl, hnone] at hrs'
      cases hrs'
  | encapsulated n => exact .of_eq rfl
  | sent writer data h => exact .of_eq rfl

theorem HandlerWrite.rounds (h : HandlerWrite roundId s s') :
    RoundsFollow RoundWrite roundId s s' := by
  cases h with
  | write h => exact h.rounds
  | connected id writer => exact .of_eq rfl
  | created e t c m h =>
    -- a round is only created where there is none
    have hnone : s.rounds.get? roundId = none := by
      rw [Dict.get?_eq_none_iff, ← Dict.contains_eq_true_iff, h]
      exact Bool.false_ne_true
    refine ⟨fun id hid => ?_, fun rs hrs => ?_, fun _ rs' hrs' => ⟨e, t, c, m, ?_⟩⟩
    · rw [Dict.get?_insert, if_neg hid]
    · rw [hnone] at hrs
      cases hrs
    · rw [Dict.get?_insert, if_pos rfl] at hrs'
      cases hrs'
      exact .refl

theorem RoundsFollow.of_chain {W : ServerState → ServerState → Prop}
    (hW : ∀ s s', W s s' → RoundsFollow R roundId s s') (h : Relation.ReflTransGen W s s') :
    RoundsFollow R roundId s s' := by
  induction h with
  | refl => exact .of_eq rfl
  | tail _ hstep ih => exact ih.trans (hW _ _ hstep)

end

/-- A handler runs through the writes of its round. -/
theorem handle_writes (env : HostEnv) {s : ServerState} (m : Message) (hkeyed : s.Keyed) :
    Relation.ReflTransGen (HandlerWrite m.header.roundId) { s with closing := m.closing }
      (s.handle env m) ∧ (s.handle env m).Keyed :=
  (dispatchMessage_follows env m.header m.payload m.writer { s with closing := m.closing }
    hkeyed).run fun _ h => h

/-- Handling a message touches the round of the message only. -/
theorem handle_rounds (env : HostEnv) {s : ServerState} (m : Message) (hkeyed : s.Keyed) :
    RoundsFollow RoundWrite m.header.roundId s (s.handle env m) := by
  have hclosing : RoundsFollow RoundWrite m.header.roundId s { s with closing := m.closing } :=
    .of_eq rfl
  exact hclosing.trans (.of_chain (fun _ _ => HandlerWrite.rounds) (handle_writes env m hkeyed).1)

theorem handleAll_keyed (env : HostEnv) {s : ServerState} (hkeyed : s.Keyed) (ms : List Message) :
    (s.handleAll env ms).Keyed := by
  induction ms generalizing s with
  | nil => exact hkeyed
  | cons m ms ih => exact ih (handle_writes env m hkeyed).2

/-! ## The invariant -/

/-- All stored chunks have `n` values. -/
def ClientState.ChunksFit (n : Nat) (c : ClientState) : Prop :=
  ∀ seq data, c.receivedChunks.get? seq = some data → data.length = n * 2

theorem ClientWrite.chunksFit {n : Nat} {c c' : ClientState} (h : ClientWrite n c c')
    (hfit : c.ChunksFit n) : c'.ChunksFit n := by
  cases h with
  | chunk seq data hlen =>
    -- the new chunk has the right length, the others stay
    exact Dict.forall_insert hfit hlen
  | publicKey key => exact hfit
  | sharedSecret secret => exact hfit
  | pairwiseSeed peerId seed => exact hfit
  | complete count => exact hfit
  | share data => exact hfit

theorem ClientWrite.completed {n : Nat} {c c' : ClientState} (h : ClientWrite n c c')
    (hdone : c.completed = true) : c'.completed = true := by
  cases h with
  | complete count => rfl
  | publicKey key => exact hdone
  | sharedSecret secret => exact hdone
  | pairwiseSeed peerId seed => exact hdone
  | chunk seq data hlen => exact hdone
  | share data => exact hdone

/-- What aggregation and the handlers rely on: a client is reported dropped once, and every stored
    chunk has the length of the round. -/
structure RoundState.WellFormed (rs : RoundState) : Prop where
  dropouts : rs.dropoutClients.Nodup
  chunks : ∀ id c, rs.clients.get? id = some c → c.ChunksFit rs.chunkSize

theorem RoundState.wellFormed_new (roundId expectedClients threshold chunkSize modelSize : Nat) :
    (RoundState.new roundId expectedClients threshold chunkSize modelSize).WellFormed where
  dropouts := List.nodup_nil
  chunks id c hc := by cases hc

theorem RoundWrite.nodup_dropouts {rs rs' : RoundState} (h : RoundWrite rs rs')
    (hnodup : rs.dropoutClients.Nodup) : rs'.dropoutClients.Nodup := by
  cases h with
  | refl => exact hnodup
  | register id h => exact hnodup
  | client id f hf h => exact hnodup
  | dropout id h =>
    have happend := hnodup.concat h
    rwa [List.concat_eq_append] at happend
  | completion h => rwa [h.dropoutClients]

theorem RoundWrite.wellFormed {rs rs' : RoundState} (h : RoundWrite rs rs') (hwf : rs.WellFormed) :
    rs'.WellFormed where
  dropouts := h.nodup_dropouts hwf.dropouts
  chunks id c' hc' := by
    rw [h.evolves.chunkSize]
    refine (h.evolves.clients.writes id c' hc').preserves (fun _ _ => ClientWrite.chunksFit) ?_
    cases hc : rs.clients.get? id with
    | none => exact fun seq data hget => nomatch hget
    | some c => exact hwf.chunks id c hc

/-- Every round of the server is well formed. -/
def ServerState.WellFormed (s : ServerState) : Prop :=
  ∀ id rs, s.rounds.get? id = some rs → rs.WellFormed

theorem ServerState.wellFormed_new : ServerState.new.WellFormed := by
  intro id rs hrs
  cases hrs

/-- Later states keep every round of earlier ones, evolved. -/
def ServerState.Evolves (s s' : ServerState) : Prop :=
  ∀ id rs, s.rounds.get? id = some rs → ∃ rs', s'.rounds.get? id = some rs' ∧ rs.Evolves rs'

theorem evolves_of_chain {rs rs' : RoundState} (h : Relation.ReflTransGen RoundWrite rs rs') :
    rs.Evolves rs' :=
  h.preserves (fun _ _ hw hrs => hrs.trans hw.evolves) (.refl rs)

/-- One message: rounds evolve. -/
theorem handle_evolves (env : HostEnv) {s : ServerState} (m : Message) (hkeyed : s.Keyed) :
    s.Evolves (s.handle env m) := by
  intro id rs hrs
  have hrounds := handle_rounds env m hkeyed
  by_cases hid : id = m.header.roundId
  · subst hid
    obtain ⟨rs', hrs', hsteps⟩ := hrounds.own rs hrs
    exact ⟨rs', hrs', evolves_of_chain hsteps⟩
  · exact ⟨rs, (hrounds.other id hid).trans hrs, .refl rs⟩

/-- One message: rounds stay well formed, and new ones are. -/
theorem handle_wellFormed (env : HostEnv) {s : ServerState} (m : Message) (hkeyed : s.Keyed)
    (h : s.WellFormed) : (s.handle env m).WellFormed := by
  intro id rs' hrs'
  have hrounds := handle_rounds env m hkeyed
  by_cases hid : id = m.header.roundId
  · subst hid
    -- a round that the message creates, or one that it writes to
    cases hrs : s.rounds.get? m.header.roundId with
    | none =>
      obtain ⟨e, t, c, n, hsteps⟩ := hrounds.created hrs rs' hrs'
      exact hsteps.preserves (fun _ _ => RoundWrite.wellFormed)
        (RoundState.wellFormed_new _ e t c n)
    | some rs =>
      obtain ⟨rs'', hrs'', hsteps⟩ := hrounds.own rs hrs
      obtain rfl : rs'' = rs' := Option.some.inj (hrs''.symm.trans hrs')
      exact hsteps.preserves (fun _ _ => RoundWrite.wellFormed) (h _ rs hrs)
  · exact h id rs' ((hrounds.other id hid).symm.trans hrs')

theorem handleAll_evolves (env : HostEnv) {s : ServerState} (hkeyed : s.Keyed)
    (ms : List Message) : s.Evolves (s.handleAll env ms) := by
  induction ms generalizing s with
  | nil => exact fun id rs hrs => ⟨rs, hrs, .refl rs⟩
  | cons m ms ih =>
    intro id rs hrs
    obtain ⟨rs₁, hrs₁, hevolves⟩ := handle_evolves env m hkeyed id rs hrs
    obtain ⟨rs₂, hrs₂, hevolves'⟩ := ih (handle_writes env m hkeyed).2 id rs₁ hrs₁
    exact ⟨rs₂, hrs₂, hevolves.trans hevolves'⟩

theorem handleAll_wellFormed (env : HostEnv) {s : ServerState} (hkeyed : s.Keyed)
    (h : s.WellFormed) (ms : List Message) : (s.handleAll env ms).WellFormed := by
  induction ms generalizing s with
  | nil => exact h
  | cons m ms ih => exact ih (handle_writes env m hkeyed).2 (handle_wellFormed env m hkeyed h)

/-- What later messages keep of every round of a server: its parameters, its reported dropouts,
    which are distinct, its clients and their completion; and all stored chunks can be unpacked. -/
def RoundsKept (s s' : ServerState) : Prop :=
  ∀ id rs, s.rounds.get? id = some rs → ∃ rs', s'.rounds.get? id = some rs' ∧
    (rs'.expectedClients = rs.expectedClients ∧ rs'.threshold = rs.threshold ∧
      rs'.chunkSize = rs.chunkSize ∧ rs'.modelSize = rs.modelSize) ∧
    (rs.dropoutClients <+: rs'.dropoutClients ∧ rs'.dropoutClients.Nodup) ∧
    (∀ clientId c, rs.clients.get? clientId = some c → ∃ c', rs'.clients.get? clientId = some c' ∧
      (c.completed = true → c'.completed = true)) ∧
    ∀ clientId c, rs'.clients.get? clientId = some c → ∀ seq data,
      c.receivedChunks.get? seq = some data → data.length = 2 * rs'.chunkSize ∧
        ∃ values, unpackChunk rs'.chunkSize data = .ok values

/-- After any messages, any further messages keep every round. -/
theorem handleAll_roundsKept (env : HostEnv) (ms ms' : List Message) :
    RoundsKept (ServerState.new.handleAll env ms) (ServerState.new.handleAll env (ms ++ ms')) := by
  intro id rs hrs
  have hwf : (ServerState.new.handleAll env (ms ++ ms')).WellFormed :=
    handleAll_wellFormed env ServerState.keyed_new ServerState.wellFormed_new _
  rw [ServerState.handleAll, List.foldl_append] at hwf ⊢
  have hkeyed : (ServerState.new.handleAll env ms).Keyed :=
    handleAll_keyed env ServerState.keyed_new ms
  -- how the round got from `rs` to `rs'`, and what holds of every reachable round
  obtain ⟨rs', hrs', hevolves⟩ := handleAll_evolves env hkeyed ms' id rs hrs
  have hwf' := hwf id rs' hrs'
  refine ⟨rs', hrs', ⟨hevolves.expectedClients, hevolves.threshold, hevolves.chunkSize,
    hevolves.modelSize⟩, ⟨hevolves.dropouts, hwf'.dropouts⟩, ?_, ?_⟩
  · intro clientId c hc
    obtain ⟨c', hc'⟩ := Dict.mem_keys_iff.mp
      (hevolves.clients.keys clientId (Dict.mem_keys_of_get? hc))
    have hget := Dict.get?_eq_some_iff.mpr hc'
    have hsteps := hevolves.clients.writes clientId c' hget
    rw [hc, Option.getD_some] at hsteps
    exact ⟨c', hget, fun hdone => hsteps.preserves (fun _ _ => ClientWrite.completed) hdone⟩
  · intro clientId c hc seq data hdata
    have hlen := hwf'.chunks clientId c hc seq data hdata
    exact ⟨by omega, _, if_pos (by omega)⟩

end SwiftAgg.Host
