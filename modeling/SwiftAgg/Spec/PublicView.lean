import SwiftAgg.ForStd.Agreement
import SwiftAgg.Spec.SeedSymmetry

/-!
# The server without its secrets

The states of servers with different key encapsulations differ in the public
keys, the shared secrets, the seeds derived from them and the ciphertexts that
were sent; `ServerState.view` is what is left. Where the clients give one server
the counterparts of the keys that they give the other, key setup takes the two
servers through the same turns.

## Key results

- `modifyClient_agrees`: assignments that do the same to the view
- `encapsulateFor_agrees`: the encapsulation for one client
- `setupKeysAndMasks_agrees`: key setup with two encapsulations
-/

namespace SwiftAgg.Host

open Coroutine

/-! ## Views -/

/-- A client without its secrets: the counterpart of its public key, whether it holds a shared
    secret, and what it has delivered. -/
structure ClientView where
  publicKey : Option Bytes
  holdsSecret : Bool
  delivery : Delivery

def ClientState.view (counterpart : Bytes → Bytes) (c : ClientState) : ClientView :=
  ⟨c.publicKey.map counterpart, truthy c.sharedSecret, c.delivery⟩

/-- A round, with views of its clients. -/
structure RoundView where
  roundId : Nat
  expectedClients : Nat
  threshold : Nat
  chunkSize : Nat
  modelSize : Nat
  clients : Dict Nat ClientView
  stage : Stage
  dropoutClients : List Nat
  unmaskedChunks : Dict Nat (List Int)

def RoundState.view (counterpart : Bytes → Bytes) (rs : RoundState) : RoundView where
  roundId := rs.roundId
  expectedClients := rs.expectedClients
  threshold := rs.threshold
  chunkSize := rs.chunkSize
  modelSize := rs.modelSize
  clients := rs.clients.map (ClientState.view counterpart)
  stage := rs.stage
  dropoutClients := rs.dropoutClients
  unmaskedChunks := rs.unmaskedChunks

/-- A message; of a KEM ciphertext the header up to its length. -/
def messageView (data : Bytes) : Bytes :=
  match parseHeader (data.take 16) with
  | .ok h => if h.messageType = 0x02 then data.take 12 else data
  | .error _ => data

/-- The messages that were written, with their writers. -/
def sentView (sent : List (Nat × Bytes)) : List (Nat × Bytes) :=
  sent.map fun p => (p.1, messageView p.2)

/-- A server, with views of its rounds and of its messages. -/
structure ServerView where
  rounds : Dict Nat RoundView
  currentRoundId : Nat
  clientWriters : Dict Nat Nat
  closing : List Nat
  sent : List (Nat × Bytes)

def ServerState.view (counterpart : Bytes → Bytes) (s : ServerState) : ServerView where
  rounds := s.rounds.map (RoundState.view counterpart)
  currentRoundId := s.currentRoundId
  clientWriters := s.clientWriters
  closing := s.closing
  sent := sentView s.sent

/-- Two states that differ in key material at most; the second server has the counterparts of the
    public keys of the first. -/
def SameView (counterpart : Bytes → Bytes) (s t : ServerState) : Prop :=
  s.view counterpart = t.view id

/-- Two libraries encapsulate to a key and to its counterpart alike: either both give a ciphertext
    that fits into a message and a secret that is not empty, or both raise the same. -/
structure HostEnv.Counterpart (env env' : HostEnv) (counterpart : Bytes → Bytes) : Prop where
  empty : ∀ key, counterpart key = [] ↔ key = []
  encapsulate : ∀ call call' key,
    (∃ ct ss ct' ss', env.encapsulate call key = .ok (ct, ss) ∧
      env'.encapsulate call' (counterpart key) = .ok (ct', ss') ∧
      (ct.length < 2 ^ 16 ∧ ss ≠ []) ∧ ct'.length < 2 ^ 16 ∧ ss' ≠ []) ∨
    ∃ e, env.encapsulate call key = .error e ∧ env'.encapsulate call' (counterpart key) = .error e

section

variable {counterpart f f' : Bytes → Bytes} {rs rs' : RoundState} {s t : ServerState}

/-- The clients of rounds with the same view, pair by pair. -/
theorem forall₂_of_view (h : rs.view f = rs'.view f') :
    List.Forall₂ (fun e e' => e.1 = e'.1 ∧ e.2.view f = e'.2.view f')
      rs.clients.entries rs'.clients.entries := by
  have hclients : rs.clients.entries.map (fun e => (e.1, e.2.view f)) =
      rs'.clients.entries.map fun e => (e.1, e.2.view f') :=
    congrArg (fun v => v.clients.entries) h
  rw [← List.forall₂_eq_eq_eq, List.forall₂_map_left_iff, List.forall₂_map_right_iff] at hclients
  exact hclients.imp fun _ _ heq => Prod.mk.inj heq

theorem keys_of_view (h : rs.view f = rs'.view f') : rs.clients.keys = rs'.clients.keys := by
  have hkeys := congrArg (fun v => v.clients.keys) h
  simpa only [RoundState.view, Dict.keys_map] using hkeys

theorem get?_of_view (h : rs.view f = rs'.view f') (id : Nat) :
    (rs.clients.get? id).map (ClientState.view f) =
      (rs'.clients.get? id).map (ClientState.view f') := by
  have hget := congrArg (fun v => v.clients.get? id) h
  simpa only [RoundState.view, Dict.get?_map] using hget

/-- The progress of a round is part of its view. -/
theorem progress_of_view (h : rs.view f = rs'.view f') : rs.progress = rs'.progress := by
  -- every field of the progress can be read off the view
  have hprogress : ∀ (rs : RoundState) (f : Bytes → Bytes), rs.progress =
      { expectedClients := (rs.view f).expectedClients
        threshold := (rs.view f).threshold
        chunkSize := (rs.view f).chunkSize
        modelSize := (rs.view f).modelSize
        deliveries := (rs.view f).clients.map ClientView.delivery
        dropouts := (rs.view f).dropoutClients } := by
    intro rs f
    have hdeliveries : rs.clients.map ClientState.delivery =
        (rs.clients.map (ClientState.view f)).map ClientView.delivery := by
      apply Dict.ext
      simp only [Dict.map, List.map_map]
      rfl
    rw [RoundState.progress, hdeliveries]
    rfl
  rw [hprogress rs f, hprogress rs' f', h]

theorem SameView.get? (h : SameView counterpart s t) (roundId : Nat) :
    (s.rounds.get? roundId).map (RoundState.view counterpart) =
      (t.rounds.get? roundId).map (RoundState.view id) := by
  have hget := congrArg (fun v => v.rounds.get? roundId) h
  simpa only [ServerState.view, Dict.get?_map] using hget

theorem SameView.clientWriters (h : SameView counterpart s t) : s.clientWriters = t.clientWriters :=
  congrArg ServerView.clientWriters h

theorem SameView.closing (h : SameView counterpart s t) : s.closing = t.closing :=
  congrArg ServerView.closing h

theorem SameView.close (h : SameView counterpart s t) (writers : List Nat) :
    SameView counterpart { s with closing := writers } { t with closing := writers } := by
  have hview := congrArg (fun v : ServerView => { v with closing := writers }) h
  exact hview

end

/-! ## Reading -/

section

variable {α α' : Type} {R : ServerState → ServerState → Prop} {Q : α → α' → Prop}
  {counterpart : Bytes → Bytes} {roundId clientId : Nat}

/-- Rounds that are read have the same view. -/
theorem getRound_agrees (hR : ∀ s t, R s t → SameView counterpart s t)
    {f : Option RoundState → Server α} {f' : Option RoundState → Server α'}
    (hnone : Agrees R Q (f none) (f' none))
    (hsome : ∀ rs rs', rs.view counterpart = rs'.view id →
      Agrees R Q (f (some rs)) (f' (some rs'))) :
    Agrees R Q (getRound roundId >>= f) (getRound roundId >>= f') := by
  intro s t hst
  have hget := (hR s t hst).get? roundId
  -- either both servers have the round or neither of them has
  have hturn : Agrees R Q (f (s.rounds.get? roundId)) (f' (t.rounds.get? roundId)) := by
    generalize s.rounds.get? roundId = round at hget ⊢
    generalize t.rounds.get? roundId = round' at hget ⊢
    cases round with
    | none =>
      cases round' with
      | none => exact hnone
      | some rs' => cases hget
    | some rs =>
      cases round' with
      | none => cases hget
      | some rs' => exact hsome rs rs' (Option.some.inj hget)
  exact (hturn s t hst).congr (advance_getRound_bind roundId f) (advance_getRound_bind roundId f')

theorem getClient_agrees (hR : ∀ s t, R s t → SameView counterpart s t)
    {f : Option ClientState → Server α} {f' : Option ClientState → Server α'}
    (hnone : Agrees R Q (f none) (f' none))
    (hsome : ∀ c c', c.view counterpart = c'.view id → Agrees R Q (f (some c)) (f' (some c'))) :
    Agrees R Q (getClient roundId clientId >>= f) (getClient roundId clientId >>= f') := by
  rw [getClient, bind_assoc, bind_assoc]
  refine getRound_agrees hR hnone fun rs rs' hview => ?_
  have hget := get?_of_view hview clientId
  rw [pure_bind, pure_bind, Option.bind_some, Option.bind_some]
  generalize rs.clients.get? clientId = c at hget ⊢
  generalize rs'.clients.get? clientId = c' at hget ⊢
  cases c with
  | none =>
    cases c' with
    | none => exact hnone
    | some c' => cases hget
  | some c =>
    cases c' with
    | none => cases hget
    | some c' => exact hsome c c' (Option.some.inj hget)

end

/-! ## Writing -/

section

variable {counterpart : Bytes → Bytes} {roundId clientId : Nat}

/-- Assignments that do the same to the view. -/
theorem update_agrees {f f' : ServerState → ServerState} (g : ServerView → ServerView)
    (hf : ∀ s, (f s).view counterpart = g (s.view counterpart))
    (hf' : ∀ s, (f' s).view id = g (s.view id)) :
    Agrees (SameView counterpart) Eq (update f : Server Unit) (update f') :=
  Agrees.update fun s t hst => by
    rw [SameView, hf, hf', show s.view counterpart = t.view id from hst]

theorem view_modifyRound {key : Bytes → Bytes} {f : RoundState → RoundState}
    {g : RoundView → RoundView} (hf : ∀ rs, (f rs).view key = g (rs.view key)) (s : ServerState) :
    { s with rounds := s.rounds.modify roundId f }.view key =
      { s.view key with rounds := (s.view key).rounds.modify roundId g } := by
  simp only [ServerState.view, Dict.map_modify s.rounds roundId hf]

/-- Assignments to a round that do the same to its view. -/
theorem modifyRound_agrees {f f' : RoundState → RoundState} (g : RoundView → RoundView)
    (hf : ∀ rs, (f rs).view counterpart = g (rs.view counterpart))
    (hf' : ∀ rs, (f' rs).view id = g (rs.view id)) :
    Agrees (SameView counterpart) Eq (modifyRound roundId f) (modifyRound roundId f') :=
  update_agrees (fun v => { v with rounds := v.rounds.modify roundId g })
    (view_modifyRound hf) (view_modifyRound hf')

theorem view_updateClient {key : Bytes → Bytes} {f : ClientState → ClientState}
    {hid : ∀ c, (f c).clientId = c.clientId} {g : ClientView → ClientView}
    (hf : ∀ c, (f c).view key = g (c.view key)) (rs : RoundState) :
    (rs.updateClient clientId f hid).view key =
      { rs.view key with clients := (rs.view key).clients.modify clientId g } := by
  simp only [RoundState.view, RoundState.updateClient, Dict.map_modify rs.clients clientId hf]

/-- Assignments to a client that do the same to its view. -/
theorem modifyClient_agrees {f f' : ClientState → ClientState}
    {hid : ∀ c, (f c).clientId = c.clientId} {hid' : ∀ c, (f' c).clientId = c.clientId}
    (g : ClientView → ClientView) (hf : ∀ c, (f c).view counterpart = g (c.view counterpart))
    (hf' : ∀ c, (f' c).view id = g (c.view id)) :
    Agrees (SameView counterpart) Eq (modifyClient roundId clientId f hid)
      (modifyClient roundId clientId f' hid') :=
  modifyRound_agrees (fun v => { v with clients := v.clients.modify clientId g })
    (view_updateClient hf) (view_updateClient hf')

/-- An assignment to a client that its view does not show. -/
theorem view_modifyClient_of_eq {key : Bytes → Bytes} {f : ClientState → ClientState}
    {hid : ∀ c, (f c).clientId = c.clientId} (hf : ∀ c, (f c).view key = c.view key)
    (s : ServerState) :
    { s with rounds := s.rounds.modify roundId fun rs => rs.updateClient clientId f hid }.view key =
      s.view key := by
  have hround : ∀ rs : RoundState, (rs.updateClient clientId f hid).view key = rs.view key := by
    intro rs
    simp only [RoundState.view, RoundState.updateClient, rs.clients.map_modify_of_eq clientId hf]
  simp only [ServerState.view, s.rounds.map_modify_of_eq roundId hround]

/-- Writing messages that differ in a ciphertext at most. -/
theorem writeAndDrain_agrees {data data' : Bytes} (writer : Nat)
    (h : messageView data = messageView data') :
    Agrees (SameView counterpart) Eq (writeAndDrain writer data)
      (writeAndDrain writer data') := by
  refine Agrees.bind (Q := Eq) (update_agrees
    (fun v => { v with sent := v.sent ++ [(writer, messageView data)] }) ?_ ?_) fun _ _ _ => ?_
  · intro s
    simp only [ServerState.view, sentView, List.map_append, List.map_singleton]
  · intro s
    simp only [ServerState.view, sentView, List.map_append, List.map_singleton, h]
  · -- when they go on, the same connections are being closed
    refine Agrees.bind (Q := Eq) Agrees.suspend fun _ _ _ => Agrees.state_bind fun s t hst => ?_
    rw [hst.closing]
    split
    · exact .raise _
    · exact .ret rfl

end

/-! ## Key setup -/

theorem truthy_some_of_ne {b : Bytes} (h : b ≠ []) : truthy (some b) = true := by
  cases b with
  | nil => exact absurd rfl h
  | cons b bs => rfl

/-- Headers of ciphertexts are built or not, whatever the ciphertext; and the messages look alike. -/
theorem ciphertextHeader_agrees (roundId : Nat) {n n' : Nat} (hn : n < 2 ^ 16)
    (hn' : n' < 2 ^ 16) :
    (∃ header header', buildHeader 0x02 roundId 0 0 n = .ok header ∧
      buildHeader 0x02 roundId 0 0 n' = .ok header' ∧
      ∀ ct ct', messageView (header ++ ct) = messageView (header' ++ ct')) ∨
    ∃ e, buildHeader 0x02 roundId 0 0 n = .error e ∧
      buildHeader 0x02 roundId 0 0 n' = .error e := by
  by_cases hround : roundId < 2 ^ 32
  · have hbuild : ∀ {n : Nat}, n < 2 ^ 16 → buildHeader 0x02 roundId 0 0 n = .ok _ :=
      fun hn => if_pos ⟨hround, by decide, by decide, by decide, hn⟩
    refine .inl ⟨_, _, hbuild hn, hbuild hn', fun ct ct' => ?_⟩
    -- the payload length comes behind the twelve bytes that are seen
    rw [messageView, parseHeader_buildHeader (hbuild hn) ct, messageView,
      parseHeader_buildHeader (hbuild hn') ct']
    rfl
  · exact .inr ⟨_, if_neg fun h => hround h.1, if_neg fun h => hround h.1⟩

/-- A seed is derived or not, whatever the hash and the secret. -/
theorem derivePairwiseMaskSeed_agrees (hmac hmac' : Hmac) (secret secret' : Bytes)
    (a b roundId : Nat) :
    (∃ seed seed', derivePairwiseMaskSeed hmac secret a b roundId = .ok seed ∧
      derivePairwiseMaskSeed hmac' secret' a b roundId = .ok seed' ∧ True) ∨
    ∃ e, derivePairwiseMaskSeed hmac secret a b roundId = .error e ∧
      derivePairwiseMaskSeed hmac' secret' a b roundId = .error e := by
  cases hids : bytesOf [a, b] with
  | error e =>
    have herror : ∀ hmac secret, derivePairwiseMaskSeed hmac secret a b roundId = .error e := by
      intro hmac secret
      rw [derivePairwiseMaskSeed, hids]
      rfl
    exact .inr ⟨e, herror _ _, herror _ _⟩
  | ok ids =>
    cases hround : toBytes4 roundId with
    | error e =>
      have herror : ∀ hmac secret, derivePairwiseMaskSeed hmac secret a b roundId = .error e := by
        intro hmac secret
        rw [derivePairwiseMaskSeed, hids, hround]
        rfl
      exact .inr ⟨e, herror _ _, herror _ _⟩
    | ok round =>
      -- the expansion to 32 bytes does not raise
      have hok : ∀ hmac secret, ∃ seed,
          derivePairwiseMaskSeed hmac secret a b roundId = .ok seed := by
        intro hmac secret
        rw [derivePairwiseMaskSeed, hids, hround]
        exact ⟨_, hkdfExpand_32 hmac _ _⟩
      obtain ⟨seed, hseed⟩ := hok hmac secret
      obtain ⟨seed', hseed'⟩ := hok hmac' secret'
      exact .inl ⟨seed, seed', hseed, hseed', trivial⟩

section

variable {env env' : HostEnv} {counterpart : Bytes → Bytes} {roundId : Nat}
  (henv : env.Counterpart env' counterpart)

section

variable {c c' : ClientState}

theorem sharedSecret_of_view (h : c.view counterpart = c'.view id) :
    truthy c'.sharedSecret = truthy c.sharedSecret :=
  (congrArg ClientView.holdsSecret h).symm

theorem publicKey_of_view (h : c.view counterpart = c'.view id) :
    c'.publicKey = c.publicKey.map counterpart := by
  have hkey := congrArg ClientView.publicKey h
  rw [ClientState.view, ClientState.view, Option.map_id] at hkey
  exact hkey.symm

include henv

/-- Both servers have a key of a client, or neither of them has. -/
theorem truthy_publicKey_of_view (h : c.view counterpart = c'.view id) :
    truthy c'.publicKey = truthy c.publicKey := by
  rw [publicKey_of_view h]
  cases c.publicKey with
  | none => rfl
  | some key =>
    show (!(counterpart key).isEmpty) = !key.isEmpty
    rw [Bool.eq_iff_iff]
    simp [henv.empty key]

theorem getD_publicKey_of_view (h : c.view counterpart = c'.view id) :
    c'.publicKey.getD [] = counterpart (c.publicKey.getD []) := by
  rw [publicKey_of_view h]
  cases c.publicKey with
  | none => exact ((henv.empty []).mpr rfl).symm
  | some key => rfl

end

include henv

theorem encapsulateFor_agrees (clientId : Nat) (key : Bytes) :
    Agrees (SameView counterpart) Eq (encapsulateFor env roundId clientId key)
      (encapsulateFor env' roundId clientId (counterpart key)) := by
  refine Agrees.state_bind fun s t _ => ?_
  -- the number of calls so far is not part of the view
  refine Agrees.bind (Q := Eq) (Agrees.update fun _ _ h => h) fun _ _ _ => ?_
  obtain ⟨ct, ss, ct', ss', hok, hok', ⟨hlen, hne⟩, hlen', hne'⟩ | ⟨e, herror, herror'⟩ :=
    henv.encapsulate s.encapsulations t.encapsulations key
  case inr =>
    rw [herror, herror']
    exact .raise e
  have hss := truthy_some_of_ne hne
  have hss' := truthy_some_of_ne hne'
  rw [hok, hok', liftExcept_ok_bind, liftExcept_ok_bind]
  -- both clients hold a secret then
  refine Agrees.bind (modifyClient_agrees (fun c => { c with holdsSecret := true })
    (fun c => ?_) fun c => ?_) fun _ _ _ => ?_
  · rw [ClientState.view, hss]
    rfl
  · rw [ClientState.view, hss']
    rfl
  refine Agrees.liftExcept_bind (ciphertextHeader_agrees roundId hlen hlen')
    fun header header' hheaders => Agrees.state_bind fun s t hst => ?_
  rw [hst.clientWriters]
  split
  · exact writeAndDrain_agrees _ (hheaders ct ct')
  · exact .ret rfl

theorem encapsulateUnlessShared_agrees (clientId : Nat) :
    Agrees (SameView counterpart) Eq (encapsulateUnlessShared env roundId clientId)
      (encapsulateUnlessShared env' roundId clientId) := by
  refine getClient_agrees (fun _ _ h => h) (.raise _) fun c c' hview => ?_
  show Agrees _ _ (if truthy c.sharedSecret then _ else _) (if truthy c'.sharedSecret then _ else _)
  rw [sharedSecret_of_view hview, getD_publicKey_of_view henv hview]
  split
  · exact .ret rfl
  · exact encapsulateFor_agrees henv clientId _

theorem setupPair_agrees (pair : Nat × Nat) :
    Agrees (SameView counterpart) Eq (setupPair env roundId pair)
      (setupPair env' roundId pair) := by
  refine getClient_agrees (fun _ _ h => h) ?_ fun a a' ha => ?_
  · refine getClient_agrees (fun _ _ h => h) (.raise _) fun b b' _ => .raise _
  refine getClient_agrees (fun _ _ h => h) (.raise _) fun b b' hb => ?_
  show Agrees _ _ (if truthy a.sharedSecret && truthy b.sharedSecret then _ else
      if truthy a.publicKey && truthy b.publicKey then _ else _)
    (if truthy a'.sharedSecret && truthy b'.sharedSecret then _ else
      if truthy a'.publicKey && truthy b'.publicKey then _ else _)
  rw [sharedSecret_of_view ha, sharedSecret_of_view hb, truthy_publicKey_of_view henv ha,
    truthy_publicKey_of_view henv hb]
  split
  · exact .ret rfl
  split
  · exact (encapsulateUnlessShared_agrees henv _).bind fun _ _ _ =>
      encapsulateUnlessShared_agrees henv _
  · exact .ret rfl

omit henv in
/-- Seeds are not part of the view. -/
theorem setSeed_agrees (clientId peerId : Nat) (seed seed' : Bytes) :
    Agrees (SameView counterpart) Eq (setSeed roundId clientId peerId seed)
      (setSeed roundId clientId peerId seed') :=
  modifyClient_agrees id (fun _ => rfl) fun _ => rfl

theorem orchestratePair_agrees (pair : Nat × Nat) :
    Agrees (SameView counterpart) Eq (orchestratePair env roundId pair)
      (orchestratePair env' roundId pair) := by
  refine getClient_agrees (fun _ _ h => h) ?_ fun a a' ha => ?_
  · refine getClient_agrees (fun _ _ h => h) (.raise _) fun b b' _ => .raise _
  refine getClient_agrees (fun _ _ h => h) (.raise _) fun b b' hb => ?_
  show Agrees _ _ (if !(truthy a.publicKey && truthy b.publicKey) then _ else
      if truthy a.sharedSecret && truthy b.sharedSecret then _ else _)
    (if !(truthy a'.publicKey && truthy b'.publicKey) then _ else
      if truthy a'.sharedSecret && truthy b'.sharedSecret then _ else _)
  rw [sharedSecret_of_view ha, sharedSecret_of_view hb, truthy_publicKey_of_view henv ha,
    truthy_publicKey_of_view henv hb]
  split
  · exact .ret rfl
  split
  · exact .ret rfl
  refine (encapsulateUnlessShared_agrees henv _).bind fun _ _ _ => ?_
  refine (encapsulateUnlessShared_agrees henv _).bind fun _ _ _ => ?_
  refine getClient_agrees (fun _ _ h => h) ?_ fun i i' hi => ?_
  · refine getClient_agrees (fun _ _ h => h) (.raise _) fun r r' _ => .raise _
  refine getClient_agrees (fun _ _ h => h) (.raise _) fun r r' hr => ?_
  show Agrees _ _ (if truthy i.sharedSecret && truthy r.sharedSecret then _ else _)
    (if truthy i'.sharedSecret && truthy r'.sharedSecret then _ else _)
  rw [sharedSecret_of_view hi, sharedSecret_of_view hr]
  split
  · refine Agrees.liftExcept_bind (derivePairwiseMaskSeed_agrees _ _ _ _ _ _ _)
      fun seed seed' _ => ?_
    exact (setSeed_agrees _ _ _ _).bind fun _ _ _ => setSeed_agrees _ _ _ _
  · exact .ret rfl

omit henv in
theorem deriveSeeds_agrees {rs rs' : RoundState} (hview : rs.view counterpart = rs'.view id)
    {client client' : Nat × ClientState}
    (hclient : client.1 = client'.1 ∧ client.2.view counterpart = client'.2.view id) :
    Agrees (SameView counterpart) Eq (deriveSeeds env roundId rs client)
      (deriveSeeds env' roundId rs' client') := by
  obtain ⟨hid, hclient⟩ := hclient
  unfold deriveSeeds
  rw [sharedSecret_of_view hclient, hid,
    show rs.roundId = rs'.roundId from congrArg RoundView.roundId hview]
  split
  · refine Agrees.forM (forall₂_of_view hview) fun peer peer' hpeer => ?_
    rw [hpeer.1, sharedSecret_of_view hpeer.2]
    split
    · refine Agrees.liftExcept_bind (derivePairwiseMaskSeed_agrees _ _ _ _ _ _ _)
        fun seed seed' _ => setSeed_agrees _ _ _ _
    · exact .ret rfl
  · exact .ret rfl

omit henv in
/-- The loops over pairs run over the same pairs. -/
theorem forPairs_agrees {body body' : Nat × Nat → Server PUnit}
    (hbody : ∀ pair, Agrees (SameView counterpart) Eq (body pair) (body' pair))
    {g g' : Unit → Server Unit}
    (hg : Agrees (SameView counterpart) Eq (g ()) (g' ())) :
    Agrees (SameView counterpart) Eq
      (getRound roundId >>= fun round =>
        (idPairs ((round.map fun rs => rs.clients.keys).getD [])).forM body >>= g)
      (getRound roundId >>= fun round =>
        (idPairs ((round.map fun rs => rs.clients.keys).getD [])).forM body' >>= g') := by
  have hloop : ∀ ids : List Nat, Agrees (SameView counterpart) Eq ((idPairs ids).forM body >>= g)
      ((idPairs ids).forM body' >>= g') := by
    intro ids
    refine Agrees.bind (Q := Eq) (Agrees.forM (P := Eq) (List.forall₂_refl _) ?_) fun _ _ _ => hg
    rintro pair _ rfl
    exact hbody pair
  refine getRound_agrees (fun _ _ h => h) (hloop []) fun rs rs' hview => ?_
  rw [Option.map_some, Option.map_some, keys_of_view hview]
  exact hloop _

/-- Key setup with two encapsulations. -/
theorem setupKeysAndMasks_agrees :
    Agrees (SameView counterpart) Eq (setupKeysAndMasks env roundId)
      (setupKeysAndMasks env' roundId) := by
  unfold setupKeysAndMasks
  refine Agrees.bind (Q := Eq) (Agrees.forPositions (fun s t hst => ?_) fun i => ?_) fun _ _ _ => ?_
  · have hget := hst.get? roundId
    have hlength : ∀ (s : ServerState) (f : Bytes → Bytes),
        ((s.rounds.get? roundId).map fun rs => rs.clients.entries.length) =
          ((s.rounds.get? roundId).map (RoundState.view f)).map
            fun v => v.clients.entries.length := by
      intro s f
      rw [Option.map_map]
      congr 1
      funext rs
      exact (List.length_map _).symm
    rw [hlength s, hlength t, hget]
  · refine getRound_agrees (fun _ _ h => h) (.ret rfl) fun rs rs' hview => ?_
    have hentry := (forall₂_of_view hview).getElem? i
    rw [Option.bind_some, Option.bind_some]
    generalize rs.clients.entries[i]? = entry at hentry ⊢
    generalize rs'.clients.entries[i]? = entry' at hentry ⊢
    cases hentry with
    | none => exact .ret rfl
    | @some e e' he =>
      obtain ⟨hid, hclient⟩ := he
      show Agrees _ _ (if truthy e.2.publicKey && !truthy e.2.sharedSecret then _ else _)
        (if truthy e'.2.publicKey && !truthy e'.2.sharedSecret then _ else _)
      rw [truthy_publicKey_of_view henv hclient, sharedSecret_of_view hclient,
        getD_publicKey_of_view henv hclient, hid]
      split
      · exact encapsulateFor_agrees henv _ _
      · exact .ret rfl
  refine forPairs_agrees (setupPair_agrees henv) ?_
  refine Agrees.bind (Q := Eq) ?_ fun _ _ _ => ?_
  · have hpairs : Agrees (SameView counterpart) Eq
        (orchestratePairwiseKem env roundId >>= pure)
        (orchestratePairwiseKem env' roundId >>= pure) := by
      unfold orchestratePairwiseKem
      simp only [bind_assoc]
      exact forPairs_agrees (orchestratePair_agrees henv) (.ret rfl)
    rwa [bind_pure, bind_pure] at hpairs
  refine getRound_agrees (fun _ _ h => h) (.ret rfl) fun rs rs' hview => ?_
  refine Agrees.bind (Q := Eq) (Agrees.forM (forall₂_of_view hview) fun client client' hclient =>
    deriveSeeds_agrees hview hclient) fun _ _ _ => ?_
  exact modifyRound_agrees (fun v => { v with stage := .maskSetup }) (fun _ => rfl) fun _ => rfl

end

end SwiftAgg.Host
