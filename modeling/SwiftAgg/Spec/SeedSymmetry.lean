import SwiftAgg.Spec.OrderIndependence

/-!
# The server's pairwise seeds

Key setup gives every client with a public key a secret of its own, unless it
holds one. After that the loops over pairs find nothing to do, and the last loop
derives the seed of each direction from the secret of the client in whose table
it is stored. So the two directions of a pair get the same seed exactly if the
two secrets derive the same, which for every keyed hash means that they are
equal.

## Key results

- `visitClients_run`: the secrets that the first loop leaves behind
- `setupPair_settled`, `orchestratePair_settled`: the loops over pairs change nothing
- `deriveAll_run`: the seeds that the last loop stores
- `setupKeysAndMasks_symmetric_iff`: when the seeds are symmetric
-/

namespace SwiftAgg.Host

open Coroutine

/-- The seed of each pair of clients that hold a shared secret is the same in both tables. -/
def SeedsSymmetric (clients : Dict Nat ClientState) : Prop :=
  ∀ a b ca cb, a ≠ b → clients.get? a = some ca → clients.get? b = some cb →
    truthy ca.sharedSecret → truthy cb.sharedSecret →
    ca.pairwiseSeeds.get? b = cb.pairwiseSeeds.get? a

/-- The secret that a client holds, with its id. -/
def heldSecret (client : Nat × ClientState) : Option (Nat × Bytes) :=
  if truthy client.2.sharedSecret then some (client.1, client.2.sharedSecret.getD []) else none

/-- The secrets that clients hold once every client with a public key has one: those that they held
    before, and those that the next calls of `_encapsulate` return for the others, in turn. -/
def heldSecrets (encapsulate : Nat → Bytes → Except PyErr (Bytes × Bytes)) :
    (call : Nat) → List (Nat × ClientState) → List (Nat × Bytes)
  | _, [] => []
  | call, (id, c) :: rest =>
    if truthy c.sharedSecret then (id, c.sharedSecret.getD []) :: heldSecrets encapsulate call rest
    else if truthy c.publicKey then
      match encapsulate call (c.publicKey.getD []) with
      | .ok (_, ss) => (id, ss) :: heldSecrets encapsulate (call + 1) rest
      | .error _ => []
    else heldSecrets encapsulate call rest

/-- `HKDF` with a length of 32 does not return an empty secret. -/
def HostEnv.SecretsNonempty (env : HostEnv) : Prop :=
  ∀ call key ct ss, env.encapsulate call key = .ok (ct, ss) → ss ≠ []

/-- A client with a public key holds a shared secret. -/
def ClientState.Settled (c : ClientState) : Prop := truthy c.publicKey → truthy c.sharedSecret

/-- No client of the round needs a secret. -/
def RoundState.Settled (rs : RoundState) : Prop := ∀ e ∈ rs.clients.entries, e.2.Settled

section

variable {env : HostEnv} {roundId : Nat} {s s' : ServerState} {rs : RoundState}

/-! ## The first loop -/

/-- One position of the first loop of `_setup_keys_and_masks`. -/
def visitClient (env : HostEnv) (roundId i : Nat) : Server Unit := do
  match (← getRound roundId).bind fun rs => rs.clients.entries[i]? with
  | some (clientId, c) =>
    if truthy c.publicKey && !truthy c.sharedSecret then
      encapsulateFor env roundId clientId (c.publicKey.getD [])
    else return
  | none => return

/-- A message that was written and waited for changes what was sent, and nothing else. -/
theorem writeAndDrain_run {writer : Nat} {data : Bytes}
    (h : (writeAndDrain writer data).run s = (.ok (), s')) :
    s' = { s with sent := s.sent ++ [(writer, data)] } := by
  have hrun : (writeAndDrain writer data).run s =
      (if writer ∈ s.closing then raise .connectionResetError else pure () : Server Unit).run
        { s with sent := s.sent ++ [(writer, data)] } := rfl
  rw [hrun] at h
  split at h
  · cases h
  · cases h
    rfl

/-- A client that gets a secret gets that of the next call. -/
theorem encapsulateFor_run {clientId : Nat} {key : Bytes}
    (h : (encapsulateFor env roundId clientId key).run s = (.ok (), s')) : ∃ ct ss,
    env.encapsulate s.encapsulations key = .ok (ct, ss) ∧
      s'.encapsulations = s.encapsulations + 1 ∧
      s'.rounds = s.rounds.modify roundId fun rs => rs.setSharedSecret clientId ss := by
  unfold encapsulateFor at h
  obtain ⟨_, s₁, hstate, h⟩ := run_bind_eq_ok.mp h
  cases hstate
  obtain ⟨_, s₂, hcount, h⟩ := run_bind_eq_ok.mp h
  cases hcount
  obtain ⟨⟨ct, ss⟩, s₃, hlift, h⟩ := run_bind_eq_ok.mp h
  obtain ⟨hencapsulate, rfl⟩ := run_liftExcept_eq_ok hlift
  obtain ⟨_, s₄, hsecret, h⟩ := run_bind_eq_ok.mp h
  cases hsecret
  obtain ⟨_, s₅, hheader, h⟩ := run_bind_eq_ok.mp h
  obtain ⟨-, rfl⟩ := run_liftExcept_eq_ok hheader
  obtain ⟨_, s₆, hstate, h⟩ := run_bind_eq_ok.mp h
  cases hstate
  refine ⟨ct, ss, hencapsulate, ?_⟩
  -- the message does not change the rounds
  split at h
  · rw [writeAndDrain_run h]
    exact ⟨rfl, rfl⟩
  · cases h
    exact ⟨rfl, rfl⟩

theorem heldSecret_eq_some {id : Nat} {c : ClientState} (h : truthy c.sharedSecret) :
    heldSecret (id, c) = some (id, c.sharedSecret.getD []) := if_pos h

theorem heldSecret_eq_none {id : Nat} {c : ClientState} (h : ¬truthy c.sharedSecret) :
    heldSecret (id, c) = none := if_neg h

/-- A visit settles its client, and the secret that it holds then is the next one. -/
theorem visitClient_run (hsecrets : env.SecretsNonempty) {front rest : List (Nat × ClientState)}
    {id : Nat} {c : ClientState} (hrs : s.rounds.get? roundId = some rs)
    (hentries : rs.clients.entries = front ++ (id, c) :: rest)
    (h : (visitClient env roundId front.length).run s = (.ok (), s')) :
    ∃ rs' c', s'.rounds.get? roundId = some rs' ∧ rs'.roundId = rs.roundId ∧
      rs'.clients.entries = front ++ (id, c') :: rest ∧ c'.Settled ∧
      heldSecrets env.encapsulate s.encapsulations ((id, c) :: rest) =
        (heldSecret (id, c')).toList ++ heldSecrets env.encapsulate s'.encapsulations rest := by
  have hvisited : rs.clients.entries[front.length]? = some (id, c) := by
    rw [hentries, List.getElem?_append_right (Nat.le_refl _), Nat.sub_self]
    rfl
  unfold visitClient at h
  obtain ⟨_, s₁, hround, h⟩ := run_bind_eq_ok.mp h
  cases hround
  rw [hrs, Option.bind_some, hvisited] at h
  dsimp only at h
  by_cases hheld : truthy c.sharedSecret = true
  · rw [if_neg (by simp [hheld])] at h
    cases h
    refine ⟨rs, c, hrs, rfl, hentries, fun _ => hheld, ?_⟩
    rw [heldSecrets, if_pos hheld, heldSecret_eq_some hheld]
    rfl
  by_cases hkey : truthy c.publicKey = true
  · rw [if_pos (by simp [hheld, hkey])] at h
    obtain ⟨ct, ss, hencapsulate, hcalls, hrounds⟩ := encapsulateFor_run h
    have hss : truthy (some ss) = true := by
      simpa [truthy] using hsecrets _ _ ct ss hencapsulate
    refine ⟨rs.setSharedSecret id ss, { c with sharedSecret := some ss }, ?_, rfl,
      Dict.entries_modify_append _ hentries, fun _ => hss, ?_⟩
    · rw [hrounds, Dict.get?_modify, if_pos rfl, hrs, Option.map_some]
    · rw [heldSecrets, if_neg hheld, if_pos hkey, hcalls, heldSecret_eq_some hss]
      simp only [hencapsulate]
      rfl
  · rw [if_neg (by simp [hkey])] at h
    cases h
    refine ⟨rs, c, hrs, rfl, hentries, fun hkey' => absurd hkey' hkey, ?_⟩
    rw [heldSecrets, if_neg hheld, if_neg hkey, heldSecret_eq_none hheld]
    rfl

/-- The first loop from a position on: the clients that it still visits are settled in the end. -/
theorem visitClients_run (hsecrets : env.SecretsNonempty) {front rest : List (Nat × ClientState)}
    {i : Nat} (hi : i = front.length) (hrs : s.rounds.get? roundId = some rs)
    (hentries : rs.clients.entries = front ++ rest)
    (h : ((List.range' i rest.length).forM (visitClient env roundId)).run s = (.ok ⟨⟩, s')) :
    ∃ rs' settled, s'.rounds.get? roundId = some rs' ∧ rs'.roundId = rs.roundId ∧
      rs'.clients.entries = front ++ settled ∧ (∀ e ∈ settled, e.2.Settled) ∧
      heldSecrets env.encapsulate s.encapsulations rest = settled.filterMap heldSecret := by
  induction rest generalizing i front s rs with
  | nil =>
    cases h
    exact ⟨rs, [], hrs, rfl, hentries, fun e he => absurd he List.not_mem_nil, rfl⟩
  | cons e rest ih =>
    obtain ⟨s₁, hvisit, hrest⟩ := run_forM_cons h
    subst hi
    obtain ⟨rs₁, c₁, hrs₁, hid₁, hentries₁, hsettled, hheld⟩ :=
      visitClient_run hsecrets hrs hentries hvisit
    rw [List.append_cons] at hentries₁
    obtain ⟨rs', settled, hrs', hid, hentries', hall, hheld'⟩ :=
      ih (List.length_append ..).symm hrs₁ hentries₁ hrest
    refine ⟨rs', (e.1, c₁) :: settled, hrs', hid.trans hid₁, ?_, ?_, ?_⟩
    · rw [hentries', ← List.append_cons]
    · exact List.forall_mem_cons.mpr ⟨hsettled, hall⟩
    · rw [hheld, hheld', List.filterMap_cons]
      cases heldSecret (e.1, c₁) <;> rfl

/-! ## The loops over pairs -/

theorem RoundState.Settled.truthy_secret (h : rs.Settled) {id : Nat} {c : ClientState}
    (hc : rs.clients.get? id = some c) (hkey : truthy c.publicKey) : truthy c.sharedSecret :=
  h (id, c) (Dict.get?_eq_some_iff.mp hc) hkey

/-- A pair with public keys holds secrets. -/
theorem RoundState.Settled.truthy_pair (h : rs.Settled) {i j : Nat} {a b : ClientState}
    (ha : rs.clients.get? i = some a) (hb : rs.clients.get? j = some b)
    (hkeys : (truthy a.publicKey && truthy b.publicKey) = true) :
    (truthy a.sharedSecret && truthy b.sharedSecret) = true := by
  obtain ⟨hakey, hbkey⟩ := (Bool.and_eq_true _ _).mp hkeys
  exact (Bool.and_eq_true _ _).mpr ⟨h.truthy_secret ha hakey, h.truthy_secret hb hbkey⟩

theorem run_getClient_bind {α : Type} (roundId clientId : Nat) (s : ServerState)
    (f : Option ClientState → Server α) : (getClient roundId clientId >>= f).run s =
      (f ((s.rounds.get? roundId).bind fun rs => rs.clients.get? clientId)).run s := rfl

/-- Two clients with public keys hold secrets, so the second loop skips their pair. -/
theorem setupPair_settled (hrs : s.rounds.get? roundId = some rs) (hsettled : rs.Settled)
    {pair : Nat × Nat} (h : (setupPair env roundId pair).run s = (.ok ⟨⟩, s')) : s' = s := by
  rw [setupPair, run_getClient_bind, run_getClient_bind, hrs, Option.bind_some,
    Option.bind_some] at h
  split at h
  · rename_i a b ha hb
    split at h
    · cases h
      rfl
    · rename_i hskip
      rw [if_neg] at h
      · cases h
        rfl
      · exact fun hkeys => hskip (hsettled.truthy_pair ha hb hkeys)
  · cases h
  · cases h

/-- So does `_orchestrate_pairwise_kem`, and derives no seed. -/
theorem orchestratePair_settled (hrs : s.rounds.get? roundId = some rs) (hsettled : rs.Settled)
    {pair : Nat × Nat} (h : (orchestratePair env roundId pair).run s = (.ok ⟨⟩, s')) : s' = s := by
  rw [orchestratePair, run_getClient_bind, run_getClient_bind, hrs, Option.bind_some,
    Option.bind_some] at h
  split at h
  · rename_i a b ha hb
    split at h
    · cases h
      rfl
    · rename_i hkeys
      rw [if_pos] at h
      · cases h
        rfl
      · exact hsettled.truthy_pair ha hb (by simpa using hkeys)
  · cases h
  · cases h

end

/-! ## The derivation -/

section

variable {env : HostEnv} {s s' : ServerState} {rs : RoundState}

/-- The round is still there, with the secrets of `rs`. -/
def SameSecrets (rs : RoundState) (s : ServerState) : Prop :=
  ∃ rs', s.rounds.get? rs.roundId = some rs' ∧ rs'.roundId = rs.roundId ∧
    rs'.clients.map ClientState.sharedSecret = rs.clients.map ClientState.sharedSecret

/-- The seed that `client` derives for a peer. -/
def deriveSeed (env : HostEnv) (roundId : Nat) (client : Nat × ClientState) (peer : Nat) :
    Except PyErr Bytes :=
  derivePairwiseMaskSeed env.hmac (client.2.sharedSecret.getD []) (min client.1 peer)
    (max client.1 peer) roundId

/-- The table of `client` holds the seed that it derives for a peer. -/
def SeedStored (env : HostEnv) (rs : RoundState) (client : Nat × ClientState) (peer : Nat)
    (s : ServerState) : Prop :=
  ∃ rs' c' seed, s.rounds.get? rs.roundId = some rs' ∧ rs'.clients.get? client.1 = some c' ∧
    deriveSeed env rs.roundId client peer = .ok seed ∧ c'.pairwiseSeeds.get? peer = some seed

/-- A client with one more seed. -/
def ClientState.withSeed (c : ClientState) (peer : Nat) (seed : Bytes) : ClientState :=
  { c with pairwiseSeeds := c.pairwiseSeeds.insert peer seed }

/-- Storing a derived seed keeps the secrets, and it replaces no seed but by the same one. -/
theorem setSeed_run {client : Nat × ClientState} {peer : Nat} {seed : Bytes}
    (hs : SameSecrets rs s) (hclient : client ∈ rs.clients.entries)
    (hseed : deriveSeed env rs.roundId client peer = .ok seed)
    (h : (setSeed rs.roundId client.1 peer seed).run s = (.ok (), s')) :
    SameSecrets rs s' ∧ SeedStored env rs client peer s' ∧
      ∀ client' ∈ rs.clients.entries, ∀ peer', SeedStored env rs client' peer' s →
        SeedStored env rs client' peer' s' := by
  obtain ⟨rs₁, hrs₁, hid, hsame⟩ := hs
  have hrs₂ : s'.rounds.get? rs.roundId =
      some (rs₁.updateClient client.1 (·.withSeed peer seed) fun _ => rfl) := by
    cases h
    show (s.rounds.modify _ _).get? _ = _
    rw [Dict.get?_modify, if_pos rfl, hrs₁, Option.map_some]
    rfl
  have hget : ∀ id, (rs₁.clients.modify client.1 (·.withSeed peer seed)).get? id =
      if id = client.1 then (rs₁.clients.get? id).map (·.withSeed peer seed)
      else rs₁.clients.get? id := fun id => Dict.get?_modify ..
  have hkept : (rs₁.clients.modify client.1 (·.withSeed peer seed)).map ClientState.sharedSecret =
      rs₁.clients.map ClientState.sharedSecret := Dict.map_modify_of_eq _ _ fun _ => rfl
  refine ⟨⟨_, hrs₂, hid, hkept.trans hsame⟩, ?_, ?_⟩
  · -- the client of `rs` is still registered
    have hmem : client.1 ∈ rs₁.clients.keys := by
      rw [← Dict.keys_map rs₁.clients ClientState.sharedSecret, hsame, Dict.keys_map]
      exact List.mem_map_of_mem hclient
    obtain ⟨c₁, hc₁⟩ := Dict.mem_keys_iff.mp hmem
    refine ⟨_, c₁.withSeed peer seed, seed, hrs₂, (hget client.1).trans ?_, hseed, ?_⟩
    · rw [if_pos rfl, Dict.get?_eq_some_iff.mpr hc₁, Option.map_some]
    · rw [ClientState.withSeed, Dict.get?_insert, if_pos rfl]
  · rintro client' hclient' peer' ⟨rs'', c', seed', hrs'', hc', hseed', hstored⟩
    obtain rfl : rs₁ = rs'' := Option.some.inj (hrs₁.symm.trans hrs'')
    by_cases hsameClient : client'.1 = client.1
    · obtain rfl : client' = client := by
        have hget' := Dict.get?_eq_some_iff.mpr hclient'
        rw [hsameClient, Dict.get?_eq_some_iff.mpr hclient] at hget'
        exact Prod.ext hsameClient (Option.some.inj hget').symm
      refine ⟨_, c'.withSeed peer seed, seed', hrs₂, (hget client'.1).trans ?_, hseed', ?_⟩
      · rw [if_pos rfl, hc', Option.map_some]
      · rw [ClientState.withSeed, Dict.get?_insert]
        split
        · rename_i hpeer
          subst hpeer
          rw [Except.ok.inj (hseed.symm.trans hseed')]
        · exact hstored
    · refine ⟨_, c', seed', hrs₂, (hget client'.1).trans ?_, hseed', hstored⟩
      rw [if_neg hsameClient, hc']

/-- One step of the last loop for one client: it stores the seed with a peer that holds a secret,
    and keeps what is stored. -/
theorem derivePeer_run {client peer : Nat × ClientState} (hs : SameSecrets rs s)
    (hclient : client ∈ rs.clients.entries)
    (h : (if peer.1 ≠ client.1 && truthy peer.2.sharedSecret then do
        let seed ← Coroutine.liftExcept (deriveSeed env rs.roundId client peer.1)
        setSeed rs.roundId client.1 peer.1 seed
      else pure () : Server Unit).run s = (.ok (), s')) :
    SameSecrets rs s' ∧
      (peer.1 ≠ client.1 → truthy peer.2.sharedSecret → SeedStored env rs client peer.1 s') ∧
      ∀ client' ∈ rs.clients.entries, ∀ peer', SeedStored env rs client' peer' s →
        SeedStored env rs client' peer' s' := by
  split at h
  · obtain ⟨seed, s₁, hlift, hset⟩ := run_bind_eq_ok.mp h
    obtain ⟨hseed, rfl⟩ := run_liftExcept_eq_ok hlift
    obtain ⟨hs', hstored, hkeep⟩ := setSeed_run hs hclient hseed hset
    exact ⟨hs', fun _ _ => hstored, hkeep⟩
  · rename_i hskip
    cases h
    refine ⟨hs, fun hne hsecret => absurd ?_ hskip, fun _ _ _ hstored => hstored⟩
    simp [hne, hsecret]

/-- One client of the last loop. -/
theorem deriveSeeds_run {client : Nat × ClientState} (hs : SameSecrets rs s)
    (hclient : client ∈ rs.clients.entries)
    (h : (deriveSeeds env rs.roundId rs client).run s = (.ok (), s')) :
    SameSecrets rs s' ∧
      (truthy client.2.sharedSecret → ∀ peer ∈ rs.clients.entries, peer.1 ≠ client.1 →
        truthy peer.2.sharedSecret → SeedStored env rs client peer.1 s') ∧
      ∀ client' ∈ rs.clients.entries, ∀ peer', SeedStored env rs client' peer' s →
        SeedStored env rs client' peer' s' := by
  unfold deriveSeeds at h
  split at h
  · refine ⟨?_, ?_, ?_⟩
    · exact run_forM_invariant (SameSecrets rs)
        (fun peer _ s s' hs h => (derivePeer_run hs hclient h).1) hs h
    · intro _ peer hpeer hne hsecret
      refine run_forM_reaches (SameSecrets rs) (SeedStored env rs client peer.1)
        (fun peer' _ s s' hs h => ?_) hpeer (fun s s' hs h => ?_) hs h
      · obtain ⟨hs', -, hkeep⟩ := derivePeer_run hs hclient h
        exact ⟨hs', hkeep client hclient peer.1⟩
      · exact (derivePeer_run hs hclient h).2.1 hne hsecret
    · intro client' hclient' peer' hstored
      refine (run_forM_invariant (fun s => SameSecrets rs s ∧ SeedStored env rs client' peer' s)
        (fun peer _ s s' hs h => ?_) ⟨hs, hstored⟩ h).2
      obtain ⟨hs', -, hkeep⟩ := derivePeer_run hs.1 hclient h
      exact ⟨hs', hkeep client' hclient' peer' hs.2⟩
  · rename_i hnone
    cases h
    exact ⟨hs, fun hsecret => absurd hsecret hnone, fun _ _ _ hstored => hstored⟩

/-- The last loop: every client that holds a secret has a seed with each of its peers. -/
theorem deriveAll_run (hs : SameSecrets rs s)
    (h : (rs.clients.entries.forM (deriveSeeds env rs.roundId rs)).run s = (.ok ⟨⟩, s')) :
    SameSecrets rs s' ∧ ∀ client ∈ rs.clients.entries, ∀ peer ∈ rs.clients.entries,
      peer.1 ≠ client.1 → truthy client.2.sharedSecret → truthy peer.2.sharedSecret →
        SeedStored env rs client peer.1 s' := by
  refine ⟨run_forM_invariant (SameSecrets rs)
    (fun client hclient s s' hs h => (deriveSeeds_run hs hclient h).1) hs h, ?_⟩
  intro client hclient peer hpeer hne hsecret hpeerSecret
  refine run_forM_reaches (SameSecrets rs) (SeedStored env rs client peer.1)
    (fun client' hclient' s s' hs h => ?_) hclient (fun s s' hs h => ?_) hs h
  · obtain ⟨hs', -, hkeep⟩ := deriveSeeds_run hs hclient' h
    exact ⟨hs', hkeep client hclient peer.1⟩
  · exact (deriveSeeds_run hs hclient h).2.1 hsecret peer hpeer hne hpeerSecret

/-! ## Key setup -/

/-- What holds of a round after key setup: the clients hold these secrets, and each has a seed with
    each other, derived from its own secret. -/
structure KeysSetUp (env : HostEnv) (held : List (Nat × Bytes)) (rs : RoundState) : Prop where
  mem_iff : ∀ id secret, (id, secret) ∈ held ↔ ∃ c, rs.clients.get? id = some c ∧
    truthy c.sharedSecret ∧ c.sharedSecret.getD [] = secret
  seed : ∀ a b ca cb, a ≠ b → rs.clients.get? a = some ca → rs.clients.get? b = some cb →
    truthy ca.sharedSecret → truthy cb.sharedSecret → ∃ seed,
      deriveSeed env rs.roundId (a, ca) b = .ok seed ∧ ca.pairwiseSeeds.get? b = some seed

theorem mem_filterMap_heldSecret {clients : Dict Nat ClientState} {id : Nat} {secret : Bytes} :
    (id, secret) ∈ clients.entries.filterMap heldSecret ↔ ∃ c, clients.get? id = some c ∧
      truthy c.sharedSecret ∧ c.sharedSecret.getD [] = secret := by
  rw [List.mem_filterMap]
  constructor
  · rintro ⟨⟨id', c⟩, he, hheld⟩
    unfold heldSecret at hheld
    split at hheld
    · rename_i hsecret
      cases hheld
      exact ⟨c, Dict.get?_eq_some_iff.mpr he, hsecret, rfl⟩
    · cases hheld
  · rintro ⟨c, hc, hsecret, rfl⟩
    exact ⟨(id, c), Dict.get?_eq_some_iff.mp hc, heldSecret_eq_some hsecret⟩

/-- The last two steps of key setup, in a round whose clients are settled. -/
theorem deriveAll_keysSetUp (hrs : s.rounds.get? rs.roundId = some rs)
    (h : (rs.clients.entries.forM (deriveSeeds env rs.roundId rs)).run s = (.ok ⟨⟩, s')) :
    ∃ rs', s'.rounds.get? rs.roundId = some rs' ∧
      KeysSetUp env (rs.clients.entries.filterMap heldSecret) rs' := by
  obtain ⟨⟨rs', hrs', hid, hsame⟩, hstored⟩ := deriveAll_run ⟨rs, hrs, rfl, rfl⟩ h
  -- the secrets of `rs` are those of the round in the end
  have hsecret : ∀ id, (rs'.clients.get? id).map ClientState.sharedSecret =
      (rs.clients.get? id).map ClientState.sharedSecret := by
    intro id
    rw [← Dict.get?_map, hsame, Dict.get?_map]
  have hclient : ∀ id c', rs'.clients.get? id = some c' → ∃ c, rs.clients.get? id = some c ∧
      c.sharedSecret = c'.sharedSecret := by
    intro id c' hc'
    have h := hsecret id
    rw [hc', Option.map_some] at h
    obtain ⟨c, hc, heq⟩ := Option.map_eq_some_iff.mp h.symm
    exact ⟨c, hc, heq⟩
  refine ⟨rs', hrs', ?_, ?_⟩
  · intro id secret
    rw [mem_filterMap_heldSecret]
    constructor
    · rintro ⟨c, hc, htruthy, heq⟩
      have h := hsecret id
      rw [hc, Option.map_some] at h
      obtain ⟨c', hc', hsecret'⟩ := Option.map_eq_some_iff.mp h
      exact ⟨c', hc', hsecret' ▸ htruthy, hsecret' ▸ heq⟩
    · rintro ⟨c', hc', htruthy, heq⟩
      obtain ⟨c, hc, hsecret'⟩ := hclient id c' hc'
      exact ⟨c, hc, hsecret' ▸ htruthy, hsecret' ▸ heq⟩
  · intro a b ca' cb' hne hca' hcb' hta htb
    obtain ⟨ca, hca, hsa⟩ := hclient a ca' hca'
    obtain ⟨cb, hcb, hsb⟩ := hclient b cb' hcb'
    obtain ⟨rs'', c'', seed, hrs'', hc'', hseed, hget⟩ := hstored (a, ca)
      (Dict.get?_eq_some_iff.mp hca) (b, cb) (Dict.get?_eq_some_iff.mp hcb) hne.symm
      (hsa ▸ hta) (hsb ▸ htb)
    obtain rfl : rs' = rs'' := Option.some.inj (hrs'.symm.trans hrs'')
    obtain rfl : ca' = c'' := Option.some.inj (hca'.symm.trans hc'')
    refine ⟨seed, ?_, hget⟩
    rw [deriveSeed, ← hsa, hid]
    exact hseed

variable (env) in
/-- What `_setup_keys_and_masks` does if it returns. -/
theorem setupKeysAndMasks_keysSetUp (hsecrets : env.SecretsNonempty)
    (hrs : s.rounds.get? rs.roundId = some rs)
    (h : (setupKeysAndMasks env rs.roundId).run s = (.ok (), s')) :
    ∃ rs', s'.rounds.get? rs.roundId = some rs' ∧
      KeysSetUp env (heldSecrets env.encapsulate s.encapsulations rs.clients.entries) rs' := by
  unfold setupKeysAndMasks at h
  obtain ⟨_, s₁, hpositions, hloops⟩ := run_bind_eq_ok.mp h
  have hvisits := run_forPositions_eq_ok hpositions
  rw [hrs, Option.map_some, Option.getD_some, List.range_eq_range'] at hvisits
  obtain ⟨rs₁, settled, hrs₁, hid, hentries, hall, hheld⟩ :=
    visitClients_run hsecrets List.length_nil.symm hrs (List.nil_append _).symm hvisits
  rw [List.nil_append] at hentries
  have hsettled : rs₁.Settled := fun e he => hall e (hentries ▸ he)
  rw [hheld, ← hentries, ← hid]
  rw [← hid] at hloops hrs₁
  -- nothing happens in the loops over pairs
  obtain ⟨_, _, hround, hloops⟩ := run_bind_eq_ok.mp hloops
  cases hround
  obtain ⟨_, s₂, hpairs, hlast⟩ := run_bind_eq_ok.mp hloops
  have hs₂ : s₂ = s₁ :=
    run_forM_unchanged (fun _ _ _ hrun => setupPair_settled hrs₁ hsettled hrun) hpairs
  rw [hs₂] at hlast
  obtain ⟨_, s₃, horchestrate, hlast⟩ := run_bind_eq_ok.mp hlast
  unfold orchestratePairwiseKem at horchestrate
  obtain ⟨_, _, hround, horchestrate⟩ := run_bind_eq_ok.mp horchestrate
  cases hround
  have hs₃ : s₃ = s₁ :=
    run_forM_unchanged (fun _ _ _ hrun => orchestratePair_settled hrs₁ hsettled hrun) horchestrate
  rw [hs₃] at hlast
  obtain ⟨_, _, hround, hlast⟩ := run_bind_eq_ok.mp hlast
  cases hround
  rw [hrs₁] at hlast
  obtain ⟨_, s₄, hderive, hstage⟩ := run_bind_eq_ok.mp hlast
  obtain ⟨rs', hrs', hsetup⟩ := deriveAll_keysSetUp hrs₁ hderive
  cases hstage
  refine ⟨{ rs' with stage := .maskSetup }, ?_, hsetup.mem_iff, hsetup.seed⟩
  show (s₄.rounds.modify _ _).get? _ = _
  rw [Dict.get?_modify, if_pos rfl, hrs', Option.map_some]

/-! ## Symmetry -/

/-- After key setup the seeds are symmetric if each pair derives the same seed on both sides. -/
theorem KeysSetUp.symmetric_iff {held : List (Nat × Bytes)} (h : KeysSetUp env held rs) :
    SeedsSymmetric rs.clients ↔
      ∀ a b ca cb, a ≠ b → rs.clients.get? a = some ca → rs.clients.get? b = some cb →
        truthy ca.sharedSecret → truthy cb.sharedSecret →
        deriveSeed env rs.roundId (a, ca) b = deriveSeed env rs.roundId (b, cb) a := by
  refine forall_congr' fun a => forall_congr' fun b => forall_congr' fun ca =>
    forall_congr' fun cb => imp_congr_right fun hne => imp_congr_right fun hca =>
    imp_congr_right fun hcb => imp_congr_right fun hta => imp_congr_right fun htb => ?_
  obtain ⟨seed, hseed, hget⟩ := h.seed a b ca cb hne hca hcb hta htb
  obtain ⟨seed', hseed', hget'⟩ := h.seed b a cb ca hne.symm hcb hca htb hta
  rw [hseed, hseed', hget, hget', Option.some.injEq, Except.ok.injEq]

/-- Where the ids and the round fit, a pairwise seed is the keyed hash of one string, under the
    extracted secret. -/
theorem derivePairwiseMaskSeed_eq_hmac {hmac : Hmac} {secret seed : Bytes} {a b roundId : Nat}
    (h : derivePairwiseMaskSeed hmac secret a b roundId = .ok seed) :
    ∃ data, ∀ (hmac : Hmac) (secret : Bytes), derivePairwiseMaskSeed hmac secret a b roundId =
      .ok (hmac (hmac Bytes.zero32.val secret).val data).val := by
  obtain ⟨ids, hids, h⟩ := Except.bind_eq_ok.mp h
  obtain ⟨round, hround, -⟩ := Except.bind_eq_ok.mp h
  refine ⟨Bytes.ascii "SwiftAgg-PairwiseMask-v1" ++ (ids ++ round) ++ [1], fun hmac secret => ?_⟩
  rw [derivePairwiseMaskSeed, hids, hround]
  exact hkdfExpand_32 hmac _ _

/-- A keyed hash that tells one secret from all others. -/
theorem exists_hmac_separates (secret : Bytes) : ∃ hmac : Hmac, ∀ other data,
    hmac (hmac Bytes.zero32.val secret).val data = hmac (hmac Bytes.zero32.val other).val data →
      other = secret := by
  -- the secret is extracted to ones, any other to twos, and both are kept
  refine ⟨fun key data =>
    if key = Bytes.zero32.val then
      if data = secret then ⟨List.replicate 32 1, by simp⟩ else ⟨List.replicate 32 2, by simp⟩
    else if key = List.replicate 32 1 then ⟨List.replicate 32 1, by simp⟩
    else ⟨List.replicate 32 2, by simp⟩, fun other data h => ?_⟩
  by_contra hne
  have hones : List.replicate 32 (1 : UInt8) ≠ Bytes.zero32.val := by decide
  have htwos : List.replicate 32 (2 : UInt8) ≠ Bytes.zero32.val := by decide
  have hdistinct : List.replicate 32 (2 : UInt8) ≠ List.replicate 32 1 := by decide
  simp only [hne, ↓reduceIte, hones, htwos, hdistinct] at h
  exact hdistinct (congrArg Subtype.val h).symm

/-- If key setup returns, the seeds are symmetric for every keyed hash exactly if all secrets that
    clients hold then are the same. -/
theorem setupKeysAndMasks_symmetric_iff (env : HostEnv) (hsecrets : env.SecretsNonempty)
    {s : ServerState} {rs : RoundState} (hrs : s.rounds.get? rs.roundId = some rs)
    (hreturns : ∀ hmac, ∃ s',
      (setupKeysAndMasks { env with hmac := hmac } rs.roundId).run s = (.ok (), s')) :
    (∀ hmac s', (setupKeysAndMasks { env with hmac := hmac } rs.roundId).run s = (.ok (), s') →
        ∀ rs', s'.rounds.get? rs.roundId = some rs' → SeedsSymmetric rs'.clients) ↔
      ∀ p ∈ heldSecrets env.encapsulate s.encapsulations rs.clients.entries,
        ∀ q ∈ heldSecrets env.encapsulate s.encapsulations rs.clients.entries, p.2 = q.2 := by
  constructor
  · rintro hall ⟨a, sa⟩ ha ⟨b, sb⟩ hb
    obtain ⟨hmac, hseparates⟩ := exists_hmac_separates sa
    obtain ⟨s', hrun⟩ := hreturns hmac
    obtain ⟨rs', hrs', hsetup⟩ :=
      setupKeysAndMasks_keysSetUp { env with hmac := hmac } hsecrets hrs hrun
    obtain ⟨ca, hca, hta, hsa⟩ := (hsetup.mem_iff a sa).mp ha
    obtain ⟨cb, hcb, htb, hsb⟩ := (hsetup.mem_iff b sb).mp hb
    by_cases hne : a = b
    · subst hne
      obtain rfl : ca = cb := Option.some.inj (hca.symm.trans hcb)
      exact hsa.symm.trans hsb
    · have hequal := hsetup.symmetric_iff.mp (hall hmac s' hrun rs' hrs') a b ca cb hne hca hcb
        hta htb
      obtain ⟨seed, hseed, -⟩ := hsetup.seed a b ca cb hne hca hcb hta htb
      obtain ⟨data, hdata⟩ := derivePairwiseMaskSeed_eq_hmac hseed
      simp only [deriveSeed, min_comm b a, max_comm b a, hdata, hsa, hsb] at hequal
      exact (hseparates sb data (Subtype.ext (Except.ok.inj hequal))).symm
  · intro hequal hmac s' hrun rs' hrs'
    obtain ⟨rs'', hrs'', hsetup⟩ :=
      setupKeysAndMasks_keysSetUp { env with hmac := hmac } hsecrets hrs hrun
    obtain rfl : rs' = rs'' := Option.some.inj (hrs'.symm.trans hrs'')
    rw [hsetup.symmetric_iff]
    intro a b ca cb hne hca hcb hta htb
    have hsecret : ca.sharedSecret.getD [] = cb.sharedSecret.getD [] := hequal _
      ((hsetup.mem_iff a _).mpr ⟨ca, hca, hta, rfl⟩) _
      ((hsetup.mem_iff b _).mpr ⟨cb, hcb, htb, rfl⟩)
    simp only [deriveSeed, min_comm b a, max_comm b a]
    rw [hsecret]

/-- Where `_encapsulate` does not raise, no connection is lost and the ids fit, key setup returns. -/
theorem setupKeysAndMasks_returns (henv : env.Encapsulates)
    (hopen : ∀ w ∈ s.clientWriters.values, w ∉ s.closing) (hkeyed : s.Keyed)
    (hrs : s.rounds.get? rs.roundId = some rs) (hround : rs.roundId < 2 ^ 32)
    (hids : ∀ id ∈ rs.clients.keys, id < 256) :
    ∃ s', (setupKeysAndMasks env rs.roundId).run s = (.ok (), s') := by
  have hraises := setupKeysAndMasks_raises (J := fun p => p.deliveries.keys = rs.clients.keys)
    (fun _ hp => hp) (henv.keyErrors hround hids hopen)
  have hstart : InRound rs.roundId (fun p => p.deliveries.keys = rs.clients.keys)
      (fun writers closing => writers = s.clientWriters ∧ closing = s.closing) s := by
    refine ⟨hkeyed, ⟨rs.progress, ?_, ?_⟩, rfl, rfl⟩
    · rw [ServerState.progress, hrs, Option.map_some]
    · rw [RoundState.progress, Dict.keys_map]
  have hno := (hraises.run hstart).2
  cases hresult : ((setupKeysAndMasks env rs.roundId).run s).1 with
  | error e => exact (hno e hresult).elim
  | ok => exact ⟨_, Prod.ext hresult rfl⟩

end

/-! ## Two clients -/

/-- A round with two clients that have sent their keys. -/
def keyedRound : RoundState :=
  ((((RoundState.new 1 2 2 1 2).addClient 1).addClient 2).updateClient 1
    (fun c => { c with publicKey := some someKey }) fun _ => rfl).updateClient 2
      (fun c => { c with publicKey := some someKey }) fun _ => rfl

/-- A server with this round. -/
def keyedServer : ServerState := { ServerState.new with rounds := Dict.empty.insert 1 keyedRound }

theorem keyed_keyedServer : keyedServer.Keyed := by
  intro id rs hrs
  rw [keyedServer, Dict.get?_insert] at hrs
  split at hrs
  · rename_i hid
    cases hrs
    exact hid.symm
  · cases hrs

/-- The hash keeps its data under the zero key and its key otherwise, and every call returns another
    secret. -/
def countingKem : HostEnv :=
  { zeroEnv with
    hmac := fun key data => ⟨((if key = Bytes.zero32.val then data else key) ++
      Bytes.zero32.val).take 32, Bytes.length_take_zero32 _⟩
    encapsulate := fun call _ =>
      .ok (List.replicate 32 0, List.replicate 32 (UInt8.ofNat (call + 1))) }

/-- The two clients get different secrets, and derive different seeds from them. -/
theorem setupKeysAndMasks_countingKem :
    ¬∀ (env : HostEnv) (s s' : ServerState) (rs rs' : RoundState), env.SecretsNonempty →
      s.rounds.get? rs.roundId = some rs →
      (setupKeysAndMasks env rs.roundId).run s = (.ok (), s') →
      s'.rounds.get? rs.roundId = some rs' → SeedsSymmetric rs'.clients := by
  intro hall
  have hsecrets : countingKem.SecretsNonempty := by
    intro call key ct ss h hnil
    cases h
    exact absurd (congrArg List.length hnil) (by simp)
  have hencapsulates : countingKem.Encapsulates := fun call key => ⟨_, _, rfl, by decide⟩
  have hrs : keyedServer.rounds.get? keyedRound.roundId = some keyedRound := rfl
  obtain ⟨s', hrun⟩ :=
    setupKeysAndMasks_returns hencapsulates (by decide) keyed_keyedServer hrs (by decide)
      (by decide)
  obtain ⟨rs', hrs', hsetup⟩ := setupKeysAndMasks_keysSetUp countingKem hsecrets hrs hrun
  obtain ⟨ca, hca, hta, hsa⟩ := (hsetup.mem_iff 1 (List.replicate 32 1)).mp (by decide)
  obtain ⟨cb, hcb, htb, hsb⟩ := (hsetup.mem_iff 2 (List.replicate 32 2)).mp (by decide)
  have hequal := hsetup.symmetric_iff.mp (hall countingKem keyedServer s' keyedRound rs' hsecrets
    hrs hrun hrs') 1 2 ca cb (by decide) hca hcb hta htb
  obtain ⟨seed, hseed, -⟩ := hsetup.seed 1 2 ca cb (by decide) hca hcb hta htb
  obtain ⟨data, hdata⟩ := derivePairwiseMaskSeed_eq_hmac hseed
  simp only [deriveSeed, min_comm 2 1, max_comm 2 1, hdata, hsa, hsb] at hequal
  have hseeds : List.replicate 32 (1 : UInt8) = List.replicate 32 2 := Except.ok.inj hequal
  exact absurd hseeds (by decide)

/-- With one secret for all, both sides hold. -/
theorem setupKeysAndMasks_constantKem :
    (∀ hmac s', (setupKeysAndMasks { constantKem 5 with hmac := hmac } 1).run keyedServer =
        (.ok (), s') → ∀ rs', s'.rounds.get? 1 = some rs' → SeedsSymmetric rs'.clients) ↔
      ∀ p ∈ [(1, List.replicate 32 (6 : UInt8)), (2, List.replicate 32 6)],
        ∀ q ∈ [(1, List.replicate 32 (6 : UInt8)), (2, List.replicate 32 6)], p.2 = q.2 := by
  have hrs : keyedServer.rounds.get? keyedRound.roundId = some keyedRound := rfl
  refine setupKeysAndMasks_symmetric_iff (constantKem 5) ?_ hrs ?_
  · intro call key ct ss h hnil
    cases h
    exact absurd (congrArg List.length hnil) (by simp)
  · intro hmac
    exact setupKeysAndMasks_returns (constantKem_encapsulates 5) (by decide)
      keyed_keyedServer hrs (by decide) (by decide)

end SwiftAgg.Host
