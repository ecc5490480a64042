import Mathlib.Data.Finset.Card
import SwiftAgg.Spec.KeyDerivation
import SwiftAgg.Spec.ServerStep

/-!
# Recovery of a dropped client's secret

`_trigger_recovery` derives its share values with `_derive_shamir_secret`, which
gives 32 bytes, and hands them to `reconstruct_secret_bytes`, which demands 64.
So no recovery ever succeeds: either there are too few shares and nothing is
done, or an exception leaves the handler.

## Key results

- `recoverDropout_not_changed`: one round of the recovery loop raises or does nothing
- `handleDropoutNotify_raises`: with enough shares, handling the notification raises
-/

namespace SwiftAgg.Host

/-! ## Share values -/

/-- A derivation that returns gives 32 bytes. -/
theorem length_deriveShamirSecret {hmac : Hmac} {secret out : Bytes} {clientId roundId : Nat}
    (h : deriveShamirSecret hmac secret clientId roundId = .ok out) : out.length = 32 := by
  unfold deriveShamirSecret at h
  cases hid : bytesOf [clientId] with
  | error e =>
    rw [hid] at h
    cases h
  | ok ids =>
    cases hround : toBytes4 roundId with
    | error e =>
      rw [hid, hround] at h
      cases h
    | ok round =>
      rw [hid, hround] at h
      change deriveWithInfo hmac "SwiftAgg-ShamirSecret-v1" secret (ids ++ round) = .ok out at h
      -- both conversions returned, so this is a call of the derivation
      rw [hkdf_eq_deriveWithInfo] at h
      cases h
      exact (Native.hkdf _ _ _).property

/-- A client contributes a share: it is not the dropped one and holds a secret. -/
def Contributes (dropoutId : Nat) (client : Nat × ClientState) : Bool :=
  client.1 ≠ dropoutId && truthy client.2.sharedSecret

/-- One client of the share loop: a contributing client adds one share of 32 bytes. -/
theorem addShare_ok {hmac : Hmac} {roundId dropoutId : Nat} {shares shares' : List (Int × Bytes)}
    {client : Nat × ClientState}
    (h : addShare hmac roundId dropoutId shares client = .ok shares') :
    ∃ new : List (Int × Bytes), shares' = shares ++ new ∧ (∀ s ∈ new, s.2.length = 32) ∧
      new.length = if Contributes dropoutId client then 1 else 0 := by
  unfold addShare at h
  unfold Contributes
  split at h
  · -- the dropped client itself is skipped
    rename_i hid
    cases h
    exact ⟨[], by simp [hid]⟩
  · rename_i hid
    cases hsecret : client.2.sharedSecret with
    | none =>
      simp only [hsecret] at h
      cases h
      exact ⟨[], by simp [truthy]⟩
    | some secret =>
      simp only [hsecret] at h
      split at h
      · rename_i htruthy
        cases hderive : deriveShamirSecret hmac secret dropoutId roundId with
        | error e =>
          rw [hderive] at h
          cases h
        | ok value =>
          rw [hderive] at h
          cases h
          refine ⟨[((client.1 : Int), value)], rfl, ?_, by simp [hid, htruthy]⟩
          simpa using length_deriveShamirSecret hderive
      · rename_i htruthy
        cases h
        exact ⟨[], by simp [htruthy]⟩

/-- The share loop: all values have 32 bytes, and every contributing client gave one. -/
theorem foldlM_addShare_ok {hmac : Hmac} {roundId dropoutId : Nat}
    {clients : List (Nat × ClientState)} {shares shares' : List (Int × Bytes)}
    (hshares : ∀ s ∈ shares, s.2.length = 32)
    (h : clients.foldlM (addShare hmac roundId dropoutId) shares = .ok shares') :
    (∀ s ∈ shares', s.2.length = 32) ∧
      shares'.length = shares.length + clients.countP (Contributes dropoutId) := by
  induction clients generalizing shares with
  | nil =>
    cases h
    exact ⟨hshares, by simp⟩
  | cons client clients ih =>
    rw [List.foldlM_cons] at h
    cases hstep : addShare hmac roundId dropoutId shares client with
    | error e =>
      rw [hstep] at h
      cases h
    | ok shares₁ =>
      rw [hstep] at h
      -- the invariant of the loop: all shares so far have 32 bytes
      obtain ⟨new, rfl, hnew, hlen⟩ := addShare_ok hstep
      have hall : ∀ s ∈ shares ++ new, s.2.length = 32 := by
        intro s hs
        exact (List.mem_append.mp hs).elim (hshares s) (hnew s)
      obtain ⟨hvals, hcount⟩ := ih hall h
      refine ⟨hvals, ?_⟩
      rw [hcount, List.length_append, hlen, List.countP_cons]
      omega

/-- Values of 32 bytes are not reconstructed. -/
theorem reconstructSecretBytes_raises {shares : List (Int × Bytes)}
    (h : ∀ s ∈ shares, s.2.length = 32) : ∃ e, reconstructSecretBytes shares = .error e := by
  cases shares with
  | nil => exact ⟨_, rfl⟩
  | cons s shares =>
    have hlen : s.2.length = 32 := h s (by simp)
    exact ⟨_, by rw [reconstructSecretBytes, if_pos (by omega)]⟩

/-! ## The recovery loop -/

/-- One dropped client: an exception, or too few shares and no change. -/
theorem recoverDropout_not_changed (hmac : Hmac) (rs : RoundState) (dropoutId : Nat) :
    (∃ e, recoverDropout hmac rs dropoutId = .error e) ∨
      (recoverDropout hmac rs dropoutId = .ok rs ∧
        rs.clients.entries.countP (Contributes dropoutId) < rs.threshold) := by
  unfold recoverDropout
  cases hshares : collectShares hmac rs dropoutId with
  | error e => exact .inl ⟨e, rfl⟩
  | ok shares =>
    obtain ⟨hvals, hcount⟩ := foldlM_addShare_ok (by simp) hshares
    rw [List.length_nil, Nat.zero_add] at hcount
    by_cases hthreshold : rs.threshold ≤ shares.length
    · obtain ⟨e, he⟩ := reconstructSecretBytes_raises hvals
      refine .inl ⟨e, ?_⟩
      simp only [bind, Except.bind, hthreshold, ↓reduceIte, he]
    · refine .inr ⟨?_, by omega⟩
      simp only [bind, Except.bind, hthreshold, ↓reduceIte]
      rfl

/-- The loop raises when some dropped client has enough shares. -/
theorem recoverDropouts_raises {hmac : Hmac} {rs : RoundState} {dropouts : List Nat} {d : Nat}
    (hd : d ∈ dropouts) (hshares : rs.threshold ≤ rs.clients.entries.countP (Contributes d)) :
    ∃ e, recoverDropouts hmac dropouts rs = (some e, rs) := by
  induction dropouts with
  | nil => simp at hd
  | cons d' dropouts ih =>
    rcases recoverDropout_not_changed hmac rs d' with ⟨e, he⟩ | ⟨hok, hfew⟩
    · exact ⟨e, by rw [recoverDropouts, he]⟩
    · have hne : d ≠ d' := by
        rintro rfl
        omega
      obtain ⟨e, he⟩ := ih ((List.mem_cons.mp hd).resolve_left hne)
      refine ⟨e, ?_⟩
      rw [recoverDropouts, hok]
      exact he

/-- Holders of 32-byte secrets other than the dropped client all contribute. -/
theorem card_le_countP_contributes {rs : RoundState} {d : Nat} {holders : Finset Nat}
    (hholders : ∀ id ∈ holders, id ≠ d ∧ ∃ c secret, rs.clients.get? id = some c ∧
      c.sharedSecret = some secret ∧ secret.length = 32) :
    holders.card ≤ rs.clients.entries.countP (Contributes d) := by
  let ids := (rs.clients.entries.filter (Contributes d)).map Prod.fst
  have hsub : holders ⊆ ids.toFinset := by
    intro id hid
    obtain ⟨hne, c, secret, hc, hsecret, hlen⟩ := hholders id hid
    have hmem : (id, c) ∈ rs.clients.entries := Dict.get?_eq_some_iff.mp hc
    have hcontributes : Contributes d (id, c) = true := by
      have hsome : secret ≠ [] := by
        rintro rfl
        simp at hlen
      simp [Contributes, truthy, hne, hsecret, hsome]
    rw [List.mem_toFinset]
    exact List.mem_map.mpr ⟨(id, c), List.mem_filter.mpr ⟨hmem, hcontributes⟩, rfl⟩
  -- the holders are among the ids that contribute
  calc holders.card
    _ ≤ ids.toFinset.card := Finset.card_le_card hsub
    _ ≤ ids.length := ids.toFinset_card_le
    _ = rs.clients.entries.countP (Contributes d) := by
      rw [List.length_map, List.countP_eq_length_filter]

/-! ## The notification -/

/-- The notification is handled without an exception, and the client it names then holds the secret
    reconstructed from the shares of the others. -/
def RecoverySucceeds (env : HostEnv) (header : MessageHeader) (s : ServerState) : Prop :=
  ∃ s' rs c shares secret, (handleDropoutNotify env header).run s = (.ok (), s') ∧
    s'.rounds.get? header.roundId = some rs ∧ rs.clients.get? header.clientId = some c ∧
    collectShares env.hmac rs header.clientId = .ok shares ∧
    reconstructSecretBytes shares = .ok secret ∧ c.sharedSecret = some secret

private theorem RoundState.mem_recordDropout (rs : RoundState) (d : Nat) :
    d ∈ (rs.recordDropout d).dropoutClients := by
  unfold recordDropout
  split <;> simp_all

theorem RoundState.recordDropout_clients (rs : RoundState) (d : Nat) :
    (rs.recordDropout d).clients = rs.clients := by
  unfold recordDropout
  split <;> rfl

theorem RoundState.recordDropout_threshold (rs : RoundState) (d : Nat) :
    (rs.recordDropout d).threshold = rs.threshold := by
  unfold recordDropout
  split <;> rfl

theorem run_getRound (roundId : Nat) (s : ServerState) :
    (getRound roundId).run s = (.ok (s.rounds.get? roundId), s) := rfl

theorem run_modifyRound (roundId : Nat) (f : RoundState → RoundState) (s : ServerState) :
    (modifyRound roundId f).run s =
      (.ok (), { s with rounds := s.rounds.modify roundId f }) := rfl

/-- The recovery of a round that has a dropped client with enough shares raises. -/
theorem runRecovery_raises {env : HostEnv} {s : ServerState} {roundId d : Nat} {rs : RoundState}
    (hround : s.rounds.get? roundId = some rs) (hd : d ∈ rs.dropoutClients)
    (hshares : rs.threshold ≤ rs.clients.entries.countP (Contributes d)) :
    ∃ e s', (runRecovery env roundId).run s = (.error e, s') := by
  obtain ⟨e, he⟩ := @recoverDropouts_raises env.hmac rs _ d hd hshares
  refine ⟨e, { s with rounds := s.rounds.modify roundId fun _ => rs }, ?_⟩
  rw [runRecovery, Coroutine.run_bind_of_ok (run_getRound roundId s), hround]
  simp only [triggerRecovery, he]
  rw [Coroutine.run_bind_of_ok (run_modifyRound roundId _ s), Coroutine.run_raise]

/-- Handling a notification when at least `max(2, threshold)` other clients hold 32-byte secrets
    raises, so the recovery never succeeds. -/
theorem handleDropoutNotify_raises (env : HostEnv) (header : MessageHeader) (s : ServerState)
    (rs : RoundState) (holders : Finset Nat) (hround : s.rounds.get? header.roundId = some rs)
    (hholders : ∀ id ∈ holders, id ≠ header.clientId ∧ ∃ c secret, rs.clients.get? id = some c ∧
      c.sharedSecret = some secret ∧ secret.length = 32)
    (hthreshold : max 2 rs.threshold ≤ holders.card) :
    (∃ e s', (handleDropoutNotify env header).run s = (.error e, s')) ∧
      ¬RecoverySucceeds env header s := by
  let d := header.clientId
  have hshares : (rs.recordDropout d).threshold ≤
      (rs.recordDropout d).clients.entries.countP (Contributes d) := by
    rw [rs.recordDropout_threshold, rs.recordDropout_clients]
    exact (le_max_right _ _).trans (hthreshold.trans (card_le_countP_contributes hholders))
  let s₁ : ServerState :=
    { s with rounds := s.rounds.modify header.roundId fun rs => rs.recordDropout d }
  have hround₁ : s₁.rounds.get? header.roundId = some (rs.recordDropout d) := by
    rw [Dict.get?_modify, if_pos rfl, hround, Option.map_some]
  -- recovery runs before the check, and its exception ends the handler
  obtain ⟨e, s', he⟩ := @runRecovery_raises env s₁ _ d _ hround₁ (rs.mem_recordDropout d) hshares
  have hrun : (handleDropoutNotify env header).run s = (.error e, s') := by
    rw [handleDropoutNotify, Coroutine.run_bind_of_ok (run_getRound header.roundId s), hround]
    exact (Coroutine.run_bind_of_ok (run_modifyRound header.roundId _ s)).trans
      (Coroutine.run_bind_of_error he)
  refine ⟨⟨e, s', hrun⟩, ?_⟩
  rintro ⟨s'', _, _, _, _, hok, -⟩
  rw [hrun] at hok
  cases hok

/-- A round with threshold 2 and three clients that hold the zero secret. -/
def threeHolders : RoundState :=
  [1, 2, 3].foldl (fun rs id => (rs.addClient id).setSharedSecret id Bytes.zero32.val)
    (.new 1 3 2 1 1)

/-- The server with only the round of three holders. -/
def threeHoldersServer : ServerState :=
  { ServerState.new with rounds := Dict.empty.insert 1 threeHolders, currentRoundId := 1 }

/-- A hash that gives zeros, and no key stream or encapsulation to speak of. -/
def zeroEnv : HostEnv where
  hmac _ _ := Bytes.zero32
  aes _ _ len := Bytes.zeros len
  encapsulate _ _ := .ok ([], Bytes.zero32.val)

/-- `DROPOUT_NOTIFY` of client 3 in round 1. -/
def notifyThree : MessageHeader := ⟨1, 3, 0x31, 0, 0⟩

/-- Clients 1 and 2 of three hold secrets when client 3 is reported dropped. -/
theorem threeHolders_notify_raises :
    (∃ e s', (handleDropoutNotify zeroEnv notifyThree).run threeHoldersServer = (.error e, s')) ∧
      ¬RecoverySucceeds zeroEnv notifyThree threeHoldersServer := by
  refine handleDropoutNotify_raises zeroEnv notifyThree threeHoldersServer threeHolders {1, 2} rfl
    ?_ (by decide)
  intro id hid
  simp only [Finset.mem_insert, Finset.mem_singleton] at hid
  rcases hid with rfl | rfl
  · exact ⟨by decide, _, Bytes.zero32.val, rfl, rfl, by decide⟩
  · exact ⟨by decide, _, Bytes.zero32.val, rfl, rfl, by decide⟩

/-- The exception is the length check of `reconstruct_secret_bytes`. -/
theorem threeHolders_notify_length_error :
    ((handleDropoutNotify zeroEnv notifyThree).run threeHoldersServer).1 =
        .error (.valueError "Share value must be 64 bytes (32 GF(3329) elements)") ∧
      ¬RecoverySucceeds zeroEnv notifyThree threeHoldersServer := by
  have hrun : ((handleDropoutNotify zeroEnv notifyThree).run threeHoldersServer).1 =
      .error (.valueError "Share value must be 64 bytes (32 GF(3329) elements)") := by
    decide +kernel
  refine ⟨hrun, ?_⟩
  rintro ⟨s', _, _, _, _, hok, -⟩
  rw [hok] at hrun
  cases hrun

end SwiftAgg.Host
