import SwiftAgg.Native.MaskProtocol
import SwiftAgg.Spec.Aggregation
import SwiftAgg.Spec.MaskRegeneration
import SwiftAgg.Spec.StoredChunks

/-!
# Unmasking the chunks of a dropped client

A client adds its mask to a chunk. `_unmask_client_chunks` regenerates the mask
of a dropped client and adds it once more, so that the result is the plaintext
plus twice the mask. As 2 is invertible in the field, this is the plaintext
only where the mask vanishes.

## Key results

- `unmaskClientChunks_dropout`: what unmasking gives for a dropped client
- `unmaskClientChunks_dropout_iff`: when that is the plaintext
-/

namespace SwiftAgg.Host

/-! ## Adding a mask -/

theorem length_addMask {values mask : List Int} (h : mask.length = values.length) :
    (addMask values mask).length = values.length := by
  rw [addMask, List.length_zipWith, h, Nat.min_self]

theorem getD_addMask {values mask : List Int} (h : mask.length = values.length) {j : Nat}
    (hj : j < values.length) :
    (addMask values mask).getD j 0 = (values.getD j 0 + mask.getD j 0) % 3329 := by
  have hj' : j < (addMask values mask).length := by rwa [length_addMask h]
  have hm : j < mask.length := by rwa [h]
  rw [List.getD_eq_getElem _ _ hj', List.getD_eq_getElem _ _ hj, List.getD_eq_getElem _ _ hm]
  simp only [addMask, List.getElem_zipWith]

theorem canonical_of_mem_addMask {values mask : List Int} {v : Int} (hv : v ∈ addMask values mask) :
    Canonical v := by
  obtain ⟨j, hj, rfl⟩ := List.getElem_of_mem hv
  simp only [addMask, List.getElem_zipWith]
  exact canonical_emod _

/-- Adding two masks with the same residues leaves the values exactly where the residues vanish. -/
theorem addMask_addMask_eq_iff {x mask mask' : List Int} (s : Nat → Gf)
    (hx : ∀ v ∈ x, Canonical v) (hlen : mask.length = x.length) (hlen' : mask'.length = x.length)
    (hmask : ∀ j < x.length, ((mask.getD j 0 : Int) : Gf) = s j)
    (hmask' : ∀ j < x.length, ((mask'.getD j 0 : Int) : Gf) = s j) :
    addMask (addMask x mask) mask' = x ↔ ∀ j < x.length, s j = 0 := by
  have hlen₁ : (addMask x mask).length = x.length := length_addMask hlen
  have hlen₂ : mask'.length = (addMask x mask).length := by rw [hlen', hlen₁]
  -- a position of the result is the value plus twice the mask
  have hcast : ∀ j < x.length, (((addMask (addMask x mask) mask').getD j 0 : Int) : Gf) =
      ((x.getD j 0 : Int) : Gf) + 2 * s j := by
    intro j hj
    rw [getD_addMask hlen₂ (by omega), getD_addMask hlen hj, Gf.cast_emod, Int.cast_add,
      Gf.cast_emod, Int.cast_add, hmask j hj, hmask' j hj]
    ring
  have htwo : (2 : Gf) ≠ 0 := by decide
  constructor
  · intro heq j hj
    have h := hcast j hj
    rw [heq, left_eq_add] at h
    exact (mul_eq_zero.mp h).resolve_left htwo
  · intro hzero
    apply List.ext_getElem
    · rw [length_addMask hlen₂, hlen₁]
    · intro j h₁ h₂
      have h := hcast j h₂
      rw [hzero j h₂, mul_zero, add_zero, List.getD_eq_getElem _ _ h₁,
        List.getD_eq_getElem _ _ h₂] at h
      exact Gf.eq_of_cast_eq (canonical_of_mem_addMask (List.getElem_mem h₁))
        (hx _ (List.getElem_mem h₂)) h

/-! ## One dropped client -/

section

variable {hmac : Hmac} {aes : AesCtr} {rs : RoundState} {num d : Nat} {secret : Bytes}

/-- The peers of a dropped client. -/
def RoundState.peerIds (rs : RoundState) (d : Nat) : List Nat := rs.clients.keys.filter (· ≠ d)

/-- The chunks of a dropped client, each with the regenerated mask added. -/
theorem unmaskDropoutChunks_regenerated (hmac : Hmac) (aes : AesCtr) (secret : Bytes)
    {c : ClientState} (hchunk : rs.chunkSize ≠ 0) (hfit : c.ChunksFit rs.chunkSize)
    (hfields : FieldsFit rs.roundId d num (rs.peerIds d)) :
    ∃ chunks, unmaskDropoutChunks hmac aes rs num d c secret = .ok chunks ∧
      ∀ i < num, ∀ data, c.receivedChunks.get? i = some data →
        chunks.get? i = some (addMask (Bytes.int16sBE data)
          (regeneratedMask hmac aes secret rs.roundId d (rs.peerIds d) i rs.chunkSize)) := by
  obtain ⟨M, hM, hrows⟩ := recoverDroppedClientMasks_eq hmac aes secret rs.chunkSize hfields
  obtain ⟨chunks, hchunks, hvalues⟩ := unmaskDropoutChunks_eq hchunk hM
    (fun i hi => ⟨_, hrows i hi, length_regeneratedMask ..⟩) fun i _ data => hfit i data
  exact ⟨chunks, hchunks, fun i hi data hdata => hvalues i hi data _ hdata (hrows i hi)⟩

/-- The chunks that `_unmask_client_chunks` enters for a dropped client, if it enters any. -/
def dropoutChunks (hmac : Hmac) (aes : AesCtr) (rs : RoundState) (num d : Nat) :
    Option (Dict Nat (List Int)) :=
  (rs.clients.get? d).bind fun c => c.sharedSecret.bind fun secret =>
    if truthy (some secret) then (unmaskDropoutChunks hmac aes rs num d c secret).toOption else none

theorem FieldsFit.peerIds (h : FieldsFit rs.roundId d num (rs.peerIds d)) {id : Nat}
    (hid : id ∈ rs.clients.keys) : FieldsFit rs.roundId id num (rs.peerIds id) := by
  by_cases heq : id = d
  · rwa [heq]
  · obtain ⟨hd, hid', hround, hnum⟩ := h id (List.mem_filter.mpr ⟨hid, by simpa using heq⟩)
    intro p hp
    refine ⟨hid', ?_, hround, hnum⟩
    by_cases hpd : p = d
    · rwa [hpd]
    · exact (h p (List.mem_filter.mpr ⟨(List.mem_filter.mp hp).1, by simpa using hpd⟩)).2.1

/-- One round of the second loop: the chunks are entered, and nothing raises. -/
theorem unmaskDropout_eq_insert (hwf : rs.WellFormed) (hchunk : rs.chunkSize ≠ 0)
    (hfields : FieldsFit rs.roundId d num (rs.peerIds d)) (id : Nat)
    (unmasked : Dict Nat (Dict Nat (List Int))) :
    unmaskDropout hmac aes rs num unmasked id =
      .ok ((dropoutChunks hmac aes rs num id).elim unmasked (unmasked.insert id)) := by
  unfold unmaskDropout dropoutChunks
  cases hc : rs.clients.get? id with
  | none => rfl
  | some c =>
    cases hsecret : c.sharedSecret with
    | none => simp only [hsecret, Option.bind_some, Option.bind_none, Option.elim_none]
    | some secret =>
      simp only [hsecret, Option.bind_some]
      by_cases htruthy : truthy (some secret) = true
      · obtain ⟨chunks, hchunks, -⟩ := unmaskDropoutChunks_regenerated hmac aes secret hchunk
          (hwf.chunks id c hc) (hfields.peerIds (Dict.mem_keys_of_get? hc))
        simp only [htruthy, ↓reduceIte, hchunks]
        rfl
      · simp only [htruthy]
        rfl

/-- Unmasking returns, and the entry of a dropped client holds its chunks with the masks added. -/
theorem unmaskClientChunks_dropout (hmac : Hmac) (aes : AesCtr) (hwf : rs.WellFormed)
    (hchunk : rs.chunkSize ≠ 0)
    (hfields : FieldsFit rs.roundId d (rs.modelSize / rs.chunkSize) (rs.peerIds d))
    (hd : d ∈ rs.dropoutClients) :
    ∃ unmasked, unmaskClientChunks hmac aes rs = .ok unmasked ∧
      unmasked.get? d = dropoutChunks hmac aes rs (rs.modelSize / rs.chunkSize) d := by
  obtain ⟨survivors, hsurvivors, hget⟩ :=
    foldlM_unmaskSurvivor_stored hwf (rs.modelSize / rs.chunkSize)
  obtain ⟨unmasked, hunmasked, hentry⟩ := Dict.foldlM_insert_keys
    (unmaskDropout hmac aes rs (rs.modelSize / rs.chunkSize))
    (dropoutChunks hmac aes rs (rs.modelSize / rs.chunkSize)) (l := rs.dropoutClients)
    (fun id _ u => unmaskDropout_eq_insert hwf hchunk hfields id u) survivors
  have hnum : rs.numChunks = .ok (rs.modelSize / rs.chunkSize) := if_neg hchunk
  refine ⟨unmasked, ?_, ?_⟩
  · exact Except.bind_eq_ok.mpr ⟨_, hnum, Except.bind_eq_ok.mpr ⟨survivors, hsurvivors, hunmasked⟩⟩
  · rw [hentry, if_pos hd, hget, if_pos hd, Option.or_none]

theorem truthy_some_iff {s : Bytes} : truthy (some s) = true ↔ s ≠ [] := by
  simp [truthy]

/-- A dropped client with an empty secret gets no entry. -/
theorem unmaskClientChunks_dropout_nil (hmac : Hmac) (aes : AesCtr) (hwf : rs.WellFormed)
    (hchunk : rs.chunkSize ≠ 0)
    (hfields : FieldsFit rs.roundId d (rs.modelSize / rs.chunkSize) (rs.peerIds d))
    (hd : d ∈ rs.dropoutClients) {c : ClientState} (hc : rs.clients.get? d = some c)
    (hs : c.sharedSecret = some []) :
    ∃ unmasked, unmaskClientChunks hmac aes rs = .ok unmasked ∧ unmasked.get? d = none := by
  obtain ⟨unmasked, hunmasked, hentry⟩ :=
    unmaskClientChunks_dropout hmac aes hwf hchunk hfields hd
  refine ⟨unmasked, hunmasked, ?_⟩
  rw [hentry, dropoutChunks, hc, Option.bind_some, hs]
  rfl

/-- A dropped client with another secret gets its chunks with the regenerated masks added. -/
theorem unmaskClientChunks_dropout_some (hmac : Hmac) (aes : AesCtr) (hwf : rs.WellFormed)
    (hchunk : rs.chunkSize ≠ 0)
    (hfields : FieldsFit rs.roundId d (rs.modelSize / rs.chunkSize) (rs.peerIds d))
    (hd : d ∈ rs.dropoutClients) {c : ClientState} (hc : rs.clients.get? d = some c)
    (hs : c.sharedSecret = some secret) (hne : secret ≠ []) :
    ∃ unmasked chunks, unmaskClientChunks hmac aes rs = .ok unmasked ∧
      unmasked.get? d = some chunks ∧
      ∀ i < rs.modelSize / rs.chunkSize, ∀ data, c.receivedChunks.get? i = some data →
        chunks.get? i = some (addMask (Bytes.int16sBE data)
          (regeneratedMask hmac aes secret rs.roundId d (rs.peerIds d) i rs.chunkSize)) := by
  obtain ⟨unmasked, hunmasked, hentry⟩ :=
    unmaskClientChunks_dropout hmac aes hwf hchunk hfields hd
  obtain ⟨chunks, hchunks, hvalues⟩ :=
    unmaskDropoutChunks_regenerated hmac aes secret hchunk (hwf.chunks d c hc) hfields
  refine ⟨unmasked, chunks, hunmasked, ?_, hvalues⟩
  rw [hentry, dropoutChunks, hc, Option.bind_some, hs, Option.bind_some,
    if_pos (truthy_some_iff.mpr hne), hchunks]
  rfl

/-! ## The plaintext -/

/-- A chunk that was masked is read back. -/
theorem int16sBE_packInt16BE_addMask (x mask : List Int) :
    Bytes.int16sBE (Bytes.packInt16BE (addMask x mask)) = addMask x mask := by
  apply Bytes.int16sBE_packInt16BE
  intro v hv
  exact (canonical_of_mem_addMask hv).int16

/-- A client `d` dropped out with the shared secret `s`; its stored chunk `i` encodes the plaintext
    `x` with the mask that `recover_dropped_client_masks` gives. Unmasking returns the plaintext
    exactly if the secret is not empty and the words of the peers' streams, with their signs, add
    up to zero modulo 3329 at every position. -/
theorem unmaskClientChunks_dropout_iff (hmac : Hmac) (aes : AesCtr) (rs : RoundState)
    (hwf : rs.WellFormed) (d : Nat) (c : ClientState) (s : Bytes) (peers : List Nat)
    (M : Dict Nat (List Int)) (i : Nat) (row x : List Int) (hd : d ∈ rs.dropoutClients)
    (hc : rs.clients.get? d = some c) (hs : c.sharedSecret = some s)
    (hpeers : peers.Perm (rs.clients.keys.filter (· ≠ d)))
    (hM : recoverDroppedClientMasks hmac aes s rs.roundId peers d (rs.modelSize / rs.chunkSize)
      rs.chunkSize = .ok M)
    (hi : i < rs.modelSize / rs.chunkSize) (hrow : M.get? i = some row)
    (hx : x.length = rs.chunkSize) (hcanon : ∀ v ∈ x, Canonical v)
    (hstored : c.receivedChunks.get? i =
      some (Bytes.packInt16BE (List.zipWith (fun v m => (v + m) % 3329) x row))) :
    (∃ unmasked chunks, unmaskClientChunks hmac aes rs = .ok unmasked ∧
        unmasked.get? d = some chunks ∧ chunks.get? i = some x) ↔
      s ≠ [] ∧ ∀ j < rs.chunkSize,
        (3329 : Int) ∣ signedWords hmac aes s rs.roundId d peers i rs.chunkSize j := by
  have hchunk : rs.chunkSize ≠ 0 := by
    intro hzero
    rw [hzero, Nat.div_zero] at hi
    exact absurd hi (Nat.not_lt_zero i)
  have hfields : FieldsFit rs.roundId d (rs.modelSize / rs.chunkSize) (rs.peerIds d) :=
    fun p hp => fieldsFit_of_recoverDroppedClientMasks hM p (hpeers.mem_iff.mpr hp)
  by_cases hempty : s = []
  · -- the client is skipped
    subst hempty
    obtain ⟨unmasked, hunmasked, hentry⟩ :=
      unmaskClientChunks_dropout_nil hmac aes hwf hchunk hfields hd hc hs
    constructor
    · rintro ⟨unmasked', chunks, hunmasked', hchunks, -⟩
      rw [← Except.ok.inj (hunmasked.symm.trans hunmasked'), hentry] at hchunks
      cases hchunks
    · exact fun h => absurd rfl h.1
  · obtain ⟨unmasked, chunks, hunmasked, hentry, hvalues⟩ :=
      unmaskClientChunks_dropout_some hmac aes hwf hchunk hfields hd hc hs hempty
    have hvalue := hvalues i hi _ hstored
    rw [← addMask, int16sBE_packInt16BE_addMask] at hvalue
    obtain rfl : regeneratedMask hmac aes s rs.roundId d peers i rs.chunkSize = row :=
      Option.some.inj ((get?_of_recoverDroppedClientMasks hM hi).symm.trans hrow)
    -- the mask that was added and the one that is added now have the same residues
    have hiff := addMask_addMask_eq_iff
      (fun j => (signedWords hmac aes s rs.roundId d peers i rs.chunkSize j : Gf)) hcanon
      ((length_regeneratedMask ..).trans hx.symm)
      ((length_regeneratedMask hmac aes s rs.roundId d (rs.peerIds d) i rs.chunkSize).trans
        hx.symm)
      (fun j hj => regeneratedMask_cast _ _ _ _ _ _ _ (hx ▸ hj))
      (fun j hj => by
        rw [regeneratedMask_cast _ _ _ _ _ _ _ (hx ▸ hj), signedWords_perm _ _ _ _ _ hpeers]
        rfl)
    simp only [hx, Gf.cast_eq_zero_iff] at hiff
    rw [and_iff_right hempty, ← hiff]
    constructor
    · rintro ⟨unmasked', chunks', hunmasked', hchunks', hx'⟩
      rw [← Except.ok.inj (hunmasked.symm.trans hunmasked'), hentry] at hchunks'
      cases hchunks'
      exact Option.some.inj (hvalue.symm.trans hx')
    · intro heq
      exact ⟨unmasked, chunks, hunmasked, hentry, hvalue.trans (congrArg some heq)⟩

end

/-- The rounds with one value per client are well formed. -/
theorem wellFormed_oneValueRound {values : List ClientState}
    {hids : (values.map ClientState.clientId).Nodup} {dropouts : List Nat}
    (hdropouts : dropouts.Nodup) (hfit : ∀ c ∈ values, c.ChunksFit 1) :
    (oneValueRound values hids dropouts).WellFormed where
  dropouts := hdropouts
  chunks _ c hc := hfit c (mem_of_get?_oneValueRound hc).1

theorem chunksFit_oneValueClient (id : Nat) (value : Int) (completed : Bool) (samples : Nat)
    (secret : Option Bytes) : (oneValueClient id value completed samples secret).ChunksFit 1 := by
  unfold oneValueClient
  exact Dict.forall_insert nofun rfl

/-- Client 2 dropped out between the clients 1 and 3. -/
def balancedDropout : RoundState :=
  oneValueRound [oneValueClient 1 5 true 1 none,
    oneValueClient 2 7 false 0 (some Bytes.zero32.val), oneValueClient 3 9 true 1 none]
    (by decide) [2]

/-- The words of its two peers are equal, so that its mask is zero. -/
theorem unmaskClientChunks_dropout_balanced :
    ∃ unmasked chunks, unmaskClientChunks zeroHmac oneAes balancedDropout = .ok unmasked ∧
      unmasked.get? 2 = some chunks ∧ chunks.get? 0 = some [7] := by
  have hwf : balancedDropout.WellFormed := by
    apply wellFormed_oneValueRound (by decide)
    intro c hc
    simp only [List.mem_cons, List.not_mem_nil, or_false] at hc
    rcases hc with rfl | rfl | rfl
    · exact chunksFit_oneValueClient 1 5 true 1 none
    · exact chunksFit_oneValueClient 2 7 false 0 _
    · exact chunksFit_oneValueClient 3 9 true 1 none
  have hfields : FieldsFit 1 2 1 [1, 3] := by
    intro p hp
    simp only [List.mem_cons, List.not_mem_nil, or_false] at hp
    omega
  obtain ⟨M, hM, hrow⟩ := recoverDroppedClientMasks_eq zeroHmac oneAes Bytes.zero32.val 1 hfields
  refine (unmaskClientChunks_dropout_iff zeroHmac oneAes balancedDropout hwf 2
    (oneValueClient 2 7 false 0 (some Bytes.zero32.val)) Bytes.zero32.val [1, 3] M 0 _ [7]
    (by decide) rfl rfl (.refl _) hM (by decide) (hrow 0 (by decide)) rfl ?_ ?_).mpr ?_
  · intro v hv
    rw [List.mem_singleton.mp hv]
    exact ⟨by decide, by decide⟩
  · decide +kernel
  · refine ⟨by decide, fun j hj => ?_⟩
    obtain rfl : j = 0 := Nat.lt_one_iff.mp hj
    decide +kernel

/-- Client 2 of two dropped out with the plaintext 0 under the mask 3328 towards client 1: the
    server returns 3327. -/
theorem unmaskClientChunks_doubles_mask :
    (recoverDroppedClientMasks zeroHmac oneAes Bytes.zero32.val 1 [1] 2 1 1).map (Dict.get? · 0) =
        .ok (some [3328]) ∧
      (oneValueClient 2 3328 false 0 (some Bytes.zero32.val)).receivedChunks.get? 0 =
        some (Bytes.packInt16BE (List.zipWith (fun v m => (v + m) % 3329) [0] [3328])) ∧
      ¬∃ unmasked chunks, unmaskClientChunks zeroHmac oneAes
          (oneValueRound [oneValueClient 1 5 true 1 none,
            oneValueClient 2 3328 false 0 (some Bytes.zero32.val)] (by decide) [2]) =
            .ok unmasked ∧
        unmasked.get? 2 = some chunks ∧ chunks.get? 0 = some [0] := by
  refine ⟨by decide +kernel, by decide +kernel, ?_⟩
  rintro ⟨unmasked, chunks, hunmasked, hchunks, hvalue⟩
  have hrow : (unmaskClientChunks zeroHmac oneAes
      (oneValueRound [oneValueClient 1 5 true 1 none,
        oneValueClient 2 3328 false 0 (some Bytes.zero32.val)] (by decide) [2])).map
      (fun unmasked => (unmasked.get? 2).bind (Dict.get? · 0)) = .ok (some [3327]) := by
    decide +kernel
  have hsome : (unmasked.get? 2).bind (Dict.get? · 0) = some [3327] := by
    rw [hunmasked] at hrow
    exact Except.ok.inj hrow
  rw [hchunks, Option.bind_some, hvalue] at hsome
  exact absurd hsome (by decide)

end SwiftAgg.Host
