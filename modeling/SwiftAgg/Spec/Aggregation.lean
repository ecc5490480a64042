import SwiftAgg.Spec.FedAvgCorrect
import SwiftAgg.ForStd.PairSum
import Mathlib.Algebra.Field.ZMod
import Mathlib.Tactic.FieldSimp

/-!
# Aggregation of masked rounds

`_unmask_client_chunks` takes the survivors' chunks as they were sent and
touches only the chunks of dropped clients, which `_compute_fedavg` then skips
because those clients did not complete. So the server averages the survivors'
masked values: the weights multiply the masks too, and the masks that survivors
share with dropped clients stay in the sum.

## Key results

- `aggregate_rows`: the server averages the stored values of the completed clients
- `dropoutFree_average_iff`: when a round without dropouts gives the plaintext average
- `dropout_average_iff`: when a round with dropouts gives the survivors' plaintext average
-/

namespace SwiftAgg.Host

/-- `_unmask_client_chunks` followed by `_compute_fedavg`. -/
def aggregate (hmac : Hmac) (aes : AesCtr) (rs : RoundState) :
    Except PyErr (Dict Nat (List Int)) := do
  computeFedavg rs (← unmaskClientChunks hmac aes rs)

/-- The aggregate holds, for every chunk and position of the round, the canonical representative of
    the table `r`. -/
def Aggregates (hmac : Hmac) (aes : AesCtr) (rs : RoundState) (r : Nat → Nat → Gf) : Prop :=
  ∃ fed, aggregate hmac aes rs = .ok fed ∧
    ∀ i < rs.modelSize / rs.chunkSize, ∃ row, fed.get? i = some row ∧ row.length = rs.chunkSize ∧
      ∀ j < rs.chunkSize, row.getD j 0 = (r i j).val

/-- The chunks stored in a round encode the values `y`, and the completed clients delivered all of
    them. -/
structure Delivered (rs : RoundState) (y : Nat → Nat → Nat → Int) : Prop where
  canonical : ∀ id i j, Canonical (y id i j)
  stored : ∀ id c, rs.clients.get? id = some c → ∀ i < rs.modelSize / rs.chunkSize, ∀ data,
    c.receivedChunks.get? i = some data →
      data = Bytes.packInt16BE ((List.range rs.chunkSize).map (y id i))
  complete : ∀ id c, rs.clients.get? id = some c → c.completed = true →
    ∀ i < rs.modelSize / rs.chunkSize, ∃ data, c.receivedChunks.get? i = some data

/-- For every dropped client that holds a secret, `recover_dropped_client_masks` returns masks for
    all chunks; position `j` of chunk `i` is `mask id i j`. -/
def MasksRecovered (hmac : Hmac) (aes : AesCtr) (rs : RoundState) (mask : Nat → Nat → Nat → Gf) :
    Prop :=
  ∀ id ∈ rs.dropoutClients, ∀ c secret, rs.clients.get? id = some c →
    c.sharedSecret = some secret → truthy (some secret) = true →
      ∃ masks, recoverDroppedClientMasks hmac aes secret rs.roundId
          (rs.clients.keys.filter (· ≠ id)) id (rs.modelSize / rs.chunkSize) rs.chunkSize =
            .ok masks ∧
        ∀ i < rs.modelSize / rs.chunkSize, ∃ row, masks.get? i = some row ∧
          row.length = rs.chunkSize ∧ ∀ j < rs.chunkSize, ((row.getD j 0 : Int) : Gf) = mask id i j

variable {hmac : Hmac} {aes : AesCtr} {rs : RoundState} {y : Nat → Nat → Nat → Int}

/-! ## Unmasking -/

/-- The chunk loop: every stored chunk of the round is turned into its values. -/
theorem unmaskChunks_eq {num : Nat} {f : Nat → Bytes → Except PyErr (List Int)}
    {received : Dict Nat Bytes} (v : Nat → List Int)
    (hf : ∀ i < num, ∀ data, received.get? i = some data → f i data = .ok (v i)) :
    ∃ chunks, unmaskChunks num f received = .ok chunks ∧
      ∀ i < num, ∀ data, received.get? i = some data → chunks.get? i = some (v i) := by
  obtain ⟨chunks, hfold, hget⟩ := Dict.foldlM_insert (unmaskChunk num f)
    (fun e => if num ≤ e.1 then none else some (v e.1)) received fun e he d => by
      unfold unmaskChunk
      split_ifs with hnum
      · rfl
      · rw [hf e.1 (not_le.mp hnum) e.2 (Dict.get?_eq_some_iff.mpr he)]
        rfl
  refine ⟨chunks, hfold, fun i hi data hdata => ?_⟩
  rw [hget, hdata]
  exact if_neg (not_le.mpr hi)

/-- The first loop: the chunks of the clients that did not drop out. -/
theorem foldlM_unmaskSurvivor (hdel : Delivered rs y) : ∃ survivors,
    rs.clients.entries.foldlM (unmaskSurvivor rs (rs.modelSize / rs.chunkSize)) .empty =
      .ok survivors ∧
    ∀ id c, rs.clients.get? id = some c → id ∉ rs.dropoutClients → c.completed = true →
      ∃ chunks, survivors.get? id = some chunks ∧
        Holds (rs.modelSize / rs.chunkSize) rs.chunkSize chunks (y id) := by
  have hclient : ∀ id c, rs.clients.get? id = some c → ∃ chunks,
      unmaskChunks (rs.modelSize / rs.chunkSize) (fun _ => unpackChunk rs.chunkSize)
        c.receivedChunks = .ok chunks ∧
      ∀ i < rs.modelSize / rs.chunkSize, ∀ data, c.receivedChunks.get? i = some data →
        chunks.get? i = some ((List.range rs.chunkSize).map (y id i)) := by
    intro id c hc
    apply unmaskChunks_eq
    intro i hi data hdata
    rw [hdel.stored id c hc i hi data hdata]
    refine unpackChunk_packInt16BE (by rw [List.length_map, List.length_range]) fun v hv => ?_
    obtain ⟨j, -, rfl⟩ := List.mem_map.mp hv
    exact (hdel.canonical id i j).int16
  -- the loop inserts under distinct ids, so what it inserts is there in the end
  obtain ⟨survivors, hfold, hget⟩ := Dict.foldlM_insert
    (unmaskSurvivor rs (rs.modelSize / rs.chunkSize))
    (fun e => if e.1 ∈ rs.dropoutClients then none else
      (unmaskChunks (rs.modelSize / rs.chunkSize) (fun _ => unpackChunk rs.chunkSize)
        e.2.receivedChunks).toOption) rs.clients fun e he d => by
      obtain ⟨chunks, hchunks, -⟩ := hclient e.1 e.2 (Dict.get?_eq_some_iff.mpr he)
      simp only [unmaskSurvivor, hchunks]
      split_ifs
      · rfl
      · rfl
  refine ⟨survivors, hfold, fun id c hc hdrop hdone => ?_⟩
  obtain ⟨chunks, hchunks, hvals⟩ := hclient id c hc
  refine ⟨chunks, ?_, fun i hi => ?_⟩
  · rw [hget, hc, Option.bind_some, if_neg hdrop, hchunks]
    rfl
  · obtain ⟨data, hdata⟩ := hdel.complete id c hc hdone i hi
    exact hvals i hi data hdata

/-- A mask is added to the values of a chunk. -/
def addMask (values mask : List Int) : List Int :=
  List.zipWith (fun v m => (v + m) % 3329) values mask

/-- The values of a dropped client's chunk, if its mask is there. -/
theorem unmaskDropoutChunk_eq {n i : Nat} {masks : Dict Nat (List Int)} {row : List Int}
    {data : Bytes} (hn : n ≠ 0) (hdata : data.length = n * 2) (hget : masks.get? i = some row)
    (hrow : row.length = n) :
    unmaskDropoutChunk n masks i data = .ok (addMask (Bytes.int16sBE data) row) := by
  have hunpack : unpackChunk n data = .ok (Bytes.int16sBE data) := if_pos (by omega)
  simp only [unmaskDropoutChunk, hunpack, hget, hrow, hn, lt_self_iff_false, ↓reduceIte, bind,
    Except.bind]
  rfl

/-- The chunks of a dropped client, each with its mask added, if the masks have full rows. -/
theorem unmaskDropoutChunks_eq {num id : Nat} {c : ClientState} {secret : Bytes}
    {masks : Dict Nat (List Int)} (hchunk : rs.chunkSize ≠ 0)
    (hmasks : recoverDroppedClientMasks hmac aes secret rs.roundId
      (rs.clients.keys.filter (· ≠ id)) id num rs.chunkSize = .ok masks)
    (hrows : ∀ i < num, ∃ row, masks.get? i = some row ∧ row.length = rs.chunkSize)
    (hdata : ∀ i < num, ∀ data, c.receivedChunks.get? i = some data →
      data.length = rs.chunkSize * 2) :
    ∃ chunks, unmaskDropoutChunks hmac aes rs num id c secret = .ok chunks ∧
      ∀ i < num, ∀ data row, c.receivedChunks.get? i = some data → masks.get? i = some row →
        chunks.get? i = some (addMask (Bytes.int16sBE data) row) := by
  let values (i : Nat) : List Int :=
    addMask (Bytes.int16sBE ((c.receivedChunks.get? i).getD [])) ((masks.get? i).getD [])
  have hvalue : ∀ i < num, ∀ data, c.receivedChunks.get? i = some data →
      unmaskDropoutChunk rs.chunkSize masks i data = .ok (values i) := by
    intro i hi data hget
    obtain ⟨row, hrow, hlen⟩ := hrows i hi
    rw [unmaskDropoutChunk_eq hchunk (hdata i hi data hget) hrow hlen]
    simp only [values, hget, hrow, Option.getD_some]
  obtain ⟨chunks, hchunks, hvalues⟩ := unmaskChunks_eq values hvalue
  refine ⟨chunks, Except.bind_eq_ok.mpr ⟨masks, hmasks, hchunks⟩, fun i hi data row hget hrow => ?_⟩
  rw [hvalues i hi data hget]
  simp only [values, hget, hrow, Option.getD_some]

/-- One dropped client: its own chunks are replaced, all others stay. -/
theorem unmaskDropout_eq {mask : Nat → Nat → Nat → Gf} (hchunk : rs.chunkSize ≠ 0)
    (hdel : Delivered rs y) (hrec : MasksRecovered hmac aes rs mask) {id : Nat}
    (hid : id ∈ rs.dropoutClients) (unmasked : Dict Nat (Dict Nat (List Int))) :
    ∃ unmasked', unmaskDropout hmac aes rs (rs.modelSize / rs.chunkSize) unmasked id =
        .ok unmasked' ∧ ∀ id' ≠ id, unmasked'.get? id' = unmasked.get? id' := by
  unfold unmaskDropout
  cases hc : rs.clients.get? id with
  | none => exact ⟨unmasked, rfl, fun _ _ => rfl⟩
  | some c =>
    cases hsecret : c.sharedSecret with
    | none =>
      simp only [hsecret]
      exact ⟨unmasked, rfl, fun _ _ => rfl⟩
    | some secret =>
      simp only [hsecret]
      by_cases htruthy : truthy (some secret) = true
      · obtain ⟨masks, hmasks, hrows⟩ := hrec id hid c secret hc hsecret htruthy
        have hfull : ∀ i < rs.modelSize / rs.chunkSize, ∃ row, masks.get? i = some row ∧
            row.length = rs.chunkSize := by
          intro i hi
          obtain ⟨row, hrow, hlen, -⟩ := hrows i hi
          exact ⟨row, hrow, hlen⟩
        have hdata : ∀ i < rs.modelSize / rs.chunkSize, ∀ data,
            c.receivedChunks.get? i = some data → data.length = rs.chunkSize * 2 := by
          intro i hi data hdata
          rw [hdel.stored id c hc i hi data hdata, Bytes.length_packInt16BE, List.length_map,
            List.length_range, Nat.mul_comm]
        obtain ⟨chunks, hchunks, -⟩ := unmaskDropoutChunks_eq hchunk hmasks hfull hdata
        refine ⟨unmasked.insert id chunks, ?_, fun id' hne => ?_⟩
        · simp only [htruthy, ↓reduceIte, hchunks, bind, Except.bind]
          rfl
        · rw [Dict.get?_insert, if_neg hne]
      · simp only [htruthy]
        exact ⟨unmasked, rfl, fun _ _ => rfl⟩

/-- The second loop changes the chunks of dropped clients only. -/
theorem foldlM_unmaskDropout {mask : Nat → Nat → Nat → Gf} (hchunk : rs.chunkSize ≠ 0)
    (hdel : Delivered rs y) (hrec : MasksRecovered hmac aes rs mask) {l : List Nat}
    (hl : ∀ id ∈ l, id ∈ rs.dropoutClients) (unmasked : Dict Nat (Dict Nat (List Int))) :
    ∃ unmasked', l.foldlM (unmaskDropout hmac aes rs (rs.modelSize / rs.chunkSize)) unmasked =
        .ok unmasked' ∧ ∀ id ∉ rs.dropoutClients, unmasked'.get? id = unmasked.get? id := by
  induction l generalizing unmasked with
  | nil => exact ⟨unmasked, rfl, fun _ _ => rfl⟩
  | cons d l ih =>
    have hd : d ∈ rs.dropoutClients := hl d (by simp)
    obtain ⟨unmasked₁, hstep, hframe₁⟩ := unmaskDropout_eq hchunk hdel hrec hd unmasked
    obtain ⟨unmasked', hfold, hframe⟩ := ih (fun id hid => hl id (List.mem_cons_of_mem d hid))
      unmasked₁
    refine ⟨unmasked', ?_, fun id hid => ?_⟩
    · rw [List.foldlM_cons, hstep]
      exact hfold
    · rw [hframe id hid, hframe₁ id fun heq => hid (heq ▸ hd)]

/-! ## Averaging -/

/-- The server averages the stored values of the completed clients, whoever dropped out. -/
theorem aggregate_rows {mask : Nat → Nat → Nat → Gf} (hchunk : rs.chunkSize ≠ 0)
    (hdel : Delivered rs y) (hrec : MasksRecovered hmac aes rs mask)
    (hdrop : ∀ id ∈ rs.completedIds, id ∉ rs.dropoutClients)
    (hpos : ∀ id ∈ rs.completedIds, 0 < rs.samples id)
    (htotal : ¬3329 ∣ ∑ id ∈ rs.completedIds, rs.samples id) :
    ∃ fed, aggregate hmac aes rs = .ok fed ∧
      Rows (rs.modelSize / rs.chunkSize) rs.chunkSize fed fun i j =>
        (∑ id ∈ rs.completedIds, (rs.samples id : Gf) * y id i j) *
          (∑ id ∈ rs.completedIds, (rs.samples id : Gf))⁻¹ := by
  obtain ⟨survivors, hsurvivors, hheld⟩ := foldlM_unmaskSurvivor hdel
  obtain ⟨unmasked, hunmasked, hframe⟩ := foldlM_unmaskDropout hchunk hdel hrec
    (fun id hid => hid) survivors
  have hcompleted : ∀ id ∈ rs.completedIds, ∃ chunks, unmasked.get? id = some chunks ∧
      Holds (rs.modelSize / rs.chunkSize) rs.chunkSize chunks (y id) := by
    intro id hid
    obtain ⟨c, hc, hdone⟩ := RoundState.mem_completedIds.mp hid
    rw [hframe id (hdrop id hid)]
    exact hheld id c hc (hdrop id hid) hdone
  obtain ⟨fed, hfed, hrows⟩ := computeFedavg_rows hchunk hpos htotal hcompleted
  refine ⟨fed, ?_, hrows⟩
  simp only [aggregate, unmaskClientChunks, RoundState.numChunks, hchunk, ↓reduceIte, bind,
    Except.bind, hsurvivors, hunmasked, hfed]

/-- With a chunk size of zero the server raises. -/
theorem not_aggregates_of_chunkSize_zero (hchunk : rs.chunkSize = 0) (r : Nat → Nat → Gf) :
    ¬Aggregates hmac aes rs r := by
  rintro ⟨fed, hfed, -⟩
  simp only [aggregate, unmaskClientChunks, RoundState.numChunks, hchunk, ↓reduceIte] at hfed
  cases hfed

/-- Rows that represent `r` are the canonical representatives of `r'` exactly when the tables are
    equal. -/
theorem aggregates_iff_of_rows {fed : Dict Nat (List Int)} {r r' : Nat → Nat → Gf}
    (hfed : aggregate hmac aes rs = .ok fed)
    (hrows : Rows (rs.modelSize / rs.chunkSize) rs.chunkSize fed r) :
    Aggregates hmac aes rs r' ↔
      ∀ i < rs.modelSize / rs.chunkSize, ∀ j < rs.chunkSize, r i j = r' i j := by
  constructor
  · rintro ⟨fed', hfed', hvals⟩ i hi j hj
    obtain rfl : fed = fed' := Except.ok.inj (hfed.symm.trans hfed')
    obtain ⟨row, hrow, -, hrep⟩ := hrows i hi
    obtain ⟨row', hrow', -, hval⟩ := hvals i hi
    obtain rfl : row = row' := Option.some.inj (hrow.symm.trans hrow')
    rw [← (hrep j hj).2, hval j hj, Gf.cast_val]
  · intro heq
    refine ⟨fed, hfed, fun i hi => ?_⟩
    obtain ⟨row, hrow, hlen, hrep⟩ := hrows i hi
    refine ⟨row, hrow, hlen, fun j hj => ?_⟩
    exact Gf.eq_val_of_cast_eq (hrep j hj).1 ((hrep j hj).2.trans (heq i hi j hj))

/-! ## Rounds without dropouts -/

theorem RoundState.completedIds_eq_ids
    (h : ∀ id c, rs.clients.get? id = some c → c.completed = true) : rs.completedIds = rs.ids := by
  apply Finset.filter_true_of_mem
  intro id hid
  obtain ⟨c, hc⟩ := Dict.mem_keys_iff.mp (List.mem_toFinset.mp hid)
  rw [RoundState.isCompleted, Dict.get?_eq_some_iff.mpr hc]
  exact h id c (Dict.get?_eq_some_iff.mpr hc)

/-- The values that clients store for plaintexts `x` and masks `m`. -/
def maskedValues (x m : Nat → Nat → Nat → Int) (id i j : Nat) : Int := (x id i j + m id i j) % 3329

theorem maskedValues_cast (x m : Nat → Nat → Nat → Int) (id i j : Nat) :
    (maskedValues x m id i j : Gf) = (x id i j : Gf) + (m id i j : Gf) := by
  rw [maskedValues, Gf.cast_emod, Int.cast_add]

/-- Without dropouts the server returns the plaintext weighted average exactly when the chunk size
    is not zero and the masks still cancel after they are weighted with the sample counts. -/
theorem dropoutFree_average_iff (hmac : Hmac) (aes : AesCtr) (rs : RoundState)
    (x m : Nat → Nat → Nat → Int) (hdropouts : rs.dropoutClients = [])
    (hcompleted : ∀ id c, rs.clients.get? id = some c → c.completed = true)
    (_hexpected : rs.ids.card = rs.expectedClients)
    (_hx : ∀ id i j, 0 ≤ x id i j ∧ x id i j ≤ 3328)
    (_hm : ∀ i j, (3329 : Int) ∣ ∑ id ∈ rs.ids, m id i j)
    (hstored : ∀ id c, rs.clients.get? id = some c → ∀ i < rs.modelSize / rs.chunkSize,
      c.receivedChunks.get? i =
        some (Bytes.packInt16BE ((List.range rs.chunkSize).map (maskedValues x m id i))))
    (hpos : ∀ id ∈ rs.ids, 0 < rs.samples id)
    (htotal : ¬3329 ∣ ∑ id ∈ rs.ids, rs.samples id) :
    Aggregates hmac aes rs (fun i j => (∑ id ∈ rs.ids, (rs.samples id : Gf) * x id i j) *
        (∑ id ∈ rs.ids, (rs.samples id : Gf))⁻¹) ↔
      rs.chunkSize ≠ 0 ∧ ∀ i < rs.modelSize / rs.chunkSize, ∀ j < rs.chunkSize,
        (3329 : Int) ∣ ∑ id ∈ rs.ids, rs.samples id * m id i j := by
  have hids := RoundState.completedIds_eq_ids hcompleted
  by_cases hchunk : rs.chunkSize = 0
  · simp only [hchunk, ne_eq, not_true_eq_false, false_and, iff_false]
    exact not_aggregates_of_chunkSize_zero hchunk _
  have hdel : Delivered rs (maskedValues x m) :=
    { canonical := fun id i j => canonical_emod _
      stored := fun id c hc i hi data hdata =>
        (Option.some.inj ((hstored id c hc i hi).symm.trans hdata)).symm
      complete := fun id c hc _ i hi => ⟨_, hstored id c hc i hi⟩ }
  have hrec : MasksRecovered hmac aes rs fun _ _ _ => 0 := by
    intro id hid
    simp [hdropouts] at hid
  obtain ⟨fed, hfed, hrows⟩ := aggregate_rows hchunk hdel hrec (by simp [hdropouts])
    (hids.symm ▸ hpos) (hids.symm ▸ htotal)
  rw [hids] at hrows
  have hinv : (∑ id ∈ rs.ids, (rs.samples id : Gf))⁻¹ ≠ 0 := by
    apply inv_ne_zero
    rw [← Nat.cast_sum, Ne, ZMod.natCast_eq_zero_iff]
    exact htotal
  -- the server's rows are those of the stored values; the normaliser cancels on both sides
  rw [aggregates_iff_of_rows hfed hrows]
  constructor
  · intro heq
    refine ⟨hchunk, fun i hi j hj => ?_⟩
    have hsum := mul_right_cancel₀ hinv (heq i hi j hj)
    simp only [maskedValues_cast, mul_add, Finset.sum_add_distrib, add_eq_left] at hsum
    rw [← Gf.cast_eq_zero_iff]
    push_cast
    exact hsum
  · rintro ⟨-, hdvd⟩ i hi j hj
    have hsum := (Gf.cast_eq_zero_iff _).mpr (hdvd i hi j hj)
    push_cast at hsum
    simp only [maskedValues_cast, mul_add, Finset.sum_add_distrib, hsum, add_zero]

/-- A client of a round with one chunk of one value. -/
def oneValueClient (id : Nat) (value : Int) (completed : Bool) (samples : Nat)
    (secret : Option Bytes) : ClientState :=
  { ClientState.new id with
    receivedChunks := Dict.empty.insert 0 (Bytes.packInt16BE [value])
    completed := completed
    sampleCount := samples
    sharedSecret := secret }

/-- A round with one chunk of one value. -/
def oneValueRound (cs : List ClientState) (hids : (cs.map ClientState.clientId).Nodup)
    (dropouts : List Nat) : RoundState :=
  { RoundState.new 1 cs.length 1 1 1 with
    clients := ⟨cs.map fun c => (c.clientId, c), by simpa [Function.comp_def] using hids⟩
    dropoutClients := dropouts
    registered := by
      intro id c hc
      rw [Dict.get?_eq_some_iff] at hc
      obtain ⟨c', -, heq⟩ := List.mem_map.mp hc
      cases heq
      rfl }

theorem mem_of_get?_oneValueRound {cs : List ClientState}
    {hids : (cs.map ClientState.clientId).Nodup} {dropouts : List Nat} {id : Nat} {c : ClientState}
    (h : (oneValueRound cs hids dropouts).clients.get? id = some c) :
    c ∈ cs ∧ c.clientId = id := by
  rw [Dict.get?_eq_some_iff] at h
  obtain ⟨c', hc', heq⟩ := List.mem_map.mp h
  cases heq
  exact ⟨hc', rfl⟩

theorem oneValueRound_numChunks {cs : List ClientState}
    {hids : (cs.map ClientState.clientId).Nodup} {dropouts : List Nat} :
    (oneValueRound cs hids dropouts).modelSize / (oneValueRound cs hids dropouts).chunkSize = 1 :=
  Nat.div_one 1

/-- The keyed hash with zero digests. -/
def zeroHmac : Hmac := fun _ _ => Bytes.zero32

/-- The keystream of words `1`. -/
def oneAes : AesCtr := fun _ _ len => ⟨(List.range len).map fun i => if i % 2 = 0 then 1 else 0, by
  simp⟩

/-- Clients 1 and 2 with equal sample counts and the plaintexts 5 and 9 under the masks 1 and 3328:
    the masks cancel and the average is exact. -/
theorem equal_weights_average :
    Aggregates zeroHmac oneAes
      (oneValueRound [oneValueClient 1 6 true 1 none, oneValueClient 2 8 true 1 none]
        (by decide) [])
      fun i j => (∑ id ∈ {1, 2}, ((1 : Nat) : Gf) * ((if id = 1 then 5 else 9 : Int) : Gf)) *
        (∑ _id ∈ ({1, 2} : Finset Nat), ((1 : Nat) : Gf))⁻¹ := by
  have hclient : ∀ id c, (oneValueRound
      [oneValueClient 1 6 true 1 none, oneValueClient 2 8 true 1 none] (by decide)
        []).clients.get? id = some c →
      (id = 1 ∧ c = oneValueClient 1 6 true 1 none) ∨
        (id = 2 ∧ c = oneValueClient 2 8 true 1 none) := by
    intro id c hc
    obtain ⟨hmem, rfl⟩ := mem_of_get?_oneValueRound hc
    simp only [List.mem_cons, List.not_mem_nil, or_false] at hmem
    rcases hmem with rfl | rfl
    · exact .inl ⟨rfl, rfl⟩
    · exact .inr ⟨rfl, rfl⟩
  -- the general statement with the masks 1 and 3328
  refine (dropoutFree_average_iff zeroHmac oneAes (oneValueRound
    [oneValueClient 1 6 true 1 none, oneValueClient 2 8 true 1 none] (by decide) [])
    (fun id _ _ => if id = 1 then 5 else 9) (fun id _ _ => if id = 1 then 1 else 3328)
    rfl ?_ rfl ?_ ?_ ?_ ?_ ?_).mpr ?_
  · intro id c hc
    rcases hclient id c hc with ⟨rfl, rfl⟩ | ⟨rfl, rfl⟩ <;> rfl
  · intro id i j
    split_ifs <;> decide
  · intro i j
    decide
  · intro id c hc i hi
    obtain rfl : i = 0 := by simpa [oneValueRound_numChunks] using hi
    rcases hclient id c hc with ⟨rfl, rfl⟩ | ⟨rfl, rfl⟩ <;> decide
  · decide
  · decide
  · refine ⟨by decide, fun i _ j _ => by decide⟩

/-- Clients 1 and 2 with sample counts 1 and 2 and plaintext 0 under the masks 1 and 3328: the
    server returns `2219`, the weighted mask over 3, not 0. -/
theorem unequal_weights_keep_masks :
    (3329 : Int) ∣ ∑ id ∈ ({1, 2} : Finset Nat), (if id = 1 then 1 else 3328 : Int) ∧
      ¬Aggregates zeroHmac oneAes
        (oneValueRound [oneValueClient 1 1 true 1 none, oneValueClient 2 3328 true 2 none]
          (by decide) []) fun _ _ => 0 := by
  refine ⟨by decide, ?_⟩
  rintro ⟨fed, hfed, hvals⟩
  have hrow : (aggregate zeroHmac oneAes (oneValueRound
      [oneValueClient 1 1 true 1 none, oneValueClient 2 3328 true 2 none] (by decide) [])).map
      (Dict.get? · 0) = .ok (some [2219]) := by
    decide +kernel
  rw [hfed] at hrow
  obtain ⟨row, hget, -, hval⟩ := hvals 0 (by decide)
  obtain rfl : row = [2219] := Option.some.inj (hget.symm.trans (Except.ok.inj hrow))
  exact absurd (hval 0 (by decide)) (by decide)

/-! ## Rounds with dropouts -/

/-- The total of the pairwise masks `p` of a client towards the others. -/
def totalMask (ids : Finset Nat) (p : Nat → Nat → Nat → Nat → Int) (id i j : Nat) : Int :=
  ∑ b ∈ ids.erase id, p id b i j

/-- With dropouts, and even if every dropped client's total mask is recovered exactly, the server
    returns the survivors' plaintext average exactly when the chunk size is not zero and the masks
    that survivors share with the clients that did not complete cancel by themselves. -/
theorem dropout_average_iff (hmac : Hmac) (aes : AesCtr) (rs : RoundState)
    (x : Nat → Nat → Nat → Int) (p : Nat → Nat → Nat → Nat → Int) (w : Nat)
    (_hx : ∀ id i j, 0 ≤ x id i j ∧ x id i j ≤ 3328)
    (hanti : ∀ a ∈ rs.ids, ∀ b ∈ rs.ids, a ≠ b → ∀ i j, (3329 : Int) ∣ p a b i j + p b a i j)
    (hstored : ∀ id c, rs.clients.get? id = some c → ∀ i < rs.modelSize / rs.chunkSize, ∀ data,
      c.receivedChunks.get? i = some data → data = Bytes.packInt16BE ((List.range rs.chunkSize).map
        (maskedValues x (totalMask rs.ids p) id i)))
    (hcomplete : ∀ id c, rs.clients.get? id = some c → c.completed = true →
      ∀ i < rs.modelSize / rs.chunkSize, ∃ data, c.receivedChunks.get? i = some data)
    (hdropped : ∀ id ∈ rs.dropoutClients, id ∉ rs.completedIds)
    (_hthreshold : rs.threshold ≤ rs.completedIds.card)
    (hequal : ∀ id ∈ rs.completedIds, rs.samples id = w) (hw : 0 < w)
    (htotal : ¬3329 ∣ ∑ id ∈ rs.completedIds, rs.samples id)
    (hrec : MasksRecovered hmac aes rs fun id i j => (totalMask rs.ids p id i j : Gf)) :
    Aggregates hmac aes rs (fun i j =>
        (∑ id ∈ rs.completedIds, (x id i j : Gf)) * (rs.completedIds.card : Gf)⁻¹) ↔
      rs.chunkSize ≠ 0 ∧ ∀ i < rs.modelSize / rs.chunkSize, ∀ j < rs.chunkSize,
        (3329 : Int) ∣ ∑ a ∈ rs.completedIds, ∑ b ∈ rs.ids \ rs.completedIds, p a b i j := by
  by_cases hchunk : rs.chunkSize = 0
  · simp only [hchunk, ne_eq, not_true_eq_false, false_and, iff_false]
    exact not_aggregates_of_chunkSize_zero hchunk _
  have hdel : Delivered rs (maskedValues x (totalMask rs.ids p)) :=
    { canonical := fun id i j => canonical_emod _
      stored := hstored
      complete := hcomplete }
  obtain ⟨fed, hfed, hrows⟩ := aggregate_rows hchunk hdel hrec
    (fun id hid hdrop => hdropped id hdrop hid) (fun id hid => hequal id hid ▸ hw) htotal
  rw [Finset.sum_congr rfl hequal, Finset.sum_const, smul_eq_mul] at htotal
  have hw' : (w : Gf) ≠ 0 := by
    rw [Ne, ZMod.natCast_eq_zero_iff]
    exact fun h => htotal (h.mul_left _)
  have hinv : (rs.completedIds.card : Gf)⁻¹ ≠ 0 := by
    apply inv_ne_zero
    rw [Ne, ZMod.natCast_eq_zero_iff]
    exact fun h => htotal (h.mul_right _)
  have hsub : rs.completedIds ⊆ rs.ids := Finset.filter_subset _ _
  -- the equal weights cancel
  have havg : ∀ i j, (∑ id ∈ rs.completedIds, (rs.samples id : Gf) *
        maskedValues x (totalMask rs.ids p) id i j) *
      (∑ id ∈ rs.completedIds, (rs.samples id : Gf))⁻¹ =
      (∑ id ∈ rs.completedIds, (x id i j : Gf) +
        ∑ a ∈ rs.completedIds, ∑ b ∈ rs.ids \ rs.completedIds, (p a b i j : Gf)) *
          (rs.completedIds.card : Gf)⁻¹ := by
    intro i j
    have hweights : ∑ id ∈ rs.completedIds, (rs.samples id : Gf) = rs.completedIds.card * w := by
      rw [Finset.sum_congr rfl fun id hid => by rw [hequal id hid], Finset.sum_const, nsmul_eq_mul]
    have hsums : ∑ id ∈ rs.completedIds, (rs.samples id : Gf) *
        maskedValues x (totalMask rs.ids p) id i j = w * ∑ id ∈ rs.completedIds,
          ((x id i j : Gf) + ∑ b ∈ rs.ids.erase id, (p id b i j : Gf)) := by
      rw [Finset.mul_sum]
      apply Finset.sum_congr rfl
      intro id hid
      rw [hequal id hid, maskedValues_cast, totalMask, Int.cast_sum]
    rw [hsums, hweights, mul_inv, Finset.sum_add_distrib,
      Finset.sum_erase_eq_sum_sdiff hsub]
    · field_simp
    · intro a ha b hb hab
      have hzero := (Gf.cast_eq_zero_iff _).mpr (hanti a (hsub ha) b (hsub hb) hab i j)
      rwa [Int.cast_add] at hzero
  rw [aggregates_iff_of_rows hfed hrows]
  simp only [havg, mul_left_inj' hinv, add_eq_left]
  constructor
  · intro heq
    refine ⟨hchunk, fun i hi j hj => ?_⟩
    rw [← Gf.cast_eq_zero_iff]
    push_cast
    exact heq i hi j hj
  · rintro ⟨-, hdvd⟩ i hi j hj
    have hsum := (Gf.cast_eq_zero_iff _).mpr (hdvd i hi j hj)
    push_cast at hsum
    exact hsum

/-- Pairwise masks made from the words `1`. -/
def unitMasks : Nat → Nat → Nat → Nat → Int := fun a b _ _ => if a < b then 1 else -1

/-- A one-value round recovers the masks of its only dropped client when the recovery of its secret
    computes them. -/
theorem masksRecovered_oneValueRound {cs : List ClientState}
    {hids : (cs.map ClientState.clientId).Nodup} {d : Nat} (secret : Bytes) (v : Int)
    {mask : Nat → Nat → Nat → Gf}
    (hsecret : ∀ c ∈ cs, c.clientId = d → c.sharedSecret = some secret)
    (hmasks : (recoverDroppedClientMasks zeroHmac oneAes secret 1
      ((oneValueRound cs hids [d]).clients.keys.filter (· ≠ d)) d 1 1).map (Dict.get? · 0) =
        .ok (some [v])) (hv : (v : Gf) = mask d 0 0) :
    MasksRecovered zeroHmac oneAes (oneValueRound cs hids [d]) mask := by
  intro id hid c secret' hc hs _
  obtain rfl : id = d := by simpa [oneValueRound] using hid
  obtain ⟨hmem, heq⟩ := mem_of_get?_oneValueRound hc
  obtain rfl : secret' = secret := Option.some.inj (hs.symm.trans (hsecret c hmem heq))
  cases hrec : recoverDroppedClientMasks zeroHmac oneAes secret' 1
      ((oneValueRound cs hids [id]).clients.keys.filter (· ≠ id)) id 1 1 with
  | error e =>
    rw [hrec] at hmasks
    cases hmasks
  | ok masks =>
    rw [hrec] at hmasks
    refine ⟨masks, by rw [oneValueRound_numChunks]; exact hrec, fun i hi => ?_⟩
    -- there is one chunk of one value
    obtain rfl : i = 0 := by simpa [oneValueRound_numChunks] using hi
    refine ⟨[v], Except.ok.inj hmasks, rfl, fun j hj => ?_⟩
    obtain rfl : j = 0 := by simpa [oneValueRound, RoundState.new] using hj
    exact hv

/-- Client 2 of three drops out between the two survivors with plaintexts 5 and 9, whose masks
    towards it cancel: the average 7 is exact. -/
theorem balanced_dropout_average :
    Aggregates zeroHmac oneAes
      (oneValueRound [oneValueClient 1 7 true 1 none,
        oneValueClient 2 0 false 0 (some Bytes.zero32.val), oneValueClient 3 7 true 1 none]
        (by decide) [2])
      fun _ _ => (∑ id ∈ ({1, 3} : Finset Nat), ((if id = 1 then 5 else if id = 2 then 0 else 9 :
        Int) : Gf)) * (({1, 3} : Finset Nat).card : Gf)⁻¹ := by
  -- the masks of the two survivors towards client 2 are opposite
  refine (dropout_average_iff zeroHmac oneAes (oneValueRound
    [oneValueClient 1 7 true 1 none, oneValueClient 2 0 false 0 (some Bytes.zero32.val),
      oneValueClient 3 7 true 1 none] (by decide) [2])
    (fun id _ _ => if id = 1 then 5 else if id = 2 then 0 else 9) unitMasks 1
    ?_ ?_ ?_ ?_ ?_ ?_ ?_ ?_ ?_ ?_).mpr ?_
  · intro id i j
    split_ifs <;> decide
  · intro a _ b _ hab i j
    simp only [unitMasks]
    split_ifs <;> omega
  -- what is stored is the plaintext with its mask
  · intro id c hc i hi data hdata
    obtain rfl : i = 0 := by simpa [oneValueRound_numChunks] using hi
    obtain ⟨hmem, rfl⟩ := mem_of_get?_oneValueRound hc
    simp only [List.mem_cons, List.not_mem_nil, or_false] at hmem
    rcases hmem with rfl | rfl | rfl <;> exact (Option.some.inj hdata).symm.trans (by decide)
  · intro id c hc _ i hi
    obtain rfl : i = 0 := by simpa [oneValueRound_numChunks] using hi
    obtain ⟨hmem, rfl⟩ := mem_of_get?_oneValueRound hc
    simp only [List.mem_cons, List.not_mem_nil, or_false] at hmem
    rcases hmem with rfl | rfl | rfl <;> exact ⟨_, rfl⟩
  · decide
  · decide
  · decide
  · decide
  · decide
  · exact masksRecovered_oneValueRound Bytes.zero32.val 0
      (by simp [oneValueClient, ClientState.new])
      (by decide +kernel) (by decide)
  · refine ⟨by decide, fun i _ j _ => ?_⟩
    change (3329 : Int) ∣ ∑ a ∈ _, ∑ b ∈ _, if a < b then 1 else -1
    decide

/-- Client 2 of two drops out and its mask is recovered exactly; the server returns the mask of
    client 1 towards it instead of the plaintext 0. -/
theorem dropout_leaves_survivor_mask :
    MasksRecovered zeroHmac oneAes
      (oneValueRound [oneValueClient 1 1 true 1 none,
        oneValueClient 2 3328 false 0 (some Bytes.zero32.val)] (by decide) [2])
      (fun id i j => (totalMask {1, 2} unitMasks id i j : Gf)) ∧
    ¬Aggregates zeroHmac oneAes
      (oneValueRound [oneValueClient 1 1 true 1 none,
        oneValueClient 2 3328 false 0 (some Bytes.zero32.val)] (by decide) [2]) fun _ _ => 0 := by
  constructor
  · exact masksRecovered_oneValueRound Bytes.zero32.val 3328
      (by simp [oneValueClient, ClientState.new]) (by decide +kernel) (by decide)
  · rintro ⟨fed, hfed, hvals⟩
    have hrow : (aggregate zeroHmac oneAes (oneValueRound [oneValueClient 1 1 true 1 none,
        oneValueClient 2 3328 false 0 (some Bytes.zero32.val)] (by decide) [2])).map
        (Dict.get? · 0) = .ok (some [1]) := by
      decide +kernel
    rw [hfed] at hrow
    obtain ⟨row, hget, -, hval⟩ := hvals 0 (by decide)
    obtain rfl : row = [1] := Option.some.inj (hget.symm.trans (Except.ok.inj hrow))
    exact absurd (hval 0 (by decide)) (by decide)

end SwiftAgg.Host
