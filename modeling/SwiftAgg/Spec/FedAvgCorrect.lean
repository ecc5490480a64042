import SwiftAgg.Host.RoundState
import SwiftAgg.Spec.ReconstructCorrect
import SwiftAgg.ForStd.List
import SwiftAgg.ForStd.Except

/-!
# What the server averages

`_compute_fedavg` adds the weighted chunks of all completed clients into rows,
one client after the other, and multiplies every row by the inverse of the
total. Over it stands the table of field elements that the rows represent: a
client adds its weighted values to the table, the normalisation divides it.

## Key results

- `Rows.foldlM_range`: one client's chunks, in the table
- `totalSamples_eq_ite`: the total, by the counts of the completed clients in the table
- `computeFedavg_table`: what the result represents, with missing chunks and any sample counts
- `computeFedavg_canonical`: the result can be sent, whatever was averaged
- `computeFedavg_rows`: the result represents the weighted average of the completed clients
-/

namespace SwiftAgg.Host

/-- The rows `fed` of a round with `num` chunks of `n` values represent the table `r`. -/
def Rows (num n : Nat) (fed : Dict Nat (List Int)) (r : Nat → Nat → Gf) : Prop :=
  ∀ i < num, ∃ row, fed.get? i = some row ∧ row.length = n ∧
    ∀ j < n, Canonical (row.getD j 0) ∧ ((row.getD j 0 : Int) : Gf) = r i j

/-- The chunks hold the values `y` of all `num` chunks. -/
def Holds (num n : Nat) (chunks : Dict Nat (List Int)) (y : Nat → Nat → Int) : Prop :=
  ∀ i < num, chunks.get? i = some ((List.range n).map (y i))

/-- Value `j` of chunk `i`; a chunk that is not there counts as zeros. -/
def chunkValue (chunks : Dict Nat (List Int)) (i j : Nat) : Int :=
  ((chunks.get? i).getD []).getD j 0

/-- The chunks of the round that are there have `n` values. -/
def Fits (num n : Nat) (chunks : Dict Nat (List Int)) : Prop :=
  ∀ i < num, ∀ values, chunks.get? i = some values → values.length = n

variable {num n : Nat}

theorem Holds.fits {chunks : Dict Nat (List Int)} {y : Nat → Nat → Int}
    (h : Holds num n chunks y) : Fits num n chunks := by
  intro i hi values hvalues
  obtain rfl : (List.range n).map (y i) = values := Option.some.inj ((h i hi).symm.trans hvalues)
  rw [List.length_map, List.length_range]

theorem Holds.chunkValue_eq {chunks : Dict Nat (List Int)} {y : Nat → Nat → Int}
    (h : Holds num n chunks y) {i j : Nat} (hi : i < num) (hj : j < n) :
    chunkValue chunks i j = y i j := by
  rw [chunkValue, h i hi, Option.getD_some, List.getD_eq_getElem _ _ (by simpa using hj),
    List.getElem_map, List.getElem_range]

theorem Rows.congr {fed : Dict Nat (List Int)} {r r' : Nat → Nat → Gf} (h : Rows num n fed r)
    (heq : ∀ i < num, ∀ j < n, r i j = r' i j) : Rows num n fed r' := by
  intro i hi
  obtain ⟨row, hrow, hlen, hvals⟩ := h i hi
  refine ⟨row, hrow, hlen, fun j hj => ?_⟩
  rw [← heq i hi j hj]
  exact hvals j hj

/-! ## One client -/

theorem addChunk_eq {weight : Nat} {row values : List Int} (h : row.length = values.length) :
    addChunk weight row values =
      .ok (List.zipWith (fun acc val => (acc + val * weight) % fieldModulus) row values) := by
  rw [addChunk, if_neg (by omega), List.drop_eq_nil_of_le (by omega), List.append_nil]

/-- Adding one chunk of `n` values to its row. -/
theorem Rows.insert_zipWith {fed : Dict Nat (List Int)} {r : Nat → Nat → Gf} (h : Rows num n fed r)
    (weight : Nat) {values : List Int} (hvalues : values.length = n) {i : Nat} {row : List Int}
    (hrow : fed.get? i = some row) (hi : i < num) :
    Rows num n (fed.insert i (List.zipWith (fun acc val => (acc + val * weight) % fieldModulus) row
      values)) fun k j => if k = i then r k j + weight * (values.getD j 0 : Int) else r k j := by
  obtain ⟨row', hrow', hlen, hvals⟩ := h i hi
  obtain rfl : row' = row := Option.some.inj (hrow'.symm.trans hrow)
  intro k hk
  rw [Dict.get?_insert]
  -- only row `i` changes
  by_cases hki : k = i
  · subst hki
    refine ⟨_, if_pos rfl, by simp [hlen, hvalues], fun j hj => ?_⟩
    have hget : (List.zipWith (fun acc val => (acc + val * weight) % fieldModulus) row'
        values).getD j 0 = (row'.getD j 0 + values.getD j 0 * weight) % 3329 := by
      rw [List.getD_eq_getElem _ _ (by simp [hlen, hvalues, hj]), List.getElem_zipWith,
        List.getD_eq_getElem _ _ (by omega), List.getD_eq_getElem _ _ (by omega), fieldModulus]
    simp only [hget, ↓reduceIte]
    refine ⟨canonical_emod _, ?_⟩
    rw [Gf.cast_emod, Int.cast_add, (hvals j hj).2, Int.cast_mul, mul_comm, Int.cast_natCast]
  · simp only [if_neg hki]
    exact h k hk

/-- Part of the chunks of one client: the rows of that part gain the weighted values. -/
theorem Rows.foldlM_addSeqChunk (weight : Nat) {chunks : Dict Nat (List Int)}
    (hfits : Fits num n chunks) {l : List Nat} (hnodup : l.Nodup) (hlt : ∀ i ∈ l, i < num)
    {fed : Dict Nat (List Int)} {r : Nat → Nat → Gf} (h : Rows num n fed r) :
    ∃ fed', l.foldlM (addSeqChunk weight chunks) fed = .ok fed' ∧ fed'.keys = fed.keys ∧
      Rows num n fed' fun i j =>
        if i ∈ l then r i j + weight * (chunkValue chunks i j : Int) else r i j := by
  induction l generalizing fed r with
  | nil => exact ⟨fed, rfl, rfl, h.congr fun i _ j _ => by simp⟩
  | cons s l ih =>
    obtain ⟨hs, hnodup'⟩ := List.nodup_cons.mp hnodup
    have hsnum : s < num := hlt s (by simp)
    have hlt' : ∀ i ∈ l, i < num := fun i hi => hlt i (List.mem_cons_of_mem s hi)
    obtain ⟨row, hrow, hlen, -⟩ := h s hsnum
    cases hchunk : chunks.get? s with
    | none =>
      -- a missing chunk counts as zeros
      have hstep : addSeqChunk weight chunks fed s = .ok fed := by simp only [addSeqChunk, hchunk]
      obtain ⟨fed', hfold, hkeys, hrows⟩ := ih hnodup' hlt' h
      refine ⟨fed', ?_, hkeys, hrows.congr fun i _ j _ => ?_⟩
      · rw [List.foldlM_cons, hstep]
        exact hfold
      · by_cases his : i = s
        · subst his
          simp [hs, chunkValue, hchunk]
        · simp [his]
    | some values =>
      have hvalues := hfits s hsnum values hchunk
      have hstep : addSeqChunk weight chunks fed s = .ok (fed.insert s (List.zipWith
          (fun acc val => (acc + val * weight) % fieldModulus) row values)) := by
        simp only [addSeqChunk, hchunk, hrow]
        rw [addChunk_eq (hlen.trans hvalues.symm)]
        rfl
      obtain ⟨fed', hfold, hkeys, hrows⟩ := ih hnodup' hlt'
        (h.insert_zipWith weight hvalues hrow hsnum)
      refine ⟨fed', ?_, ?_, hrows.congr fun i _ j _ => ?_⟩
      · rw [List.foldlM_cons, hstep]
        exact hfold
      · rw [hkeys, Dict.keys_insert_of_mem _ (Dict.mem_keys_of_get? hrow)]
      · by_cases his : i = s
        · subst his
          simp [hs, chunkValue, hchunk]
        · simp [his]

/-- All chunks of one client: every row gains the client's weighted values. -/
theorem Rows.foldlM_range {fed : Dict Nat (List Int)} {r : Nat → Nat → Gf}
    (h : Rows num n fed r) (weight : Nat) {chunks : Dict Nat (List Int)}
    (hfits : Fits num n chunks) :
    ∃ fed', (List.range num).foldlM (addSeqChunk weight chunks) fed = .ok fed' ∧
      fed'.keys = fed.keys ∧
      Rows num n fed' fun i j => r i j + weight * (chunkValue chunks i j : Int) := by
  obtain ⟨fed', hfold, hkeys, hrows⟩ := h.foldlM_addSeqChunk weight hfits List.nodup_range
    fun i hi => List.mem_range.mp hi
  refine ⟨fed', hfold, hkeys, hrows.congr fun i hi j _ => ?_⟩
  rw [if_pos (List.mem_range.mpr hi)]

/-! ## All clients -/

/-- The ids of the registered clients. -/
def RoundState.ids (rs : RoundState) : Finset Nat := rs.clients.keys.toFinset

/-- The client with this id has completed the round. -/
def RoundState.isCompleted (rs : RoundState) (id : Nat) : Bool :=
  (rs.clients.get? id).any ClientState.completed

/-- The ids of the clients that completed the round. -/
def RoundState.completedIds (rs : RoundState) : Finset Nat :=
  rs.ids.filter fun id => rs.isCompleted id

/-- The sample count a client reported. -/
def RoundState.samples (rs : RoundState) (id : Nat) : Nat :=
  ((rs.clients.get? id).map ClientState.sampleCount).getD 0

theorem RoundState.mem_completedIds {rs : RoundState} {id : Nat} :
    id ∈ rs.completedIds ↔ ∃ c, rs.clients.get? id = some c ∧ c.completed = true := by
  simp only [completedIds, ids, isCompleted, Finset.mem_filter, List.mem_toFinset,
    Option.any_eq_true]
  constructor
  · rintro ⟨-, h⟩
    exact h
  · rintro ⟨c, hc, hcomp⟩
    exact ⟨Dict.mem_keys_of_get? hc, c, hc, hcomp⟩

theorem RoundState.samples_eq {rs : RoundState} {id : Nat} {c : ClientState}
    (h : rs.clients.get? id = some c) : rs.samples id = c.sampleCount := by
  simp [samples, h]

theorem ClientState.weight_eq {c : ClientState} (h : 0 < c.sampleCount) :
    c.weight = c.sampleCount := if_pos h

/-- The weight with which a client enters the sum: none if it has not completed. -/
def RoundState.weight (rs : RoundState) (id : Nat) : Nat :=
  match rs.clients.get? id with
  | some c => if c.completed then c.weight else 0
  | none => 0

theorem RoundState.weight_eq {rs : RoundState} {id : Nat} {c : ClientState}
    (h : rs.clients.get? id = some c) (hdone : c.completed = true) : rs.weight id = c.weight := by
  simp only [RoundState.weight, h, hdone, ↓reduceIte]

theorem RoundState.weight_eq_zero {rs : RoundState} {id : Nat} (h : id ∉ rs.completedIds) :
    rs.weight id = 0 := by
  unfold RoundState.weight
  split
  · rename_i c hc
    split
    · rename_i hdone
      exact absurd (RoundState.mem_completedIds.mpr ⟨c, hc, hdone⟩) h
    · rfl
  · rfl

/-- What the sums are multiplied with in the end. -/
def RoundState.normaliser (rs : RoundState)
    (clientUnmasked : Dict Nat (Dict Nat (List Int))) : Gf :=
  if 1 < totalSamples rs clientUnmasked then (modInv (totalSamples rs clientUnmasked) : Gf) else 1

section

variable {rs : RoundState} {unmasked : Dict Nat (Dict Nat (List Int))} {y : Nat → Nat → Nat → Int}

/-- The loop puts a row of zeros under every number. -/
theorem entries_zeroChunks :
    (zeroChunks num n).entries = (List.range num).map fun i => (i, List.replicate n 0) := by
  have hnew : ∀ i ∈ List.range num, i ∉ (Dict.empty : Dict Nat (List Int)).keys :=
    fun _ _ h => nomatch h
  exact (Dict.entries_foldl_insert _ List.nodup_range hnew).trans (List.nil_append _)

theorem keys_zeroChunks : (zeroChunks num n).keys = List.range num := by
  rw [Dict.keys, entries_zeroChunks, List.map_map]
  exact List.map_id _

/-- The zero rows. -/
theorem rows_zeroChunks : Rows num n (zeroChunks num n) fun _ _ => 0 := by
  intro i hi
  have hrow : (zeroChunks num n).get? i = some (List.replicate n 0) := by
    rw [Dict.get?_eq_some_iff, entries_zeroChunks]
    exact List.mem_map_of_mem (List.mem_range.mpr hi)
  refine ⟨_, hrow, List.length_replicate, fun j hj => ?_⟩
  rw [List.getD_replicate _ hj]
  exact ⟨canonical_zero, Int.cast_zero⟩

/-- The client loop: the table gains the weighted values of the completed clients. -/
theorem Rows.foldlM_addClient {l : List (Nat × Dict Nat (List Int))}
    (hl : ∀ e ∈ l, e.1 ∈ rs.completedIds → Fits num n e.2) {fed : Dict Nat (List Int)}
    {r : Nat → Nat → Gf} (h : Rows num n fed r) :
    ∃ fed', l.foldlM (addClient rs num) fed = .ok fed' ∧ fed'.keys = fed.keys ∧
      Rows num n fed' fun i j => r i j +
        (l.map fun e => (rs.weight e.1 : Gf) * (chunkValue e.2 i j : Int)).sum := by
  induction l generalizing fed r with
  | nil => exact ⟨fed, rfl, rfl, h.congr fun i _ j _ => by simp⟩
  | cons e l ih =>
    have hl' := fun e' he' => hl e' (List.mem_cons_of_mem e he')
    rw [List.foldlM_cons]
    by_cases hcomp : e.1 ∈ rs.completedIds
    · obtain ⟨c, hc, hdone⟩ := RoundState.mem_completedIds.mp hcomp
      obtain ⟨fed₁, hstep, hkeys₁, hrows₁⟩ := h.foldlM_range c.weight (hl e (by simp) hcomp)
      obtain ⟨fed', hfold, hkeys, hrows⟩ := ih hl' hrows₁
      refine ⟨fed', ?_, hkeys.trans hkeys₁, hrows.congr fun i _ j _ => ?_⟩
      · simp only [addClient, hc, hdone, ↓reduceIte, hstep]
        exact hfold
      · rw [List.map_cons, List.sum_cons, rs.weight_eq hc hdone, add_assoc]
    · -- a client that has not completed, or is not registered, has weight zero
      obtain ⟨fed', hfold, hkeys, hrows⟩ := ih hl' h
      refine ⟨fed', ?_, hkeys, hrows.congr fun i _ j _ => ?_⟩
      · cases hc : rs.clients.get? e.1 with
        | none =>
          simp only [addClient, hc]
          exact hfold
        | some c =>
          have hdone : c.completed = false := by
            by_contra hne
            exact hcomp (RoundState.mem_completedIds.mpr ⟨c, hc, by simpa using hne⟩)
          simp only [addClient, hc, hdone, Bool.false_eq_true, ↓reduceIte]
          exact hfold
      · rw [List.map_cons, List.sum_cons, rs.weight_eq_zero hcomp, Nat.cast_zero, zero_mul,
          zero_add]

/-- Only completed clients enter a weighted sum over the table. -/
theorem sum_weighted (hin : ∀ id ∈ rs.completedIds, id ∈ unmasked.keys)
    {value : Nat × Dict Nat (List Int) → Gf} {g : Nat → Gf}
    (h : ∀ e ∈ unmasked.entries, e.1 ∈ rs.completedIds → rs.weight e.1 * value e = g e.1) :
    (unmasked.entries.map fun e => (rs.weight e.1 : Gf) * value e).sum =
      ∑ id ∈ rs.completedIds, g id := by
  have hzero : ∀ e ∈ unmasked.entries, e.1 ∉ rs.completedIds →
      (rs.weight e.1 : Gf) * value e = 0 := by
    intro e _ hid
    rw [rs.weight_eq_zero hid, Nat.cast_zero, zero_mul]
  rw [← unmasked.sum_filter_entries hin, List.sum_map_filter_of_zero _ hzero]
  refine congrArg List.sum (List.map_congr_left fun e he => ?_)
  obtain ⟨he, hid⟩ := List.mem_filter.mp he
  exact h e he (of_decide_eq_true hid)

/-- The completed clients in the table. -/
def RoundState.counted (rs : RoundState) (unmasked : Dict Nat (Dict Nat (List Int))) :
    Finset Nat :=
  rs.completedIds.filter fun id => id ∈ unmasked.keys

theorem RoundState.mem_counted {id : Nat} :
    id ∈ rs.counted unmasked ↔ id ∈ rs.completedIds ∧ id ∈ unmasked.keys :=
  Finset.mem_filter

/-- The clients the total looks at are the completed ones in the table. -/
theorem filter_values_eq (rs : RoundState) (unmasked : Dict Nat (Dict Nat (List Int))) :
    (rs.clients.values.filter fun c => c.completed && unmasked.contains c.clientId) =
      (rs.clients.entries.filter fun e => e.1 ∈ rs.counted unmasked).map Prod.snd := by
  rw [Dict.values, List.filter_map]
  congr 1
  apply List.filter_congr
  rintro ⟨id, c⟩ he
  have hc : rs.clients.get? id = some c := Dict.get?_eq_some_iff.mpr he
  have hid : c.clientId = id := rs.registered id c hc
  simp only [Function.comp_apply, hid]
  rw [Bool.eq_iff_iff]
  simp only [Bool.and_eq_true, decide_eq_true_eq, Dict.contains_eq_true_iff,
    RoundState.mem_counted, RoundState.mem_completedIds]
  constructor
  · rintro ⟨hdone, hin⟩
    exact ⟨⟨c, hc, hdone⟩, hin⟩
  · rintro ⟨⟨c', hc', hdone⟩, hin⟩
    obtain rfl : c' = c := Option.some.inj (hc'.symm.trans hc)
    exact ⟨hdone, hin⟩

/-- The total is the number of samples, or that of clients if there are no samples. -/
theorem totalSamples_eq_ite (rs : RoundState) (unmasked : Dict Nat (Dict Nat (List Int))) :
    totalSamples rs unmasked =
      let samples := ∑ id ∈ rs.counted unmasked, rs.samples id
      if samples = 0 then (rs.counted unmasked).card else samples := by
  have hkeys : ∀ id ∈ rs.counted unmasked, id ∈ rs.clients.keys := by
    intro id hid
    obtain ⟨c, hc, -⟩ := RoundState.mem_completedIds.mp (RoundState.mem_counted.mp hid).1
    exact Dict.mem_keys_of_get? hc
  have hsamples : ((rs.clients.entries.filter fun e => e.1 ∈ rs.counted unmasked).map
      Prod.snd).map ClientState.sampleCount =
      (rs.clients.entries.filter fun e => e.1 ∈ rs.counted unmasked).map
        fun e => rs.samples e.1 := by
    rw [List.map_map]
    apply List.map_congr_left
    rintro ⟨id, c⟩ he
    exact (rs.samples_eq (Dict.get?_eq_some_iff.mpr (List.mem_filter.mp he).1)).symm
  have hcard : (rs.clients.entries.filter fun e => e.1 ∈ rs.counted unmasked).length =
      (rs.counted unmasked).card := by
    have hones := rs.clients.sum_filter_entries hkeys fun _ => 1
    rwa [List.map_const', List.sum_replicate_nat, Nat.mul_one, ← Finset.card_eq_sum_ones] at hones
  simp only [totalSamples, filter_values_eq, List.length_map, hcard]
  rw [← List.sum_map_filter_of_zero (fun c : ClientState => 0 < c.sampleCount) fun c _ hc => by
    omega, hsamples, rs.clients.sum_filter_entries hkeys]

/-- Where some completed client has samples and all of them are in the table, the normaliser is the
    sum of the sample counts. -/
theorem totalSamples_eq (hin : ∀ id ∈ rs.completedIds, id ∈ unmasked.keys)
    (hne : ∑ id ∈ rs.completedIds, rs.samples id ≠ 0) :
    totalSamples rs unmasked = ∑ id ∈ rs.completedIds, rs.samples id := by
  have hcounted : rs.counted unmasked = rs.completedIds := Finset.filter_true_of_mem hin
  simp only [totalSamples_eq_ite, hcounted, hne, ↓reduceIte]

/-- Multiplying all rows by an integer multiplies the table. -/
theorem Rows.mapValues {fed : Dict Nat (List Int)} {r : Nat → Nat → Gf} (h : Rows num n fed r)
    (factor : Int) :
    Rows num n (fed.mapValues fun _ row => row.map fun v => v * factor % fieldModulus)
      fun i j => r i j * factor := by
  intro i hi
  obtain ⟨row, hrow, hlen, hvals⟩ := h i hi
  refine ⟨_, by rw [Dict.get?_mapValues, hrow, Option.map_some], by rw [List.length_map, hlen], ?_⟩
  intro j hj
  have hget : (row.map fun v => v * factor % fieldModulus).getD j 0 =
      row.getD j 0 * factor % 3329 := by
    rw [List.getD_eq_getElem _ _ (by rw [List.length_map]; omega), List.getElem_map,
      List.getD_eq_getElem _ _ (by omega), fieldModulus]
  rw [hget, Gf.cast_emod, Int.cast_mul, (hvals j hj).2]
  exact ⟨canonical_emod _, rfl⟩

/-- `_compute_fedavg` gives the rows of the round, in order, which represent the normalised sum of
    the completed clients' weighted values. -/
theorem computeFedavg_table (hchunk : rs.chunkSize ≠ 0)
    (hfits : ∀ e ∈ unmasked.entries, e.1 ∈ rs.completedIds →
      Fits (rs.modelSize / rs.chunkSize) rs.chunkSize e.2) :
    ∃ fed, computeFedavg rs unmasked = .ok fed ∧
      fed.keys = List.range (rs.modelSize / rs.chunkSize) ∧
      Rows (rs.modelSize / rs.chunkSize) rs.chunkSize fed fun i j =>
        (unmasked.entries.map fun e => (rs.weight e.1 : Gf) * (chunkValue e.2 i j : Int)).sum *
          rs.normaliser unmasked := by
  obtain ⟨sums, hfold, hkeys, hsums⟩ := rows_zeroChunks.foldlM_addClient hfits
  simp only [zero_add] at hsums
  simp only [computeFedavg, RoundState.numChunks, hchunk, ↓reduceIte]
  -- with one sample the sums are not divided
  by_cases hone : 1 < totalSamples rs unmasked
  · refine ⟨_, ?_, ?_, (hsums.mapValues (modInv (totalSamples rs unmasked))).congr
      fun i _ j _ => ?_⟩
    · simp only [hone, ↓reduceIte, bind, Except.bind]
      rw [hfold]
      rfl
    · rw [Dict.keys_mapValues, hkeys, keys_zeroChunks]
    · rw [RoundState.normaliser, if_pos hone]
  · refine ⟨sums, ?_, hkeys.trans keys_zeroChunks, hsums.congr fun i _ j _ => ?_⟩
    · simp only [hone, ↓reduceIte, bind, Except.bind]
      rw [hfold]
      rfl
    · rw [RoundState.normaliser, if_neg hone, mul_one]

/-- `_compute_fedavg` returns the weighted average of the completed clients' values. -/
theorem computeFedavg_rows (hchunk : rs.chunkSize ≠ 0)
    (hpos : ∀ id ∈ rs.completedIds, 0 < rs.samples id)
    (htotal : ¬3329 ∣ ∑ id ∈ rs.completedIds, rs.samples id)
    (hunmasked : ∀ id ∈ rs.completedIds, ∃ chunks, unmasked.get? id = some chunks ∧
      Holds (rs.modelSize / rs.chunkSize) rs.chunkSize chunks (y id)) :
    ∃ fed, computeFedavg rs unmasked = .ok fed ∧
      Rows (rs.modelSize / rs.chunkSize) rs.chunkSize fed fun i j =>
        (∑ id ∈ rs.completedIds, (rs.samples id : Gf) * y id i j) *
          (∑ id ∈ rs.completedIds, (rs.samples id : Gf))⁻¹ := by
  have hkeys : ∀ id ∈ rs.completedIds, id ∈ unmasked.keys := by
    intro id hid
    obtain ⟨chunks, hget, -⟩ := hunmasked id hid
    exact Dict.mem_keys_of_get? hget
  have hne : ∑ id ∈ rs.completedIds, rs.samples id ≠ 0 := by
    intro hzero
    exact htotal (hzero ▸ dvd_zero _)
  have hheld : ∀ e ∈ unmasked.entries, e.1 ∈ rs.completedIds →
      Holds (rs.modelSize / rs.chunkSize) rs.chunkSize e.2 (y e.1) := by
    rintro ⟨id, chunks⟩ he hid
    obtain ⟨chunks', hget, hholds⟩ := hunmasked id hid
    obtain rfl : chunks' = chunks :=
      Option.some.inj (hget.symm.trans (Dict.get?_eq_some_iff.mpr he))
    exact hholds
  -- what the loops compute, whatever the normaliser is
  obtain ⟨fed, hfed, -, hrows⟩ := computeFedavg_table hchunk fun e he hid => (hheld e he hid).fits
  refine ⟨fed, hfed, hrows.congr fun i hi j hj => ?_⟩
  have hsum : (unmasked.entries.map fun e =>
      (rs.weight e.1 : Gf) * (chunkValue e.2 i j : Int)).sum =
      ∑ id ∈ rs.completedIds, (rs.samples id : Gf) * y id i j := by
    refine sum_weighted hkeys fun e he hid => ?_
    obtain ⟨c, hc, hdone⟩ := RoundState.mem_completedIds.mp hid
    have hsamples := rs.samples_eq hc
    rw [(hheld e he hid).chunkValue_eq hi hj, rs.weight_eq hc hdone, hsamples,
      ClientState.weight_eq (hsamples ▸ hpos e.1 hid)]
  have hcast : ((∑ id ∈ rs.completedIds, rs.samples id : Nat) : Gf) =
      ∑ id ∈ rs.completedIds, (rs.samples id : Gf) := by
    push_cast
    rfl
  rw [hsum, RoundState.normaliser, totalSamples_eq hkeys hne]
  split
  · rw [modInv_cast, Int.cast_natCast, hcast]
  · rename_i hone
    have htotal_one : ∑ id ∈ rs.completedIds, rs.samples id = 1 := by omega
    rw [← hcast, htotal_one, Nat.cast_one, inv_one]

end

/-! ## The rows that are sent -/

/-- Every row has `n` canonical values. -/
def CanonicalRows (n : Nat) (fed : Dict Nat (List Int)) : Prop :=
  ∀ i row, fed.get? i = some row → row.length = n ∧ ∀ v ∈ row, Canonical v

theorem CanonicalRows.insert {fed : Dict Nat (List Int)} (h : CanonicalRows n fed) (i : Nat)
    {row : List Int} (hlen : row.length = n) (hvals : ∀ v ∈ row, Canonical v) :
    CanonicalRows n (fed.insert i row) :=
  Dict.forall_insert h ⟨hlen, hvals⟩

theorem canonicalRows_zeroChunks : CanonicalRows n (zeroChunks num n) := by
  intro i row hrow
  rw [Dict.get?_eq_some_iff, entries_zeroChunks] at hrow
  obtain ⟨k, -, heq⟩ := List.mem_map.mp hrow
  obtain ⟨rfl, rfl⟩ := Prod.mk.inj heq
  refine ⟨List.length_replicate, fun v hv => ?_⟩
  rw [List.eq_of_mem_replicate hv]
  exact canonical_zero

/-- Adding a chunk keeps the length of the row, and reduces what it changes. -/
theorem addChunk_canonical {weight : Nat} {row values row' : List Int}
    (h : addChunk weight row values = .ok row') (hvals : ∀ v ∈ row, Canonical v) :
    row'.length = row.length ∧ ∀ v ∈ row', Canonical v := by
  unfold addChunk at h
  split at h
  · cases h
  · cases h
    refine ⟨?_, fun v hv => ?_⟩
    · rw [List.length_append, List.length_zipWith, List.length_drop]
      omega
    · rcases List.mem_append.mp hv with hv | hv
      · obtain ⟨i, hi, rfl⟩ := List.mem_iff_getElem.mp hv
        rw [List.getElem_zipWith]
        exact canonical_emod _
      · exact hvals v (List.mem_of_mem_drop hv)

theorem CanonicalRows.addSeqChunk {weight seqNum : Nat} {chunks fed fed' : Dict Nat (List Int)}
    (h : CanonicalRows n fed) (hstep : addSeqChunk weight chunks fed seqNum = .ok fed') :
    CanonicalRows n fed' := by
  unfold Host.addSeqChunk at hstep
  split at hstep
  · cases hstep
    exact h
  split at hstep
  · cases hstep
  · rename_i row hrow
    obtain ⟨row', hadd, hinsert⟩ := Except.bind_eq_ok.mp hstep
    cases hinsert
    obtain ⟨hlen, hvals⟩ := h seqNum row hrow
    obtain ⟨hlen', hvals'⟩ := addChunk_canonical hadd hvals
    exact h.insert seqNum (hlen'.trans hlen) hvals'

/-- Whatever is averaged, the result has rows of the length of the round, with canonical values. -/
theorem computeFedavg_canonical {rs : RoundState} {unmasked : Dict Nat (Dict Nat (List Int))}
    {fed : Dict Nat (List Int)} (h : computeFedavg rs unmasked = .ok fed) :
    CanonicalRows rs.chunkSize fed := by
  obtain ⟨num, -, h⟩ := Except.bind_eq_ok.mp h
  obtain ⟨sums, hsums, h⟩ := Except.bind_eq_ok.mp h
  -- canonical rows are an invariant of both nested loops
  have hrows : CanonicalRows rs.chunkSize sums := by
    refine List.foldlM_ok_invariant (CanonicalRows rs.chunkSize) ?_ canonicalRows_zeroChunks hsums
    intro client _ fed fed' hfed hstep
    unfold addClient at hstep
    split at hstep
    · cases hstep
      exact hfed
    split at hstep
    · exact List.foldlM_ok_invariant _ (fun _ _ _ _ => CanonicalRows.addSeqChunk) hfed hstep
    · cases hstep
      exact hfed
  split at h
  · cases h
    intro i row hrow
    rw [Dict.get?_mapValues] at hrow
    obtain ⟨row₀, hrow₀, rfl⟩ := Option.map_eq_some_iff.mp hrow
    refine ⟨by rw [List.length_map, (hrows i row₀ hrow₀).1], fun v hv => ?_⟩
    obtain ⟨v₀, -, rfl⟩ := List.mem_map.mp hv
    exact canonical_emod _
  · cases h
    exact hrows

end SwiftAgg.Host
