import SwiftAgg.Spec.Aggregation

/-!
# Sample counts

`_compute_fedavg` weighs a client without a sample count as one sample, but
leaves it out of the total as long as any other client has a count. And it
divides by the total in the field, where a multiple of 3329 is zero: the sums
of identical updates then come out as zero and not as the update.

## Key results

- `totalSamples_eq_sum_weight_iff`: when it is the sum of the weights
- `computeFedavg_identical_iff`: when the average of identical updates is the update
-/

namespace SwiftAgg.Host

variable {rs : RoundState} {unmasked : Dict Nat (Dict Nat (List Int))}

/-! ## Weights and total -/

/-- The weights that `_compute_fedavg` applies to the table; clients that are not completed have
    none. -/
def appliedWeight (rs : RoundState) (unmasked : Dict Nat (Dict Nat (List Int))) : Nat :=
  (unmasked.entries.map fun e => rs.weight e.1).sum

/-- A completed client without samples has weight one. -/
theorem RoundState.weight_eq_ite {id : Nat} (h : id ∈ rs.completedIds) :
    rs.weight id = if 0 < rs.samples id then rs.samples id else 1 := by
  obtain ⟨c, hc, hdone⟩ := RoundState.mem_completedIds.mp h
  rw [rs.weight_eq hc hdone, rs.samples_eq hc, ClientState.weight]

theorem appliedWeight_eq (rs : RoundState) (unmasked : Dict Nat (Dict Nat (List Int))) :
    appliedWeight rs unmasked = ∑ id ∈ rs.counted unmasked, rs.weight id := by
  have hkeys : ∀ id ∈ rs.counted unmasked, id ∈ unmasked.keys :=
    fun id hid => (RoundState.mem_counted.mp hid).2
  rw [appliedWeight, ← unmasked.sum_filter_entries hkeys]
  apply List.sum_map_filter_of_zero fun e : Nat × Dict Nat (List Int) =>
    e.1 ∈ rs.counted unmasked
  intro e he hid
  have hkey : e.1 ∈ unmasked.keys := List.mem_map_of_mem he
  exact rs.weight_eq_zero fun hdone => hid (RoundState.mem_counted.mpr ⟨hdone, hkey⟩)

/-- Weights that count an empty share as one are more than the shares by the empty ones. -/
private theorem sum_ite_one (S : Finset Nat) (f : Nat → Nat) :
    ∑ id ∈ S, (if 0 < f id then f id else 1) =
      ∑ id ∈ S, f id + (S.filter fun id => f id = 0).card := by
  rw [Finset.card_filter, ← Finset.sum_add_distrib]
  refine Finset.sum_congr rfl fun id _ => ?_
  by_cases h : f id = 0
  · simp [h]
  · simp [h, Nat.pos_of_ne_zero h]

/-- The normaliser is the sum of the applied weights exactly if the completed clients in the table
    have all sent a sample count, or none of them has. -/
theorem totalSamples_eq_sum_weight_iff (rs : RoundState)
    (unmasked : Dict Nat (Dict Nat (List Int))) :
    totalSamples rs unmasked = appliedWeight rs unmasked ↔
      (∀ id ∈ rs.completedIds, id ∈ unmasked.keys → 0 < rs.samples id) ∨
        ∀ id ∈ rs.completedIds, id ∈ unmasked.keys → rs.samples id = 0 := by
  have hweight : ∑ id ∈ rs.counted unmasked, rs.weight id = ∑ id ∈ rs.counted unmasked,
      rs.samples id + ((rs.counted unmasked).filter fun id => rs.samples id = 0).card := by
    rw [← sum_ite_one]
    exact Finset.sum_congr rfl fun id hid =>
      RoundState.weight_eq_ite (RoundState.mem_counted.mp hid).1
  simp only [totalSamples_eq_ite, appliedWeight_eq, hweight]
  have hforall : ∀ P : Nat → Prop, (∀ id ∈ rs.completedIds, id ∈ unmasked.keys → P id) ↔
      ∀ id ∈ rs.counted unmasked, P id := by
    intro P
    simp only [RoundState.mem_counted, and_imp]
  rw [hforall, hforall]
  by_cases hzero : ∑ id ∈ rs.counted unmasked, rs.samples id = 0
  · -- nobody has sent a count: every client counts once
    have hnone : ∀ id ∈ rs.counted unmasked, rs.samples id = 0 := Finset.sum_eq_zero_iff.mp hzero
    rw [if_pos hzero, hzero, Nat.zero_add, Finset.filter_true_of_mem hnone]
    exact iff_of_true rfl (.inr hnone)
  · -- somebody has, so the clients without a count are not in the total
    rw [if_neg hzero]
    constructor
    · intro heq
      have hempty : ((rs.counted unmasked).filter fun id => rs.samples id = 0).card = 0 := by
        omega
      left
      intro id hid
      have hne := Finset.filter_eq_empty_iff.mp (Finset.card_eq_zero.mp hempty) hid
      omega
    · intro h
      obtain hpos | hnone := h
      · have hempty : ((rs.counted unmasked).filter fun id => rs.samples id = 0) = ∅ := by
          rw [Finset.filter_eq_empty_iff]
          intro id hid
          have h := hpos id hid
          omega
        rw [hempty, Finset.card_empty, Nat.add_zero]
      · exact absurd (Finset.sum_eq_zero hnone) hzero

/-- A table that has the same chunks for each of the given clients. -/
def sharedTable (ids : List Nat) (chunks : Dict Nat (List Int)) : Dict Nat (Dict Nat (List Int)) :=
  ids.foldl (fun table id => table.insert id chunks) .empty

/-- Next to 5 samples, a client without a count adds to the weights but not to the total. -/
theorem totalSamples_five_zero :
    totalSamples (oneValueRound [oneValueClient 1 7 true 5 none, oneValueClient 2 7 true 0 none]
        (by decide) []) (sharedTable [1, 2] .empty) = 5 ∧
      appliedWeight (oneValueRound [oneValueClient 1 7 true 5 none,
        oneValueClient 2 7 true 0 none] (by decide) []) (sharedTable [1, 2] .empty) = 6 := by
  decide

/-! ## Identical updates -/

section

variable {num n : Nat} {chunks : Dict Nat (List Int)}

/-- Rows that represent the values of chunks are these chunks. -/
theorem Rows.get?_eq {fed : Dict Nat (List Int)} {r : Nat → Nat → Gf} (h : Rows num n fed r)
    {i : Nat} (hi : i < num) {values : List Int} (hlen : values.length = n)
    (hvalues : ∀ j < n, Canonical (values.getD j 0) ∧ ((values.getD j 0 : Int) : Gf) = r i j) :
    fed.get? i = some values := by
  obtain ⟨row, hrow, hrowlen, hvals⟩ := h i hi
  rw [hrow]
  congr 1
  apply List.ext_getElem (hrowlen.trans hlen.symm)
  intro j hj hj'
  have hrow_j := hvals j (by omega)
  have hvalues_j := hvalues j (by omega)
  rw [List.getD_eq_getElem _ _ hj] at hrow_j
  rw [List.getD_eq_getElem _ _ hj'] at hvalues_j
  exact Gf.eq_of_cast_eq hrow_j.1 hvalues_j.1 (hrow_j.2.trans hvalues_j.2.symm)

/-- The sums of identical updates, divided: the update, or zero if the total is zero in the
    field. -/
theorem normalised_identical (hpos : ∀ id ∈ rs.completedIds, 0 < rs.samples id)
    (hne : rs.completedIds.Nonempty)
    (hsame : ∀ id ∈ rs.completedIds, ∃ d, unmasked.get? id = some d ∧
      ∀ i, d.get? i = chunks.get? i) (i j : Nat) :
    (unmasked.entries.map fun e => (rs.weight e.1 : Gf) * (chunkValue e.2 i j : Int)).sum *
        rs.normaliser unmasked =
      if 3329 ∣ ∑ id ∈ rs.completedIds, rs.samples id then 0
      else ((chunkValue chunks i j : Int) : Gf) := by
  have hkeys : ∀ id ∈ rs.completedIds, id ∈ unmasked.keys := by
    intro id hid
    obtain ⟨d, hd, -⟩ := hsame id hid
    exact Dict.mem_keys_of_get? hd
  have hsum_pos := Finset.sum_pos hpos hne
  have hsum : (unmasked.entries.map fun e =>
      (rs.weight e.1 : Gf) * (chunkValue e.2 i j : Int)).sum =
      ((∑ id ∈ rs.completedIds, rs.samples id : Nat) : Gf) * (chunkValue chunks i j : Int) := by
    rw [Nat.cast_sum, Finset.sum_mul]
    refine sum_weighted hkeys fun e he hid => ?_
    obtain ⟨d, hd, hget⟩ := hsame e.1 hid
    obtain rfl : d = e.2 := Option.some.inj (hd.symm.trans (Dict.get?_eq_some_iff.mpr he))
    rw [rs.weight_eq_ite hid, if_pos (hpos e.1 hid), chunkValue, hget, chunkValue]
  rw [hsum, RoundState.normaliser, totalSamples_eq hkeys hsum_pos.ne']
  by_cases hdvd : 3329 ∣ ∑ id ∈ rs.completedIds, rs.samples id
  · rw [if_pos hdvd, (ZMod.natCast_eq_zero_iff _ _).mpr hdvd, zero_mul, zero_mul]
  · have hunit : ((∑ id ∈ rs.completedIds, rs.samples id : Nat) : Gf) ≠ 0 :=
      fun h => hdvd ((ZMod.natCast_eq_zero_iff _ _).mp h)
    rw [if_neg hdvd]
    split
    · rw [modInv_cast, Int.cast_natCast, mul_right_comm, mul_inv_cancel₀ hunit, one_mul]
    · rename_i hone
      have hsum_one : ∑ id ∈ rs.completedIds, rs.samples id = 1 := by omega
      rw [hsum_one, Nat.cast_one, one_mul, mul_one]

/-- The average of identical updates is the update exactly if the round has a chunk size, the update
    has every chunk, and the samples are no multiple of the modulus, or the update is zero. -/
theorem computeFedavg_identical_iff (hne : rs.completedIds.Nonempty)
    (hpos : ∀ id ∈ rs.completedIds, 0 < rs.samples id)
    (hfits : Fits (rs.modelSize / rs.chunkSize) rs.chunkSize chunks)
    (hrange : ∀ i < rs.modelSize / rs.chunkSize, ∀ values, chunks.get? i = some values →
      ∀ v ∈ values, 0 ≤ v ∧ v ≤ 3328)
    (hsame : ∀ id ∈ rs.completedIds, ∃ d, unmasked.get? id = some d ∧
      ∀ i, d.get? i = chunks.get? i) :
    (∃ fed, computeFedavg rs unmasked = .ok fed ∧
        fed.keys = List.range (rs.modelSize / rs.chunkSize) ∧
        ∀ i < rs.modelSize / rs.chunkSize, fed.get? i = chunks.get? i) ↔
      rs.chunkSize ≠ 0 ∧ (∀ i < rs.modelSize / rs.chunkSize, i ∈ chunks.keys) ∧
        (¬3329 ∣ ∑ id ∈ rs.completedIds, rs.samples id ∨
          ∀ i < rs.modelSize / rs.chunkSize, ∀ values, chunks.get? i = some values →
            ∀ v ∈ values, v = 0) := by
  by_cases hchunk : rs.chunkSize = 0
  · -- the number of chunks is a division by zero
    refine iff_of_false ?_ fun h => h.1 hchunk
    rintro ⟨fed, hfed, -⟩
    simp only [computeFedavg, RoundState.numChunks, hchunk, ↓reduceIte] at hfed
    exact absurd hfed (by simp [bind, Except.bind])
  · have hfitsAll : ∀ e ∈ unmasked.entries, e.1 ∈ rs.completedIds →
        Fits (rs.modelSize / rs.chunkSize) rs.chunkSize e.2 := by
      intro e he hid i hi values hvalues
      obtain ⟨d, hd, hget⟩ := hsame e.1 hid
      obtain rfl : d = e.2 := Option.some.inj (hd.symm.trans (Dict.get?_eq_some_iff.mpr he))
      exact hfits i hi values (hget i ▸ hvalues)
    obtain ⟨fed, hfed, hkeys, hrows⟩ := computeFedavg_table hchunk hfitsAll
    simp only [normalised_identical hpos hne hsame] at hrows
    have hvalue : ∀ {i values}, chunks.get? i = some values →
        ∀ j, chunkValue chunks i j = values.getD j 0 := by
      intro i values hvalues j
      rw [chunkValue, hvalues, Option.getD_some]
    constructor
    · rintro ⟨fed', hfed', -, hget⟩
      obtain rfl : fed = fed' := Except.ok.inj (hfed.symm.trans hfed')
      refine ⟨hchunk, fun i hi => ?_, ?_⟩
      · obtain ⟨row, hrow, -⟩ := hrows i hi
        exact Dict.mem_keys_of_get? ((hget i hi).symm.trans hrow)
      · by_cases hdvd : 3329 ∣ ∑ id ∈ rs.completedIds, rs.samples id
        · -- every row represents zero
          refine .inr fun i hi values hvalues v hv => ?_
          obtain ⟨row, hrow, hlen, hvals⟩ := hrows i hi
          obtain rfl : row = values :=
            Option.some.inj ((hrow.symm.trans (hget i hi)).trans hvalues)
          obtain ⟨j, hj, rfl⟩ := List.getElem_of_mem hv
          have hzero := hvals j (by omega)
          simp only [if_pos hdvd] at hzero
          rw [List.getD_eq_getElem _ _ hj] at hzero
          exact Gf.eq_of_cast_eq hzero.1 canonical_zero (hzero.2.trans Int.cast_zero.symm)
        · exact .inl hdvd
    · rintro ⟨-, hall, hzero⟩
      refine ⟨fed, hfed, hkeys, fun i hi => ?_⟩
      obtain ⟨values, hmem⟩ := Dict.mem_keys_iff.mp (hall i hi)
      have hvalues : chunks.get? i = some values := Dict.get?_eq_some_iff.mpr hmem
      have hlen := hfits i hi values hvalues
      rw [hvalues]
      refine hrows.get?_eq hi hlen fun j hj => ?_
      have hv : values.getD j 0 ∈ values := by
        rw [List.getD_eq_getElem _ _ (by omega)]
        exact List.getElem_mem _
      have hcanon : Canonical (values.getD j 0) := by
        have hbounds := hrange i hi values hvalues _ hv
        exact ⟨hbounds.1, by omega⟩
      refine ⟨hcanon, ?_⟩
      obtain hunit | hzero := hzero
      · simp only [if_neg hunit, hvalue hvalues]
      · have hnull := hzero i hi values hvalues _ hv
        simp only [hvalue hvalues, hnull, Int.cast_zero, ite_self]

/-- Clients 1 and 2 have completed, with the given numbers of samples. -/
def twoCounts (m n : Nat) : RoundState :=
  oneValueRound [oneValueClient 1 7 true m none, oneValueClient 2 7 true n none]
    (by simp [oneValueClient, ClientState.new]) []

/-- An update of one chunk with the value 7. -/
def sevenChunk : Dict Nat (List Int) := Dict.empty.insert 0 [7]

/-- The average over three samples. -/
theorem computeFedavg_identical_three :
    ∃ fed, computeFedavg (twoCounts 1 2) (sharedTable [1, 2] sevenChunk) = .ok fed ∧
      fed.keys = List.range ((twoCounts 1 2).modelSize / (twoCounts 1 2).chunkSize) ∧
      ∀ i < (twoCounts 1 2).modelSize / (twoCounts 1 2).chunkSize,
        fed.get? i = sevenChunk.get? i := by
  have hseven : ∀ i values, sevenChunk.get? i = some values → values = [7] := by
    intro i values hvalues
    rw [sevenChunk, Dict.get?_insert] at hvalues
    split at hvalues
    · exact (Option.some.inj hvalues).symm
    · exact absurd hvalues (by simp)
  refine (@computeFedavg_identical_iff (twoCounts 1 2) (sharedTable [1, 2] sevenChunk) sevenChunk
    (by decide) (by decide) ?_ ?_ ?_).mpr ⟨by decide, by decide, .inl (by decide)⟩
  · intro i _ values hvalues
    rw [hseven i values hvalues]
    rfl
  · intro i _ values hvalues
    rw [hseven i values hvalues]
    decide
  · intro id hid
    have htwo : (twoCounts 1 2).completedIds = {1, 2} := by decide
    rw [htwo, Finset.mem_insert, Finset.mem_singleton] at hid
    obtain rfl | rfl := hid
    · exact ⟨_, rfl, fun _ => rfl⟩
    · exact ⟨_, rfl, fun _ => rfl⟩

/-- The samples 1 and 3328 add up to the modulus, and the average of 7 and 7 is 0. -/
theorem computeFedavg_identical_3329 :
    ¬∃ fed, computeFedavg (twoCounts 1 3328) (sharedTable [1, 2] sevenChunk) = .ok fed ∧
      ∀ i < 1, fed.get? i = sevenChunk.get? i := by
  rintro ⟨fed, hfed, hget⟩
  have hrow : (computeFedavg (twoCounts 1 3328) (sharedTable [1, 2] sevenChunk)).map
      (Dict.get? · 0) = .ok (some [0]) := by
    decide +kernel
  rw [hfed] at hrow
  have hzero := (hget 0 (by decide)).symm.trans (Except.ok.inj hrow)
  exact absurd hzero (by decide)

end

end SwiftAgg.Host
