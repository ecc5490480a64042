import SwiftAgg.Spec.FlowerAverage

/-!
# Signed parameters

The strategy averages canonical representatives and never turns the upper half
of them back into negative integers. If all results carry one model, it returns
this model with every entry reduced, so that a negative entry comes back as
3329 more than it was.

## Key results

- `computedChunks_sameModel`: the chunks of the reduced model
- `DType.cast_emod_eq_iff`: reduction keeps exactly the entries that are not negative
- `aggregateFit_sameModel_iff`: when the model is returned
-/

namespace SwiftAgg.Host

variable {chunkSize num : Nat} {model : List NdArray} {results : List FitRes}

/-- All results carry one model. Its entries lie around zero; the numbers of examples are distinct,
    and their sum can be inverted. -/
structure SameModel (model : List NdArray) (results : List FitRes) : Prop where
  ne_nil : results ≠ []
  parameters_eq : ∀ res ∈ results, res.parameters = model
  bounded : ∀ v ∈ flatEntries model, -1664 ≤ v ∧ v ≤ 1664
  pos : ∀ res ∈ results, 0 < res.numExamples
  distinct : (results.map FitRes.numExamples).Nodup
  total : ¬3329 ∣ totalExamples results

theorem SameModel.aggregable (h : SameModel model results) :
    Aggregable (model.map NdArray.shape) results where
  ne_nil := h.ne_nil
  shapes_eq res hres := by rw [h.parameters_eq res hres]
  fits := by
    intro res hres arr harr v hv
    rw [h.parameters_eq res hres] at harr
    have hbounds := h.bounded v (List.mem_flatMap.mpr ⟨arr, harr, hv⟩)
    omega
  pos := h.pos

theorem SameModel.weightedSum_eq (h : SameModel model results) (p : Nat) :
    weightedSum results p = totalExamples results * (flatEntries model).getD p 0 := by
  have helement : ∀ res ∈ results,
      (res.numExamples : Int) * res.element p = res.numExamples * (flatEntries model).getD p 0 := by
    intro res hres
    rw [FitRes.element, h.parameters_eq res hres]
  rw [weightedSum, List.map_congr_left helement, List.sum_map_mul_right, totalExamples]
  push_cast
  rw [List.map_map]
  rfl

/-! ## The chunks -/

/-- Rows that represent integers hold the residues of these. -/
theorem Rows.entries_eq {fed : Dict Nat (List Int)} {y : Nat → Nat → Int}
    (h : Rows num chunkSize fed fun i j => (y i j : Gf)) (hkeys : fed.keys = List.range num) :
    fed.entries =
      (List.range num).map fun i => (i, (List.range chunkSize).map fun j => y i j % 3329) := by
  refine Dict.entries_eq_of_get? hkeys fun i hi => ?_
  obtain ⟨row, hrow, hlen, hvals⟩ := h i (List.mem_range.mp hi)
  rw [hrow]
  congr 1
  apply List.ext_getElem
  · rw [hlen, List.length_map, List.length_range]
  · intro j hj hj'
    obtain ⟨hcanon, hvalue⟩ := hvals j (hlen ▸ hj)
    rw [List.getD_eq_getElem _ _ hj] at hcanon hvalue
    rw [List.getElem_map, List.getElem_range]
    exact Gf.eq_of_cast_eq hcanon (canonical_emod _) (hvalue.trans (Gf.cast_emod _).symm)

theorem paddedChunk_map_emod (flat : List Int) (i : Nat) :
    (flat.map (· % 3329)).paddedChunk 0 chunkSize i =
      (List.range chunkSize).map fun j => flat.getD (i * chunkSize + j) 0 % 3329 := by
  rw [List.paddedChunk_eq_map]
  refine List.map_congr_left fun j _ => ?_
  exact List.getD_map flat 0 fun v : Int => v % 3329

/-- The chunks of the model with its entries reduced. -/
theorem computedChunks_sameModel (st : ChunkedFedAvg) (hclear : st.clientSamples = .empty)
    (h : SameModel model results) (hchunk : st.chunkSize ≠ 0) (hmodel : model ≠ [])
    (hannounce : Announceable st.chunkSize st.currentRound results.length
      (shapeChunks st.chunkSize (model.map NdArray.shape))) :
    ∃ fed, computedChunks st results = .ok fed ∧ fed.entries =
      (List.range (shapeChunks st.chunkSize (model.map NdArray.shape))).map fun i =>
        (i, ((flatEntries model).map (· % 3329)).paddedChunk 0 st.chunkSize i) := by
  obtain ⟨fed, hfed, hkeys, hrows⟩ := computedChunks_rows st hclear h.aggregable hchunk
    (fun hnil => hmodel (List.map_eq_nil_iff.mp hnil)) hannounce
  have hn : (totalExamples results : Gf) ≠ 0 := by
    rw [Ne, ZMod.natCast_eq_zero_iff]
    exact h.total
  -- all examples are counted, so the total cancels
  have hvalues : Rows (shapeChunks st.chunkSize (model.map NdArray.shape)) st.chunkSize fed
      fun i j => (((flatEntries model).getD (i * st.chunkSize + j) 0 : Int) : Gf) := by
    refine hrows.congr fun i _ j _ => ?_
    rw [h.weightedSum_eq, distinctExamples_eq h.distinct, Int.cast_mul, Int.cast_natCast,
      mul_comm, inv_mul_cancel_left₀ hn]
  refine ⟨fed, hfed, ?_⟩
  simp only [paddedChunk_map_emod]
  exact hvalues.entries_eq hkeys

/-- Packing all chunks. -/
theorem packChunks_eq {fed : Dict Nat (List Int)} {flat : List Int}
    (hflat : ∀ v ∈ flat, -2 ^ 15 ≤ v ∧ v < 2 ^ 15)
    (hentries : fed.entries =
      (List.range num).map fun i => (i, flat.paddedChunk 0 chunkSize i)) :
    ∃ packed, fed.entries.foldlM (fun (chunks : Dict Nat Bytes) row => do
        return chunks.insert row.1 (← packChunk chunkSize row.2)) .empty = .ok packed ∧
      packed.entries =
        (List.range num).map fun i => (i, Bytes.packInt16BE (flat.paddedChunk 0 chunkSize i)) := by
  refine ⟨_, ?_, Dict.entries_foldl_insert
    (fun i => Bytes.packInt16BE (flat.paddedChunk 0 chunkSize i)) (List.nodup_range (n := num))
    (d := .empty) fun _ _ => List.not_mem_nil⟩
  rw [hentries, List.foldlM_map]
  refine (List.foldlM_eq_ok (fun _ => True) (fun i _ chunks _ => ?_) trivial).1
  rw [packChunk_eq_ok (List.length_paddedChunk ..) fun v hv => mem_paddedChunk hflat i hv]
  exact ⟨rfl, trivial⟩

/-! ## The arrays -/

/-- The residue of an entry is the entry again, in its type, if it is not negative: to add 3329
    changes the low bits. -/
theorem DType.cast_emod_eq_iff (t : DType) {v : Int} (htyped : t.cast v = v)
    (hbounds : -1664 ≤ v ∧ v ≤ 1664) : t.cast (v % 3329) = v ↔ 0 ≤ v := by
  constructor
  · intro hcast
    by_contra hneg
    have hmod : v % 3329 = v + 3329 := by omega
    rw [hmod] at hcast
    cases t <;> simp only [DType.cast, DType.below, DType.bits] at hcast htyped <;> omega
  · intro hpos
    have hmod : v % 3329 = v := by omega
    rw [hmod, htyped]

theorem NdArray.convert_emod_eq_iff (arr : NdArray)
    (hbounds : ∀ v ∈ arr.entries, -1664 ≤ v ∧ v ≤ 1664) :
    arr.convert (· % 3329) = arr ↔ ∀ v ∈ arr.entries, 0 ≤ v := by
  have hentries : arr.convert (· % 3329) = arr ↔
      arr.entries.map (fun v => arr.dtype.cast (v % 3329)) = arr.entries := by
    refine ⟨fun h => congrArg NdArray.entries h, fun h => ?_⟩
    ext1
    · rfl
    · rfl
    · exact h
  rw [hentries]
  conv_lhs => rw [← List.map_id arr.entries, List.map_map]
  rw [List.map_inj_left]
  exact forall₂_congr fun v hv => DType.cast_emod_eq_iff _ (arr.typed v hv) (hbounds v hv)

theorem map_convert_emod_eq_iff (hbounds : ∀ v ∈ flatEntries model, -1664 ≤ v ∧ v ≤ 1664) :
    model.map (.convert (· % 3329)) = model ↔ ∀ v ∈ flatEntries model, 0 ≤ v := by
  conv_lhs => rhs; rw [← List.map_id model]
  rw [List.map_inj_left]
  constructor
  · intro h v hv
    obtain ⟨arr, harr, hmem⟩ := List.mem_flatMap.mp hv
    exact (arr.convert_emod_eq_iff fun u hu => hbounds u (List.mem_flatMap.mpr ⟨arr, harr, hu⟩)).mp
      (h arr harr) v hmem
  · intro h arr harr
    exact (arr.convert_emod_eq_iff fun u hu => hbounds u (List.mem_flatMap.mpr ⟨arr, harr, hu⟩)).mpr
      fun v hv => h v (List.mem_flatMap.mpr ⟨arr, harr, hv⟩)

/-! ## What is returned -/

/-- `aggregate_fit` returns the model with its entries reduced. -/
theorem aggregateFit_sameModel (st : ChunkedFedAvg) (hclear : st.clientSamples = .empty)
    (h : SameModel model results) (hchunk : st.chunkSize ≠ 0) (hmodel : model ≠ [])
    (hannounce : Announceable st.chunkSize st.currentRound results.length
      (shapeChunks st.chunkSize (model.map NdArray.shape))) :
    (aggregateFit st results).1 =
      .ok (some (model.map (.convert (· % 3329)), results.length)) := by
  obtain ⟨fed, hfed, hentries⟩ := computedChunks_sameModel st hclear h hchunk hmodel hannounce
  have hreduced : ∀ v ∈ (flatEntries model).map (· % 3329), -2 ^ 15 ≤ v ∧ v < 2 ^ 15 := by
    intro v hv
    obtain ⟨u, -, rfl⟩ := List.mem_map.mp hv
    exact (canonical_emod u).int16
  obtain ⟨packed, hpack, hpacked⟩ := packChunks_eq hreduced hentries
  rw [shapeChunks, ← length_flatEntries_of_shapes rfl] at hpacked
  have harrays := chunksToModel_map (· % 3329) hchunk hreduced hpacked
  obtain ⟨first, rest, rfl⟩ := List.exists_cons_of_ne_nil h.ne_nil
  rw [aggregateFit_cons, h.parameters_eq first List.mem_cons_self]
  exact Except.bind_eq_ok.mpr ⟨fed, hfed, Except.bind_eq_ok.mpr ⟨packed, hpack,
    Except.bind_eq_ok.mpr ⟨_, harrays, rfl⟩⟩⟩

/-- The model is returned exactly if it can be cut and announced, and no entry is negative. -/
theorem aggregateFit_sameModel_iff (st : ChunkedFedAvg) (serverRound : Nat)
    (h : SameModel model results) :
    (aggregateFit (configureFit st serverRound) results).1 = .ok (some (model, results.length)) ↔
      model ≠ [] ∧ st.chunkSize ≠ 0 ∧
        Announceable st.chunkSize serverRound results.length
          (shapeChunks st.chunkSize (model.map NdArray.shape)) ∧
        ∀ v ∈ flatEntries model, 0 ≤ v := by
  by_cases hcut : model.map NdArray.shape = [] ∨ st.chunkSize = 0 ∨ ¬Announceable st.chunkSize
      serverRound results.length (shapeChunks st.chunkSize (model.map NdArray.shape))
  · -- nothing is returned
    obtain ⟨e, he⟩ := computedChunks_raises (configureFit st serverRound) h.aggregable hcut
    obtain ⟨first, rest, rfl⟩ := List.exists_cons_of_ne_nil h.ne_nil
    refine iff_of_false ?_ ?_
    · intro hreturn
      rw [aggregateFit_cons, he] at hreturn
      exact absurd hreturn (by simp [bind, Except.bind])
    · rintro ⟨hmodel, hchunk, hannounce, -⟩
      obtain hnil | hzero | hnot := hcut
      · exact hmodel (List.map_eq_nil_iff.mp hnil)
      · exact hchunk hzero
      · exact hnot hannounce
  · obtain ⟨hnil, hcut⟩ := not_or.mp hcut
    obtain ⟨hchunk, hannounce⟩ := not_or.mp hcut
    have hmodel : model ≠ [] := fun hmodel => hnil (List.map_eq_nil_iff.mpr hmodel)
    have hannounce := not_not.mp hannounce
    rw [aggregateFit_sameModel (configureFit st serverRound) rfl h hchunk hmodel hannounce]
    constructor
    · intro hreturn
      have heq := congrArg Prod.fst (Option.some.inj (Except.ok.inj hreturn))
      exact ⟨hmodel, hchunk, hannounce, (map_convert_emod_eq_iff h.bounded).mp heq⟩
    · rintro ⟨-, -, -, hpos⟩
      rw [(map_convert_emod_eq_iff h.bounded).mpr hpos]

/-- A single result with a single entry. -/
theorem sameModel_valueResult {v : Int} (typed : DType.int16.cast v = v)
    (hbounds : -1664 ≤ v ∧ v ≤ 1664) :
    SameModel (valueResult 1 v typed).parameters [valueResult 1 v typed] where
  ne_nil := List.cons_ne_nil _ _
  parameters_eq res hres := by rw [List.mem_singleton.mp hres]
  bounded u hu := by
    obtain rfl : u = v := by simpa [flatEntries, valueResult] using hu
    exact hbounds
  pos res hres := by
    rw [List.mem_singleton.mp hres]
    exact Nat.one_pos
  distinct := List.nodup_singleton _
  total := by simp [totalExamples, valueResult]

/-- The entry -1 comes back as 3328. -/
theorem aggregateFit_minusOne :
    ¬∀ (st : ChunkedFedAvg) (serverRound : Nat) (model : List NdArray) (results : List FitRes),
      SameModel model results →
      (aggregateFit (configureFit st serverRound) results).1 =
        .ok (some (model, results.length)) := by
  intro hall
  have hreturn := hall valueStrategy 0 _ _ (sameModel_valueResult (v := -1) rfl (by decide))
  have hrun : ((aggregateFit (configureFit valueStrategy 0) [valueResult 1 (-1) rfl]).1.map
      fun out => out.map fun res => flatEntries res.1) = .ok (some [3328]) := by
    decide +kernel
  rw [hreturn] at hrun
  exact absurd hrun (by decide)

/-- The entry 1664 comes back as it was. -/
theorem aggregateFit_1664 :
    (aggregateFit (configureFit valueStrategy 0) [valueResult 1 1664 rfl]).1 =
      .ok (some ((valueResult 1 1664 rfl).parameters, 1)) :=
  (aggregateFit_sameModel_iff valueStrategy 0 (sameModel_valueResult rfl (by decide))).mpr
    ⟨List.cons_ne_nil _ _, by decide, by unfold Announceable; decide, by decide⟩

end SwiftAgg.Host
