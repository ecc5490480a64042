import SwiftAgg.Spec.FedAvgCorrect
import SwiftAgg.Spec.ModelChunks
import SwiftAgg.Spec.WireFormat

/-!
# What the Flower strategy averages

`aggregate_fit` adds the weighted chunks of all results into rows, as the
server of the baseline does, and divides them by a total that it sums up over a
dictionary in which every sample count stands once. Results with the same count
enter the sums several times and the total only once. Nothing is computed if
the round cannot be announced, since its message does not hold the values.

## Key results

- `Rows.addFitRes`: one result, in the table that the rows represent
- `aggregateChunks_rows`: what the rows represent in the end
- `values_sum_countSamples`: the total is the sum of the distinct counts
- `Rows.weighted_iff`: when the rows, divided by a total, are the weighted average
-/

namespace SwiftAgg.Host

variable {chunkSize num : Nat} {results : List FitRes}

/-- Entry `p` of a result, counted over all its arrays; behind the last one there are zeros. -/
def FitRes.element (res : FitRes) (p : Nat) : Int := (flatEntries res.parameters).getD p 0

/-! ## One result -/

/-- The values of the chunks of a list of entries. -/
def chunkTable (chunkSize num : Nat) (flat : List Int) : Dict Nat (List Int) :=
  (List.range num).foldl (fun chunks i => chunks.insert i (flat.paddedChunk 0 chunkSize i)) .empty

theorem entries_chunkTable (chunkSize num : Nat) (flat : List Int) :
    (chunkTable chunkSize num flat).entries =
      (List.range num).map fun i => (i, flat.paddedChunk 0 chunkSize i) :=
  Dict.entries_foldl_insert (fun i => flat.paddedChunk 0 chunkSize i) List.nodup_range
    (d := .empty) fun _ _ => List.not_mem_nil

theorem get?_chunkTable {i : Nat} (hi : i < num) (flat : List Int) :
    (chunkTable chunkSize num flat).get? i = some (flat.paddedChunk 0 chunkSize i) := by
  rw [Dict.get?_eq_some_iff, entries_chunkTable]
  exact List.mem_map.mpr ⟨i, List.mem_range.mpr hi, rfl⟩

theorem fits_chunkTable (flat : List Int) : Fits num chunkSize (chunkTable chunkSize num flat) := by
  intro i hi values hvalues
  rw [get?_chunkTable hi] at hvalues
  obtain rfl := Option.some.inj hvalues
  exact List.length_paddedChunk ..

theorem chunkValue_chunkTable (flat : List Int) {i j : Nat} (hi : i < num) (hj : j < chunkSize) :
    chunkValue (chunkTable chunkSize num flat) i j = flat.getD (i * chunkSize + j) 0 := by
  rw [chunkValue, get?_chunkTable hi, Option.getD_some, List.paddedChunk_eq_map,
    List.getD_eq_getElem _ _ (by simpa using hj), List.getElem_map, List.getElem_range]

/-- A packed chunk is added as its values are. -/
theorem addFitChunk_eq {flat : List Int} (hflat : ∀ v ∈ flat, -2 ^ 15 ≤ v ∧ v < 2 ^ 15)
    (weight : Nat) (fed : Dict Nat (List Int)) {i : Nat} (hi : i < num) :
    addFitChunk chunkSize weight fed (i, Bytes.packInt16BE (flat.paddedChunk 0 chunkSize i)) =
      addSeqChunk weight (chunkTable chunkSize num flat) fed i := by
  rw [addFitChunk, unpackChunk_packInt16BE (List.length_paddedChunk ..)
    fun v hv => mem_paddedChunk hflat i hv]
  simp only [addSeqChunk, get?_chunkTable hi]
  cases fed.get? i <;> rfl

/-- The rows gain the weighted entries of a result. -/
theorem Rows.addFitRes {fed : Dict Nat (List Int)} {r : Nat → Nat → Gf}
    (h : Rows num chunkSize fed r) {res : FitRes} (hchunk : chunkSize ≠ 0)
    (hne : res.parameters ≠ []) (hfits : FitsInt16 res.parameters)
    (hnum : chunkCount chunkSize (flatEntries res.parameters).length = num) :
    ∃ fed', Host.addFitRes chunkSize fed res = .ok fed' ∧ fed'.keys = fed.keys ∧
      Rows num chunkSize fed' fun i j =>
        r i j + res.numExamples * (res.element (i * chunkSize + j) : Int) := by
  obtain ⟨chunks, hchunks, hentries⟩ := modelToChunks_eq hchunk hne hfits
  obtain ⟨fed', hfold, hkeys, hrows⟩ :=
    h.foldlM_range res.numExamples (fits_chunkTable (flatEntries res.parameters))
  refine ⟨fed', ?_, hkeys, hrows.congr fun i hi j hj => ?_⟩
  · rw [Host.addFitRes, hchunks]
    show chunks.entries.foldlM _ _ = _
    rw [hentries, hnum, List.foldlM_map, ← hfold]
    exact List.foldlM_congr_mem fun i hi fed => addFitChunk_eq
      (fun v hv => hfits.mem_flatEntries hv) res.numExamples fed (List.mem_range.mp hi)
  · rw [chunkValue_chunkTable _ hi hj, FitRes.element]

/-! ## All results -/

/-- The weighted sum of the entries at a place. -/
def weightedSum (results : List FitRes) (p : Nat) : Int :=
  (results.map fun res => (res.numExamples : Int) * res.element p).sum

theorem weightedSum_cons (res : FitRes) (results : List FitRes) (p : Nat) :
    weightedSum (res :: results) p = res.numExamples * res.element p + weightedSum results p := by
  rw [weightedSum, List.map_cons, List.sum_cons]
  rfl

/-- All examples of the results. -/
def totalExamples (results : List FitRes) : Nat := (results.map FitRes.numExamples).sum

/-- Every number of examples counted once. -/
def distinctExamples (results : List FitRes) : Nat :=
  ∑ n ∈ (results.map FitRes.numExamples).toFinset, n

/-- The results can be cut into chunks, all into the same number. -/
def Uniform (chunkSize num : Nat) (results : List FitRes) : Prop :=
  ∀ res ∈ results, res.parameters ≠ [] ∧ FitsInt16 res.parameters ∧
    chunkCount chunkSize (flatEntries res.parameters).length = num

/-- The loop over the results: the table gains their weighted sums. -/
theorem Rows.foldlM_addFitRes {fed : Dict Nat (List Int)} {r : Nat → Nat → Gf}
    (h : Rows num chunkSize fed r) (hchunk : chunkSize ≠ 0)
    (huniform : Uniform chunkSize num results) :
    ∃ fed', results.foldlM (Host.addFitRes chunkSize) fed = .ok fed' ∧ fed'.keys = fed.keys ∧
      Rows num chunkSize fed' fun i j =>
        r i j + (weightedSum results (i * chunkSize + j) : Int) := by
  induction results generalizing fed r with
  | nil => exact ⟨fed, rfl, rfl, h.congr fun i _ j _ => by simp [weightedSum]⟩
  | cons res results ih =>
    obtain ⟨hne, hfits, hnum⟩ := huniform res List.mem_cons_self
    obtain ⟨fed₁, hstep, hkeys₁, hrows₁⟩ := h.addFitRes hchunk hne hfits hnum
    obtain ⟨fed', hfold, hkeys, hrows⟩ :=
      ih hrows₁ fun res' hres' => huniform res' (List.mem_cons_of_mem res hres')
    refine ⟨fed', ?_, hkeys.trans hkeys₁, hrows.congr fun i _ j _ => ?_⟩
    · rw [List.foldlM_cons, hstep]
      exact hfold
    · rw [weightedSum_cons]
      push_cast
      exact add_assoc _ _ _

/-- The rows represent the weighted sums, divided by the total of the stored counts. -/
theorem aggregateChunks_rows (clientSamples : Dict Nat Nat) (hchunk : chunkSize ≠ 0)
    (huniform : Uniform chunkSize num results) (hpos : 0 < clientSamples.values.sum) :
    ∃ fed, aggregateChunks chunkSize clientSamples num results = .ok fed ∧
      fed.keys = List.range num ∧
      Rows num chunkSize fed fun i j => (weightedSum results (i * chunkSize + j) : Gf) *
        ((clientSamples.values.sum : Nat) : Gf)⁻¹ := by
  obtain ⟨sums, hsums, hkeys, hrows⟩ := rows_zeroChunks.foldlM_addFitRes hchunk huniform
  refine ⟨_, ?_, ?_, (hrows.mapValues (modInv clientSamples.values.sum)).congr fun i _ j _ => ?_⟩
  · rw [aggregateChunks, hsums]
    simp only [bind, Except.bind, hpos, ↓reduceIte]
    rfl
  · rw [Dict.keys_mapValues, hkeys, keys_zeroChunks]
  · rw [zero_add, modInv_cast, Int.cast_natCast]

/-! ## The total -/

/-- The counts are stored under themselves, each once. -/
theorem values_sum_countSamples (results : List FitRes) :
    (countSamples .empty results).values.sum = distinctExamples results := by
  have hloop : ∀ (l : List FitRes) (d : Dict Nat Nat), (∀ e ∈ d.entries, e.2 = e.1) →
      (∀ e ∈ (countSamples d l).entries, e.2 = e.1) ∧
        ∀ n, n ∈ (countSamples d l).keys ↔ n ∈ l.map FitRes.numExamples ∨ n ∈ d.keys := by
    intro l
    induction l with
    | nil => exact fun d hd => ⟨hd, fun n => by simp [countSamples]⟩
    | cons res l ih =>
      intro d hd
      have hstep : ∀ e ∈ (d.insert res.numExamples res.numExamples).entries, e.2 = e.1 := by
        rintro ⟨k, v⟩ he
        rw [← Dict.get?_eq_some_iff, Dict.get?_insert] at he
        split at he
        · rename_i hk
          exact (Option.some.inj he).symm.trans hk.symm
        · exact hd (k, v) (Dict.get?_eq_some_iff.mp he)
      obtain ⟨hsame, hmem⟩ := ih _ hstep
      refine ⟨hsame, fun n => ?_⟩
      show n ∈ (countSamples _ l).keys ↔ _
      rw [hmem n, Dict.mem_keys_insert, List.map_cons, List.mem_cons]
      tauto
  obtain ⟨hsame, hmem⟩ := hloop results .empty fun e he => absurd he List.not_mem_nil
  have hvalues : (countSamples .empty results).values = (countSamples .empty results).keys :=
    List.map_congr_left hsame
  have hset : (countSamples .empty results).keys.toFinset =
      (results.map FitRes.numExamples).toFinset := by
    ext n
    rw [List.mem_toFinset, hmem n, List.mem_toFinset]
    simp [Dict.keys, Dict.empty]
  have hsum := List.sum_toFinset id (countSamples .empty results).nodup
  rw [hvalues, distinctExamples, ← hset]
  simpa [Dict.keys] using hsum.symm

theorem distinctExamples_pos (hne : results ≠ []) (hpos : ∀ res ∈ results, 0 < res.numExamples) :
    0 < distinctExamples results := by
  obtain ⟨res, hres⟩ := List.exists_mem_of_ne_nil results hne
  have hmem : res.numExamples ∈ (results.map FitRes.numExamples).toFinset :=
    List.mem_toFinset.mpr (List.mem_map_of_mem hres)
  have hle := Finset.single_le_sum (f := fun n => n) (fun n _ => Nat.zero_le n) hmem
  exact (hpos res hres).trans_le hle

/-- Distinct counts are all counted. -/
theorem distinctExamples_eq (h : (results.map FitRes.numExamples).Nodup) :
    distinctExamples results = totalExamples results := by
  have hsum := List.sum_toFinset id h
  simpa [distinctExamples, totalExamples] using hsum

/-! ## The announcement -/

/-- The values fit the fields of the message that announces the round. -/
def Announceable (chunkSize currentRound numClients numChunks : Nat) : Prop :=
  numClients < 256 ∧ chunkSize < 2 ^ 16 ∧ numChunks * chunkSize * 2 < 2 ^ 32 ∧ currentRound < 2 ^ 32

theorem sendRoundInit_of_announceable {chunkSize currentRound numClients numChunks : Nat}
    (h : Announceable chunkSize currentRound numClients numChunks) :
    ∃ message, sendRoundInit chunkSize currentRound numClients numChunks = .ok message := by
  obtain ⟨hclients, hchunk, hmodel, hround⟩ := h
  have hheader : ∃ header, buildHeader 0x40 currentRound 0 0 8 = .ok header :=
    ⟨_, if_pos ⟨hround, by decide⟩⟩
  obtain ⟨header, hheader⟩ := hheader
  exact ⟨_, Except.bind_eq_ok.mpr ⟨_, roundInitPayload_eq hclients hchunk hmodel,
    Except.bind_eq_ok.mpr ⟨header, hheader, rfl⟩⟩⟩

theorem sendRoundInit_of_not_announceable {chunkSize currentRound numClients numChunks : Nat}
    (h : ¬Announceable chunkSize currentRound numClients numChunks) :
    ∃ e, sendRoundInit chunkSize currentRound numClients numChunks = .error e := by
  cases hsend : sendRoundInit chunkSize currentRound numClients numChunks with
  | error e => exact ⟨e, rfl⟩
  | ok message =>
    refine absurd ?_ h
    obtain ⟨payload, hpayload, hmessage⟩ := Except.bind_eq_ok.mp hsend
    obtain ⟨header, hheader, -⟩ := Except.bind_eq_ok.mp hmessage
    obtain ⟨counts, hcounts, hpayload⟩ := Except.bind_eq_ok.mp hpayload
    have hclients : numClients < 256 := by
      unfold bytesOf at hcounts
      split at hcounts
      · rename_i hall
        simpa using hall
      · exact absurd hcounts (by simp)
    have hround : currentRound < 2 ^ 32 := by
      unfold buildHeader at hheader
      split at hheader
      · rename_i hfields
        exact hfields.1
      · exact absurd hheader (by simp)
    split at hpayload
    · rename_i hfields
      exact ⟨hclients, hfields.1, hfields.2, hround⟩
    · exact absurd hpayload (by simp [throw, throwThe, MonadExceptOf.throw])

/-! ## The weighted average -/

/-- `aggregated_chunks`, as `aggregate_fit` computes them. -/
def computedChunks (st : ChunkedFedAvg) (results : List FitRes) :
    Except PyErr (Dict Nat (List Int)) :=
  match results with
  | [] => .ok .empty
  | first :: _ => do
    let modelChunks ← modelToChunks st.chunkSize first.parameters
    let _ ← sendRoundInit st.chunkSize st.currentRound results.length modelChunks.entries.length
    aggregateChunks st.chunkSize (countSamples st.clientSamples results) modelChunks.entries.length
      results

/-- `aggregate_fit` packs these chunks, and unpacks them again into the arrays that it returns. -/
theorem aggregateFit_cons (st : ChunkedFedAvg) (first : FitRes) (rest : List FitRes) :
    (aggregateFit st (first :: rest)).1 = (do
      let aggregated ← computedChunks st (first :: rest)
      let packed ← aggregated.entries.foldlM (fun chunks row => do
        return chunks.insert row.1 (← packChunk st.chunkSize row.2)) .empty
      let arrays ← chunksToModel st.chunkSize packed first.parameters
      return some (arrays, (first :: rest).length)) := by
  simp only [aggregateFit, computedChunks]
  cases modelToChunks st.chunkSize first.parameters with
  | error e => rfl
  | ok modelChunks =>
    simp only [bind, Except.bind]
    cases sendRoundInit st.chunkSize st.currentRound (first :: rest).length
      modelChunks.entries.length <;> rfl

/-- Models of the same shapes have the same number of entries. -/
theorem length_flatEntries_of_shapes {ndarrays : List NdArray} {shapes : List (List Nat)}
    (h : ndarrays.map NdArray.shape = shapes) :
    (flatEntries ndarrays).length = (shapes.map List.prod).sum := by
  rw [length_flatEntries, ← h, List.map_map]
  exact congrArg List.sum (List.map_congr_left fun arr _ => arr.size_eq)

@[simp] theorem configureFit_chunkSize (st : ChunkedFedAvg) (serverRound : Nat) :
    (configureFit st serverRound).chunkSize = st.chunkSize := rfl

/-- Models of some shapes, with int16 entries, and their positive numbers of examples. -/
structure Aggregable (shapes : List (List Nat)) (results : List FitRes) : Prop where
  ne_nil : results ≠ []
  shapes_eq : ∀ res ∈ results, res.parameters.map NdArray.shape = shapes
  fits : ∀ res ∈ results, FitsInt16 res.parameters
  pos : ∀ res ∈ results, 0 < res.numExamples

/-- The number of chunks of models of some shapes. -/
def shapeChunks (chunkSize : Nat) (shapes : List (List Nat)) : Nat :=
  chunkCount chunkSize (shapes.map List.prod).sum

/-- What `aggregate_fit` computes from models of the same shapes, if it can cut and announce
    them. -/
theorem computedChunks_rows (st : ChunkedFedAvg) (hclear : st.clientSamples = .empty)
    {shapes : List (List Nat)} (h : Aggregable shapes results) (hchunk : st.chunkSize ≠ 0)
    (hmodel : shapes ≠ []) (hannounce : Announceable st.chunkSize st.currentRound results.length
      (shapeChunks st.chunkSize shapes)) :
    ∃ fed, computedChunks st results = .ok fed ∧
      fed.keys = List.range (shapeChunks st.chunkSize shapes) ∧
      Rows (shapeChunks st.chunkSize shapes) st.chunkSize fed fun i j =>
        (weightedSum results (i * st.chunkSize + j) : Gf) * (distinctExamples results : Gf)⁻¹ := by
  have huniform : Uniform st.chunkSize (shapeChunks st.chunkSize shapes) results := by
    intro res hres
    have hshapes := h.shapes_eq res hres
    refine ⟨?_, h.fits res hres, by rw [length_flatEntries_of_shapes hshapes, shapeChunks]⟩
    intro hnil
    exact hmodel (by rw [← hshapes, hnil, List.map_nil])
  have htotal := values_sum_countSamples results
  have hdistinct := distinctExamples_pos h.ne_nil h.pos
  obtain ⟨fed, hfed, hkeys, hrows⟩ := aggregateChunks_rows (countSamples .empty results) hchunk
    huniform (htotal.symm ▸ hdistinct)
  rw [htotal] at hrows
  refine ⟨fed, ?_, hkeys, hrows⟩
  obtain ⟨first, rest, rfl⟩ := List.exists_cons_of_ne_nil h.ne_nil
  obtain ⟨hfirst, hfirstFits, hnum⟩ := huniform first List.mem_cons_self
  obtain ⟨chunks, hchunks, hentries⟩ := modelToChunks_eq hchunk hfirst hfirstFits
  have hlen : chunks.entries.length = shapeChunks st.chunkSize shapes := by
    rw [hentries, List.length_map, List.length_range, hnum]
  obtain ⟨message, hmessage⟩ := sendRoundInit_of_announceable hannounce
  refine Except.bind_eq_ok.mpr ⟨chunks, hchunks, Except.bind_eq_ok.mpr ⟨message, ?_, ?_⟩⟩
  · rw [hlen]
    exact hmessage
  · rw [hlen, hclear]
    exact hfed

/-- A model without arrays, or a chunk size of zero, raises. -/
theorem modelToChunks_raises {ndarrays : List NdArray}
    (h : ndarrays = [] ∨ chunkSize = 0) : ∃ e, modelToChunks chunkSize ndarrays = .error e := by
  by_cases hnil : ndarrays = []
  · exact ⟨_, if_pos hnil⟩
  · refine ⟨.zeroDivisionError, ?_⟩
    rw [modelToChunks, if_neg hnil, h.resolve_left hnil]
    rfl

/-- Otherwise nothing is computed. -/
theorem computedChunks_raises (st : ChunkedFedAvg) {shapes : List (List Nat)}
    (h : Aggregable shapes results)
    (hcut : shapes = [] ∨ st.chunkSize = 0 ∨ ¬Announceable st.chunkSize st.currentRound
      results.length (shapeChunks st.chunkSize shapes)) :
    ∃ e, computedChunks st results = .error e := by
  obtain ⟨first, rest, rfl⟩ := List.exists_cons_of_ne_nil h.ne_nil
  have hshapes := h.shapes_eq first List.mem_cons_self
  by_cases hraise : first.parameters = [] ∨ st.chunkSize = 0
  · obtain ⟨e, he⟩ := modelToChunks_raises hraise
    exact ⟨e, congrArg (· >>= _) he⟩
  · obtain ⟨hne, hchunk⟩ := not_or.mp hraise
    obtain ⟨chunks, hchunks, hentries⟩ :=
      modelToChunks_eq hchunk hne (h.fits first List.mem_cons_self)
    have hlen : chunks.entries.length = shapeChunks st.chunkSize shapes := by
      rw [hentries, List.length_map, List.length_range, length_flatEntries_of_shapes hshapes,
        shapeChunks]
    have hannounce : ¬Announceable st.chunkSize st.currentRound (first :: rest).length
        chunks.entries.length := by
      rw [hlen]
      obtain rfl | hzero | hnot := hcut
      · exact absurd (List.map_eq_nil_iff.mp hshapes) hne
      · exact absurd hzero hchunk
      · exact hnot
    obtain ⟨e, he⟩ := sendRoundInit_of_not_announceable hannounce
    refine ⟨e, ?_⟩
    rw [computedChunks, hchunks]
    simp only [bind, Except.bind, he]

private theorem mul_inv_mul_eq_iff {s n d : Gf} (hn : n ≠ 0) :
    s * d⁻¹ * n = s ↔ s = 0 ∨ d = n := by
  constructor
  · intro h
    by_cases hs : s = 0
    · exact .inl hs
    · right
      have hunit : d⁻¹ * n = 1 := mul_left_cancel₀ hs (by rw [← mul_assoc, h, mul_one])
      have hd : d ≠ 0 := by
        rintro rfl
        rw [inv_zero, zero_mul] at hunit
        exact zero_ne_one hunit
      exact (inv_mul_eq_one₀ hd).mp hunit
  · rintro (rfl | rfl)
    · rw [zero_mul, zero_mul]
    · rw [inv_mul_cancel_right₀ hn]

/-- An element times the total is the weighted sum exactly if the sum is zero in the field, or the
    distinct counts add up to the total there. -/
theorem Rows.weighted_iff {fed : Dict Nat (List Int)}
    (h : Rows num chunkSize fed fun i j =>
      (weightedSum results (i * chunkSize + j) : Gf) * (distinctExamples results : Gf)⁻¹)
    (htotal : ¬3329 ∣ totalExamples results) {i j : Nat} {row : List Int}
    (hrow : fed.get? i = some row) (hi : i < num) (hj : j < chunkSize) :
    row.getD j 0 * totalExamples results ≡ weightedSum results (i * chunkSize + j) [ZMOD 3329] ↔
      weightedSum results (i * chunkSize + j) ≡ 0 [ZMOD 3329] ∨
        distinctExamples results ≡ totalExamples results [MOD 3329] := by
  obtain ⟨row', hrow', -, hvals⟩ := h i hi
  obtain rfl : row' = row := Option.some.inj (hrow'.symm.trans hrow)
  have hn : (totalExamples results : Gf) ≠ 0 := by
    rwa [Ne, ZMod.natCast_eq_zero_iff]
  have hcast (a b : Int) : a ≡ b [ZMOD 3329] ↔ (a : Gf) = b :=
    (ZMod.intCast_eq_intCast_iff a b 3329).symm
  rw [hcast, hcast, ← ZMod.natCast_eq_natCast_iff, Int.cast_mul, Int.cast_natCast, Int.cast_zero,
    (hvals j hj).2]
  exact mul_inv_mul_eq_iff hn

/-- The elements that `aggregate_fit` computes are the weighted average exactly if the distinct
    counts add up to the total in the field, or every weighted sum is zero there, or nothing is
    computed because the round cannot be announced. -/
theorem computedChunks_weighted_iff (st : ChunkedFedAvg) (serverRound : Nat)
    {shapes : List (List Nat)} (h : Aggregable shapes results)
    (htotal : ¬3329 ∣ totalExamples results) :
    (∀ fed, computedChunks (configureFit st serverRound) results = .ok fed →
        ∀ i row, fed.get? i = some row → ∀ j < row.length,
          row.getD j 0 * totalExamples results ≡ weightedSum results (i * st.chunkSize + j)
            [ZMOD 3329]) ↔
      distinctExamples results ≡ totalExamples results [MOD 3329] ∨
        (∀ p < shapeChunks st.chunkSize shapes * st.chunkSize,
          weightedSum results p ≡ 0 [ZMOD 3329]) ∨
        ¬Announceable st.chunkSize serverRound results.length
          (shapeChunks st.chunkSize shapes) := by
  by_cases hcut : shapes = [] ∨ st.chunkSize = 0 ∨ ¬Announceable st.chunkSize serverRound
      results.length (shapeChunks st.chunkSize shapes)
  · -- nothing is computed; without shapes, or with empty chunks, there is no place either
    obtain ⟨e, he⟩ := computedChunks_raises (configureFit st serverRound) h hcut
    refine iff_of_true (fun fed hfed => absurd (he.symm.trans hfed) (by simp)) (.inr ?_)
    obtain rfl | hzero | hnot := hcut
    · left
      intro p hp
      rw [shapeChunks, chunkCount] at hp
      by_cases hzero : st.chunkSize = 0
      · rw [hzero, Nat.mul_zero] at hp
        exact absurd hp (Nat.not_lt_zero p)
      · rw [Nat.div_eq_of_lt (by simp; omega), Nat.zero_mul] at hp
        exact absurd hp (Nat.not_lt_zero p)
    · left
      intro p hp
      rw [hzero, Nat.mul_zero] at hp
      exact absurd hp (Nat.not_lt_zero p)
    · exact .inr hnot
  · obtain ⟨hmodel, hcut⟩ := not_or.mp hcut
    obtain ⟨hchunk, hannounce⟩ := not_or.mp hcut
    have hannounce := not_not.mp hannounce
    obtain ⟨fed, hfed, hkeys, hrows⟩ :=
      computedChunks_rows (configureFit st serverRound) rfl h hchunk hmodel hannounce
    rw [configureFit_chunkSize] at hkeys hrows
    constructor
    · intro hall
      by_cases hdistinct : distinctExamples results ≡ totalExamples results [MOD 3329]
      · exact .inl hdistinct
      · refine .inr (.inl fun p hp => ?_)
        -- place `p` stands in the row of its chunk
        have hi : p / st.chunkSize < shapeChunks st.chunkSize shapes :=
          Nat.div_lt_of_lt_mul (by rwa [Nat.mul_comm])
        have hj : p % st.chunkSize < st.chunkSize := Nat.mod_lt p (Nat.pos_of_ne_zero hchunk)
        obtain ⟨row, hrow, hlen, -⟩ := hrows _ hi
        have hplace := (hrows.weighted_iff htotal hrow hi hj).mp
          (hall fed hfed _ row hrow _ (hlen.symm ▸ hj))
        have hzero := hplace.resolve_right hdistinct
        rwa [Nat.div_add_mod'] at hzero
    · intro hcond fed' hfed' i row hrow j hj
      obtain rfl : fed = fed' := Except.ok.inj (hfed.symm.trans hfed')
      have hi : i < shapeChunks st.chunkSize shapes := by
        have hmem := Dict.mem_keys_of_get? hrow
        rw [hkeys] at hmem
        exact List.mem_range.mp hmem
      obtain ⟨row', hrow', hlen, -⟩ := hrows i hi
      obtain rfl : row' = row := Option.some.inj (hrow'.symm.trans hrow)
      rw [hlen] at hj
      refine (hrows.weighted_iff htotal hrow hi hj).mpr ?_
      obtain hdistinct | hzero | hnot := hcond
      · exact .inr hdistinct
      · left
        refine hzero _ ?_
        calc i * st.chunkSize + j < i * st.chunkSize + st.chunkSize := Nat.add_lt_add_left hj _
          _ = (i + 1) * st.chunkSize := (Nat.succ_mul i st.chunkSize).symm
          _ ≤ shapeChunks st.chunkSize shapes * st.chunkSize := Nat.mul_le_mul_right _ hi
      · exact absurd hannounce hnot

/-- A strategy that cuts models into single values. -/
def valueStrategy : ChunkedFedAvg := ⟨1, 0, .empty, .empty⟩

/-- A result whose model is a single value. -/
def valueResult (numExamples : Nat) (v : Int) (typed : DType.int16.cast v = v) : FitRes where
  numExamples := numExamples
  parameters := [⟨.int16, [1], [v], rfl, by simpa using typed⟩]

/-- Two results with one example each: `7 + 7` is divided by one. -/
theorem computedChunks_equalCounts :
    ¬∀ (st : ChunkedFedAvg) (serverRound : Nat) (shapes : List (List Nat)) (results : List FitRes),
      Aggregable shapes results → ¬3329 ∣ totalExamples results →
      ∀ fed, computedChunks (configureFit st serverRound) results = .ok fed →
        ∀ i row, fed.get? i = some row → ∀ j < row.length,
          row.getD j 0 * totalExamples results ≡ weightedSum results (i * st.chunkSize + j)
            [ZMOD 3329] := by
  intro hall
  have hresults : Aggregable [[1]] [valueResult 1 7 rfl, valueResult 1 7 rfl] :=
    ⟨by simp, by simp [valueResult], by simp [FitsInt16, valueResult], by simp [valueResult]⟩
  have hrun : (computedChunks (configureFit valueStrategy 0)
      [valueResult 1 7 rfl, valueResult 1 7 rfl]).toOption.bind (·.get? 0) = some [14] := by
    decide +kernel
  obtain ⟨fed, hfed, hrow⟩ := Option.bind_eq_some_iff.mp hrun
  exact absurd (hall valueStrategy 0 _ _ hresults (by decide) fed (Except.toOption_eq_some hfed)
    0 [14] hrow 0 (by decide)) (by decide)

/-- With one and two examples both sides hold, since the counts are distinct. -/
theorem computedChunks_distinctCounts :
    (∀ fed, computedChunks (configureFit valueStrategy 0)
          [valueResult 1 7 rfl, valueResult 2 5 rfl] = .ok fed →
        ∀ i row, fed.get? i = some row → ∀ j < row.length,
          row.getD j 0 * totalExamples [valueResult 1 7 rfl, valueResult 2 5 rfl] ≡
            weightedSum [valueResult 1 7 rfl, valueResult 2 5 rfl] (i * 1 + j) [ZMOD 3329]) ↔
      distinctExamples [valueResult 1 7 rfl, valueResult 2 5 rfl] ≡ 3 [MOD 3329] ∨
        (∀ p < 1 * 1, weightedSum [valueResult 1 7 rfl, valueResult 2 5 rfl] p ≡ 0 [ZMOD 3329]) ∨
        ¬Announceable 1 0 2 1 :=
  have hresults : Aggregable [[1]] [valueResult 1 7 rfl, valueResult 2 5 rfl] :=
    ⟨by simp, by simp [valueResult], by simp [FitsInt16, valueResult], by simp [valueResult]⟩
  computedChunks_weighted_iff valueStrategy 0 hresults (by decide)

end SwiftAgg.Host
