import Mathlib.Algebra.Order.Floor.Div
import SwiftAgg.Host.FlowerServer

/-!
# Models in chunks

`_model_to_chunks` writes the entries of all arrays one after the other, cuts
them into chunks of big-endian words and pads the last one with zeros.
`_chunks_to_model` reads the words back and deals them out to the arrays again.
In between, the entries may be changed one by one.

## Key results

- `modelToChunks_eq`: the chunks, and what each of them holds
- `chunksToModel_map`: the arrays that are read back from changed entries
- `chunksToModel_modelToChunks`: with unchanged entries, the model
-/

namespace SwiftAgg.Host

/-- All entries of a model. -/
def flatEntries (ndarrays : List NdArray) : List Int := ndarrays.flatMap NdArray.entries

/-- All entries fit `int16`. -/
def FitsInt16 (ndarrays : List NdArray) : Prop :=
  ∀ arr ∈ ndarrays, ∀ v ∈ arr.entries, -2 ^ 15 ≤ v ∧ v < 2 ^ 15

/-- How many chunks there are. -/
def chunkCount (chunkSize total : Nat) : Nat := (total + chunkSize - 1) / chunkSize

variable {chunkSize : Nat} {ndarrays : List NdArray}

theorem length_flatEntries (ndarrays : List NdArray) :
    (flatEntries ndarrays).length = (ndarrays.map NdArray.size).sum := by
  rw [flatEntries, List.length_flatMap]
  rfl

theorem FitsInt16.mem_flatEntries (h : FitsInt16 ndarrays) {v : Int}
    (hv : v ∈ flatEntries ndarrays) : -2 ^ 15 ≤ v ∧ v < 2 ^ 15 := by
  obtain ⟨arr, harr, hmem⟩ := List.mem_flatMap.mp hv
  exact h arr harr v hmem

theorem le_chunkCount_mul (hchunk : chunkSize ≠ 0) (total : Nat) :
    total ≤ chunkCount chunkSize total * chunkSize := by
  have hceil := le_smul_ceilDiv (Nat.pos_of_ne_zero hchunk) (b := total)
  rwa [Nat.ceilDiv_eq_add_pred_div, smul_eq_mul, Nat.mul_comm] at hceil

/-! ## Packing -/

theorem packChunk_eq_ok {values : List Int} (hlen : values.length = chunkSize)
    (hvalues : ∀ v ∈ values, -2 ^ 15 ≤ v ∧ v < 2 ^ 15) :
    packChunk chunkSize values = .ok (Bytes.packInt16BE values) :=
  if_pos ⟨hlen, hvalues⟩

theorem mem_paddedChunk {flat : List Int} (hflat : ∀ v ∈ flat, -2 ^ 15 ≤ v ∧ v < 2 ^ 15)
    (i : Nat) {v : Int} (hv : v ∈ flat.paddedChunk 0 chunkSize i) : -2 ^ 15 ≤ v ∧ v < 2 ^ 15 := by
  rw [List.paddedChunk_eq_map] at hv
  obtain ⟨j, -, rfl⟩ := List.mem_map.mp hv
  by_cases hin : i * chunkSize + j < flat.length
  · rw [List.getD_eq_getElem _ _ hin]
    exact hflat _ (List.getElem_mem hin)
  · rw [List.getD_eq_default _ _ (by omega)]
    omega

/-- The chunks are numbered from 0 on, and each holds its window of the entries. -/
theorem modelToChunks_eq (hchunk : chunkSize ≠ 0) (hne : ndarrays ≠ [])
    (hfits : FitsInt16 ndarrays) : ∃ chunks,
    modelToChunks chunkSize ndarrays = .ok chunks ∧
      chunks.entries = (List.range (chunkCount chunkSize (flatEntries ndarrays).length)).map
        fun i => (i, Bytes.packInt16BE ((flatEntries ndarrays).paddedChunk 0 chunkSize i)) := by
  have hcast : (ndarrays.flatMap NdArray.entries).map DType.int16.cast = flatEntries ndarrays :=
    (List.map_congr_left fun v hv => DType.cast_int16 (hfits.mem_flatEntries hv)).trans
      (List.map_id _)
  have hentries := Dict.entries_foldl_insert
    (fun i => Bytes.packInt16BE ((flatEntries ndarrays).paddedChunk 0 chunkSize i))
    (List.nodup_range (n := chunkCount chunkSize (flatEntries ndarrays).length))
    (d := .empty) fun _ _ => List.not_mem_nil
  refine ⟨_, ?_, hentries⟩
  rw [modelToChunks, if_neg hne, if_neg hchunk]
  simp only [hcast]
  -- every chunk has its length, and its words fit
  refine (List.foldlM_eq_ok (fun _ => True) (fun i _ chunks _ => ?_) trivial).1
  rw [packChunk_eq_ok (List.length_paddedChunk ..)
    fun v hv => mem_paddedChunk (fun _ => hfits.mem_flatEntries) i hv]
  exact ⟨rfl, trivial⟩

/-! ## Reading back -/

/-- The words of the chunks, one chunk after the other. -/
theorem chunkElements_eq {chunks : Dict Nat Bytes} {flat : List Int} {num : Nat}
    (hflat : ∀ v ∈ flat, -2 ^ 15 ≤ v ∧ v < 2 ^ 15)
    (hentries : chunks.entries = (List.range num).map
      fun i => (i, Bytes.packInt16BE (flat.paddedChunk 0 chunkSize i))) :
    chunkElements chunkSize chunks =
      .ok ((List.range num).flatMap fun i => flat.paddedChunk 0 chunkSize i) := by
  have hlen : chunks.entries.length = num := by
    rw [hentries, List.length_map, List.length_range]
  have hget : ∀ i ∈ List.range num,
      chunks.get? i = some (Bytes.packInt16BE (flat.paddedChunk 0 chunkSize i)) := by
    intro i hi
    rw [Dict.get?_eq_some_iff, hentries]
    exact List.mem_map.mpr ⟨i, hi, rfl⟩
  rw [chunkElements, hlen, List.flatMap_eq_foldl]
  refine (List.foldlM_eq_ok (fun _ => True) (fun i hi allElements _ => ?_) trivial).1
  simp only [hget i hi, unpackChunk_packInt16BE (List.length_paddedChunk ..)
    fun v hv => mem_paddedChunk hflat i hv]
  exact ⟨rfl, trivial⟩

/-- An array with its entries changed and converted back to its type. -/
def NdArray.convert (f : Int → Int) (arr : NdArray) : NdArray where
  dtype := arr.dtype
  shape := arr.shape
  entries := arr.entries.map fun v => arr.dtype.cast (f v)
  size_eq := by rw [List.length_map, arr.size_eq]
  typed := by
    intro v hv
    obtain ⟨u, -, rfl⟩ := List.mem_map.mp hv
    exact arr.dtype.cast_cast (f u)

theorem NdArray.convert_id (arr : NdArray) : arr.convert id = arr := by
  ext1
  · rfl
  · rfl
  · exact (List.map_congr_left arr.typed).trans (List.map_id _)

theorem NdArray.reshapeLike_map (arr : NdArray) (f : Int → Int) :
    arr.reshapeLike (arr.entries.map f) = .ok (arr.convert f) := by
  rw [NdArray.reshapeLike, dif_pos (by rw [List.length_map, arr.size_eq])]
  congr 1
  ext1
  · rfl
  · rfl
  · exact List.map_map

/-- The arrays take their entries one after the other, from their offset on. -/
theorem sliceModel_eq (f : Int → Int) (front behind : List Int) (refs : List NdArray) :
    sliceModel (front ++ (flatEntries refs).map f ++ behind) front.length refs =
      .ok (refs.map (NdArray.convert f)) := by
  induction refs generalizing front with
  | nil => rfl
  | cons ref refs ih =>
    have hflat : front ++ (flatEntries (ref :: refs)).map f ++ behind =
        (front ++ ref.entries.map f) ++ (flatEntries refs).map f ++ behind := by
      rw [flatEntries, List.flatMap_cons, List.map_append, ← List.append_assoc, flatEntries]
    have hsize : front.length + ref.size = (front ++ ref.entries.map f).length := by
      rw [List.length_append, List.length_map, NdArray.size]
    have hslice : ((front ++ ref.entries.map f ++ (flatEntries refs).map f ++ behind).drop
        front.length).take ref.size = ref.entries.map f := by
      rw [List.append_assoc, List.append_assoc, List.drop_left, List.take_left' (by
        rw [List.length_map, NdArray.size])]
    rw [sliceModel, hflat, hslice, ref.reshapeLike_map, hsize]
    simp only [bind, Except.bind]
    rw [ih]
    rfl

/-- What is read back from chunks of changed entries: the arrays with changed entries. -/
theorem chunksToModel_map {chunks : Dict Nat Bytes} (f : Int → Int) (hchunk : chunkSize ≠ 0)
    (hfits : ∀ v ∈ (flatEntries ndarrays).map f, -2 ^ 15 ≤ v ∧ v < 2 ^ 15)
    (hentries : chunks.entries = (List.range (chunkCount chunkSize
      (flatEntries ndarrays).length)).map fun i =>
        (i, Bytes.packInt16BE (((flatEntries ndarrays).map f).paddedChunk 0 chunkSize i))) :
    chunksToModel chunkSize chunks ndarrays = .ok (ndarrays.map (NdArray.convert f)) := by
  have hcount : ((flatEntries ndarrays).map f).length ≤
      chunkCount chunkSize (flatEntries ndarrays).length * chunkSize := by
    rw [List.length_map]
    exact le_chunkCount_mul hchunk _
  rw [chunksToModel, chunkElements_eq hfits hentries]
  show sliceModel ((List.range _).flatMap _) 0 ndarrays = _
  rw [List.flatMap_paddedChunk_of_le 0 chunkSize _ hcount]
  exact sliceModel_eq f [] _ ndarrays

/-- A model is read back from its chunks. They are numbered from 0 on, as many as the entries need,
    and have two bytes for each word. -/
theorem chunksToModel_modelToChunks (hchunk : 1 ≤ chunkSize) (hne : ndarrays ≠ [])
    (hfits : FitsInt16 ndarrays) : ∃ chunks,
    modelToChunks chunkSize ndarrays = .ok chunks ∧
      chunksToModel chunkSize chunks ndarrays = .ok ndarrays ∧
      chunks.keys = List.range ((ndarrays.map NdArray.size).sum ⌈/⌉ chunkSize) ∧
      ∀ data ∈ chunks.values, data.length = 2 * chunkSize := by
  have hpos : chunkSize ≠ 0 := Nat.ne_of_gt hchunk
  obtain ⟨chunks, hchunks, hentries⟩ := modelToChunks_eq hpos hne hfits
  refine ⟨chunks, hchunks, ?_, ?_, ?_⟩
  · have hread : chunksToModel chunkSize chunks ndarrays = .ok (ndarrays.map (.convert id)) := by
      refine chunksToModel_map id hpos ?_ ?_ <;> simp only [List.map_id]
      · exact fun v hv => hfits.mem_flatEntries hv
      · exact hentries
    rw [hread]
    congr 1
    exact (List.map_congr_left fun arr _ => arr.convert_id).trans (List.map_id _)
  · rw [Dict.keys, hentries, List.map_map, length_flatEntries, Nat.ceilDiv_eq_add_pred_div]
    exact List.map_id _
  · intro data hdata
    rw [Dict.values, hentries, List.map_map] at hdata
    obtain ⟨i, -, rfl⟩ := List.mem_map.mp hdata
    rw [Function.comp_apply, Bytes.length_packInt16BE, List.length_paddedChunk]

/-- A vector, a scalar and an empty array. -/
def smallModel : List NdArray :=
  [⟨.int16, [3], [1, -2, 3], rfl, by decide⟩, ⟨.int64, [], [7], rfl, by decide⟩,
    ⟨.uint8, [0], [], rfl, by decide⟩]

/-- Its four entries in two chunks of three. -/
theorem chunksToModel_smallModel : ∃ chunks,
    modelToChunks 3 smallModel = .ok chunks ∧ chunksToModel 3 chunks smallModel = .ok smallModel ∧
      chunks.keys = List.range 2 ∧
      ∀ data ∈ chunks.values, data.length = 2 * 3 :=
  chunksToModel_modelToChunks (by decide) (by simp [smallModel]) (by simp [FitsInt16, smallModel])

end SwiftAgg.Host
