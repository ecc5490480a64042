import SwiftAgg.ForStd.PairMask
import SwiftAgg.Spec.SharedStreams
import Mathlib.Data.Set.Card
import Mathlib.Data.Set.Finite.List
import Mathlib.Data.Sym.Sym2.Order

/-!
# What masked chunks tell

A coalition of clients knows its own chunks and the streams of all pairs it is
part of, and it sees the chunk of every client after the accumulation loop of
`mask_protocol_generate_chunk_mask` and `mask_protocol_apply_mask`. It is assumed
here that both ends of a pair expand one shared stream, as the masks are meant
to: the clients themselves put their own ids into the seeds of their streams.
From these it learns the sum of the other clients' chunks modulo 3329, since the
masks cancel, and nothing else: any other chunks with that sum give the same
masked chunks under other streams, and if the words of the streams are uniform
in the field they do so equally often.

## Key results

- `maskedChunk_cast`: a masked word is the word plus the terms of the pairs
- `maskedChunk_shiftStream`: the streams that explain other chunks
- `maskedChunks_explained_iff`: which chunks the coalition cannot rule out
- `ncard_explanations_iff`: and which it finds equally likely
-/

namespace SwiftAgg

open Native

/-- The streams of all pairs, of `size` little-endian words each: one for both ends of a pair. This
    is an assumption; `mask_protocol_generate_chunk_mask` derives a stream of its own at each end. -/
abbrev PairStreams (size : Nat) := Sym2 UInt8 → { b : Bytes // b.length = size * 2 }

/-- What a client sends: its chunk under the mask made of its streams. -/
def maskedChunk {size : Nat} (stream : PairStreams size) (peers : UInt8 → List UInt8)
    (x : UInt8 → List Int) (a : UInt8) : List Int :=
  maskProtocolApplyMask (x a) (sharedMask stream peers a)

/-- The members of the coalition `T` hold the same streams. -/
def SameFor {size : Nat} (T : Finset UInt8) (stream stream' : PairStreams size) : Prop :=
  ∀ a ∈ T, ∀ b, stream' s(a, b) = stream s(a, b)

/-- The chunks of the coalition are the same modulo 3329, and so is the sum of all others. -/
structure SameView (S T : Finset UInt8) (size : Nat) (x x' : UInt8 → List Int) : Prop where
  coalition : ∀ a ∈ S ∩ T, ∀ j < size, (x' a).getD j 0 ≡ (x a).getD j 0 [ZMOD 3329]
  total : ∀ j < size,
    ∑ a ∈ S \ T, (x' a).getD j 0 ≡ ∑ a ∈ S \ T, (x a).getD j 0 [ZMOD 3329]

theorem SameView.symm {S T : Finset UInt8} {size : Nat} {x x' : UInt8 → List Int}
    (h : SameView S T size x x') : SameView S T size x' x :=
  ⟨fun a ha j hj => (h.coalition a ha j hj).symm, fun j hj => (h.total j hj).symm⟩

/-- The residue of a word of a chunk. -/
def chunkResidue (x : UInt8 → List Int) (j : Nat) (a : UInt8) : Gf := ((x a).getD j 0 : Int)

/-- The signed word of a pair at a position, as the loop of the client `a` adds it. -/
def pairTerm {size : Nat} (stream : PairStreams size) (j : Nat) (a b : UInt8) : Gf :=
  maskSign a b * keystreamWord (stream s(a, b)).val j

theorem antisymm_pairTerm {size : Nat} (stream : PairStreams size) (j : Nat) :
    PairMask.Antisymm (pairTerm stream j) := by
  intro a b hab
  rw [pairTerm, pairTerm, Sym2.eq_swap (a := b)]
  rcases lt_or_gt_of_ne hab with hlt | hlt
  · rw [maskSign_pair hlt, sub_self, Int.cast_zero]
  · rw [add_comm, maskSign_pair hlt, sub_self, Int.cast_zero]

/-! ## Masked chunks -/

section

variable {S T : Finset UInt8} {peers : UInt8 → List UInt8} {size : Nat} {stream : PairStreams size}
  {x x' : UInt8 → List Int}

theorem length_maskedChunk (stream : PairStreams size) (peers : UInt8 → List UInt8) {a : UInt8}
    (hx : (x a).length = size) : (maskedChunk stream peers x a).length = size := by
  have hmask : (sharedMask stream peers a).length = size :=
    combinePeerMasks_length (length_pairStreams stream peers a)
  rw [maskedChunk, maskProtocolApplyMask, List.length_zipWith, hx, hmask, min_self]

/-- A masked word is canonical and is the word of the chunk plus the terms of the pairs. -/
theorem maskedChunk_cast (h : PeerTables S peers) {a : UInt8} (ha : a ∈ S)
    (hx : (x a).length = size) {j : Nat} (hj : j < size) :
    Canonical ((maskedChunk stream peers x a).getD j 0) ∧
      (((maskedChunk stream peers x a).getD j 0 : Int) : Gf) =
        PairMask.masked S (pairTerm stream j) (chunkResidue x j) a := by
  have hmask : j < (sharedMask stream peers a).length := by
    rw [sharedMask, combinePeerMasks_length (length_pairStreams stream peers a)]
    exact hj
  have hchunk : j < (x a).length := by rwa [hx]
  have hword : (maskedChunk stream peers x a).getD j 0 =
      modQ ((x a).getD j 0 + (sharedMask stream peers a).getD j 0) := by
    simp only [maskedChunk, maskProtocolApplyMask, List.getD_eq_getElem?_getD,
      List.getElem?_zipWith, List.getElem?_eq_getElem hchunk, List.getElem?_eq_getElem hmask,
      Option.getD_some]
  rw [hword]
  refine ⟨modQ_canonical _, ?_⟩
  rw [modQ_cast, Int.cast_add, (sharedMask_cast stream h ha hj).2]
  rfl

/-- Two masked chunks of a client are equal exactly if the residues behind them are. -/
theorem maskedChunk_eq_iff {stream' : PairStreams size} (h : PeerTables S peers) {a : UInt8}
    (ha : a ∈ S) (hx : (x a).length = size) (hx' : (x' a).length = size) :
    maskedChunk stream' peers x' a = maskedChunk stream peers x a ↔
      ∀ j < size, PairMask.masked S (pairTerm stream' j) (chunkResidue x' j) a =
        PairMask.masked S (pairTerm stream j) (chunkResidue x j) a := by
  constructor
  · intro heq j hj
    rw [← (maskedChunk_cast h ha hx' hj).2, heq, (maskedChunk_cast h ha hx hj).2]
  · intro hall
    have hlen := length_maskedChunk stream peers hx
    have hlen' := length_maskedChunk stream' peers hx'
    apply List.ext_getElem (hlen'.trans hlen.symm)
    intro j hj' hj
    have hsize : j < size := hlen ▸ hj
    obtain ⟨hcanon, hcast⟩ : Canonical ((maskedChunk stream peers x a).getD j 0) ∧ _ :=
      maskedChunk_cast h ha hx hsize
    obtain ⟨hcanon', hcast'⟩ : Canonical ((maskedChunk stream' peers x' a).getD j 0) ∧ _ :=
      maskedChunk_cast h ha hx' hsize
    have hword := Gf.eq_of_cast_eq hcanon' hcanon (by rw [hcast, hcast', hall j hsize])
    rwa [List.getD_eq_getElem _ _ hj, List.getD_eq_getElem _ _ hj'] at hword

/-! ## What the coalition learns -/

theorem intCast_eq_iff_modEq (a b : Int) : (a : Gf) = (b : Gf) ↔ a ≡ b [ZMOD 3329] :=
  ZMod.intCast_eq_intCast_iff a b 3329

/-- The sum over the group, split into the coalition and the others. -/
private theorem sum_coalition_add (S T : Finset UInt8) (f : UInt8 → Gf) :
    ∑ a ∈ S ∩ T, f a + ∑ a ∈ S \ T, f a = ∑ a ∈ S, f a :=
  Finset.sum_inter_add_sum_sdiff S T f

/-- Chunks that lead to the same masked chunks, with the streams of the coalition unchanged, have
    the same words in the coalition and the same sum outside. -/
theorem sameView_of_maskedChunks {stream' : PairStreams size} (h : PeerTables S peers)
    (hx : ∀ a ∈ S, (x a).length = size) (hx' : ∀ a ∈ S, (x' a).length = size)
    (hsame : SameFor T stream stream')
    (heq : ∀ a ∈ S, maskedChunk stream' peers x' a = maskedChunk stream peers x a) :
    SameView S T size x x' := by
  have hmasked : ∀ a ∈ S, ∀ j < size, PairMask.masked S (pairTerm stream' j) (chunkResidue x' j) a =
      PairMask.masked S (pairTerm stream j) (chunkResidue x j) a := fun a ha =>
    (maskedChunk_eq_iff h ha (hx a ha) (hx' a ha)).mp (heq a ha)
  -- a member of the coalition adds the same terms as before
  have hcoal : ∀ a ∈ S ∩ T, ∀ j < size, chunkResidue x' j a = chunkResidue x j a := by
    intro a ha j hj
    obtain ⟨haS, haT⟩ := Finset.mem_inter.mp ha
    have hterms : ∀ b, pairTerm stream' j a b = pairTerm stream j a b := fun b => by
      rw [pairTerm, pairTerm, hsame a haT b]
    have hone := hmasked a haS j hj
    simp only [PairMask.masked, hterms] at hone
    exact add_right_cancel hone
  refine ⟨fun a ha j hj => (intCast_eq_iff_modEq _ _).mp (hcoal a ha j hj), fun j hj => ?_⟩
  -- over the whole group the masks cancel
  have hall : ∑ a ∈ S, chunkResidue x' j a = ∑ a ∈ S, chunkResidue x j a := by
    calc ∑ a ∈ S, chunkResidue x' j a
        = ∑ a ∈ S, PairMask.masked S (pairTerm stream' j) (chunkResidue x' j) a :=
          (PairMask.sum_masked (antisymm_pairTerm stream' j) S _).symm
      _ = ∑ a ∈ S, PairMask.masked S (pairTerm stream j) (chunkResidue x j) a :=
          Finset.sum_congr rfl fun a ha => hmasked a ha j hj
      _ = ∑ a ∈ S, chunkResidue x j a := PairMask.sum_masked (antisymm_pairTerm stream j) S _
  rw [← sum_coalition_add S T, ← sum_coalition_add S T,
    Finset.sum_congr rfl fun a ha => hcoal a ha j hj] at hall
  rw [← intCast_eq_iff_modEq, Int.cast_sum, Int.cast_sum]
  exact add_left_cancel hall

/-! ## Other streams that explain the same masked chunks -/

/-- A stream with the given residues as its words. -/
def streamOfWords (size : Nat) (w : Nat → Gf) : { b : Bytes // b.length = size * 2 } :=
  ⟨Bytes.packU16LE ((List.range size).map fun j => (w j).val), by
    rw [Bytes.length_packU16LE, List.length_map, List.length_range, Nat.mul_comm]⟩

theorem keystreamWord_streamOfWords {w : Nat → Gf} {j : Nat} (hj : j < size) :
    keystreamWord (streamOfWords size w).val j = (w j).val := by
  have hwords : ∀ v ∈ (List.range size).map (fun j => (w j).val), v < 2 ^ 16 := by
    intro v hv
    obtain ⟨i, -, rfl⟩ := List.mem_map.mp hv
    exact (ZMod.val_lt (w i)).trans (by decide)
  have hword : (w j).val < 2 ^ 15 := (ZMod.val_lt (w j)).trans (by decide)
  simp [keystreamWord, streamOfWords, Bytes.int16sLE, Bytes.u16sLE_packU16LE hwords, hj,
    Bytes.toInt16_of_lt hword]

/-- The change of the streams that makes up for other chunks: outside the coalition `T` the words
    of the pairs with the hub `c` are moved by the difference of the chunks. -/
def shiftStream (T : Finset UInt8) (c : UInt8) (x x' : UInt8 → List Int)
    (stream : PairStreams size) : PairStreams size := fun z =>
  if ∃ a ∈ T, a ∈ z then stream z
  else streamOfWords size fun j => keystreamWord (stream z).val j +
    PairMask.star c (fun a => chunkResidue x j a - chunkResidue x' j a) z.inf z.sup

theorem sameFor_shiftStream (T : Finset UInt8) (c : UInt8) (x x' : UInt8 → List Int)
    (stream : PairStreams size) : SameFor T stream (shiftStream T c x x' stream) := by
  intro a ha b
  exact if_pos ⟨a, ha, Sym2.mem_mk_left a b⟩

/-- The terms of the pairs move by the terms of a star. -/
theorem pairTerm_shiftStream {c : UInt8} (hc : c ∉ T) (hview : SameView S T size x x') {a b : UInt8}
    (ha : a ∈ S) (hb : b ∈ S) (hab : a ≠ b) {j : Nat} (hj : j < size) :
    pairTerm (shiftStream T c x x' stream) j a b = pairTerm stream j a b +
      PairMask.star c (fun a => chunkResidue x j a - chunkResidue x' j a) a b := by
  by_cases htouch : ∃ d ∈ T, d ∈ s(a, b)
  · -- the star has no term for a member of the coalition: its chunk is the same
    have hzero : ∀ d ∈ S, d ∈ T → chunkResidue x j d - chunkResidue x' j d = 0 := by
      intro d hdS hdT
      rw [sub_eq_zero]
      exact ((intCast_eq_iff_modEq _ _).mpr
        (hview.coalition d (Finset.mem_inter.mpr ⟨hdS, hdT⟩) j hj)).symm
    have hstar : PairMask.star c (fun a => chunkResidue x j a - chunkResidue x' j a) a b = 0 := by
      obtain ⟨d, hdT, hd⟩ := htouch
      have hdc : d ≠ c := fun heq => hc (heq ▸ hdT)
      rcases Sym2.mem_iff.mp hd with rfl | rfl
      · simp [PairMask.star, hdc, hzero d ha hdT]
      · simp [PairMask.star, hdc, hzero d hb hdT]
    rw [hstar, add_zero, pairTerm, pairTerm, shiftStream, if_pos htouch]
  · rw [pairTerm, shiftStream, if_neg htouch, keystreamWord_streamOfWords hj, Gf.cast_val, mul_add,
      ← pairTerm, Sym2.inf_mk, Sym2.sup_mk]
    congr 1
    -- the loop of the larger id subtracts the word
    rcases lt_or_gt_of_ne hab with hlt | hlt
    · simp [maskSign, hlt, hlt.le]
    · have hopp := PairMask.antisymm_star c (fun a => chunkResidue x j a - chunkResidue x' j a)
        a b hab
      simp [maskSign, not_lt_of_gt hlt, hlt.le, eq_neg_of_add_eq_zero_left hopp]

/-- Under the changed streams the other chunks lead to the same masked chunks. -/
theorem maskedChunk_shiftStream (h : PeerTables S peers) (hx : ∀ a ∈ S, (x a).length = size)
    (hx' : ∀ a ∈ S, (x' a).length = size) (hview : SameView S T size x x') {c : UInt8}
    (hc : c ∈ S \ T) {a : UInt8} (ha : a ∈ S) :
    maskedChunk (shiftStream T c x x' stream) peers x' a = maskedChunk stream peers x a := by
  obtain ⟨hcS, hcT⟩ := Finset.mem_sdiff.mp hc
  rw [maskedChunk_eq_iff h ha (hx a ha) (hx' a ha)]
  intro j hj
  have hsum : ∑ a ∈ S, chunkResidue x' j a = ∑ a ∈ S, chunkResidue x j a := by
    have htotal := (intCast_eq_iff_modEq _ _).mpr (hview.total j hj)
    rw [Int.cast_sum, Int.cast_sum] at htotal
    rw [← sum_coalition_add S T, ← sum_coalition_add S T (chunkResidue x j)]
    refine congrArg₂ (· + ·) (Finset.sum_congr rfl fun a ha => ?_) htotal
    exact (intCast_eq_iff_modEq _ _).mpr (hview.coalition a ha j hj)
  calc PairMask.masked S (pairTerm (shiftStream T c x x' stream) j) (chunkResidue x' j) a
      = PairMask.masked S (fun a b => pairTerm stream j a b +
          PairMask.star c (fun a => chunkResidue x j a - chunkResidue x' j a) a b)
          (chunkResidue x' j) a := by
        refine congrArg (chunkResidue x' j a + ·) (Finset.sum_congr rfl fun b hb => ?_)
        obtain ⟨hne, hbS⟩ := Finset.mem_erase.mp hb
        exact pairTerm_shiftStream hcT hview ha hbS (Ne.symm hne) hj
    _ = PairMask.masked S (pairTerm stream j) (chunkResidue x j) a :=
        PairMask.masked_add_star hcS (pairTerm stream j) hsum a

/-- A coalition with everyone in it sees all chunks. -/
theorem maskedChunk_of_sdiff_eq_empty (h : PeerTables S peers) (hx : ∀ a ∈ S, (x a).length = size)
    (hx' : ∀ a ∈ S, (x' a).length = size) (hview : SameView S T size x x') (hnone : S \ T = ∅)
    {a : UInt8} (ha : a ∈ S) :
    maskedChunk stream peers x' a = maskedChunk stream peers x a := by
  rw [maskedChunk_eq_iff h ha (hx a ha) (hx' a ha)]
  intro j hj
  have haT : a ∈ S ∩ T := Finset.mem_inter.mpr ⟨ha, Finset.sdiff_eq_empty_iff_subset.mp hnone ha⟩
  refine congrArg (· + _) ?_
  exact (intCast_eq_iff_modEq _ _).mpr (hview.coalition a haT j hj)

/-- Where both ends of every pair mask with one shared stream, a coalition that knows the streams of
    its pairs and sees all masked chunks cannot rule out other chunks exactly if these have its own
    words and the same sum over the other clients, position by position modulo 3329. -/
theorem maskedChunks_explained_iff (h : PeerTables S peers) (hx : ∀ a ∈ S, (x a).length = size)
    (hx' : ∀ a ∈ S, (x' a).length = size) :
    (∃ stream', SameFor T stream stream' ∧
      ∀ a ∈ S, maskedChunk stream' peers x' a = maskedChunk stream peers x a) ↔
    SameView S T size x x' := by
  constructor
  · rintro ⟨stream', hsame, heq⟩
    exact sameView_of_maskedChunks h hx hx' hsame heq
  · intro hview
    rcases (S \ T).eq_empty_or_nonempty with hnone | ⟨c, hc⟩
    · exact ⟨stream, fun _ _ _ => rfl, fun a ha =>
        maskedChunk_of_sdiff_eq_empty h hx hx' hview hnone ha⟩
    · exact ⟨shiftStream T c x x' stream, sameFor_shiftStream T c x x' stream, fun a ha =>
        maskedChunk_shiftStream h hx hx' hview hc ha⟩

/-! ## Equally likely chunks -/

/-- All words are canonical. -/
def CanonicalWords (b : { b : Bytes // b.length = size * 2 }) : Prop :=
  ∀ j < size, Canonical (keystreamWord b.val j)

/-- The streams that agree with those of the coalition, have canonical words elsewhere and lead
    from the chunks `x` to the masked chunks `y`. -/
def explanations (S T : Finset UInt8) (peers : UInt8 → List UInt8) (stream : PairStreams size)
    (x y : UInt8 → List Int) : Set (PairStreams size) :=
  {stream' | SameFor T stream stream' ∧
    (∀ z, (¬∃ a ∈ T, a ∈ z) → CanonicalWords (stream' z)) ∧
    ∀ a ∈ S, maskedChunk stream' peers x a = y a}

theorem finite_explanations (y : UInt8 → List Int) :
    (explanations S T peers stream x y).Finite := by
  have hbyte : Finite UInt8 :=
    Finite.of_injective UInt8.toFin fun a b hab => UInt8.toFin_inj.mp hab
  have hstream : Finite { b : Bytes // b.length = size * 2 } :=
    (List.finite_length_eq UInt8 (size * 2)).to_subtype
  have hpair : Finite (Sym2 UInt8) := Quot.finite _
  exact Set.toFinite _

theorem canonicalWords_streamOfWords (w : Nat → Gf) : CanonicalWords (streamOfWords size w) := by
  intro j hj
  rw [keystreamWord_streamOfWords hj]
  exact Gf.val_canonical (w j)

theorem streamOfWords_congr {w w' : Nat → Gf} (h : ∀ j < size, w j = w' j) :
    streamOfWords size w = streamOfWords size w' := by
  have hmap : (List.range size).map (fun j => (w j).val) =
      (List.range size).map fun j => (w' j).val :=
    List.map_congr_left fun j hj => by rw [h j (List.mem_range.mp hj)]
  exact Subtype.ext (congrArg Bytes.packU16LE hmap)

/-- A stream of canonical words is the stream of their residues. -/
theorem streamOfWords_keystreamWord {b : { b : Bytes // b.length = size * 2 }}
    (h : CanonicalWords b) : streamOfWords size (fun j => keystreamWord b.val j) = b := by
  have hlen : (Bytes.u16sLE b.val).length = size := by
    rw [Bytes.length_u16sLE, b.property, Nat.mul_div_cancel _ (by decide)]
  have hwords : (List.range size).map (fun j => ((keystreamWord b.val j : Int) : Gf).val) =
      Bytes.u16sLE b.val := by
    apply List.ext_getElem (by rw [List.length_map, List.length_range, hlen])
    intro j hj hj'
    have hword : keystreamWord b.val j = Bytes.toInt16 (Bytes.u16sLE b.val)[j] := by
      simp only [keystreamWord, Bytes.int16sLE, List.getD_eq_getElem?_getD, List.getElem?_map,
        List.getElem?_eq_getElem hj', Option.map_some, Option.getD_some]
    have hcanon := h j (hlen ▸ hj')
    have hlt := Bytes.lt_of_mem_u16sLE (List.getElem_mem hj')
    -- a word that is not negative is its unsigned reading
    have hsmall : (keystreamWord b.val j) = (Bytes.u16sLE b.val)[j] := by
      rw [hword] at hcanon ⊢
      unfold Bytes.toInt16 Canonical at *
      split_ifs at hcanon ⊢ with hbig
      · rfl
      · omega
    have hval := Gf.eq_val_of_cast_eq hcanon rfl
    rw [List.getElem_map, List.getElem_range]
    omega
  apply Subtype.ext
  show Bytes.packU16LE _ = b.val
  rw [hwords, Bytes.packU16LE_u16sLE (by rw [b.property]; omega)]

/-- Changing the chunks and changing them back leaves canonical streams as they were. -/
theorem shiftStream_shiftStream (c : UInt8)
    (hcanon : ∀ z, (¬∃ a ∈ T, a ∈ z) → CanonicalWords (stream z)) :
    shiftStream T c x' x (shiftStream T c x x' stream) = stream := by
  funext z
  by_cases htouch : ∃ a ∈ T, a ∈ z
  · rw [shiftStream, if_pos htouch, shiftStream, if_pos htouch]
  · rw [← streamOfWords_keystreamWord (hcanon z htouch), shiftStream, if_neg htouch, shiftStream,
      if_neg htouch]
    apply streamOfWords_congr
    intro j hj
    rw [keystreamWord_streamOfWords hj, Gf.cast_val, add_assoc, PairMask.star_sub_add_star_sub,
      add_zero]

theorem shiftStream_mem_explanations (h : PeerTables S peers) (hx : ∀ a ∈ S, (x a).length = size)
    (hx' : ∀ a ∈ S, (x' a).length = size) (hview : SameView S T size x x') {c : UInt8}
    (hc : c ∈ S \ T) {y : UInt8 → List Int} {stream' : PairStreams size}
    (hmem : stream' ∈ explanations S T peers stream x y) :
    shiftStream T c x x' stream' ∈ explanations S T peers stream x' y := by
  obtain ⟨hsame, -, heq⟩ := hmem
  refine ⟨fun a ha b => ?_, fun z hz => ?_, fun a ha => ?_⟩
  · rw [sameFor_shiftStream T c x x' stream' a ha b, hsame a ha b]
  · rw [shiftStream, if_neg hz]
    exact canonicalWords_streamOfWords _
  · rw [maskedChunk_shiftStream h hx hx' hview hc ha, heq a ha]

/-- Where both ends of every pair mask with one shared stream, and the words of all streams that the
    coalition does not know are uniform in the field, two families of chunks are equally likely
    under every outcome exactly if they have the coalition's own words and the same sum over the
    other clients. -/
theorem ncard_explanations_iff (h : PeerTables S peers) (hx : ∀ a ∈ S, (x a).length = size)
    (hx' : ∀ a ∈ S, (x' a).length = size) :
    (∀ y, (explanations S T peers stream x y).ncard =
      (explanations S T peers stream x' y).ncard) ↔ SameView S T size x x' := by
  constructor
  · intro hcount
    -- some stream leads from `x` to some outcome, so one leads there from `x'` too
    let start : PairStreams size := fun z =>
      if ∃ a ∈ T, a ∈ z then stream z else streamOfWords size fun _ => 0
    have hstart : start ∈ explanations S T peers stream x (maskedChunk start peers x) := by
      refine ⟨fun a ha b => if_pos ⟨a, ha, Sym2.mem_mk_left a b⟩, fun z hz => ?_, fun a _ => rfl⟩
      rw [show start z = _ from if_neg hz]
      exact canonicalWords_streamOfWords _
    have hpos := (Set.ncard_pos (finite_explanations _)).mpr ⟨start, hstart⟩
    rw [hcount, Set.ncard_pos (finite_explanations _)] at hpos
    obtain ⟨stream', hsame, -, heq⟩ := hpos
    exact sameView_of_maskedChunks h hx hx'
      (fun a ha b => (hsame a ha b).trans (hstart.1 a ha b).symm) heq
  · intro hview y
    rcases (S \ T).eq_empty_or_nonempty with hnone | ⟨c, hc⟩
    · have hset : explanations S T peers stream x y = explanations S T peers stream x' y := by
        ext stream'
        refine and_congr_right fun _ => and_congr_right fun _ => forall₂_congr fun a ha => ?_
        rw [maskedChunk_of_sdiff_eq_empty h hx hx' hview hnone ha]
      rw [hset]
    · -- the change of the streams is a bijection
      apply Set.ncard_congr fun stream' _ => shiftStream T c x x' stream'
      · exact fun _ hmem => shiftStream_mem_explanations h hx hx' hview hc hmem
      · intro stream₁ stream₂ h₁ h₂ heq
        have hback : shiftStream T c x' x (shiftStream T c x x' stream₁) = stream₁ :=
          shiftStream_shiftStream c h₁.2.1
        rw [← hback, heq, shiftStream_shiftStream c h₂.2.1]
      · intro stream' hmem
        exact ⟨shiftStream T c x' x stream',
          shiftStream_mem_explanations h hx' hx hview.symm hc hmem,
          shiftStream_shiftStream c hmem.2.1⟩

end

/-- Chunks of two words. -/
def twoWordChunks (first : UInt8 → Int) (a : UInt8) : List Int := [first a, 5]

/-- Three clients, the third of them alone in the coalition. -/
theorem maskedChunks_explained_three :
    (∃ stream', SameFor {3} lowestWords stream' ∧ ∀ a ∈ ({1, 2, 3} : Finset UInt8),
      maskedChunk stream' threeTables (twoWordChunks fun a => a.toNat) a =
        maskedChunk lowestWords threeTables
          (twoWordChunks fun a => if a < 3 then 3 - a.toNat else 3) a) ↔
    SameView {1, 2, 3} {3} 2 (twoWordChunks fun a => if a < 3 then 3 - a.toNat else 3)
      (twoWordChunks fun a => a.toNat) :=
  maskedChunks_explained_iff threeTables_peerTables (fun _ _ => rfl) fun _ _ => rfl

/-- The same clients, with as many streams for the one as for the other chunks. -/
theorem ncard_explanations_three :
    (∀ y, (explanations {1, 2, 3} {3} threeTables lowestWords
        (twoWordChunks fun a => if a < 3 then 3 - a.toNat else 3) y).ncard =
      (explanations {1, 2, 3} {3} threeTables lowestWords
        (twoWordChunks fun a => a.toNat) y).ncard) ↔
    SameView {1, 2, 3} {3} 2 (twoWordChunks fun a => if a < 3 then 3 - a.toNat else 3)
      (twoWordChunks fun a => a.toNat) :=
  ncard_explanations_iff threeTables_peerTables (fun _ _ => rfl) fun _ _ => rfl

end SwiftAgg
