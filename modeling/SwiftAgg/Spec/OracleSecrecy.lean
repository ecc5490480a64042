import SwiftAgg.Spec.MaskSecrecy

/-!
# Secrecy of the masks that clients make

The streams that the two ends of a pair expand have different seeds, since
`mask_protocol_generate_chunk_mask` puts the client's own id into them. If the
generator is an unknown function, and no two of these seeds are the same, its
values at them are independent of each other. So a coalition that knows the
secrets of its own pairs, and can compute everything but the streams of the
pairs outside, sees the chunks of a client outside only if no other client is
outside. From two on it learns nothing about their chunks, not even the sum.

## Key results

- `maskedChunk_movedOracle`: a generator under which other chunks are masked alike
- `maskedChunks_oracle_iff`: which chunks the coalition cannot rule out
-/

namespace SwiftAgg

open Native

section

variable (kdf : Kdf) (g : KemGlobals) (round : UInt32) (K : UInt8 → UInt8 → Bytes32)

/-- The seed of the stream that the end `a` of the pair `a`, `b` expands for a chunk. -/
def endSeed (a b : UInt8) (chunk : UInt16) : Bytes32 :=
  kemAdapterDeriveStreamMaskSeed kdf g (pairSeed kdf g round (K a b) a b) a round chunk

/-- No seed of a pair of the group is used twice, by another client, towards another peer or for
    another chunk. -/
def SeedsDistinct (S : Finset UInt8) : Prop :=
  ∀ a ∈ S, ∀ b ∈ S, ∀ a' ∈ S, ∀ b' ∈ S, a ≠ b → a' ≠ b' → ∀ chunk chunk',
    endSeed kdf g round K a b chunk = endSeed kdf g round K a' b' chunk' →
      a = a' ∧ b = b' ∧ chunk = chunk'

/-- The generators agree at every seed but those of pairs outside the coalition `T`. -/
def AgreeOutside (S T : Finset UInt8) (prg prg' : MaskPrg) : Prop :=
  ∀ seed, (∀ a ∈ S \ T, ∀ b ∈ S \ T, a ≠ b → ∀ chunk, seed ≠ endSeed kdf g round K a b chunk) →
    prg' seed = prg seed

/-- What a client sends for a chunk: its words under the mask that it generates. -/
def MaskClient.maskedChunk {S : Finset UInt8} {K : UInt8 → UInt8 → Bytes32} {a : UInt8}
    (client : MaskClient S K a) (prg : MaskPrg) (chunk : UInt16) (size : Nat) (x : List Int) :
    Except PqcStatus (List Int) :=
  (client.chunkMask kdf prg g round chunk size).map (maskProtocolApplyMask x)

end

section

variable {kdf : Kdf} {prg prg' : MaskPrg} {g : KemGlobals} {round : UInt32} {size : Nat}
  {S T : Finset UInt8} {K : UInt8 → UInt8 → Bytes32} {x x' : UInt16 → UInt8 → List Int}

/-! ## Masked chunks -/

/-- The signed word of a client's stream towards a peer, as its loop adds it. -/
def endTerm (kdf : Kdf) (prg : MaskPrg) (g : KemGlobals) (round : UInt32) (size : Nat)
    (K : UInt8 → UInt8 → Bytes32) (chunk : UInt16) (j : Nat) (a b : UInt8) : Gf :=
  maskSign a b * endWord kdf prg g round chunk size (K a b) a b j

theorem endTerm_eq (chunk : UInt16) (j : Nat) (a b : UInt8) :
    endTerm kdf prg g round size K chunk j a b =
      maskSign a b * keystreamWord (prg (endSeed kdf g round K a b chunk) (size * 2)).val j := rfl

/-- A client's masked chunk has canonical words, and each is the word of the chunk plus the terms
    of the pairs. -/
theorem MaskClient.maskedChunk_cast (hsize : size ≤ 512) {a : UInt8} (client : MaskClient S K a)
    {chunk : UInt16} {y : List Int} (hy : y.length = size) :
    ∃ masked, client.maskedChunk kdf g round prg chunk size y = .ok masked ∧
      masked.length = size ∧ ∀ j < size, Canonical (masked.getD j 0) ∧
        ((masked.getD j 0 : Int) : Gf) =
          (y.getD j 0 : Int) + ∑ b ∈ S.erase a, endTerm kdf prg g round size K chunk j a b := by
  obtain ⟨mask, hmask, hlen, hcast⟩ := client.chunkMask_eq kdf prg g round chunk size hsize
  refine ⟨maskProtocolApplyMask y mask, by rw [maskedChunk, hmask]; rfl, ?_, fun j hj => ?_⟩
  · simp [maskProtocolApplyMask, hy, hlen]
  · have hword : (maskProtocolApplyMask y mask).getD j 0 = modQ (y.getD j 0 + mask.getD j 0) := by
      simp [maskProtocolApplyMask, List.getD_eq_getElem?_getD, List.getElem?_zipWith,
        List.getElem?_eq_getElem (hy.symm ▸ hj : j < y.length),
        List.getElem?_eq_getElem (hlen.symm ▸ hj : j < mask.length)]
    rw [hword]
    refine ⟨modQ_canonical _, ?_⟩
    rw [modQ_cast, Int.cast_add, hcast j hj]
    rfl

/-- Two masked chunks of a client are equal exactly if the residues behind them are. -/
theorem MaskClient.maskedChunk_eq_iff (hsize : size ≤ 512) {a : UInt8} (client : MaskClient S K a)
    {chunk : UInt16} {y y' : List Int} (hy : y.length = size) (hy' : y'.length = size) :
    client.maskedChunk kdf g round prg' chunk size y' =
        client.maskedChunk kdf g round prg chunk size y ↔
      ∀ j < size,
        ((y'.getD j 0 : Int) : Gf) + ∑ b ∈ S.erase a, endTerm kdf prg' g round size K chunk j a b =
          (y.getD j 0 : Int) + ∑ b ∈ S.erase a, endTerm kdf prg g round size K chunk j a b := by
  obtain ⟨masked, hmasked, hlen, hcast⟩ :
      ∃ masked, client.maskedChunk kdf g round prg chunk size y = .ok masked ∧ _ :=
    client.maskedChunk_cast hsize hy
  obtain ⟨masked', hmasked', hlen', hcast'⟩ :
      ∃ masked, client.maskedChunk kdf g round prg' chunk size y' = .ok masked ∧ _ :=
    client.maskedChunk_cast hsize hy'
  rw [hmasked, hmasked', Except.ok.injEq]
  constructor
  · rintro rfl j hj
    rw [← (hcast j hj).2, ← (hcast' j hj).2]
  · intro hall
    apply List.ext_getElem (hlen'.trans hlen.symm)
    intro j hj' hj
    have hjs : j < size := hlen ▸ hj
    have hword : masked'.getD j 0 = masked.getD j 0 :=
      Gf.eq_of_cast_eq (hcast' j hjs).1 (hcast j hjs).1
        (by rw [(hcast j hjs).2, (hcast' j hjs).2, hall j hjs])
    rwa [List.getD_eq_getElem _ _ hj, List.getD_eq_getElem _ _ hj'] at hword

/-! ## What the coalition learns -/

/-- The chunk of a client in the coalition, or of the only one outside, does not change: all its
    streams are known. -/
theorem modEq_of_maskedChunk (hsize : size ≤ 512) (hseeds : SeedsDistinct kdf g round K S)
    (hagree : AgreeOutside kdf g round K S T prg prg') {a : UInt8} (ha : a ∈ S)
    (hknown : a ∈ T ∨ S \ T = {a}) (client : MaskClient S K a) {chunk : UInt16} {y y' : List Int}
    (hy : y.length = size) (hy' : y'.length = size)
    (heq : client.maskedChunk kdf g round prg' chunk size y' =
      client.maskedChunk kdf g round prg chunk size y) {j : Nat} (hj : j < size) :
    y'.getD j 0 ≡ y.getD j 0 [ZMOD 3329] := by
  have hterms : ∀ b ∈ S.erase a, endTerm kdf prg' g round size K chunk j a b =
      endTerm kdf prg g round size K chunk j a b := by
    intro b hb
    obtain ⟨hba, hbS⟩ := Finset.mem_erase.mp hb
    -- no pair outside the coalition has this seed
    have hseed :
        prg' (endSeed kdf g round K a b chunk) = prg (endSeed kdf g round K a b chunk) := by
      refine hagree _ fun a' ha' b' hb' hne chunk' hsame => ?_
      obtain ⟨ha'S, ha'T⟩ := Finset.mem_sdiff.mp ha'
      obtain ⟨rfl, rfl, -⟩ := hseeds a ha b hbS a' ha'S b' (Finset.mem_sdiff.mp hb').1 hba.symm hne
        chunk chunk' hsame
      rcases hknown with hT | hone
      · exact ha'T hT
      · rw [hone, Finset.mem_singleton] at hb'
        exact hba hb'
    rw [endTerm_eq, endTerm_eq, hseed]
  have hword := (client.maskedChunk_eq_iff hsize hy hy').mp heq j hj
  rw [Finset.sum_congr rfl hterms] at hword
  exact (intCast_eq_iff_modEq _ _).mp (add_right_cancel hword)

/-! ## Other streams that explain the same masked chunks -/

/-- Another client outside the coalition, if there is one. -/
noncomputable def partner (S T : Finset UInt8) (a : UInt8) : UInt8 :=
  open Classical in if h : ∃ b ∈ S \ T, b ≠ a then h.choose else a

theorem partner_spec {a : UInt8} (ha : a ∈ S \ T) (hother : S \ T ≠ {a}) :
    partner S T a ∈ S \ T ∧ partner S T a ≠ a := by
  have h : ∃ b ∈ S \ T, b ≠ a := by
    by_contra hnone
    push Not at hnone
    exact hother (Finset.eq_singleton_iff_unique_mem.mpr ⟨ha, hnone⟩)
  rw [partner, dif_pos h]
  exact h.choose_spec

/-- The stream of a seed with its words moved by `w`; requests of other lengths are as before. -/
def movedStream (size : Nat) (prg : MaskPrg) (seed : Bytes32) (w : Nat → Gf) (len : Nat) :
    { b : Bytes // b.length = len } :=
  if h : len = size * 2 then
    h ▸ streamOfWords size fun j => keystreamWord (prg seed (size * 2)).val j + w j
  else prg seed len

theorem keystreamWord_movedStream (seed : Bytes32) (w : Nat → Gf) {j : Nat} (hj : j < size) :
    ((keystreamWord (movedStream size prg seed w (size * 2)).val j : Int) : Gf) =
      keystreamWord (prg seed (size * 2)).val j + w j := by
  rw [movedStream, dif_pos rfl, keystreamWord_streamOfWords hj, Gf.cast_val]

/-- The streams of pairs outside the coalition. -/
abbrev HiddenStream (S T : Finset UInt8) :=
  { p : UInt8 × UInt8 × UInt16 // p.1 ∈ S \ T ∧ p.2.1 ∈ S \ T ∧ p.1 ≠ p.2.1 }

def HiddenStream.seed (kdf : Kdf) (g : KemGlobals) (round : UInt32) (K : UInt8 → UInt8 → Bytes32)
    (p : HiddenStream S T) : Bytes32 := endSeed kdf g round K p.1.1 p.1.2.1 p.1.2.2

/-- The move of a stream that makes up for another chunk of its client: all of it goes into the
    stream towards the partner. -/
noncomputable def hiddenMove (S T : Finset UInt8) (x x' : UInt16 → UInt8 → List Int)
    (p : UInt8 × UInt8 × UInt16) (j : Nat) : Gf :=
  if p.2.1 = partner S T p.1 then
    maskSign p.1 p.2.1 * (chunkResidue (x p.2.2) j p.1 - chunkResidue (x' p.2.2) j p.1)
  else 0

/-- The generator with the streams outside the coalition moved. -/
noncomputable def movedOracle (kdf : Kdf) (g : KemGlobals) (round : UInt32)
    (K : UInt8 → UInt8 → Bytes32) (S T : Finset UInt8) (size : Nat) (prg : MaskPrg)
    (x x' : UInt16 → UInt8 → List Int) : MaskPrg :=
  Function.extend (HiddenStream.seed kdf g round K)
    (fun p : HiddenStream S T =>
      movedStream size prg (p.seed kdf g round K) (hiddenMove S T x x' p.1)) prg

theorem agreeOutside_movedOracle :
    AgreeOutside kdf g round K S T prg (movedOracle kdf g round K S T size prg x x') := by
  intro seed hseed
  rw [movedOracle]
  apply Function.extend_apply'
  rintro ⟨⟨⟨a, b, chunk⟩, ha, hb, hne⟩, rfl⟩
  exact hseed a ha b hb hne chunk rfl

theorem movedOracle_endSeed (hseeds : SeedsDistinct kdf g round K S) {a b : UInt8}
    (ha : a ∈ S \ T) (hb : b ∈ S \ T) (hne : a ≠ b) (chunk : UInt16) :
    movedOracle kdf g round K S T size prg x x' (endSeed kdf g round K a b chunk) =
      movedStream size prg (endSeed kdf g round K a b chunk)
        (hiddenMove S T x x' (a, b, chunk)) := by
  have hinj : Function.Injective (HiddenStream.seed (S := S) (T := T) kdf g round K) := by
    rintro ⟨⟨a, b, c⟩, ha, hb, hne⟩ ⟨⟨a', b', c'⟩, ha', hb', hne'⟩ hsame
    obtain ⟨rfl, rfl, rfl⟩ := hseeds a (Finset.mem_sdiff.mp ha).1 b (Finset.mem_sdiff.mp hb).1 a'
      (Finset.mem_sdiff.mp ha').1 b' (Finset.mem_sdiff.mp hb').1 hne hne' c c' hsame
    rfl
  rw [movedOracle]
  exact hinj.extend_apply _ _ (⟨(a, b, chunk), ha, hb, hne⟩ : HiddenStream S T)

/-- A term of a pair under the moved streams. -/
theorem endTerm_movedOracle (hseeds : SeedsDistinct kdf g round K S) {a b : UInt8} (ha : a ∈ S)
    (hb : b ∈ S.erase a) (chunk : UInt16) {j : Nat} (hj : j < size) :
    endTerm kdf (movedOracle kdf g round K S T size prg x x') g round size K chunk j a b =
      endTerm kdf prg g round size K chunk j a b +
        if a ∈ S \ T ∧ S \ T ≠ {a} ∧ b = partner S T a then
          chunkResidue (x chunk) j a - chunkResidue (x' chunk) j a
        else 0 := by
  obtain ⟨hba, hbS⟩ := Finset.mem_erase.mp hb
  by_cases hhidden : a ∈ S \ T ∧ b ∈ S \ T
  · obtain ⟨haT, hbT⟩ := hhidden
    have hother : S \ T ≠ {a} := fun hone => hba (Finset.mem_singleton.mp (hone ▸ hbT))
    have hsign : (maskSign a b : Gf) * maskSign a b = 1 := by
      unfold maskSign
      split <;> simp
    rw [endTerm_eq, movedOracle_endSeed hseeds haT hbT hba.symm, keystreamWord_movedStream _ _ hj,
      mul_add, ← endTerm_eq]
    simp only [hiddenMove, haT, hother, ne_eq, not_false_eq_true, true_and]
    split
    · rw [← mul_assoc, hsign, one_mul]
    · rw [mul_zero]
  · -- a stream of the coalition is not moved, and its end in the coalition is no partner
    have hseed : movedOracle kdf g round K S T size prg x x' (endSeed kdf g round K a b chunk) =
        prg (endSeed kdf g round K a b chunk) := by
      refine agreeOutside_movedOracle _ fun a' ha' b' hb' hne chunk' hsame => hhidden ?_
      obtain ⟨rfl, rfl, -⟩ := hseeds a ha b hbS a' (Finset.mem_sdiff.mp ha').1 b'
        (Finset.mem_sdiff.mp hb').1 hba.symm hne chunk chunk' hsame
      exact ⟨ha', hb'⟩
    have hno : ¬(a ∈ S \ T ∧ S \ T ≠ {a} ∧ b = partner S T a) := by
      rintro ⟨haT, hother, rfl⟩
      exact hhidden ⟨haT, (partner_spec haT hother).1⟩
    rw [if_neg hno, add_zero, endTerm_eq, endTerm_eq, hseed]

/-- Under the moved streams the other chunks are masked to the same words. -/
theorem maskedChunk_movedOracle (hsize : size ≤ 512) (hseeds : SeedsDistinct kdf g round K S)
    {a : UInt8} (ha : a ∈ S) (client : MaskClient S K a) {chunk : UInt16}
    (hx : (x chunk a).length = size) (hx' : (x' chunk a).length = size)
    (hview : a ∈ T ∨ S \ T = {a} → ∀ j < size,
      (x' chunk a).getD j 0 ≡ (x chunk a).getD j 0 [ZMOD 3329]) :
    client.maskedChunk kdf g round (movedOracle kdf g round K S T size prg x x') chunk size
        (x' chunk a) = client.maskedChunk kdf g round prg chunk size (x chunk a) := by
  rw [client.maskedChunk_eq_iff hsize hx hx']
  intro j hj
  rw [Finset.sum_congr rfl fun b hb => endTerm_movedOracle hseeds ha hb chunk hj,
    Finset.sum_add_distrib]
  by_cases hmoved : a ∈ S \ T ∧ S \ T ≠ {a}
  · obtain ⟨hpartner, hne⟩ := partner_spec hmoved.1 hmoved.2
    have hmem : partner S T a ∈ S.erase a :=
      Finset.mem_erase.mpr ⟨hne, (Finset.mem_sdiff.mp hpartner).1⟩
    simp only [hmoved.1, hmoved.2, ne_eq, not_false_eq_true, true_and, Finset.sum_ite_eq', hmem,
      if_true, chunkResidue]
    ring
  · have hknown : a ∈ T ∨ S \ T = {a} := by
      by_contra hnot
      rw [not_or] at hnot
      exact hmoved ⟨Finset.mem_sdiff.mpr ⟨ha, hnot.1⟩, hnot.2⟩
    have hzero : ∀ b ∈ S.erase a, (if a ∈ S \ T ∧ S \ T ≠ {a} ∧ b = partner S T a then
        chunkResidue (x chunk) j a - chunkResidue (x' chunk) j a else 0) = 0 := fun b _ =>
      if_neg fun h => hmoved ⟨h.1, h.2.1⟩
    rw [Finset.sum_eq_zero hzero, add_zero, (intCast_eq_iff_modEq _ _).mpr (hview hknown j hj)]

/-- A coalition that knows all streams but those of the pairs outside cannot rule out other chunks
    exactly if they have the same words, modulo 3329, for the coalition and for a client that is
    alone outside. Two or more clients outside may have sent anything. -/
theorem maskedChunks_oracle_iff (hsize : size ≤ 512) (hseeds : SeedsDistinct kdf g round K S)
    (clients : ∀ a : S, MaskClient S K a) (x x' : UInt16 → UInt8 → List Int)
    (hx : ∀ chunk, ∀ a ∈ S, (x chunk a).length = size)
    (hx' : ∀ chunk, ∀ a ∈ S, (x' chunk a).length = size) :
    (∃ prg', AgreeOutside kdf g round K S T prg prg' ∧ ∀ chunk, ∀ a : S,
      (clients a).maskedChunk kdf g round prg' chunk size (x' chunk a) =
        (clients a).maskedChunk kdf g round prg chunk size (x chunk a)) ↔
    ∀ chunk, ∀ a ∈ S, a ∈ T ∨ S \ T = {a} → ∀ j < size,
      (x' chunk a).getD j 0 ≡ (x chunk a).getD j 0 [ZMOD 3329] := by
  constructor
  · rintro ⟨prg', hagree, heq⟩ chunk a ha hknown j hj
    exact modEq_of_maskedChunk hsize hseeds hagree ha hknown (clients ⟨a, ha⟩) (hx chunk a ha)
      (hx' chunk a ha) (heq chunk ⟨a, ha⟩) hj
  · intro hview
    refine ⟨movedOracle kdf g round K S T size prg x x', agreeOutside_movedOracle, ?_⟩
    intro chunk a
    exact maskedChunk_movedOracle hsize hseeds a.property (clients a) (hx chunk a a.property)
      (hx' chunk a a.property) (hview chunk a a.property)

end

/-- The echoed info strings name the client, the chunk and the pair. -/
theorem seedsDistinct_echoKdf (K : UInt8 → UInt8 → Bytes32) (S : Finset UInt8) :
    SeedsDistinct echoKdf .initial 1 K S := by
  intro a _ b _ a' _ b' _ _ _ chunk chunk' hsame
  have hclient : a = a' := congrArg (fun s : Bytes32 => s.val.getD 2 0) hsame
  have hmax : max a b = max a' b' := congrArg (fun s : Bytes32 => s.val.getD 29 0) hsame
  have hmin : min a b = min a' b' := congrArg (fun s : Bytes32 => s.val.getD 30 0) hsame
  have hchunk : (Bytes.be16 chunk.toNat).reverse = (Bytes.be16 chunk'.toNat).reverse :=
    congrArg (fun s : Bytes32 => s.val.take 2) hsame
  refine ⟨hclient, ?_, UInt16.toNat_inj.mp ?_⟩
  · subst hclient
    rcases le_total a b with h | h <;> rcases le_total a b' with h' | h' <;> simp_all
  · exact Bytes.be16_inj chunk.toNat_lt chunk'.toNat_lt (List.reverse_inj.mp hchunk)

/-- Three clients that have all the same secret. -/
def groupOfThree (a : ({1, 2, 3} : Finset UInt8)) :
    MaskClient {1, 2, 3} (fun _ _ => Bytes.zero32) a :=
  MaskClient.ofGroup {1, 2, 3} (fun _ _ => Bytes.zero32) a
    (Finset.card_erase_le.trans (Finset.card_le_three.trans (by decide)))

theorem eq_three_of_known {a : UInt8}
    (hknown : a ∈ ({3} : Finset UInt8) ∨ ({1, 2, 3} : Finset UInt8) \ {3} = {a}) : a = 3 := by
  obtain hthree | hone := hknown
  · exact Finset.mem_singleton.mp hthree
  · -- two clients are outside
    have hcard := congrArg Finset.card hone
    rw [Finset.card_singleton] at hcard
    exact absurd hcard (by decide)

/-- With the third client alone in the coalition, the others may have sent chunks of another sum. -/
theorem maskedChunks_oracle_three :
    ∃ prg', AgreeOutside echoKdf .initial 1 (fun _ _ => Bytes.zero32) {1, 2, 3} {3} echoPrg prg' ∧
      ∀ chunk : UInt16, ∀ a : ({1, 2, 3} : Finset UInt8),
        (groupOfThree a).maskedChunk echoKdf .initial 1 prg' chunk 2
            (twoWordChunks (fun a => if a = 3 then 3 else 700 * a.toNat) a) =
          (groupOfThree a).maskedChunk echoKdf .initial 1 echoPrg chunk 2
            (twoWordChunks (fun a => a.toNat) a) :=
  (maskedChunks_oracle_iff (by decide) (seedsDistinct_echoKdf _ _) groupOfThree
    (fun _ => twoWordChunks fun a => a.toNat)
    (fun _ => twoWordChunks fun a => if a = 3 then 3 else 700 * a.toNat)
    (fun _ _ _ => rfl) fun _ _ _ => rfl).mpr fun _ a _ hknown j _ => by
      obtain rfl : a = 3 := eq_three_of_known hknown
      exact Int.ModEq.refl _

end SwiftAgg
