import SwiftAgg.Spec.MaskCorrect
import Mathlib.Algebra.BigOperators.Group.List.Lemmas
import Mathlib.Algebra.Field.ZMod
import Mathlib.Tactic.LinearCombination

/-!
# Mask words on the two sides

A word of at least `2 ^ 15` is read `2 ^ 16` lower by the firmware than by the
host, and `2 ^ 16` is not a multiple of the modulus. Peers with a larger id
count such a word with sign `1`, peers with a smaller id with sign `-1`, so
the combined masks agree exactly where the two kinds of peers have equally
many large words.

## Key results

- `combinedMasks_agree_iff`: when the combined masks of firmware and host are equal
-/

namespace SwiftAgg

/-- The unsigned word of a keystream at a position. -/
def unsignedWord (keystream : Bytes) (j : Nat) : Nat := (Bytes.u16sLE keystream).getD j 0

/-- The firmware reads the unsigned word in two's complement. -/
theorem keystreamWord_eq (ks : Bytes) (j : Nat) :
    Native.keystreamWord ks j = Bytes.toInt16 (unsignedWord ks j) := by
  have h := List.getD_map (l := Bytes.u16sLE ks) (n := j) (d := 0) Bytes.toInt16
  exact h

/-- The host reads the unsigned word. -/
theorem masksOfStream_getD_cast {ks : Bytes} {n : Nat} (hks : ks.length = n * 2) (j : Nat) :
    (((Host.masksOfStream ks).getD j 0 : Int) : Gf) = (unsignedWord ks j : Gf) := by
  have h := List.getD_map (l := Bytes.u16sLE ks) (n := j) (d := 0) fun w : Nat => (w : Int) % 3329
  rw [Nat.cast_zero, Int.zero_emod] at h
  rw [Host.masksOfStream_eq (by omega), h, Gf.cast_emod, Int.cast_natCast]
  rfl

theorem toInt16_cast (w : Nat) :
    ((Bytes.toInt16 w : Int) : Gf) = w - if 2 ^ 15 ≤ w then 65536 else 0 := by
  unfold Bytes.toInt16
  split_ifs with h₁ h₂ h₂
  · omega
  · rw [Int.cast_natCast, sub_zero]
  · push_cast
    norm_num
  · omega

/-! ## Counting large words -/

/-- The number of peers satisfying `above` whose word at `j` is at least `2 ^ 15`. -/
def largeWords (above : UInt8 → Bool) (j : Nat) (peers : List (UInt8 × Bytes)) : Nat :=
  peers.countP fun p => above p.1 && decide (2 ^ 15 ≤ unsignedWord p.2 j)

private theorem largeWords_le {peers : List (UInt8 × Bytes)} (hlen : peers.length ≤ 16)
    (above : UInt8 → Bool) (j : Nat) : largeWords above j peers ≤ 16 :=
  List.countP_le_length.trans hlen

/-- The two readings of the words differ, summed with signs, by `2 ^ 16` times the surplus of large
    words on the side of the larger ids. -/
private theorem sum_words_eq (localId : UInt8) (j : Nat) (peers : List (UInt8 × Bytes))
    (hne : ∀ p ∈ peers, p.1 ≠ localId) :
    (peers.map fun p => (Native.maskSign localId p.1 : Gf) * Native.keystreamWord p.2 j).sum =
      (peers.map fun p => (Native.maskSign localId p.1 : Gf) * unsignedWord p.2 j).sum -
        65536 * ((largeWords (localId < ·) j peers : Gf) - largeWords (· < localId) j peers) := by
  induction peers with
  | nil => simp [largeWords]
  | cons p peers ih =>
    have hp : p.1 ≠ localId := hne p (by simp)
    have ih' := ih fun q hq => hne q (List.mem_cons_of_mem p hq)
    simp only [largeWords, List.map_cons, List.sum_cons, List.countP_cons] at ih' ⊢
    rw [ih', keystreamWord_eq, toInt16_cast]
    -- the sign of the peer decides which of the two counts grows
    rcases lt_or_gt_of_ne hp with hlt | hgt
    · have hnot : ¬localId < p.1 := not_lt_of_gt hlt
      by_cases hbig : 2 ^ 15 ≤ unsignedWord p.2 j <;>
        simp only [Native.maskSign, hlt, hnot, hbig, decide_true, decide_false, Bool.true_and,
          Bool.false_and, ↓reduceIte, Bool.false_eq_true] <;> push_cast <;> ring
    · have hnot : ¬p.1 < localId := not_lt_of_gt hgt
      by_cases hbig : 2 ^ 15 ≤ unsignedWord p.2 j <;>
        simp only [Native.maskSign, hgt, hnot, hbig, decide_true, decide_false, Bool.true_and,
          Bool.false_and, ↓reduceIte, Bool.false_eq_true] <;> push_cast <;> ring

/-- Counts of at most 16 peers are equal when `2 ^ 16` times their difference vanishes. -/
private theorem count_eq_iff {m n : Nat} (hm : m ≤ 16) (hn : n ≤ 16) :
    (65536 * ((m : Gf) - n) = 0) ↔ m = n := by
  have hunit : (65536 : Gf) ≠ 0 := by decide
  rw [mul_eq_zero, or_iff_right hunit, sub_eq_zero, ZMod.natCast_eq_natCast_iff]
  constructor
  · intro h
    exact Nat.ModEq.eq_of_lt_of_lt h (by omega) (by omega)
  · rintro rfl
    rfl

theorem maskSign_toNat (a b : UInt8) : Host.maskSign a.toNat b.toNat = Native.maskSign a b := by
  simp only [Host.maskSign, Native.maskSign, UInt8.lt_iff_toNat_lt]

/-! ## Agreement -/

/-- The combined masks of firmware and host are equal exactly when at every position the peers with
    larger ids have as many words of at least `2 ^ 15` as the peers with smaller ids. -/
theorem combinedMasks_agree_iff (localId : UInt8) (chunkSize : Nat) (peers : List (UInt8 × Bytes))
    (hlen : peers.length ≤ 16) (hne : ∀ p ∈ peers, p.1 ≠ localId)
    (hks : ∀ p ∈ peers, p.2.length = chunkSize * 2) :
    Native.combinePeerMasks localId chunkSize peers =
        Host.combinePeerMasks localId.toNat chunkSize
          (peers.map fun p => (p.1.toNat, Host.masksOfStream p.2)) ↔
      ∀ j < chunkSize, largeWords (localId < ·) j peers = largeWords (· < localId) j peers := by
  have hrows : ∀ q ∈ peers.map fun p => (p.1.toNat, Host.masksOfStream p.2),
      q.2.length = chunkSize := by
    simp only [List.mem_map]
    rintro q ⟨p, hp, rfl⟩
    rw [Host.masksOfStream_eq (by rw [hks p hp]; omega), List.length_map, Bytes.length_u16sLE,
      hks p hp, Nat.mul_div_cancel _ (by decide)]
  -- position by position, equality is equality of residues
  have hpos : ∀ j < chunkSize,
      ((Native.combinePeerMasks localId chunkSize peers).getD j 0 =
        (Host.combinePeerMasks localId.toNat chunkSize
          (peers.map fun p => (p.1.toNat, Host.masksOfStream p.2))).getD j 0 ↔
      largeWords (localId < ·) j peers = largeWords (· < localId) j peers) := by
    intro j hj
    obtain ⟨hcn, hsn⟩ := Native.combinePeerMasks_cast localId hks hj
    obtain ⟨hch, hsh⟩ := Host.combinePeerMasks_cast localId.toNat hrows hj
    have hhost : ((peers.map fun p => (p.1.toNat, Host.masksOfStream p.2)).map fun p =>
        (Host.maskSign localId.toNat p.1 : Gf) * (p.2.getD j 0 : Int)).sum =
        (peers.map fun p => (Native.maskSign localId p.1 : Gf) * unsignedWord p.2 j).sum := by
      rw [List.map_map]
      congr 1
      apply List.map_congr_left
      intro p hp
      simp only [Function.comp_apply, maskSign_toNat, masksOfStream_getD_cast (hks p hp)]
    rw [hhost] at hsh
    rw [sum_words_eq localId j peers hne, ← hsh] at hsn
    rw [← count_eq_iff (largeWords_le hlen _ j) (largeWords_le hlen _ j)]
    constructor
    · intro heq
      rw [heq] at hsn
      linear_combination hsn
    · intro hzero
      apply Gf.eq_of_cast_eq hcn hch
      rw [hsn, hzero, sub_zero]
  constructor
  · intro heq j hj
    rw [← hpos j hj, heq]
  · intro hcounts
    apply List.ext_getElem
    · rw [Native.combinePeerMasks_length hks, Host.combinePeerMasks_length hrows]
    · intro j h₁ h₂
      rw [Native.combinePeerMasks_length hks] at h₁
      have h := (hpos j h₁).mpr (hcounts j h₁)
      rwa [List.getD_eq_getElem, List.getD_eq_getElem] at h

/-- Two peers around client 2 that both have the word `0x8000`: the masks agree. -/
theorem combinedMasks_agree_balanced :
    Native.combinePeerMasks 2 1 [(1, [0, 128]), (3, [0, 128])] =
      Host.combinePeerMasks 2 1 [(1, Host.masksOfStream [0, 128]),
        (3, Host.masksOfStream [0, 128])] :=
  (combinedMasks_agree_iff 2 1 [(1, [0, 128]), (3, [0, 128])] (by decide) (by decide)
    (by decide)).mpr (by decide)

/-- One peer with the word `0x8000`: the firmware computes `522` for a larger peer id, the host
    `2807`. -/
theorem combinedMasks_differ_at_0x8000 :
    Native.combinePeerMasks 1 1 [(2, [0, 128])] ≠
      Host.combinePeerMasks 1 1 [(2, Host.masksOfStream [0, 128])] := by
  decide +kernel

end SwiftAgg
