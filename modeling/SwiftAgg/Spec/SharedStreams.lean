import SwiftAgg.Spec.MaskCancellation
import Mathlib.Data.Sym.Sym2

/-!
# Masks from shared streams

If both ends of every pair expand one and the same stream, the accumulation
loop of `mask_protocol_generate_chunk_mask` makes masks that cancel over the
group: for each pair one end adds the words and the other subtracts them.

## Key results

- `sharedStreams_cancel`: the masks are canonical and add up to zero
-/

namespace SwiftAgg

open Native

/-- The peer tables of a group: every client has all others as its peers, in any order. -/
structure PeerTables (S : Finset UInt8) (peers : UInt8 → List UInt8) : Prop where
  nodup : ∀ a ∈ S, (peers a).Nodup
  mem : ∀ a ∈ S, ∀ b, b ∈ peers a ↔ b ∈ S.erase a

/-- The peers of a client with the streams of the pairs; a stream is `size` little-endian words. -/
def pairStreams {size : Nat} (stream : Sym2 UInt8 → { b : Bytes // b.length = size * 2 })
    (peers : UInt8 → List UInt8) (a : UInt8) : List (UInt8 × Bytes) :=
  (peers a).map fun b => (b, (stream s(a, b)).val)

section

variable {S : Finset UInt8} {peers : UInt8 → List UInt8} {size : Nat}
  (stream : Sym2 UInt8 → { b : Bytes // b.length = size * 2 })

theorem length_pairStreams (peers : UInt8 → List UInt8) (a : UInt8) :
    ∀ p ∈ pairStreams stream peers a, p.2.length = size * 2 := by
  simp only [pairStreams, List.mem_map]
  rintro p ⟨b, -, rfl⟩
  exact (stream s(a, b)).property

/-- The mask that the accumulation loop makes of the streams. -/
def sharedMask (peers : UInt8 → List UInt8) (a : UInt8) : List Int :=
  combinePeerMasks a size (pairStreams stream peers a)

/-- A position of a client's mask is canonical and is a sum over the others. -/
theorem sharedMask_cast (h : PeerTables S peers) {a : UInt8} (ha : a ∈ S) {j : Nat}
    (hj : j < size) :
    Canonical ((sharedMask stream peers a).getD j 0) ∧
      (((sharedMask stream peers a).getD j 0 : Int) : Gf) =
        ∑ b ∈ S.erase a, (maskSign a b : Gf) * keystreamWord (stream s(a, b)).val j := by
  have hids : (peers a).toFinset = S.erase a := by
    ext b
    rw [List.mem_toFinset, h.mem a ha]
  obtain ⟨hcanon, hcast⟩ := combinePeerMasks_cast a (length_pairStreams stream peers a) hj
  refine ⟨hcanon, ?_⟩
  rw [sharedMask, hcast, pairStreams, List.map_map, ← hids, List.sum_toFinset _ (h.nodup a ha)]
  rfl

/-- The masks of a group in which the two ends of each pair use the same stream have canonical
    words, and these add up to zero modulo 3329 in every position. -/
theorem sharedStreams_cancel (h : PeerTables S peers) :
    (∀ a ∈ S, (sharedMask stream peers a).length = size ∧
      ∀ j < size, 0 ≤ (sharedMask stream peers a).getD j 0 ∧
        (sharedMask stream peers a).getD j 0 ≤ 3328) ∧
    ∀ j < size, (∑ a ∈ S, (sharedMask stream peers a).getD j 0) % 3329 = 0 := by
  refine ⟨fun a ha => ⟨?_, fun j hj => ?_⟩, fun j hj => ?_⟩
  · exact combinePeerMasks_length (length_pairStreams stream peers a)
  · obtain ⟨hnonneg, hlt⟩ := (sharedMask_cast stream h ha hj).1
    exact ⟨hnonneg, Int.le_of_lt_add_one hlt⟩
  · apply Int.emod_eq_zero_of_dvd
    rw [← Gf.cast_eq_zero_iff, Int.cast_sum,
      Finset.sum_congr rfl fun a ha => (sharedMask_cast stream h ha hj).2]
    -- the two words of a pair are the same, with opposite signs
    apply Finset.sum_erase_eq_zero
    intro a _ b _ hab
    rw [Sym2.eq_swap (a := b)]
    rcases lt_or_gt_of_ne hab with hlt | hlt
    · rw [maskSign_pair hlt, sub_self, Int.cast_zero]
    · rw [add_comm, maskSign_pair hlt, sub_self, Int.cast_zero]

end

/-- Every pair has the two words `0x8000`. -/
def lowestWords : Sym2 UInt8 → { b : Bytes // b.length = 2 * 2 } := fun _ =>
  ⟨[0, 0x80, 0, 0x80], rfl⟩

/-- Three clients that list their peers in different orders. -/
def threeTables (a : UInt8) : List UInt8 :=
  if a = 1 then [3, 2] else if a = 2 then [1, 3] else [2, 1]

theorem threeTables_peerTables : PeerTables {1, 2, 3} threeTables where
  nodup a ha := by
    simp only [Finset.mem_insert, Finset.mem_singleton] at ha
    rcases ha with rfl | rfl | rfl <;> simp [threeTables]
  mem a ha b := by
    simp only [Finset.mem_insert, Finset.mem_singleton] at ha
    rcases ha with rfl | rfl | rfl <;> grind [threeTables]

/-- The masks of the three clients. -/
theorem sharedStreams_cancel_three :
    (∀ a ∈ ({1, 2, 3} : Finset UInt8), (sharedMask lowestWords threeTables a).length = 2 ∧
      ∀ j < 2, 0 ≤ (sharedMask lowestWords threeTables a).getD j 0 ∧
        (sharedMask lowestWords threeTables a).getD j 0 ≤ 3328) ∧
    ∀ j < 2, (∑ a ∈ ({1, 2, 3} : Finset UInt8),
      (sharedMask lowestWords threeTables a).getD j 0) % 3329 = 0 :=
  sharedStreams_cancel lowestWords threeTables_peerTables

end SwiftAgg
