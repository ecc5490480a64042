import Mathlib.Data.List.Range
import Mathlib.Tactic.Common

/-!
# Streams of blocks

Blocks of one size, numbered from some block on, make a stream of which any
number of elements may be asked for. A loop that writes up to one block at a
time, and then goes on to the next block, writes out such a stream.

## Key results

- `blockStream_step`: one pass of the loop, the last block being cut short
- `blockStream_eq_map`: a stream whose elements are given by their positions
- `blockStream_eq_take`: the stream is cut out of any sufficient number of blocks
-/

variable {α : Type*} {block : Nat → List α} {k : Nat}

/-- The first `len` elements of block `i`, block `i + 1` and so on. -/
def blockStream (block : Nat → List α) (i len : Nat) : List α :=
  ((List.range' i len).flatMap block).take len

theorem length_flatMap_range' (hblock : ∀ j, (block j).length = k) (i n : Nat) :
    ((List.range' i n).flatMap block).length = k * n := by
  simp only [List.length_flatMap, hblock, List.map_const', List.sum_replicate_nat,
    List.length_range']
  exact Nat.mul_comm n k

/-- The stream is cut out of any number of blocks that is large enough. -/
theorem blockStream_eq_take (hblock : ∀ j, (block j).length = k) (hk : 0 < k) (i : Nat)
    {len n : Nat} (h : len ≤ k * n) :
    blockStream block i len = ((List.range' i n).flatMap block).take len := by
  -- the longer of the two runs of blocks extends the shorter one
  have hextend : ∀ a b, len ≤ k * a → ((List.range' i (a + b)).flatMap block).take len =
      ((List.range' i a).flatMap block).take len := by
    intro a b ha
    rw [← List.range'_append_1, List.flatMap_append, List.take_append_of_le_length]
    rw [length_flatMap_range' hblock]
    exact ha
  have hlen : len ≤ k * len := Nat.le_mul_of_pos_left len hk
  obtain hle | hle := Nat.le_total n len
  · obtain ⟨b, rfl⟩ := Nat.exists_eq_add_of_le hle
    exact hextend n b h
  · obtain ⟨b, rfl⟩ := Nat.exists_eq_add_of_le hle
    exact (hextend len b hlen).symm

theorem length_blockStream (hblock : ∀ j, (block j).length = k) (hk : 0 < k) (i len : Nat) :
    (blockStream block i len).length = len := by
  rw [blockStream, List.length_take, length_flatMap_range' hblock]
  exact Nat.min_eq_left (Nat.le_mul_of_pos_left len hk)

/-- One pass of the loop: what is wanted of the first block, and the rest from the next one. -/
theorem blockStream_step (hblock : ∀ j, (block j).length = k) (hk : 0 < k) (i len : Nat) :
    blockStream block i len = (block i).take len ++ blockStream block (i + 1) (len - k) := by
  have hlen : len ≤ k * (len + 1) := by
    have hle := Nat.le_mul_of_pos_left len hk
    rw [Nat.mul_succ]
    omega
  have hrest : len - k ≤ k * len := by
    have hle := Nat.le_mul_of_pos_left len hk
    omega
  rw [blockStream_eq_take hblock hk i hlen, blockStream_eq_take hblock hk (i + 1) hrest,
    List.range'_succ, List.flatMap_cons, List.take_append, hblock]

/-- Behind the first block the stream goes on with the next one. -/
theorem blockStream_drop (hblock : ∀ j, (block j).length = k) (hk : 0 < k) (i : Nat) {len : Nat}
    (hlen : k ≤ len) : (blockStream block i len).drop k = blockStream block (i + 1) (len - k) := by
  have hfirst : ((block i).take len).length = k := by
    rw [List.length_take, hblock]
    exact Nat.min_eq_right hlen
  rw [blockStream_step hblock hk, List.drop_append_of_le_length (Nat.le_of_eq hfirst.symm),
    List.drop_of_length_le (Nat.le_of_eq hfirst), List.nil_append]

/-- A stream begins with its first block. -/
theorem head?_blockStream (hblock : ∀ j, (block j).length = k) (hk : 0 < k) (i : Nat) {len : Nat}
    (hlen : 0 < len) : (blockStream block i len).head? = (block i).head? := by
  obtain ⟨x, rest, hx⟩ := List.exists_cons_of_length_pos (Nat.lt_of_lt_of_eq hk (hblock i).symm)
  obtain ⟨n, rfl⟩ := Nat.exists_eq_succ_of_ne_zero (Nat.pos_iff_ne_zero.mp hlen)
  rw [blockStream_step hblock hk, hx, List.take_succ_cons]
  rfl

/-- A stream whose elements are given by their positions. -/
theorem blockStream_eq_map (f : Nat → α) (hk : 0 < k)
    (hblock : ∀ j, block j = (List.range' (k * j) k).map f) (i len : Nat) :
    blockStream block i len = (List.range' (k * i) len).map f := by
  have hlength : ∀ j, (block j).length = k := by
    intro j
    rw [hblock, List.length_map, List.length_range']
  induction len using Nat.strong_induction_on generalizing i with
  | _ len ih =>
    by_cases hzero : len = 0
    · rw [hzero]
      rfl
    · rw [blockStream_step hlength hk, hblock, ih (len - k) (by omega), ← List.map_take,
        ← List.map_append]
      congr 1
      obtain hlong | hshort := Nat.le_total k len
      · obtain ⟨rest, rfl⟩ := Nat.exists_eq_add_of_le hlong
        rw [List.take_range'_of_length_le hlong, Nat.add_sub_cancel_left, Nat.mul_succ,
          List.range'_append_1]
      · rw [List.take_range'_of_length_ge hshort, Nat.sub_eq_zero_of_le hshort]
        exact List.append_nil _

@[simp] theorem blockStream_zero (i : Nat) : blockStream block i 0 = [] := rfl
