import Mathlib.Data.List.GetD
import Mathlib.Data.List.Range
import Mathlib.Tactic.Common

/-!
# Padded chunks

A list is cut into chunks of one length, and the last chunk is filled up with a
default value. Behind its end the list may as well be thought to go on with the
default value, so that a chunk is a window of it, wherever it lies.

## Key results

- `paddedChunk_eq_map`: a chunk as a window
- `flatMap_paddedChunk`: the chunks one after the other are the list and its padding
-/

namespace List

variable {α : Type*}

/-- Chunk `i` of `n` elements, filled up with `d`. -/
def paddedChunk (d : α) (n : Nat) (l : List α) (i : Nat) : List α :=
  let chunk := (l.drop (i * n)).take n
  chunk ++ replicate (n - chunk.length) d

variable (d : α) (n : Nat) (l : List α)

/-- A chunk shows the elements from its offset on. -/
theorem paddedChunk_eq_map (i : Nat) :
    paddedChunk d n l i = (range n).map fun j => l.getD (i * n + j) d := by
  have hlen : ((l.drop (i * n)).take n).length = min n (l.length - i * n) := by
    rw [length_take, length_drop]
  apply ext_getElem
  · simp only [paddedChunk, length_append, length_replicate, length_map, length_range]
    omega
  · intro j hj hj'
    rw [length_map, length_range] at hj'
    rw [getElem_map, getElem_range]
    by_cases hin : i * n + j < l.length
    · simp only [paddedChunk]
      rw [getElem_append_left (by omega), getElem_take, getElem_drop, getD_eq_getElem _ _ hin]
    · simp only [paddedChunk]
      rw [getElem_append_right (by omega), getElem_replicate, getD_eq_default _ _ (by omega)]

@[simp] theorem length_paddedChunk (i : Nat) : (paddedChunk d n l i).length = n := by
  rw [paddedChunk_eq_map, length_map, length_range]

/-- A list with `k` elements shown, the missing ones as `d`. -/
theorem map_getD_range {k : Nat} (h : l.length ≤ k) :
    (range k).map (fun p => l.getD p d) = l ++ replicate (k - l.length) d := by
  have hchunk := paddedChunk_eq_map d k l 0
  simp only [Nat.zero_mul, Nat.zero_add] at hchunk
  rw [← hchunk]
  simp only [paddedChunk, Nat.zero_mul, drop_zero, take_of_length_le h]

/-- `m` chunks show `m * n` elements. -/
theorem flatMap_paddedChunk (m : Nat) :
    (range m).flatMap (paddedChunk d n l) = (range (m * n)).map fun p => l.getD p d := by
  induction m with
  | zero => simp
  | succ m ih =>
    rw [range_succ, flatMap_append, ih, flatMap_cons, flatMap_nil, append_nil, paddedChunk_eq_map,
      Nat.succ_mul, range_add, map_append, map_map]
    rfl

/-- Enough chunks hold the whole list. -/
theorem flatMap_paddedChunk_of_le {m : Nat} (h : l.length ≤ m * n) :
    (range m).flatMap (paddedChunk d n l) = l ++ replicate (m * n - l.length) d := by
  rw [flatMap_paddedChunk, map_getD_range d l h]

end List
