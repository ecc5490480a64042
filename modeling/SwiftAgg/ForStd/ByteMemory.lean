import Mathlib.Data.List.GetD

/-!
# Bytes in memory

A memory is a function from addresses to bytes. A string of bytes is written
from an address on; everything outside stays. Where two strings overlap, the
later one is in memory.

## Key results

- `writeAt_of_notMem`: a write changes its own addresses only
- `readAt_writeAt`: what was written is read back
- `readAt_add`: a range is read in two parts
-/

namespace ByteMemory

variable {mem : Nat → UInt8} {a c n : Nat} {b : List UInt8}

/-- Write a string from the address `a` on. -/
def writeAt (mem : Nat → UInt8) (a : Nat) (b : List UInt8) : Nat → UInt8 :=
  fun k => if a ≤ k then b.getD (k - a) (mem k) else mem k

/-- Read `n` bytes from the address `a` on. -/
def readAt (mem : Nat → UInt8) (a n : Nat) : List UInt8 :=
  (List.range n).map fun i => mem (a + i)

@[simp] theorem length_readAt (mem : Nat → UInt8) (a n : Nat) : (readAt mem a n).length = n := by
  rw [readAt, List.length_map, List.length_range]

/-- Bytes outside the range of a write stay. -/
theorem writeAt_of_notMem {k : Nat} (h : k < a ∨ a + b.length ≤ k) : writeAt mem a b k = mem k := by
  rw [writeAt]
  split
  · rw [List.getD_eq_default _ _ (by omega)]
  · rfl

theorem writeAt_add {i : Nat} (h : i < b.length) : writeAt mem a b (a + i) = b[i] := by
  rw [writeAt, if_pos (Nat.le_add_right a i), Nat.add_sub_cancel_left, List.getD_eq_getElem _ _ h]

/-- What was written is read back. -/
theorem readAt_writeAt (mem : Nat → UInt8) (a : Nat) (b : List UInt8) :
    readAt (writeAt mem a b) a b.length = b := by
  apply List.ext_getElem
  · rw [length_readAt]
  · intro i _ hi
    simp only [readAt, List.getElem_map, List.getElem_range, writeAt_add hi]

/-- A write elsewhere is not seen. -/
theorem readAt_writeAt_of_disjoint (h : c + n ≤ a ∨ a + b.length ≤ c) :
    readAt (writeAt mem a b) c n = readAt mem c n := by
  refine List.map_congr_left fun i hi => ?_
  have hlt := List.mem_range.mp hi
  exact writeAt_of_notMem (by omega)

/-- A range is read in two parts. -/
theorem readAt_add (mem : Nat → UInt8) (a n m : Nat) :
    readAt mem a (n + m) = readAt mem a n ++ readAt mem (a + n) m := by
  simp only [readAt, List.range_add, List.map_append, List.map_map, Function.comp_def,
    Nat.add_assoc]

end ByteMemory
