import SwiftAgg.ForStd.Bytes
import Mathlib.Logic.Function.Basic

/-!
# Loops over 16-bit words in memory

A memory is a function from addresses to bytes; words are stored with the low
byte first. A loop that computes each word of an output array from the word of
an input array reads and writes one memory, so that the arrays must not overlap
for it to be a map over the input.

## Key results

- `readWord_writeWord`: a word that was written is read back
- `mapWords_of_notMem`: the loop changes the output array only
- `readWord_mapWords`: its words, if the arrays do not overlap
-/

namespace WordLoop

/-- The word at an address. -/
def readWord (mem : Nat → UInt8) (a : Nat) : Nat := Bytes.word16 (mem a) (mem (a + 1))

/-- Store a word at an address. -/
def writeWord (mem : Nat → UInt8) (a w : Nat) : Nat → UInt8 :=
  Function.update (Function.update mem a (UInt8.ofNat w)) (a + 1) (UInt8.ofNat (w / 2 ^ 8))

/-- Copy `len` bytes; the bytes are read before any is written. -/
def copyBytes (mem : Nat → UInt8) (src dst len : Nat) : Nat → UInt8 :=
  fun k => if dst ≤ k ∧ k < dst + len then mem (src + (k - dst)) else mem k

/-- `output[i] = f i input[i]` for `i` from 0 on. -/
def mapWords (f : Nat → Nat → Nat) (src dst n : Nat) (mem : Nat → UInt8) : Nat → UInt8 :=
  (List.range n).foldl
    (fun mem i => writeWord mem (dst + 2 * i) (f i (readWord mem (src + 2 * i)))) mem

/-! ## Words -/

section

variable {mem mem' : Nat → UInt8} {a k w : Nat}

theorem readWord_congr (h₀ : mem a = mem' a) (h₁ : mem (a + 1) = mem' (a + 1)) :
    readWord mem a = readWord mem' a := by
  rw [readWord, readWord, h₀, h₁]

theorem writeWord_of_ne (h₀ : k ≠ a) (h₁ : k ≠ a + 1) : writeWord mem a w k = mem k := by
  rw [writeWord, Function.update_of_ne h₁, Function.update_of_ne h₀]

theorem readWord_writeWord (hw : w < 2 ^ 16) : readWord (writeWord mem a w) a = w := by
  have hlow : writeWord mem a w a = UInt8.ofNat w := by
    rw [writeWord, Function.update_of_ne (Nat.ne_add_one a), Function.update_self]
  rw [readWord, hlow, writeWord, Function.update_self, Bytes.word16_ofNat hw]

theorem readWord_copyBytes {src dst len i : Nat} (hi : 2 * i + 1 < len) :
    readWord (copyBytes mem src dst len) (dst + 2 * i) = readWord mem (src + 2 * i) := by
  unfold readWord copyBytes
  have h₀ : dst + 2 * i - dst = 2 * i := by omega
  have h₁ : dst + 2 * i + 1 - dst = 2 * i + 1 := by omega
  rw [if_pos (by omega), if_pos (by omega), h₀, h₁, Nat.add_assoc]

end

/-! ## The loop -/

section

variable {f : Nat → Nat → Nat} {src dst : Nat} {mem : Nat → UInt8}

theorem mapWords_succ (f : Nat → Nat → Nat) (src dst n : Nat) (mem : Nat → UInt8) :
    mapWords f src dst (n + 1) mem = writeWord (mapWords f src dst n mem) (dst + 2 * n)
      (f n (readWord (mapWords f src dst n mem) (src + 2 * n))) := by
  rw [mapWords, List.range_succ, List.foldl_append, List.foldl_cons, List.foldl_nil]
  rfl

/-- Bytes outside the output array stay. -/
theorem mapWords_of_notMem {n k : Nat} (hk : ¬(dst ≤ k ∧ k < dst + 2 * n)) :
    mapWords f src dst n mem k = mem k := by
  induction n with
  | zero => rfl
  | succ n ih => rw [mapWords_succ, writeWord_of_ne (by omega) (by omega), ih (by omega)]

/-- If the arrays do not overlap, every word of the output is computed from the word that the input
    had before. -/
theorem readWord_mapWords (hf : ∀ i w, f i w < 2 ^ 16) {n : Nat}
    (hdisj : src + 2 * n ≤ dst ∨ dst + 2 * n ≤ src) {i : Nat} (hi : i < n) :
    readWord (mapWords f src dst n mem) (dst + 2 * i) = f i (readWord mem (src + 2 * i)) := by
  induction n with
  | zero => omega
  | succ n ih =>
    rw [mapWords_succ]
    rcases Nat.lt_succ_iff_lt_or_eq.mp hi with hlt | rfl
    · -- the word was written before, and the write of word `n` keeps it
      rw [← ih (by omega) hlt]
      exact readWord_congr (writeWord_of_ne (by omega) (by omega))
        (writeWord_of_ne (by omega) (by omega))
    · -- the input is not touched by the loop
      rw [readWord_writeWord (hf _ _)]
      congr 1
      exact readWord_congr (mapWords_of_notMem (by omega)) (mapWords_of_notMem (by omega))

end

end WordLoop
