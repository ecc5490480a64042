import SwiftAgg.ForStd.Bytes
import Mathlib.Data.List.GetD

/-!
# Big-endian counters

A counter kept as bytes, the last one counting fastest, and the loop that
increments it in place: it goes on to the byte before as long as a byte wraps
around to zero.

## Key results

- `incrementBE_ofNatBE`: the loop counts
- `ofNatBE_inj`: a counter of `width` bytes tells `256 ^ width` numbers apart
-/

namespace Bytes

/-- The `width` last big-endian bytes of a number. -/
def ofNatBE : (width n : Nat) → Bytes
  | 0, _ => []
  | width + 1, n => ofNatBE width (n / 2 ^ 8) ++ [UInt8.ofNat n]

/-- Increments byte `i - 1` and, while bytes wrap around, the bytes before it. -/
def incrementBE (b : Bytes) : Nat → Bytes
  | 0 => b
  | i + 1 =>
    let b' := b.set i (b.getD i 0 + 1)
    if b'.getD i 0 ≠ 0 then b' else incrementBE b' i

@[simp] theorem length_ofNatBE (width n : Nat) : (ofNatBE width n).length = width := by
  induction width generalizing n with
  | zero => rfl
  | succ width ih => rw [ofNatBE, List.length_append, ih, List.length_singleton]

@[simp] theorem length_incrementBE (b : Bytes) (i : Nat) :
    (incrementBE b i).length = b.length := by
  induction i generalizing b with
  | zero => rfl
  | succ i ih =>
    simp only [incrementBE]
    split
    · exact List.length_set
    · rw [ih, List.length_set]

/-- The loop counts. What stands behind the counter stays as it is. -/
theorem incrementBE_ofNatBE (width n : Nat) (behind : Bytes) :
    incrementBE (ofNatBE width n ++ behind) width = ofNatBE width (n + 1) ++ behind := by
  induction width generalizing n behind with
  | zero => rfl
  | succ width ih =>
    have hlen := length_ofNatBE width (n / 2 ^ 8)
    have hlast : UInt8.ofNat n + 1 = UInt8.ofNat (n + 1) := (UInt8.ofNat_add n 1).symm
    have hzero : UInt8.ofNat (n + 1) = 0 ↔ (n + 1) % 2 ^ 8 = 0 := by
      rw [← UInt8.toNat_inj, UInt8.toNat_ofNat']
      rfl
    simp only [ofNatBE, incrementBE, List.append_assoc, List.singleton_append]
    rw [List.getD_append_right _ _ _ _ (by omega), List.set_append_right _ _ (by omega),
      List.getD_append_right _ _ _ _ (by omega), hlen, Nat.sub_self, List.getD_cons_zero,
      List.set_cons_zero, List.getD_cons_zero, hlast]
    by_cases hwrap : (n + 1) % 2 ^ 8 = 0
    · -- the byte has become zero and the loop carries on
      have hcarry : n / 2 ^ 8 + 1 = (n + 1) / 2 ^ 8 := by omega
      rw [if_neg (not_not.mpr (hzero.mpr hwrap)), ih, hcarry]
    · have hsame : n / 2 ^ 8 = (n + 1) / 2 ^ 8 := by omega
      rw [if_pos (mt hzero.mp hwrap), hsame]

/-- A counter of `width` bytes tells the numbers below `256 ^ width` apart. -/
theorem ofNatBE_inj {width m n : Nat} (hm : m < 256 ^ width) (hn : n < 256 ^ width)
    (h : ofNatBE width m = ofNatBE width n) : m = n := by
  induction width generalizing m n with
  | zero => omega
  | succ width ih =>
    obtain ⟨hhigh, hlow⟩ := List.append_inj h (by simp)
    have hbyte : m % 2 ^ 8 = n % 2 ^ 8 := by
      simpa using congrArg UInt8.toNat (List.singleton_inj.mp hlow)
    have hrest := ih (Nat.div_lt_of_lt_mul (by rwa [Nat.pow_succ'] at hm))
      (Nat.div_lt_of_lt_mul (by rwa [Nat.pow_succ'] at hn)) hhigh
    omega

/-- It returns to its start after as many steps. -/
theorem ofNatBE_add_pow (width n : Nat) : ofNatBE width (n + 256 ^ width) = ofNatBE width n := by
  induction width generalizing n with
  | zero => rfl
  | succ width ih =>
    have hhigh : (n + 256 ^ (width + 1)) / 2 ^ 8 = n / 2 ^ 8 + 256 ^ width := by
      rw [Nat.pow_succ]
      omega
    have hlow : UInt8.ofNat (n + 256 ^ (width + 1)) = UInt8.ofNat n := by
      apply UInt8.toNat_inj.mp
      rw [UInt8.toNat_ofNat', UInt8.toNat_ofNat', Nat.pow_succ]
      omega
    rw [ofNatBE, hhigh, ih, hlow, ofNatBE]

/-- The counter that starts at zero. -/
theorem ofNatBE_zero (width : Nat) : ofNatBE width 0 = List.replicate width 0 := by
  induction width with
  | zero => rfl
  | succ width ih => rw [ofNatBE, Nat.zero_div, ih, List.replicate_succ']; rfl

end Bytes
