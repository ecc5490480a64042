import SwiftAgg.ForStd.Bytes

/-!
# Bit masks

Two uses of bitwise operations on bytes that code without branches makes:
differences collected by an or over all positions, and a choice between two
bytes by a mask.

## Key results

- `Bytes.foldl_or_eq_zero_iff`: what is collected is zero if every term is
- `UInt8.select_eq_right_iff`: a mask chooses the second byte where the bytes differ in no other bit
- `UInt8.not_neg`: the complement of a negated mask
-/

/-! ## Collecting bits -/

theorem Bytes.foldl_or_eq_zero_iff (bs : Bytes) (acc : UInt8) :
    bs.foldl (· ||| ·) acc = 0 ↔ acc = 0 ∧ ∀ b ∈ bs, b = 0 := by
  induction bs generalizing acc with
  | nil => simp
  | cons b bs ih => simp [ih, UInt8.or_eq_zero_iff, and_assoc]

/-! ## Choosing by a mask -/

/-- The bits of `y` under the mask and those of `x` elsewhere. -/
def UInt8.select (mask x y : UInt8) : UInt8 := (x &&& ~~~mask) ||| (y &&& mask)

/-- A mask chooses `y` exactly if the bytes differ under the mask only. -/
theorem UInt8.select_eq_right_iff (mask x y : UInt8) :
    select mask x y = y ↔ (x ^^^ y) &&& ~~~mask = 0 := by
  rw [select, ← UInt8.toBitVec_inj, ← UInt8.toBitVec_inj, BitVec.eq_of_getLsbD_eq_iff,
    BitVec.eq_of_getLsbD_eq_iff]
  -- bit by bit
  refine forall₂_congr fun i hi => ?_
  simp only [UInt8.toBitVec_or, UInt8.toBitVec_and, UInt8.toBitVec_not, UInt8.toBitVec_xor,
    BitVec.getLsbD_or, BitVec.getLsbD_and, BitVec.getLsbD_not, BitVec.getLsbD_xor, hi]
  cases x.toBitVec.getLsbD i <;> cases y.toBitVec.getLsbD i <;>
    cases mask.toBitVec.getLsbD i <;> simp

/-- An empty mask chooses nothing. -/
@[simp] theorem UInt8.select_zero (x y : UInt8) : select 0 x y = x := by
  simp [select]

/-- The complement of a negated byte. -/
theorem UInt8.not_neg (a : UInt8) : ~~~(-a) = a - 1 := by
  rw [UInt8.not_eq_neg_sub, UInt8.neg_neg]
