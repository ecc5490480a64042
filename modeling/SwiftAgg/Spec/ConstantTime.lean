import SwiftAgg.Native.CryptoMemory
import SwiftAgg.Spec.PacketCodecCorrect

/-!
# Constant-time primitives

Both comparisons find no difference exactly between equal strings, whatever
their length. The conditional copy takes its mask from the last byte of the
negated condition: that byte has all bits only for conditions that are one more
than a multiple of 256, and for the others `dst` keeps the bits outside the mask.

## Key results

- `cryptoCtCompare_eq_zero_iff`: the comparison
- `ctCopyLoop_eq`: the bytes that the copy writes
- `copiesIf_iff`: for which buffers and conditions it copies as documented
- `constantTime_iff`: all three primitives
-/

namespace SwiftAgg.Native

variable {dst src : Memory} {len : Nat} {condition : Int32}

/-! ## Comparison -/

theorem read_eq_iff {a b : Memory} : a.read len = b.read len ↔ ∀ i < len, a i = b i := by
  simp only [Memory.read, List.map_inj_left, List.mem_range]

/-- The comparison finds no difference exactly between equal strings. -/
theorem cryptoCtCompare_eq_zero_iff (a b : Memory) (len : Nat) :
    cryptoCtCompare a b len = 0 ↔ a.read len = b.read len := by
  have hfold : (List.range len).foldl (fun diff i => diff ||| (a i ^^^ b i)) 0 =
      ((List.range len).map fun i => a i ^^^ b i).foldl (· ||| ·) 0 := by
    rw [List.foldl_map]
  rw [cryptoCtCompare, hfold, Int.natCast_eq_zero, ← UInt8.toNat_zero, UInt8.toNat_inj,
    Bytes.foldl_or_eq_zero_iff, read_eq_iff]
  simp only [true_and, List.forall_mem_map, List.mem_range, UInt8.xor_eq_zero_iff]

/-! ## Conditional copy -/

/-- The loop chooses byte by byte. -/
theorem ctCopyLoop_eq (mask : UInt8) (dst src : Memory) (len i : Nat) :
    ctCopyLoop mask dst src len i =
      if i < len then UInt8.select mask (dst i) (src i) else dst i := by
  induction len with
  | zero => rfl
  | succ len ih =>
    have hstep : ctCopyLoop mask dst src (len + 1) =
        Function.update (ctCopyLoop mask dst src len) len
          (UInt8.select mask (ctCopyLoop mask dst src len len) (src len)) := by
      rw [ctCopyLoop, List.range_succ, List.foldl_append]
      rfl
    rw [hstep]
    by_cases hi : i = len
    · subst hi
      -- byte `len` was not written before
      have hold : ctCopyLoop mask dst src i i = dst i := ih.trans (if_neg (lt_irrefl i))
      rw [Function.update_self, hold, if_pos (Nat.lt_succ_self i)]
    · rw [Function.update_of_ne hi, ih]
      exact if_congr (by omega) rfl rfl

/-- The copy is made if the condition is not zero, and nothing changes if it is. -/
def CopiesIf (dst src : Memory) (len : Nat) (condition : Int32) : Prop :=
  ∃ dst', cryptoCtCopy dst src len condition = some dst' ∧
    if condition ≠ 0 then dst'.read len = src.read len else dst' = dst

/-- The bits outside the mask of a condition are those of its predecessor. -/
theorem conditionMask_eq (h : condition ≠ Int32.minValue) :
    ∃ mask, conditionMask condition = some mask ∧
      ~~~mask = (condition - 1).toUInt32.toUInt8 := by
  refine ⟨_, if_neg h, ?_⟩
  rw [Int32.toUInt32_neg, UInt32.toUInt8_neg, UInt8.not_neg, Int32.toUInt32_sub,
    UInt32.toUInt8_sub]
  rfl

/-- The copy does what it should exactly if the condition is zero, or can be negated and the
    buffers differ in no bit that the last byte of its predecessor has. -/
theorem copiesIf_iff (dst src : Memory) (len : Nat) (condition : Int32) :
    CopiesIf dst src len condition ↔
      condition = 0 ∨ condition ≠ Int32.minValue ∧
        ∀ i < len, (dst i ^^^ src i) &&& (condition - 1).toUInt32.toUInt8 = 0 := by
  by_cases hzero : condition = 0
  · subst hzero
    refine iff_of_true ⟨_, rfl, ?_⟩ (.inl rfl)
    -- the mask is empty
    show ctCopyLoop 0 dst src len = dst
    funext i
    rw [ctCopyLoop_eq, UInt8.select_zero, ite_self]
  · rw [or_iff_right hzero]
    by_cases hmin : condition = Int32.minValue
    · -- the negation overflows
      refine iff_of_false ?_ fun h => h.1 hmin
      rintro ⟨dst', hcopy, -⟩
      rw [cryptoCtCopy, conditionMask, if_pos hmin] at hcopy
      cases hcopy
    · obtain ⟨mask, hmask, hnot⟩ := conditionMask_eq hmin
      rw [CopiesIf, cryptoCtCopy, hmask, ← hnot]
      simp only [Option.map_some, Option.some.injEq, exists_eq_left', if_pos hzero, ne_eq, hmin,
        not_false_eq_true, true_and, read_eq_iff]
      refine forall₂_congr fun i hi => ?_
      rw [ctCopyLoop_eq, if_pos hi, UInt8.select_eq_right_iff]

/-- For all buffers this is so for zero and for the conditions that end in the byte 1. -/
theorem forall_copiesIf_iff (condition : Int32) :
    (∀ dst src len, CopiesIf dst src len condition) ↔
      condition = 0 ∨ condition.toInt % 256 = 1 := by
  have hbyte : (condition - 1).toUInt32.toUInt8 = 0 ↔ condition.toInt % 256 = 1 := by
    have hint : condition.toInt = condition.toBitVec.toInt := rfl
    have hnat : condition.toBitVec.toNat = condition.toUInt32.toNat := rfl
    rw [Int32.toUInt32_sub, UInt32.toUInt8_sub, UInt8.sub_eq_iff_eq_add, UInt8.zero_add,
      ← UInt8.toNat_inj, UInt32.toNat_toUInt8, hint, BitVec.toInt_eq_toNat_cond, hnat]
    have hone : (Int32.toUInt32 1).toUInt8.toNat = 1 := rfl
    rw [hone]
    split <;> omega
  simp only [copiesIf_iff]
  constructor
  · intro hall
    -- one byte with all bits different is enough
    obtain hzero | ⟨-, hbits⟩ := hall (fun _ => 0) (fun _ => 255) 1
    · exact .inl hzero
    · right
      rw [← hbyte]
      have hall := hbits 0 Nat.zero_lt_one
      rwa [UInt8.zero_xor, UInt8.and_comm, show (255 : UInt8) = -1 from rfl, UInt8.and_neg_one]
        at hall
  · rintro (hzero | hone) dst src len
    · exact .inl hzero
    · refine .inr ⟨?_, fun i _ => ?_⟩
      · rintro rfl
        exact absurd hone (by decide)
      · rw [hbyte.mpr hone, UInt8.and_zero]

/-! ## The primitives -/

/-- Both comparisons return zero exactly for equal strings; and the conditional copy does what it
    should exactly for the conditions and buffers above, for all buffers only if the condition is
    zero or ends in the byte 1. -/
theorem constantTime_iff (a b dst src : Memory) (len : Nat) (condition : Int32) :
    (cryptoCtCompare a b len = 0 ↔ a.read len = b.read len) ∧
      (cryptoCtMemcmp (a.read len) (b.read len) = 0 ↔ a.read len = b.read len) ∧
      (CopiesIf dst src len condition ↔
        condition = 0 ∨ condition ≠ Int32.minValue ∧
          ∀ i < len, (dst i ^^^ src i) &&& (condition - 1).toUInt32.toUInt8 = 0) ∧
      ((∀ dst src len, CopiesIf dst src len condition) ↔
        condition = 0 ∨ condition.toInt % 256 = 1) := by
  have hlen : (a.read len).length = (b.read len).length := by
    rw [Memory.length_read, Memory.length_read]
  exact ⟨cryptoCtCompare_eq_zero_iff a b len, cryptoCtMemcmp_eq_zero_iff hlen,
    copiesIf_iff dst src len condition, forall_copiesIf_iff condition⟩

/-- With the condition 2 the copy of a byte loses its last bit, with 256 it copies nothing, and the
    least condition cannot be negated. -/
theorem copiesIf_two_256_least :
    (cryptoCtCopy (fun _ => 0) (fun _ => 255) 1 2).map (·.read 1) = some [254] ∧
      ¬CopiesIf (fun _ => 0) (fun _ => 255) 1 2 ∧
      ¬CopiesIf (fun _ => 0) (fun _ => 255) 1 256 ∧
      ¬CopiesIf (fun _ => 0) (fun _ => 255) 1 Int32.minValue := by
  simp only [copiesIf_iff]
  decide

end SwiftAgg.Native
