import SwiftAgg.ForStd.Bits
import SwiftAgg.Native.Types

/-!
# Constant-time memory operations

`crypto_memory.c`: comparing and conditionally copying `len` bytes without a
branch on them. The buffers of a call do not overlap. An `int` is an `Int32`;
negating the least one overflows and has no defined value in C.
-/

namespace SwiftAgg.Native

/-- `crypto_ct_compare`. -/
def cryptoCtCompare (a b : Memory) (len : Nat) : Int :=
  let diff := (List.range len).foldl (fun diff i => diff ||| (a i ^^^ b i)) (0 : UInt8)
  diff.toNat

/-- The `mask` of `crypto_ct_copy`: the negated condition, cut off to a byte. -/
def conditionMask (condition : Int32) : Option UInt8 :=
  if condition = Int32.minValue then none else some (-condition).toUInt32.toUInt8

/-- The loop of `crypto_ct_copy`. -/
def ctCopyLoop (mask : UInt8) (dst src : Memory) (len : Nat) : Memory :=
  (List.range len).foldl
    (fun d i => Function.update d i (UInt8.select mask (d i) (src i))) dst

/-- `crypto_ct_copy`: what is in `dst` afterwards. -/
def cryptoCtCopy (dst src : Memory) (len : Nat) (condition : Int32) : Option Memory :=
  (conditionMask condition).map fun mask => ctCopyLoop mask dst src len

end SwiftAgg.Native
