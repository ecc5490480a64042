import SwiftAgg.Host.RoundState

/-!
# Integer arrays

What the Flower strategy uses of `numpy`: arrays of integers with a type and a
shape, whose entries are listed in the order of `flatten`. A conversion between
integer types keeps the low bits.
-/

namespace SwiftAgg.Host

/-- The integer types of `numpy`. -/
inductive DType where
  | int8
  | int16
  | int32
  | int64
  | uint8
  | uint16
  | uint32
  | uint64
  deriving Repr, DecidableEq

/-- The number of bits. -/
def DType.bits : DType → Nat
  | int8 | uint8 => 8
  | int16 | uint16 => 16
  | int32 | uint32 => 32
  | int64 | uint64 => 64

/-- The distance of the least value to zero. -/
def DType.below : DType → Int
  | int8 => 2 ^ 7
  | int16 => 2 ^ 15
  | int32 => 2 ^ 31
  | int64 => 2 ^ 63
  | uint8 | uint16 | uint32 | uint64 => 0

/-- Conversion to a type: the value of the type with the same low bits. -/
def DType.cast (t : DType) (v : Int) : Int := (v + t.below) % 2 ^ t.bits - t.below

theorem DType.cast_cast (t : DType) (v : Int) : t.cast (t.cast v) = t.cast v := by
  simp only [DType.cast, Int.sub_add_cancel, Int.emod_emod]

theorem DType.cast_int16 {v : Int} (h : -2 ^ 15 ≤ v ∧ v < 2 ^ 15) : DType.int16.cast v = v := by
  simp only [DType.cast, DType.below, DType.bits]
  omega

/-- An array; its entries are values of its type, as many as its shape has places. -/
@[ext] structure NdArray where
  dtype : DType
  shape : List Nat
  entries : List Int
  size_eq : entries.length = shape.prod
  typed : ∀ v ∈ entries, dtype.cast v = v

/-- `arr.size`. -/
def NdArray.size (arr : NdArray) : Nat := arr.entries.length

/-- `flat.reshape(ref.shape).astype(ref.dtype)`. -/
def NdArray.reshapeLike (ref : NdArray) (flat : List Int) : Except PyErr NdArray :=
  if h : flat.length = ref.shape.prod then
    .ok
      { dtype := ref.dtype
        shape := ref.shape
        entries := flat.map ref.dtype.cast
        size_eq := by rw [List.length_map, h]
        typed := by
          intro v hv
          obtain ⟨u, -, rfl⟩ := List.mem_map.mp hv
          exact ref.dtype.cast_cast u }
  else .error (.valueError "cannot reshape array")

end SwiftAgg.Host
