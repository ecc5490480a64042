import Mathlib.Tactic.Common
import Mathlib.Algebra.Order.Ring.Nat
import Mathlib.Data.List.Iterate
import Mathlib.Data.List.Nodup
import Mathlib.Data.List.Range

/-!
# Byte strings and fixed-width words

Byte-level encodings shared by the firmware and the host: big- and
little-endian words, and runs of 16-bit words in either order. Bits that do
not overlap are combined with `+`, so `lo | (hi << 8)` reads `lo + 256 * hi`.

## Key results

- `word16_ofNat`: the two bytes of a word below `2 ^ 16` read back to it
- `int16sBE_packInt16BE`: packing and unpacking signed big-endian words is the identity
- `u32sBE_packU32BE`: packing 32-bit words big-endian and unpacking is the identity
- `getElem?_packU16LE`: the two bytes of a packed word
-/

/-- Bytes are ordered by their values. -/
instance instLinearOrderUInt8 : LinearOrder UInt8 where
  le_refl a := UInt8.le_refl a
  le_trans _ _ _ := UInt8.le_trans
  lt_iff_le_not_ge a b := by
    rw [UInt8.lt_iff_toNat_lt, UInt8.le_iff_toNat_le, UInt8.le_iff_toNat_le]
    omega
  le_antisymm _ _ := UInt8.le_antisymm
  le_total := UInt8.le_total
  toDecidableLE := inferInstance
  toDecidableEq := inferInstance
  toDecidableLT := inferInstance

/-- A byte string. -/
abbrev Bytes := List UInt8

/-- A byte string of exactly 32 bytes: a seed, a digest or a shared secret. -/
abbrev Bytes32 := { b : Bytes // b.length = 32 }

/-- A keyed hash with 32-byte digests, such as HMAC-SHA256. -/
abbrev Hmac := (key data : Bytes) → Bytes32

namespace Bytes

/-- 32 zero bytes. -/
def zero32 : Bytes32 := ⟨List.replicate 32 0, by simp⟩

/-- The zero bytes of a given length. -/
def zeros (len : Nat) : { b : Bytes // b.length = len } := ⟨List.replicate len 0, by simp⟩

/-- The first 32 bytes of a string with 32 zero bytes behind it. -/
theorem length_take_zero32 (data : Bytes) : ((data ++ zero32.val).take 32).length = 32 := by
  simp [zero32]

/-- The ASCII bytes of a string. -/
def ascii (s : String) : Bytes := s.toList.map fun c => UInt8.ofNat c.toNat

/-- The four big-endian bytes of a 32-bit word. -/
def be32 (n : Nat) : Bytes :=
  [UInt8.ofNat (n / 2 ^ 24), UInt8.ofNat (n / 2 ^ 16), UInt8.ofNat (n / 2 ^ 8), UInt8.ofNat n]

/-- The two big-endian bytes of a 16-bit word. -/
def be16 (n : Nat) : Bytes := [UInt8.ofNat (n / 2 ^ 8), UInt8.ofNat n]

/-- The two little-endian bytes of a 16-bit word. -/
def le16 (n : Nat) : Bytes := [UInt8.ofNat n, UInt8.ofNat (n / 2 ^ 8)]

/-- The four little-endian bytes of a 32-bit word. -/
def le32 (n : Nat) : Bytes :=
  [UInt8.ofNat n, UInt8.ofNat (n / 2 ^ 8), UInt8.ofNat (n / 2 ^ 16), UInt8.ofNat (n / 2 ^ 24)]

/-- The 16-bit word `lo | (hi << 8)`. -/
def word16 (lo hi : UInt8) : Nat := lo.toNat + 256 * hi.toNat

/-- Two's complement reading of a 16-bit word. -/
def toInt16 (n : Nat) : Int := if n < 2 ^ 15 then n else (n : Int) - 2 ^ 16

/-- The unsigned little-endian 16-bit words of a byte string; an odd last byte is dropped. -/
def u16sLE : Bytes → List Nat
  | lo :: hi :: rest => word16 lo hi :: u16sLE rest
  | _ => []

/-- The signed little-endian 16-bit words of a byte string. -/
def int16sLE (b : Bytes) : List Int := (u16sLE b).map toInt16

/-- The signed big-endian 16-bit words of a byte string. -/
def int16sBE : Bytes → List Int
  | hi :: lo :: rest => toInt16 (word16 lo hi) :: int16sBE rest
  | _ => []

/-- The unsigned big-endian 32-bit words of a byte string; up to three last bytes are dropped. -/
def u32sBE : Bytes → List Nat
  | b₀ :: b₁ :: b₂ :: b₃ :: rest => (2 ^ 16 * word16 b₁ b₀ + word16 b₃ b₂) :: u32sBE rest
  | _ => []

/-- Little-endian packing of unsigned 16-bit words. -/
def packU16LE (ws : List Nat) : Bytes := ws.flatMap le16

/-- Big-endian packing of unsigned 32-bit words. -/
def packU32BE (ws : List Nat) : Bytes := ws.flatMap be32

/-- Big-endian packing of signed 16-bit words (two's complement). -/
def packInt16BE (vs : List Int) : Bytes := vs.flatMap fun v => be16 (v % 2 ^ 16).toNat

/-! ## Words -/

/-- The two bytes of a 16-bit word read back to the word. -/
theorem word16_ofNat {n : Nat} (h : n < 2 ^ 16) :
    word16 (UInt8.ofNat n) (UInt8.ofNat (n / 2 ^ 8)) = n := by
  simp only [word16, UInt8.toNat_ofNat']
  omega

/-- The big-endian bytes of a word made of two bytes are these bytes. -/
theorem be16_word16 (hi lo : UInt8) : be16 (word16 lo hi) = [hi, lo] := by
  have hlo := lo.toNat_lt
  have hhi := hi.toNat_lt
  simp only [be16, word16, List.cons.injEq, and_true]
  constructor <;> apply UInt8.toNat_inj.mp <;> rw [UInt8.toNat_ofNat'] <;> omega

/-- The four bytes of a 32-bit word read back to the word. -/
theorem word32_ofNat {n : Nat} (h : n < 2 ^ 32) :
    2 ^ 16 * word16 (UInt8.ofNat (n / 2 ^ 16)) (UInt8.ofNat (n / 2 ^ 24)) +
      word16 (UInt8.ofNat n) (UInt8.ofNat (n / 2 ^ 8)) = n := by
  simp only [word16, UInt8.toNat_ofNat']
  omega

/-- The big-endian bytes of a word made of four bytes are these bytes. -/
theorem be32_word32 (b₀ b₁ b₂ b₃ : UInt8) :
    be32 (2 ^ 16 * word16 b₁ b₀ + word16 b₃ b₂) = [b₀, b₁, b₂, b₃] := by
  have h₀ := b₀.toNat_lt
  have h₁ := b₁.toNat_lt
  have h₂ := b₂.toNat_lt
  have h₃ := b₃.toNat_lt
  simp only [be32, word16, List.cons.injEq, and_true]
  refine ⟨?_, ?_, ?_, ?_⟩ <;> apply UInt8.toNat_inj.mp <;> rw [UInt8.toNat_ofNat'] <;> omega

/-- A 16-bit word is determined by its bytes. -/
theorem be16_inj {m n : Nat} (hm : m < 2 ^ 16) (hn : n < 2 ^ 16) (h : be16 m = be16 n) :
    m = n := by
  simp only [be16, List.cons.injEq, and_true] at h
  obtain ⟨hhigh, hlow⟩ := h
  rw [← word16_ofNat hm, hhigh, hlow, word16_ofNat hn]

/-- A 32-bit word is determined by its bytes. -/
theorem be32_inj {m n : Nat} (hm : m < 2 ^ 32) (hn : n < 2 ^ 32) (h : be32 m = be32 n) :
    m = n := by
  simp only [be32, List.cons.injEq, and_true] at h
  obtain ⟨h₃, h₂, h₁, h₀⟩ := h
  rw [← word32_ofNat hm, h₃, h₂, h₁, h₀, word32_ofNat hn]

/-- The bytes of a 32-bit word are those of its halves. -/
theorem be32_add {a b : Nat} (hb : b < 2 ^ 16) : be32 (2 ^ 16 * a + b) = be16 a ++ be16 b := by
  have hhigh : (2 ^ 16 * a + b) / 2 ^ 16 = a := by omega
  have hhigher : (2 ^ 16 * a + b) / 2 ^ 24 = a / 2 ^ 8 := by omega
  simp only [be32, be16, hhigh, hhigher, List.cons_append, List.nil_append, List.cons.injEq,
    and_true, true_and]
  constructor <;> apply UInt8.toNat_inj.mp <;> simp only [UInt8.toNat_ofNat'] <;> omega

theorem word16_lt (lo hi : UInt8) : word16 lo hi < 2 ^ 16 := by
  have hlo := lo.toNat_lt
  have hhi := hi.toNat_lt
  rw [word16]
  omega

theorem word32_lt (b₀ b₁ b₂ b₃ : UInt8) : 2 ^ 16 * word16 b₁ b₀ + word16 b₃ b₂ < 2 ^ 32 := by
  have hhigh := word16_lt b₁ b₀
  have hlow := word16_lt b₃ b₂
  omega

theorem toInt16_of_lt {n : Nat} (h : n < 2 ^ 15) : toInt16 n = n := by
  simp only [toInt16, h, ↓reduceIte]

/-! ## Words by shifts and masks -/

theorem and_0xFF (n : Nat) : n &&& 255 = n % 2 ^ 8 := Nat.and_two_pow_sub_one_eq_mod n 8

/-- Four bytes taken out of a `uint32_t` by shifts are its big-endian bytes. -/
theorem shifted_be32 (w : UInt32) :
    [(w >>> 24 &&& 0xFF).toUInt8, (w >>> 16 &&& 0xFF).toUInt8, (w >>> 8 &&& 0xFF).toUInt8,
      (w &&& 0xFF).toUInt8] = be32 w.toNat := by
  simp only [be32, List.cons.injEq, and_true]
  refine ⟨?_, ?_, ?_, ?_⟩ <;> apply UInt8.toNat_inj.mp <;>
    simp only [UInt32.toNat_toUInt8, UInt32.toNat_and, UInt32.toNat_shiftRight,
      UInt32.reduceToNat, Nat.reduceMod, Nat.shiftRight_eq_div_pow, and_0xFF,
      UInt8.toNat_ofNat', Nat.mod_mod]

/-- Two bytes taken out of a `uint16_t` by shifts are its big-endian bytes. -/
theorem shifted_be16 (w : UInt16) :
    [(w >>> 8 &&& 0xFF).toUInt8, (w &&& 0xFF).toUInt8] = be16 w.toNat := by
  simp only [be16, List.cons.injEq, and_true]
  constructor <;> apply UInt8.toNat_inj.mp <;>
    simp only [UInt16.toNat_toUInt8, UInt16.toNat_and, UInt16.toNat_shiftRight,
      UInt16.reduceToNat, Nat.reduceMod, Nat.shiftRight_eq_div_pow, and_0xFF,
      UInt8.toNat_ofNat', Nat.mod_mod]

/-- A `uint16_t` put together by shifts. -/
theorem toNat_shifted16 (hi lo : UInt8) :
    ((hi.toUInt16 <<< 8) ||| lo.toUInt16).toNat = word16 lo hi := by
  have hlo := lo.toNat_lt
  have hhi := hi.toNat_lt
  simp only [UInt16.toNat_or, UInt16.toNat_shiftLeft, UInt8.toNat_toUInt16, UInt16.reduceToNat,
    Nat.reduceMod, word16]
  rw [Nat.mod_eq_of_lt (by rw [Nat.shiftLeft_eq]; omega), ← Nat.shiftLeft_add_eq_or_of_lt hlo,
    Nat.shiftLeft_eq]
  omega

/-- A `uint32_t` put together by shifts. -/
theorem toNat_shifted32 (b₀ b₁ b₂ b₃ : UInt8) :
    ((b₀.toUInt32 <<< 24) ||| (b₁.toUInt32 <<< 16) ||| (b₂.toUInt32 <<< 8) ||| b₃.toUInt32).toNat =
      2 ^ 16 * word16 b₁ b₀ + word16 b₃ b₂ := by
  have h₀ := b₀.toNat_lt
  have h₁ := b₁.toNat_lt
  have h₂ := b₂.toNat_lt
  have h₃ := b₃.toNat_lt
  simp only [UInt32.toNat_or, UInt32.toNat_shiftLeft, UInt8.toNat_toUInt32, UInt32.reduceToNat,
    Nat.reduceMod, word16]
  rw [Nat.mod_eq_of_lt (a := b₀.toNat <<< 24) (by rw [Nat.shiftLeft_eq]; omega),
    Nat.mod_eq_of_lt (a := b₁.toNat <<< 16) (by rw [Nat.shiftLeft_eq]; omega),
    Nat.mod_eq_of_lt (a := b₂.toNat <<< 8) (by rw [Nat.shiftLeft_eq]; omega)]
  -- each byte lies below the bits of the ones before it
  have hhigh : b₀.toNat <<< 24 ||| b₁.toNat <<< 16 = (b₀.toNat * 2 ^ 8 + b₁.toNat) <<< 16 := by
    rw [← Nat.shiftLeft_add_eq_or_of_lt (by rw [Nat.shiftLeft_eq]; omega)]
    simp only [Nat.shiftLeft_eq]
    omega
  have hmid : (b₀.toNat * 2 ^ 8 + b₁.toNat) <<< 16 ||| b₂.toNat <<< 8 =
      (b₀.toNat * 2 ^ 16 + b₁.toNat * 2 ^ 8 + b₂.toNat) <<< 8 := by
    rw [← Nat.shiftLeft_add_eq_or_of_lt (by rw [Nat.shiftLeft_eq]; omega)]
    simp only [Nat.shiftLeft_eq]
    omega
  rw [hhigh, hmid, ← Nat.shiftLeft_add_eq_or_of_lt h₃, Nat.shiftLeft_eq]
  omega

/-! ## Runs of words -/

@[simp] theorem length_u16sLE (b : Bytes) : (u16sLE b).length = b.length / 2 := by
  induction b using u16sLE.induct with
  | case1 lo hi rest ih => simp only [u16sLE, List.length_cons, ih]; omega
  | case2 b h =>
    match b, h with
    | [], _ => rfl
    | [_], _ => simp [u16sLE]
    | lo :: hi :: rest, h => exact absurd rfl (h lo hi rest)

@[simp] theorem length_int16sLE (b : Bytes) : (int16sLE b).length = b.length / 2 := by
  simp [int16sLE]

@[simp] theorem length_packU16LE (ws : List Nat) : (packU16LE ws).length = 2 * ws.length := by
  simp only [packU16LE, le16, List.length_flatMap, List.length_cons, List.length_nil,
    List.map_const', List.sum_replicate_nat]
  omega

/-- Packing the words of a byte string of even length gives the string back. -/
theorem packU16LE_u16sLE {b : Bytes} (h : b.length % 2 = 0) : packU16LE (u16sLE b) = b := by
  fun_induction u16sLE b with
  | case1 lo hi rest ih =>
    have hword : le16 (word16 lo hi) = [lo, hi] := by
      have hbytes := be16_word16 hi lo
      simp only [be16, List.cons.injEq, and_true] at hbytes
      rw [le16, hbytes.1, hbytes.2]
    have hrest := ih (by simp only [List.length_cons] at h; omega)
    rw [packU16LE] at hrest ⊢
    rw [List.flatMap_cons, hrest, hword]
    rfl
  | case2 b hshort =>
    rcases b with _ | ⟨lo, _ | ⟨hi, rest⟩⟩
    · rfl
    · simp at h
    · exact absurd rfl (hshort lo hi rest)

/-- Unpacking packed 16-bit words gives the words back. -/
theorem u16sLE_packU16LE {ws : List Nat} (h : ∀ w ∈ ws, w < 2 ^ 16) :
    u16sLE (packU16LE ws) = ws := by
  induction ws with
  | nil => rfl
  | cons w ws ih =>
    have ih' := ih fun v hv => h v (List.mem_cons_of_mem _ hv)
    simp only [packU16LE, List.flatMap_cons, le16, List.cons_append, List.nil_append,
      u16sLE] at ih' ⊢
    rw [ih', word16_ofNat (h w List.mem_cons_self)]

theorem lt_of_mem_u16sLE {b : Bytes} {w : Nat} (hw : w ∈ u16sLE b) : w < 2 ^ 16 := by
  fun_induction u16sLE b with
  | case1 lo hi rest ih =>
    rcases List.mem_cons.mp hw with rfl | hw
    · exact word16_lt lo hi
    · exact ih hw
  | case2 b hshort => exact absurd hw List.not_mem_nil

/-- Word `i` is made of the bytes at `2 * i` and `2 * i + 1`. -/
theorem getD_u16sLE {b : Bytes} (h : b.length % 2 = 0) (i : Nat) :
    (u16sLE b).getD i 0 = word16 (b.getD (2 * i) 0) (b.getD (2 * i + 1) 0) := by
  fun_induction u16sLE b generalizing i with
  | case1 lo hi rest ih =>
    cases i with
    | zero => rfl
    | succ i =>
      have hrest := ih (by simp only [List.length_cons] at h; omega) i
      have hi : 2 * (i + 1) = 2 * i + 1 + 1 := by omega
      simpa [hi] using hrest
  | case2 b hshort =>
    rcases b with _ | ⟨lo, _ | ⟨hi, rest⟩⟩
    · rfl
    · simp at h
    · exact absurd rfl (hshort lo hi rest)
/-- The bytes at `2 * e` and `2 * e + 1` of packed words are those of word `e`. -/
theorem getElem?_packU16LE (ws : List Nat) (e : Nat) :
    (packU16LE ws)[e * 2]? = ws[e]?.map UInt8.ofNat ∧
      (packU16LE ws)[e * 2 + 1]? = ws[e]?.map fun w => UInt8.ofNat (w / 2 ^ 8) := by
  induction ws generalizing e with
  | nil => simp [packU16LE]
  | cons w ws ih =>
    cases e with
    | zero => simp [packU16LE, le16]
    | succ e =>
      have he : (e + 1) * 2 = e * 2 + 1 + 1 := by omega
      simpa [packU16LE, le16, he] using ih e

@[simp] theorem length_packInt16BE (vs : List Int) :
    (packInt16BE vs).length = 2 * vs.length := by
  simp only [packInt16BE, be16, List.length_flatMap, List.length_cons, List.length_nil,
    List.map_const', List.sum_replicate_nat]
  omega

theorem length_int16sBE (b : Bytes) : (int16sBE b).length = b.length / 2 := by
  fun_induction int16sBE b with
  | case1 hi lo rest ih =>
    simp only [List.length_cons, ih]
    omega
  | case2 b hshort =>
    match b, hshort with
    | [], _ => rfl
    | [_], _ => simp
    | hi :: lo :: rest, hshort => exact absurd rfl (hshort hi lo rest)

/-- Two's complement of a signed 16-bit word reads back to it. -/
theorem toInt16_emod {v : Int} (h : -2 ^ 15 ≤ v ∧ v < 2 ^ 15) :
    toInt16 (v % 2 ^ 16).toNat = v := by
  simp only [toInt16]
  split <;> omega

/-- Unpacking the big-endian packing of signed 16-bit words gives the words back. -/
theorem int16sBE_packInt16BE {vs : List Int} (h : ∀ v ∈ vs, -2 ^ 15 ≤ v ∧ v < 2 ^ 15) :
    int16sBE (packInt16BE vs) = vs := by
  induction vs with
  | nil => rfl
  | cons v vs ih =>
    have hn : (v % 2 ^ 16).toNat < 2 ^ 16 := by omega
    have ih' := ih fun u hu => h u (List.mem_cons_of_mem _ hu)
    simp only [packInt16BE, List.flatMap_cons, be16, List.cons_append, List.nil_append,
      int16sBE] at ih' ⊢
    rw [ih', word16_ofNat hn, toInt16_emod (h v List.mem_cons_self)]

@[simp] theorem length_packU32BE (ws : List Nat) : (packU32BE ws).length = 4 * ws.length := by
  simp only [packU32BE, be32, List.length_flatMap, List.length_cons, List.length_nil,
    List.map_const', List.sum_replicate_nat]
  omega

/-- Unpacking the big-endian packing of 32-bit words gives the words back. -/
theorem u32sBE_packU32BE {ws : List Nat} (h : ∀ w ∈ ws, w < 2 ^ 32) :
    u32sBE (packU32BE ws) = ws := by
  induction ws with
  | nil => rfl
  | cons w ws ih =>
    have ih' := ih fun v hv => h v (List.mem_cons_of_mem _ hv)
    simp only [packU32BE, List.flatMap_cons, be32, List.cons_append, List.nil_append,
      u32sBE] at ih' ⊢
    rw [ih', word32_ofNat (h w List.mem_cons_self)]

/-! ## Counters -/

/-- Counting on in `uint16_t`. -/
theorem iterate_succ_uint16 (c : UInt16) (n : Nat) :
    (· + 1)^[n] c = c + UInt16.ofNat n := by
  induction n with
  | zero => simp
  | succ n ih =>
    rw [Function.iterate_succ_apply', ih, UInt16.ofNat_add, UInt16.add_assoc]
    rfl

/-- A 16-bit counter gives `2^16` different values, and no more. -/
theorem nodup_iterate_uint16 (c : UInt16) (n : Nat) :
    (List.iterate (· + 1) c n).Nodup ↔ n ≤ 2 ^ 16 := by
  rw [← List.range_map_iterate]
  simp only [iterate_succ_uint16]
  constructor
  · intro hnodup
    by_contra hlt
    -- after a full turn the counter is back where it was
    have hwrap : c + UInt16.ofNat 0 = c + UInt16.ofNat (2 ^ 16) := rfl
    have hzero := List.inj_on_of_nodup_map hnodup (by simp; omega) (by simp; omega) hwrap
    exact absurd hzero (by decide)
  · intro hle
    refine List.Nodup.map_on (fun i hi j hj hij => ?_) List.nodup_range
    rw [List.mem_range] at hi hj
    have heq := congrArg UInt16.toNat (UInt16.add_right_inj c |>.mp hij)
    rwa [UInt16.toNat_ofNat_of_lt' (by simpa [UInt16.size] using by omega),
      UInt16.toNat_ofNat_of_lt' (by simpa [UInt16.size] using by omega)] at heq

end Bytes
