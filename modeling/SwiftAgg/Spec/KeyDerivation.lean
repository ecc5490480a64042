import SwiftAgg.Native.KemAdapter
import SwiftAgg.Host.ShamirRecovery

/-!
# Key derivation on the two sides

Firmware and host run the same HKDF on the same labels, but the firmware puts
the round before the ids in the info string and the host after them. The two
strings have the same length, so they agree only for the few rounds whose
bytes repeat the ids, and a keyed hash that separates strings separates all
other derivations.

## Key results

- `hkdf_eq_deriveWithInfo`: the two HKDF implementations agree on equal info strings
- `derivations_agree_iff`: exactly when the three derivations agree for every keyed hash
-/

namespace SwiftAgg

open Native (KemGlobals)

/-! ## HKDF -/

/-- One block is the whole 32-byte output on the host as well. -/
theorem Host.hkdfExpand_32 (hmac : Hmac) (prk info : Bytes) :
    Host.hkdfExpand hmac prk info 32 = .ok (hmac prk (info ++ [1])).val := by
  have hlen := (hmac prk (info ++ [1])).property
  rw [Host.hkdfExpand, Host.hkdfExpandLoop, if_pos (by decide), if_pos (by decide)]
  simp only [List.nil_append, UInt8.reduceOfNat]
  rw [Host.hkdfExpandLoop, if_neg (by omega), List.take_of_length_le (by omega)]

/-- On equal labels and info strings the two sides derive the same 32 bytes. -/
theorem hkdf_eq_deriveWithInfo (hmac : Hmac) (label : String) (ikm info : Bytes) :
    Host.deriveWithInfo hmac label ikm info =
      .ok (Native.hkdf hmac ikm (Bytes.ascii label ++ info)).val := by
  simp only [Host.deriveWithInfo, Native.hkdf, Host.hkdfExpand_32, Native.hkdfExpand_32,
    Host.hkdfExtract, Native.hkdfExtract]

/-- Two info strings give the same bytes under every keyed hash exactly when they are equal. -/
private theorem hkdf_forall_eq_iff (ikm info info' : Bytes) :
    (∀ hmac : Hmac, Native.hkdf hmac ikm info' = Native.hkdf hmac ikm info) ↔ info' = info := by
  constructor
  · intro h
    by_contra hne
    -- a hash that is non-zero only on the last block of `info`
    have hsep := congrArg Subtype.val (h fun _ data =>
      if data = info ++ [1] then ⟨List.replicate 32 1, by simp⟩ else Bytes.zero32)
    simp only [Native.hkdf, Native.hkdfExpand_32, List.append_left_inj, hne, ↓reduceIte] at hsep
    exact absurd hsep (by decide)
  · rintro rfl hmac
    rfl

/-! ## The info strings -/

/-- Numbers below 256 are bytes. -/
theorem Host.bytesOf_eq_ok {ns : List Nat} (h : ∀ n ∈ ns, n < 2 ^ 8) :
    Host.bytesOf ns = .ok (ns.map UInt8.ofNat) :=
  if_pos (List.all_eq_true.mpr fun n hn => decide_eq_true (h n hn))

/-- The bytes of a 32-bit word determine it. -/
private theorem be32_eq_iff {n : Nat} (hn : n < 2 ^ 32) (b₃ b₂ b₁ b₀ : UInt8) :
    Bytes.be32 n = [b₃, b₂, b₁, b₀] ↔
      n = b₃.toNat * 2 ^ 24 + b₂.toNat * 2 ^ 16 + b₁.toNat * 2 ^ 8 + b₀.toNat := by
  have h₃ := b₃.toNat_lt
  have h₂ := b₂.toNat_lt
  have h₁ := b₁.toNat_lt
  have h₀ := b₀.toNat_lt
  simp only [Bytes.be32, List.cons.injEq, and_true, ← UInt8.toNat_inj, UInt8.toNat_ofNat']
  omega

/-- Four bytes before two equal the two before the four when the four repeat the two. -/
private theorem rotate_pair_iff (b₃ b₂ b₁ b₀ a b : UInt8) :
    [b₃, b₂, b₁, b₀] ++ [a, b] = [a, b] ++ [b₃, b₂, b₁, b₀] ↔
      [b₃, b₂, b₁, b₀] = [a, b, a, b] := by
  simp only [List.cons_append, List.nil_append, List.cons.injEq, and_true]
  constructor
  · rintro ⟨rfl, rfl, rfl, rfl, -, -⟩
    exact ⟨rfl, rfl, rfl, rfl⟩
  · rintro ⟨rfl, rfl, rfl, rfl⟩
    exact ⟨rfl, rfl, rfl, rfl, rfl, rfl⟩

/-- Four bytes before one equal the one before the four when the four repeat the one. -/
private theorem rotate_one_iff (b₃ b₂ b₁ b₀ a : UInt8) :
    [b₃, b₂, b₁, b₀] ++ [a] = [a] ++ [b₃, b₂, b₁, b₀] ↔ [b₃, b₂, b₁, b₀] = [a, a, a, a] := by
  simp only [List.cons_append, List.nil_append, List.cons.injEq, and_true]
  constructor
  · rintro ⟨rfl, rfl, rfl, rfl, -⟩
    exact ⟨rfl, rfl, rfl, rfl⟩
  · rintro ⟨rfl, rfl, rfl, rfl⟩
    exact ⟨rfl, rfl, rfl, rfl, rfl⟩

/-! ## Agreement -/

section

variable (hmac : Hmac) (ss : Bytes) {a b id round chunk : Nat}

/-- The pairwise derivation, on ids and a round that fit their fields. -/
theorem Host.derivePairwiseMaskSeed_eq_ok (ha : a < 2 ^ 8) (hb : b < 2 ^ 8)
    (hround : round < 2 ^ 32) :
    Host.derivePairwiseMaskSeed hmac ss a b round =
      .ok (Native.hkdf hmac ss (Native.kdfLabelPairwiseMask ++
        ([UInt8.ofNat a, UInt8.ofNat b] ++ Bytes.be32 round))).val := by
  rw [Host.derivePairwiseMaskSeed, Host.bytesOf_eq_ok (by simpa using ⟨ha, hb⟩), Host.toBytes4,
    if_pos hround]
  exact hkdf_eq_deriveWithInfo ..

theorem Host.deriveStreamMaskSeed_eq_ok (hid : id < 2 ^ 8) (hround : round < 2 ^ 32)
    (hchunk : chunk < 2 ^ 16) :
    Host.deriveStreamMaskSeed hmac ss id round chunk =
      .ok (Native.hkdf hmac ss (Native.kdfLabelStreamMask ++
        ([UInt8.ofNat id] ++ Bytes.be32 round ++ Bytes.be16 chunk))).val := by
  rw [Host.deriveStreamMaskSeed, Host.bytesOf_eq_ok (by simpa using hid), Host.toBytes4,
    if_pos hround, Host.toBytes2, if_pos hchunk]
  exact hkdf_eq_deriveWithInfo ..

theorem Host.deriveShamirSecret_eq_ok (hid : id < 2 ^ 8) (hround : round < 2 ^ 32) :
    Host.deriveShamirSecret hmac ss id round =
      .ok (Native.hkdf hmac ss
        (Native.kdfLabelShamirSecret ++ ([UInt8.ofNat id] ++ Bytes.be32 round))).val := by
  rw [Host.deriveShamirSecret, Host.bytesOf_eq_ok (by simpa using hid), Host.toBytes4,
    if_pos hround]
  exact hkdf_eq_deriveWithInfo ..

end

/-- Agreement of a host derivation with a firmware derivation, for every keyed hash, is equality
    of the info strings. -/
private theorem forall_hmac_agree_iff (g : KemGlobals) (ss : Bytes32) (info info' : Bytes) :
    (∀ hmac : Hmac, Except.ok (ε := Host.PyErr) (Native.hkdf hmac ss.val info').val =
      .ok (Native.deriveWithInfo (Native.hkdf hmac) g ss info).val) ↔ info = info' := by
  rw [eq_comm, ← hkdf_forall_eq_iff ss.val info info']
  apply forall_congr'
  intro hmac
  rw [Native.deriveWithInfo_eq, Except.ok.injEq, Subtype.ext_iff]

/-- The derivations of firmware and host agree for every keyed hash exactly on the rounds whose
    bytes repeat the ids: `a b a b` for the pairwise seed, `id id id id` for the two others. -/
theorem derivations_agree_iff (g : KemGlobals) (ss : Bytes32) (a b id : UInt8) (round : UInt32)
    (chunk : UInt16) :
    ((∀ hmac : Hmac, Host.derivePairwiseMaskSeed hmac ss.val a.toNat b.toNat round.toNat =
        .ok (Native.kemAdapterDerivePairwiseMaskSeed (Native.hkdf hmac) g ss a b round).val) ↔
      round.toNat = a.toNat * 2 ^ 24 + b.toNat * 2 ^ 16 + a.toNat * 2 ^ 8 + b.toNat) ∧
    ((∀ hmac : Hmac,
        Host.deriveStreamMaskSeed hmac ss.val id.toNat round.toNat chunk.toNat =
          .ok (Native.kemAdapterDeriveStreamMaskSeed (Native.hkdf hmac) g ss id round chunk).val) ↔
      round.toNat = id.toNat * 2 ^ 24 + id.toNat * 2 ^ 16 + id.toNat * 2 ^ 8 + id.toNat) ∧
    ((∀ hmac : Hmac, Host.deriveShamirSecret hmac ss.val id.toNat round.toNat =
        .ok (Native.kemAdapterDeriveShamirSecret (Native.hkdf hmac) g ss id round).val) ↔
      round.toNat = id.toNat * 2 ^ 24 + id.toNat * 2 ^ 16 + id.toNat * 2 ^ 8 + id.toNat) := by
  have hround := round.toNat_lt
  simp only [Host.derivePairwiseMaskSeed_eq_ok _ _ a.toNat_lt b.toNat_lt hround,
    Host.deriveStreamMaskSeed_eq_ok _ _ id.toNat_lt hround chunk.toNat_lt,
    Host.deriveShamirSecret_eq_ok _ _ id.toNat_lt hround, UInt8.ofNat_toNat,
    Native.kemAdapterDerivePairwiseMaskSeed,
    Native.kemAdapterDeriveStreamMaskSeed, Native.kemAdapterDeriveShamirSecret,
    forall_hmac_agree_iff, Native.pairwiseMaskInfo, Native.streamMaskInfo,
    Native.shamirSecretInfo, List.append_assoc, List.append_right_inj, ← be32_eq_iff hround]
  refine ⟨rotate_pair_iff .., ?_, rotate_one_iff ..⟩
  rw [← List.append_assoc, ← List.append_assoc, List.append_left_inj]
  exact rotate_one_iff ..

/-- Round 1, clients 1 and 2, the zero secret and a hash that echoes its data: all three
    derivations differ. -/
theorem derivations_differ_in_round_one :
    let hmac : Hmac := fun _ data => ⟨(data ++ Bytes.zero32.val).take 32,
      Bytes.length_take_zero32 data⟩
    Host.derivePairwiseMaskSeed hmac Bytes.zero32.val 1 2 1 ≠
        .ok (Native.kemAdapterDerivePairwiseMaskSeed (Native.hkdf hmac) .initial Bytes.zero32
          1 2 1).val ∧
      Host.deriveStreamMaskSeed hmac Bytes.zero32.val 1 1 0 ≠
        .ok (Native.kemAdapterDeriveStreamMaskSeed (Native.hkdf hmac) .initial Bytes.zero32
          1 1 0).val ∧
      Host.deriveShamirSecret hmac Bytes.zero32.val 1 1 ≠
        .ok (Native.kemAdapterDeriveShamirSecret (Native.hkdf hmac) .initial Bytes.zero32
          1 1).val := by
  decide +kernel

end SwiftAgg
