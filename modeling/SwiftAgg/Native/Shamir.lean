import SwiftAgg.Native.Gf3329
import SwiftAgg.Native.Types

/-!
# Secret sharing of the firmware

`shamir_share` and `shamir_reconstruct` of `shamir.c`. Arrays that the C code
writes through pointers are functions from indices to words, so that what a
call leaves untouched is visible; the random number generator is the sequence
of results of its successive calls, each a status and the two bytes written.
-/

namespace SwiftAgg.Native

/-- `SHAMIR_SECRET_ELEMENTS`. -/
def shamirSecretElements : Nat := 32

/-- `SHAMIR_MAX_SHARES`. -/
def shamirMaxShares : Nat := 255

/-- The result of the `i`-th call `RNG_FUNC(buffer, 2)`: its status and the buffer. -/
abbrev Rng := Nat → Int × UInt8 × UInt8

/-- No call of the generator fails. -/
def Rng.NeverFails (rng : Rng) : Prop := ∀ i, (rng i).1 = 0

/-- An array of `uint16_t` words. -/
abbrev Words := Nat → Nat

/-- Zero `len` words from `base` on. -/
def Words.clear (ws : Words) (base len : Nat) : Words :=
  fun k => if base ≤ k ∧ k < base + len then 0 else ws k

/-- The loop of `generate_random_coefficients` from index `i` on, with `draw` calls made before:
    on a failure the coefficients written so far are cleared and the status is returned. -/
def generateRandomCoefficientsLoop (rng : Rng) (base : Nat) :
    (remaining i draw : Nat) → Words → Int × Words
  | 0, _, _, coeffs => (0, coeffs)
  | remaining + 1, i, draw, coeffs =>
    let (ret, b₀, b₁) := rng draw
    if ret ≠ 0 then (ret, coeffs.clear base i)
    else
      generateRandomCoefficientsLoop rng base remaining (i + 1) (draw + 1)
        (Function.update coeffs (base + i) (Bytes.word16 b₀ b₁ % fieldModulus))

/-- `generate_random_coefficients(&coeffs[base], count)`. -/
def generateRandomCoefficients (rng : Rng) (draw : Nat) (coeffs : Words) (base count : Nat) :
    Int × Words :=
  generateRandomCoefficientsLoop rng base count 0 draw coeffs

/-- The first loop of `shamir_share`: the coefficients of the elements from `elem` on. A failing
    generator clears the coefficients of this element and of all previous ones. -/
def shamirCoefficientsLoop (rng : Rng) (secret : Words) (t : Nat) :
    (remaining elem draw : Nat) → Words → Int × Words
  | 0, _, _, coeffs => (0, coeffs)
  | remaining + 1, elem, draw, coeffs =>
    let coeffs₁ := Function.update coeffs (elem * t) (secret elem)
    -- with a threshold of 1 the generator is not called
    if 1 < t then
      let (ret, coeffs₂) := generateRandomCoefficients rng draw coeffs₁ (elem * t + 1) (t - 1)
      if ret ≠ 0 then
        (ret, (List.range elem).foldl (fun ws prevElem => ws.clear (prevElem * t) t)
          (coeffs₂.clear (elem * t) t))
      else shamirCoefficientsLoop rng secret t remaining (elem + 1) (draw + (t - 1)) coeffs₂
    else shamirCoefficientsLoop rng secret t remaining (elem + 1) draw coeffs₁

/-- The arrays `shamir_share` writes. -/
structure ShareBuffers where
  shareX : Words
  shareY : Nat → Words
  workspace : Words

/-- `shamir_share` (its pointers are not `NULL`). -/
def shamirShare (rng : Rng) (secret : Words) (secretElements n t : Nat) (bufs : ShareBuffers) :
    Int × ShareBuffers :=
  if n < t ∨ t = 0 ∨ shamirMaxShares < n then (-1, bufs)
  else if shamirSecretElements < secretElements then (-1, bufs)
  else
    let (ret, coeffs) := shamirCoefficientsLoop rng secret t secretElements 0 0 bufs.workspace
    -- on a failure no share is written
    if ret ≠ 0 then (ret, { bufs with workspace := coeffs })
    else
      let shareX : Words := fun i => if i < n then i + 1 else bufs.shareX i
      (0, { shareX := shareX
            shareY := fun i elem =>
              if i < n ∧ elem < secretElements then
                gf3329EvaluatePolynomial (fun j => coeffs (elem * t + j)) t (shareX i)
              else bufs.shareY i elem
            workspace := coeffs.clear 0 (t * secretElements) })

/-- Parameters that the first check lets through. -/
theorem not_refused {n t : Nat} (ht : 0 < t) (htn : t ≤ n) (hn : n ≤ 255) :
    ¬(n < t ∨ t = 0 ∨ shamirMaxShares < n) := by
  rw [shamirMaxShares]
  omega

/-- The validation of `shamir_reconstruct`: indices non-zero and pairwise distinct. -/
def shareIndicesValid (shareX : Words) (k : Nat) : Bool :=
  (List.range k).all fun i =>
    shareX i != 0 && (List.range k).all fun j => !(i < j && shareX i == shareX j)

/-- The inner loop of `shamir_reconstruct`: numerator and denominator of the weight of share `i`. -/
def lagrangeProducts (shareX : Words) (i : Nat) (js : List Nat) : Nat × Nat :=
  js.foldl (fun (num, den) j =>
    if i = j then (num, den)
    else (gf3329Mul num (gf3329Sub 0 (shareX j)), gf3329Mul den (gf3329Sub (shareX i) (shareX j))))
    (1, 1)

/-- The weight of share `i` as `shamir_reconstruct` computes it. -/
def lagrangeWeight (shareX : Words) (k i : Nat) : Nat :=
  let (num, den) := lagrangeProducts shareX i (List.range k)
  gf3329Mul num (gf3329Inv den)

/-- The accumulation of one element in `shamir_reconstruct`; `secret[elem]` is assigned by share
    `0` and added to by the others. -/
def reconstructElement (shareX : Words) (y : Words) (k : Nat) (initial : Nat) : Nat :=
  (List.range k).foldl (fun acc i =>
    let term := gf3329Mul (y i) (lagrangeWeight shareX k i)
    -- the first share assigns, whatever the caller had in `secret`
    if i = 0 then term else gf3329Add acc term) initial

/-- `shamir_reconstruct` (its pointers are not `NULL`; the workspace is not used). -/
def shamirReconstruct (secret shareX : Words) (shareY : Nat → Words) (k : Nat) : Int × Words :=
  if k < 2 ∨ shamirMaxShares < k then (-1, secret)
  else if !shareIndicesValid shareX k then (-1, secret)
  else
    (0, fun elem =>
      if elem < shamirSecretElements then
        reconstructElement shareX (fun i => shareY i elem) k (secret elem)
      else secret elem)

/-! ## The byte interface -/

/-- `SHAMIR_SECRET_BYTES`, and `SHAMIR_SHARE_VALUE_BYTES` of the protocol. -/
def shamirSecretBytes : Nat := 64

/-- A byte buffer seen through a `uint16_t` pointer on a little-endian target. -/
def Memory.asWords (mem : Memory) : Words := fun i => Bytes.word16 (mem (2 * i)) (mem (2 * i + 1))

/-- The bytes of a `uint16_t` array on a little-endian target. -/
def Words.asBytes (ws : Words) : Memory := fun k =>
  if k % 2 = 0 then UInt8.ofNat (ws (k / 2)) else UInt8.ofNat (ws (k / 2) / 2 ^ 8)

/-- `shamir_share_bytes` (its pointers are not `NULL`): status, `share_x` and the rows of
    `share_y`. The byte arrays are handed to `shamir_share` as `uint16_t` arrays; each row is its
    own storage. -/
def shamirShareBytes (rng : Rng) (secret : Memory) (secretLen n t : Nat) (shareX : Memory)
    (shareY : Nat → Memory) (workspace : Words) : Int × Memory × (Nat → Memory) :=
  if secretLen ≠ shamirSecretBytes then (-1, shareX, shareY)
  else if n < t ∨ t = 0 ∨ shamirMaxShares < n then (-1, shareX, shareY)
  else
    let bufs : ShareBuffers :=
      { shareX := shareX.asWords
        shareY := fun i => (shareY i).asWords
        workspace := workspace }
    let (ret, shared) := shamirShare rng secret.asWords shamirSecretElements n t bufs
    (ret, shared.shareX.asBytes, fun i => (shared.shareY i).asBytes)

end SwiftAgg.Native
