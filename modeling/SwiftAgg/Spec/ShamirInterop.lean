import SwiftAgg.Spec.ShamirShareCorrect
import SwiftAgg.Spec.ReconstructCorrect

/-!
# Shares made by the firmware, reconstructed by the host

A client shares with at most 16 peers, so every share is evaluated at an index
where the firmware's arithmetic is exact. The rows travel as little-endian
16-bit words; the host reads the same residues back and interpolates.

## Key results

- `reconstructSecretBytes_shamirShare`: any large enough selection of rows gives the secret back
-/

namespace SwiftAgg

open Native Host

/-- The wire format of a row of 32 field elements: 64 little-endian bytes. -/
def encodeRow (row : Words) : Bytes := Bytes.packU16LE ((List.range 32).map row)

/-- The host reads element `e` of an encoded row of canonical elements back. -/
private theorem elementShare_encodeRow {row : Words} {e : Nat} (he : e < 32) (x : Int)
    (hrow : row e < 3329) : elementShare e (x, encodeRow row) = .ok (x, (row e : Int)) := by
  have hget : ((List.range 32).map row)[e]? = some (row e) := by simp [he]
  obtain ⟨hlo, hhi⟩ := Bytes.getElem?_packU16LE ((List.range 32).map row) e
  rw [hget, Option.map_some] at hlo hhi
  simp only [elementShare, encodeRow, hlo, hhi]
  rw [Bytes.word16_ofNat (by omega), Host.fieldModulus, Int.emod_eq_of_lt (by omega) (by omega)]

/-- Rows of a polynomial of degree below `t`, taken at pairwise distinct indices `i + 1 ≤ 46`,
    reconstruct its constant coefficient. -/
private theorem reconstructSecret_rows {c : Nat → Nat} {t : Nat} (ht : 0 < t)
    (hc : ∀ j < t, c j < 3329) {sel : List Nat} (hsel : sel.Nodup) (hlt : ∀ i ∈ sel, i < 46)
    (hk : max 2 t ≤ sel.length) :
    reconstructSecret (sel.map fun i : Nat =>
      ((i : Int) + 1, (gf3329EvaluatePolynomial c t (i + 1) : Int))) = .ok (c 0 : Int) := by
  have hdeg : (Polynomial.ofCoeffs t fun j => (c j : Gf)).degree < (sel.length : ℕ) :=
    (Polynomial.degree_ofCoeffs_lt t _).trans_le (by exact_mod_cast (le_max_right 2 t).trans hk)
  have hzero : ((c 0 : Gf)).val = c 0 := ZMod.val_natCast_of_lt (hc 0 ht)
  -- what is left are the conditions of the interpolation
  rw [reconstructSecret_eq (P := Polynomial.ofCoeffs t fun j => (c j : Gf)),
    Polynomial.eval_zero_ofCoeffs ht, hzero]
  · rw [List.length_map]
    exact (le_max_left 2 t).trans hk
  · intro s hs
    obtain ⟨i, hi, rfl⟩ := List.mem_map.mp hs
    have := hlt i hi
    dsimp only
    omega
  · rw [List.map_map]
    exact hsel.map fun i j hij => by simpa using hij
  · rwa [List.length_map]
  · intro s hs
    obtain ⟨i, hi, rfl⟩ := List.mem_map.mp hs
    have hx : i + 1 ≤ 46 := hlt i hi
    dsimp only
    rw [Int.cast_natCast, gf3329EvaluatePolynomial_cast hx hc, Polynomial.eval_ofCoeffs]
    push_cast
    rfl

/-- Shares made by `shamir_share` for at most 16 peers are recovered by
    `reconstruct_secret_bytes`, from any selection of at least `max 2 t` distinct rows. -/
theorem reconstructSecretBytes_shamirShare {rng : Rng} (hrng : rng.NeverFails) {secret : Words}
    (hs : ∀ e < 32, secret e < 3329) {n t : Nat} (ht : 1 ≤ t) (htn : t ≤ n) (hn : n ≤ 16)
    (bufs : ShareBuffers) {sel : List Nat} (hsel : sel.Nodup) (hlt : ∀ i ∈ sel, i < n)
    (hk : max 2 t ≤ sel.length) :
    (shamirShare rng secret 32 n t bufs).1 = 0 ∧
      reconstructSecretBytes (sel.map fun i : Nat =>
        ((i : Int) + 1, encodeRow ((shamirShare rng secret 32 n t bufs).2.shareY i))) =
          .ok (encodeRow secret) := by
  obtain ⟨hret, -, hrows⟩ := shamirShare_eq hrng secret (m := 32) ht htn (by omega) (by omega) bufs
  refine ⟨hret, ?_⟩
  generalize (shamirShare rng secret 32 n t bufs).2.shareY = rows at hrows ⊢
  have hcoeff : ∀ e < 32, ∀ j < t, shareCoefficient rng secret t e j < 3329 :=
    fun e he j _ => shareCoefficient_lt (hs e he) j
  -- every element is reconstructed from the residues its rows encode
  have helem : ∀ e ∈ List.range 32,
      (do reconstructSecret (← (sel.map fun i : Nat => ((i : Int) + 1, encodeRow (rows i))).mapM
        (elementShare e)) : Except PyErr Int) = .ok (secret e : Int) := by
    intro e he
    have he' := List.mem_range.mp he
    have hshares : (sel.map fun i : Nat =>
        ((i : Int) + 1, encodeRow (rows i))).mapM (elementShare e) =
        .ok (sel.map fun i : Nat => ((i : Int) + 1,
          (gf3329EvaluatePolynomial (shareCoefficient rng secret t e) t (i + 1) : Int))) := by
      rw [List.mapM_map]
      apply List.mapM_eq_ok
      intro i hi
      have hi' := hlt i hi
      have hrow := hrows i hi' e he'
      have hbound := gf3329EvaluatePolynomial_lt (x := i + 1) (by omega) (hcoeff e he')
      rw [Function.comp_apply, elementShare_encodeRow he' _ (hrow ▸ hbound), hrow]
    rw [hshares]
    exact reconstructSecret_rows ht (hcoeff e he') hsel (fun i hi => by have := hlt i hi; omega) hk
  -- the first row passes the length check
  have hne : sel ≠ [] := by
    rintro rfl
    simp at hk
  obtain ⟨i₀, rest, rfl⟩ := List.exists_cons_of_ne_nil hne
  have hlen : (encodeRow (rows i₀)).length = 64 := by simp [encodeRow]
  simp only [List.map_cons] at helem
  simp only [reconstructSecretBytes, List.map_cons, hlen, ne_eq, not_true_eq_false, ↓reduceIte]
  rw [List.mapM_eq_ok helem]
  simp [encodeRow, Bytes.packU16LE, List.flatMap_map]

/-- Two of three rows, in reverse order. -/
theorem reconstructSecretBytes_shamirShare_two_of_three :
    reconstructSecretBytes ([2, 0].map fun i : Nat => ((i : Int) + 1,
      encodeRow ((shamirShare (fun _ => (0, 7, 1)) (fun e => 100 * e) 32 3 2
        ⟨fun _ => 0, fun _ _ => 0, fun _ => 0⟩).2.shareY i))) =
      .ok (encodeRow fun e => 100 * e) :=
  (reconstructSecretBytes_shamirShare (n := 3) (t := 2) (fun _ => rfl) (by omega) (by omega)
    (by omega) (by omega) _ (by decide) (by decide) (by decide)).2

end SwiftAgg
