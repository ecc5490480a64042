import Mathlib.LinearAlgebra.Lagrange
import Mathlib.FieldTheory.Finite.Basic

/-!
# Interpolation at zero

Threshold reconstruction evaluates an interpolating polynomial at zero. The
weights are written as two separate products over the other nodes, one for
the numerators `-v j` and one for the denominators `v i - v j`, which is how
implementations accumulate them.

## Key results

- `Lagrange.eval_zero_eq_sum`: a polynomial of degree below the number of nodes is recovered at zero
- `Lagrange.weightAtZero_ne_zero`: no weight of distinct non-zero nodes vanishes
- `Polynomial.ofCoeffs`: the polynomial with given coefficients, its degree and its values
- `Polynomial.ofCoeffs_eq_iff`: a polynomial is given by its coefficients
- `ZMod.pow_sub_two_eq_inv`: Fermat inversion
-/

open Polynomial

namespace Lagrange

variable {F ι : Type*} [Field F] [DecidableEq ι]

/-- The weight of node `i` in the interpolation at zero. -/
noncomputable def weightAtZero (s : Finset ι) (v : ι → F) (i : ι) : F :=
  (∏ j ∈ s.erase i, -v j) * (∏ j ∈ s.erase i, (v i - v j))⁻¹

theorem eval_zero_basis (s : Finset ι) (v : ι → F) (i : ι) :
    (Lagrange.basis s v i).eval 0 = weightAtZero s v i := by
  simp only [Lagrange.basis, basisDivisor, eval_prod, eval_mul, eval_C, eval_sub, eval_X, zero_sub,
    weightAtZero, Finset.prod_mul_distrib, Finset.prod_inv_distrib]
  exact mul_comm _ _

/-- A polynomial of degree below the number of distinct nodes is the weighted
    sum of its values at the nodes when evaluated at zero. -/
theorem eval_zero_eq_sum {s : Finset ι} {v : ι → F} (hv : Set.InjOn v s) {P : F[X]}
    (hP : P.degree < s.card) :
    P.eval 0 = ∑ i ∈ s, P.eval (v i) * weightAtZero s v i := by
  conv_lhs => rw [eq_interpolate hv hP]
  simp only [interpolate_apply, eval_finsetSum, eval_mul, eval_C, eval_zero_basis]

/-- Every value counts: with distinct non-zero nodes no weight vanishes. -/
theorem weightAtZero_ne_zero {s : Finset ι} {v : ι → F} (hv : Set.InjOn v s)
    (h0 : ∀ j ∈ s, v j ≠ 0) {i : ι} (hi : i ∈ s) : weightAtZero s v i ≠ 0 := by
  apply mul_ne_zero
  · rw [Finset.prod_ne_zero_iff]
    intro j hj
    exact neg_ne_zero.mpr (h0 j (Finset.mem_of_mem_erase hj))
  · apply inv_ne_zero
    rw [Finset.prod_ne_zero_iff]
    intro j hj hij
    obtain ⟨hne, hmem⟩ := Finset.mem_erase.mp hj
    exact hne (hv hmem hi (sub_eq_zero.mp hij).symm)

end Lagrange

namespace Polynomial

variable {F : Type*} [CommRing F]

/-- The polynomial of degree below `t` with coefficients `c 0, …, c (t - 1)`. -/
noncomputable def ofCoeffs (t : ℕ) (c : ℕ → F) : F[X] := ∑ i : Fin t, C (c i) * X ^ (i : ℕ)

theorem degree_ofCoeffs_lt (t : ℕ) (c : ℕ → F) : (ofCoeffs t c).degree < t :=
  degree_sum_fin_lt fun i : Fin t => c i

theorem coeff_ofCoeffs (t : ℕ) (c : ℕ → F) (j : ℕ) :
    (ofCoeffs t c).coeff j = if j < t then c j else 0 := by
  have hcoeff : (ofCoeffs t c).coeff j = ∑ i ∈ Finset.range t, if j = i then c i else 0 := by
    simp only [ofCoeffs, finsetSum_coeff, coeff_C_mul_X_pow]
    exact Fin.sum_univ_eq_sum_range (fun i => if j = i then c i else 0) t
  rw [hcoeff, Finset.sum_ite_eq]
  simp only [Finset.mem_range]

/-- A polynomial of degree below `t` is given by its first `t` coefficients. -/
theorem ofCoeffs_eq_iff {t : ℕ} {c : ℕ → F} {P : F[X]} (hP : P.degree < t) :
    ofCoeffs t c = P ↔ ∀ j < t, c j = P.coeff j := by
  constructor
  · rintro rfl j hj
    rw [coeff_ofCoeffs, if_pos hj]
  · intro h
    ext j
    rw [coeff_ofCoeffs]
    split
    · exact h j ‹_›
    · rename_i hj
      have hle : (t : WithBot ℕ) ≤ j := by exact_mod_cast not_lt.mp hj
      exact (coeff_eq_zero_of_degree_lt (hP.trans_le hle)).symm

theorem eval_ofCoeffs (t : ℕ) (c : ℕ → F) (x : F) :
    (ofCoeffs t c).eval x = ∑ i ∈ Finset.range t, c i * x ^ i := by
  simp only [ofCoeffs, eval_finsetSum, eval_mul, eval_C, eval_pow, eval_X]
  exact Fin.sum_univ_eq_sum_range (fun i => c i * x ^ i) t

/-- The value at zero is the constant coefficient. -/
theorem eval_zero_ofCoeffs {t : ℕ} (ht : 0 < t) (c : ℕ → F) : (ofCoeffs t c).eval 0 = c 0 := by
  rw [eval_ofCoeffs, Finset.sum_eq_single_of_mem 0 (Finset.mem_range.mpr ht)]
  · simp
  · intro i _ hi
    simp [hi]

end Polynomial

namespace ZMod

/-- Fermat inversion: raising to the power `p - 2` inverts (and sends `0` to `0` for `p > 2`). -/
theorem pow_sub_two_eq_inv {p : ℕ} [Fact p.Prime] (hp : 2 < p) (a : ZMod p) :
    a ^ (p - 2) = a⁻¹ := by
  by_cases ha : a = 0
  · rw [ha, inv_zero, zero_pow (by omega)]
  · apply eq_inv_of_mul_eq_one_left
    rw [← pow_succ, show p - 2 + 1 = p - 1 by omega, pow_card_sub_one_eq_one ha]

end ZMod
