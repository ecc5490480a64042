import SwiftAgg.Host.ShamirRecovery
import SwiftAgg.ForStd.Except
import SwiftAgg.ForStd.Interpolation
import SwiftAgg.Spec.Field
import Mathlib.Data.List.GetD

/-!
# Reconstruction on the host is interpolation at zero

The loops of `reconstruct_secret` accumulate residues, so their values are read
off in `ZMod 3329`: the inner loop is a pair of products over the other nodes,
the outer loop is the sum of the share values with the interpolation weights.

## Key results

- `lagrangeSum_cast`: the outer loop is the weighted sum at zero
- `Reconstructible.reconstructSecret_eq_lagrangeSum`: on accepted shares the loop is all there is
- `reconstructSecret_eq`: shares of a polynomial of small degree give its value at zero
-/

open Finset

namespace SwiftAgg.Host

/-- The residue of the index of share `j`. -/
def node (shares : List (Int × Int)) (j : Nat) : Gf := ((shares.getD j (0, 0)).1 : Gf)

/-- The residue of the value of share `j`. -/
def value (shares : List (Int × Int)) (j : Nat) : Gf := ((shares.getD j (0, 0)).2 : Gf)

/-- Python's `pow(a, p - 2, p)` inverts. -/
theorem modInv_cast (a : Int) : ((modInv a : Int) : Gf) = (a : Gf)⁻¹ := by
  rw [modInv, fieldModulus, Gf.cast_emod, Int.cast_pow]
  exact ZMod.pow_sub_two_eq_inv (by norm_num) (a : Gf)

/-! ## The loops -/

/-- The inner loop over the first `n` shares multiplies up the factors of the indices other
    than `i`. -/
private theorem lagrangeProducts_fold (shares : List (Int × Int)) (i : Nat) (xi : Int) (n : Nat) :
    let r := (List.range n).foldl (fun (acc : Int × Int) j =>
      if i = j then acc
      else (acc.1 * -(shares.getD j (0, 0)).1 % fieldModulus,
        acc.2 * ((xi - (shares.getD j (0, 0)).1) % fieldModulus) % fieldModulus)) (1, 1)
    (r.1 : Gf) = ∏ j ∈ (range n).erase i, -node shares j ∧
      (r.2 : Gf) = ∏ j ∈ (range n).erase i, ((xi : Gf) - node shares j) := by
  induction n with
  | zero => simp
  | succ n ih =>
    simp only [List.range_succ, List.foldl_append, List.foldl_cons, List.foldl_nil]
    rw [range_add_one]
    -- the factor of the share itself is left out
    by_cases hin : i = n
    · subst hin
      rw [if_pos rfl, erase_insert notMem_range_self]
      rw [erase_eq_of_notMem notMem_range_self] at ih
      exact ih
    · have hnm : n ∉ (range n).erase i := fun h => notMem_range_self (mem_of_mem_erase h)
      rw [if_neg hin, erase_insert_of_ne (Ne.symm hin), prod_insert hnm, prod_insert hnm,
        ← ih.1, ← ih.2]
      simp only [fieldModulus, Gf.cast_emod, node]
      push_cast
      constructor <;> rw [mul_comm]
      rw [Gf.cast_emod, Int.cast_sub]

private theorem lagrangeProducts_cast (shares : List (Int × Int)) (i : Nat) (xi : Int) :
    ((lagrangeProducts shares i xi).1 : Gf) = ∏ j ∈ (range shares.length).erase i, -node shares j ∧
      ((lagrangeProducts shares i xi).2 : Gf) =
        ∏ j ∈ (range shares.length).erase i, ((xi : Gf) - node shares j) := by
  rw [lagrangeProducts, List.zipIdx_eq_map_range shares (0, 0), List.foldl_map]
  exact lagrangeProducts_fold shares i xi shares.length

/-- The outer loop adds up the share values with the interpolation weights at zero. -/
theorem lagrangeSum_cast (shares : List (Int × Int)) :
    ((lagrangeSum shares : Int) : Gf) = ∑ i ∈ range shares.length,
      value shares i * Lagrange.weightAtZero (range shares.length) (node shares) i := by
  rw [lagrangeSum, List.zipIdx_eq_map_range shares (0, 0), List.foldl_map]
  -- the same sum over the first `n` shares, the weights being those of the whole list
  have key : ∀ n, (((List.range n).foldl (fun (secret : Int) i =>
      (secret + (shares.getD i (0, 0)).2 *
        ((lagrangeProducts shares i (shares.getD i (0, 0)).1).1 *
          modInv (lagrangeProducts shares i (shares.getD i (0, 0)).1).2 % fieldModulus)) %
        fieldModulus) 0 : Int) : Gf) = ∑ i ∈ range n,
          value shares i * Lagrange.weightAtZero (range shares.length) (node shares) i := by
    intro n
    induction n with
    | zero => simp
    | succ n ih =>
      obtain ⟨hnum, hden⟩ := lagrangeProducts_cast shares n (shares.getD n (0, 0)).1
      rw [List.range_succ, List.foldl_append, List.foldl_cons, List.foldl_nil, sum_range_succ, ← ih,
        fieldModulus, Gf.cast_emod, Int.cast_add, Int.cast_mul, Gf.cast_emod, Int.cast_mul,
        modInv_cast, hnum, hden]
      rfl
  exact key shares.length

private theorem lagrangeSum_canonical (shares : List (Int × Int)) :
    0 ≤ lagrangeSum shares ∧ lagrangeSum shares < 3329 := by
  unfold lagrangeSum
  induction shares.zipIdx using List.reverseRecOn with
  | nil => simp
  | append_singleton l p _ =>
    rw [List.foldl_append, List.foldl_cons, List.foldl_nil]
    exact ⟨Int.emod_nonneg _ (by decide), Int.emod_lt_of_pos _ (by decide)⟩

/-! ## The function -/

/-- Shares that `reconstruct_secret` accepts, with indices that are distinct in the field. -/
structure Reconstructible (shares : List (Int × Int)) : Prop where
  enough : 2 ≤ shares.length
  indices : ∀ s ∈ shares, 0 < s.1 ∧ s.1 < 3329
  distinct : (shares.map Prod.fst).Nodup

namespace Reconstructible

variable {shares : List (Int × Int)}

theorem index (h : Reconstructible shares) {i : Nat} (hi : i < shares.length) :
    0 < (shares.getD i (0, 0)).1 ∧ (shares.getD i (0, 0)).1 < 3329 := by
  rw [List.getD_eq_getElem _ _ hi]
  exact h.indices _ (List.getElem_mem hi)

/-- Distinct canonical indices are distinct residues. -/
theorem node_injOn (h : Reconstructible shares) :
    Set.InjOn (node shares) (range shares.length) := by
  intro i hi j hj hij
  rw [mem_coe, mem_range] at hi hj
  have hi' := h.index hi
  have hj' := h.index hj
  have heq := Gf.eq_of_cast_eq ⟨hi'.1.le, hi'.2⟩ ⟨hj'.1.le, hj'.2⟩ hij
  rw [List.getD_eq_getElem _ _ hi, List.getD_eq_getElem _ _ hj] at heq
  have hshare := List.inj_on_of_nodup_map h.distinct (List.getElem_mem hi) (List.getElem_mem hj) heq
  exact (h.distinct.of_map _).getElem_inj_iff.mp hshare

theorem node_ne_zero (h : Reconstructible shares) {i : Nat} (hi : i < shares.length) :
    node shares i ≠ 0 := by
  have hi' := h.index hi
  intro hzero
  rw [node, Gf.cast_eq_zero_iff] at hzero
  have hle := Int.le_of_dvd hi'.1 hzero
  omega

/-- None of the checks fails. -/
theorem reconstructSecret_eq_lagrangeSum (h : Reconstructible shares) :
    reconstructSecret shares = .ok (lagrangeSum shares) := by
  have hnz : ¬(shares.any fun s => decide (s.1 = 0)) = true := by
    simp only [List.any_eq_true, decide_eq_true_eq, not_exists, not_and]
    intro s hs h0
    have hpos := (h.indices s hs).1
    omega
  have hdup : ¬(shares.map Prod.fst).dedup.length ≠ shares.length := by
    rw [h.distinct.dedup, List.length_map]
    exact fun h => h rfl
  have hlen := h.enough
  rw [reconstructSecret, if_neg (by omega), if_neg hnz, if_neg hdup]

end Reconstructible

/-- Shares of a polynomial of degree below their number, at pairwise distinct non-zero canonical
    indices, reconstruct its value at zero. -/
theorem reconstructSecret_eq {shares : List (Int × Int)} (hlen : 2 ≤ shares.length)
    (hx : ∀ s ∈ shares, 0 < s.1 ∧ s.1 < 3329) (hnodup : (shares.map Prod.fst).Nodup)
    {P : Polynomial Gf} (hdeg : P.degree < shares.length)
    (hP : ∀ s ∈ shares, (s.2 : Gf) = P.eval (s.1 : Gf)) :
    reconstructSecret shares = .ok ((P.eval 0).val : Int) := by
  have hshares : Reconstructible shares := ⟨hlen, hx, hnodup⟩
  have hsum : ((lagrangeSum shares : Int) : Gf) = P.eval 0 := by
    rw [lagrangeSum_cast, Lagrange.eval_zero_eq_sum hshares.node_injOn (by rwa [card_range])]
    apply sum_congr rfl
    intro i hi
    have hi' := mem_range.mp hi
    rw [value, node, List.getD_eq_getElem _ _ hi', hP _ (List.getElem_mem hi')]
  rw [hshares.reconstructSecret_eq_lagrangeSum,
    Gf.eq_val_of_cast_eq (lagrangeSum_canonical shares) hsum]

end SwiftAgg.Host
