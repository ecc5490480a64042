import SwiftAgg.ForStd.List
import SwiftAgg.Spec.ReconstructCorrect
import Mathlib.Algebra.Polynomial.Degree.SmallDegree

/-!
# Which secret `reconstruct_secret` returns

Shares of an integer polynomial give its value at zero, whichever of them are
used and in which order. And no share is redundant: no interpolation weight
vanishes in the field, so a share value that is wrong modulo 3329 changes the
secret.

## Key results

- `reconstructSecret_exact`: the secret of the shares of a polynomial
- `reconstructSecret_withValue_ne`: a corrupted share is felt
-/

open Finset

namespace SwiftAgg.Host

/-! ## Shares of one polynomial -/

/-- The pairs are shares of the polynomial `P`, enough to determine it. -/
structure SharesOf (P : Polynomial ℤ) (shares : List (Int × Int)) : Prop where
  enough : 2 ≤ shares.length
  indices : ∀ s ∈ shares, 1 ≤ s.1 ∧ s.1 ≤ 3328
  distinct : (shares.map Prod.fst).Nodup
  degree : P.degree < shares.length
  values : ∀ s ∈ shares, s.2 ≡ P.eval s.1 [ZMOD 3329]

/-- The secret of the shares of a polynomial is its value at zero. -/
theorem SharesOf.reconstructSecret_eq {P : Polynomial ℤ} {shares : List (Int × Int)}
    (h : SharesOf P shares) : reconstructSecret shares = .ok (P.eval 0 % 3329) := by
  let PF : Polynomial Gf := P.map (Int.castRingHom Gf)
  have heval : ∀ a : ℤ, PF.eval (a : Gf) = ((P.eval a : ℤ) : Gf) := fun a =>
    Polynomial.eval_intCast_map (Int.castRingHom Gf) P a
  have hdeg : PF.degree < shares.length := (Polynomial.degree_map_le).trans_lt h.degree
  have hvalues : ∀ s ∈ shares, (s.2 : Gf) = PF.eval (s.1 : Gf) := by
    intro s hs
    rw [heval]
    exact (ZMod.intCast_eq_intCast_iff _ _ 3329).mpr (h.values s hs)
  have hindices : ∀ s ∈ shares, 0 < s.1 ∧ s.1 < 3329 := by
    intro s hs
    obtain ⟨h₁, h₂⟩ := h.indices s hs
    omega
  rw [Host.reconstructSecret_eq h.enough hindices h.distinct hdeg hvalues]
  -- the canonical integer of the value at zero
  have hzero : ((P.eval 0 % 3329 : ℤ) : Gf) = PF.eval 0 := by
    rw [Gf.cast_emod, ← heval, Int.cast_zero]
  rw [Gf.eq_val_of_cast_eq (canonical_emod _) hzero]

/-- Reconstruction is exact, and all shares of one polynomial lead to the same secret. -/
theorem reconstructSecret_exact {P : Polynomial ℤ} {shares : List (Int × Int)}
    (h : SharesOf P shares) :
    reconstructSecret shares = .ok (P.eval 0 % 3329) ∧
      (0 ≤ P.eval 0 % 3329 ∧ P.eval 0 % 3329 ≤ 3328) ∧
      ∀ shares', SharesOf P shares' → reconstructSecret shares' = reconstructSecret shares := by
  have hcanon := canonical_emod (P.eval 0)
  refine ⟨h.reconstructSecret_eq, ⟨hcanon.1, ?_⟩, fun shares' h' => ?_⟩
  · exact Int.le_of_lt_add_one hcanon.2
  · rw [h.reconstructSecret_eq, h'.reconstructSecret_eq]

/-- Shares 3 and 1 of `5 + 7 * X`, one value reduced and the other not. -/
theorem reconstructSecret_exact_line :
    reconstructSecret [(3, 26), (1, 3341)] = .ok 5 := by
  have hshares : SharesOf (.C 7 * .X + .C 5) [(3, 26), (1, 3341)] :=
    { enough := by decide
      indices := by decide
      distinct := by decide
      degree := by
        refine Polynomial.degree_linear_le.trans_lt ?_
        exact_mod_cast one_lt_two
      values := by
        simp only [Polynomial.eval_add, Polynomial.eval_mul, Polynomial.eval_C, Polynomial.eval_X]
        decide }
  have hexact := (reconstructSecret_exact hshares).1
  simpa using hexact

/-! ## Corrupted shares -/

/-- The shares with the value of share `i` replaced. -/
def withValue (shares : List (Int × Int)) (i : Nat) (y' : Int) : List (Int × Int) :=
  shares.modify i fun s => (s.1, y')

section

variable (shares : List (Int × Int)) (i : Nat) (y' : Int)

theorem length_withValue : (withValue shares i y').length = shares.length :=
  List.length_modify _ shares i

theorem indices_withValue : (withValue shares i y').map Prod.fst = shares.map Prod.fst := by
  have hkeep : ∀ s : Int × Int, (s.1, y').1 = s.1 := fun _ => rfl
  exact List.map_modify_of_map_eq hkeep i shares

theorem node_withValue : node (withValue shares i y') = node shares := by
  funext j
  have hcolumn := congrArg (fun l => l[j]?) (indices_withValue shares i y')
  simp only [List.getElem?_map] at hcolumn
  simp only [node, List.getD_eq_getElem?_getD, ← Option.getD_map Prod.fst, hcolumn]

theorem value_withValue_self {i : Nat} (hi : i < shares.length) :
    value (withValue shares i y') i = (y' : Gf) := by
  simp [value, withValue, List.getD_eq_getElem?_getD, hi]

theorem value_withValue_of_ne {j : Nat} (hj : j ≠ i) :
    value (withValue shares i y') j = value shares j := by
  simp [value, withValue, List.getD_eq_getElem?_getD, hj.symm]

end

theorem Reconstructible.withValue {shares : List (Int × Int)} (h : Reconstructible shares)
    (i : Nat) (y' : Int) : Reconstructible (withValue shares i y') where
  enough := by
    rw [length_withValue]
    exact h.enough
  indices s hs := by
    -- the indices are those of the shares
    have hmem := List.mem_map_of_mem (f := Prod.fst) hs
    rw [indices_withValue] at hmem
    obtain ⟨t, ht, heq⟩ := List.mem_map.mp hmem
    rw [← heq]
    exact h.indices t ht
  distinct := by
    rw [indices_withValue]
    exact h.distinct

/-- The loop gives different sums if a value is changed modulo 3329. -/
theorem Reconstructible.lagrangeSum_withValue_ne {shares : List (Int × Int)}
    (h : Reconstructible shares) {i : Nat} (hi : i < shares.length) {y' : Int}
    (hy : (y' : Gf) ≠ value shares i) :
    lagrangeSum (Host.withValue shares i y') ≠ lagrangeSum shares := by
  intro heq
  have hmem : i ∈ range shares.length := mem_range.mpr hi
  have hsum := congrArg (Int.cast : Int → Gf) heq
  rw [lagrangeSum_cast, lagrangeSum_cast, length_withValue, node_withValue,
    ← add_sum_erase _ _ hmem, ← add_sum_erase _ _ hmem] at hsum
  -- the terms of the other shares are the same
  have hrest : ∀ j ∈ (range shares.length).erase i,
      value (Host.withValue shares i y') j *
          Lagrange.weightAtZero (range shares.length) (node shares) j =
        value shares j * Lagrange.weightAtZero (range shares.length) (node shares) j := by
    intro j hj
    rw [value_withValue_of_ne shares i y' (ne_of_mem_erase hj)]
  rw [sum_congr rfl hrest, value_withValue_self shares y' hi] at hsum
  have hweight := Lagrange.weightAtZero_ne_zero h.node_injOn
    (fun j hj => h.node_ne_zero (mem_range.mp hj)) hmem
  exact hy (mul_right_cancel₀ hweight (add_right_cancel hsum))

/-- Every corrupted share is felt: with any one value changed modulo 3329 the secret is another
    one. -/
theorem reconstructSecret_withValue_ne {shares : List (Int × Int)} (hlen : 2 ≤ shares.length)
    (hx : ∀ s ∈ shares, 1 ≤ s.1 ∧ s.1 ≤ 255) (hnodup : (shares.map Prod.fst).Nodup) {i : Nat}
    (hi : i < shares.length) {y' : Int} (hy : ¬y' ≡ shares[i].2 [ZMOD 3329]) :
    ∃ secret secret', reconstructSecret shares = .ok secret ∧
      reconstructSecret (withValue shares i y') = .ok secret' ∧ secret' ≠ secret := by
  have hshares : Reconstructible shares :=
    { enough := hlen
      indices := by
        intro s hs
        obtain ⟨h₁, h₂⟩ := hx s hs
        omega
      distinct := hnodup }
  refine ⟨_, _, hshares.reconstructSecret_eq_lagrangeSum,
    (hshares.withValue i y').reconstructSecret_eq_lagrangeSum, ?_⟩
  apply hshares.lagrangeSum_withValue_ne hi
  rw [value, List.getD_eq_getElem _ _ hi]
  exact fun heq => hy ((ZMod.intCast_eq_intCast_iff _ _ 3329).mp heq)

/-- Shares 3 and 1 of `5 + 7 * X`, the second value off by one. -/
theorem reconstructSecret_withValue_ne_line :
    ∃ secret secret', reconstructSecret [(3, 26), (1, 12)] = .ok secret ∧
      reconstructSecret (withValue [(3, 26), (1, 12)] 1 13) = .ok secret' ∧ secret' ≠ secret :=
  reconstructSecret_withValue_ne (by decide) (by decide) (by decide) (by decide) (by decide)

end SwiftAgg.Host
