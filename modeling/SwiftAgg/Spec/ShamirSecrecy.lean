import Mathlib.Data.List.GetD
import SwiftAgg.ForStd.Interpolation
import SwiftAgg.ForStd.Sampling
import SwiftAgg.Spec.ShamirShareCorrect

/-!
# What fewer shares than the threshold tell

Given a secret and `t - 1` shares, exactly one polynomial fits, so the random
words have to reduce to its coefficients. But `65536 = 19 * 3329 + 2285`: a
coefficient below 2285 comes from twenty words, any other from nineteen. So two
secrets are equally likely, given the shares, exactly if as many of the
coefficients that they would need are below 2285.

## Key results

- `givesShares_iff`: the shares determine the polynomial
- `rngStrings_eq`: and with it the words modulo 3329
- `ncard_rngStrings`: the number of random strings that lead to given shares
- `rngStrings_nonempty`: no secret is ruled out
- `shamirShare_secrecy_iff`: which secrets are led to equally often
-/

namespace SwiftAgg.Native

open Polynomial

/-- A generator that hands out a byte string, two bytes a call. -/
def Rng.ofBytes (b : Bytes) : Rng := fun i => (0, b.getD (2 * i) 0, b.getD (2 * i + 1) 0)

theorem Rng.neverFails_ofBytes (b : Bytes) : (Rng.ofBytes b).NeverFails := fun _ => rfl

/-- With these random bytes `shamir_share` succeeds for the secret element `s`, and the shares with
    an index in `X` are the given ones. -/
def GivesShares (bufs : ShareBuffers) (n t : Nat) (X : Finset Nat) (v : Nat → Nat) (s : Nat)
    (b : Bytes) : Prop :=
  (shamirShare (.ofBytes b) (fun _ => s) 1 n t bufs).1 = 0 ∧
    ∀ x ∈ X, ∃ i < n, (shamirShare (.ofBytes b) (fun _ => s) 1 n t bufs).2.shareX i = x ∧
      (shamirShare (.ofBytes b) (fun _ => s) 1 n t bufs).2.shareY i 0 = v x

/-- The random strings with which `s` leads to the given shares. -/
def rngStrings (bufs : ShareBuffers) (n t : Nat) (X : Finset Nat) (v : Nat → Nat) (s : Nat) :
    Set Bytes :=
  {b | b.length = 2 * (t - 1) ∧ GivesShares bufs n t X v s b}

/-! ## The polynomial of a secret and some shares -/

/-- The polynomial of least degree through `(0, s)` and the shares. -/
noncomputable def sharingPolynomial (X : Finset Nat) (v : Nat → Nat) (s : Nat) : Gf[X] :=
  Lagrange.interpolate (insert 0 X) (fun x : Nat => (x : Gf))
    fun x => if x = 0 then (s : Gf) else v x

/-- Its coefficients above the constant one. -/
noncomputable def drawnCoefficients (t : Nat) (X : Finset Nat) (v : Nat → Nat) (s : Nat) :
    List Nat :=
  (List.range (t - 1)).map fun j => ((sharingPolynomial X v s).coeff (j + 1)).val

/-- How many of these are below 2285, the remainder of `2 ^ 16`. -/
noncomputable def favoured (t : Nat) (X : Finset Nat) (v : Nat → Nat) (s : Nat) : Nat :=
  (drawnCoefficients t X v s).countP (· < 2 ^ 16 % 3329)

@[simp] theorem length_drawnCoefficients (t : Nat) (X : Finset Nat) (v : Nat → Nat) (s : Nat) :
    (drawnCoefficients t X v s).length = t - 1 := by
  simp [drawnCoefficients]

theorem drawnCoefficients_lt {t : Nat} {X : Finset Nat} {v : Nat → Nat} {s a : Nat}
    (ha : a ∈ drawnCoefficients t X v s) : a < 3329 := by
  obtain ⟨j, -, rfl⟩ := List.mem_map.mp ha
  exact ZMod.val_lt _

/-- Two canonical numbers with the same residue are equal. -/
theorem natCast_gf_inj {a b : Nat} (ha : a < 3329) (hb : b < 3329) :
    (a : Gf) = (b : Gf) ↔ a = b := by
  rw [ZMod.natCast_eq_natCast_iff', Nat.mod_eq_of_lt ha, Nat.mod_eq_of_lt hb]

section

variable {n t : Nat} {X : Finset Nat} {v : Nat → Nat} {s : Nat} {b : Bytes}

/-- The shares are the values of the polynomial that the words give. -/
theorem givesShares_iff_eval (ht : 0 < t) (htn : t ≤ n) (hn : n ≤ 16) (hX : X ⊆ Finset.Icc 1 n)
    (bufs : ShareBuffers) :
    GivesShares bufs n t X v s b ↔
      ∀ x ∈ X, gf3329EvaluatePolynomial (shareCoefficient (.ofBytes b) (fun _ => s) t 0) t x =
        v x := by
  obtain ⟨hret, hshareX, hshareY⟩ := shamirShare_eq (Rng.neverFails_ofBytes b) (fun _ => s) ht htn
    (by omega) (show 1 ≤ 32 by decide) bufs
  rw [GivesShares]
  refine (and_iff_right hret).trans (forall₂_congr fun x hx => ?_)
  obtain ⟨hpos, hle⟩ := Finset.mem_Icc.mp (hX hx)
  -- the share with index `x` is in row `x - 1`
  constructor
  · rintro ⟨i, hi, rfl, hvalue⟩
    rw [hshareX i hi, ← hshareY i hi 0 Nat.one_pos, hvalue, hshareX i hi]
  · intro hvalue
    have hrow : x - 1 < n := by omega
    have hindex : x - 1 + 1 = x := by omega
    refine ⟨x - 1, hrow, ?_, ?_⟩
    · rw [hshareX _ hrow, hindex]
    · rw [hshareY _ hrow 0 Nat.one_pos, hindex, hvalue]

theorem injOn_cast (hn : n ≤ 16) (hX : X ⊆ Finset.Icc 1 n) :
    Set.InjOn (fun x : Nat => (x : Gf)) ((insert 0 X : Finset Nat) : Set Nat) := by
  have hlt : ∀ x ∈ insert 0 X, x < 3329 := by
    intro x hx
    rcases Finset.mem_insert.mp hx with rfl | hx
    · decide
    · have hle := (Finset.mem_Icc.mp (hX hx)).2
      omega
  intro x hx y hy h
  exact (natCast_gf_inj (hlt x hx) (hlt y hy)).mp h

theorem card_insert_zero (ht : 0 < t) (hX : X ⊆ Finset.Icc 1 n) (hcard : X.card = t - 1) :
    (insert 0 X).card = t := by
  have hzero : 0 ∉ X := fun h => absurd (Finset.mem_Icc.mp (hX h)).1 (by omega)
  rw [Finset.card_insert_of_notMem hzero, hcard]
  omega

/-- The words have to give the one polynomial that fits. -/
theorem givesShares_iff (ht : 0 < t) (htn : t ≤ n) (hn : n ≤ 16) (hX : X ⊆ Finset.Icc 1 n)
    (hcard : X.card = t - 1) (hv : ∀ x ∈ X, v x < 3329) (hs : s < 3329) (bufs : ShareBuffers) :
    GivesShares bufs n t X v s b ↔
      ofCoeffs t (fun j => (shareCoefficient (.ofBytes b) (fun _ => s) t 0 j : Gf)) =
        sharingPolynomial X v s := by
  have hcoeff : ∀ j < t, shareCoefficient (.ofBytes b) (fun _ => s) t 0 j < 3329 :=
    fun j _ => shareCoefficient_lt hs j
  have hdegree := degree_ofCoeffs_lt t
    (fun j => (shareCoefficient (.ofBytes b) (fun _ => s) t 0 j : Gf))
  rw [givesShares_iff_eval ht htn hn hX, sharingPolynomial,
    ← Lagrange.eq_interpolate_iff _ (injOn_cast hn hX), card_insert_zero ht hX hcard,
    and_iff_right hdegree, Finset.forall_mem_insert]
  -- the value at zero is the secret
  have hsecret : (ofCoeffs t (fun j =>
      (shareCoefficient (.ofBytes b) (fun _ => s) t 0 j : Gf))).eval ((0 : Nat) : Gf) =
        if 0 = 0 then (s : Gf) else v 0 := by
    rw [Nat.cast_zero, eval_zero_ofCoeffs ht]
    rfl
  refine Iff.trans ?_ (and_iff_right hsecret).symm
  -- at the other nodes Horner's rule is exact, since the indices are small
  refine forall₂_congr fun x hx => ?_
  obtain ⟨hpos, hle⟩ := Finset.mem_Icc.mp (hX hx)
  have hx46 : x ≤ 46 := by omega
  rw [if_neg (by omega), eval_ofCoeffs, ← gf3329EvaluatePolynomial_cast hx46 hcoeff,
    natCast_gf_inj (gf3329EvaluatePolynomial_lt hx46 hcoeff) (hv x hx)]

/-- The words of the string, reduced, are the coefficients drawn for the secret. -/
theorem rngCoefficient_ofBytes (heven : b.length % 2 = 0) (j : Nat) :
    rngCoefficient (.ofBytes b) j = (Bytes.u16sLE b).getD j 0 % 3329 := by
  rw [Bytes.getD_u16sLE heven]
  rfl

theorem sharingPolynomial_degree_lt (ht : 0 < t) (hn : n ≤ 16) (hX : X ⊆ Finset.Icc 1 n)
    (hcard : X.card = t - 1) : (sharingPolynomial X v s).degree < t := by
  have hdegree := Lagrange.degree_interpolate_lt
    (fun x : Nat => if x = 0 then (s : Gf) else v x) (injOn_cast hn hX)
  rwa [card_insert_zero ht hX hcard] at hdegree

theorem sharingPolynomial_coeff_zero (hn : n ≤ 16) (hX : X ⊆ Finset.Icc 1 n) :
    (sharingPolynomial X v s).coeff 0 = s := by
  have heval := Lagrange.eval_interpolate_at_node
    (fun x : Nat => if x = 0 then (s : Gf) else v x) (injOn_cast hn hX)
    (Finset.mem_insert_self 0 X)
  rw [Nat.cast_zero, if_pos rfl] at heval
  rw [coeff_zero_eq_eval_zero]
  exact heval

/-- The polynomial that the words give is the one that fits if its coefficients above the constant
    one are. -/
theorem ofCoeffs_eq_sharingPolynomial_iff (ht : 0 < t) (hn : n ≤ 16) (hX : X ⊆ Finset.Icc 1 n)
    (hcard : X.card = t - 1) (hb : b.length = 2 * (t - 1)) :
    ofCoeffs t (fun j => (shareCoefficient (.ofBytes b) (fun _ => s) t 0 j : Gf)) =
        sharingPolynomial X v s ↔
      (Bytes.u16sLE b).map (· % 3329) = drawnCoefficients t X v s := by
  have heven : b.length % 2 = 0 := by omega
  have hlen : (Bytes.u16sLE b).length = t - 1 := by
    rw [Bytes.length_u16sLE]
    omega
  -- one coefficient and the word drawn for it
  have hword : ∀ j, j < t - 1 →
      ((shareCoefficient (.ofBytes b) (fun _ => s) t 0 (j + 1) : Gf) =
          (sharingPolynomial X v s).coeff (j + 1) ↔
        (Bytes.u16sLE b).getD j 0 % 3329 = ((sharingPolynomial X v s).coeff (j + 1)).val) := by
    intro j hj
    have hdraw : shareCoefficient (.ofBytes b) (fun _ => s) t 0 (j + 1) =
        (Bytes.u16sLE b).getD j 0 % 3329 := by
      rw [shareCoefficient, if_neg (Nat.succ_ne_zero j), Nat.zero_mul, Nat.zero_add,
        Nat.add_sub_cancel, rngCoefficient_ofBytes heven]
    rw [hdraw, ← natCast_gf_inj (Nat.mod_lt _ (by decide)) (ZMod.val_lt _), ZMod.natCast_val,
      ZMod.cast_id]
  rw [ofCoeffs_eq_iff (sharingPolynomial_degree_lt ht hn hX hcard)]
  constructor
  · intro h
    apply List.ext_getElem
    · simp [hlen]
    · intro j hj hj'
      rw [length_drawnCoefficients] at hj'
      have hj₁ : j < (Bytes.u16sLE b).length := by omega
      have hresidue := (hword j hj').mp (h (j + 1) (by omega))
      rw [List.getD_eq_getElem _ _ hj₁] at hresidue
      simpa [drawnCoefficients] using hresidue
  · intro h j hj
    cases j with
    -- the constant coefficient is not drawn
    | zero => exact (sharingPolynomial_coeff_zero hn hX).symm
    | succ j =>
      have hj₁ : j < (Bytes.u16sLE b).length := by omega
      refine (hword j (by omega)).mpr ?_
      have hresidue := List.getElem_of_eq h (by simpa using hj₁)
      rw [List.getD_eq_getElem _ _ hj₁]
      simpa [drawnCoefficients] using hresidue

/-- The strings that lead to given shares are those with the right words modulo 3329. -/
theorem rngStrings_eq (ht : 0 < t) (htn : t ≤ n) (hn : n ≤ 16) (hX : X ⊆ Finset.Icc 1 n)
    (hcard : X.card = t - 1) (hv : ∀ x ∈ X, v x < 3329) (hs : s < 3329) (bufs : ShareBuffers) :
    rngStrings bufs n t X v s = {b | b.length % 2 = 0 ∧
      (Bytes.u16sLE b).map (· % 3329) = drawnCoefficients t X v s} := by
  ext b
  constructor
  · rintro ⟨hlen, hshares⟩
    refine ⟨by omega, ?_⟩
    rwa [givesShares_iff ht htn hn hX hcard hv hs,
      ofCoeffs_eq_sharingPolynomial_iff ht hn hX hcard hlen] at hshares
  · rintro ⟨heven, hwords⟩
    have hlen : b.length = 2 * (t - 1) := by
      have hcongr := congrArg List.length hwords
      rw [List.length_map, Bytes.length_u16sLE, length_drawnCoefficients] at hcongr
      omega
    refine ⟨hlen, ?_⟩
    rwa [givesShares_iff ht htn hn hX hcard hv hs,
      ofCoeffs_eq_sharingPolynomial_iff ht hn hX hcard hlen]

/-- Twenty words for every favoured coefficient, nineteen for every other. -/
theorem ncard_rngStrings (ht : 0 < t) (htn : t ≤ n) (hn : n ≤ 16) (hX : X ⊆ Finset.Icc 1 n)
    (hcard : X.card = t - 1) (hv : ∀ x ∈ X, v x < 3329) (hs : s < 3329) (bufs : ShareBuffers) :
    (rngStrings bufs n t X v s).ncard = Sampling.biasedCount 19 (t - 1) (favoured t X v s) := by
  rw [rngStrings_eq ht htn hn hX hcard hv hs,
    Sampling.ncard_reduced_bytes fun a ha => drawnCoefficients_lt ha, length_drawnCoefficients]
  rfl

/-- Fewer shares than the threshold rule out no secret. -/
theorem rngStrings_nonempty (ht : 0 < t) (htn : t ≤ n) (hn : n ≤ 16) (hX : X ⊆ Finset.Icc 1 n)
    (hcard : X.card = t - 1) (hv : ∀ x ∈ X, v x < 3329) (hs : s < 3329) (bufs : ShareBuffers) :
    (rngStrings bufs n t X v s).Nonempty := by
  apply Set.nonempty_of_ncard_ne_zero
  rw [ncard_rngStrings ht htn hn hX hcard hv hs, Sampling.biasedCount]
  positivity

theorem favoured_le : favoured t X v s ≤ t - 1 := by
  rw [favoured, ← length_drawnCoefficients t X v s]
  exact List.countP_le_length

end

/-- Given `t - 1` shares, two secrets are led to by equally many random strings exactly if as many
    coefficients above the constant one are below 2285 in the polynomials that fit them. -/
theorem shamirShare_secrecy_iff {t n : Nat} (ht : 2 ≤ t) (htn : t ≤ n) (hn : n ≤ 16)
    {X : Finset Nat} (hX : X ⊆ Finset.Icc 1 n) (hcard : X.card = t - 1) {v : Nat → Nat}
    (hv : ∀ x ∈ X, v x < 3329) {s s' : Nat} (hs : s < 3329) (hs' : s' < 3329)
    (bufs : ShareBuffers) :
    (rngStrings bufs n t X v s).ncard = (rngStrings bufs n t X v s').ncard ↔
      favoured t X v s = favoured t X v s' := by
  rw [ncard_rngStrings (by omega) htn hn hX hcard hv hs,
    ncard_rngStrings (by omega) htn hn hX hcard hv hs']
  exact Sampling.biasedCount_inj (by decide) favoured_le favoured_le

/-! ## A threshold of two -/

/-- Through the secret and the first share goes a line. -/
theorem sharingPolynomial_line (v : Nat → Nat) (s : Nat) :
    sharingPolynomial {1} v s = C ((v 1 : Gf) - s) * Polynomial.X + C (s : Gf) := by
  have hinj := injOn_cast (show 1 ≤ 16 by decide) (Finset.Subset.refl (Finset.Icc 1 1))
  refine (Lagrange.eq_interpolate_of_eval_eq _ hinj ?_ ?_).symm
  · exact degree_linear_lt
  · intro x hx
    rcases Finset.mem_insert.mp hx with rfl | hx
    · simp
    · obtain rfl := Finset.mem_singleton.mp hx
      simp

theorem drawnCoefficients_line (v : Nat → Nat) (s : Nat) :
    drawnCoefficients 2 {1} v s = [((v 1 : Gf) - s).val] := by
  simp [drawnCoefficients, sharingPolynomial_line]

/-- With a threshold of two and a first share of zero, the secrets 0 and 1. -/
theorem shamirShare_secrecy_iff_zeroShare :
    (rngStrings ⟨fun _ => 0, fun _ _ => 0, fun _ => 0⟩ 2 2 {1} (fun _ => 0) 0).ncard =
        (rngStrings ⟨fun _ => 0, fun _ _ => 0, fun _ => 0⟩ 2 2 {1} (fun _ => 0) 1).ncard ↔
      favoured 2 {1} (fun _ => 0) 0 = favoured 2 {1} (fun _ => 0) 1 :=
  shamirShare_secrecy_iff (by decide) (by decide) (by decide) (by decide) (by decide)
    (fun _ _ => by decide) (by decide) (by decide) _

/-- A first share of zero comes from the secret 0 in twenty ways, and from 1 in nineteen. -/
theorem zeroShare_not_secret :
    (rngStrings ⟨fun _ => 0, fun _ _ => 0, fun _ => 0⟩ 2 2 {1} (fun _ => 0) 0).ncard ≠
      (rngStrings ⟨fun _ => 0, fun _ _ => 0, fun _ => 0⟩ 2 2 {1} (fun _ => 0) 1).ncard := by
  rw [ncard_rngStrings (by decide) (by decide) (by decide) (by decide) (by decide)
      (fun _ _ => by decide) (by decide), ncard_rngStrings (by decide) (by decide) (by decide)
      (by decide) (by decide) (fun _ _ => by decide) (by decide), favoured, favoured,
    drawnCoefficients_line, drawnCoefficients_line]
  decide

end SwiftAgg.Native
