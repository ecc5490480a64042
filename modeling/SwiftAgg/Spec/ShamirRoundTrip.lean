import SwiftAgg.Spec.ShamirShareCorrect
import Mathlib.Data.List.Perm.Subperm
import Mathlib.Data.List.GetD

/-!
# The firmware's own reconstruction

`shamir_reconstruct` multiplies residues near 3329: already the second factor
`3329 - x` of a numerator leaves the range on which `barrett_reduce` is exact,
and the 32-bit product inside it wraps. The weights that come out are not the
interpolation weights, so the round trip through `shamir_share` and
`shamir_reconstruct` is wrong for every number of shares from two on.

The failing runs share the constant polynomial one. Below 22 shares the wrong
weights are computed; from 22 shares on there is an order of the shares in
which every running numerator reaches zero, so that all weights vanish and
every secret is reconstructed as zero.

## Key results

- `lagrangeWeight_zeroOrder`: in that order all weights vanish
- `shamir_roundTrip_iff`: for which share counts the round trip holds
-/

namespace SwiftAgg.Native

/-- `shamir_share` followed by `shamir_reconstruct` on the shares selected by `sel`, in that order:
    both return `0` and the 32 elements come back. -/
def RoundTrips (rng : Rng) (secret : Words) (n t : Nat) (sel : List Nat) (bufs : ShareBuffers)
    (out : Words) : Prop :=
  let shared := shamirShare rng secret 32 n t bufs
  let recovered := shamirReconstruct out (fun j => shared.2.shareX (sel.getD j 0))
    (fun j => shared.2.shareY (sel.getD j 0)) sel.length
  shared.1 = 0 ∧ recovered.1 = 0 ∧ ∀ e < 32, recovered.2 e = secret e

/-! ## Running products -/

@[simp] theorem gf3329Mul_zero_right (a : Nat) : gf3329Mul a 0 = 0 := by
  rw [gf3329Mul_eq_mod (by omega), Nat.mul_zero]

/-- The numerator loop alone. -/
private def numerator (shareX : Words) (i : Nat) (js : List Nat) (num : Nat) : Nat :=
  js.foldl (fun num j => if i = j then num else gf3329Mul num (gf3329Sub 0 (shareX j))) num

private theorem lagrangeProducts_fst (shareX : Words) (i : Nat) (js : List Nat) :
    (lagrangeProducts shareX i js).1 = numerator shareX i js 1 := by
  -- both loops start from the same numerator; the denominator plays no part
  have key : ∀ (js : List Nat) (acc : Nat × Nat),
      (js.foldl (fun (acc : Nat × Nat) j => if i = j then acc else
        (gf3329Mul acc.1 (gf3329Sub 0 (shareX j)),
          gf3329Mul acc.2 (gf3329Sub (shareX i) (shareX j)))) acc).1 =
        numerator shareX i js acc.1 := by
    intro js
    induction js with
    | nil => intro acc; rfl
    | cons j js ih =>
      intro acc
      unfold numerator
      rw [List.foldl_cons, List.foldl_cons, ih]
      split <;> rfl
  exact key js (1, 1)

/-- A running numerator that has reached zero stays there. -/
private theorem numerator_zero (shareX : Words) (i : Nat) (js : List Nat) :
    numerator shareX i js 0 = 0 := by
  unfold numerator
  induction js with
  | nil => rfl
  | cons j js ih => rw [List.foldl_cons, gf3329Mul_zero_left, ite_self, ih]

private theorem numerator_append (shareX : Words) (i : Nat) (js ks : List Nat) (num : Nat) :
    numerator shareX i (js ++ ks) num = numerator shareX i ks (numerator shareX i js num) := by
  unfold numerator
  rw [List.foldl_append]

private theorem numerator_congr {x y : Words} {i i' : Nat} {js : List Nat}
    (h : ∀ j ∈ js, x j = y j ∧ (i = j ↔ i' = j)) (num : Nat) :
    numerator x i js num = numerator y i' js num := by
  unfold numerator
  apply List.foldl_ext
  intro num j hj
  obtain ⟨hxy, hi⟩ := h j hj
  simp only [hxy, hi]

/-! ## An order in which all weights vanish -/

/-- The first 16 shares of the order: their numerators reach zero whichever share is left out. -/
private def zeroHead : List Nat := [12, 17, 21, 16, 10, 15, 5, 3, 18, 13, 4, 20, 19, 7, 9, 11]

/-- All `n` shares, those of `zeroHead` first. -/
def zeroOrder (n : Nat) : List Nat := zeroHead ++ (List.range n).filter (· ∉ zeroHead)

private theorem numerator_zeroHead :
    ∀ i < 17, numerator (fun j => zeroHead.getD j 0 + 1) i (List.range 16) 1 = 0 := by
  decide +kernel

theorem zeroOrder_perm {n : Nat} (hn : 22 ≤ n) : (zeroOrder n).Perm (List.range n) := by
  have hhead : ∀ i ∈ zeroHead, i < 22 := by decide
  have hnodup : (zeroOrder n).Nodup := by
    rw [zeroOrder, List.nodup_append]
    refine ⟨by decide, List.nodup_range.filter _, ?_⟩
    intro i hi j hj hij
    subst hij
    simp [hi] at hj
  -- without repetitions it is enough to compare the members
  rw [List.perm_ext_iff_of_nodup hnodup List.nodup_range]
  intro i
  simp only [zeroOrder, List.mem_append, List.mem_filter, List.mem_range, decide_not,
    Bool.not_eq_eq_eq_not, Bool.not_true, decide_eq_false_iff_not]
  constructor
  · rintro (h | h)
    · exact (hhead i h).trans_le hn
    · exact h.1
  · intro h
    exact (em (i ∈ zeroHead)).imp id fun hnot => ⟨h, hnot⟩

/-- In `zeroOrder` every weight that `shamir_reconstruct` computes is zero. -/
theorem lagrangeWeight_zeroOrder {n : Nat} (hn : 22 ≤ n) {shareX : Words}
    (hx : ∀ j < n, shareX j = (zeroOrder n).getD j 0 + 1) (i : Nat) :
    lagrangeWeight shareX n i = 0 := by
  have hsplit : List.range n = List.range 16 ++ (List.range (n - 16)).map (16 + ·) := by
    rw [← List.range_add, Nat.add_sub_cancel' (by omega)]
  -- the first sixteen factors already make the numerator zero
  have hhead : numerator shareX i (List.range 16) 1 = 0 := by
    rw [← numerator_zeroHead (min i 16) (by omega)]
    apply numerator_congr
    intro j hj
    have hj' := List.mem_range.mp hj
    constructor
    · rw [hx j (by omega), zeroOrder, List.getD_append _ _ _ _ (by simpa [zeroHead] using hj')]
    · omega
  have hnum : (lagrangeProducts shareX i (List.range n)).1 = 0 := by
    rw [lagrangeProducts_fst, hsplit, numerator_append, hhead, numerator_zero]
  simp only [lagrangeWeight, hnum, gf3329Mul_zero_left]

/-! ## Reconstruction of shares of the constant one -/

/-- A polynomial whose coefficients but the first vanish has constant shares, at any index. -/
private theorem gf3329EvaluatePolynomial_const {c : Nat → Nat} {t : Nat} (ht : 0 < t) (x : Nat)
    (hc0 : c 0 < 3329) (hc : ∀ j, 0 < j → c j = 0) : gf3329EvaluatePolynomial c t x = c 0 := by
  obtain ⟨s, rfl⟩ : ∃ s, t = s + 1 := ⟨t - 1, by omega⟩
  have hhigh : (List.range s).foldr (fun i result =>
      gf3329Add (gf3329Mul result x) (c (i + 1))) 0 = 0 := by
    induction s with
    | zero => rfl
    | succ s ih =>
      rw [List.range_succ, List.foldr_append, List.foldr_cons, List.foldr_nil,
        hc (s + 1) (by omega), gf3329Mul_zero_left, gf3329Add_eq_mod (by omega) (by omega)]
      exact ih (by omega)
  unfold gf3329EvaluatePolynomial
  rw [List.range_succ_eq_map, List.foldr_cons, List.foldr_map, hhigh, gf3329Mul_zero_left,
    gf3329Add_eq_mod (by omega) hc0, Nat.zero_add, Nat.mod_eq_of_lt hc0]

/-- Up to 21 shares in their natural order, the constant one is reconstructed wrongly. -/
private theorem reconstructElement_one_small : ∀ n < 22, 2 ≤ n →
    reconstructElement (fun j => j + 1) (fun _ => 1) n 0 ≠ 1 := by
  decide +kernel

private theorem lagrangeProducts_congr {x y : Words} {k i : Nat} (h : ∀ j < k, x j = y j)
    (hi : i < k) : lagrangeProducts x i (List.range k) = lagrangeProducts y i (List.range k) := by
  unfold lagrangeProducts
  apply List.foldl_ext
  intro acc j hj
  rw [h j (List.mem_range.mp hj), h i hi]

/-- Only the first `k` indices and values matter. -/
private theorem reconstructElement_congr {x y : Words} {k : Nat} (x' y' : Words)
    (hx : ∀ j < k, x j = x' j) (hy : ∀ j < k, y j = y' j) (initial : Nat) :
    reconstructElement x y k initial = reconstructElement x' y' k initial := by
  unfold reconstructElement
  apply List.foldl_ext
  intro acc i hi
  have hi' := List.mem_range.mp hi
  unfold lagrangeWeight
  rw [hy i hi', lagrangeProducts_congr hx hi']

/-- With vanishing weights every element is reconstructed as zero. -/
private theorem reconstructElement_of_weights_zero {x y : Words} {k : Nat}
    (h : ∀ i, lagrangeWeight x k i = 0) : reconstructElement x y k 0 = 0 := by
  have hadd : gf3329Add 0 0 = 0 := by decide
  unfold reconstructElement
  induction List.range k with
  | nil => rfl
  | cons i js ih => simpa only [List.foldl_cons, h i, gf3329Mul_zero_right, hadd, ite_self] using ih

/-- For every share count from two on, some order of all indices has weights that do not add up to
    one. -/
private theorem exists_order_weights_ne_one {n : Nat} (h2 : 2 ≤ n) :
    ∃ sel : List Nat, sel.Perm (List.range n) ∧
      reconstructElement (fun j => sel.getD j 0 + 1) (fun _ => 1) n 0 ≠ 1 := by
  -- few indices are evaluated in their own order; from 22 on all weights can be made zero
  by_cases hsmall : n < 22
  · refine ⟨List.range n, List.Perm.refl _, ?_⟩
    rw [reconstructElement_congr (fun j => j + 1) (fun _ => 1) ?_ fun _ _ => rfl]
    · exact reconstructElement_one_small n hsmall h2
    · intro j hj
      simp [hj]
  · refine ⟨zeroOrder n, zeroOrder_perm (by omega), ?_⟩
    rw [reconstructElement_of_weights_zero
      fun i => lagrangeWeight_zeroOrder (by omega) (fun j _ => rfl) i]
    decide

/-- In that order the shares of the constant one are not reconstructed. -/
private theorem exists_order_failing {n t : Nat} (ht : 1 ≤ t) (htn : t ≤ n) (hn : n ≤ 255)
    (h2 : 2 ≤ n) (bufs : ShareBuffers) : ∃ sel : List Nat, sel.Perm (List.range n) ∧
      ¬RoundTrips (fun _ => (0, 0, 0)) (fun _ => 1) n t sel bufs fun _ => 0 := by
  obtain ⟨sel, hperm, hwrong⟩ := exists_order_weights_ne_one h2
  refine ⟨sel, hperm, ?_⟩
  rintro ⟨-, hret, helems⟩
  have hrng : Rng.NeverFails fun _ => (0, 0, 0) := fun _ => rfl
  obtain ⟨-, hshareX, hshareY⟩ := shamirShare_eq hrng (fun _ => 1) (m := 32) ht htn hn (by omega)
    bufs
  have hlen : sel.length = n := by rw [hperm.length_eq, List.length_range]
  have hmem : ∀ j < n, sel.getD j 0 < n := by
    intro j hj
    rw [List.getD_eq_getElem _ _ (by omega), ← List.mem_range]
    exact hperm.subset (List.getElem_mem _)
  have helem := helems 0 (by omega)
  unfold shamirReconstruct at hret helem
  rw [hlen] at hret helem
  -- the two validations return an error, against the assumed status
  split at helem
  · rename_i hbad
    rw [if_pos hbad] at hret
    exact absurd hret (by decide)
  rename_i hgood
  split at helem
  · rename_i hbad
    rw [if_neg hgood, if_pos hbad] at hret
    exact absurd hret (by decide)
  · simp only [shamirSecretElements, Nat.ofNat_pos, ↓reduceIte] at helem
    rw [reconstructElement_congr (fun j => sel.getD j 0 + 1) (fun _ => 1)
      (fun j hj => hshareX _ (hmem j hj)) ?_] at helem
    · exact hwrong helem
    · intro j hj
      rw [hshareY _ (hmem j hj) 0 (by omega)]
      exact gf3329EvaluatePolynomial_const ht _ (by simp [shareCoefficient])
        fun j hj0 => by simp [shareCoefficient, rngCoefficient, Nat.ne_of_gt hj0, Bytes.word16]

/-- The round trip through the firmware's sharing and reconstruction holds for all canonical
    secrets, all failure-free generators and all selections only when there are not two shares to
    select. -/
theorem shamir_roundTrip_iff {n t : Nat} (ht : 1 ≤ t) (htn : t ≤ n) (hn : n ≤ 255) :
    (∀ (rng : Rng) (secret : Words) (sel : List Nat) (bufs : ShareBuffers) (out : Words),
      rng.NeverFails → (∀ e < 32, secret e < 3329) → sel.Nodup → (∀ i ∈ sel, i < n) →
        max 2 t ≤ sel.length → RoundTrips rng secret n t sel bufs out) ↔ n < 2 := by
  constructor
  · intro h
    by_contra h2
    obtain ⟨sel, hperm, hfail⟩ := exists_order_failing ht htn hn (by omega)
      ⟨fun _ => 0, fun _ _ => 0, fun _ => 0⟩
    have hlen : sel.length = n := by rw [hperm.length_eq, List.length_range]
    exact hfail (h _ _ sel _ _ (fun _ => rfl) (fun _ _ => by decide)
      (hperm.nodup_iff.mpr List.nodup_range) (fun i hi => List.mem_range.mp (hperm.subset hi))
      (by omega))
  -- there are not two different shares to select
  · intro h1 rng secret sel bufs out _ _ hnodup hlt hk
    have hsub : sel ⊆ List.range n := fun i hi => List.mem_range.mpr (hlt i hi)
    have hle := (hnodup.subperm hsub).length_le
    rw [List.length_range] at hle
    omega

/-- No selection of two shares exists for `n = 1`; for `n = 2` the round trip does not hold. -/
theorem shamir_roundTrip_iff_two : ¬∀ (rng : Rng) (secret : Words) (sel : List Nat)
    (bufs : ShareBuffers) (out : Words), rng.NeverFails → (∀ e < 32, secret e < 3329) →
      sel.Nodup → (∀ i ∈ sel, i < 2) → max 2 2 ≤ sel.length →
        RoundTrips rng secret 2 2 sel bufs out :=
  fun h => absurd ((shamir_roundTrip_iff (n := 2) (t := 2) (by decide) (by decide)
    (by decide)).mp h) (by decide)

/-- Two-of-two sharing of a secret of ones with the drawn coefficients zero: the reconstruction
    writes `1991`. -/
theorem shamir_roundTrip_fails_at_two :
    (∀ e < 32, (fun _ => 1 : Words) e < 3329) ∧ Rng.NeverFails (fun _ => (0, 0, 0)) ∧
      ¬RoundTrips (fun _ => (0, 0, 0)) (fun _ => 1) 2 2 [0, 1]
        ⟨fun _ => 0, fun _ _ => 0, fun _ => 0⟩ fun _ => 0 := by
  refine ⟨fun _ _ => Nat.one_lt_ofNat, fun _ => rfl, ?_⟩
  rintro ⟨-, -, helems⟩
  have helem := helems 0 (by decide)
  revert helem
  decide +kernel

end SwiftAgg.Native
