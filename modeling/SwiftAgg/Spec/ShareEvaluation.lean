import SwiftAgg.ForStd.Barrett
import SwiftAgg.Host.ShamirRecovery
import SwiftAgg.Spec.Field
import Mathlib.Algebra.BigOperators.Intervals
import Mathlib.Algebra.BigOperators.Ring.Finset
import Mathlib.Data.Int.ModEq

/-!
# Evaluation of shares on the host

`barrett_reduce` multiplies by a rounded-up reciprocal, so on large arguments
close below a multiple of 3329 it takes away one multiple too many and returns
a negative residue. In the Horner steps of `evaluate_polynomial` such a step is
followed by one on a smaller argument, which is right again.

## Key results

- `barrettReduce_eq`: the reduction on the arguments of the Horner steps
- `evaluatePolynomial_eq`: what the evaluation returns
- `evaluatePolynomial_exact_iff`: when that is the canonical value
- `evaluatePolynomial_eq_of_le_45`: it always is for the first 45 shares
-/

open Finset

namespace SwiftAgg.Host

/-! ## The reduction -/

/-- The estimate exceeds the quotient of `a`: the quotient is large, and `a` is close below the next
    multiple of 3329. -/
def Overestimated (a : Int) : Prop := 45 * (3329 - a % 3329) ≤ a / 3329

instance (a : Int) : Decidable (Overestimated a) := inferInstanceAs (Decidable (_ ≤ _))

theorem barrettMultiplier_eq : barrettMultiplier * 3329 = 2 ^ barrettShift + 447 := by decide

/-- With a quotient of at most 255 the reduction is off by one multiple at most. -/
theorem barrettReduce_eq {a : Int} (hlow : -255 ≤ a / 3329) (hhigh : a / 3329 ≤ 255) :
    barrettReduce a = if Overestimated a then a % 3329 - 3329 else a % 3329 := by
  have hnonneg := Int.emod_nonneg a (b := 3329) (by decide)
  have hlt := Int.emod_lt_of_pos a (b := 3329) (by decide)
  have hover : Barrett.overshoot 3329 barrettMultiplier 447 barrettShift a = 1 ↔
      Overestimated a := by
    unfold Barrett.overshoot Overestimated barrettMultiplier barrettShift
    omega
  have hreduce := Barrett.reduce_eq (a := a) (by decide) barrettMultiplier_eq
    (by unfold Barrett.overshoot barrettMultiplier barrettShift; omega)
    (by unfold Barrett.overshoot barrettMultiplier barrettShift; omega)
  simp only [hover] at hreduce
  exact hreduce

/-! ## The Horner steps -/

/-- `sum(coeffs[i] * x ** i)`. -/
def polynomialValue (coeffs : List Int) (x : Int) : Int :=
  ∑ i ∈ range coeffs.length, coeffs.getD i 0 * x ^ i

theorem polynomialValue_cons (c : Int) (cs : List Int) (x : Int) :
    polynomialValue (c :: cs) x = polynomialValue cs x * x + c := by
  simp only [polynomialValue, List.length_cons, sum_range_succ', List.getD_cons_succ,
    List.getD_cons_zero, pow_succ, pow_zero, mul_one, sum_mul, mul_assoc]

/-- The arguments of the reductions in an evaluation with canonical residues, from the constant
    coefficient on. -/
def hornerArguments (x : Int) : List Int → List Int
  | [] => []
  | c :: cs => (polynomialValue cs x % 3329 * x + c) :: hornerArguments x cs

theorem evaluatePolynomial_cons (c : Int) (cs : List Int) (x : Int) :
    evaluatePolynomial (c :: cs) x = barrettReduce (evaluatePolynomial cs x * x + c) := by
  simp only [evaluatePolynomial, List.foldl_reverse, List.foldr_cons]

/-- How many steps in a row, from the constant coefficient on, have an overestimated argument. -/
def overestimatedRun (coeffs : List Int) (x : Int) : Nat :=
  ((hornerArguments x coeffs).takeWhile fun a => decide (Overestimated a)).length

theorem overestimatedRun_cons (c : Int) (cs : List Int) (x : Int) :
    overestimatedRun (c :: cs) x =
      if Overestimated (polynomialValue cs x % 3329 * x + c) then overestimatedRun cs x + 1
      else 0 := by
  unfold overestimatedRun
  rw [hornerArguments, List.takeWhile_cons]
  simp only [decide_eq_true_eq]
  split <;> rfl

/-- The arguments of the Horner steps stay small: with a canonical residue the quotient is at most
    the index, and with one that is a multiple too low it is not positive. -/
theorem hornerArgument_ediv {s x c : Int} (hs : Canonical s) (hx : 1 ≤ x) (hc : Canonical c) :
    0 ≤ (s * x + c) / 3329 ∧ (s * x + c) / 3329 ≤ x := by
  have hnonneg : 0 ≤ s * x + c := add_nonneg (mul_nonneg hs.1 (by omega)) hc.1
  have hle : s * x ≤ 3328 * x := by
    apply mul_le_mul_of_nonneg_right _ (by omega)
    exact Int.le_of_lt_add_one hs.2
  have hc' := hc.2
  constructor <;> omega

/-- The evaluation returns the canonical value, or one multiple less after a run of overestimated
    arguments of odd length. -/
theorem evaluatePolynomial_eq {coeffs : List Int} (hcoeffs : ∀ c ∈ coeffs, Canonical c) {x : Int}
    (hx : 1 ≤ x) (hx' : x ≤ 255) :
    evaluatePolynomial coeffs x =
      if Even (overestimatedRun coeffs x) then polynomialValue coeffs x % 3329
      else polynomialValue coeffs x % 3329 - 3329 := by
  induction coeffs with
  | nil => rfl
  | cons c cs ih =>
    have hs := canonical_emod (polynomialValue cs x)
    obtain ⟨hlow, hhigh⟩ := hornerArgument_ediv hs hx (hcoeffs c List.mem_cons_self)
    have hvalue : (polynomialValue cs x % 3329 * x + c) % 3329 =
        polynomialValue (c :: cs) x % 3329 := by
      rw [polynomialValue_cons, Int.add_emod, Int.mul_emod, Int.emod_emod, ← Int.mul_emod,
        ← Int.add_emod]
    rw [evaluatePolynomial_cons, ih fun d hd => hcoeffs d (List.mem_cons_of_mem c hd),
      overestimatedRun_cons, ← hvalue]
    generalize polynomialValue cs x % 3329 = s at *
    by_cases hrun : Even (overestimatedRun cs x)
    · -- the residue so far is canonical, so an overestimate goes through
      rw [if_pos hrun, barrettReduce_eq (by omega) (by omega)]
      split
      · rw [if_neg (Nat.not_even_iff_odd.mpr hrun.add_one)]
      · rw [if_pos (by decide)]
    · -- the residue so far is one multiple too low, so this step is exact
      have hshift : (s - 3329) * x + c = s * x + c + 3329 * -x := by ring
      have hexact : ¬Overestimated (s * x + c + 3329 * -x) := by
        unfold Overestimated
        omega
      rw [if_neg hrun, hshift, barrettReduce_eq (by omega) (by omega), if_neg hexact,
        Int.add_mul_emod_self_left]
      split
      · rw [if_pos (Nat.not_even_iff_odd.mp hrun).add_one]
      · rw [if_pos (by decide)]

/-! ## Exactness -/

/-- A share value as the two bytes `y & 0xFF` and `(y >> 8) & 0xFF`. -/
def encodeShare (y : Int) : Bytes := Bytes.le16 (y % 2 ^ 16).toNat

/-- A share value is the canonical value of the polynomial, and its two bytes decode to it. -/
def ShareExact (coeffs : List Int) (x y : Int) : Prop :=
  (0 ≤ y ∧ y ≤ 3328) ∧ y ≡ ∑ i ∈ range coeffs.length, coeffs.getD i 0 * x ^ i [ZMOD 3329] ∧
    (Bytes.u16sLE (encodeShare y)).map (fun w : Nat => (w : Int)) =
      [(∑ i ∈ range coeffs.length, coeffs.getD i 0 * x ^ i) % 3329]

/-- The canonical value is encoded exactly. -/
theorem shareExact_canonical (coeffs : List Int) (x : Int) :
    ShareExact coeffs x (polynomialValue coeffs x % 3329) := by
  obtain ⟨h₁, h₂⟩ := canonical_emod (polynomialValue coeffs x)
  refine ⟨⟨h₁, by omega⟩, Int.mod_modEq _ _, ?_⟩
  have hword : (polynomialValue coeffs x % 3329 % 2 ^ 16).toNat < 2 ^ 16 := by omega
  rw [encodeShare, Bytes.le16, Bytes.u16sLE, Bytes.word16_ofNat hword]
  simp only [Bytes.u16sLE, List.map_cons, List.map_nil, List.cons.injEq, and_true]
  change _ = polynomialValue coeffs x % 3329
  omega

/-- The evaluation is exact if and only if the run of overestimated arguments that ends at the
    constant coefficient has even length. -/
theorem evaluatePolynomial_exact_iff {coeffs : List Int}
    (hcoeffs : ∀ c ∈ coeffs, 0 ≤ c ∧ c ≤ 3328) {x : Int} (hx : 1 ≤ x) (hx' : x ≤ 255) :
    ShareExact coeffs x (evaluatePolynomial coeffs x) ↔ Even (overestimatedRun coeffs x) := by
  have hcanon : ∀ c ∈ coeffs, Canonical c := fun c hc =>
    ⟨(hcoeffs c hc).1, Int.lt_add_one_of_le (hcoeffs c hc).2⟩
  rw [evaluatePolynomial_eq hcanon hx hx']
  by_cases hrun : Even (overestimatedRun coeffs x)
  · rw [if_pos hrun]
    exact iff_of_true (shareExact_canonical coeffs x) hrun
  · rw [if_neg hrun]
    refine iff_of_false ?_ hrun
    rintro ⟨⟨hnonneg, -⟩, -⟩
    have hlt := (canonical_emod (polynomialValue coeffs x)).2
    omega

/-- At `x = 3` all arguments are small. -/
theorem evaluatePolynomial_exact_iff_three :
    ShareExact [5, 3, 7] 3 (evaluatePolynomial [5, 3, 7] 3) ↔
      Even (overestimatedRun [5, 3, 7] 3) :=
  evaluatePolynomial_exact_iff (by decide) (by decide) (by decide)

/-- The argument `3328 * 46 + 45` is `45 * 3329 + 3328`; its residue comes out as `-1`. -/
theorem evaluatePolynomial_not_exact_46 :
    ¬ShareExact [45, 3328] 46 (evaluatePolynomial [45, 3328] 46) := by
  have hvalue : evaluatePolynomial [45, 3328] 46 = -1 := by decide
  rintro ⟨⟨hnonneg, -⟩, -⟩
  rw [hvalue] at hnonneg
  exact absurd hnonneg (by decide)

/-- Up to the index 45 no argument is overestimated, and the evaluation is exact. -/
theorem evaluatePolynomial_eq_of_le_45 {coeffs : List Int} (hcoeffs : ∀ c ∈ coeffs, Canonical c)
    {x : Int} (hx : 1 ≤ x) (hx' : x ≤ 45) :
    evaluatePolynomial coeffs x = polynomialValue coeffs x % 3329 := by
  have hrun : overestimatedRun coeffs x = 0 := by
    cases coeffs with
    | nil => rfl
    | cons c cs =>
      have hc := hcoeffs c List.mem_cons_self
      have hs := canonical_emod (polynomialValue cs x)
      rw [overestimatedRun_cons, if_neg]
      generalize polynomialValue cs x % 3329 = s at hs
      have hle : s * x ≤ 3328 * 45 :=
        mul_le_mul (Int.le_of_lt_add_one hs.2) hx' (by omega) (by decide)
      have hc' := hc.2
      unfold Overestimated
      omega
  rw [evaluatePolynomial_eq hcoeffs hx (by omega), hrun, if_pos (by decide)]

end SwiftAgg.Host
