import SwiftAgg.Native.Gf3329
import SwiftAgg.Spec.Field
import Mathlib.Algebra.BigOperators.Group.Finset.Basic
import Mathlib.Tactic.Ring

/-!
# The firmware's field arithmetic on its exact range

`barrett_reduce` rounds its reciprocal up, so the quotient estimate is exact
only below `46 * 3329 - 1 = 153133`, well before the 32-bit product wraps at
`213055`. Below that bound the operations compute in `ZMod 3329` on canonical
representatives, and Horner evaluation stays below it for every `x ≤ 46`.

## Key results

- `barrettReduce_eq_mod`: exactness below `153133`
- `gf3329EvaluatePolynomial_cast`: Horner evaluation at `x ≤ 46` is evaluation in the field
- `gf3329EvaluatePolynomial_lt`: its result is canonical
-/

namespace SwiftAgg.Native

/-- `barrett_reduce` is exact below `153133`. -/
theorem barrettReduce_eq_mod {a : Nat} (ha : a < 153133) : barrettReduce a = a % 3329 := by
  obtain ⟨q, r, hr, rfl⟩ : ∃ q r, r < 3329 ∧ a = 3329 * q + r :=
    ⟨a / 3329, a % 3329, Nat.mod_lt a (by norm_num), (Nat.div_add_mod a 3329).symm⟩
  -- `20159 * 3329 = 2 ^ 26 + 447`: the excess of the rounded reciprocal does not reach a unit
  have hexcess : 447 * q + 20159 * r < 67108864 := by omega
  have hprod : (3329 * q + r) * 20159 = 67108864 * q + (447 * q + 20159 * r) := by ring
  have ht : (3329 * q + r) * 20159 % 4294967296 / 67108864 = q := by
    rw [Nat.mod_eq_of_lt (by omega), hprod, Nat.mul_add_div (by norm_num),
      Nat.div_eq_of_lt hexcess, Nat.add_zero]
  have hrem : (3329 * q + r + 4294967296 - q * 3329) % 65536 = r := by omega
  simp only [barrettReduce, barrettMultiplier, barrettShift, fieldModulus, Nat.reducePow, ht, hrem,
    if_neg (Nat.not_le.mpr hr), Nat.mul_add_mod, Nat.mod_eq_of_lt hr]

/-- The bound is tight: at `153133` the rounded-up reciprocal overshoots. -/
example : barrettReduce 153133 ≠ 153133 % 3329 := by decide

theorem gf3329Mul_eq_mod {a b : Nat} (h : a * b < 153133) : gf3329Mul a b = a * b % 3329 := by
  rw [gf3329Mul, Nat.mod_eq_of_lt (by omega), barrettReduce_eq_mod h]

theorem gf3329Add_eq_mod {a b : Nat} (ha : a < 3329) (hb : b < 3329) :
    gf3329Add a b = (a + b) % 3329 := by
  have hsum : (a + b) % 2 ^ 16 = a + b := Nat.mod_eq_of_lt (by omega)
  simp only [gf3329Add, hsum, fieldModulus]
  split_ifs <;> omega

@[simp] theorem gf3329Mul_zero_left (b : Nat) : gf3329Mul 0 b = 0 := by
  rw [gf3329Mul_eq_mod (by omega), Nat.zero_mul]

/-! ## Horner evaluation -/

/-- One Horner step at `x ≤ 46` stays on the exact range. -/
private theorem horner_step {result x c : Nat} (hr : result < 3329) (hx : x ≤ 46) (hc : c < 3329) :
    gf3329Add (gf3329Mul result x) c = (result * x + c) % 3329 := by
  have hprod : result * x < 153133 := by
    calc result * x ≤ 3328 * 46 := Nat.mul_le_mul (by omega) hx
      _ < 153133 := by decide
  rw [gf3329Mul_eq_mod hprod, gf3329Add_eq_mod (Nat.mod_lt _ (by omega)) hc]
  omega

/-- The Horner loop over the last `n` indices to go, started from `result`. -/
private def hornerFold (coeffs : Nat → Nat) (x n result : Nat) : Nat :=
  (List.range n).foldr (fun i result => gf3329Add (gf3329Mul result x) (coeffs i)) result

private theorem hornerFold_succ (coeffs : Nat → Nat) (x n result : Nat) :
    hornerFold coeffs x (n + 1) result =
      hornerFold coeffs x n (gf3329Add (gf3329Mul result x) (coeffs n)) := by
  unfold hornerFold
  rw [List.range_succ, List.foldr_append, List.foldr_cons, List.foldr_nil]

private theorem hornerFold_lt {coeffs : Nat → Nat} {x : Nat} (hx : x ≤ 46) (n result : Nat)
    (hc : ∀ i < n, coeffs i < 3329) (hr : result < 3329) :
    hornerFold coeffs x n result < 3329 := by
  induction n generalizing result with
  | zero => exact hr
  | succ i ih =>
    rw [hornerFold_succ, horner_step hr hx (hc i (by omega))]
    exact ih _ (fun j hj => hc j (by omega)) (Nat.mod_lt _ (by omega))

/-- Loop invariant: with `n` coefficients to go, the loop multiplies what it has by `x ^ n` and
    adds the polynomial of the remaining coefficients. -/
private theorem hornerFold_cast {coeffs : Nat → Nat} {x : Nat} (hx : x ≤ 46) (n result : Nat)
    (hc : ∀ i < n, coeffs i < 3329) (hr : result < 3329) :
    (hornerFold coeffs x n result : Gf) =
      result * x ^ n + ∑ i ∈ Finset.range n, (coeffs i : Gf) * x ^ i := by
  induction n generalizing result with
  | zero => simp [hornerFold]
  | succ i ih =>
    rw [hornerFold_succ, horner_step hr hx (hc i (by omega)),
      ih _ (fun j hj => hc j (by omega)) (Nat.mod_lt _ (by omega)), ZMod.natCast_mod,
      Finset.sum_range_succ]
    push_cast
    ring

/-- Horner evaluation at `x ≤ 46` gives a canonical representative. -/
theorem gf3329EvaluatePolynomial_lt {coeffs : Nat → Nat} {t x : Nat} (hx : x ≤ 46)
    (hc : ∀ i < t, coeffs i < 3329) : gf3329EvaluatePolynomial coeffs t x < 3329 :=
  hornerFold_lt hx t 0 hc (by omega)

/-- Horner evaluation at `x ≤ 46` evaluates the polynomial in the field. -/
theorem gf3329EvaluatePolynomial_cast {coeffs : Nat → Nat} {t x : Nat} (hx : x ≤ 46)
    (hc : ∀ i < t, coeffs i < 3329) :
    (gf3329EvaluatePolynomial coeffs t x : Gf) =
      ∑ i ∈ Finset.range t, (coeffs i : Gf) * (x : Gf) ^ i := by
  have h := hornerFold_cast hx t 0 hc (by omega)
  rwa [Nat.cast_zero, zero_mul, zero_add] at h

/-- Only the first `t` coefficients matter. -/
theorem gf3329EvaluatePolynomial_congr {c d : Nat → Nat} {t x : Nat} (h : ∀ i < t, c i = d i) :
    gf3329EvaluatePolynomial c t x = gf3329EvaluatePolynomial d t x := by
  apply List.foldr_ext
  intro i hi result
  rw [h i (List.mem_range.mp hi)]

end SwiftAgg.Native
