import Mathlib.Algebra.Order.Group.Int
import Mathlib.Tactic.Ring

/-!
# Barrett reduction with a rounded-up multiplier

The quotient `a / p` is estimated by `a * m / 2 ^ k`. Where `m` is `2 ^ k / p`
rounded up, so that `m * p = 2 ^ k + e`, the estimate overshoots by as many
units as the error `a / p * e + a % p * m` holds multiples of `2 ^ k`. Integers
are unbounded and division rounds down.

## Key results

- `estimate_eq`: the estimate is the quotient and the overshoot
- `reduce_eq`: one correction makes up for an overshoot of `-1`, but not for one of `1`
-/

namespace Barrett

/-- The units by which the estimate exceeds the quotient. -/
def overshoot (p m e : Int) (k : Nat) (a : Int) : Int := (a / p * e + a % p * m) / 2 ^ k

/-- Subtract the estimated multiple of `p`, and `p` once more if it still fits. -/
def reduce (p m : Int) (k : Nat) (a : Int) : Int :=
  let r := a - a * m / 2 ^ k * p
  if p ≤ r then r - p else r

section

variable {p m e : Int} {k : Nat}

theorem estimate_eq (hm : m * p = 2 ^ k + e) (a : Int) :
    a * m / 2 ^ k = a / p + overshoot p m e k a := by
  have hsplit : a * m = a / p * e + a % p * m + a / p * 2 ^ k := by
    calc a * m = (p * (a / p) + a % p) * m := by rw [Int.mul_ediv_add_emod]
      _ = a / p * (m * p) + a % p * m := by ring
      _ = a / p * e + a % p * m + a / p * 2 ^ k := by rw [hm]; ring
  have hpow : (2 : Int) ^ k ≠ 0 := pow_ne_zero k (by decide)
  rw [hsplit, Int.add_mul_ediv_right _ _ hpow, Int.add_comm, overshoot]

/-- What is left after the estimated multiple is subtracted. -/
theorem sub_estimate_mul (hm : m * p = 2 ^ k + e) (a : Int) :
    a - a * m / 2 ^ k * p = a % p - overshoot p m e k a * p := by
  have hdivmod := Int.mul_ediv_add_emod a p
  rw [estimate_eq hm, add_mul, mul_comm (a / p)]
  omega

/-- The correction makes up for an estimate that is one too small; after one that is too large the
    result stays negative. -/
theorem reduce_eq (hp : 0 < p) (hm : m * p = 2 ^ k + e) {a : Int}
    (hlow : -1 ≤ overshoot p m e k a) (hhigh : overshoot p m e k a ≤ 1) :
    reduce p m k a = if overshoot p m e k a = 1 then a % p - p else a % p := by
  have hnonneg := Int.emod_nonneg a hp.ne'
  have hlt := Int.emod_lt_of_pos a hp
  have hcases : overshoot p m e k a = -1 ∨ overshoot p m e k a = 0 ∨ overshoot p m e k a = 1 := by
    omega
  rw [reduce, sub_estimate_mul hm]
  rcases hcases with h | h | h
  · rw [h, if_pos (by omega), if_neg (by decide)]
    omega
  · rw [h, if_neg (by omega), if_neg (by decide)]
    omega
  · rw [h, if_neg (by omega), if_pos rfl]
    omega

end

end Barrett
