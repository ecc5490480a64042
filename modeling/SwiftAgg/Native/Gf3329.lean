import Mathlib.Tactic.Common
import Mathlib.Algebra.Order.Ring.Nat

/-!
# Field arithmetic of the firmware

The scalar operations of `shamir.c` on `uint16_t` and `uint32_t` values. Words
are natural numbers; every operation that can wrap around carries its `% 2 ^ w`
where the C type does, in particular the 32-bit product inside
`barrett_reduce` and the 16-bit narrowing of its remainder.
-/

namespace SwiftAgg.Native

/-- `FIELD_MODULUS`. -/
def fieldModulus : Nat := 3329

/-- `BARRETT_MULTIPLIER`. -/
def barrettMultiplier : Nat := 20159

/-- `BARRETT_SHIFT`. -/
def barrettShift : Nat := 26

/-- `barrett_reduce`: the quotient estimate comes from a product taken modulo
    `2 ^ 32`, the remainder is narrowed to 16 bits and corrected once. The
    estimate is below 64, so only the subtraction can wrap, and narrowing to
    16 bits absorbs that. -/
def barrettReduce (a : Nat) : Nat :=
  let t := a * barrettMultiplier % 2 ^ 32 / 2 ^ barrettShift
  let r := (a + 2 ^ 32 - t * fieldModulus) % 2 ^ 16
  if fieldModulus ≤ r then r - fieldModulus else r

/-- `gf3329_add`. -/
def gf3329Add (a b : Nat) : Nat :=
  let r := (a + b) % 2 ^ 16
  if fieldModulus ≤ r then r - fieldModulus else r

/-- `gf3329_sub`; the second branch is an `int` narrowed to `uint16_t`. -/
def gf3329Sub (a b : Nat) : Nat :=
  if b ≤ a then a - b else (a + fieldModulus + 2 ^ 16 - b) % 2 ^ 16

/-- `gf3329_mul`. -/
def gf3329Mul (a b : Nat) : Nat := barrettReduce (a * b % 2 ^ 32)

/-- The square-and-multiply loop of `gf3329_inv`. -/
def gf3329InvLoop (exp result base : Nat) : Nat :=
  if exp = 0 then result
  else
    gf3329InvLoop (exp / 2) (if exp % 2 = 1 then gf3329Mul result base else result)
      (gf3329Mul base base)
termination_by exp
decreasing_by omega

/-- `gf3329_inv`. -/
def gf3329Inv (a : Nat) : Nat :=
  if a = 0 then 0 else gf3329InvLoop (fieldModulus - 2) 1 a

/-- `gf3329_evaluate_polynomial`: Horner evaluation of `degree` coefficients at `x`, the loop
    index counting down from `degree - 1` to `0`. -/
def gf3329EvaluatePolynomial (coeffs : Nat → Nat) (degree x : Nat) : Nat :=
  (List.range degree).foldr (fun i result => gf3329Add (gf3329Mul result x) (coeffs i)) 0

end SwiftAgg.Native
