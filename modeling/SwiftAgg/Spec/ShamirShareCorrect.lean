import SwiftAgg.Native.Shamir
import SwiftAgg.Spec.Gf3329Correct

/-!
# What `shamir_share` hands out

With a generator that does not fail, every element `e` of the secret is shared
by a polynomial whose constant coefficient is the element and whose other
coefficients are the words drawn for it, in order. Row `i` of the shares holds
the Horner values at `i + 1`.

## Key results

- `shamirShare_eq`: status, indices and rows of a successful call
- `shareCoefficient_lt`: the shared polynomials have canonical coefficients
-/

namespace SwiftAgg.Native

/-- The coefficient made from the `d`-th draw. -/
def rngCoefficient (rng : Rng) (d : Nat) : Nat :=
  Bytes.word16 (rng d).2.1 (rng d).2.2 % fieldModulus

/-- The `j`-th coefficient of the polynomial that shares element `e` with threshold `t`. -/
def shareCoefficient (rng : Rng) (secret : Words) (t e j : Nat) : Nat :=
  if j = 0 then secret e else rngCoefficient rng (e * (t - 1) + (j - 1))

theorem rngCoefficient_lt (rng : Rng) (d : Nat) : rngCoefficient rng d < 3329 :=
  Nat.mod_lt _ (by decide)

theorem shareCoefficient_lt {rng : Rng} {secret : Words} {t e : Nat} (hs : secret e < 3329)
    (j : Nat) : shareCoefficient rng secret t e j < 3329 := by
  unfold shareCoefficient
  split
  · exact hs
  · exact rngCoefficient_lt rng _

/-! ## The coefficient loops -/

/-- Without failures the drawn words land in order behind `base + i`; nothing else changes. -/
private theorem generateRandomCoefficientsLoop_eq {rng : Rng} (hrng : rng.NeverFails)
    (base remaining i draw : Nat) (ws : Words) :
    generateRandomCoefficientsLoop rng base remaining i draw ws =
      (0, fun k => if base + i ≤ k ∧ k < base + i + remaining then
        rngCoefficient rng (draw + (k - (base + i))) else ws k) := by
  induction remaining generalizing i draw ws with
  | zero =>
    rw [generateRandomCoefficientsLoop]
    congr 1
    funext k
    rw [if_neg (by omega)]
  | succ remaining ih =>
    have hdraw := hrng draw
    rw [generateRandomCoefficientsLoop]
    simp only [hdraw, ne_eq, not_true_eq_false, ↓reduceIte, ih]
    congr 1
    funext k
    -- the word written now is the first of the range, the rest is the induction hypothesis
    rcases Nat.lt_trichotomy k (base + i) with hk | rfl | hk
    · rw [if_neg (by omega), if_neg (by omega), Function.update_of_ne (by omega)]
    · rw [if_neg (by omega), if_pos (by omega), Function.update_self, Nat.sub_self]
      rfl
    · by_cases hlt : k < base + i + (remaining + 1)
      · rw [if_pos (by omega), if_pos (by omega)]
        congr 1
        omega
      · rw [if_neg (by omega), if_neg (by omega), Function.update_of_ne (by omega)]

/-- The element loop: earlier words are kept, and each element's block holds its polynomial. -/
private theorem shamirCoefficientsLoop_spec {rng : Rng} (hrng : rng.NeverFails) (secret : Words)
    {t : Nat} (ht : 0 < t) (remaining elem : Nat) (ws : Words) :
    let r := shamirCoefficientsLoop rng secret t remaining elem (elem * (t - 1)) ws
    r.1 = 0 ∧ (∀ k < elem * t, r.2 k = ws k) ∧
      ∀ e < remaining, ∀ j < t,
        r.2 ((elem + e) * t + j) = shareCoefficient rng secret t (elem + e) j := by
  induction remaining generalizing elem ws with
  | zero => simp [shamirCoefficientsLoop]
  | succ remaining ih =>
    have hnext : (elem + 1) * t = elem * t + t := by rw [Nat.add_mul, Nat.one_mul]
    have hdraw : (elem + 1) * (t - 1) = elem * (t - 1) + (t - 1) := by rw [Nat.add_mul, Nat.one_mul]
    -- the words after this element, whichever branch wrote them
    obtain ⟨ws', hstep, hkeep, hblock⟩ : ∃ ws' : Words,
        shamirCoefficientsLoop rng secret t (remaining + 1) elem (elem * (t - 1)) ws =
          shamirCoefficientsLoop rng secret t remaining (elem + 1) ((elem + 1) * (t - 1)) ws' ∧
        (∀ k < elem * t, ws' k = ws k) ∧
        ∀ j < t, ws' (elem * t + j) = shareCoefficient rng secret t elem j := by
      rw [shamirCoefficientsLoop]
      by_cases h1 : 1 < t
      · simp only [h1, ↓reduceIte, generateRandomCoefficients,
          generateRandomCoefficientsLoop_eq hrng, ne_eq, not_true_eq_false, ← hdraw]
        refine ⟨_, rfl, ?_, ?_⟩
        · intro k hk
          rw [if_neg (by omega), Function.update_of_ne (by omega)]
        · intro j hj
          unfold shareCoefficient
          by_cases hj0 : j = 0
          · subst hj0
            rw [if_neg (by omega), if_pos rfl, Nat.add_zero, Function.update_self]
          · rw [if_pos (by omega), if_neg hj0]
            congr 1
            omega
      · have ht1 : t = 1 := by omega
        subst ht1
        refine ⟨Function.update ws (elem * 1) (secret elem), by simp, ?_, ?_⟩
        · intro k hk
          rw [Function.update_of_ne (by omega)]
        · intro j hj
          have hj0 : j = 0 := by omega
          subst hj0
          rw [Nat.add_zero, Function.update_self, shareCoefficient, if_pos rfl]
    obtain ⟨hret, hkeep', hrest⟩ := ih (elem + 1) ws'
    rw [hstep]
    refine ⟨hret, fun k hk => ?_, fun e he j hj => ?_⟩
    · rw [hkeep' k (by omega), hkeep k hk]
    · cases e with
      | zero =>
        simp only [Nat.add_zero]
        rw [hkeep' _ (by omega), hblock j hj]
      | succ e =>
        have h := hrest e (by omega) j hj
        rwa [show elem + 1 + e = elem + (e + 1) by omega] at h

/-! ## The call -/

/-- A successful `shamir_share` of `m` elements: row `i` holds the values at `i + 1`. -/
theorem shamirShare_eq {rng : Rng} (hrng : rng.NeverFails) (secret : Words) {m n t : Nat}
    (ht : 0 < t) (htn : t ≤ n) (hn : n ≤ 255) (hm : m ≤ 32) (bufs : ShareBuffers) :
    let r := shamirShare rng secret m n t bufs
    r.1 = 0 ∧ (∀ i < n, r.2.shareX i = i + 1) ∧
      ∀ i < n, ∀ e < m, r.2.shareY i e =
        gf3329EvaluatePolynomial (shareCoefficient rng secret t e) t (i + 1) := by
  obtain ⟨hret, -, hcoeffs⟩ := shamirCoefficientsLoop_spec hrng secret ht m 0
    bufs.workspace
  rw [Nat.zero_mul] at hret hcoeffs
  have hguard := not_refused ht htn hn
  have helems : ¬shamirSecretElements < m := by
    simp only [shamirSecretElements]; omega
  -- all checks pass, and the shares are evaluations of the blocks
  simp only [shamirShare, hguard, helems, ↓reduceIte, hret, ne_eq, not_true_eq_false, true_and]
  constructor
  · intro i hi
    simp [hi]
  · intro i hi e he
    simp only [hi, he, and_self, ↓reduceIte]
    apply gf3329EvaluatePolynomial_congr
    intro j hj
    have h := hcoeffs e he j hj
    rwa [Nat.zero_add] at h

end SwiftAgg.Native
