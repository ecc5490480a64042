import Mathlib.Algebra.BigOperators.Intervals
import Mathlib.Algebra.Ring.GeomSum
import Mathlib.Data.Nat.ModEq
import Mathlib.Data.Nat.Count
import Mathlib.Data.Nat.Prime.Basic
import Mathlib.Dynamics.PeriodicPts.Defs
import Mathlib.Tactic.Ring

/-!
# Linear congruential generators

A generator `x ↦ (x * a + c) % 2 ^ k` with `a % 4 = 1` and `c` odd runs through
all words before it repeats one. After `n` steps the state has moved by the
geometric sum of `a` times an odd number, and that sum has as many factors two
as `n`.

## Key results

- `Lcg.two_pow_dvd_geomSum_iff`: the factors two of a geometric sum
- `Lcg.minimalPeriod_next`: the period is the modulus
- `Lcg.count_iterate`: a period hits a property as often as it holds of words
- `Nat.count_mod_lt`: how many numbers have a small remainder
-/

namespace Lcg

open Finset Function

/-- One step of the generator. -/
def next (a c m x : Nat) : Nat := (x * a + c) % m

theorem next_lt {m : Nat} (hm : 0 < m) (a c x : Nat) : next a c m x < m := Nat.mod_lt _ hm

theorem iterate_next_lt {m x : Nat} (hx : x < m) (a c n : Nat) : (next a c m)^[n] x < m := by
  cases n with
  | zero => exact hx
  | succ n =>
    rw [iterate_succ_apply']
    exact next_lt (Nat.zero_lt_of_lt hx) a c _

/-- How far `n` steps move the state. -/
theorem iterate_next_modEq (b c m x n : Nat) :
    (next (b + 1) c m)^[n] x ≡ x + (∑ i ∈ range n, (b + 1) ^ i) * (x * b + c) [MOD m] := by
  induction n with
  | zero => simp [Nat.ModEq.refl]
  | succ n ih =>
    have hgeom := geom_sum_mul_add b n
    rw [iterate_succ_apply']
    calc next (b + 1) c m ((next (b + 1) c m)^[n] x)
        ≡ (next (b + 1) c m)^[n] x * (b + 1) + c [MOD m] := Nat.mod_modEq _ m
      _ ≡ (x + (∑ i ∈ range n, (b + 1) ^ i) * (x * b + c)) * (b + 1) + c [MOD m] :=
          (ih.mul_right _).add_right _
      _ = x + ((∑ i ∈ range n, (b + 1) ^ i) + (b + 1) ^ n) * (x * b + c) := by
          rw [← hgeom]
          ring
      _ = x + (∑ i ∈ range (n + 1), (b + 1) ^ i) * (x * b + c) := by rw [sum_range_succ]

/-! ## Geometric sums -/

variable {a : Nat}

theorem geomSum_mod_two (ha : a % 4 = 1) (n : Nat) : (∑ i ∈ range n, a ^ i) % 2 = n % 2 := by
  induction n with
  | zero => rfl
  | succ n ih =>
    have hpow : a ^ n % 2 = 1 := by rw [Nat.pow_mod, show a % 2 = 1 by omega, Nat.one_pow]
    rw [sum_range_succ]
    omega

/-- The sum of twice as many powers has exactly one more factor two. -/
theorem geomSum_double (ha : a % 4 = 1) (n : Nat) :
    ∃ r, ∑ i ∈ range (n + n), a ^ i = 2 * ((2 * r + 1) * ∑ i ∈ range n, a ^ i) := by
  have hpow : a ^ n % 4 = 1 := by rw [Nat.pow_mod, ha, Nat.one_pow]
  have hsplit : ∑ i ∈ range n, a ^ (n + i) = a ^ n * ∑ i ∈ range n, a ^ i := by
    simp only [pow_add, mul_sum]
  refine ⟨a ^ n / 4, ?_⟩
  have hodd : a ^ n = 4 * (a ^ n / 4) + 1 := by omega
  rw [sum_range_add, hsplit]
  generalize a ^ n / 4 = r at hodd
  rw [hodd]
  ring

/-- A geometric sum has as many factors two as the number of its terms. -/
theorem two_pow_dvd_geomSum_iff (ha : a % 4 = 1) (k n : Nat) :
    2 ^ k ∣ ∑ i ∈ range n, a ^ i ↔ 2 ^ k ∣ n := by
  induction k generalizing n with
  | zero => simp
  | succ k ih =>
    have hparity := geomSum_mod_two ha n
    rcases Nat.even_or_odd n with ⟨h, rfl⟩ | ⟨h, rfl⟩
    · obtain ⟨r, hr⟩ := geomSum_double ha h
      have hcop : Nat.Coprime (2 ^ k) (2 * r + 1) :=
        Nat.Coprime.pow_left k (Nat.coprime_two_left.mpr ⟨r, rfl⟩)
      rw [hr, pow_succ', Nat.mul_dvd_mul_iff_left (by decide), hcop.dvd_mul_left, ih, ← two_mul,
        Nat.mul_dvd_mul_iff_left (by decide)]
    · -- an odd number of odd powers
      have hnot : ∀ m, m % 2 = 1 → ¬2 ^ (k + 1) ∣ m := by
        intro m hm hdvd
        have htwo := (Dvd.intro_left (2 ^ k) (pow_succ 2 k).symm).trans hdvd
        omega
      exact iff_of_false (hnot _ (by omega)) (hnot _ (by omega))

/-! ## The period -/

variable {c k x : Nat}

/-- The state comes back exactly after multiples of `2 ^ k` steps. -/
theorem iterate_next_eq_iff (ha : a % 4 = 1) (hc : c % 2 = 1) (hx : x < 2 ^ k) (n : Nat) :
    (next a c (2 ^ k))^[n] x = x ↔ 2 ^ k ∣ n := by
  obtain ⟨b, rfl⟩ : ∃ b, a = b + 1 := ⟨a - 1, by omega⟩
  have hodd : (x * b + c) % 2 = 1 := by
    have heven : x * b % 2 = 0 := by rw [Nat.mul_mod, show b % 2 = 0 by omega, Nat.mul_zero]
    omega
  have hcop : Nat.Coprime (2 ^ k) (x * b + c) :=
    Nat.Coprime.pow_left k (Nat.coprime_two_left.mpr (Nat.odd_iff.mpr hodd))
  have hmoved := iterate_next_modEq b c (2 ^ k) x n
  have hlt := iterate_next_lt hx (b + 1) c n
  calc (next (b + 1) c (2 ^ k))^[n] x = x
      ↔ (next (b + 1) c (2 ^ k))^[n] x ≡ x [MOD 2 ^ k] := by
        rw [Nat.ModEq, Nat.mod_eq_of_lt hlt, Nat.mod_eq_of_lt hx]
    _ ↔ x ≡ x + (∑ i ∈ range n, (b + 1) ^ i) * (x * b + c) [MOD 2 ^ k] :=
        ⟨fun h => h.symm.trans hmoved, fun h => hmoved.trans h.symm⟩
    _ ↔ 2 ^ k ∣ (∑ i ∈ range n, (b + 1) ^ i) * (x * b + c) := by
        rw [Nat.modEq_iff_dvd' (Nat.le_add_right _ _), Nat.add_sub_cancel_left]
    _ ↔ 2 ^ k ∣ n := by rw [hcop.dvd_mul_right, two_pow_dvd_geomSum_iff ha]

theorem minimalPeriod_next (ha : a % 4 = 1) (hc : c % 2 = 1) (hx : x < 2 ^ k) :
    minimalPeriod (next a c (2 ^ k)) x = 2 ^ k := by
  apply Nat.dvd_antisymm
  · exact IsPeriodicPt.minimalPeriod_dvd
      ((iterate_next_eq_iff ha hc hx _).mpr (Nat.dvd_refl _))
  · exact (iterate_next_eq_iff ha hc hx _).mp (iterate_minimalPeriod ..)

theorem injOn_iterate_next (ha : a % 4 = 1) (hc : c % 2 = 1) (hx : x < 2 ^ k) :
    Set.InjOn (fun n => (next a c (2 ^ k))^[n] x) (range (2 ^ k)) := by
  have h := iterate_injOn_Iio_minimalPeriod (f := next a c (2 ^ k)) (x := x)
  rw [minimalPeriod_next ha hc hx] at h
  rwa [coe_range]

/-- A period runs through all words. -/
theorem image_iterate_next (ha : a % 4 = 1) (hc : c % 2 = 1) (hx : x < 2 ^ k) :
    (range (2 ^ k)).image (fun n => (next a c (2 ^ k))^[n] x) = range (2 ^ k) := by
  apply eq_of_subset_of_card_le
  · intro y hy
    obtain ⟨n, -, rfl⟩ := mem_image.mp hy
    exact mem_range.mpr (iterate_next_lt hx a c n)
  · rw [card_image_of_injOn (injOn_iterate_next ha hc hx)]

/-- The states of a period that have a property are as many as the words that have it. -/
theorem count_iterate (ha : a % 4 = 1) (hc : c % 2 = 1) (hx : x < 2 ^ k) (p : Nat → Prop)
    [DecidablePred p] :
    (2 ^ k).count (fun n => p ((next a c (2 ^ k))^[n] x)) = (2 ^ k).count p := by
  have hinj := injOn_iterate_next ha hc hx
  rw [Nat.count_eq_card_filter_range, Nat.count_eq_card_filter_range]
  calc #{n ∈ range (2 ^ k) | p ((next a c (2 ^ k))^[n] x)}
      = #(({n ∈ range (2 ^ k) | p ((next a c (2 ^ k))^[n] x)}).image
          fun n => (next a c (2 ^ k))^[n] x) :=
        (card_image_of_injOn (hinj.mono (filter_subset _ _))).symm
    _ = #{y ∈ range (2 ^ k) | p y} := by
        rw [← filter_image, image_iterate_next ha hc hx]

end Lcg

/-- Of the numbers below `n`, every full block of `d` has `min p d` with a remainder below `p`. -/
theorem Nat.count_mod_lt {d : Nat} (hd : 0 < d) (p n : Nat) :
    n.count (fun y => y % d < p) = n / d * min p d + min p (n % d) := by
  induction n with
  | zero => simp
  | succ n ih =>
    have hmod := Nat.mod_lt n hd
    have hdiv := Nat.mod_add_div n d
    rw [Nat.count_succ, ih]
    by_cases hlast : n % d + 1 = d
    · -- `n` ends a block
      obtain ⟨hq, hr⟩ : (n + 1) / d = n / d + 1 ∧ (n + 1) % d = 0 :=
        (Nat.div_mod_unique hd).mpr ⟨by rw [Nat.mul_add]; omega, hd⟩
      rw [hq, hr, Nat.add_mul]
      split_ifs <;> omega
    · obtain ⟨hq, hr⟩ : (n + 1) / d = n / d ∧ (n + 1) % d = n % d + 1 :=
        (Nat.div_mod_unique hd).mpr ⟨by omega, by omega⟩
      rw [hq, hr]
      split_ifs <;> omega
