import SwiftAgg.ForStd.PairSum
import Mathlib.Algebra.BigOperators.Ring.Finset
import Mathlib.Tactic.Abel

/-!
# What pairwise masks hide

Each party of a group adds to its value one term for every other party, and the
two terms of a pair are opposite. The masked values tell the sum of all values.
They tell no more: a change of the values that keeps the sum is made up for by
changing only the terms between one party, the hub, and the others.

## Key results

- `PairMask.sum_masked`: the masked values add up to the sum of the values
- `PairMask.masked_add_star`: a change with sum zero, absorbed by the terms of a hub
- `PairMask.weighted_cancel_iff`: the weights under which the terms always cancel
-/

namespace PairMask

variable {ι A : Type*} [LinearOrder ι] [AddCommGroup A]

/-- The two terms of a pair are opposite. -/
def Antisymm (f : ι → ι → A) : Prop := ∀ a b, a ≠ b → f a b + f b a = 0

/-- The value of a party together with its terms towards all others. -/
def masked (s : Finset ι) (f : ι → ι → A) (x : ι → A) (a : ι) : A := x a + ∑ b ∈ s.erase a, f a b

/-- The terms of a star: the pair of the hub `h` and a party `a` makes up for `δ a`. -/
def star (h : ι) (δ : ι → A) (a b : ι) : A := if a = h then -δ b else if b = h then δ a else 0

theorem antisymm_star (h : ι) (δ : ι → A) : Antisymm (star h δ) := by
  intro a b hab
  unfold star
  by_cases ha : a = h
  · subst ha
    rw [if_pos rfl, if_neg (Ne.symm hab), if_pos rfl, neg_add_cancel]
  · by_cases hb : b = h
    · rw [if_neg ha, if_pos hb, if_pos hb, add_neg_cancel]
    · rw [if_neg ha, if_neg hb, if_neg hb, if_neg ha, add_zero]

/-- Outside the changed parties a star has no terms. -/
theorem star_eq_zero {h : ι} {δ : ι → A} {a b : ι} (ha : a ≠ h) (hb : b ≠ h) :
    star h δ a b = 0 := by
  rw [star, if_neg ha, if_neg hb]

/-- The star of a change and the star of the change back cancel. -/
theorem star_sub_add_star_sub (h : ι) (x x' : ι → A) (a b : ι) :
    star h (fun c => x c - x' c) a b + star h (fun c => x' c - x c) a b = 0 := by
  unfold star
  split_ifs
  · rw [neg_sub, neg_sub, sub_add_sub_cancel, sub_self]
  · rw [sub_add_sub_cancel, sub_self]
  · rw [add_zero]

/-- The masked values add up to the sum of the values. -/
theorem sum_masked {f : ι → ι → A} (hf : Antisymm f) (s : Finset ι) (x : ι → A) :
    ∑ a ∈ s, masked s f x a = ∑ a ∈ s, x a := by
  unfold masked
  rw [Finset.sum_add_distrib, Finset.sum_erase_eq_zero s fun a _ b _ hab => hf a b hab, add_zero]

/-- A party of the group gets from the star what it has to make up for. -/
theorem sum_star {s : Finset ι} {h : ι} (hh : h ∈ s) {δ : ι → A} (hδ : ∑ a ∈ s, δ a = 0) (a : ι) :
    ∑ b ∈ s.erase a, star h δ a b = δ a := by
  by_cases ha : a = h
  · subst ha
    have hrest : ∑ b ∈ s.erase a, δ b + δ a = 0 := by rw [Finset.sum_erase_add s δ hh, hδ]
    calc ∑ b ∈ s.erase a, star a δ a b
        = -∑ b ∈ s.erase a, δ b := by
          rw [← Finset.sum_neg_distrib]
          exact Finset.sum_congr rfl fun b _ => if_pos rfl
      _ = δ a := by rw [eq_neg_of_add_eq_zero_left hrest, neg_neg]
  · -- only the pair with the hub has a term
    rw [Finset.sum_eq_single_of_mem h (Finset.mem_erase.mpr ⟨Ne.symm ha, hh⟩)
      fun b _ hb => star_eq_zero ha hb]
    rw [star, if_neg ha, if_pos rfl]

/-- A change of the values with sum zero does not show when the terms of a hub change with it. -/
theorem masked_add_star {s : Finset ι} {h : ι} (hh : h ∈ s) (f : ι → ι → A) {x x' : ι → A}
    (hsum : ∑ a ∈ s, x' a = ∑ a ∈ s, x a) (a : ι) :
    masked s (fun a b => f a b + star h (fun c => x c - x' c) a b) x' a = masked s f x a := by
  have hδ : ∑ c ∈ s, (x c - x' c) = 0 := by rw [Finset.sum_sub_distrib, hsum, sub_self]
  unfold masked
  rw [Finset.sum_add_distrib, sum_star hh hδ a]
  abel

/-- The terms cancel under weights, whatever they are, exactly if all weights are equal. -/
theorem weighted_cancel_iff {R : Type*} [Ring R] {s : Finset ι} {w : ι → R} :
    (∀ f : ι → ι → R, Antisymm f → ∑ a ∈ s, w a * ∑ b ∈ s.erase a, f a b = 0) ↔
      ∀ a ∈ s, ∀ b ∈ s, w a = w b := by
  constructor
  · intro h a ha b hb
    rcases eq_or_ne a b with rfl | hab
    · rfl
    -- one term towards `a`, and its opposite towards `b`
    let δ : ι → R := fun c => if c = a then 1 else if c = b then -1 else 0
    have hsum : ∀ u : ι → R, ∑ c ∈ s, u c * δ c = u a - u b := by
      intro u
      have hpair : ∀ c ∈ s, c ≠ a ∧ c ≠ b → u c * δ c = 0 := fun c _ hc => by
        simp [δ, hc.1, hc.2]
      rw [Finset.sum_eq_add_of_mem a b ha hb hab hpair]
      simp [δ, hab.symm, sub_eq_add_neg]
    have hδ : ∑ c ∈ s, δ c = 0 := by simpa using hsum fun _ => 1
    have hzero := h (star a δ) (antisymm_star a δ)
    simp only [sum_star ha hδ, hsum] at hzero
    exact sub_eq_zero.mp hzero
  · intro h f hf
    rcases s.eq_empty_or_nonempty with rfl | ⟨c, hc⟩
    · exact Finset.sum_empty
    · rw [Finset.sum_congr rfl fun a ha => by rw [h a ha c hc], ← Finset.mul_sum,
        Finset.sum_erase_eq_zero s fun a _ b _ hab => hf a b hab, mul_zero]

end PairMask
