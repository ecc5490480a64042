import Mathlib.Algebra.BigOperators.Group.Finset.Sigma
import Mathlib.Order.Interval.Finset.Basic

/-!
# Sums over ordered pairs

Each party of a group contributes one term for every other party. Summed over
the group, the two terms of a pair meet, so the total is a sum over unordered
pairs, and it vanishes when the terms are antisymmetric.

## Key results

- `Finset.sum_erase_eq_sum_lt`: the double sum regrouped by pairs `a < b`
- `Finset.sum_erase_eq_zero`: antisymmetric terms cancel over the whole group
- `Finset.sum_erase_eq_sum_sdiff`: over part of the group, what is left are the terms across the cut
-/

namespace Finset

variable {ι A : Type*} [LinearOrder ι]

/-- The terms of a pair meet: the sum over all parties of their terms towards
    all others is a sum over the pairs `a < b`. -/
theorem sum_erase_eq_sum_lt [AddCommMonoid A] (s : Finset ι) (f : ι → ι → A) :
    ∑ a ∈ s, ∑ b ∈ s.erase a, f a b =
      ∑ a ∈ s, ∑ b ∈ s with a < b, (f a b + f b a) := by
  -- split the other parties into the larger and the smaller ones
  have hsplit : ∀ a ∈ s, ∑ b ∈ s.erase a, f a b =
      ∑ b ∈ s with a < b, f a b + ∑ b ∈ s with b < a, f a b := by
    intro a _
    have hdisj : Disjoint (s.filter (a < ·)) (s.filter (· < a)) := by
      rw [disjoint_filter]
      exact fun b _ h => not_lt_of_gt h
    rw [← sum_union hdisj]
    apply sum_congr _ fun _ _ => rfl
    ext b
    simp only [mem_erase, mem_union, mem_filter]
    constructor
    · rintro ⟨hne, hb⟩
      exact (lt_or_gt_of_ne hne).elim (fun h => .inr ⟨hb, h⟩) fun h => .inl ⟨hb, h⟩
    · rintro (⟨hb, h⟩ | ⟨hb, h⟩)
      · exact ⟨ne_of_gt h, hb⟩
      · exact ⟨ne_of_lt h, hb⟩
  have hswap : ∑ a ∈ s, ∑ b ∈ s with b < a, f a b = ∑ a ∈ s, ∑ b ∈ s with a < b, f b a :=
    sum_comm' fun a b => by simp only [mem_filter]; tauto
  rw [sum_congr rfl hsplit, sum_add_distrib, hswap, ← sum_add_distrib]
  exact sum_congr rfl fun a _ => sum_add_distrib.symm

variable [AddCommGroup A] {f : ι → ι → A}

/-- Antisymmetric terms cancel over the whole group. -/
theorem sum_erase_eq_zero (s : Finset ι) (hf : ∀ a ∈ s, ∀ b ∈ s, a ≠ b → f a b + f b a = 0) :
    ∑ a ∈ s, ∑ b ∈ s.erase a, f a b = 0 := by
  rw [sum_erase_eq_sum_lt]
  apply sum_eq_zero fun a ha => sum_eq_zero fun b hb => ?_
  rw [mem_filter] at hb
  exact hf a ha b hb.1 (ne_of_lt hb.2)

/-- Antisymmetric terms of a part `s` of the group `r` leave the terms across the cut. -/
theorem sum_erase_eq_sum_sdiff {s r : Finset ι} (hsr : s ⊆ r)
    (hf : ∀ a ∈ s, ∀ b ∈ s, a ≠ b → f a b + f b a = 0) :
    ∑ a ∈ s, ∑ b ∈ r.erase a, f a b = ∑ a ∈ s, ∑ b ∈ r \ s, f a b := by
  have hsplit : ∀ a ∈ s, ∑ b ∈ r.erase a, f a b =
      ∑ b ∈ s.erase a, f a b + ∑ b ∈ r \ s, f a b := by
    intro a ha
    have hdisj : Disjoint (s.erase a) (r \ s) :=
      disjoint_sdiff.mono_left (erase_subset a s)
    rw [← sum_union hdisj]
    apply sum_congr _ fun _ _ => rfl
    ext b
    simp only [mem_erase, mem_union, mem_sdiff]
    constructor
    · rintro ⟨hne, hb⟩
      exact (em (b ∈ s)).imp (fun h => ⟨hne, h⟩) fun h => ⟨hb, h⟩
    · rintro (⟨hne, hb⟩ | ⟨hb, hns⟩)
      · exact ⟨hne, hsr hb⟩
      · exact ⟨fun h => hns (h ▸ ha), hb⟩
  -- the sum inside `s` cancels
  rw [sum_congr rfl hsplit, sum_add_distrib, sum_erase_eq_zero s hf, zero_add]

end Finset
