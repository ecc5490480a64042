import Mathlib.Algebra.Field.ZMod
import Mathlib.Data.ZMod.Basic
import Mathlib.Tactic.NormNum.Prime

/-!
# The aggregation field

Masks, shares and model elements live in `ZMod 3329`. Both programs store
canonical representatives, which a residue determines.

## Key results

- `Gf.cast_emod`: reduction does not change the residue
- `Gf.eq_of_cast_eq`: canonical integers with equal residues are equal
- `Gf.eq_val_of_cast_eq`: the canonical integer of a residue is its `val`
-/

namespace SwiftAgg

/-- The field of the protocol. -/
abbrev Gf := ZMod 3329

instance fact_prime_fieldModulus : Fact (Nat.Prime 3329) := ⟨by norm_num⟩

/-- A canonical representative of a residue. -/
def Canonical (a : Int) : Prop := 0 ≤ a ∧ a < 3329

theorem canonical_zero : Canonical 0 := ⟨by decide, by decide⟩

theorem canonical_emod (a : Int) : Canonical (a % 3329) :=
  ⟨Int.emod_nonneg a (by decide), Int.emod_lt_of_pos a (by decide)⟩

/-- Canonical representatives are 16-bit words. -/
theorem Canonical.int16 {a : Int} (h : Canonical a) : -2 ^ 15 ≤ a ∧ a < 2 ^ 15 := by
  obtain ⟨hnonneg, hlt⟩ := h
  omega

namespace Gf

theorem cast_emod (a : Int) : ((a % 3329 : Int) : Gf) = (a : Gf) := by
  have h := ZMod.intCast_mod a 3329
  simpa using h

/-- Two canonical integers with the same residue are equal. -/
theorem eq_of_cast_eq {a b : Int} (ha : Canonical a) (hb : Canonical b)
    (h : (a : Gf) = (b : Gf)) : a = b := by
  have hmod := (ZMod.intCast_eq_intCast_iff' a b 3329).mp h
  rwa [Nat.cast_ofNat, Int.emod_eq_of_lt ha.1 ha.2, Int.emod_eq_of_lt hb.1 hb.2] at hmod

/-- The `val` of a residue as an integer. -/
theorem val_canonical (c : Gf) : Canonical (c.val : Int) :=
  ⟨Int.natCast_nonneg _, by exact_mod_cast ZMod.val_lt c⟩

theorem cast_val (c : Gf) : ((c.val : Int) : Gf) = c := by
  rw [Int.cast_natCast, ZMod.natCast_val, ZMod.cast_id]

/-- The canonical integer of a residue is its `val`. -/
theorem eq_val_of_cast_eq {a : Int} {c : Gf} (ha : Canonical a) (h : (a : Gf) = c) :
    a = c.val :=
  eq_of_cast_eq ha (val_canonical c) (by rw [h, cast_val])

/-- Divisibility by the modulus is vanishing of the residue. -/
theorem cast_eq_zero_iff (a : Int) : (a : Gf) = 0 ↔ (3329 : Int) ∣ a :=
  ZMod.intCast_zmod_eq_zero_iff_dvd a 3329

end Gf

end SwiftAgg
