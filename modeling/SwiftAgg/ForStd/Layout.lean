import Mathlib.Tactic.Common

/-!
# Layouts

How the values of a type lie in memory: the bytes of a value, and the value that
a number of bytes make up. A copy that runs over a value changes it if it meets
its bytes, and covers it if it reaches all of them.

## Key results

- `Layout.afterCopy_of_disjoint`: a copy elsewhere leaves a value
- `Layout.afterCopy_of_covered`: a covered value is read off the source
-/

/-- How the values of a type are stored. Loading looks at `size` bytes, and gives back what was
    stored; a value may have bytes that loading does not look at. -/
structure Layout (α : Type*) where
  size : Nat
  store : α → Nat → UInt8
  load : (Nat → UInt8) → α
  load_congr : ∀ m m', (∀ k < size, m k = m' k) → load m = load m'
  load_store : ∀ v, load (store v) = v

namespace Layout

variable {α : Type*} (L : Layout α) {a dst len : Nat} {v : α} {src : Nat → UInt8}

/-- The value at the address `a` after `memcpy(dst, src, len)`. -/
def afterCopy (a : Nat) (v : α) (dst : Nat) (src : Nat → UInt8) (len : Nat) : α :=
  L.load fun k => if dst ≤ a + k ∧ a + k < dst + len then src (a + k - dst) else L.store v k

/-- A copy elsewhere leaves the value. -/
theorem afterCopy_of_disjoint (h : a + L.size ≤ dst ∨ dst + len ≤ a) :
    L.afterCopy a v dst src len = v := by
  rw [afterCopy]
  -- the bytes that are loaded are those that were stored
  refine (L.load_congr _ _ fun k hk => ?_).trans (L.load_store v)
  rw [if_neg (by omega)]

/-- A covered value is read off the source. -/
theorem afterCopy_of_covered (hstart : dst ≤ a) (hend : a + L.size ≤ dst + len) :
    L.afterCopy a v dst src len = L.load fun k => src (a - dst + k) := by
  refine L.load_congr _ _ fun k hk => ?_
  rw [if_pos (by omega), Nat.sub_add_comm hstart]

end Layout
