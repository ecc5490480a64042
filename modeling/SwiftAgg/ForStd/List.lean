import Mathlib.Algebra.BigOperators.Group.List.Basic
import Mathlib.Data.List.Forall2
import Mathlib.Data.List.GetD
import Mathlib.Data.Int.Cast.Lemmas

/-!
# Lists

Loops that add up rows position by position: an outer loop over the rows, an
inner loop over the positions. Read at one position, such a loop is a loop
over the entries there. Sums that skip zeros. Updates of the entries of a
table that leave one of their columns as it is. And lists that are related entry
by entry.

## Key results

- `foldl_zipWith_length` / `foldl_zipWith_getD`: the row loop read at a position
- `foldl_reduced`: a loop whose steps add in a ring and keep a canonical form
- `sum_map_filter_of_zero`: a sum without its zero summands
- `map_modify_of_map_eq` / `map_mapIdx_of_map_eq`: a column that updates keep
- `Forall₂.getElem?` / `Forall₂.eraseIdx`: one entry of related lists
-/

namespace List

variable {ι α β : Type*}

/-- Adding rows of length `n` keeps the length. -/
theorem foldl_zipWith_length (f : ι → β → α → β) (row : ι → List α) {ps : List ι} {n : Nat}
    (hrow : ∀ p ∈ ps, (row p).length = n) {init : List β} (hinit : init.length = n) :
    (ps.foldl (fun acc p => zipWith (f p) acc (row p)) init).length = n := by
  induction ps generalizing init with
  | nil => exact hinit
  | cons p ps ih =>
    apply ih fun q hq => hrow q (mem_cons_of_mem p hq)
    rw [length_zipWith, hinit, hrow p (by simp), Nat.min_self]

/-- Position `j` of the sum of rows is the sum of their entries at `j`. -/
theorem foldl_zipWith_getD (f : ι → β → α → β) (row : ι → List α) {ps : List ι} {n : Nat}
    (hrow : ∀ p ∈ ps, (row p).length = n) {init : List β} (hinit : init.length = n) {j : Nat}
    (hj : j < n) (b : β) (a : α) :
    (ps.foldl (fun acc p => zipWith (f p) acc (row p)) init).getD j b =
      ps.foldl (fun acc p => f p acc ((row p).getD j a)) (init.getD j b) := by
  induction ps generalizing init with
  | nil => rfl
  | cons p ps ih =>
    have hp : (row p).length = n := hrow p (by simp)
    have hzip : (zipWith (f p) init (row p)).length = n := by
      rw [length_zipWith, hinit, hp, Nat.min_self]
    rw [foldl_cons, ih (fun q hq => hrow q (mem_cons_of_mem p hq)) hzip, foldl_cons]
    congr 1
    rw [getD_eq_getElem _ _ (by omega), getD_eq_getElem _ _ (by omega),
      getD_eq_getElem _ _ (by omega), getElem_zipWith]

/-- A loop over integers whose steps keep a canonical form `P` and add `t p` in a ring: its result
    is canonical and is the sum of the terms. -/
theorem foldl_reduced {R : Type*} [Ring R] (P : Int → Prop) (step : Int → ι → Int) (t : ι → R)
    {ps : List ι} (hstep : ∀ p ∈ ps, ∀ a, P a → P (step a p) ∧ ((step a p : Int) : R) = a + t p)
    {a : Int} (ha : P a) :
    P (ps.foldl step a) ∧ ((ps.foldl step a : Int) : R) = a + (ps.map t).sum := by
  induction ps generalizing a with
  | nil => simpa using ha
  | cons p ps ih =>
    obtain ⟨hP, hcast⟩ := hstep p (by simp) a ha
    obtain ⟨hfold, hsum⟩ := ih (fun q hq => hstep q (mem_cons_of_mem p hq)) hP
    refine ⟨hfold, ?_⟩
    rw [foldl_cons, hsum, hcast, map_cons, sum_cons, add_assoc]

/-- Only the entries with a summand other than zero enter a sum. -/
theorem sum_map_filter_of_zero [AddCommMonoid β] (p : α → Prop) [DecidablePred p] {f : α → β}
    {l : List α} (h : ∀ a ∈ l, ¬p a → f a = 0) : (l.map f).sum = ((l.filter p).map f).sum := by
  induction l with
  | nil => rfl
  | cons a l ih =>
    rw [map_cons, sum_cons, ih fun b hb => h b (mem_cons_of_mem a hb)]
    by_cases ha : p a
    · rw [filter_cons_of_pos (by simpa using ha), map_cons, sum_cons]
    · rw [filter_cons_of_neg (by simpa using ha), h a mem_cons_self, zero_add]
      exact ha

/-- A list of images is the image of a list. -/
theorem exists_map_eq {f : β → α} {P : β → Prop} {l : List α} (h : ∀ a ∈ l, ∃ b, a = f b ∧ P b) :
    ∃ l' : List β, l = l'.map f ∧ ∀ b ∈ l', P b := by
  induction l with
  | nil => exact ⟨[], rfl, nofun⟩
  | cons a l ih =>
    obtain ⟨b, rfl, hb⟩ := h a mem_cons_self
    obtain ⟨l', rfl, hl'⟩ := ih fun a' ha' => h a' (mem_cons_of_mem _ ha')
    refine ⟨b :: l', rfl, fun b' hb' => ?_⟩
    obtain rfl | hb' := mem_cons.mp hb'
    · exact hb
    · exact hl' b' hb'

/-! ## Columns -/

/-- An update of one entry keeps a column that it keeps of every entry. -/
theorem map_modify_of_map_eq {g : α → β} {f : α → α} (h : ∀ a, g (f a) = g a) (i : Nat)
    (l : List α) : (l.modify i f).map g = l.map g := by
  apply ext_getElem?
  intro j
  rw [getElem?_map, getElem?_modify, getElem?_map, Option.map_eq_map, Option.map_map]
  congr 1
  funext a
  dsimp only [Function.comp_apply]
  split
  · exact h a
  · rfl

/-- An update of every entry keeps a column that it keeps of each. -/
theorem map_mapIdx_of_map_eq {g : α → β} {f : Nat → α → α} (h : ∀ i a, g (f i a) = g a)
    (l : List α) : (l.mapIdx f).map g = l.map g := by
  apply ext_getElem?
  intro j
  rw [getElem?_map, getElem?_mapIdx, getElem?_map, Option.map_map]
  congr 1
  funext a
  exact h j a

/-! ## Related lists -/

section

variable {R : α → β → Prop} {l : List α} {l' : List β}

/-- Related lists are related at every position. -/
theorem Forall₂.getElem? (h : Forall₂ R l l') (i : Nat) : Option.Rel R l[i]? l'[i]? := by
  induction h generalizing i with
  | nil => exact .none
  | cons hab _ ih =>
    cases i with
    | zero => exact .some hab
    | succ i => exact ih i

theorem Forall₂.eraseIdx (h : Forall₂ R l l') (i : Nat) :
    Forall₂ R (l.eraseIdx i) (l'.eraseIdx i) := by
  induction h generalizing i with
  | nil => exact .nil
  | cons hab hl ih =>
    cases i with
    | zero => exact hl
    | succ i => exact .cons hab (ih i)

/-- Functions that are equal on related entries give equal columns. -/
theorem Forall₂.map_eq_map {f : α → ι} {g : β → ι} (h : Forall₂ R l l')
    (hfg : ∀ a b, R a b → f a = g b) : l.map f = l'.map g := by
  induction h with
  | nil => rfl
  | cons hab _ ih => rw [map_cons, map_cons, hfg _ _ hab, ih]

end

end List
