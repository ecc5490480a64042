import Mathlib.Data.List.Basic
import Mathlib.Tactic.Common

/-!
# Loops that may raise

A monadic loop in `Except` whose steps all succeed is the pure loop over the
results of its steps.

## Key results

- `Except.bind_eq_ok`: a sequence that returns
- `Except.RaisesOnly`: the exceptions a computation can raise, with rules for sequences and loops
- `List.mapM_eq_ok`: a `mapM` with succeeding steps
- `List.foldlM_eq_ok`: a `foldlM` whose steps succeed on states that satisfy an invariant
- `List.mapM_ok_mem` / `List.foldlM_ok_mem`: in a loop that returned, every step returned
- `List.zipIdx_eq_map_range`: enumeration as a map over indices
-/

/-- A sequence returns if both its parts do. -/
theorem Except.bind_eq_ok {ε α β : Type} {x : Except ε α} {f : α → Except ε β} {b : β} :
    (x >>= f) = .ok b ↔ ∃ a, x = .ok a ∧ f a = .ok b := by
  cases x with
  | error e => exact ⟨nofun, nofun⟩
  | ok a => exact ⟨fun h => ⟨a, rfl, h⟩, fun ⟨_, ha, hf⟩ => Except.ok.inj ha ▸ hf⟩

theorem Except.toOption_eq_some {ε α : Type} {x : Except ε α} {a : α} (h : x.toOption = some a) :
    x = .ok a := by
  cases x with
  | error e => cases h
  | ok b =>
    cases h
    rfl

/-- Every exception of the computation is of the kind `E`. -/
def Except.RaisesOnly {ε α : Type} (E : ε → Prop) (x : Except ε α) : Prop :=
  ∀ e, x = .error e → E e

section

variable {ε α β : Type} {E : ε → Prop}

theorem Except.RaisesOnly.ok (a : α) : RaisesOnly E (.ok a) := nofun

theorem Except.RaisesOnly.error {e : ε} (he : E e) : RaisesOnly E (.error e : Except ε α) := by
  intro e' he'
  cases he'
  exact he

theorem Except.RaisesOnly.bind {x : Except ε α} {f : α → Except ε β} (hx : RaisesOnly E x)
    (hf : ∀ a, RaisesOnly E (f a)) : RaisesOnly E (x >>= f) := by
  cases x with
  | ok a => exact hf a
  | error e => exact Except.RaisesOnly.error (hx e rfl)

theorem Except.RaisesOnly.foldlM {f : β → α → Except ε β} (hf : ∀ b a, RaisesOnly E (f b a))
    (l : List α) (b : β) : RaisesOnly E (l.foldlM f b) := by
  induction l generalizing b with
  | nil => exact Except.RaisesOnly.ok b
  | cons a l ih =>
    rw [List.foldlM_cons]
    exact (hf b a).bind fun b' => ih b'

theorem Except.RaisesOnly.mapM {f : α → Except ε β} (hf : ∀ a, RaisesOnly E (f a)) (l : List α) :
    RaisesOnly E (l.mapM f) := by
  induction l with
  | nil => exact Except.RaisesOnly.ok []
  | cons a l ih =>
    rw [List.mapM_cons]
    exact (hf a).bind fun b => ih.bind fun bs => Except.RaisesOnly.ok (b :: bs)

end

namespace List

variable {ε α β : Type}

/-- A `mapM` whose steps all succeed. -/
theorem mapM_eq_ok {f : α → Except ε β} {g : α → β} {l : List α}
    (h : ∀ a ∈ l, f a = .ok (g a)) : l.mapM f = .ok (l.map g) := by
  induction l with
  | nil => rfl
  | cons a l ih =>
    rw [mapM_cons, h a (by simp), ih fun b hb => h b (mem_cons_of_mem a hb)]
    rfl

/-- A `foldlM` whose steps succeed on every state that satisfies `Inv`, and keep it. -/
theorem foldlM_eq_ok {f : β → α → Except ε β} {g : β → α → β} (Inv : β → Prop) {l : List α}
    (h : ∀ a ∈ l, ∀ b, Inv b → f b a = .ok (g b a) ∧ Inv (g b a)) {b : β} (hb : Inv b) :
    l.foldlM f b = .ok (l.foldl g b) ∧ Inv (l.foldl g b) := by
  induction l generalizing b with
  | nil => exact ⟨rfl, hb⟩
  | cons a l ih =>
    obtain ⟨hstep, hinv⟩ := h a (by simp) b hb
    rw [foldlM_cons, hstep, foldl_cons]
    exact ih (fun c hc => h c (mem_cons_of_mem a hc)) hinv

/-- Two loops whose steps are the same for the elements of the list. -/
theorem foldlM_congr_mem {f g : β → α → Except ε β} {l : List α}
    (h : ∀ a ∈ l, ∀ b, f b a = g b a) {b : β} : l.foldlM f b = l.foldlM g b := by
  induction l generalizing b with
  | nil => rfl
  | cons a l ih =>
    rw [foldlM_cons, foldlM_cons, h a mem_cons_self]
    congr 1
    funext b'
    exact ih fun c hc => h c (mem_cons_of_mem a hc)

/-- What every step of a `foldlM` that returned keeps, the loop keeps. -/
theorem foldlM_ok_invariant {f : β → α → Except ε β} (Inv : β → Prop) {l : List α}
    (h : ∀ a ∈ l, ∀ b b', Inv b → f b a = .ok b' → Inv b') {b b' : β} (hb : Inv b)
    (hfold : l.foldlM f b = .ok b') : Inv b' := by
  induction l generalizing b with
  | nil =>
    cases hfold
    exact hb
  | cons a l ih =>
    rw [foldlM_cons] at hfold
    obtain ⟨b₁, hstep, hrest⟩ := Except.bind_eq_ok.mp hfold
    exact ih (fun c hc => h c (mem_cons_of_mem a hc)) (h a (by simp) b b₁ hb hstep) hrest

/-- In a `mapM` that returned, every step returned. -/
theorem mapM_ok_mem {f : α → Except ε β} {l : List α} {bs : List β} (h : l.mapM f = .ok bs) {a : α}
    (ha : a ∈ l) : ∃ b, f a = .ok b := by
  induction l generalizing bs with
  | nil => exact absurd ha not_mem_nil
  | cons a' l ih =>
    rw [mapM_cons] at h
    obtain ⟨b, hb, hrest⟩ := Except.bind_eq_ok.mp h
    obtain ⟨bs', hbs', -⟩ := Except.bind_eq_ok.mp hrest
    rcases mem_cons.mp ha with rfl | ha
    · exact ⟨b, hb⟩
    · exact ih hbs' ha

/-- In a `foldlM` that returned, every step returned. -/
theorem foldlM_ok_mem {f : β → α → Except ε β} {l : List α} {b b' : β}
    (h : l.foldlM f b = .ok b') {a : α} (ha : a ∈ l) : ∃ c c', f c a = .ok c' := by
  induction l generalizing b with
  | nil => exact absurd ha not_mem_nil
  | cons a' l ih =>
    rw [foldlM_cons] at h
    obtain ⟨b₁, hstep, hrest⟩ := Except.bind_eq_ok.mp h
    rcases mem_cons.mp ha with rfl | ha
    · exact ⟨b, b₁, hstep⟩
    · exact ih hrest ha

/-- Enumerating a list pairs each index of its range with the element there. -/
theorem zipIdx_eq_map_range (l : List α) (d : α) :
    l.zipIdx = (range l.length).map fun i => (l.getD i d, i) := by
  apply ext_getElem
  · simp
  · intro i h₁ h₂
    have hi : i < l.length := by simpa using h₁
    simp [hi]

end List
