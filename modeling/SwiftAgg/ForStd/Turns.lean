import Mathlib.Data.List.Basic
import Mathlib.Tactic.Common
import SwiftAgg.ForStd.Coroutine

/-!
# Computations that act once in every turn

`Emits I R E act P l c`: `c` performs the actions of the list `l`, one in each
turn, suspends after each of them, and ends. Between its turns anything may
happen, as long as `I` holds at the start of each, and `R x` at the start of the
turn after the action `x`; at the start of the first turn `P` holds. It may end
earlier with an exception of the kind `E`, in a turn in which it does nothing else.

## Key results

- `Emits.bind`, `Emits.forM`, `Emits.forPositions`: actions of sequences and loops
- `Emits.run_log`: what a computation has performed when it ran without interference
-/

namespace Coroutine

variable {ε σ α β ι κ : Type} {I : σ → Prop} {R : ι → σ → Prop} {E : ε → Prop}
  {act : ι → σ → σ → Prop} {P : σ → Prop}

/-- Turn by turn, the computation performs the actions of the list and then ends, or raises an
    exception of the kind `E`. -/
def Emits (I : σ → Prop) (R : ι → σ → Prop) (E : ε → Prop) (act : ι → σ → σ → Prop) :
    (σ → Prop) → List ι → Coroutine ε σ α → Prop
  | P, [], c => ∀ s, I s → P s → (∃ a, c.advance s = (.ended (.ok a), s)) ∨
      ∃ e, E e ∧ c.advance s = (.ended (.error e), s)
  | P, x :: l, c => ∀ s, I s → P s →
      (∃ k s', c.advance s = (.suspended k, s') ∧ act x s s' ∧ Emits I R E act (R x) l k) ∨
        ∃ e, E e ∧ c.advance s = (.ended (.error e), s)

/-! ## Rules -/

theorem Emits.ret (a : α) : Emits I R E act P [] (ret a : Coroutine ε σ α) :=
  fun _ _ _ => .inl ⟨a, rfl⟩

/-- Only the first turn, from the states with `I` and `P`, counts. -/
theorem Emits.of_advance {l : List ι} {c : Coroutine ε σ α}
    (h : ∀ s, I s → P s →
      (∃ c' Q, Emits I R E act Q l c' ∧ Q s ∧ c.advance s = c'.advance s) ∨
        ∃ e, E e ∧ c.advance s = (.ended (.error e), s)) : Emits I R E act P l c := by
  cases l with
  | nil =>
    intro s hs hP
    obtain ⟨c', Q, hc', hQ, heq⟩ | hraise := h s hs hP
    · rw [heq]
      exact hc' s hs hQ
    · exact .inr hraise
  | cons x l =>
    intro s hs hP
    obtain ⟨c', Q, hc', hQ, heq⟩ | hraise := h s hs hP
    · rw [heq]
      exact hc' s hs hQ
    · exact .inr hraise

theorem Emits.raise {e : ε} (he : E e) (l : List ι) :
    Emits I R E act P l (raise e : Coroutine ε σ α) :=
  .of_advance fun _ _ _ => .inr ⟨e, he, rfl⟩

theorem Emits.congr {l : List ι} {c c' : Coroutine ε σ α} (h : Emits I R E act P l c)
    (heq : ∀ s, I s → c'.advance s = c.advance s) : Emits I R E act P l c' :=
  .of_advance fun s hs hP => .inl ⟨c, P, h, hP, heq s hs⟩

theorem Emits.bind {l l' : List ι} {c : Coroutine ε σ α} {f : α → Coroutine ε σ β}
    (hc : Emits I R E act P l c) (hf : ∀ a, Emits I R E act (fun _ => True) l' (f a)) :
    Emits I R E act P (l ++ l') (c >>= f) := by
  induction l generalizing c P with
  | nil =>
    -- the first part ends in the turn in which the second part starts
    refine .of_advance fun s hs hP => ?_
    rw [advance_bind]
    obtain ⟨a, ha⟩ | ⟨e, he, ha⟩ := hc s hs hP
    · rw [ha]
      exact .inl ⟨f a, _, hf a, trivial, rfl⟩
    · rw [ha]
      exact .inr ⟨e, he, rfl⟩
  | cons x l ih =>
    intro s hs hP
    rw [advance_bind]
    obtain ⟨k, s', ha, hact, hk⟩ | ⟨e, he, ha⟩ := hc s hs hP
    · rw [ha]
      exact .inl ⟨k >>= f, s', rfl, hact, ih hk⟩
    · rw [ha]
      exact .inr ⟨e, he, rfl⟩

/-- After a computation without state, its result is known. -/
theorem Emits.liftExcept_bind {l : List ι} {x : Except ε α} {f : α → Coroutine ε σ β}
    (hok : ∀ a, x = .ok a → Emits I R E act P l (f a)) (herror : ∀ e, x = .error e → E e) :
    Emits I R E act P l (liftExcept x >>= f) := by
  cases x with
  | ok a => exact hok a rfl
  | error e => exact Emits.raise (herror e rfl) l

theorem Emits.forM {body : κ → Coroutine ε σ PUnit} {acts : κ → List ι} {l : List κ}
    (hbody : ∀ a ∈ l, Emits I R E act (fun _ => True) (acts a) (body a)) :
    Emits I R E act (fun _ => True) (l.flatMap acts) (l.forM body) := by
  induction l with
  | nil => exact Emits.ret _
  | cons a l ih =>
    show Emits I R E act _ (acts a ++ l.flatMap acts) (body a >>= fun _ => l.forM body)
    exact (hbody a (by simp)).bind fun _ => ih fun b hb => hbody b (List.mem_cons_of_mem a hb)

/-- A loop over the positions of a container whose size `I` fixes. -/
theorem Emits.forPositions {size : σ → Nat} {changed : ε} {body : Nat → Coroutine ε σ Unit}
    {n : Nat} {acts : Nat → List ι} (hsize : ∀ s, I s → size s = n)
    (hbody : ∀ i < n, Emits I R E act (fun _ => True) (acts i) (body i)) :
    Emits I R E act (fun _ => True) ((List.range n).flatMap acts)
      (forPositions size changed body) := by
  have hcheck : Emits I R E act (fun _ => True) [] (state >>= fun s' =>
      if size s' = n then Coroutine.ret () else Coroutine.raise changed : Coroutine ε σ Unit) := by
    intro s hs _
    refine .inl ⟨(), ?_⟩
    show (if size s = n then Coroutine.ret () else Coroutine.raise changed :
      Coroutine ε σ Unit).advance s = _
    rw [if_pos (hsize s hs)]
    rfl
  have hloop := (Emits.forM (l := List.range n) (fun i hi =>
    hcheck.bind fun _ => hbody i (List.mem_range.mp hi))).bind fun _ => hcheck
  rw [List.append_nil] at hloop
  refine hloop.congr fun s hs => ?_
  rw [← hsize s hs]
  rfl

/-! ## Executions -/

/-- What a computation has performed when it ran without interference. -/
theorem Emits.run_log {l : List ι} {c : Coroutine ε σ α} (h : Emits I R E act P l c)
    (hI : ∀ x s s', act x s s' → I s → I s' ∧ R x s') {log : σ → List ι}
    (hlog : ∀ x s s', act x s s' → log s' = log s ++ [x]) {s : σ} (hs : I s) (hP : P s) :
    I (c.run s).2 ∧ ∃ l', l' <+: l ∧ log (c.run s).2 = log s ++ l' := by
  induction l generalizing c s P with
  | nil =>
    obtain ⟨a, ha⟩ | ⟨e, -, ha⟩ := h s hs hP
    · rw [run_of_advance ha]
      exact ⟨hs, [], List.nil_prefix, (List.append_nil _).symm⟩
    · rw [run_of_advance ha]
      exact ⟨hs, [], List.nil_prefix, (List.append_nil _).symm⟩
  | cons x l ih =>
    -- one turn, and the rest by induction; or the run ends here
    obtain ⟨k, s', ha, hact, hk⟩ | ⟨e, -, ha⟩ := h s hs hP
    · rw [run_eq_advance, ha]
      obtain ⟨hI', hR⟩ := hI x s s' hact hs
      obtain ⟨hend, l', hl', hlog'⟩ := ih hk hI' hR
      refine ⟨hend, x :: l', (List.prefix_cons_inj x).mpr hl', ?_⟩
      rw [hlog', hlog x s s' hact, List.append_assoc]
      rfl
    · rw [run_of_advance ha]
      exact ⟨hs, [], List.nil_prefix, (List.append_nil _).symm⟩

end Coroutine
