import Mathlib.Logic.Relation
import SwiftAgg.ForStd.Coroutine

/-!
# Rely and guarantee for coroutines

A contract says what the other computations may do to the state while a
computation is suspended, what each of its own writes may do, and what holds
whenever it suspends. `Safe` is the judgement that a computation keeps its
contract from a state on and ends in its postcondition.

## Key results

- `Safe.bind`, `Follows.bind`, `Follows.forM`: the rules for sequences and loops
- `Safe.run`: a run without interference is a chain of promised writes
- `Safe.advance`: so is one turn of a scheduler, and the rest keeps the contract
- `Raises.run`, `Raises.advance`: the exceptions a computation can end with
-/

/-- What every step preserves, a chain of steps preserves. -/
theorem Relation.ReflTransGen.preserves {α : Type} {r : α → α → Prop} {P : α → Prop} {a b : α}
    (h : Relation.ReflTransGen r a b) (hstep : ∀ a b, r a b → P a → P b) (ha : P a) : P b := by
  induction h with
  | refl => exact ha
  | tail _ hr ih => exact hstep _ _ hr ih

/-- What a computation relies on and promises. -/
structure Contract (σ : Type) where
  rely : σ → σ → Prop
  guar : σ → σ → Prop
  pause : σ → Prop

/-- Neither the computation nor its surroundings break `I`. -/
structure Contract.Preserves {σ : Type} (C : Contract σ) (I : σ → Prop) : Prop where
  rely : ∀ s s', C.rely s s' → I s → I s'
  guar : ∀ s s', C.guar s s' → I s → I s'

/-- A contract for any interference that keeps `I`, which promises nothing about suspensions. -/
def Contract.writing {σ : Type} (I : σ → Prop) (guar : σ → σ → Prop) : Contract σ where
  rely s s' := I s → I s'
  guar := guar
  pause _ := True

theorem Contract.writing_preserves {σ : Type} {I : σ → Prop} {guar : σ → σ → Prop}
    (h : ∀ s s', guar s s' → I s → I s') : (Contract.writing I guar).Preserves I :=
  ⟨fun _ _ hrely => hrely, h⟩

namespace Coroutine

open Relation

variable {ε σ α β ι : Type} {C : Contract σ} {s : σ}

/-- Started in `s`, the computation keeps the contract, and `post` holds where it ends. -/
def Safe (C : Contract σ) (post : Except ε α → σ → Prop) : Coroutine ε σ α → σ → Prop
  | ret a, s => post (.ok a) s
  | raise e, s => post (.error e) s
  | get k, s => Safe C post (k s) s
  | put s' k, s => C.guar s s' ∧ Safe C post k s'
  | await k, s => C.pause s ∧ ∀ s', C.rely s s' → Safe C post k s'

/-- The computation keeps the contract from every state in which `I` holds, and keeps `I`. -/
def Follows (I : σ → Prop) (C : Contract σ) (c : Coroutine ε σ α) : Prop :=
  ∀ s, I s → Safe C (fun _ s => I s) c s

/-! ## Rules -/

theorem Safe.mono {post post' : Except ε α → σ → Prop} {c : Coroutine ε σ α} (h : Safe C post c s)
    (hpost : ∀ r s, post r s → post' r s) : Safe C post' c s := by
  induction c generalizing s with
  | ret a => exact hpost _ _ h
  | raise e => exact hpost _ _ h
  | get k ih => exact ih s h
  | put s' k ih => exact ⟨h.1, ih h.2⟩
  | await k ih => exact ⟨h.1, fun s' hs' => ih (h.2 s' hs')⟩

theorem Safe.weaken {C' : Contract σ} {post : Except ε α → σ → Prop} {c : Coroutine ε σ α}
    (h : Safe C post c s) (hrely : ∀ s s', C'.rely s s' → C.rely s s')
    (hguar : ∀ s s', C.guar s s' → C'.guar s s') (hpause : ∀ s, C.pause s → C'.pause s) :
    Safe C' post c s := by
  induction c generalizing s with
  | ret a => exact h
  | raise e => exact h
  | get k ih => exact ih s h
  | put s' k ih => exact ⟨hguar _ _ h.1, ih h.2⟩
  | await k ih => exact ⟨hpause _ h.1, fun s' hs' => ih (h.2 s' (hrely _ _ hs'))⟩

/-- Sequencing: the second part starts where the first one returned. -/
theorem Safe.bind {post : Except ε β → σ → Prop} {c : Coroutine ε σ α} {f : α → Coroutine ε σ β}
    (h : Safe C (fun r s => match r with
      | .ok a => Safe C post (f a) s
      | .error e => post (.error e) s) c s) : Safe C post (c >>= f) s := by
  show Safe C post (Coroutine.bind c f) s
  induction c generalizing s with
  | ret a => exact h
  | raise e => exact h
  | get k ih => exact ih s h
  | put s' k ih => exact ⟨h.1, ih h.2⟩
  | await k ih => exact ⟨h.1, fun s' hs' => ih (h.2 s' hs')⟩

theorem Safe.state_bind {post : Except ε β → σ → Prop} {f : σ → Coroutine ε σ β}
    (h : Safe C post (f s) s) : Safe C post (Coroutine.state >>= f) s := h

/-! ## Contracts with an invariant -/

section

variable {I : σ → Prop}

theorem Follows.weaken {C' : Contract σ} {c : Coroutine ε σ α} (h : Follows I C c)
    (hrely : ∀ s s', C'.rely s s' → C.rely s s') (hguar : ∀ s s', C.guar s s' → C'.guar s s')
    (hpause : ∀ s, C.pause s → C'.pause s) : Follows I C' c :=
  fun s hs => (h s hs).weaken hrely hguar hpause

theorem Follows.pure (a : α) : Follows I C (Pure.pure a : Coroutine ε σ α) := fun _ hs => hs

theorem Follows.raise (e : ε) : Follows I C (raise e : Coroutine ε σ α) := fun _ hs => hs

theorem Follows.bind {c : Coroutine ε σ α} {f : α → Coroutine ε σ β} (hc : Follows I C c)
    (hf : ∀ a, Follows I C (f a)) : Follows I C (c >>= f) := by
  intro s hs
  refine Safe.bind ((hc s hs).mono ?_)
  intro r s' hs'
  cases r with
  | ok a => exact hf a s' hs'
  | error e => exact hs'

theorem Follows.state : Follows I C (state : Coroutine ε σ σ) := fun _ hs => hs

/-- What is read comes from a state with `I`. -/
theorem Follows.state_bind {f : σ → Coroutine ε σ α} (hf : ∀ s, I s → Follows I C (f s)) :
    Follows I C (Coroutine.state >>= f) :=
  fun s hs => hf s hs s hs

theorem Follows.update (hC : C.Preserves I) {f : σ → σ} (hf : ∀ s, I s → C.guar s (f s)) :
    Follows I C (update f : Coroutine ε σ Unit) :=
  fun s hs => ⟨hf s hs, hC.guar _ _ (hf s hs) hs⟩

theorem Follows.suspend (hC : C.Preserves I) (hpause : ∀ s, I s → C.pause s) :
    Follows I C (suspend : Coroutine ε σ Unit) :=
  fun s hs => ⟨hpause s hs, fun _ hrely => hC.rely _ _ hrely hs⟩

theorem Follows.liftExcept (x : Except ε α) : Follows I C (liftExcept x : Coroutine ε σ α) := by
  cases x with
  | ok a => exact fun _ hs => hs
  | error e => exact fun _ hs => hs

/-- After a computation without state, its result is known. -/
theorem Follows.liftExcept_bind {x : Except ε α} {f : α → Coroutine ε σ β}
    (hf : ∀ a, x = .ok a → Follows I C (f a)) : Follows I C (Coroutine.liftExcept x >>= f) := by
  cases x with
  | ok a => exact hf a rfl
  | error e => exact fun _ hs => hs

theorem Follows.forM_mem {body : ι → Coroutine ε σ PUnit} {l : List ι}
    (hbody : ∀ a ∈ l, Follows I C (body a)) : Follows I C (l.forM body) := by
  induction l with
  | nil => exact Follows.pure _
  | cons a l ih =>
    show Follows I C (body a >>= fun _ => l.forM body)
    exact (hbody a (by simp)).bind fun _ => ih fun b hb => hbody b (List.mem_cons_of_mem a hb)

theorem Follows.forM {body : ι → Coroutine ε σ PUnit} (hbody : ∀ a, Follows I C (body a))
    (l : List ι) : Follows I C (l.forM body) :=
  Follows.forM_mem fun a _ => hbody a

theorem Follows.forPositions {size : σ → Nat} {changed : ε} {body : Nat → Coroutine ε σ Unit}
    (hbody : ∀ i, Follows I C (body i)) : Follows I C (forPositions size changed body) := by
  have hcheck : ∀ n, Follows I C (Coroutine.state >>= fun s' =>
      if size s' = n then ret () else Coroutine.raise changed : Coroutine ε σ Unit) := by
    intro n
    refine Follows.state.bind fun s' => ?_
    split
    · exact Follows.pure ()
    · exact Follows.raise changed
  unfold Coroutine.forPositions
  refine Follows.state.bind fun s => ?_
  exact (Follows.forM (fun i => (hcheck _).bind fun _ => hbody i) _).bind fun _ => hcheck _

end

/-! ## Executions -/

/-- Without interference a computation runs through promised writes into its postcondition. -/
theorem Safe.run {post : Except ε α → σ → Prop} {c : Coroutine ε σ α} (h : Safe C post c s)
    (hrefl : ∀ s, C.rely s s) :
    ReflTransGen C.guar s (c.run s).2 ∧ post (c.run s).1 (c.run s).2 := by
  induction c generalizing s with
  | ret a => exact ⟨.refl, h⟩
  | raise e => exact ⟨.refl, h⟩
  | get k ih => exact ih s h
  | put s' k ih =>
    obtain ⟨hsteps, hpost⟩ := ih h.2
    exact ⟨.head h.1 hsteps, hpost⟩
  | await k ih => exact ih (h.2 s (hrefl s))

/-- One turn runs through promised writes, to an end in the postcondition or to a suspension from
    which the contract is kept after any interference it allows. -/
theorem Safe.advance {post : Except ε α → σ → Prop} {c : Coroutine ε σ α} (h : Safe C post c s) :
    ReflTransGen C.guar s (c.advance s).2 ∧
      match (c.advance s).1 with
      | .ended r => post r (c.advance s).2
      | .suspended k => C.pause (c.advance s).2 ∧
          ∀ s', C.rely (c.advance s).2 s' → Safe C post k s' := by
  induction c generalizing s with
  | ret a => exact ⟨.refl, h⟩
  | raise e => exact ⟨.refl, h⟩
  | get k ih => exact ih s h
  | put s' k ih =>
    obtain ⟨hsteps, hstop⟩ := ih h.2
    exact ⟨.head h.1 hsteps, hstop⟩
  | await k ih => exact ⟨.refl, h⟩

/-- One turn of a computation that keeps `I` through the writes of `guar`: it keeps `I`, and what is
    left of it is again such a computation. -/
theorem Follows.advance_writing {I : σ → Prop} {guar : σ → σ → Prop} {c : Coroutine ε σ α}
    (h : Follows I (Contract.writing I guar) c) (hguar : ∀ s s', guar s s' → I s → I s')
    (hs : I s) :
    ReflTransGen guar s (c.advance s).2 ∧ I (c.advance s).2 ∧
      ∀ k, (c.advance s).1 = .suspended k → Follows I (Contract.writing I guar) k := by
  obtain ⟨hsteps, hstop⟩ := (h s hs).advance
  have hI : I (c.advance s).2 := hsteps.preserves hguar hs
  refine ⟨hsteps, hI, fun k hk s' hs' => ?_⟩
  rw [hk] at hstop
  exact hstop.2 s' fun _ => hs'

/-! ## Exceptions -/

section

variable {I : σ → Prop} {E : ε → Prop}

/-- From every state with `I`, in surroundings that keep `I`, the computation keeps `I`, and raises
    only exceptions of the kind `E`. -/
def Raises (I : σ → Prop) (E : ε → Prop) (c : Coroutine ε σ α) : Prop :=
  ∀ s, I s → Safe (Contract.writing I fun s s' => I s → I s')
    (fun r s => I s ∧ ∀ e, r = .error e → E e) c s

theorem Raises.pure (a : α) : Raises I E (Pure.pure a : Coroutine ε σ α) := fun _ hs => ⟨hs, nofun⟩

theorem Raises.raise {e : ε} (he : E e) : Raises I E (raise e : Coroutine ε σ α) := by
  refine fun _ hs => ⟨hs, fun e' he' => ?_⟩
  cases he'
  exact he

theorem Raises.bind {c : Coroutine ε σ α} {f : α → Coroutine ε σ β} (hc : Raises I E c)
    (hf : ∀ a, Raises I E (f a)) : Raises I E (c >>= f) := by
  intro s hs
  refine Safe.bind ((hc s hs).mono ?_)
  rintro r s' ⟨hs', hr⟩
  cases r with
  | ok a => exact hf a s' hs'
  | error e => exact ⟨hs', fun e' he' => Except.error.inj he' ▸ hr e rfl⟩

/-- What is read comes from a state with `I`. -/
theorem Raises.state_bind {f : σ → Coroutine ε σ α} (hf : ∀ s, I s → Raises I E (f s)) :
    Raises I E (state >>= f) :=
  fun s hs => hf s hs s hs

theorem Raises.update {f : σ → σ} (hf : ∀ s, I s → I (f s)) :
    Raises I E (update f : Coroutine ε σ Unit) :=
  fun s hs => ⟨hf s, hf s hs, nofun⟩

theorem Raises.suspend : Raises I E (suspend : Coroutine ε σ Unit) :=
  fun _ hs => ⟨trivial, fun _ hrely => ⟨hrely hs, nofun⟩⟩

theorem Raises.liftExcept_bind {x : Except ε α} {f : α → Coroutine ε σ β}
    (hok : ∀ a, x = .ok a → Raises I E (f a)) (herror : ∀ e, x = .error e → E e) :
    Raises I E (Coroutine.liftExcept x >>= f) := by
  cases x with
  | ok a => exact hok a rfl
  | error e => exact Raises.raise (herror e rfl)

theorem Raises.forM {body : ι → Coroutine ε σ PUnit} {l : List ι}
    (hbody : ∀ a ∈ l, Raises I E (body a)) : Raises I E (l.forM body) := by
  induction l with
  | nil => exact Raises.pure _
  | cons a l ih =>
    show Raises I E (body a >>= fun _ => l.forM body)
    exact (hbody a (by simp)).bind fun _ => ih fun b hb => hbody b (List.mem_cons_of_mem a hb)

/-- A loop over the positions of a container whose size `I` fixes does not find it changed. -/
theorem Raises.forPositions {size : σ → Nat} {changed : ε} {body : Nat → Coroutine ε σ Unit}
    {n : Nat} (hsize : ∀ s, I s → size s = n) (hbody : ∀ i, Raises I E (body i)) :
    Raises I E (forPositions size changed body) := by
  have hcheck : Raises I E (Coroutine.state >>= fun s' =>
      if size s' = n then ret () else Coroutine.raise changed : Coroutine ε σ Unit) := by
    refine Raises.state_bind fun s' hs' => ?_
    rw [if_pos (hsize s' hs')]
    exact Raises.pure ()
  unfold Coroutine.forPositions
  refine Raises.state_bind fun s hs => ?_
  rw [hsize s hs]
  exact (Raises.forM fun i _ => hcheck.bind fun _ => hbody i).bind fun _ => hcheck

/-- The exceptions of a run without interference. -/
theorem Raises.run {c : Coroutine ε σ α} (h : Raises I E c) (hs : I s) :
    I (c.run s).2 ∧ ∀ e, (c.run s).1 = .error e → E e :=
  ((h s hs).run fun _ h => h).2

/-- The exceptions of one turn; what is left raises no others. -/
theorem Raises.advance {c : Coroutine ε σ α} (h : Raises I E c) (hs : I s) :
    I (c.advance s).2 ∧ (∀ e, (c.advance s).1 = .ended (.error e) → E e) ∧
      ∀ k, (c.advance s).1 = .suspended k → Raises I E k := by
  obtain ⟨hsteps, hstop⟩ := (h s hs).advance
  refine ⟨hsteps.preserves (fun _ _ hstep => hstep) hs, fun e he => ?_, fun k hk s' hs' => ?_⟩
  · rw [he] at hstop
    exact hstop.2 e rfl
  · rw [hk] at hstop
    exact hstop.2 s' fun _ => hs'

end

end Coroutine
