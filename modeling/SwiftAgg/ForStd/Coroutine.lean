/-!
# Coroutines

A computation over a shared state that may raise an exception and may suspend:
between two suspension points it runs alone, at a suspension point other
computations may change the state. `run` is the execution without
interference, in which every suspension resumes at once; what was written
before an exception stays written. `advance` is one turn of a scheduler.

## Key results

- `run_bind`: running a sequence is running its parts one after the other
- `run_bind_eq_ok`: a sequence that returned
- `run_forM_invariant`, `run_forM_reaches`: loops that returned
-/

/-- A computation with exceptions `ε` and results `α` over a shared state `σ`. -/
inductive Coroutine (ε σ α : Type) : Type where
  | ret (a : α)
  | raise (e : ε)
  | get (k : σ → Coroutine ε σ α)
  | put (s : σ) (k : Coroutine ε σ α)
  | await (k : Coroutine ε σ α)

namespace Coroutine

variable {ε σ α β : Type}

/-- Sequencing. -/
def bind : Coroutine ε σ α → (α → Coroutine ε σ β) → Coroutine ε σ β
  | ret a, f => f a
  | raise e, _ => raise e
  | get k, f => get fun s => bind (k s) f
  | put s k, f => put s (bind k f)
  | await k, f => await (bind k f)

instance : Monad (Coroutine ε σ) where
  pure := ret
  bind := bind

theorem bind_assoc' {γ : Type} (c : Coroutine ε σ α) (f : α → Coroutine ε σ β)
    (g : β → Coroutine ε σ γ) : (c.bind f).bind g = c.bind fun a => (f a).bind g := by
  induction c with
  | ret a => rfl
  | raise e => rfl
  | get k ih => exact congrArg get (funext ih)
  | put s k ih => exact congrArg (put s) ih
  | await k ih => exact congrArg await ih

theorem bind_ret (c : Coroutine ε σ α) : c.bind ret = c := by
  induction c with
  | ret a => rfl
  | raise e => rfl
  | get k ih => exact congrArg get (funext ih)
  | put s k ih => exact congrArg (put s) ih
  | await k ih => exact congrArg await ih

instance : LawfulMonad (Coroutine ε σ) :=
  LawfulMonad.mk' _ bind_ret (fun _ _ => rfl) bind_assoc'

/-- Read the state. -/
def state : Coroutine ε σ σ := get ret

/-- Change the state. -/
def update (f : σ → σ) : Coroutine ε σ Unit := get fun s => put (f s) (ret ())

/-- Suspend once. -/
def suspend : Coroutine ε σ Unit := await (ret ())

/-- A computation that does not touch the state. -/
def liftExcept : Except ε α → Coroutine ε σ α
  | .ok a => ret a
  | .error e => raise e

theorem liftExcept_bind (x : Except ε α) (f : α → Except ε β) :
    (liftExcept (x >>= f) : Coroutine ε σ β) = liftExcept x >>= fun a => liftExcept (f a) := by
  cases x with
  | ok a => rfl
  | error e => rfl

theorem liftExcept_ok_bind (a : α) (f : α → Coroutine ε σ β) :
    liftExcept (.ok a) >>= f = f a := rfl

/-- Visit the positions of a container one after the other; if its size is found changed before a
    position or at the end, raise `changed`. -/
def forPositions (size : σ → Nat) (changed : ε) (body : Nat → Coroutine ε σ Unit) :
    Coroutine ε σ Unit :=
  state >>= fun s =>
    let check : Coroutine ε σ Unit := state >>= fun s' =>
      if size s' = size s then ret () else raise changed
    ((List.range (size s)).forM fun i => check >>= fun _ => body i) >>= fun _ => check

/-- Run without interference. -/
def run : Coroutine ε σ α → σ → Except ε α × σ
  | ret a, s => (.ok a, s)
  | raise e, s => (.error e, s)
  | get k, s => run (k s) s
  | put s' k, _ => run k s'
  | await k, s => run k s

/-- Where a computation stops: it has ended, or it is suspended and goes on with `k`. -/
inductive Stop (ε σ α : Type) : Type where
  | ended (result : Except ε α)
  | suspended (k : Coroutine ε σ α)

/-- Run up to the next suspension. -/
def advance : Coroutine ε σ α → σ → Stop ε σ α × σ
  | ret a, s => (.ended (.ok a), s)
  | raise e, s => (.ended (.error e), s)
  | get k, s => advance (k s) s
  | put s' k, _ => advance k s'
  | await k, s => (.suspended k, s)

/-- Running without interference is taking one turn after the other. -/
theorem run_eq_advance (c : Coroutine ε σ α) (s : σ) :
    c.run s =
      match c.advance s with
      | (.ended r, s') => (r, s')
      | (.suspended k, s') => k.run s' := by
  induction c generalizing s with
  | ret a => rfl
  | raise e => rfl
  | get k ih => exact ih s s
  | put s' k ih => exact ih s'
  | await k ih => rfl

theorem run_of_advance {c : Coroutine ε σ α} {s s' : σ} {r : Except ε α}
    (h : c.advance s = (.ended r, s')) : c.run s = (r, s') := by
  rw [run_eq_advance, h]

theorem run_eq_of_advance_eq {c c' : Coroutine ε σ α} {s s' : σ}
    (h : c.advance s = c'.advance s') : c.run s = c'.run s' := by
  rw [run_eq_advance, run_eq_advance c', h]

/-- One turn of a sequence: if the first part ends in it, the turn goes on with the second. -/
theorem advance_bind (c : Coroutine ε σ α) (f : α → Coroutine ε σ β) (s : σ) :
    (c >>= f).advance s =
      match c.advance s with
      | (.ended (.ok a), s') => (f a).advance s'
      | (.ended (.error e), s') => (.ended (.error e), s')
      | (.suspended k, s') => (.suspended (k >>= f), s') := by
  change (bind c f).advance s = _
  induction c generalizing s with
  | ret a => rfl
  | raise e => rfl
  | get k ih => exact ih s s
  | put s' k ih => exact ih s'
  | await k ih => rfl

/-- Running a sequence: an exception of the first part ends it, its changes stay. -/
theorem run_bind (c : Coroutine ε σ α) (f : α → Coroutine ε σ β) (s : σ) :
    (c >>= f).run s =
      match c.run s with
      | (.ok a, s') => (f a).run s'
      | (.error e, s') => (.error e, s') := by
  change (bind c f).run s = _
  induction c generalizing s with
  | ret a => rfl
  | raise e => rfl
  | get k ih => exact ih s s
  | put s' k ih => exact ih s'
  | await k ih => exact ih s

theorem run_bind_of_ok {c : Coroutine ε σ α} {f : α → Coroutine ε σ β} {s s' : σ} {a : α}
    (h : c.run s = (.ok a, s')) : (c >>= f).run s = (f a).run s' := by
  rw [run_bind, h]

theorem run_bind_of_error {c : Coroutine ε σ α} {f : α → Coroutine ε σ β} {s s' : σ} {e : ε}
    (h : c.run s = (.error e, s')) : (c >>= f).run s = (.error e, s') := by
  rw [run_bind, h]

@[simp] theorem run_state (s : σ) : (state : Coroutine ε σ σ).run s = (.ok s, s) := rfl

@[simp] theorem run_update (f : σ → σ) (s : σ) :
    (update f : Coroutine ε σ Unit).run s = (.ok (), f s) := rfl

@[simp] theorem run_pure (a : α) (s : σ) : (pure a : Coroutine ε σ α).run s = (.ok a, s) := rfl

@[simp] theorem run_raise (e : ε) (s : σ) :
    (raise e : Coroutine ε σ α).run s = (.error e, s) := rfl

/-! ## Runs that return -/

/-- A sequence returns if its parts do, one after the other. -/
theorem run_bind_eq_ok {c : Coroutine ε σ α} {f : α → Coroutine ε σ β} {s s' : σ} {b : β} :
    (c >>= f).run s = (.ok b, s') ↔ ∃ a s₁, c.run s = (.ok a, s₁) ∧ (f a).run s₁ = (.ok b, s') := by
  rw [run_bind]
  split
  · rename_i a s₁ hc
    constructor
    · exact fun h => ⟨a, s₁, hc, h⟩
    · rintro ⟨a', s₁', hc', h⟩
      obtain ⟨ha, rfl⟩ := Prod.mk.inj (hc.symm.trans hc')
      obtain rfl := Except.ok.inj ha
      exact h
  · rename_i e s₁ hc
    constructor
    · intro h
      cases h
    · rintro ⟨a', s₁', hc', -⟩
      cases hc.symm.trans hc'

theorem run_liftExcept_eq_ok {x : Except ε α} {s s' : σ} {a : α}
    (h : (liftExcept x : Coroutine ε σ α).run s = (.ok a, s')) : x = .ok a ∧ s' = s := by
  cases x with
  | ok b =>
    cases h
    exact ⟨rfl, rfl⟩
  | error e => cases h

variable {ι : Type} {body : ι → Coroutine ε σ PUnit} {l : List ι} {s s' : σ}

theorem run_forM_cons {a : ι} (h : ((a :: l).forM body).run s = (.ok ⟨⟩, s')) :
    ∃ s₁, (body a).run s = (.ok ⟨⟩, s₁) ∧ (l.forM body).run s₁ = (.ok ⟨⟩, s') := by
  obtain ⟨_, s₁, hfirst, hrest⟩ := run_bind_eq_ok.mp h
  exact ⟨s₁, hfirst, hrest⟩

/-- What every step of a loop keeps, the loop keeps. -/
theorem run_forM_invariant (Inv : σ → Prop)
    (hbody : ∀ a ∈ l, ∀ s s', Inv s → (body a).run s = (.ok ⟨⟩, s') → Inv s') (hs : Inv s)
    (h : (l.forM body).run s = (.ok ⟨⟩, s')) : Inv s' := by
  induction l generalizing s with
  | nil =>
    cases h
    exact hs
  | cons a l ih =>
    obtain ⟨s₁, hfirst, hrest⟩ := run_forM_cons h
    exact ih (fun b hb => hbody b (List.mem_cons_of_mem a hb))
      (hbody a List.mem_cons_self s s₁ hs hfirst) hrest

/-- A loop whose steps change nothing. -/
theorem run_forM_unchanged (hbody : ∀ a ∈ l, ∀ s', (body a).run s = (.ok ⟨⟩, s') → s' = s)
    (h : (l.forM body).run s = (.ok ⟨⟩, s')) : s' = s := by
  refine run_forM_invariant (fun s' => s' = s) (fun a ha s₁ s₂ hs hrun => ?_) rfl h
  subst hs
  exact hbody a ha s₂ hrun

/-- What one step of a loop brings about and all its steps keep holds in the end. -/
theorem run_forM_reaches (Inv P : σ → Prop)
    (hbody : ∀ a ∈ l, ∀ s s', Inv s → (body a).run s = (.ok ⟨⟩, s') → Inv s' ∧ (P s → P s'))
    {a : ι} (ha : a ∈ l) (hdo : ∀ s s', Inv s → (body a).run s = (.ok ⟨⟩, s') → P s')
    (hs : Inv s) (h : (l.forM body).run s = (.ok ⟨⟩, s')) : P s' := by
  induction l generalizing s with
  | nil => exact absurd ha List.not_mem_nil
  | cons b l ih =>
    obtain ⟨s₁, hfirst, hrest⟩ := run_forM_cons h
    have hs₁ := (hbody b List.mem_cons_self s s₁ hs hfirst).1
    have hbody' := fun c hc => hbody c (List.mem_cons_of_mem b hc)
    rcases List.mem_cons.mp ha with rfl | ha
    · refine (run_forM_invariant (fun s => Inv s ∧ P s) (fun c hc s s' hP hstep => ?_)
        ⟨hs₁, hdo s s₁ hs hfirst⟩ hrest).2
      obtain ⟨hs', hkeep⟩ := hbody' c hc s s' hP.1 hstep
      exact ⟨hs', hkeep hP.2⟩
    · exact ih hbody' ha hs₁ hrest

/-- A loop over positions that returned found its container unchanged all the time. -/
theorem run_forPositions_eq_ok {size : σ → Nat} {changed : ε} {body : Nat → Coroutine ε σ Unit}
    (h : (forPositions size changed body).run s = (.ok (), s')) :
    ((List.range (size s)).forM body).run s = (.ok ⟨⟩, s') := by
  have hcheck : ∀ n s₁ s₂, (state >>= fun s₃ =>
      if size s₃ = n then ret () else raise changed : Coroutine ε σ Unit).run s₁ = (.ok (), s₂) →
      s₂ = s₁ := by
    intro n s₁ s₂ hrun
    change (if size s₁ = n then ret () else raise changed : Coroutine ε σ Unit).run s₁ = _ at hrun
    split at hrun
    · cases hrun
      rfl
    · cases hrun
  have hloop : ∀ n (l : List Nat) s₁ s₂, (l.forM fun i => (state >>= fun s₃ =>
      if size s₃ = n then ret () else raise changed : Coroutine ε σ Unit) >>=
        fun _ => body i).run s₁ = (.ok ⟨⟩, s₂) → (l.forM body).run s₁ = (.ok ⟨⟩, s₂) := by
    intro n l
    induction l with
    | nil => exact fun _ _ hrun => hrun
    | cons i l ih =>
      intro s₁ s₂ hrun
      obtain ⟨s₃, hfirst, hrest⟩ := run_forM_cons hrun
      obtain ⟨_, s₄, hunchanged, hstep⟩ := run_bind_eq_ok.mp hfirst
      obtain rfl := hcheck n _ _ hunchanged
      exact run_bind_eq_ok.mpr ⟨⟨⟩, s₃, hstep, ih s₃ s₂ hrest⟩
  obtain ⟨_, s₁, hsize, hrest⟩ := run_bind_eq_ok.mp h
  cases hsize
  obtain ⟨_, s₂, hrun, hend⟩ := run_bind_eq_ok.mp hrest
  rw [hcheck _ _ _ hend]
  exact hloop _ _ _ _ hrun

end Coroutine
