import Mathlib.Data.List.Forall2
import SwiftAgg.ForStd.RelyGuarantee

/-!
# Agreement of coroutines

Two computations, possibly over different states, agree for a relation of their
states if they go through their turns together: from related states both
suspend in related states, or both end in related states, with related results
or the same exception. They need not be written in the same way.

## Key results

- `agreesAt_iff`: agreement, by the turn that a computation is in
- `Agrees.bind`, `Agrees.forM`, `Agrees.forPositions`: agreement of sequences and loops
- `Agrees.keeps`: what the first computation keeps can be added to the relation
- `Agrees.advance`: what one turn of both does
-/

/-- A contract for interference that ends in states with `I`, for a computation that keeps `I`. -/
def Contract.keeping {σ : Type} (I : σ → Prop) : Contract σ where
  rely _ s' := I s'
  guar s s' := I s → I s'
  pause _ := True

theorem Contract.keeping_preserves {σ : Type} (I : σ → Prop) : (Contract.keeping I).Preserves I :=
  ⟨fun _ _ h _ => h, fun _ _ h => h⟩

namespace Coroutine

variable {ε σ τ α α' β β' κ κ' : Type} {I : σ → Prop} {R : σ → τ → Prop} {Q : α → β → Prop}
  {Q' : α' → β' → Prop}

/-- What is left of a turn in the state `s`, against a whole turn of `c'` in the state `t`: they
    end alike, or stop in related states and go on alike from all related states. -/
def AgreesAt (R : σ → τ → Prop) (Q : α → β → Prop) :
    (c : Coroutine ε σ α) → (s : σ) → (c' : Coroutine ε τ β) → (t : τ) → Prop
  | ret a, s, c', t => ∃ b t', c'.advance t = (.ended (.ok b), t') ∧ R s t' ∧ Q a b
  | raise e, s, c', t => ∃ t', c'.advance t = (.ended (.error e), t') ∧ R s t'
  | get k, s, c', t => AgreesAt R Q (k s) s c' t
  | put s₁ k, _, c', t => AgreesAt R Q k s₁ c' t
  | await k, s, c', t => ∃ k' t', c'.advance t = (.suspended k', t') ∧ R s t' ∧
    ∀ s₁ t₁, R s₁ t₁ → AgreesAt R Q k s₁ k' t₁

/-- From related states, both computations do the same in every turn, up to `R`. -/
def Agrees (R : σ → τ → Prop) (Q : α → β → Prop) (c : Coroutine ε σ α) (c' : Coroutine ε τ β) :
    Prop :=
  ∀ s t, R s t → AgreesAt R Q c s c' t

theorem agreesAt_iff {c : Coroutine ε σ α} {c' : Coroutine ε τ β} {s : σ} {t : τ} :
    AgreesAt R Q c s c' t ↔
      match c.advance s with
      | (.ended (.ok a), s₁) => ∃ b t₁, c'.advance t = (.ended (.ok b), t₁) ∧ R s₁ t₁ ∧ Q a b
      | (.ended (.error e), s₁) => ∃ t₁, c'.advance t = (.ended (.error e), t₁) ∧ R s₁ t₁
      | (.suspended k, s₁) =>
        ∃ k' t₁, c'.advance t = (.suspended k', t₁) ∧ R s₁ t₁ ∧ Agrees R Q k k' := by
  induction c generalizing s with
  | ret a => exact Iff.rfl
  | raise e => exact Iff.rfl
  | get k ih => exact ih s
  | put s₁ k ih => exact ih
  | await k ih => exact Iff.rfl

/-- Only what the two turns do counts. -/
theorem AgreesAt.congr {c d : Coroutine ε σ α} {c' d' : Coroutine ε τ β} {s s' : σ} {t t' : τ}
    (h : AgreesAt R Q d s' d' t') (hc : c.advance s = d.advance s')
    (hc' : c'.advance t = d'.advance t') : AgreesAt R Q c s c' t := by
  rw [agreesAt_iff] at h ⊢
  rwa [hc, hc']

/-- A computation that ends in this turn, in a state with `I`. -/
theorem AgreesAt.keeps_of_ended {c : Coroutine ε σ α} {c' : Coroutine ε τ β} {s s₁ : σ} {t : τ}
    {r : Except ε α} (h : AgreesAt R Q c s c' t) (hc : c.advance s = (.ended r, s₁)) (hI : I s₁) :
    AgreesAt (fun s t => R s t ∧ I s) Q c s c' t := by
  rw [agreesAt_iff, hc] at h ⊢
  cases r with
  | ok a =>
    obtain ⟨b, t₁, hadvance, hR, hQ⟩ := h
    exact ⟨b, t₁, hadvance, ⟨hR, hI⟩, hQ⟩
  | error e =>
    obtain ⟨t₁, hadvance, hR⟩ := h
    exact ⟨t₁, hadvance, hR, hI⟩

/-- One turn of two computations of the same results. -/
theorem Agrees.advance {c : Coroutine ε σ α} {c' : Coroutine ε τ α} (h : Agrees R Eq c c') {s : σ}
    {t : τ} (hR : R s t) :
    (∃ r s₁ t₁, c.advance s = (.ended r, s₁) ∧ c'.advance t = (.ended r, t₁) ∧ R s₁ t₁) ∨
      ∃ k k' s₁ t₁, c.advance s = (.suspended k, s₁) ∧ c'.advance t = (.suspended k', t₁) ∧
        R s₁ t₁ ∧ Agrees R Eq k k' := by
  have hat := agreesAt_iff.mp (h s t hR)
  cases hstop : c.advance s with
  | mk stop s₁ =>
    rw [hstop] at hat
    cases stop with
    | ended r =>
      cases r with
      | ok a =>
        obtain ⟨_, t₁, hadvance, hR₁, rfl⟩ := hat
        exact .inl ⟨.ok a, s₁, t₁, rfl, hadvance, hR₁⟩
      | error e =>
        obtain ⟨t₁, hadvance, hR₁⟩ := hat
        exact .inl ⟨.error e, s₁, t₁, rfl, hadvance, hR₁⟩
    | suspended k =>
      obtain ⟨k', t₁, hadvance, hR₁, hagrees⟩ := hat
      exact .inr ⟨k, k', s₁, t₁, rfl, hadvance, hR₁, hagrees⟩

/-! ## Primitives -/

theorem Agrees.ret {a : α} {b : β} (h : Q a b) :
    Agrees R Q (ret a : Coroutine ε σ α) (ret b : Coroutine ε τ β) :=
  fun _ t hR => ⟨b, t, rfl, hR, h⟩

theorem Agrees.raise (e : ε) :
    Agrees R Q (raise e : Coroutine ε σ α) (raise e : Coroutine ε τ β) :=
  fun _ t hR => ⟨t, rfl, hR⟩

theorem Agrees.suspend :
    Agrees R Eq (suspend : Coroutine ε σ Unit) (suspend : Coroutine ε τ Unit) :=
  fun _ t hR => ⟨Coroutine.ret (), t, rfl, hR, fun _ t₁ hR₁ => ⟨(), t₁, rfl, hR₁, rfl⟩⟩

theorem Agrees.update {f : σ → σ} {f' : τ → τ} (h : ∀ s t, R s t → R (f s) (f' t)) :
    Agrees R Eq (update f : Coroutine ε σ Unit) (update f' : Coroutine ε τ Unit) :=
  fun s t hR => ⟨(), f' t, rfl, h s t hR, rfl⟩

/-! ## Sequences -/

private theorem agreesAt_bind {c : Coroutine ε σ α} {c' : Coroutine ε τ β}
    {f : α → Coroutine ε σ α'} {f' : β → Coroutine ε τ β'} {s : σ} {t : τ}
    (hc : AgreesAt R Q c s c' t) (hf : ∀ a b, Q a b → Agrees R Q' (f a) (f' b)) :
    AgreesAt R Q' (c >>= f) s (c' >>= f') t := by
  induction c generalizing s c' t with
  | ret a =>
    -- the second parts start in the same turn
    obtain ⟨b, t', hadvance, hR, hQ⟩ := hc
    refine (hf a b hQ s t' hR).congr rfl ?_
    rw [advance_bind, hadvance]
  | raise e =>
    obtain ⟨t', hadvance, hR⟩ := hc
    refine ⟨t', ?_, hR⟩
    rw [advance_bind, hadvance]
  | get k ih => exact ih s hc
  | put s₁ k ih => exact ih hc
  | await k ih =>
    -- both are suspended in their first parts, and go on from any related states
    obtain ⟨k', t', hadvance, hR, hk⟩ := hc
    refine ⟨k' >>= f', t', ?_, hR, fun s₁ t₁ hR₁ => ih (hk s₁ t₁ hR₁)⟩
    rw [advance_bind, hadvance]

theorem Agrees.bind {c : Coroutine ε σ α} {c' : Coroutine ε τ β} {f : α → Coroutine ε σ α'}
    {f' : β → Coroutine ε τ β'} (hc : Agrees R Q c c')
    (hf : ∀ a b, Q a b → Agrees R Q' (f a) (f' b)) : Agrees R Q' (c >>= f) (c' >>= f') :=
  fun s t hR => agreesAt_bind (hc s t hR) hf

theorem Agrees.state_bind {f : σ → Coroutine ε σ α} {f' : τ → Coroutine ε τ β}
    (h : ∀ s t, R s t → Agrees R Q (f s) (f' t)) :
    Agrees R Q (state >>= f) (state >>= f') :=
  fun s t hR => (h s t hR s t hR).congr rfl rfl

/-- Computations without state that return related values or raise the same. -/
theorem Agrees.liftExcept_bind {P : α → β → Prop} {x : Except ε α} {x' : Except ε β}
    {f : α → Coroutine ε σ α'} {f' : β → Coroutine ε τ β'}
    (h : (∃ a b, x = .ok a ∧ x' = .ok b ∧ P a b) ∨ ∃ e, x = .error e ∧ x' = .error e)
    (hf : ∀ a b, P a b → Agrees R Q' (f a) (f' b)) :
    Agrees R Q' (liftExcept x >>= f) (liftExcept x' >>= f') := by
  obtain ⟨a, b, rfl, rfl, hP⟩ | ⟨e, rfl, rfl⟩ := h
  · exact hf a b hP
  · exact .raise e

/-- The same computation without state. -/
theorem Agrees.liftExcept_bind_self (x : Except ε α) {f : α → Coroutine ε σ α'}
    {f' : α → Coroutine ε τ β'} (hf : ∀ a, Agrees R Q' (f a) (f' a)) :
    Agrees R Q' (liftExcept x >>= f) (liftExcept x >>= f') := by
  cases x with
  | ok a => exact hf a
  | error e => exact .raise e

theorem Agrees.forM {P : κ → κ' → Prop} {body : κ → Coroutine ε σ PUnit}
    {body' : κ' → Coroutine ε τ PUnit} {l : List κ} {l' : List κ'} (hl : List.Forall₂ P l l')
    (hbody : ∀ a b, P a b → Agrees R Eq (body a) (body' b)) :
    Agrees R Eq (l.forM body) (l'.forM body') := by
  induction hl with
  | nil => exact .ret rfl
  | cons hab _ ih => exact (hbody _ _ hab).bind fun _ _ _ => ih

/-- Loops over containers that have the same size in related states. -/
theorem Agrees.forPositions {size : σ → Nat} {size' : τ → Nat} {changed : ε}
    {body : Nat → Coroutine ε σ Unit} {body' : Nat → Coroutine ε τ Unit}
    (hsize : ∀ s t, R s t → size s = size' t) (hbody : ∀ i, Agrees R Eq (body i) (body' i)) :
    Agrees R Eq (forPositions size changed body) (forPositions size' changed body') := by
  refine Agrees.state_bind fun s t hR => ?_
  -- the comparison with the size at the start, before every pass and behind the last one
  have hcheck : Agrees R Eq
      (state >>= fun s' =>
        if size s' = size s then Coroutine.ret () else Coroutine.raise changed :
          Coroutine ε σ Unit)
      (state >>= fun t' =>
        if size' t' = size' t then Coroutine.ret () else Coroutine.raise changed :
          Coroutine ε τ Unit) := by
    refine Agrees.state_bind fun s' t' hR' => ?_
    rw [hsize s t hR, hsize s' t' hR']
    split
    · exact .ret rfl
    · exact .raise changed
  refine Agrees.bind (Q := Eq) ?_ fun _ _ _ => hcheck
  rw [hsize s t hR] at hcheck ⊢
  refine Agrees.forM (P := Eq) (List.forall₂_refl _) ?_
  rintro i _ rfl
  exact hcheck.bind fun _ _ _ => hbody i

/-! ## Invariants -/

/-- The computation keeps `I`, if it is always resumed in a state with `I`. -/
abbrev Maintains (I : σ → Prop) (c : Coroutine ε σ α) : Prop := Follows I (Contract.keeping I) c

theorem Maintains.update {f : σ → σ} (hf : ∀ s, I s → I (f s)) :
    Maintains I (update f : Coroutine ε σ Unit) :=
  Follows.update (Contract.keeping_preserves I) fun s _ => hf s

/-- A computation that keeps `J` by writes that keep `I`, too. -/
theorem Follows.keeps {J : σ → Prop} {guar : σ → σ → Prop} {c : Coroutine ε σ α}
    (h : Follows J (Contract.writing J guar) c) (hIJ : ∀ s, I s → J s)
    (hguar : ∀ s s', guar s s' → I s → I s') : Maintains I c := by
  intro s hs
  have hsafe := h s (hIJ s hs)
  clear h
  induction c generalizing s with
  | ret a => exact hs
  | raise e => exact hs
  | get k ih => exact ih s s hs hsafe
  | put s₁ k ih => exact ⟨hguar s s₁ hsafe.1, ih s₁ (hguar s s₁ hsafe.1 hs) hsafe.2⟩
  | await k ih => exact ⟨trivial, fun s₁ hs₁ => ih s₁ hs₁ (hsafe.2 s₁ fun _ => hIJ s₁ hs₁)⟩

/-- What the first computation keeps can be added to the relation. -/
theorem Agrees.keeps {c : Coroutine ε σ α} {c' : Coroutine ε τ β} (h : Agrees R Q c c')
    (hI : Maintains I c) : Agrees (fun s t => R s t ∧ I s) Q c c' := by
  rintro s t ⟨hR, hs⟩
  have hat := h s t hR
  have hsafe := hI s hs
  clear h hI hR
  induction c generalizing s c' t with
  | ret a =>
    obtain ⟨b, t', hadvance, hR, hQ⟩ := hat
    exact ⟨b, t', hadvance, ⟨hR, hsafe⟩, hQ⟩
  | raise e =>
    obtain ⟨t', hadvance, hR⟩ := hat
    exact ⟨t', hadvance, hR, hsafe⟩
  | get k ih => exact ih s s t hs hat hsafe
  | put s₁ k ih => exact ih s₁ t (hsafe.1 hs) hat hsafe.2
  | await k ih =>
    -- the relation with `I` in it is what the first computation relies on
    obtain ⟨k', t', hadvance, hR, hk⟩ := hat
    exact ⟨k', t', hadvance, ⟨hR, hs⟩, fun s₁ t₁ h₁ =>
      ih s₁ t₁ h₁.2 (hk s₁ t₁ h₁.1) (hsafe.2 s₁ h₁.2)⟩

end Coroutine
