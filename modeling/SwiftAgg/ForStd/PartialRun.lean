import Mathlib.Tactic.Common
import Mathlib.Data.List.Infix
import Mathlib.Data.Option.Basic
import Mathlib.Data.List.Iterate

/-!
# Runs of a partial step function

A step function `σ → α → Option σ` takes a list of inputs one after the other.
This is the vocabulary for what holds along such a run: conditions on the steps
that are taken, and what is observed of them.

## Key results

- `Every.run_invariant`: an invariant that the admitted steps keep
- `every_iff_prefixes`: the condition on steps, stated on the prefixes of the run
- `every_congr`: two conditions that an invariant makes the same at every step
- `every_iff_forall_mem`: a condition on the steps alone
- `run_eq_last`: a value is what it was set to last
- `Counts.observe_eq_iterate`: what is observed of a counter
- `forall_reached_iff`: what holds in every state reached, as a condition on steps
-/

namespace PartialRun

variable {σ α β : Type*} (step : σ → α → Option σ)

/-- Take the steps of a list one after the other. -/
abbrev run (s : σ) (as : List α) : Option σ := as.foldlM step s

/-- Every step of the run is taken with `C`. -/
def Every (C : σ → α → Prop) : σ → List α → Prop
  | _, [] => True
  | s, a :: as => C s a ∧ ∀ s', step s a = some s' → Every C s' as

/-- What is observed of the steps of the run, in their order. -/
def observe (f : σ → α → Option β) : σ → List α → List β
  | _, [] => []
  | s, a :: as => (f s a).toList ++ (step s a).elim [] fun s' => observe f s' as

instance Every.decidable (C : σ → α → Prop) [∀ s a, Decidable (C s a)] :
    (s : σ) → (as : List α) → Decidable (Every step C s as)
  | _, [] => isTrue trivial
  | s, a :: as =>
    have : Decidable (∀ s', step s a = some s' → Every step C s' as) :=
      match step s a with
      | none => isTrue nofun
      | some s₁ =>
        have := Every.decidable C s₁ as
        decidable_of_iff (Every step C s₁ as)
          ⟨fun h _ hs' => Option.some.inj hs' ▸ h, fun h => h s₁ rfl⟩
    inferInstanceAs (Decidable (_ ∧ _))

variable {step} {C : σ → α → Prop}

/-! ## Runs -/

theorem run_cons {s s' : σ} {a : α} {as : List α} (h : run step s (a :: as) = some s') :
    ∃ s₁, step s a = some s₁ ∧ run step s₁ as = some s' :=
  Option.bind_eq_some_iff.mp h

theorem run_append (s : σ) (as bs : List α) :
    run step s (as ++ bs) = (run step s as).bind fun s' => run step s' bs :=
  List.foldlM_append

@[simp] theorem run_singleton (s : σ) (a : α) : run step s [a] = step s a :=
  bind_pure (step s a)

/-- The last step of a run. -/
theorem run_concat (s : σ) (as : List α) (a : α) :
    run step s (as ++ [a]) = (run step s as).bind fun s' => step s' a := by
  rw [run_append]
  exact congrArg _ (funext fun s' => run_singleton s' a)

/-! ## Conditions on steps -/

theorem every_append {s : σ} {as bs : List α} :
    Every step C s (as ++ bs) ↔
      Every step C s as ∧ ∀ s', run step s as = some s' → Every step C s' bs := by
  induction as generalizing s with
  | nil =>
    refine ⟨fun h => ⟨trivial, fun s' hs' => ?_⟩, fun h => h.2 s rfl⟩
    cases hs'
    exact h
  | cons a as ih =>
    simp only [List.cons_append, Every, ih]
    -- the first step is the same on both sides
    constructor
    · rintro ⟨ha, has⟩
      refine ⟨⟨ha, fun s' hs' => (has s' hs').1⟩, fun s' hs' => ?_⟩
      obtain ⟨s₁, hs₁, hrun⟩ := run_cons hs'
      exact (has s₁ hs₁).2 s' hrun
    · rintro ⟨⟨ha, has⟩, hbs⟩
      refine ⟨ha, fun s' hs' => ⟨has s' hs', fun s'' hs'' => hbs s'' ?_⟩⟩
      exact Option.bind_eq_some_iff.mpr ⟨s', hs', hs''⟩

/-- The condition holds for every step that a prefix of the run leads to. -/
theorem every_iff_prefixes {s : σ} {as : List α} :
    Every step C s as ↔
      ∀ pre a, pre ++ [a] <+: as → ∀ s', run step s pre = some s' → C s' a := by
  constructor
  · rintro h pre a ⟨post, rfl⟩ s' hs'
    rw [List.append_assoc] at h
    exact ((every_append.mp h).2 s' hs').1
  · intro h
    induction as generalizing s with
    | nil => trivial
    | cons a as ih =>
      refine ⟨h [] a ⟨as, rfl⟩ s rfl, fun s₁ hs₁ => ih fun pre b hpre s' hs' => ?_⟩
      obtain ⟨post, rfl⟩ := hpre
      -- a prefix of the rest, with the first step in front
      refine h (a :: pre) b ⟨post, rfl⟩ s' ?_
      exact Option.bind_eq_some_iff.mpr ⟨s₁, hs₁, hs'⟩

/-- An invariant that the admitted steps keep holds in the end. -/
theorem Every.run_invariant {I : σ → Prop}
    (hkeep : ∀ s a s', I s → C s a → step s a = some s' → I s') {s s' : σ} {as : List α}
    (hevery : Every step C s as) (hs : I s) (hrun : run step s as = some s') : I s' := by
  induction as generalizing s with
  | nil =>
    cases hrun
    exact hs
  | cons a as ih =>
    obtain ⟨s₁, hstep, hrun⟩ := run_cons hrun
    exact ih (hevery.2 s₁ hstep) (hkeep s a s₁ hs hevery.1 hstep) hrun

/-- An invariant of all steps holds in the end. -/
theorem run_invariant {I : σ → Prop} (hkeep : ∀ s a s', I s → step s a = some s' → I s')
    {s s' : σ} {as : List α} (hs : I s) (hrun : run step s as = some s') : I s' := by
  have hevery : Every step (fun _ _ => True) s as :=
    every_iff_prefixes.mpr fun _ _ _ _ _ => trivial
  exact hevery.run_invariant (fun s a s' hI _ hstep => hkeep s a s' hI hstep) hs hrun

/-- Where an invariant holds that the admitted steps keep, their condition may imply another. -/
theorem Every.imp_of_invariant {D : σ → α → Prop} {I : σ → Prop}
    (hkeep : ∀ s a s', I s → C s a → step s a = some s' → I s')
    (himp : ∀ s a, I s → C s a → D s a) {s : σ} {as : List α} (hevery : Every step C s as)
    (hs : I s) : Every step D s as := by
  induction as generalizing s with
  | nil => trivial
  | cons a as ih =>
    exact ⟨himp s a hs hevery.1, fun s' hs' =>
      ih (hevery.2 s' hs') (hkeep s a s' hs hevery.1 hs')⟩

/-- What an invariant of all steps implies holds for every step. -/
theorem every_of_invariant {I : σ → Prop} (hkeep : ∀ s a s', I s → step s a = some s' → I s')
    (himp : ∀ s a, I s → C s a) {s : σ} (hs : I s) (as : List α) : Every step C s as := by
  have hevery : Every step (fun _ _ => True) s as :=
    every_iff_prefixes.mpr fun _ _ _ _ _ => trivial
  exact hevery.imp_of_invariant (fun s a s' hI _ hstep => hkeep s a s' hI hstep)
    (fun s a hI _ => himp s a hI) hs

/-- Where an invariant holds that the steps taken with `D` keep, conditions that agree under it
    admit the same runs. -/
theorem every_congr {C D : σ → α → Prop} {I : σ → Prop} (hiff : ∀ s a, I s → (C s a ↔ D s a))
    (hkeep : ∀ s a s', I s → D s a → step s a = some s' → I s') {s : σ} (hs : I s) {as : List α} :
    Every step C s as ↔ Every step D s as := by
  induction as generalizing s with
  | nil => exact Iff.rfl
  | cons a as ih =>
    simp only [Every, hiff s a hs]
    refine and_congr_right fun ha => forall₂_congr fun s' hs' => ?_
    exact ih (hkeep s a s' hs ha hs')

/-- A condition on the steps alone, where no step fails. -/
theorem every_iff_forall_mem {D : α → Prop} (htotal : ∀ s a, ∃ s', step s a = some s') {s : σ}
    {as : List α} : Every step (fun _ a => D a) s as ↔ ∀ a ∈ as, D a := by
  induction as generalizing s with
  | nil => exact iff_of_true trivial fun _ ha => absurd ha List.not_mem_nil
  | cons a as ih =>
    rw [List.forall_mem_cons]
    refine and_congr_right fun _ => ?_
    obtain ⟨s₁, hs₁⟩ := htotal s a
    constructor
    · intro h
      exact ih.mp (h s₁ hs₁)
    · intro h s' _
      exact ih.mpr h

/-- A property holds in every state that a run reaches if it holds at its start and after every
    step. -/
theorem forall_reached_iff {P : σ → Prop} {s : σ} {as : List α} :
    (∀ pre, pre <+: as → ∀ s', run step s pre = some s' → P s') ↔
      P s ∧ Every step (fun s a => ∀ s', step s a = some s' → P s') s as := by
  rw [every_iff_prefixes]
  constructor
  · intro h
    refine ⟨h [] List.nil_prefix s rfl, fun pre a hpre s₁ hrun s' hstep => ?_⟩
    apply h (pre ++ [a]) hpre
    rw [run_concat, hrun, Option.bind_some, hstep]
  · rintro ⟨hs, hsteps⟩ pre hpre s' hrun
    -- a prefix is empty or ends with a step
    rcases List.eq_nil_or_concat pre with rfl | ⟨pre, a, rfl⟩
    · cases hrun
      exact hs
    · rw [List.concat_eq_append] at hpre hrun
      rw [run_concat] at hrun
      obtain ⟨s₁, hrun, hstep⟩ := Option.bind_eq_some_iff.mp hrun
      exact hsteps pre a hpre s₁ hrun s' hstep

/-! ## Observations -/

theorem observe_append (f : σ → α → Option β) (s : σ) (as bs : List α) :
    observe step f s (as ++ bs) =
      observe step f s as ++ (run step s as).elim [] fun s' => observe step f s' bs := by
  induction as generalizing s with
  | nil => rfl
  | cons a as ih =>
    rw [List.cons_append, observe, observe, List.append_assoc, run, List.foldlM_cons]
    cases step s a with
    | none => rfl
    | some s₁ => simp only [Option.elim_some, ih, Option.bind_eq_bind, Option.bind_some]

/-- As many things are observed as steps allow it. -/
theorem length_observe_congr {γ : Type*} {f : σ → α → Option β} {g : σ → α → Option γ}
    (h : ∀ s a, (f s a).isSome = (g s a).isSome) (s : σ) (as : List α) :
    (observe step f s as).length = (observe step g s as).length := by
  induction as generalizing s with
  | nil => rfl
  | cons a as ih =>
    have hhead : (f s a).toList.length = (g s a).toList.length := by
      have hsome := h s a
      cases hf : f s a <;> cases hg : g s a <;> simp_all
    simp only [observe, List.length_append, hhead]
    cases step s a with
    | none => rfl
    | some s' => simp only [Option.elim_some, ih s']

/-- Where steps are only observed under `I`, either nothing is observed, or what is observed comes
    from some state on in which `I` holds. -/
theorem observe_eq_nil_or {I : σ → Prop} {f : σ → α → Option β}
    (hnone : ∀ s a, ¬I s → f s a = none) (s : σ) (as : List α) :
    observe step f s as = [] ∨ ∃ pre post s₁, as = pre ++ post ∧ run step s pre = some s₁ ∧ I s₁ ∧
      observe step f s as = observe step f s₁ post := by
  induction as generalizing s with
  | nil => exact .inl rfl
  | cons a as ih =>
    by_cases hI : I s
    · exact .inr ⟨[], a :: as, s, rfl, rfl, hI, rfl⟩
    have hobserve : observe step f s (a :: as) =
        (step s a).elim [] fun s' => observe step f s' as := by
      rw [observe, hnone s a hI]
      rfl
    rw [hobserve]
    cases hstep : step s a with
    | none => exact .inl rfl
    | some s' =>
      rcases ih s' with hnil | ⟨pre, post, s₁, rfl, hrun, hI₁, heq⟩
      · exact .inl hnil
      · exact .inr ⟨a :: pre, post, s₁, rfl, Option.bind_eq_some_iff.mpr ⟨s', hstep, hrun⟩, hI₁,
          heq⟩

/-- A value that the observed steps set, and that the others leave, is the one that was set last. -/
theorem run_eq_last {γ : Type*} {f : σ → α → Option β} {value : σ → γ} {val : β → γ}
    (hset : ∀ s a b s', f s a = some b → step s a = some s' → value s' = val b)
    (hleave : ∀ s a s', f s a = none → step s a = some s' → value s' = value s) {s s' : σ}
    {as : List α} (hrun : run step s as = some s') :
    value s' = (observe step f s as).getLast?.elim (value s) val := by
  induction as using List.reverseRecOn generalizing s' with
  | nil =>
    cases hrun
    rfl
  | append_singleton as a ih =>
    rw [run_concat] at hrun
    obtain ⟨s₁, hrun₁, hstep⟩ := Option.bind_eq_some_iff.mp hrun
    rw [observe_append, hrun₁, Option.elim_some, observe, hstep, Option.elim_some, observe,
      List.append_nil]
    cases hf : f s₁ a with
    | none => rw [hleave s₁ a s' hf hstep, ih hrun₁, Option.toList_none, List.append_nil]
    | some b =>
      rw [hset s₁ a b s' hf hstep, Option.toList_some, List.getLast?_append,
        List.getLast?_singleton, Option.some_or, Option.elim_some]

/-! ## Counters -/

/-- `f` observes a counter: the steps it observes read the counter and move it on. -/
structure Counts {γ : Type*} (step : σ → α → Option σ) (f : σ → α → Option γ) (count : σ → γ)
    (next : γ → γ) : Prop where
  reads : ∀ {s a c}, f s a = some c → c = count s
  counted : ∀ {s a c s'}, f s a = some c → step s a = some s' → count s' = next (count s)

/-- A step that is not observed leaves the counter. -/
def Leaves {γ : Type*} (step : σ → α → Option σ) (f : σ → α → Option γ) (count : σ → γ) (s : σ)
    (a : α) : Prop :=
  f s a = none → ∀ s', step s a = some s' → count s' = count s

namespace Counts

variable {γ : Type*} {f : σ → α → Option γ} {count : σ → γ} {next : γ → γ}

/-- What is observed of a counter are its successive values. -/
theorem observe_eq_iterate (h : Counts step f count next) {s : σ} {as : List α}
    (hleaves : Every step (Leaves step f count) s as) :
    observe step f s as =
      List.iterate next (count s) (observe step f s as).length := by
  induction as generalizing s with
  | nil => rfl
  | cons a as ih =>
    cases hstep : step s a with
    | none =>
      -- the run ends here, but the failing step is still observed
      cases hf : f s a with
      | none => simp [observe, hf, hstep]
      | some c => simp [observe, hf, hstep, List.iterate, h.reads hf]
    | some s' =>
      have htail := ih (hleaves.2 s' hstep)
      cases hf : f s a with
      | none =>
        rw [hleaves.1 hf s' hstep] at htail
        simpa [observe, hf, hstep] using htail
      | some c =>
        rw [h.counted hf hstep] at htail
        simpa [observe, hf, hstep, List.iterate, h.reads hf] using htail

/-- The counter after a run. -/
theorem run_count (h : Counts step f count next) {s s' : σ} {as : List α}
    (hleaves : Every step (Leaves step f count) s as) (hrun : run step s as = some s') :
    count s' = next^[(observe step f s as).length] (count s) := by
  induction as generalizing s with
  | nil =>
    cases hrun
    rfl
  | cons a as ih =>
    obtain ⟨s₁, hstep, hrun⟩ := run_cons hrun
    rw [ih (hleaves.2 s₁ hstep) hrun]
    cases hf : f s a with
    | none => simp [observe, hf, hstep, hleaves.1 hf s₁ hstep]
    | some c => simp [observe, hf, hstep, h.counted hf hstep, Function.iterate_succ]

end Counts

end PartialRun
