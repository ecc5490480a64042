import Mathlib.Tactic.Common
import Mathlib.Algebra.Order.Ring.Nat

/-!
# Message framing

A framing writes messages one after the other into a stream and takes them off
its front again. A stream that was framed otherwise is read as the messages
whose frames it happens to begin with.

## Key results

- `Framing.readAll_frames`: framed messages are read back, whatever follows them
- `Framing.readAll_eq_iff`: which streams are read as given messages
-/

/-- Messages as parts of a stream: `next` takes one off the front exactly when its frame stands
    there. -/
structure Framing (α μ : Type*) where
  frame : μ → List α
  Valid : μ → Prop
  next : List α → Option (μ × List α)
  frame_ne_nil : ∀ m, frame m ≠ []
  next_eq_some : ∀ s m r, next s = some (m, r) ↔ Valid m ∧ s = frame m ++ r

namespace Framing

variable {α μ : Type*} (F : Framing α μ)

theorem next_frame {m : μ} (hm : F.Valid m) (r : List α) : F.next (F.frame m ++ r) = some (m, r) :=
  (F.next_eq_some _ m r).mpr ⟨hm, rfl⟩

theorem next_shorter {s r : List α} {m : μ} (h : F.next s = some (m, r)) :
    r.length < s.length := by
  obtain ⟨-, rfl⟩ := (F.next_eq_some s m r).mp h
  have hpos := List.length_pos_iff.mpr (F.frame_ne_nil m)
  rw [List.length_append]
  omega

/-- Take messages off the front as long as there are any. -/
def readAll (s : List α) : List μ :=
  match _h : F.next s with
  | none => []
  | some (m, r) => m :: readAll r
termination_by s.length
decreasing_by exact F.next_shorter _h

theorem readAll_of_none {s : List α} (h : F.next s = none) : F.readAll s = [] := by
  rw [readAll, h]

theorem readAll_of_some {s r : List α} {m : μ} (h : F.next s = some (m, r)) :
    F.readAll s = m :: F.readAll r := by
  rw [readAll, h]

theorem readAll_eq_nil_iff {s : List α} : F.readAll s = [] ↔ F.next s = none := by
  constructor
  · intro hnil
    cases h : F.next s with
    | none => rfl
    | some p =>
      rw [F.readAll_of_some h] at hnil
      exact absurd hnil (List.cons_ne_nil _ _)
  · exact F.readAll_of_none

/-- Framed messages are read back, whatever follows them. -/
theorem readAll_frames {ms : List μ} (hms : ∀ m ∈ ms, F.Valid m) (r : List α) :
    F.readAll (ms.flatMap F.frame ++ r) = ms ++ F.readAll r := by
  induction ms with
  | nil => rfl
  | cons m ms ih =>
    rw [List.flatMap_cons, List.append_assoc, F.readAll_of_some (F.next_frame (hms m (by simp)) _),
      ih fun m' hm' => hms m' (List.mem_cons_of_mem m hm'), List.cons_append]

/-- A stream is read as given messages exactly when it begins with their frames and no frame
    stands behind them. -/
theorem readAll_eq_iff {ms : List μ} (hms : ∀ m ∈ ms, F.Valid m) (s : List α) :
    F.readAll s = ms ↔ ∃ r, s = ms.flatMap F.frame ++ r ∧ F.next r = none := by
  constructor
  · intro hread
    induction ms generalizing s with
    | nil => exact ⟨s, rfl, F.readAll_eq_nil_iff.mp hread⟩
    | cons m ms ih =>
      cases h : F.next s with
      | none =>
        rw [F.readAll_of_none h] at hread
        cases hread
      | some p =>
        -- the first message read is the first one given, and its frame stands in front
        obtain ⟨m', s'⟩ := p
        rw [F.readAll_of_some h] at hread
        obtain ⟨rfl, htail⟩ := List.cons.inj hread
        obtain ⟨-, rfl⟩ := (F.next_eq_some s m' s').mp h
        obtain ⟨r, rfl, hr⟩ := ih (fun m hm => hms m (List.mem_cons_of_mem m' hm)) s' htail
        exact ⟨r, by rw [List.flatMap_cons, List.append_assoc], hr⟩
  · rintro ⟨r, rfl, hr⟩
    rw [F.readAll_frames hms, F.readAll_of_none hr, List.append_nil]

end Framing
