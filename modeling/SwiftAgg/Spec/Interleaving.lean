import SwiftAgg.Spec.Broadcast
import SwiftAgg.Spec.RoundProgress

/-!
# Interleaved handlers

What a turn of a handler does, whatever the others do between its turns: the
first turn of a handler receives its message, and from the check on a handler
keeps to the writes of completion, in its own round.

## Key results

- `handler_turn`: the first turn of a handler
- `System.Sound.turn`: suspended handlers keep to the writes of completion
- `System.step_turn`: what an event does
-/

namespace SwiftAgg.Host

open Coroutine

/-! ## Turns -/

/-- The round of a handler. -/
def Task.roundId (t : Task) : Nat := t.message.header.roundId

/-- The first turn of a handler: it receives its message, and goes on with the check or ends. -/
theorem handler_turn (env : HostEnv) (m : Message) (s : ServerState) : ∃ s₁ c,
    Arrival m s s₁ ∧ (m.handler env).advance s = c.advance s₁ ∧
      ((∃ r, Quiet r ∧ c = liftExcept r) ∨
        m.Checks s ∧ c = checkRoundCompletion env m.header.roundId) := by
  obtain ⟨r, s₁, hadvance, harrival, hquiet, hchecks⟩ := beforeCheck_arrival env m s
  rw [handler_eq, advance_bind, hadvance]
  cases r with
  | error e => exact ⟨s₁, _, harrival, rfl, .inl ⟨.error e, .error (hquiet e rfl), rfl⟩⟩
  | ok reached =>
    cases reached with
    | false => exact ⟨s₁, _, harrival, rfl, .inl ⟨.ok (), .ok (), rfl⟩⟩
    | true => exact ⟨s₁, _, harrival, rfl, .inr ⟨hchecks rfl, rfl⟩⟩

/-- What is left of a handler after it has received its message. -/
abbrev Completes (roundId : Nat) (c : Server Unit) : Prop :=
  WritesOnly CompletionWrite (RoundMessage roundId) roundId c

/-- The writes of a turn after the message was received. -/
abbrev CompletionWrites (roundId : Nat) : ServerState → ServerState → Prop :=
  Relation.ReflTransGen (ServerWrite CompletionWrite (RoundMessage roundId) roundId)

theorem Completes.advance {roundId : Nat} {c : Server Unit} (h : Completes roundId c)
    {s : ServerState} (hs : s.Keyed) :
    CompletionWrites roundId s (c.advance s).2 ∧ (c.advance s).2.Keyed ∧
      ∀ k, (c.advance s).1 = .suspended k → Completes roundId k :=
  Follows.advance_writing h (ServerWrite.keyed fun _ _ => CompletionWrite.roundId) hs

theorem System.turn_spec (sys : System) (t : Task) :
    (sys.turn t).state = (t.rest.advance sys.state).2 ∧
      (∀ t' ∈ (sys.turn t).tasks, t' ∈ sys.tasks ∨
        ∃ k, (t.rest.advance sys.state).1 = .suspended k ∧
          t' = { t.record sys.state (t.rest.advance sys.state).2 with rest := k }) ∧
      ∀ e ∈ (sys.turn t).ended, e ∈ sys.ended ∨
        ∃ r, (t.rest.advance sys.state).1 = .ended r ∧
          e = (t.record sys.state (t.rest.advance sys.state).2, r) := by
  unfold System.turn
  obtain ⟨stop, s'⟩ := t.rest.advance sys.state
  cases stop with
  | ended r =>
    refine ⟨rfl, fun t' ht' => .inl ht', fun e he => ?_⟩
    rcases List.mem_append.mp he with he | he
    · exact .inl he
    · exact .inr ⟨r, rfl, List.mem_singleton.mp he⟩
  | suspended k =>
    refine ⟨rfl, fun t' ht' => ?_, fun e he => .inl he⟩
    rcases List.mem_append.mp ht' with ht' | ht'
    · exact .inl ht'
    · exact .inr ⟨k, rfl, List.mem_singleton.mp ht'⟩

/-! ## Systems -/

/-- Rounds are stored under their numbers, and the suspended handlers keep to their writes. -/
structure System.Sound (sys : System) : Prop where
  keyed : sys.state.Keyed
  tasks : ∀ t ∈ sys.tasks, Completes t.roundId t.rest

theorem System.sound_new : System.new.Sound := ⟨ServerState.keyed_new, nofun⟩

/-- What an event does: nothing, or one turn of a handler in its round. If this is its first turn,
    it receives its message before. -/
inductive System.Turn (env : HostEnv) (sys : System) : Event → System → Prop
  | idle (e : Event) : sys.Turn env e sys
  | closed (writers : List Nat) :
    sys.Turn env (.close writers) { sys with state := { sys.state with closing := writers } }
  | first {m : Message} {s₁ : ServerState} {c : Server Unit} {sys' : System}
    (hfree : ∀ t ∈ sys.tasks, t.message.writer ≠ m.writer) (harrival : Arrival m sys.state s₁)
    (hc : (∃ r, Quiet r ∧ c = liftExcept r) ∨
      m.Checks sys.state ∧ c = checkRoundCompletion env m.header.roundId)
    (hstate : sys'.state = (c.advance s₁).2)
    (htasks : ∀ t ∈ sys'.tasks, t ∈ sys.tasks ∨
      ∃ k, (c.advance s₁).1 = .suspended k ∧
        t = { (Task.start env m).record sys.state sys'.state with rest := k })
    (hended : ∀ e ∈ sys'.ended, e ∈ sys.ended ∨
      ∃ r, (c.advance s₁).1 = .ended r ∧ e = ((Task.start env m).record sys.state sys'.state, r))
    (hclosing : s₁.closing = m.closing) :
    sys.Turn env (.dispatch m) sys'
  | next {i : Nat} {t : Task} {sys' : System} (ht : sys.tasks[i]? = some t)
    (hstate : sys'.state = (t.rest.advance sys.state).2)
    (htasks : ∀ t' ∈ sys'.tasks, t' ∈ sys.tasks ∨
      ∃ k, (t.rest.advance sys.state).1 = .suspended k ∧
        t' = { t.record sys.state sys'.state with rest := k })
    (hended : ∀ e ∈ sys'.ended, e ∈ sys.ended ∨
      ∃ r, (t.rest.advance sys.state).1 = .ended r ∧ e = (t.record sys.state sys'.state, r)) :
    sys.Turn env (.resume i) sys'

theorem System.step_turn (env : HostEnv) (sys : System) (e : Event) :
    sys.Turn env e (sys.step env e) := by
  cases e with
  | dispatch m =>
    rw [System.step]
    split
    · exact .idle _
    · rename_i hbusy
      have hfree : ∀ t ∈ sys.tasks, t.message.writer ≠ m.writer := fun t ht heq =>
        hbusy (List.any_eq_true.mpr ⟨t, ht, beq_iff_eq.mpr heq⟩)
      -- which writers are closing shows neither in the rounds nor in the messages
      let sys₀ : System := { sys with state := { sys.state with closing := m.closing } }
      obtain ⟨s₁, c, harrival, hadvance, hc⟩ := handler_turn env m sys₀.state
      obtain ⟨hstate, htasks, hended⟩ := sys₀.turn_spec (.start env m)
      have harrival' : Arrival m sys.state s₁ :=
        ⟨harrival.other, harrival.own, harrival.created, harrival.sent, harrival.clientWriters,
          fun _ => harrival.closing rfl⟩
      have hadvance' : (Task.start env m).rest.advance sys₀.state = c.advance s₁ := hadvance
      rw [hadvance'] at hstate htasks hended
      rw [← hstate] at htasks hended
      exact .first hfree harrival' hc hstate htasks hended (harrival.closing rfl)
  | resume i =>
    rw [System.step]
    split
    · rename_i t ht
      obtain ⟨hstate, htasks, hended⟩ :=
        System.turn_spec { sys with tasks := sys.tasks.eraseIdx i } t
      rw [← hstate] at htasks hended
      refine .next ht hstate (fun t' ht' => ?_) hended
      exact (htasks t' ht').imp_left List.mem_of_mem_eraseIdx
    · exact .idle _
  | close writers => exact .closed writers

/-- The part of the first turn after the message was received. -/
theorem completes_of_first {env : HostEnv} {m : Message} {s : ServerState} {c : Server Unit}
    (h : (∃ r, Quiet r ∧ c = liftExcept r) ∨
      m.Checks s ∧ c = checkRoundCompletion env m.header.roundId) :
    Completes m.header.roundId c := by
  obtain ⟨r, -, rfl⟩ | ⟨-, rfl⟩ := h
  · exact Follows.liftExcept r
  · exact checkRoundCompletion_completionOnly

theorem System.Sound.turn {env : HostEnv} {sys sys' : System} {e : Event} (h : sys.Sound)
    (hturn : sys.Turn env e sys') : sys'.Sound := by
  cases hturn with
  | idle => exact h
  | closed writers => exact ⟨h.keyed, h.tasks⟩
  | @first m s₁ c _ _ harrival hc hstate htasks hended =>
    obtain ⟨-, hkeyed, hrest⟩ := (completes_of_first hc).advance (harrival.keyed h.keyed)
    refine ⟨hstate ▸ hkeyed, fun t ht => ?_⟩
    -- an old task, or the one that this turn leaves
    obtain ht | ⟨k, hk, rfl⟩ := htasks t ht
    · exact h.tasks t ht
    · exact hrest k hk
  | @next i t _ ht hstate htasks hended =>
    obtain ⟨-, hkeyed, hrest⟩ := (h.tasks t (List.mem_of_getElem? ht)).advance h.keyed
    refine ⟨hstate ▸ hkeyed, fun t' ht' => ?_⟩
    obtain ht' | ⟨k, hk, rfl⟩ := htasks t' ht'
    · exact h.tasks t' ht'
    · exact hrest k hk

/-- An invariant that the admitted events keep holds in the end. -/
theorem EveryEvent.run_invariant {env : HostEnv} {C : System → Event → Prop} {I : System → Prop}
    (hkeep : ∀ sys e, I sys → C sys e → I (sys.step env e)) {sys : System} (hs : I sys)
    {events : List Event} (h : EveryEvent env C sys events) : I (sys.run env events) := by
  induction events generalizing sys with
  | nil => exact hs
  | cons e events ih => exact ih (hkeep sys e hs h.1) h.2

theorem EveryEvent.append {env : HostEnv} {C : System → Event → Prop} {sys : System}
    {pre post : List Event} (h : EveryEvent env C sys (pre ++ post)) :
    EveryEvent env C sys pre ∧ EveryEvent env C (sys.run env pre) post := by
  induction pre generalizing sys with
  | nil => exact ⟨trivial, h⟩
  | cons e pre ih => exact ⟨⟨h.1, (ih h.2).1⟩, (ih h.2).2⟩

end SwiftAgg.Host
