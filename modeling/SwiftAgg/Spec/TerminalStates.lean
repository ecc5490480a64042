import SwiftAgg.Native.Timeouts
import SwiftAgg.Spec.PhaseOrder

/-!
# The terminal states of a client

ROUND_COMPLETE and ERROR end a round for a client. The handlers have no
transition out of them, and both loops over the registered contexts pass them
over. The state monitor does not look at the state: it turns a context that has
completed its round into one in error when the round is long over.

## Key results

- `processMessage_terminal` / `detectDropouts_terminal`: calls that keep the terminal states
- `ClientSystem.step_terminal`: what every call keeps, the state monitor under its condition
- `terminalStates_absorbing_iff`: in which runs the terminal states are absorbing
-/

namespace SwiftAgg.Native

variable {pf : Platform} {msToTicks : UInt32 → UInt32}

/-- The states that end a round. -/
def ProtocolState.Terminal (state : ProtocolState) : Prop := state = .roundComplete ∨ state = .error

theorem NextPhase.not_terminal {old new : ProtocolState} (h : NextPhase old new) :
    ¬old.Terminal := by
  rintro (hstate | hstate) <;> · rw [hstate] at h; cases h

/-! ## The calls -/

/-- No message leads out of a terminal state. -/
theorem processMessage_terminal {ctx : ClientProtocolCtx} {m : Message} {out : Outcome}
    (hctx : ctx.state.Terminal)
    (hout : processMessage pf m.env ctx m.hdr m.payload m.payloadLen = some out) :
    out.ctx.state = ctx.state := by
  -- of the moves, two need a state that is not terminal and the others keep the state
  obtain ⟨status, hmove⟩ : ∃ status, Move pf ctx m status out.ctx.progress :=
    ⟨_, (processMessage_step hout).move⟩
  generalize hp : out.ctx.progress = p at hmove
  have hstate : out.ctx.state = p.state := hp ▸ rfl
  rw [hstate]
  cases hmove with
  | stays => rfl
  | starts hm hold =>
    rw [hold] at hctx
    rcases hctx with h | h <;> cases h
  | advances hm hold hnext => exact absurd hctx hnext.not_terminal
  | masks | overwrites => rfl

/-- The loops over the registered contexts leave the terminal states alone. -/
theorem detectDropouts_terminal (limit : UInt32) (entries : List (UInt32 × Option Nat))
    (contexts : Nat → ClientProtocolCtx) {i : Nat} (hi : (contexts i).state.Terminal) :
    ((detectDropouts limit entries contexts).1 i).state = (contexts i).state := by
  induction entries generalizing contexts with
  | nil => rfl
  | cons entry rest ih =>
    obtain ⟨tick, _ | j⟩ := entry
    · exact ih contexts hi
    rw [detectDropouts]
    split
    · rename_i hdrop
      -- the context that is written passed the guard, so it is another one
      have hij : i ≠ j := by
        rintro rfl
        exact hi.elim hdrop.1 hdrop.2.1
      have hkept : Function.update contexts j { contexts j with state := .dropoutDetection } i =
          contexts i := Function.update_of_ne hij _ _
      rw [← congrArg ClientProtocolCtx.state hkept]
      exact ih _ (by rw [hkept]; exact hi)
    · exact ih contexts hi

namespace ClientSystem

variable {sys sys' : ClientSystem}

/-- The state monitor finds a context that has completed its round and has been quiet for longer
    than its limit. -/
def MonitorOverruns (sys : ClientSystem) : ClientEvent → Prop
  | .stateMonitor tick => ∃ i, sys.monitored = some i ∧ (sys.contexts i).state = .roundComplete ∧
      (sys.contexts i).timeoutMs < tick - (sys.contexts i).lastActivityTick
  | _ => False

theorem monitorCheckTimeouts_terminal {tick : UInt32} {i : Nat}
    (hspares : ¬sys.MonitorOverruns (.stateMonitor tick)) (hi : (sys.contexts i).state.Terminal) :
    ((sys.monitorCheckTimeouts tick).contexts i).state = (sys.contexts i).state := by
  rw [monitorCheckTimeouts]
  split
  · rfl
  rename_i j hmonitored
  split
  · rename_i hlate
    by_cases hij : i = j
    · subst hij
      -- a monitored context that is in error is set to it again
      have herror : (sys.contexts i).state = .error :=
        hi.resolve_left fun hdone => hspares ⟨i, hmonitored, hdone, hlate⟩
      simp only [Function.update_self, herror]
    · simp only [Function.update_of_ne hij]
  · rfl

/-- What a call keeps of a context in a terminal state. -/
theorem step_terminal {e : ClientEvent} (hspares : ¬sys.MonitorOverruns e)
    (hstep : sys.step pf msToTicks e = some sys') {i : Nat}
    (hi : (sys.contexts i).state.Terminal) :
    (sys'.contexts i).state = (sys.contexts i).state := by
  cases e with
  -- a message changes the context that it is for
  | message j m =>
    obtain ⟨out, hout, rfl⟩ := Option.map_eq_some_iff.mp hstep
    by_cases hij : i = j
    · subst hij
      simp only [Function.update_self]
      exact processMessage_terminal hi hout
    · simp only [Function.update_of_ne hij]
  | dropoutTimer ticks =>
    cases hstep
    exact detectDropouts_terminal _ _ sys.contexts hi
  | checkTimeouts tick =>
    cases hstep
    exact detectDropouts_terminal _ _ sys.contexts hi
  | stateMonitor tick =>
    cases hstep
    exact monitorCheckTimeouts_terminal hspares hi

/-- The state monitor puts such a context into ERROR. -/
theorem step_of_monitorOverruns (pf : Platform) (msToTicks : UInt32 → UInt32) {e : ClientEvent}
    (h : sys.MonitorOverruns e) :
    ∃ i sys', sys.monitored = some i ∧ (sys.contexts i).state = .roundComplete ∧
      sys.step pf msToTicks e = some sys' ∧ (sys'.contexts i).state = .error := by
  cases e with
  | stateMonitor tick =>
    obtain ⟨i, hmonitored, hdone, hlate⟩ := h
    refine ⟨i, _, hmonitored, hdone, rfl, ?_⟩
    simp only [monitorCheckTimeouts, hmonitored, if_pos hlate, Function.update_self]
  | _ => exact h.elim

/-! ## Runs -/

/-- A context that one of the timeouts looks at. -/
def Registered (sys : ClientSystem) (i : Nat) : Prop :=
  some i ∈ sys.registered ∨ sys.monitored = some i

/-- Wherever the run goes, a registered context in a terminal state keeps it to the end. -/
def TerminalAbsorbing (pf : Platform) (msToTicks : UInt32 → UInt32) (start : ClientSystem)
    (es : List ClientEvent) : Prop :=
  ∀ pre mid, pre ++ mid <+: es → ∀ sys sys',
    PartialRun.run (ClientSystem.step pf msToTicks) start pre = some sys →
    PartialRun.run (ClientSystem.step pf msToTicks) sys mid = some sys' →
      ∀ i, sys.Registered i → (sys.contexts i).state.Terminal →
        (sys'.contexts i).state = (sys.contexts i).state

end ClientSystem

/-- In a run of messages, timers and monitors, in any order and at any ticks, the terminal states
    of the registered contexts are absorbing exactly if the state monitor never finds a completed
    context past its limit. -/
theorem terminalStates_absorbing_iff (pf : Platform) (msToTicks : UInt32 → UInt32)
    (start : ClientSystem) (es : List ClientEvent) :
    ClientSystem.TerminalAbsorbing pf msToTicks start es ↔
      PartialRun.Every (ClientSystem.step pf msToTicks)
        (fun sys e => ¬sys.MonitorOverruns e) start es := by
  constructor
  · -- a monitor that overruns takes the context out of ROUND_COMPLETE
    intro habsorbing
    rw [PartialRun.every_iff_prefixes]
    intro pre e hpre sys hrun hoverruns
    obtain ⟨i, sys', hmonitored, hdone, hstep, herror⟩ :=
      ClientSystem.step_of_monitorOverruns pf msToTicks hoverruns
    have hrun' : PartialRun.run (ClientSystem.step pf msToTicks) sys [e] = some sys' := by
      rw [PartialRun.run_singleton, hstep]
    have hkept := habsorbing pre [e] hpre sys sys' hrun hrun' i (.inr hmonitored) (.inl hdone)
    rw [herror, hdone] at hkept
    cases hkept
  · -- along the middle part every call keeps the state
    rintro hevery pre mid ⟨post, rfl⟩ sys sys' hrun hrun' i - hi
    rw [PartialRun.every_append, PartialRun.every_append] at hevery
    have hmid := hevery.1.2 sys hrun
    refine hmid.run_invariant (I := fun s => (s.contexts i).state = (sys.contexts i).state)
      (fun s e s' hsame hspares hstep => ?_) rfl hrun'
    rw [← hsame] at hi ⊢
    exact ClientSystem.step_terminal hspares hstep hi

/-- One context that is registered with both modules. -/
def pairedSystem : ClientSystem where
  contexts _ := stateMachineInit 1 1 0
  registered := [some 0]
  capacity := by decide
  monitored := some 0

/-- The messages of a whole round with a dropout, for this context. -/
def wholeRound : List ClientEvent :=
  (completedRun ++ [serverMessage .dropoutNotify 0 0, serverMessage .recoveryComplete 0 0,
    serverMessage .roundComplete 0 0, serverMessage .roundComplete 0 0]).map (.message 0)

/-- Five seconds after the round, the state monitor puts the context into ERROR. -/
theorem wholeRound_overrun :
    ¬ClientSystem.TerminalAbsorbing repeatPlatform id pairedSystem
      (wholeRound ++ [.stateMonitor 5001]) := by
  intro habsorbing
  have hend : (PartialRun.run (ClientSystem.step repeatPlatform id) pairedSystem wholeRound).map
      (fun sys => ((sys.contexts 0).state, sys.monitored,
        ((sys.step repeatPlatform id (.stateMonitor 5001)).map fun sys' =>
          (sys'.contexts 0).state))) = some (.roundComplete, some 0, some .error) := by
    decide +kernel
  obtain ⟨sys, hrun, hsys⟩ := Option.map_eq_some_iff.mp hend
  simp only [Prod.mk.injEq] at hsys
  obtain ⟨hdone, hmonitored, hlate⟩ := hsys
  obtain ⟨sys', hstep, herror⟩ := Option.map_eq_some_iff.mp hlate
  have hkept := habsorbing wholeRound [.stateMonitor 5001] (List.prefix_refl _) sys sys' hrun
    ((PartialRun.run_singleton sys _).trans hstep) 0 (.inr hmonitored) (.inl hdone)
  rw [herror, hdone] at hkept
  cases hkept

end SwiftAgg.Native
