import SwiftAgg.Spec.TerminalStates

/-!
# Detection of silent clients

A context is stamped with the tick counter whenever a message for it arrives,
and both checks compare the stamp with the counter in `uint32_t`. Here the
counter is a time that only grows, read modulo `2 ^ 32` from any first value,
and a run records when each context was last heard of. The difference of two
readings is the time between them as long as that is less than one turn of the
counter, wherever the counter wraps around.

## Key results

- `detectDropouts_apply`: what a check does to one context
- `ClockedSystem.step_stamped`: the stamp is a reading from the last message
- `dropoutDetection_correct`: live clients are kept, silent ones are detected
-/

namespace SwiftAgg.Native

/-! ## The counter -/

/-- The tick counter `time` ticks after it read `start`. -/
def tickAt (start : UInt32) (time : Nat) : UInt32 := start + UInt32.ofNat time

/-- The difference of two readings is the time between them, modulo one turn of the counter. -/
theorem tickAt_sub_tickAt (start : UInt32) {old new : Nat} (h : old ≤ new) :
    (tickAt start new - tickAt start old).toNat = (new - old) % 2 ^ 32 := by
  have hstart := start.toNat_lt
  simp only [tickAt, UInt32.toNat_sub, UInt32.toNat_add, UInt32.toNat_ofNat']
  omega

/-- Within one turn of the counter, a context drops out once its stamp is older than the limit. -/
theorem dropsOut_tickAt_iff {limit start : UInt32} {ctx : ClientProtocolCtx} {old new : Nat}
    (hstamp : ctx.lastActivityTick = tickAt start old) (h : old ≤ new)
    (hturn : new - old < 2 ^ 32) :
    DropsOut limit (tickAt start new) ctx ↔
      ctx.state ≠ .roundComplete ∧ ctx.state ≠ .error ∧ limit.toNat < new - old := by
  rw [DropsOut, hstamp, UInt32.lt_iff_toNat_lt, tickAt_sub_tickAt start h, Nat.mod_eq_of_lt hturn]

/-! ## A check -/

/-- Some entry of the loop is for the context and finds it dropped out. -/
def Detects (limit : UInt32) (entries : List (UInt32 × Option Nat)) (i : Nat)
    (ctx : ClientProtocolCtx) : Prop :=
  ∃ entry ∈ entries, entry.2 = some i ∧ DropsOut limit entry.1 ctx

instance (limit : UInt32) (entries : List (UInt32 × Option Nat)) (i : Nat)
    (ctx : ClientProtocolCtx) : Decidable (Detects limit entries i ctx) :=
  inferInstanceAs (Decidable (∃ entry ∈ entries, _ ∧ _))

theorem detects_cons {limit tick : UInt32} {entry : Option Nat}
    {rest : List (UInt32 × Option Nat)} {i : Nat} {ctx : ClientProtocolCtx} :
    Detects limit ((tick, entry) :: rest) i ctx ↔
      entry = some i ∧ DropsOut limit tick ctx ∨ Detects limit rest i ctx := by
  simp [Detects]

/-- A check puts a context into DROPOUT_DETECTION if one of its entries finds it dropped out, and
    leaves it alone otherwise. -/
theorem detectDropouts_apply (limit : UInt32) (entries : List (UInt32 × Option Nat))
    (contexts : Nat → ClientProtocolCtx) (i : Nat) :
    (detectDropouts limit entries contexts).1 i =
      if Detects limit entries i (contexts i) then
        { contexts i with state := .dropoutDetection }
      else contexts i := by
  induction entries generalizing contexts with
  | nil => rfl
  | cons entry rest ih =>
    obtain ⟨tick, entry⟩ := entry
    rw [detectDropouts.eq_def]
    cases entry with
    | none => simp [ih, detects_cons]
    | some j =>
      dsimp only
      by_cases hdrop : DropsOut limit tick (contexts j)
      · rw [if_pos hdrop]
        by_cases hij : j = i
        · subst hij
          -- the rest of the loop may find it once more, in its new state
          simp only [ih, Function.update_self, detects_cons, hdrop, true_and, true_or, if_true,
            ite_self]
        · have hother : ∀ c, Function.update contexts j c i = contexts i := fun c =>
            Function.update_of_ne (Ne.symm hij) c contexts
          simp [ih, hother, detects_cons, hij]
      · rw [if_neg hdrop, ih]
        by_cases hij : j = i
        · subst hij
          simp [detects_cons, hdrop]
        · simp [detects_cons, hij]

/-! ## Calls in time -/

/-- The calls that read the counter, and the registration of a context. The timer reads the counter
    once for every entry. -/
inductive ClientCall where
  | init (i : Nat) (clientId : UInt8) (roundId : UInt32)
  | register (ctx : Option Nat)
  | message (i : Nat) (m : Message)
  | dropoutTimer (times : Nat → Nat)
  | checkTimeouts

/-- A call with the times between which it runs. -/
structure TimedCall where
  call : ClientCall
  began : Nat
  ended : Nat

/-- A message reads the counter when the call begins and, if it moves the context on, before it
    ends. -/
def TimedCall.reads (c : TimedCall) (start : UInt32) (m : Message) : Message :=
  { m with
    env.tick := tickAt start c.began
    env.transitionTick := tickAt start c.ended }

/-- The contexts in time: when the last call ended, and between which times each context was last
    initialised or sent a message of its round and id. -/
structure ClockedSystem where
  sys : ClientSystem
  now : Nat
  heard : Nat → Option (Nat × Nat)

namespace ClockedSystem

/-- Before the first call. -/
def boot (sys : ClientSystem) : ClockedSystem := ⟨sys, 0, fun _ => none⟩

/-- Calls follow each other, and what they read of the counter they read while they run. -/
def InOrder (s : ClockedSystem) (c : TimedCall) : Prop :=
  s.now ≤ c.began ∧ c.began ≤ c.ended ∧
    match c.call with
    | .dropoutTimer times =>
      ∀ k < s.sys.registered.length, c.began ≤ times k ∧ times k ≤ c.ended
    | _ => True

instance (s : ClockedSystem) (c : TimedCall) : Decidable (s.InOrder c) := by
  obtain ⟨call, began, ended⟩ := c
  cases call <;> exact inferInstanceAs (Decidable (_ ∧ _ ∧ _))

/-- What a call does to the contexts. -/
def callResult (pf : Platform) (msToTicks : UInt32 → UInt32) (start : UInt32) (s : ClockedSystem)
    (c : TimedCall) : Option ClientSystem :=
  match c.call with
  | .init i clientId roundId =>
    let ctx := stateMachineInit clientId roundId (tickAt start c.began)
    some { s.sys with contexts := Function.update s.sys.contexts i ctx }
  | .register ctx => some (s.sys.protocolRegisterContext ctx)
  | .message i m => s.sys.step pf msToTicks (.message i (c.reads start m))
  | .dropoutTimer times => s.sys.step pf msToTicks (.dropoutTimer fun k => tickAt start (times k))
  | .checkTimeouts => s.sys.step pf msToTicks (.checkTimeouts (tickAt start c.began))

/-- When the contexts were last heard of after a call. -/
def heardAfter (s : ClockedSystem) (c : TimedCall) : Nat → Option (Nat × Nat) :=
  match c.call with
  | .init i _ _ => Function.update s.heard i (some (c.began, c.ended))
  | .message i m =>
    if m.Addresses (s.sys.contexts i) then Function.update s.heard i (some (c.began, c.ended))
    else s.heard
  | _ => s.heard

/-- One call. -/
def step (pf : Platform) (msToTicks : UInt32 → UInt32) (start : UInt32) (s : ClockedSystem)
    (c : TimedCall) : Option ClockedSystem :=
  if s.InOrder c then
    (s.callResult pf msToTicks start c).map fun sys => ⟨sys, c.ended, s.heardAfter c⟩
  else none

/-- The state of a context. -/
def stateOf (s : ClockedSystem) (i : Nat) : ProtocolState := (s.sys.contexts i).state

/-- The call looks at the stamp of a registered context at a time. -/
def Checks (s : ClockedSystem) (c : TimedCall) (i time : Nat) : Prop :=
  match c.call with
  | .dropoutTimer times => ∃ k, s.sys.registered[k]? = some (some i) ∧ times k = time
  | .checkTimeouts => some i ∈ s.sys.registered ∧ c.began = time
  | _ => False

/-- The context was heard of at most `limit` ticks ago. -/
def HeardWithin (s : ClockedSystem) (i limit time : Nat) : Prop :=
  ∃ began ended, s.heard i = some (began, ended) ∧ time ≤ began + limit

/-- The context was heard of more than `limit` ticks ago, and less than one turn of the counter. -/
def SilentFor (s : ClockedSystem) (i limit time : Nat) : Prop :=
  ∃ began ended, s.heard i = some (began, ended) ∧ ended + limit < time ∧ time < began + 2 ^ 32

variable {pf : Platform} {msToTicks : UInt32 → UInt32} {start : UInt32} {s s' : ClockedSystem}
  {c : TimedCall} {i : Nat}

theorem step_eq_some (h : s.step pf msToTicks start c = some s') :
    s.InOrder c ∧ s.callResult pf msToTicks start c = some s'.sys ∧ s'.now = c.ended ∧
      s'.heard = s.heardAfter c := by
  rw [step] at h
  split at h
  · rename_i horder
    obtain ⟨sys, hsys, rfl⟩ := Option.map_eq_some_iff.mp h
    exact ⟨horder, hsys, rfl, rfl⟩
  · cases h

/-! ## Stamps -/

/-- The stamp of a context that was heard of is a reading of the counter from that call. -/
def Stamped (start : UInt32) (s : ClockedSystem) (i : Nat) : Prop :=
  ∀ began ended, s.heard i = some (began, ended) → ended ≤ s.now ∧
    ∃ time, began ≤ time ∧ time ≤ ended ∧
      (s.sys.contexts i).lastActivityTick = tickAt start time

end ClockedSystem

/-- A message stamps the context if it is for it, and leaves it alone otherwise. -/
theorem processMessage_stamp {pf : Platform} {ctx : ClientProtocolCtx} {m : Message}
    {out : Outcome} (hout : processMessage pf m.env ctx m.hdr m.payload m.payloadLen = some out)
    (hm : m.Addresses ctx) :
    out.ctx.lastActivityTick = m.env.tick ∨ out.ctx.lastActivityTick = m.env.transitionTick := by
  cases processMessage_step hout with
  | mismatched hnot => exact absurd hm hnot
  | rejected | keypair | tableFull => exact .inl rfl
  | pubkeyStored => exact .inl (ClientProtocolCtx.copyPubkey_lastActivityTick _ _ _ _)
  | chunkMasked _ _ _ _ _ hctx =>
    rw [hctx]
    exact .inl rfl
  | roundStarted | keyAgreed | confirmed | completed | advanced => exact .inr rfl

theorem NextPhase.ne_dropoutDetection {old new : ProtocolState} (h : NextPhase old new) :
    new ≠ .dropoutDetection := by
  cases h <;> decide

/-- Messages do not lead into DROPOUT_DETECTION. -/
theorem processMessage_not_detected {pf : Platform} {ctx : ClientProtocolCtx} {m : Message}
    {out : Outcome} (hout : processMessage pf m.env ctx m.hdr m.payload m.payloadLen = some out)
    (hdetected : out.ctx.state = .dropoutDetection) : ctx.state = .dropoutDetection := by
  obtain ⟨status, hmove⟩ : ∃ status, Move pf ctx m status out.ctx.progress :=
    ⟨_, (processMessage_step hout).move⟩
  generalize hp : out.ctx.progress = p at hmove
  have hstate : p.state = .dropoutDetection := hp ▸ hdetected
  cases hmove with
  | stays => exact hstate
  | starts => cases hstate
  | advances hm hold hnext => exact absurd hstate hnext.ne_dropoutDetection
  | masks | overwrites => exact hstate

namespace ClockedSystem

variable {pf : Platform} {msToTicks : UInt32 → UInt32} {start : UInt32} {s s' : ClockedSystem}
  {c : TimedCall} {i : Nat}

/-- The entries that a check compares, with the counter at each. -/
def entries (s : ClockedSystem) (start : UInt32) (c : TimedCall) : List (UInt32 × Option Nat) :=
  match c.call with
  | .dropoutTimer times =>
    s.sys.registered.zipIdx.map fun entry => (tickAt start (times entry.2), entry.1)
  | .checkTimeouts => s.sys.registered.map fun ctx => (tickAt start c.began, ctx)
  | _ => []

/-- The entries for a context are the times at which it is checked. -/
theorem mem_entries {tick : UInt32} :
    (tick, some i) ∈ s.entries start c ↔ ∃ time, s.Checks c i time ∧ tickAt start time = tick := by
  obtain ⟨call, began, ended⟩ := c
  cases call with
  | dropoutTimer times =>
    -- the timer reads the counter at every entry, the check once
    simp only [entries, Checks, List.mem_map, Prod.mk.injEq, Prod.exists]
    constructor
    · rintro ⟨entry, k, hmem, htick, rfl⟩
      exact ⟨times k, ⟨k, List.mk_mem_zipIdx_iff_getElem?.mp hmem, rfl⟩, htick⟩
    · rintro ⟨time, ⟨k, hk, rfl⟩, htick⟩
      exact ⟨some i, k, List.mk_mem_zipIdx_iff_getElem?.mpr hk, htick, rfl⟩
  | checkTimeouts =>
    simp only [entries, Checks, List.mem_map, Prod.mk.injEq]
    constructor
    · rintro ⟨ctx, hmem, htick, rfl⟩
      exact ⟨began, ⟨hmem, rfl⟩, htick⟩
    · rintro ⟨time, ⟨hmem, rfl⟩, htick⟩
      exact ⟨some i, hmem, htick, rfl⟩
  | _ => simp [entries, Checks]

/-- Checks happen while their call runs. -/
theorem Checks.time_between {time : Nat} (h : s.Checks c i time) (horder : s.InOrder c) :
    s.now ≤ time ∧ time ≤ c.ended := by
  obtain ⟨call, began, ended⟩ := c
  obtain ⟨hnow, hends, htimes⟩ := horder
  cases call with
  | dropoutTimer times =>
    obtain ⟨k, hk, rfl⟩ := h
    obtain ⟨hlen, -⟩ := List.getElem?_eq_some_iff.mp hk
    exact ⟨hnow.trans (htimes k hlen).1, (htimes k hlen).2⟩
  | checkTimeouts =>
    obtain ⟨-, rfl⟩ := h
    exact ⟨hnow, hends⟩
  | _ => exact h.elim

/-- Registering does not touch the contexts. -/
theorem protocolRegisterContext_contexts (sys : ClientSystem) (ctx : Option Nat) :
    (sys.protocolRegisterContext ctx).contexts = sys.contexts := by
  rw [ClientSystem.protocolRegisterContext]
  split <;> rfl

/-- The context after a call: a new one, the outcome of a message for it, or what the entries of a
    check make of it. -/
inductive ContextAfter (pf : Platform) (limit start : UInt32) (s : ClockedSystem) (c : TimedCall)
    (i : Nat) : ClientProtocolCtx → Prop where
  | init {clientId : UInt8} {roundId : UInt32} (hcall : c.call = .init i clientId roundId) :
      ContextAfter pf limit start s c i (stateMachineInit clientId roundId (tickAt start c.began))
  | message {m : Message} (hcall : c.call = .message i m) {out : Outcome}
      (hout : processMessage pf (c.reads start m).env (s.sys.contexts i) m.hdr m.payload
        m.payloadLen = some out) :
      ContextAfter pf limit start s c i out.ctx
  | detected (hdetects : Detects limit (s.entries start c) i (s.sys.contexts i))
      (hheard : s.heardAfter c i = s.heard i) :
      ContextAfter pf limit start s c i { s.sys.contexts i with state := .dropoutDetection }
  | same (hdetects : ¬Detects limit (s.entries start c) i (s.sys.contexts i))
      (hheard : s.heardAfter c i = s.heard i) :
      ContextAfter pf limit start s c i (s.sys.contexts i)

/-- A check detects the context or leaves it. -/
theorem ContextAfter.check {limit : UInt32} {contexts : Nat → ClientProtocolCtx}
    (hcontexts : contexts = (detectDropouts limit (s.entries start c) s.sys.contexts).1)
    (hheard : s.heardAfter c i = s.heard i) :
    ContextAfter pf limit start s c i (contexts i) := by
  rw [hcontexts, detectDropouts_apply]
  split
  · rename_i hdetects
    exact .detected hdetects hheard
  · rename_i hdetects
    exact .same hdetects hheard

/-- What a call does to one context. -/
theorem callResult_context {sys : ClientSystem}
    (h : s.callResult pf msToTicks start c = some sys) :
    ContextAfter pf (msToTicks dropoutTimeoutMs) start s c i (sys.contexts i) := by
  obtain ⟨call, began, ended⟩ := c
  have hnone : ∀ limit ctx, ¬Detects limit [] i ctx := by simp [Detects]
  cases call with
  -- calls on other contexts do not touch this one
  | init j clientId roundId =>
    cases h
    dsimp only
    by_cases hij : i = j
    · subst hij
      rw [Function.update_self]
      exact .init rfl
    · rw [Function.update_of_ne hij]
      exact .same (hnone _ _) (Function.update_of_ne hij _ _)
  | register ctx =>
    cases h
    rw [protocolRegisterContext_contexts]
    exact .same (hnone _ _) rfl
  | message j m =>
    obtain ⟨out, hout, rfl⟩ := Option.map_eq_some_iff.mp h
    dsimp only
    by_cases hij : i = j
    · subst hij
      rw [Function.update_self]
      exact .message rfl hout
    · rw [Function.update_of_ne hij]
      refine .same (hnone _ _) ?_
      simp only [heardAfter]
      split
      · exact Function.update_of_ne hij _ _
      · rfl
  | dropoutTimer times =>
    cases h
    exact .check rfl rfl
  | checkTimeouts =>
    cases h
    exact .check rfl rfl

/-- Every call keeps the stamps. -/
theorem step_stamped (h : Stamped start s i) (hstep : s.step pf msToTicks start c = some s') :
    Stamped start s' i := by
  obtain ⟨horder, hresult, hnow, hheard⟩ := step_eq_some hstep
  have hends : s.now ≤ c.ended := horder.1.trans horder.2.1
  intro began ended hlast
  rw [hheard] at hlast
  rw [hnow]
  generalize hctx : s'.sys.contexts i = ctx
  have hafter := callResult_context (i := i) hresult
  rw [hctx] at hafter
  cases hafter with
  | init hcall =>
    -- the new context is stamped when the call begins
    simp only [heardAfter, hcall, Function.update_self, Option.some.injEq, Prod.mk.injEq] at hlast
    obtain ⟨rfl, rfl⟩ := hlast
    exact ⟨le_rfl, c.began, le_rfl, horder.2.1, rfl⟩
  | @message m hcall out hout =>
    by_cases hm : m.Addresses (s.sys.contexts i)
    · simp only [heardAfter, hcall, if_pos hm, Function.update_self, Option.some.injEq,
        Prod.mk.injEq] at hlast
      obtain ⟨rfl, rfl⟩ := hlast
      refine ⟨le_rfl, ?_⟩
      rcases processMessage_stamp (m := c.reads start m) hout hm with hstamp | hstamp
      · exact ⟨c.began, le_rfl, horder.2.1, hstamp⟩
      · exact ⟨c.ended, horder.2.1, le_rfl, hstamp⟩
    · -- a message for someone else leaves the stamp
      simp only [heardAfter, hcall, if_neg hm] at hlast
      obtain ⟨hle, hstamp⟩ := h began ended hlast
      rw [(processMessage_step (m := c.reads start m) hout).foreign hm]
      exact ⟨hle.trans hends, hstamp⟩
  | detected hdetects hsame =>
    rw [hsame] at hlast
    obtain ⟨hle, hstamp⟩ := h began ended hlast
    exact ⟨hle.trans hends, hstamp⟩
  | same hdetects hsame =>
    rw [hsame] at hlast
    obtain ⟨hle, hstamp⟩ := h began ended hlast
    exact ⟨hle.trans hends, hstamp⟩

theorem run_stamped {sys : ClientSystem} {calls : List TimedCall}
    (hrun : PartialRun.run (ClockedSystem.step pf msToTicks start) (boot sys) calls = some s) :
    Stamped start s i :=
  PartialRun.run_invariant (I := fun s => Stamped start s i)
    (fun _ _ _ hs hstep => step_stamped hs hstep) (by simp [Stamped, boot]) hrun

/-! ## Checks of one context -/

/-- A context that was heard of within the limit is not detected. -/
theorem not_detects_of_heardWithin {limit : UInt32} (hs : Stamped start s i)
    (horder : s.InOrder c)
    (hheard : ∀ time, s.Checks c i time → s.HeardWithin i limit.toNat time) :
    ¬Detects limit (s.entries start c) i (s.sys.contexts i) := by
  rintro ⟨⟨tick, entry⟩, hmem, rfl, hdrop⟩
  obtain ⟨time, hchecks, rfl⟩ := mem_entries.mp hmem
  obtain ⟨began, ended, hlast, hwithin⟩ := hheard time hchecks
  obtain ⟨hended, old, hbegan, hold, hstamp⟩ := hs began ended hlast
  have hnow := (hchecks.time_between horder).1
  have hlimit := limit.toNat_lt
  dsimp only at hdrop
  rw [dropsOut_tickAt_iff hstamp (by omega) (by omega)] at hdrop
  omega

/-- A context that was silent for longer than the limit is detected. -/
theorem detects_of_silentFor {limit : UInt32} (hs : Stamped start s i) (horder : s.InOrder c)
    {time : Nat} (hchecks : s.Checks c i time) (hsilent : s.SilentFor i limit.toNat time)
    (hdone : s.stateOf i ≠ .roundComplete) (herror : s.stateOf i ≠ .error) :
    Detects limit (s.entries start c) i (s.sys.contexts i) := by
  obtain ⟨began, ended, hlast, hlong, hturn⟩ := hsilent
  obtain ⟨hended, old, hbegan, hold, hstamp⟩ := hs began ended hlast
  have hnow := (hchecks.time_between horder).1
  refine ⟨(tickAt start time, some i), mem_entries.mpr ⟨time, hchecks, rfl⟩, rfl, ?_⟩
  rw [dropsOut_tickAt_iff hstamp (by omega) (by omega)]
  exact ⟨hdone, herror, by omega⟩

/-- A call moves a context to DROPOUT_DETECTION only by detecting it. -/
theorem step_not_detected (hs : Stamped start s i)
    (hheard : ∀ time, s.Checks c i time →
      s.HeardWithin i (msToTicks dropoutTimeoutMs).toNat time)
    (hstep : s.step pf msToTicks start c = some s') (hdetected : s'.stateOf i = .dropoutDetection) :
    s.stateOf i = .dropoutDetection := by
  obtain ⟨horder, hresult, -, -⟩ := step_eq_some hstep
  have hafter := callResult_context (i := i) hresult
  rw [stateOf] at hdetected
  generalize s'.sys.contexts i = ctx at hafter hdetected
  cases hafter with
  | init => cases hdetected
  | @message m hcall out hout =>
    exact processMessage_not_detected (m := c.reads start m) hout hdetected
  | detected hdetects => exact absurd hdetects (not_detects_of_heardWithin hs horder hheard)
  | same => exact hdetected

/-- A check of a context that has been silent puts it into DROPOUT_DETECTION. -/
theorem step_detected (hs : Stamped start s i) {time : Nat} (hchecks : s.Checks c i time)
    (hsilent : s.SilentFor i (msToTicks dropoutTimeoutMs).toNat time)
    (hdone : s.stateOf i ≠ .roundComplete) (herror : s.stateOf i ≠ .error)
    (hstep : s.step pf msToTicks start c = some s') : s'.stateOf i = .dropoutDetection := by
  obtain ⟨horder, hresult, -, -⟩ := step_eq_some hstep
  have hdetects := detects_of_silentFor hs horder hchecks hsilent hdone herror
  have hafter := callResult_context (i := i) hresult
  rw [stateOf]
  generalize s'.sys.contexts i = ctx at hafter
  cases hafter with
  | detected => rfl
  | same hnot => exact absurd hdetects hnot
  | init hcall => simp [Checks, hcall] at hchecks
  | message hcall => simp [Checks, hcall] at hchecks

end ClockedSystem

open ClockedSystem in
/-- Wherever the counter starts and however often it wraps around: a context that is only checked
    within the limit of its last message, or of its initialisation, is never put into
    DROPOUT_DETECTION; and the next check of a context in neither ROUND_COMPLETE nor ERROR that has
    been silent for longer than the limit, but not for a turn of the counter, puts it there. -/
theorem dropoutDetection_correct (pf : Platform) (msToTicks : UInt32 → UInt32) (start : UInt32)
    (sys : ClientSystem) (calls : List TimedCall) (i : Nat) :
    (PartialRun.Every (ClockedSystem.step pf msToTicks start)
        (fun s c => ∀ time, s.Checks c i time →
          s.HeardWithin i (msToTicks dropoutTimeoutMs).toNat time) (boot sys) calls →
      PartialRun.Every (ClockedSystem.step pf msToTicks start)
        (fun s c => ∀ s', s.step pf msToTicks start c = some s' →
          s'.stateOf i = .dropoutDetection → s.stateOf i = .dropoutDetection) (boot sys) calls) ∧
    PartialRun.Every (ClockedSystem.step pf msToTicks start)
      (fun s c => ∀ time, s.Checks c i time →
        s.SilentFor i (msToTicks dropoutTimeoutMs).toNat time →
        s.stateOf i ≠ .roundComplete → s.stateOf i ≠ .error →
        ∀ s', s.step pf msToTicks start c = some s' → s'.stateOf i = .dropoutDetection)
      (boot sys) calls := by
  constructor
  · intro hheard
    rw [PartialRun.every_iff_prefixes] at hheard ⊢
    intro pre c hpre s hrun s' hstep
    exact step_not_detected (run_stamped hrun) (hheard pre c hpre s hrun) hstep
  · rw [PartialRun.every_iff_prefixes]
    intro pre c hpre s hrun time hchecks hsilent hdone herror s' hstep
    exact step_detected (run_stamped hrun) hchecks hsilent hdone herror hstep

/-- A context is initialised one tick before the counter wraps around, and checked at the limit
    and one tick after it. -/
def wrappedCalls : List TimedCall :=
  [⟨.init 0 1 1, 0, 0⟩, ⟨.checkTimeouts, 10000, 10000⟩, ⟨.checkTimeouts, 10001, 10001⟩]

/-- The first check keeps the context, the second one detects it. -/
theorem wrappedCalls_detected : ∃ s₁ s₂ s₃,
    PartialRun.run (ClockedSystem.step repeatPlatform id 0xFFFFFFFF) (.boot pairedSystem)
        (wrappedCalls.take 1) = some s₁ ∧
      s₁.step repeatPlatform id 0xFFFFFFFF ⟨.checkTimeouts, 10000, 10000⟩ = some s₂ ∧
      s₂.step repeatPlatform id 0xFFFFFFFF ⟨.checkTimeouts, 10001, 10001⟩ = some s₃ ∧
      s₂.stateOf 0 ≠ .dropoutDetection ∧ s₃.stateOf 0 = .dropoutDetection := by
  have hsome : (PartialRun.run (ClockedSystem.step repeatPlatform id 0xFFFFFFFF)
      (.boot pairedSystem) wrappedCalls).isSome := by
    decide +kernel
  obtain ⟨s₃, hrun⟩ := Option.isSome_iff_exists.mp hsome
  obtain ⟨s₁, hinit, hrun₁⟩ := PartialRun.run_cons hrun
  obtain ⟨s₂, hfirst, hrun₂⟩ := PartialRun.run_cons hrun₁
  rw [PartialRun.run_singleton] at hrun₂
  -- only the initialisation is heard of
  have hheard₁ : s₁.heard 0 = some (0, 0) := by
    rw [(ClockedSystem.step_eq_some hinit).2.2.2]
    rfl
  have hheard₂ : s₂.heard 0 = some (0, 0) := (ClockedSystem.step_eq_some hfirst).2.2.2 ▸ hheard₁
  have hstate₁ : s₁.stateOf 0 = .roundInit := by
    obtain ⟨-, hresult, -, -⟩ := ClockedSystem.step_eq_some hinit
    rw [ClockedSystem.stateOf, ← Option.some.inj hresult]
    rfl
  have hkept : s₂.stateOf 0 ≠ .dropoutDetection := by
    have hlive := (dropoutDetection_correct repeatPlatform id 0xFFFFFFFF pairedSystem
      (wrappedCalls.take 2) 0).1 ?_
    · intro hdetected
      have hbefore := (hlive.2 s₁ hinit).1 s₂ hfirst hdetected
      rw [hstate₁] at hbefore
      cases hbefore
    · refine ⟨fun time hchecks => hchecks.elim, fun s hs => ⟨?_, fun _ _ => trivial⟩⟩
      obtain rfl : s₁ = s := Option.some.inj (hinit.symm.trans hs)
      rintro time ⟨-, rfl⟩
      exact ⟨0, 0, hheard₁, by decide⟩
  refine ⟨s₁, s₂, s₃, (PartialRun.run_singleton _ _).trans hinit, hfirst, hrun₂, hkept, ?_⟩
  have hsilent := (dropoutDetection_correct repeatPlatform id 0xFFFFFFFF pairedSystem
    wrappedCalls 0).2
  have hend : (PartialRun.run (ClockedSystem.step repeatPlatform id 0xFFFFFFFF)
      (.boot pairedSystem) (wrappedCalls.take 2)).map (fun s => (s.stateOf 0, s.sys.registered)) =
        some (.roundInit, [some 0]) := by
    decide +kernel
  obtain ⟨s, hs, hend⟩ := Option.map_eq_some_iff.mp hend
  obtain ⟨s', hs', hs⟩ := PartialRun.run_cons hs
  obtain rfl : s₁ = s' := Option.some.inj (hinit.symm.trans hs')
  obtain rfl : s₂ = s :=
    Option.some.inj (hfirst.symm.trans ((PartialRun.run_singleton _ _).symm.trans hs))
  simp only [Prod.mk.injEq] at hend
  obtain ⟨hstate₂, hregistered⟩ := hend
  refine ((hsilent.2 s₁ hinit).2 s₂ hfirst).1 10001 ⟨?_, rfl⟩ ?_ ?_ ?_ s₃ hrun₂
  · rw [hregistered]
    exact List.mem_singleton_self _
  · exact ⟨0, 0, hheard₂, by decide, by decide⟩
  · rw [hstate₂]
    decide
  · rw [hstate₂]
    decide

end SwiftAgg.Native
