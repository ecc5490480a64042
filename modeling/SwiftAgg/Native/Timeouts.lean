import SwiftAgg.Native.StateMachine

/-!
# Timeouts of the client contexts

Besides the state machine, three calls write the state of a context: the
dropout timer and `protocol_check_timeouts` of `state_machine.c`, which go over
the contexts registered there, and the `protocol_check_timeouts` of `main.c`
that the state monitor calls for the one context registered with it. Contexts
are named by their addresses. A call is one step; what it reads from the tick
counter is an input of it.
-/

namespace SwiftAgg.Native

/-- `MAX_CLIENTS`. -/
def maxClients : Nat := 16

/-- `DROPOUT_TIMEOUT_MS`. -/
def dropoutTimeoutMs : UInt32 := 10000

/-- The contexts in memory, and the globals that point to them: `g_registered_contexts` up to
    `g_num_registered`, whose entries may be `NULL`, and `g_client_contexts` of `main.c`. -/
structure ClientSystem where
  contexts : Nat → ClientProtocolCtx
  registered : List (Option Nat)
  capacity : registered.length ≤ maxClients
  monitored : Option Nat

/-- The guard of both loops over the registered contexts; the difference of the ticks is taken in
    `uint32_t`. -/
def DropsOut (limit tick : UInt32) (ctx : ClientProtocolCtx) : Prop :=
  ctx.state ≠ .roundComplete ∧ ctx.state ≠ .error ∧ limit < tick - ctx.lastActivityTick

instance (limit tick : UInt32) (ctx : ClientProtocolCtx) : Decidable (DropsOut limit tick ctx) :=
  inferInstanceAs (Decidable (_ ∧ _))

/-- The loop over the registered contexts, each with the tick it is compared with: the contexts
    afterwards, and those that were found to be dropped out, as they were. -/
def detectDropouts (limit : UInt32) :
    List (UInt32 × Option Nat) → (Nat → ClientProtocolCtx) →
      (Nat → ClientProtocolCtx) × List ClientProtocolCtx
  | [], contexts => (contexts, [])
  -- an entry may be `NULL`
  | (_, none) :: rest, contexts => detectDropouts limit rest contexts
  | (tick, some i) :: rest, contexts =>
    if DropsOut limit tick (contexts i) then
      let (contexts', dropped) := detectDropouts limit rest
        (Function.update contexts i { contexts i with state := .dropoutDetection })
      (contexts', contexts i :: dropped)
    else detectDropouts limit rest contexts

namespace ClientSystem

variable (msToTicks : UInt32 → UInt32)

/-- `protocol_register_context`; the pointer may be `NULL`, and is dropped once the array is
    full. -/
def protocolRegisterContext (sys : ClientSystem) (ctx : Option Nat) : ClientSystem :=
  if h : sys.registered.length < maxClients then
    { sys with
      registered := sys.registered ++ [ctx]
      capacity := by simpa using Nat.succ_le_of_lt h }
  else sys

/-- `dropout_timer_callback`, which reads the tick counter once for every context. -/
def dropoutTimerCallback (sys : ClientSystem) (ticks : Nat → UInt32) : ClientSystem :=
  { sys with
    contexts := (detectDropouts (msToTicks dropoutTimeoutMs)
      (sys.registered.zipIdx.map fun entry => (ticks entry.2, entry.1)) sys.contexts).1 }

/-- `dropout_hdr` for a context. -/
def dropoutHeader (ctx : ClientProtocolCtx) : MsgHeader where
  protocolVersion := protocolVersion
  roundId := ctx.currentRoundId
  clientId := ctx.clientId
  messageType := MsgType.dropoutNotify.code
  sequenceNumber := 0
  payloadLength := 0
  reserved := 0

/-- `protocol_check_timeouts` of `state_machine.c`, with the headers it encodes. -/
def protocolCheckTimeouts (sys : ClientSystem) (tick : UInt32) : ClientSystem × List MsgHeader :=
  let (contexts, dropped) := detectDropouts (msToTicks dropoutTimeoutMs)
    (sys.registered.map fun ctx => (tick, ctx)) sys.contexts
  ({ sys with contexts }, dropped.map dropoutHeader)

/-- `protocol_check_timeouts` of `main.c`: the limit is the context's own and is compared with
    ticks as it is. -/
def monitorCheckTimeouts (sys : ClientSystem) (tick : UInt32) : ClientSystem :=
  match sys.monitored with
  | none => sys
  | some i =>
    if (sys.contexts i).timeoutMs < tick - (sys.contexts i).lastActivityTick then
      -- whatever state the context is in
      { sys with
        contexts := Function.update sys.contexts i { sys.contexts i with state := .error } }
    else sys

end ClientSystem

/-- A call that writes states: a message for a context, and the three kinds of timeouts with the
    values of the tick counter. -/
inductive ClientEvent where
  | message (i : Nat) (m : Message)
  | dropoutTimer (ticks : Nat → UInt32)
  | checkTimeouts (tick : UInt32)
  | stateMonitor (tick : UInt32)

/-- One call. -/
def ClientSystem.step (pf : Platform) (msToTicks : UInt32 → UInt32) (sys : ClientSystem) :
    ClientEvent → Option ClientSystem
  | .message i m =>
    (processMessage pf m.env (sys.contexts i) m.hdr m.payload m.payloadLen).map fun out =>
      { sys with contexts := Function.update sys.contexts i out.ctx }
  | .dropoutTimer ticks => some (sys.dropoutTimerCallback msToTicks ticks)
  | .checkTimeouts tick => some (sys.protocolCheckTimeouts msToTicks tick).1
  | .stateMonitor tick => some (sys.monitorCheckTimeouts tick)

end SwiftAgg.Native
