import SwiftAgg.Host.BaselineServer

/-!
# Runs of the host server

`_handle_client` reads messages from a connection and dispatches them one after
the other. A handler that raises ends its connection and keeps what it had
changed. Two kinds of runs are modelled: handlers that run atomically, one
message after the other, and handlers of different connections that interleave
where they suspend.
-/

namespace SwiftAgg.Host

/-- A message that is dispatched for a connection, and the connections that are being closed at
    that time. -/
structure Message where
  header : MessageHeader
  payload : Bytes
  writer : Nat
  closing : List Nat

/-- `_dispatch_message` as `_handle_client` calls it. -/
def Message.handler (env : HostEnv) (m : Message) : Server Unit :=
  dispatchMessage env m.header m.payload m.writer

/-! ## Atomic handlers -/

/-- Handle a message without interference; what the handler changed stays, also if it raises. -/
def ServerState.handle (env : HostEnv) (s : ServerState) (m : Message) : ServerState :=
  ((m.handler env).run { s with closing := m.closing }).2

/-- Handle messages one after the other. -/
def ServerState.handleAll (env : HostEnv) (s : ServerState) (ms : List Message) : ServerState :=
  ms.foldl (ServerState.handle env) s

/-- In handling the messages one after the other, every message is handled in a state with `P`. -/
def EveryStep (env : HostEnv) (P : ServerState → Message → Prop) :
    ServerState → List Message → Prop
  | _, [] => True
  | s, m :: ms => P s m ∧ EveryStep env P (s.handle env m) ms

instance EveryStep.decidable (env : HostEnv) (P : ServerState → Message → Prop)
    [∀ s m, Decidable (P s m)] : (s : ServerState) → (ms : List Message) →
      Decidable (EveryStep env P s ms)
  | _, [] => isTrue trivial
  | s, m :: ms =>
    have := EveryStep.decidable env P (s.handle env m) ms
    inferInstanceAs (Decidable (P s m ∧ EveryStep env P (s.handle env m) ms))

/-! ## Written messages -/

/-- `_parse_header`, for 16 bytes. -/
def parseHeader : Bytes → Except PyErr MessageHeader
  | [_, _, _, _, r₀, r₁, r₂, r₃, clientId, messageType, s₀, s₁, l₀, l₁, _, _] =>
    .ok
      { roundId := 2 ^ 16 * Bytes.word16 r₁ r₀ + Bytes.word16 r₃ r₂
        clientId := clientId.toNat
        messageType := messageType.toNat
        sequenceNumber := Bytes.word16 s₁ s₀
        payloadLength := Bytes.word16 l₁ l₀ }
  | _ => .error .structError

/-- The sequence number of a written ROUND_COMPLETE message of a round. -/
def aggregateSeq (roundId : Nat) (data : Bytes) : Option Nat :=
  match parseHeader (data.take 16) with
  | .ok h => if h.messageType = 0x41 ∧ h.roundId = roundId then some h.sequenceNumber else none
  | .error _ => none

/-- The aggregated chunks of a round among the written messages: writer and chunk index. -/
def aggregatesOf (roundId : Nat) (sent : List (Nat × Bytes)) : List (Nat × Nat) :=
  sent.filterMap fun p => (aggregateSeq roundId p.2).map fun seq => (p.1, seq)

/-! ## Interleaved handlers -/

/-- A handler: its message, what it still has to do, what it has written, and `client_writers` as
    they were when it wrote its first aggregated chunk. -/
structure Task where
  message : Message
  rest : Server Unit
  written : List (Nat × Bytes)
  broadcastTo : Option (Dict Nat Nat)

/-- The handler of a message that was just read. -/
def Task.start (env : HostEnv) (m : Message) : Task := ⟨m, m.handler env, [], none⟩

/-- Take down what a turn from `s` to `s'` wrote. -/
def Task.record (t : Task) (s s' : ServerState) : Task :=
  let new := s'.sent.drop s.sent.length
  { t with
    written := t.written ++ new
    broadcastTo := t.broadcastTo.or
      (if aggregatesOf t.message.header.roundId new = [] then none else some s.clientWriters) }

/-- The server with its suspended handlers, and the handlers that have ended with their results. -/
structure System where
  state : ServerState
  tasks : List Task
  ended : List (Task × Except PyErr Unit)

/-- The server before the first message. -/
def System.new : System := ⟨.new, [], []⟩

/-- A handler takes its turn, up to its next suspension or its end. -/
def System.turn (sys : System) (t : Task) : System :=
  match t.rest.advance sys.state with
  | (.ended r, s') =>
    { sys with state := s', ended := sys.ended ++ [(t.record sys.state s', r)] }
  | (.suspended k, s') =>
    -- a suspended handler goes to the end; `resume` may pick any
    { sys with state := s', tasks := sys.tasks ++ [{ t.record sys.state s' with rest := k }] }

/-- What the event loop does next; `close` says which connections are being closed from then on. -/
inductive Event where
  | dispatch (m : Message)
  | resume (i : Nat)
  | close (writers : List Nat)

/-- A connection whose handler is suspended reads no message. -/
def System.step (env : HostEnv) (sys : System) : Event → System
  | .dispatch m =>
    -- `_handle_client` awaits the handler before it reads on
    if sys.tasks.any fun t => t.message.writer == m.writer then sys
    else
      System.turn { sys with state := { sys.state with closing := m.closing } } (.start env m)
  | .resume i =>
    match sys.tasks[i]? with
    | some t => System.turn { sys with tasks := sys.tasks.eraseIdx i } t
    | none => sys
  | .close writers => { sys with state := { sys.state with closing := writers } }

/-- Any interleaving. -/
def System.run (env : HostEnv) (sys : System) (events : List Event) : System :=
  events.foldl (System.step env) sys

/-- In a run, every event happens in a system with `P`. -/
def EveryEvent (env : HostEnv) (P : System → Event → Prop) : System → List Event → Prop
  | _, [] => True
  | sys, e :: events => P sys e ∧ EveryEvent env P (sys.step env e) events

instance EveryEvent.decidable (env : HostEnv) (P : System → Event → Prop)
    [∀ sys e, Decidable (P sys e)] : (sys : System) → (events : List Event) →
      Decidable (EveryEvent env P sys events)
  | _, [] => isTrue trivial
  | sys, e :: events =>
    have := EveryEvent.decidable env P (sys.step env e) events
    inferInstanceAs (Decidable (P sys e ∧ EveryEvent env P (sys.step env e) events))

end SwiftAgg.Host
