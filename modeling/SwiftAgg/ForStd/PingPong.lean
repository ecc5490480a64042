import Mathlib.Tactic.Common

/-!
# Double buffers

Two buffers and a flag that says which of them is the current one. The current
buffer is the one that is written; switching makes the other one current.

## Key results

- `current_switch` / `other_switch`: a switch exchanges the two buffers
- `other_store`: a write does not reach the other buffer
-/

/-- A pair of buffers with the flag that selects one of them. -/
structure PingPong (β : Type*) where
  ping : β
  pong : β
  active : Bool
  deriving DecidableEq

namespace PingPong

variable {β : Type*}

/-- Two copies of a buffer, the first of them current. -/
def both (b : β) : PingPong β := ⟨b, b, false⟩

/-- The buffer that the flag selects. -/
def current (p : PingPong β) : β := if p.active then p.pong else p.ping

/-- The buffer that the flag does not select. -/
def other (p : PingPong β) : β := if p.active then p.ping else p.pong

/-- Replace the current buffer. -/
def store (p : PingPong β) (b : β) : PingPong β :=
  if p.active then { p with pong := b } else { p with ping := b }

/-- Flip the flag. -/
def switch (p : PingPong β) : PingPong β := { p with active := !p.active }

@[simp] theorem current_store (p : PingPong β) (b : β) : (p.store b).current = b := by
  obtain ⟨ping, pong, _ | _⟩ := p <;> rfl

@[simp] theorem other_store (p : PingPong β) (b : β) : (p.store b).other = p.other := by
  obtain ⟨ping, pong, _ | _⟩ := p <;> rfl

@[simp] theorem active_store (p : PingPong β) (b : β) : (p.store b).active = p.active := by
  obtain ⟨ping, pong, _ | _⟩ := p <;> rfl

@[simp] theorem current_switch (p : PingPong β) : p.switch.current = p.other := by
  obtain ⟨ping, pong, _ | _⟩ := p <;> rfl

@[simp] theorem other_switch (p : PingPong β) : p.switch.other = p.current := by
  obtain ⟨ping, pong, _ | _⟩ := p <;> rfl

end PingPong
