import Mathlib.Tactic.Common

/-!
# Bounded queues

Items are sent to the back of a queue that holds at most `n` of them, and
received from its front. Whatever is sent and received in which order, the
items that were accepted are those that were received, followed by those that
still wait.

## Key results

- `Accounted.send` / `Accounted.receive`: the history of a queue adds up
-/

/-- A first-in first-out queue of at most `n` items. -/
structure WorkQueue (α : Type*) (n : Nat) where
  items : List α
  length_le : items.length ≤ n

namespace WorkQueue

variable {α : Type*} {n : Nat}

/-- A queue without items. -/
def empty : WorkQueue α n := ⟨[], Nat.zero_le n⟩

/-- Send to the back; a full queue refuses. -/
def send (q : WorkQueue α n) (a : α) : Option (WorkQueue α n) :=
  if h : q.items.length < n then some ⟨q.items ++ [a], by simpa using Nat.succ_le_of_lt h⟩ else none

/-- Receive from the front, if anything waits. -/
def receive : WorkQueue α n → Option (α × WorkQueue α n)
  | ⟨[], _⟩ => none
  | ⟨a :: rest, h⟩ => some (a, ⟨rest, Nat.le_of_succ_le h⟩)

theorem items_of_send {q q' : WorkQueue α n} {a : α} (h : q.send a = some q') :
    q'.items = q.items ++ [a] := by
  unfold send at h
  split at h
  · cases h
    rfl
  · cases h

/-- A queue refuses only if it is full. -/
theorem send_eq_none_iff {q : WorkQueue α n} {a : α} : q.send a = none ↔ q.items.length = n := by
  have hle := q.length_le
  unfold send
  split <;> simp <;> omega

theorem items_of_receive {q q' : WorkQueue α n} {a : α} (h : q.receive = some (a, q')) :
    q.items = a :: q'.items := by
  obtain ⟨_ | ⟨b, rest⟩, hle⟩ := q
  · cases h
  · cases h
    rfl

theorem receive_eq_none {q : WorkQueue α n} (h : q.receive = none) : q.items = [] := by
  obtain ⟨_ | ⟨b, rest⟩, hle⟩ := q
  · rfl
  · cases h

/-- What was accepted is what was received, followed by what still waits. -/
def Accounted (q : WorkQueue α n) (accepted received : List α) : Prop :=
  accepted = received ++ q.items

variable {q q' : WorkQueue α n} {a : α} {accepted received : List α}

theorem Accounted.send (h : q.Accounted accepted received) (hsend : q.send a = some q') :
    q'.Accounted (accepted ++ [a]) received := by
  rw [Accounted, items_of_send hsend, ← List.append_assoc, ← h]

theorem Accounted.receive (h : q.Accounted accepted received)
    (hreceive : q.receive = some (a, q')) : q'.Accounted accepted (received ++ [a]) := by
  rw [Accounted, h, items_of_receive hreceive, List.append_assoc]
  rfl

end WorkQueue
