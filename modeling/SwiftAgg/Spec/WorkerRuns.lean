import SwiftAgg.Spec.TaskRuns

/-!
# Runs of the worker tasks

Seen alone, a worker of the firmware is a machine of three events: an item is
submitted, the task takes one, and the call for it returns. Whatever else the
firmware does in between, its workers run as these machines do. Every item that
is accepted is worked on once and in its turn, a turn being a take and, some time
later, a return; and the flag of an item is set after the call for it, and only
then.

## Key results

- `Worker.Accounted.step`: no item is lost, or worked on twice
- `Worker.Accounted.le_length_finished`: how far a worker comes in a number of turns
- `Firmware.step_workers`: the firmware moves its workers as if they were alone
- `work_accounted`: what the workers do with what was submitted
-/

namespace SwiftAgg.Native

open PartialRun

/-- What happens to a worker. -/
inductive WorkerEvent (α : Type) where
  | submit (item : α)
  | take
  | done

/-! ## A worker alone -/

namespace Worker

variable {α : Type} (call : α → Option WorkerCall) {w : Worker α}

/-- The call for the current item returns. -/
def done (w : Worker α) : Worker α :=
  if (w.current.bind call).isSome then { w with current := none } else w

/-- One event. -/
def step (w : Worker α) : WorkerEvent α → Worker α
  | .submit item => (w.submit item).2
  | .take => w.take call
  | .done => w.done call

/-- The items that were received, without the current one. -/
def finished (w : Worker α) : List α :=
  if w.current.isSome then w.received.dropLast else w.received

/-- The items add up, and the current one is the last that was received. -/
structure Accounted (w : Worker α) : Prop where
  queue : w.queue.Accounted w.accepted w.received
  received : w.received = w.finished ++ w.current.toList
  current : ∀ item, w.current = some item → (call item).isSome = true

/-- Turns of the worker. -/
def turns : Nat → List (WorkerEvent α)
  | 0 => []
  | k + 1 => .take :: .done :: turns k

theorem finished_of_none (h : w.current = none) : w.finished = w.received := by
  simp [finished, h]

@[simp] theorem finished_submit (w : Worker α) (item : α) :
    (w.submit item).2.finished = w.finished := by
  unfold submit
  split <;> rfl

/-- A full queue refuses, and only a full one. -/
theorem submit_eq_false_iff {item : α} :
    (w.submit item).1 = false ↔ w.queue.items.length = queueLength := by
  unfold submit
  split
  · rename_i hnone
    exact iff_of_true rfl (WorkQueue.send_eq_none_iff.mp hnone)
  · rename_i queue hsome
    refine iff_of_false Bool.noConfusion fun hfull => ?_
    rw [WorkQueue.send_eq_none_iff.mpr hfull] at hsome
    cases hsome

variable {call}

theorem accounted_idle : (idle : Worker α).Accounted call where
  queue := rfl
  received := rfl
  current := nofun

theorem Accounted.submit (h : w.Accounted call) (item : α) : (w.submit item).2.Accounted call := by
  unfold Worker.submit
  split
  · exact h
  · rename_i queue hsend
    exact ⟨h.queue.send hsend, h.received, h.current⟩

/-- What the task does when it takes an item. -/
theorem take_cases (call : α → Option WorkerCall) (w : Worker α) :
    (w.take call = w ∧ (w.current = none → w.queue.items = [])) ∨
    ∃ item queue, w.current = none ∧ w.queue.receive = some (item, queue) ∧
      w.take call =
        { w with
          queue
          current := if (call item).isSome then some item else none
          received := w.received ++ [item] } := by
  cases hcurrent : w.current with
  | some item => exact .inl ⟨by simp [take, hcurrent], nofun⟩
  | none =>
    cases hreceive : w.queue.receive with
    | some next =>
      obtain ⟨item, queue⟩ := next
      exact .inr ⟨item, queue, rfl, rfl, by simp [take, hcurrent, hreceive]⟩
    | none =>
      have hempty := WorkQueue.receive_eq_none hreceive
      exact .inl ⟨by simp [take, hcurrent, hreceive], fun _ => hempty⟩

theorem Accounted.take (h : w.Accounted call) : (w.take call).Accounted call := by
  obtain ⟨htake, -⟩ | ⟨item, queue, -, hreceive, htake⟩ := take_cases call w
  · rwa [htake]
  · rw [htake]
    refine ⟨h.queue.receive hreceive, ?_, fun item' hitem' => ?_⟩
    · cases hcall : (call item).isSome <;> simp [finished]
    · split at hitem'
      · cases hitem'
        assumption
      · cases hitem'

theorem Accounted.done (h : w.Accounted call) : (w.done call).Accounted call := by
  unfold Worker.done
  split
  · exact ⟨h.queue, by simp [finished], nofun⟩
  · exact h

/-- No item is lost, and none is worked on twice. -/
theorem Accounted.step (h : w.Accounted call) (e : WorkerEvent α) :
    (w.step call e).Accounted call := by
  cases e with
  | submit item => exact h.submit item
  | take => exact h.take
  | done => exact h.done

theorem Accounted.accepted_eq (h : w.Accounted call) :
    w.accepted = w.finished ++ w.current.toList ++ w.queue.items := by
  rw [← h.received, h.queue]

theorem Accounted.run (h : w.Accounted call) (events : List (WorkerEvent α)) :
    (events.foldl (Worker.step call) w).Accounted call := by
  induction events generalizing w with
  | nil => exact h
  | cons e events ih => exact ih (h.step e)

/-! ## Turns -/

/-- Two for each item that the worker is finished with, and one for the current item. -/
def progress (w : Worker α) : Nat := 2 * w.finished.length + w.current.toList.length

theorem progress_le (w : Worker α) : w.progress ≤ 2 * w.finished.length + 1 := by
  unfold progress
  cases w.current <;> simp

theorem accepted_prefix_step (call : α → Option WorkerCall) (w : Worker α) (e : WorkerEvent α) :
    w.accepted <+: (w.step call e).accepted := by
  cases e with
  | submit item =>
    show _ <+: (w.submit item).2.accepted
    unfold submit
    split
    · exact List.prefix_rfl
    · exact List.prefix_append ..
  | take =>
    obtain ⟨htake, -⟩ | ⟨item, queue, -, -, htake⟩ := take_cases call w <;> simp [step, htake]
  | done =>
    show _ <+: (w.done call).accepted
    unfold done
    split <;> exact List.prefix_rfl

theorem progress_submit (w : Worker α) (item : α) : (w.submit item).2.progress = w.progress := by
  unfold progress
  rw [finished_submit]
  unfold submit
  split <;> rfl

/-- To take an item is progress, if the worker waits and there is one. -/
theorem progress_take (call : α → Option WorkerCall) (w : Worker α) :
    w.progress ≤ (w.take call).progress ∧
      (w.current = none → w.queue.items ≠ [] → w.progress < (w.take call).progress) := by
  obtain ⟨htake, hempty⟩ | ⟨item, queue, hnone, -, htake⟩ := take_cases call w
  · rw [htake]
    exact ⟨le_rfl, fun hnone hitems => absurd (hempty hnone) hitems⟩
  · have hlt : w.progress < (w.take call).progress := by
      rw [htake, progress, progress, finished_of_none hnone, hnone]
      cases (call item).isSome <;> simp [finished]
    exact ⟨hlt.le, fun _ _ => hlt⟩

/-- The return of a call is progress. -/
theorem Accounted.progress_done (h : w.Accounted call) :
    (w.done call).progress = w.progress + w.current.toList.length := by
  have hreceived := congrArg List.length h.received
  cases hcurrent : w.current with
  | none => simp [Worker.done, hcurrent]
  | some item =>
    have hdone : w.done call = { w with current := none } := by
      simp [Worker.done, hcurrent, h.current item hcurrent]
    rw [hdone, progress, progress, finished_of_none rfl]
    simp only [hcurrent, List.length_append, Option.toList_some, Option.toList_none,
      List.length_singleton, List.length_nil] at hreceived ⊢
    omega

theorem Accounted.progress_step (h : w.Accounted call) (e : WorkerEvent α) :
    w.progress ≤ (w.step call e).progress := by
  cases e with
  | submit item => exact (progress_submit w item).ge
  | take => exact (progress_take call w).1
  | done => exact h.progress_done ▸ Nat.le_add_right ..

/-- After a take the worker is on its way to the next item of the first `n`. -/
theorem Accounted.lt_progress_take (h : w.Accounted call) {n k : Nat} (hn : n ≤ w.accepted.length)
    (hk : 2 * n ≤ w.progress + 2 * (k + 1)) : 2 * n ≤ (w.take call).progress + 2 * k + 1 := by
  have hmono := (progress_take call w).1
  cases hcurrent : w.current with
  | some item =>
    have hodd : w.progress = 2 * w.finished.length + 1 := by simp [progress, hcurrent]
    omega
  | none =>
    by_cases hitems : w.queue.items = []
    · have heven : w.progress = 2 * w.finished.length := by simp [progress, hcurrent]
      have hall : w.accepted = w.finished := by simp [h.accepted_eq, hcurrent, hitems]
      rw [hall] at hn
      omega
    · have hlt := (progress_take call w).2 hcurrent hitems
      omega

/-- After a return it has come as far as it was on its way to. -/
theorem Accounted.le_progress_done (h : w.Accounted call) {n k : Nat}
    (hk : 2 * n ≤ w.progress + 2 * k + 1) : 2 * n ≤ (w.done call).progress + 2 * k := by
  have hdone := h.progress_done
  cases hcurrent : w.current with
  | some item =>
    rw [hcurrent, Option.toList_some, List.length_singleton] at hdone
    omega
  | none =>
    have heven : w.progress = 2 * w.finished.length := by simp [progress, hcurrent]
    rw [hcurrent, Option.toList_none, List.length_nil] at hdone
    omega

/-- The worker is finished with the first `n` items after as many turns as it lacks, whatever
    happens before, between and after them; the second part is the state in the middle of a turn. -/
theorem Accounted.le_length_finished_of_progress {n : Nat} (events : List (WorkerEvent α)) :
    ∀ {w : Worker α}, w.Accounted call → n ≤ w.accepted.length →
      (∀ k, 2 * n ≤ w.progress + 2 * k → (turns k).Sublist events →
        n ≤ (events.foldl (Worker.step call) w).finished.length) ∧
      (∀ k, 2 * n ≤ w.progress + 2 * k + 1 → (.done :: turns k).Sublist events →
        n ≤ (events.foldl (Worker.step call) w).finished.length) := by
  induction events with
  | nil =>
    refine fun {w} _ _ => ⟨fun k hk hturns => ?_, fun k _ hturns => by cases hturns⟩
    obtain _ | k := k
    · have hle := w.progress_le
      simp only [List.foldl_nil]
      omega
    · cases hturns
  | cons e events ih =>
    intro w h hn
    have hmono := h.progress_step e
    have hstep := ih (h.step e) (hn.trans (accepted_prefix_step call w e).length_le)
    constructor
    · intro k hk hturns
      cases k with
      | zero => exact hstep.1 0 (by omega) (List.nil_sublist events)
      | succ k =>
        cases hturns with
        | cons _ hturns => exact hstep.1 (k + 1) (by omega) hturns
        | cons_cons _ hturns => exact hstep.2 k (h.lt_progress_take hn hk) hturns
    · intro k hk hturns
      cases hturns with
      | cons _ hturns => exact hstep.2 k (by omega) hturns
      | cons_cons _ hturns => exact hstep.1 k (h.le_progress_done hk) hturns

/-- After `k` turns the worker is finished with `k` items more, unless there are not so many. -/
theorem Accounted.le_length_finished (h : w.Accounted call) {k : Nat}
    {events : List (WorkerEvent α)} (hturns : (turns k).Sublist events) :
    min (w.finished.length + k) w.accepted.length ≤
      (events.foldl (Worker.step call) w).finished.length := by
  refine (le_length_finished_of_progress events h (min_le_right _ _)).1 k ?_ hturns
  have hprogress : w.progress = 2 * w.finished.length + w.current.toList.length := rfl
  omega

theorem accepted_prefix_run (call : α → Option WorkerCall) (w : Worker α)
    (events : List (WorkerEvent α)) :
    w.accepted <+: (events.foldl (step call) w).accepted := by
  induction events generalizing w with
  | nil => exact List.prefix_rfl
  | cons e events ih => exact (accepted_prefix_step call w e).trans (ih _)

/-- After `k` turns the worker is finished with the next `k` items. -/
theorem Accounted.take_prefix_finished (h : w.Accounted call) {k : Nat}
    {events : List (WorkerEvent α)} (hturns : (turns k).Sublist events) :
    w.accepted.take (w.finished.length + k) <+:
      (events.foldl (Worker.step call) w).finished := by
  have hrun := h.run events
  set w' := events.foldl (Worker.step call) w with hw'
  have haccepted : w.accepted <+: w'.accepted := accepted_prefix_run call w events
  have hfinished : w'.finished <+: w'.accepted := by
    rw [hrun.accepted_eq, List.append_assoc]
    exact List.prefix_append ..
  refine List.prefix_of_prefix_length_le ((List.take_prefix ..).trans haccepted) hfinished ?_
  rw [List.length_take]
  exact h.le_length_finished hturns

end Worker

/-! ## The workers of the firmware -/

/-- What an event is to the stream aggregator. -/
def FirmwareEvent.stream : FirmwareEvent → Option (WorkerEvent StreamWorkItem)
  | .streamSubmit item => some (.submit item)
  | .streamTake _ => some .take
  | .streamDone _ => some .done
  | _ => none

/-- What an event is to the crypto worker. -/
def FirmwareEvent.crypto : FirmwareEvent → Option (WorkerEvent CryptoWorkItem)
  | .cryptoSubmit item => some (.submit item)
  | .cryptoTake _ => some .take
  | .cryptoDone _ => some .done
  | _ => none

/-- The flags that are set for items: none for an item without a call. -/
def CryptoWorkItem.flags (items : List CryptoWorkItem) : List Nat :=
  (items.filter fun item => item.call.isSome).filterMap doneFlag

theorem CryptoWorkItem.flags_append (items items' : List CryptoWorkItem) :
    flags (items ++ items') = flags items ++ flags items' := by
  simp [flags]

namespace Firmware

variable {fw fw' : Firmware} {e : FirmwareEvent}

/-- The invariant of the workers. -/
structure Accounted (fw : Firmware) : Prop where
  stream : fw.stream.Accounted StreamWorkItem.call
  crypto : fw.crypto.Accounted CryptoWorkItem.call
  doneFlags : fw.doneFlags = CryptoWorkItem.flags fw.crypto.finished

theorem accounted_appMain : appMain.Accounted where
  stream := Worker.accounted_idle
  crypto := Worker.accounted_idle
  doneFlags := rfl

theorem streamDone_stream (fw : Firmware) (cycles : UInt32) :
    (fw.streamDone cycles).stream = fw.stream.done StreamWorkItem.call := by
  unfold streamDone Worker.done
  cases hcall : fw.stream.current.bind StreamWorkItem.call <;> rfl

theorem cryptoDone_crypto (fw : Firmware) (cycles : UInt32) :
    (fw.cryptoDone cycles).crypto = fw.crypto.done CryptoWorkItem.call := by
  unfold cryptoDone Worker.done
  cases hcurrent : fw.crypto.current with
  | none => rfl
  | some item => cases hcall : item.call <;> simp [hcall, recordCycles]

/-- The firmware moves its workers as if they were alone. -/
theorem step_workers (hstep : fw.step e = some fw') :
    fw'.stream = e.stream.toList.foldl (Worker.step StreamWorkItem.call) fw.stream ∧
      fw'.crypto = e.crypto.toList.foldl (Worker.step CryptoWorkItem.call) fw.crypto := by
  by_cases he : e.IsWork
  · cases e with
    | streamTake cycles =>
      cases hstep
      unfold streamTake
      dsimp only
      split <;> exact ⟨rfl, rfl⟩
    | streamDone cycles =>
      cases hstep
      refine ⟨streamDone_stream fw cycles, ?_⟩
      unfold streamDone
      split <;> rfl
    | cryptoTake cycles =>
      cases hstep
      unfold cryptoTake
      dsimp only
      split <;> exact ⟨rfl, rfl⟩
    | cryptoDone cycles =>
      cases hstep
      refine ⟨?_, cryptoDone_crypto fw cycles⟩
      unfold cryptoDone
      split
      · rfl
      · split <;> rfl
    | streamSubmit item => cases hstep; exact ⟨rfl, rfl⟩
    | cryptoSubmit item => cases hstep; exact ⟨rfl, rfl⟩
    | roundStart roundId => cases hstep; exact ⟨rfl, rfl⟩
    | _ => exact he.elim
  · have hsame := step_network he hstep
    have hnone : e.stream = none ∧ e.crypto = none := by
      cases e <;> first | exact ⟨rfl, rfl⟩ | exact absurd trivial he
    rw [hnone.1, hnone.2]
    exact ⟨hsame.stream, hsame.crypto⟩

theorem run_workers {events : List FirmwareEvent}
    (hrun : PartialRun.run Firmware.step fw events = some fw') :
    fw'.stream =
        (events.filterMap FirmwareEvent.stream).foldl (Worker.step StreamWorkItem.call) fw.stream ∧
      fw'.crypto =
        (events.filterMap FirmwareEvent.crypto).foldl (Worker.step CryptoWorkItem.call)
          fw.crypto := by
  induction events generalizing fw with
  | nil =>
    cases hrun
    exact ⟨rfl, rfl⟩
  | cons e events ih =>
    obtain ⟨fw₁, hstep, hrest⟩ := run_cons hrun
    obtain ⟨hstream, hcrypto⟩ := step_workers hstep
    obtain ⟨hstream', hcrypto'⟩ := ih hrest
    rw [hstream', hcrypto', hstream, hcrypto]
    constructor
    · cases he : e.stream <;> simp [he]
    · cases he : e.crypto <;> simp [he]

/-- To take an item sets no flag. -/
theorem flags_finished_take (w : Worker CryptoWorkItem) :
    CryptoWorkItem.flags (w.take CryptoWorkItem.call).finished =
      CryptoWorkItem.flags w.finished := by
  obtain ⟨htake, -⟩ | ⟨item, queue, hnone, -, htake⟩ := Worker.take_cases CryptoWorkItem.call w
  · rw [htake]
  · rw [htake, Worker.finished_of_none hnone]
    cases hcall : item.call.isSome with
    | true => simp [Worker.finished]
    | false =>
      -- an item without a call is finished with at once
      have hnoflag : CryptoWorkItem.flags [item] = [] := by simp [CryptoWorkItem.flags, hcall]
      simp [Worker.finished, CryptoWorkItem.flags_append, hnoflag]

/-- Events of the stream aggregator, and rounds of the telemetry, set no flag. -/
theorem doneFlags_step_of_crypto_none (he : e.crypto = none) (hstep : fw.step e = some fw') :
    fw'.doneFlags = fw.doneFlags := by
  by_cases hwork : e.IsWork
  · cases e with
    | streamTake cycles =>
      cases hstep
      unfold streamTake
      dsimp only
      split <;> rfl
    | streamDone cycles =>
      cases hstep
      unfold streamDone
      split <;> rfl
    | streamSubmit item => cases hstep; rfl
    | roundStart roundId => cases hstep; rfl
    | cryptoTake cycles => cases he
    | cryptoDone cycles => cases he
    | cryptoSubmit item => cases he
    | _ => exact hwork.elim
  · exact (step_network hwork hstep).doneFlags

/-- The return of a call sets the flag of its item. -/
theorem Accounted.doneFlags_cryptoDone (h : fw.Accounted) (cycles : UInt32) :
    (fw.cryptoDone cycles).doneFlags =
      CryptoWorkItem.flags (fw.cryptoDone cycles).crypto.finished := by
  rw [cryptoDone_crypto, Worker.done]
  cases hcurrent : fw.crypto.current with
  | none => simpa [cryptoDone, hcurrent] using h.doneFlags
  | some item =>
    obtain ⟨call, hcall⟩ := Option.isSome_iff_exists.mp (h.crypto.current item hcurrent)
    have hreceived := h.crypto.received
    rw [hcurrent] at hreceived
    have hflag : CryptoWorkItem.flags [item] = item.doneFlag.toList := by
      cases hdone : item.doneFlag <;> simp [CryptoWorkItem.flags, hcall, hdone]
    have hset : (fw.cryptoDone cycles).doneFlags = fw.doneFlags ++ item.doneFlag.toList := by
      simp [cryptoDone, hcurrent, hcall, recordCycles]
    rw [hset, h.doneFlags, ← hflag, ← CryptoWorkItem.flags_append]
    have hdone : ((some item).bind CryptoWorkItem.call).isSome = true := by simp [hcall]
    rw [if_pos hdone]
    exact congrArg _ hreceived.symm

/-- The flags that are set are those of the items that the crypto worker is finished with. -/
theorem Accounted.doneFlags_step (h : fw.Accounted) (hstep : fw.step e = some fw') :
    fw'.doneFlags = CryptoWorkItem.flags fw'.crypto.finished := by
  cases he : e.crypto with
  | none =>
    rw [doneFlags_step_of_crypto_none he hstep, (step_workers hstep).2, he]
    exact h.doneFlags
  | some event =>
    cases e with
    | cryptoTake cycles =>
      have hcrypto := (step_workers hstep).2
      have hdone : fw'.doneFlags = fw.doneFlags := by
        cases hstep
        unfold cryptoTake
        dsimp only
        split <;> rfl
      rw [hdone, hcrypto, h.doneFlags]
      exact (flags_finished_take fw.crypto).symm
    | cryptoDone cycles =>
      cases hstep
      exact h.doneFlags_cryptoDone cycles
    | cryptoSubmit item =>
      cases hstep
      exact h.doneFlags.trans (congrArg _ (Worker.finished_submit fw.crypto item).symm)
    | _ => cases he

theorem Accounted.step (h : fw.Accounted) (hstep : fw.step e = some fw') : fw'.Accounted where
  stream := by
    rw [(step_workers hstep).1]
    exact h.stream.run _
  crypto := by
    rw [(step_workers hstep).2]
    exact h.crypto.run _
  doneFlags := h.doneFlags_step hstep

theorem Accounted.run {events : List FirmwareEvent} (h : fw.Accounted)
    (hrun : PartialRun.run Firmware.step fw events = some fw') : fw'.Accounted := by
  induction events generalizing fw with
  | nil =>
    cases hrun
    exact h
  | cons e events ih =>
    obtain ⟨fw₁, hstep, hrest⟩ := run_cons hrun
    exact ih (h.step hstep) hrest

/-- A crypto worker that gets `k` turns is finished with the next `k` items, and has set their
    flags. -/
theorem Accounted.take_prefix_crypto (h : fw.Accounted) {k : Nat} {rest : List FirmwareEvent}
    (hrun : PartialRun.run Firmware.step fw rest = some fw')
    (hturns : (Worker.turns k).Sublist (rest.filterMap FirmwareEvent.crypto)) :
    fw.crypto.accepted.take (fw.crypto.finished.length + k) <+: fw'.crypto.finished ∧
      CryptoWorkItem.flags (fw.crypto.accepted.take (fw.crypto.finished.length + k)) <+:
        fw'.doneFlags := by
  have hfinished : fw.crypto.accepted.take (fw.crypto.finished.length + k) <+:
      fw'.crypto.finished := by
    rw [(run_workers hrun).2]
    exact h.crypto.take_prefix_finished hturns
  refine ⟨hfinished, ?_⟩
  obtain ⟨more, hmore⟩ := hfinished
  rw [(h.run hrun).doneFlags, ← hmore, CryptoWorkItem.flags_append]
  exact List.prefix_append ..

end Firmware

/-- In every run from `app_main`, what a worker's queue has accepted is what the worker is finished
    with, what it works on, and what waits; a queue refuses exactly with eight items waiting; and
    the flags that are set are those of the crypto items that are finished. However the run goes
    on, a worker that gets `k` turns is finished with the next `k` items that were accepted, and the
    crypto worker has then set their flags. -/
theorem work_accounted (events rest : List FirmwareEvent) :
    ∃ fw fw', run Firmware.step Firmware.appMain events = some fw ∧
      run Firmware.step fw rest = some fw' ∧
      fw.stream.accepted =
        fw.stream.finished ++ fw.stream.current.toList ++ fw.stream.queue.items ∧
      fw.crypto.accepted =
        fw.crypto.finished ++ fw.crypto.current.toList ++ fw.crypto.queue.items ∧
      (∀ item, (fw.stream.submit item).1 = false ↔ fw.stream.queue.items.length = 8) ∧
      (∀ item, (fw.crypto.submit item).1 = false ↔ fw.crypto.queue.items.length = 8) ∧
      fw.doneFlags = CryptoWorkItem.flags fw.crypto.finished ∧
      (∀ k, (Worker.turns k).Sublist (rest.filterMap FirmwareEvent.stream) →
        fw.stream.accepted.take (fw.stream.finished.length + k) <+: fw'.stream.finished) ∧
      ∀ k, (Worker.turns k).Sublist (rest.filterMap FirmwareEvent.crypto) →
        fw.crypto.accepted.take (fw.crypto.finished.length + k) <+: fw'.crypto.finished ∧
          CryptoWorkItem.flags (fw.crypto.accepted.take (fw.crypto.finished.length + k)) <+:
            fw'.doneFlags := by
  obtain ⟨fw, hrun, hsilent⟩ := Firmware.silent_appMain.run events
  obtain ⟨fw', hrest, -⟩ := hsilent.run rest
  have h := Firmware.accounted_appMain.run hrun
  refine ⟨fw, fw', hrun, hrest, h.stream.accepted_eq, h.crypto.accepted_eq,
    fun item => Worker.submit_eq_false_iff, fun item => Worker.submit_eq_false_iff, h.doneFlags,
    fun k hturns => ?_, fun k hturns => h.take_prefix_crypto hrest hturns⟩
  rw [(Firmware.run_workers hrest).1]
  exact h.stream.take_prefix_finished hturns

end SwiftAgg.Native
