import SwiftAgg.Native.Tasks

/-!
# Runs of the firmware's tasks

`app_main` hands the stream aggregator's handle to the completion handlers, and
`dma_isr_init`, called after it, forgets the handle again. The network
coordinator, whose own handle nobody keeps, is the one that waits for the
notifications. So it never wakes up: in no interleaving of interrupts, tasks and
calls does it poll, whatever is queued for transmission stays there, and nothing
is ever received.

## Key results

- `Firmware.step_work` / `Firmware.step_network`: what the two kinds of events leave as it is
- `network_silent`: the coordinator polls in no run
-/

namespace SwiftAgg.Native

open PartialRun

/-- Turns of the workers, what is submitted to them, and the telemetry of rounds. -/
def FirmwareEvent.IsWork : FirmwareEvent → Prop
  | .streamTake _ | .streamDone _ | .cryptoTake _ | .cryptoDone _ | .streamSubmit _
  | .cryptoSubmit _ | .roundStart _ => True
  | _ => False

/-- The event discards what is queued for transmission. -/
def FirmwareEvent.Discards : FirmwareEvent → Prop
  | .transportInit _ _ | .txCompleteCallback => True
  | _ => False

namespace Firmware

variable {fw fw' : Firmware} {e : FirmwareEvent}

/-- The transport and the notifications are the same. -/
structure SameNetwork (fw fw' : Firmware) : Prop where
  handle : fw'.streamTaskHandle = fw.streamTaskHandle
  notified : fw'.notified = fw.notified
  transport : fw'.transport = fw.transport
  polls : fw'.polls = fw.polls

/-- The workers and the telemetry are the same. -/
structure SameWork (fw fw' : Firmware) : Prop where
  crypto : fw'.crypto = fw.crypto
  stream : fw'.stream = fw.stream
  doneFlags : fw'.doneFlags = fw.doneFlags
  telemetry : fw'.telemetry = fw.telemetry

/-- The workers do not touch the network. -/
theorem step_work (fw : Firmware) (he : e.IsWork) :
    ∃ fw', fw.step e = some fw' ∧ fw.SameNetwork fw' := by
  cases e with
  | streamTake cycles =>
    refine ⟨_, rfl, ?_⟩
    unfold streamTake
    dsimp only
    split <;> exact ⟨rfl, rfl, rfl, rfl⟩
  | streamDone cycles =>
    refine ⟨_, rfl, ?_⟩
    unfold streamDone
    split <;> exact ⟨rfl, rfl, rfl, rfl⟩
  | cryptoTake cycles =>
    refine ⟨_, rfl, ?_⟩
    unfold cryptoTake
    dsimp only
    split <;> exact ⟨rfl, rfl, rfl, rfl⟩
  | cryptoDone cycles =>
    refine ⟨_, rfl, ?_⟩
    unfold cryptoDone
    split
    · exact ⟨rfl, rfl, rfl, rfl⟩
    · split <;> exact ⟨rfl, rfl, rfl, rfl⟩
  | streamSubmit item => exact ⟨_, rfl, rfl, rfl, rfl, rfl⟩
  | cryptoSubmit item => exact ⟨_, rfl, rfl, rfl, rfl, rfl⟩
  | roundStart roundId => exact ⟨_, rfl, rfl, rfl, rfl, rfl⟩
  | _ => exact he.elim

theorem SameWork.refl (fw : Firmware) : fw.SameWork fw := ⟨rfl, rfl, rfl, rfl⟩

theorem SameWork.trans {fw₁ : Firmware} (h : fw.SameWork fw₁) (h' : fw₁.SameWork fw') :
    fw.SameWork fw' :=
  ⟨h'.crypto.trans h.crypto, h'.stream.trans h.stream, h'.doneFlags.trans h.doneFlags,
    h'.telemetry.trans h.telemetry⟩

theorem SameWork.notifyStreamTask (h : fw.SameWork fw') (bits : UInt32) :
    fw.SameWork (fw'.notifyStreamTask bits) := by
  unfold Firmware.notifyStreamTask
  split
  · exact h
  · exact ⟨h.crypto, h.stream, h.doneFlags, h.telemetry⟩

theorem sameWork_rxPoll {result : RecvResult} (h : fw.rxPoll result = some fw') :
    fw.SameWork fw' := by
  obtain ⟨⟨ret, received, transport⟩, -, h⟩ := Option.bind_eq_some_iff.mp h
  cases h
  split
  · refine SameWork.notifyStreamTask ?_ _
    exact ⟨rfl, rfl, rfl, rfl⟩
  · exact ⟨rfl, rfl, rfl, rfl⟩

theorem sameWork_txPoll {result : SendResult} (h : fw.txPoll result = some fw') :
    fw.SameWork fw' := by
  obtain ⟨⟨ret, sent, transport⟩, -, h⟩ := Option.bind_eq_some_iff.mp h
  cases h
  split
  · refine SameWork.notifyStreamTask ?_ _
    exact ⟨rfl, rfl, rfl, rfl⟩
  · exact ⟨rfl, rfl, rfl, rfl⟩

theorem sameWork_networkCoordinator {recv : RecvResult} {send : SendResult}
    (h : fw.networkCoordinator recv send = some fw') : fw.SameWork fw' := by
  have hsend : ∀ fw₁ : Firmware, fw.SameWork fw₁ →
      (if fw.notified .networkCoordinator &&& 0x02 ≠ 0 then fw₁.txPoll send else some fw₁) =
        some fw' → fw.SameWork fw' := by
    intro fw₁ h₁ htx
    split at htx
    · exact h₁.trans (sameWork_txPoll htx)
    · cases htx
      exact h₁
  unfold networkCoordinator at h
  dsimp only at h
  split at h
  · cases h
    exact .refl fw
  · split at h
    · obtain ⟨fw₁, hrecv, h⟩ := Option.bind_eq_some_iff.mp h
      have hsame := sameWork_rxPoll hrecv
      exact hsend fw₁ ⟨hsame.crypto, hsame.stream, hsame.doneFlags, hsame.telemetry⟩ h
    · obtain ⟨fw₁, hrecv, h⟩ := Option.bind_eq_some_iff.mp h
      cases hrecv
      refine hsend _ ?_ h
      exact ⟨rfl, rfl, rfl, rfl⟩

/-- The network does not touch the workers. -/
theorem step_network (he : ¬e.IsWork) (hstep : fw.step e = some fw') : fw.SameWork fw' := by
  cases e with
  | dmaIsrRxComplete =>
    cases hstep
    refine SameWork.notifyStreamTask ?_ _
    exact ⟨rfl, rfl, rfl, rfl⟩
  | dmaIsrTxComplete =>
    cases hstep
    refine SameWork.notifyStreamTask ?_ _
    exact ⟨rfl, rfl, rfl, rfl⟩
  | dmaIsrError => cases hstep; exact .notifyStreamTask (.refl fw) _
  | networkCoordinator recv send => exact sameWork_networkCoordinator hstep
  | getRxData null =>
    unfold step at hstep
    dsimp only at hstep
    split at hstep <;> cases hstep <;> exact ⟨rfl, rfl, rfl, rfl⟩
  | setStreamTask => cases hstep; exact ⟨rfl, rfl, rfl, rfl⟩
  | transportInit rxSock txSock => cases hstep; exact ⟨rfl, rfl, rfl, rfl⟩
  | setImpairment config => cases hstep; exact ⟨rfl, rfl, rfl, rfl⟩
  | queueTx data len => cases hstep; exact ⟨rfl, rfl, rfl, rfl⟩
  | writeBuffers rx tx => cases hstep; exact ⟨rfl, rfl, rfl, rfl⟩
  | rxCompleteCallback => cases hstep; exact ⟨rfl, rfl, rfl, rfl⟩
  | txCompleteCallback => cases hstep; exact ⟨rfl, rfl, rfl, rfl⟩
  | _ => exact absurd trivial he

/-! ## The coordinator sleeps -/

/-- Nobody notifies the coordinator: the handle is that of the stream aggregator, if any; and
    nothing has been received. -/
structure Silent (fw : Firmware) : Prop where
  handle : fw.streamTaskHandle ≠ some .networkCoordinator
  notified : fw.notified .networkCoordinator = 0
  rxPending : fw.transport.rxPending = false
  polls : fw.polls = 0

theorem silent_appMain : appMain.Silent where
  handle := nofun
  notified := rfl
  rxPending := rfl
  polls := rfl

theorem Silent.of_sameNetwork (h : fw.Silent) (hsame : fw.SameNetwork fw') : fw'.Silent where
  handle := hsame.handle ▸ h.handle
  notified := hsame.notified ▸ h.notified
  rxPending := hsame.transport ▸ h.rxPending
  polls := hsame.polls ▸ h.polls

theorem Silent.notifyStreamTask (h : fw.Silent) (bits : UInt32) :
    (fw.notifyStreamTask bits).Silent := by
  unfold Firmware.notifyStreamTask
  split
  · exact h
  · rename_i task htask
    have hother : TaskId.networkCoordinator ≠ task := fun heq => h.handle (heq ▸ htask)
    refine ⟨h.handle, ?_, h.rxPending, h.polls⟩
    show Function.update fw.notified task _ .networkCoordinator = 0
    rw [Function.update_of_ne hother, h.notified]

/-- A turn of the coordinator ends in its wait. -/
theorem Silent.networkCoordinator (h : fw.Silent) (recv : RecvResult) (send : SendResult) :
    fw.networkCoordinator recv send = some fw := by
  rw [Firmware.networkCoordinator, if_pos h.notified]
  rfl

/-- An event is possible, and the coordinator sleeps on. -/
theorem Silent.step (h : fw.Silent) (e : FirmwareEvent) :
    ∃ fw', fw.step e = some fw' ∧ fw'.Silent := by
  by_cases he : e.IsWork
  · obtain ⟨fw', hstep, hsame⟩ := fw.step_work he
    exact ⟨fw', hstep, h.of_sameNetwork hsame⟩
  · cases e with
    | dmaIsrRxComplete =>
      refine ⟨_, rfl, ?_⟩
      apply Silent.notifyStreamTask
      exact ⟨h.handle, h.notified, h.rxPending, h.polls⟩
    | dmaIsrTxComplete =>
      refine ⟨_, rfl, ?_⟩
      apply Silent.notifyStreamTask
      exact ⟨h.handle, h.notified, h.rxPending, h.polls⟩
    | dmaIsrError => exact ⟨_, rfl, h.notifyStreamTask _⟩
    | networkCoordinator recv send => exact ⟨fw, h.networkCoordinator recv send, h⟩
    | getRxData null =>
      refine ⟨fw, ?_, h⟩
      simp [Firmware.step, DmaTransport.getRxData, h.rxPending]
    | setStreamTask => exact ⟨_, rfl, nofun, h.notified, h.rxPending, h.polls⟩
    | transportInit rxSock txSock => exact ⟨_, rfl, nofun, h.notified, rfl, h.polls⟩
    | setImpairment config => exact ⟨_, rfl, h.handle, h.notified, h.rxPending, h.polls⟩
    | writeBuffers rx tx => exact ⟨_, rfl, h.handle, h.notified, h.rxPending, h.polls⟩
    | rxCompleteCallback => exact ⟨_, rfl, h.handle, h.notified, rfl, h.polls⟩
    | txCompleteCallback => exact ⟨_, rfl, h.handle, h.notified, h.rxPending, h.polls⟩
    | queueTx data len =>
      refine ⟨_, rfl, h.handle, h.notified, ?_, h.polls⟩
      show (fw.transport.queueTx data len).2.rxPending = false
      unfold DmaTransport.queueTx
      split
      · exact h.rxPending
      · split <;> exact h.rxPending
    | _ => exact absurd trivial he

/-- Every run is possible, and the coordinator sleeps all the time. -/
theorem Silent.run (h : fw.Silent) (events : List FirmwareEvent) :
    ∃ fw', PartialRun.run Firmware.step fw events = some fw' ∧ fw'.Silent := by
  induction events generalizing fw with
  | nil => exact ⟨fw, rfl, h⟩
  | cons e events ih =>
    obtain ⟨fw₁, hstep, h₁⟩ := h.step e
    obtain ⟨fw', hrun, h'⟩ := ih h₁
    exact ⟨fw', Option.bind_eq_some_iff.mpr ⟨fw₁, hstep, hrun⟩, h'⟩

/-! ## What is queued stays queued -/

/-- A chunk is queued for transmission. -/
def chunkQueued (fw : Firmware) : FirmwareEvent → Option Nat
  | .queueTx data len => if (fw.transport.queueTx data len).1 = .success then some len else none
  | _ => none

@[simp] theorem transport_notifyStreamTask (fw : Firmware) (bits : UInt32) :
    (fw.notifyStreamTask bits).transport = fw.transport := by
  unfold notifyStreamTask
  split <;> rfl

/-- While the coordinator sleeps a queued chunk stays pending. -/
theorem Silent.txPending_step (h : fw.Silent) (hpending : fw.transport.txPending = true)
    (he : ¬e.Discards) (hstep : fw.step e = some fw') :
    fw'.transport.txPending = true := by
  by_cases hwork : e.IsWork
  · obtain ⟨fw₁, hstep', hsame⟩ := fw.step_work hwork
    obtain rfl : fw₁ = fw' := Option.some.inj (hstep'.symm.trans hstep)
    rw [hsame.transport, hpending]
  · cases e with
    | networkCoordinator recv send =>
      rw [Firmware.step, h.networkCoordinator] at hstep
      cases hstep
      exact hpending
    | getRxData null =>
      have hsame : fw.step (.getRxData null) = some fw := by
        simp [Firmware.step, DmaTransport.getRxData, h.rxPending]
      cases hsame.symm.trans hstep
      exact hpending
    | queueTx data len =>
      cases hstep
      show (fw.transport.queueTx data len).2.txPending = true
      unfold DmaTransport.queueTx
      split
      · exact hpending
      · simp [hpending]
    | transportInit rxSock txSock => exact absurd trivial he
    | txCompleteCallback => exact absurd trivial he
    | rxCompleteCallback => cases hstep; exact hpending
    | dmaIsrRxComplete => cases hstep; simpa [dmaIsrRxComplete] using hpending
    | dmaIsrTxComplete => cases hstep; simpa [dmaIsrTxComplete] using hpending
    | dmaIsrError => cases hstep; simpa [dmaIsrError] using hpending
    | setStreamTask => cases hstep; exact hpending
    | setImpairment config => cases hstep; exact hpending
    | writeBuffers rx tx => cases hstep; exact hpending
    | _ => exact absurd trivial hwork

/-- While a chunk is pending no other one is queued. -/
theorem chunkQueued_of_pending (hpending : fw.transport.txPending = true) (e : FirmwareEvent) :
    chunkQueued fw e = none := by
  cases e with
  | queueTx data len =>
    have hrefused : (fw.transport.queueTx data len).1 = .errInvalidArgument := by
      cases data with
      | none => rfl
      | some data => simp [DmaTransport.queueTx, hpending]
    rw [chunkQueued, hrefused, if_neg (by decide)]
  | _ => rfl

theorem pending_of_chunkQueued {n : Nat} (h : chunkQueued fw e = some n)
    (hstep : fw.step e = some fw') : fw'.transport.txPending = true := by
  cases e with
  | queueTx data len =>
    rw [chunkQueued] at h
    cases hstep
    show (fw.transport.queueTx data len).2.txPending = true
    revert h
    unfold DmaTransport.queueTx
    split
    · simp
    · split <;> simp
  | _ => cases h

/-- After a chunk was queued no other one is, until it is discarded. -/
theorem Silent.observe_of_pending (h : fw.Silent) (hpending : fw.transport.txPending = true)
    {events : List FirmwareEvent} (hevents : ∀ e ∈ events, ¬e.Discards) :
    observe Firmware.step chunkQueued fw events = [] := by
  induction events generalizing fw with
  | nil => rfl
  | cons e events ih =>
    obtain ⟨fw₁, hstep, h₁⟩ := h.step e
    have hpending₁ := h.txPending_step hpending (hevents e List.mem_cons_self) hstep
    have hrest := ih h₁ hpending₁ fun e' he' => hevents e' (List.mem_cons_of_mem e he')
    simp [observe, chunkQueued_of_pending hpending, hstep, hrest]

theorem Silent.length_observe (h : fw.Silent) {events : List FirmwareEvent}
    (hevents : ∀ e ∈ events, ¬e.Discards) :
    (observe Firmware.step chunkQueued fw events).length ≤ 1 := by
  induction events generalizing fw with
  | nil => exact Nat.zero_le 1
  | cons e events ih =>
    obtain ⟨fw₁, hstep, h₁⟩ := h.step e
    have hrest := fun e' he' => hevents e' (List.mem_cons_of_mem e he')
    cases hqueued : chunkQueued fw e with
    | none => simpa [observe, hqueued, hstep] using ih h₁ hrest
    | some n =>
      have hnone := h₁.observe_of_pending (pending_of_chunkQueued hqueued hstep) hrest
      simp [observe, hqueued, hstep, hnone]

end Firmware

/-- In every run from `app_main` the network coordinator polls neither side of the transport.
    Nothing is ever received, and of the chunks that are queued between two calls that discard what
    is queued only the first one is accepted. -/
theorem network_silent (events : List FirmwareEvent) :
    ∃ fw, run Firmware.step Firmware.appMain events = some fw ∧ fw.polls = 0 ∧
      (∀ null, (fw.transport.getRxData null).toOption = none) ∧
      ∀ rest, (∀ e ∈ rest, ¬e.Discards) →
        (observe Firmware.step Firmware.chunkQueued fw rest).length ≤ 1 := by
  obtain ⟨fw, hrun, hsilent⟩ := Firmware.silent_appMain.run events
  refine ⟨fw, hrun, hsilent.polls, fun null => ?_, fun rest hrest => hsilent.length_observe hrest⟩
  simp [DmaTransport.getRxData, hsilent.rxPending]
  rfl

end SwiftAgg.Native
