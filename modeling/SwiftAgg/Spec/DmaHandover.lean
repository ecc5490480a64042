import SwiftAgg.Native.DmaBackends

/-!
# Handing buffers to the DMA engine

Both back ends select the transmit buffer by a flag that only the interrupt
flips. On the STM32 the data is copied into that buffer without a look at
whether the engine still reads it, so a start before the interrupt of the last
one writes what is in flight. On the ESP32 the data is not copied at all, and
what goes out are the buffers as the initialisation cleared them.

## Key results

- `DmaTrace.Stm32InFlight.step`: what is in flight on the STM32 is the selected buffer
- `DmaTrace.Esp32Cleared.step`: the buffers of the ESP32 are never written
- `dmaTransmits_iff`: in which runs each back end transmits the bytes it is given
-/

namespace SwiftAgg.Native

namespace DmaTrace

variable {Device : Type} {backend : DmaBackend Device}

/-- A call of `start_tx` hands over a buffer that begins with the data, and writes no buffer that
    is in flight. -/
def Transmits (tr : DmaTrace backend) : DmaEvent → Prop
  | .start data len =>
    (∀ x, (backend.startTx tr.device data len).1.started = some x → x.len = len.toNat ∧
      ((backend.buffers (backend.startTx tr.device data len).2).get x.buffer).read len.toNat =
        data.read len.toNat) ∧
    ∀ buffer n, (backend.startTx tr.device data len).1.written = some (buffer, n) → 0 < n →
      ∀ x ∈ tr.inFlight, x.buffer ≠ buffer
  | .complete => True

/-- Nothing is in flight when bytes are to be sent. -/
def StartsIdle (tr : DmaTrace backend) : DmaEvent → Prop
  | .start _ len => 0 < len.toNat → len.toNat ≤ dmaBufferBytes → tr.inFlight = []
  | .complete => True

section Refused

variable {tr : DmaTrace backend} {data : Memory} {len : UInt16}
  (h : backend.startTx tr.device data len = (⟨.errChunkTooLarge, none, none⟩, tr.device))

include h

/-- A call that is refused starts nothing and writes nothing. -/
theorem transmits_of_refused : tr.Transmits (.start data len) := by
  rw [Transmits, h]
  constructor
  · intro x hx
    cases hx
  · intro buffer n hwritten
    cases hwritten

theorem step_of_refused : tr.step (.start data len) = some tr := by
  rw [DmaTrace.step, h]
  simp

end Refused

end DmaTrace

/-- The bytes to be sent are zeros. -/
def DmaEvent.SendsZeros : DmaEvent → Prop
  | .start data len =>
    len.toNat ≤ dmaBufferBytes → data.read len.toNat = List.replicate len.toNat 0
  | .complete => True

/-- A write goes to the selected buffer. -/
theorem DmaDoubleBuffer.get_write (buffers : DmaDoubleBuffer) (b : Bytes) :
    (buffers.write b).get buffers.active = buffers.current.write b := by
  obtain ⟨ping, pong, _ | _⟩ := buffers <;> rfl

/-! ## STM32 -/

namespace DmaTrace

theorem stm32_startTx_of_le {s : Stm32Dma} {data : Memory} {len : UInt16}
    (h : len.toNat ≤ dmaBufferBytes) :
    stm32Backend.startTx s data len =
      (⟨.success, some (s.tx.active, len.toNat), some ⟨s.tx.active, len.toNat⟩⟩,
        ⟨s.tx.write (data.read len.toNat)⟩) :=
  if_neg (not_lt.mpr h)

theorem stm32_startTx_of_lt {s : Stm32Dma} {data : Memory} {len : UInt16}
    (h : dmaBufferBytes < len.toNat) :
    stm32Backend.startTx s data len = (⟨.errChunkTooLarge, none, none⟩, s) :=
  if_pos h

/-- What is in flight is in the selected buffer. -/
def Stm32InFlight (tr : DmaTrace stm32Backend) : Prop :=
  ∀ x ∈ tr.inFlight, x.buffer = (stm32Backend.buffers tr.device).active

variable {tr tr' : DmaTrace stm32Backend} {event : DmaEvent}

theorem Stm32InFlight.start (s : Stm32Dma) : Stm32InFlight (.start stm32Backend s) :=
  fun _ hx => absurd hx List.not_mem_nil

/-- A start uses the buffer of the transfers in flight, and the interrupt ends them. -/
theorem Stm32InFlight.step (h : tr.Stm32InFlight) (hstep : tr.step event = some tr') :
    tr'.Stm32InFlight := by
  cases event with
  | complete =>
    cases hstep
    exact fun _ hx => absurd hx List.not_mem_nil
  | start data len =>
    by_cases hlen : len.toNat ≤ dmaBufferBytes
    · rw [DmaTrace.step, stm32_startTx_of_le hlen] at hstep
      cases hstep
      intro x hx
      rcases List.mem_append.mp hx with hx | hx
      · rw [h x hx]
        exact (PingPong.active_store tr.device.tx _).symm
      · rw [List.mem_singleton.mp hx]
        exact (PingPong.active_store tr.device.tx _).symm
    · rw [step_of_refused (stm32_startTx_of_lt (not_le.mp hlen))] at hstep
      cases hstep
      exact h

/-- The data is always there; nothing is overwritten if nothing is in flight. -/
theorem Stm32InFlight.transmits_iff (h : tr.Stm32InFlight) (event : DmaEvent) :
    tr.Transmits event ↔ tr.StartsIdle event := by
  obtain ⟨s, inFlight⟩ := tr
  cases event with
  | complete => exact Iff.rfl
  | start data len =>
    by_cases hlen : len.toNat ≤ dmaBufferBytes
    · rw [Transmits, StartsIdle, stm32_startTx_of_le hlen]
      have hcontent : ((s.tx.write (data.read len.toNat)).get s.tx.active).read len.toNat =
          data.read len.toNat := by
        rw [DmaDoubleBuffer.get_write, Memory.read_write_read]
      constructor
      · rintro ⟨-, hwritten⟩ hpos _
        -- any transfer in flight is in the buffer that is written
        refine List.eq_nil_iff_forall_not_mem.mpr fun x hx => ?_
        exact hwritten _ _ rfl hpos x hx (h x hx)
      · intro hidle
        constructor
        · intro x hx
          cases hx
          exact ⟨rfl, hcontent⟩
        · intro buffer n hwritten hpos x hx
          cases hwritten
          rw [hidle hpos hlen] at hx
          exact absurd hx List.not_mem_nil
    · apply iff_of_true
      · exact transmits_of_refused (stm32_startTx_of_lt (not_le.mp hlen))
      · exact fun _ hle => absurd hle hlen

end DmaTrace

/-! ## ESP32 -/

namespace DmaTrace

theorem esp32_startTx_of_le {s : Esp32Dma} {data : Memory} {len : UInt16}
    (h : len.toNat ≤ dmaBufferBytes) :
    esp32Backend.startTx s data len =
      (⟨.success, none, some ⟨s.tx.active, len.toNat⟩⟩,
        { s with
          descriptors := Function.update s.descriptors s.tx.active ⟨s.tx.active, len.toNat⟩ }) := by
  have hlen : ¬dmaBufferBytes < len.toNat := not_lt.mpr h
  simp [esp32Backend, Esp32Dma.startTx, hlen]

theorem esp32_startTx_of_lt {s : Esp32Dma} {data : Memory} {len : UInt16}
    (h : dmaBufferBytes < len.toNat) :
    esp32Backend.startTx s data len = (⟨.errChunkTooLarge, none, none⟩, s) :=
  if_pos h

/-- Both buffers are as the initialisation left them. -/
def Esp32Cleared (tr : DmaTrace esp32Backend) : Prop :=
  ∀ buffer, (esp32Backend.buffers tr.device).get buffer = fun _ => 0

variable {tr tr' : DmaTrace esp32Backend} {event : DmaEvent}

theorem Esp32Cleared.start (s : Esp32Dma) : Esp32Cleared (.start esp32Backend s) := by
  intro buffer
  cases buffer <;> rfl

/-- No event writes a buffer. -/
theorem Esp32Cleared.step (h : tr.Esp32Cleared) (hstep : tr.step event = some tr') :
    tr'.Esp32Cleared := by
  obtain ⟨s, inFlight⟩ := tr
  cases event with
  | complete =>
    cases hstep
    exact h
  | start data len =>
    by_cases hlen : len.toNat ≤ dmaBufferBytes
    · rw [DmaTrace.step, esp32_startTx_of_le hlen] at hstep
      cases hstep
      exact h
    · rw [step_of_refused (esp32_startTx_of_lt (not_le.mp hlen))] at hstep
      cases hstep
      exact h

/-- What goes out are zeros, and nothing is ever overwritten. -/
theorem Esp32Cleared.transmits_iff (h : tr.Esp32Cleared) (event : DmaEvent) :
    tr.Transmits event ↔ event.SendsZeros := by
  obtain ⟨s, inFlight⟩ := tr
  cases event with
  | complete => exact Iff.rfl
  | start data len =>
    by_cases hlen : len.toNat ≤ dmaBufferBytes
    · rw [Transmits, DmaEvent.SendsZeros, esp32_startTx_of_le hlen]
      -- whatever the caller wants to send, the buffer still holds zeros
      have hread : (s.tx.get s.tx.active).read len.toNat = List.replicate len.toNat 0 := by
        rw [show s.tx.get s.tx.active = fun _ => 0 from h _]
        simp [Memory.read]
      constructor
      · rintro ⟨hcontent, -⟩ _
        rw [← (hcontent _ rfl).2]
        exact hread
      · intro hzeros
        constructor
        · intro x hx
          cases hx
          exact ⟨rfl, hread.trans (hzeros hlen).symm⟩
        · intro buffer n hwritten
          cases hwritten
    · apply iff_of_true
      · exact transmits_of_refused (esp32_startTx_of_lt (not_le.mp hlen))
      · exact fun hle => absurd hle hlen

end DmaTrace

/-! ## Both -/

theorem DmaTrace.step_isSome {Device : Type} {backend : DmaBackend Device}
    (tr : DmaTrace backend) (event : DmaEvent) : ∃ tr', tr.step event = some tr' := by
  cases event <;> exact ⟨_, rfl⟩

/-- In a run of starts and interrupts, the STM32 back end transmits the bytes it is given exactly
    if bytes are only sent while nothing is in flight, and the ESP32 back end exactly if they are
    all zero. -/
theorem dmaTransmits_iff (s : Stm32Dma) (e : Esp32Dma) (events : List DmaEvent) :
    (PartialRun.Every DmaTrace.step DmaTrace.Transmits (.start stm32Backend s) events ↔
      PartialRun.Every DmaTrace.step DmaTrace.StartsIdle (.start stm32Backend s) events) ∧
    (PartialRun.Every DmaTrace.step DmaTrace.Transmits (.start esp32Backend e) events ↔
      ∀ event ∈ events, event.SendsZeros) := by
  constructor
  · exact PartialRun.every_congr (fun _ event h => h.transmits_iff event)
      (fun _ _ _ h _ hstep => h.step hstep) (DmaTrace.Stm32InFlight.start s)
  · rw [← PartialRun.every_iff_forall_mem DmaTrace.step_isSome]
    exact PartialRun.every_congr (fun _ event h => h.transmits_iff event)
      (fun _ _ _ h _ hstep => h.step hstep) (DmaTrace.Esp32Cleared.start e)

/-- Two starts of one byte before the interrupt: the second one overwrites the first on the STM32,
    and the ESP32 sends a zero instead of either. -/
theorem twoStarts_not_transmitted :
    ¬PartialRun.Every DmaTrace.step DmaTrace.Transmits (.start stm32Backend ⟨.zero⟩)
      [.start (fun _ => 1) 1, .start (fun _ => 2) 1] ∧
    ¬PartialRun.Every DmaTrace.step DmaTrace.Transmits
      (.start esp32Backend ⟨.zero, fun buffer => ⟨buffer, 0⟩⟩)
      [.start (fun _ => 1) 1, .start (fun _ => 2) 1] := by
  constructor
  · rintro ⟨-, hsecond⟩
    have hwritten := (hsecond _ rfl).1.2 _ _ rfl (by decide)
    exact hwritten _ (List.mem_singleton.mpr rfl) rfl
  · rintro ⟨hfirst, -⟩
    have hread := (hfirst.1 _ rfl).2
    exact absurd hread (by decide)

end SwiftAgg.Native
