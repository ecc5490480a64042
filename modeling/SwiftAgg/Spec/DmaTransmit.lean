import SwiftAgg.Spec.DmaReceive

/-!
# Transmitting over DMA buffers

What is queued is copied to the front of the selected buffer, and a poll offers
the whole chunk of it to the socket. The length that was queued is not kept,
and after any successful send the transmission counts as done, whatever part of
it the socket took. So exactly what was queued goes out only where the socket
accepts as many bytes as were queued.

## Key results

- `TxTrace.Outstanding.queue`: queueing keeps the accounting
- `TxTrace.Outstanding.poll`: a poll keeps it exactly if it sends nothing or everything
- `dmaTransmit_sound_iff`: in which runs the socket gets what was queued
-/

namespace SwiftAgg.Native

theorem Memory.take_read (mem : Memory) (len n : Nat) :
    (mem.read len).take n = mem.read (min n len) := by
  rw [Memory.read, Memory.read, ← List.map_take, List.take_range]

/-! ## One call -/

namespace DmaTransport

variable {t : DmaTransport}

theorem txPoll_of_not_ready (h : t.txSock < 0 ∨ t.txPending = false) (result : SendResult) :
    t.txPoll result = some (.errInvalidState, [], t) := by
  rw [txPoll, if_pos (by simpa using h)]
  rfl

/-- A poll with something to send offers the first chunk of the selected buffer. -/
theorem txPoll_of_ready (hplain : t.impairment.config = .zero) (hsock : ¬t.txSock < 0)
    (hpending : t.txPending = true) (result : SendResult) :
    t.txPoll result =
      let (ret, sent) := transportSend (t.tx.current.read dmaChunkSize) result
      some (ret, sent,
        if ret = .success then { t with tx := t.tx.switch, txPending := false } else t) := by
  have hguard : ¬(t.txSock < 0 ∨ (!t.txPending) = true) := by simpa [hpending] using hsock
  rw [txPoll, if_neg hguard, Impairment.send, Impairment.through_of_zero hplain]
  simp only [Option.pure_def, Option.bind_eq_bind, Option.bind_some]
  split <;> rfl

/-- Data is queued while nothing is pending. -/
theorem queueTx_of_free {data : Memory} {len : Nat} (hlen : len ≤ dmaChunkSize)
    (hpending : t.txPending = false) :
    t.queueTx (some data) len =
      (.success, { t with tx := t.tx.write (data.read len), txPending := true }) := by
  rw [queueTx]
  simp [hlen, hpending]

/-- Otherwise the queue refuses. -/
theorem queueTx_of_not_free {data : Option Memory} {len : Nat}
    (h : data = none ∨ dmaChunkSize < len ∨ t.txPending = true) :
    t.queueTx data len = (.errInvalidArgument, t) := by
  cases data with
  | none => rfl
  | some data =>
    rw [queueTx, if_pos (by simpa using h)]

end DmaTransport

/-! ## Runs -/

namespace TxTrace

/-- What the socket accepted is a prefix of what was queued, and all of it while nothing is
    pending. -/
def Sound (tr : TxTrace) : Prop :=
  tr.accepted <+: tr.queued ∧ (tr.transport.txPending = false → tr.accepted = tr.queued)

/-- If the call is a poll that sends, the socket accepts as many bytes as were last queued. -/
def SendsAll (tr : TxTrace) (call : TxCall) : Prop :=
  ∀ n, call = .poll (.accepted n) → ¬tr.transport.txSock < 0 → tr.transport.txPending = true →
    min n dmaChunkSize = tr.lastLen

/-- All that is missing at the socket is the data at the front of the selected buffer, while it is
    pending. -/
structure Outstanding (tr : TxTrace) : Prop where
  plain : tr.transport.impairment.config = .zero
  lastLen_le : tr.lastLen ≤ dmaChunkSize
  queued : tr.queued = tr.accepted ++
    if tr.transport.txPending then tr.transport.tx.current.read tr.lastLen else []

theorem Outstanding.start (t : DmaTransport) (rxSock txSock : Int) :
    (start t rxSock txSock).Outstanding where
  plain := rfl
  lastLen_le := Nat.zero_le _
  queued := rfl

variable {tr tr' : TxTrace} {call : TxCall}

theorem Outstanding.sound (h : tr.Outstanding) : tr.Sound := by
  refine ⟨⟨_, h.queued.symm⟩, fun hpending => ?_⟩
  have hqueued := h.queued
  rw [hpending] at hqueued
  simpa using hqueued.symm

/-- Queueing keeps the accounting. -/
theorem Outstanding.queue (h : tr.Outstanding) {data : Option Memory} {len : Nat}
    (hstep : tr.step (.queue data len) = some tr') : tr'.Outstanding := by
  by_cases hrefused : data = none ∨ dmaChunkSize < len ∨ tr.transport.txPending = true
  · rw [TxTrace.step, DmaTransport.queueTx_of_not_free hrefused] at hstep
    cases hstep
    exact ⟨h.plain, h.lastLen_le, h.queued⟩
  · obtain ⟨hdata, hfree⟩ := not_or.mp hrefused
    obtain ⟨hlen, hpending⟩ := not_or.mp hfree
    rw [not_lt] at hlen
    rw [Bool.not_eq_true] at hpending
    obtain ⟨data, rfl⟩ := Option.ne_none_iff_exists'.mp hdata
    rw [TxTrace.step, DmaTransport.queueTx_of_free hlen hpending] at hstep
    cases hstep
    refine ⟨h.plain, hlen, ?_⟩
    -- the front of the buffer is what was copied there
    have hread := tr.transport.tx.current.read_write_read data len
    have hqueued := h.queued
    rw [hpending] at hqueued
    simp only [Bool.false_eq_true, if_false, List.append_nil] at hqueued
    simp [DmaDoubleBuffer.write, hread, hqueued]

theorem Outstanding.poll_isSome (h : tr.Outstanding) (result : SendResult) :
    ∃ tr', tr.step (.poll result) = some tr' := by
  by_cases hready : tr.transport.txSock < 0 ∨ tr.transport.txPending = false
  · rw [TxTrace.step, DmaTransport.txPoll_of_not_ready hready]
    exact ⟨_, rfl⟩
  · obtain ⟨hsock, hpending⟩ := not_or.mp hready
    rw [Bool.not_eq_false] at hpending
    rw [TxTrace.step, DmaTransport.txPoll_of_ready h.plain hsock hpending]
    exact ⟨_, rfl⟩

/-- A poll keeps the accounting exactly if it sends nothing or everything. -/
theorem Outstanding.poll (h : tr.Outstanding) {result : SendResult}
    (hstep : tr.step (.poll result) = some tr') :
    (tr.SendsAll (.poll result) → tr'.Outstanding) ∧
      (tr'.Sound → tr.SendsAll (.poll result)) := by
  by_cases hready : tr.transport.txSock < 0 ∨ tr.transport.txPending = false
  · rw [TxTrace.step, DmaTransport.txPoll_of_not_ready hready] at hstep
    cases hstep
    refine ⟨fun _ => ⟨h.plain, h.lastLen_le, by simpa using h.queued⟩,
      fun _ n _ hsock hpending => ?_⟩
    rw [hpending] at hready
    exact absurd hready (by simp [hsock])
  · obtain ⟨hsock, hpending⟩ := not_or.mp hready
    rw [Bool.not_eq_false] at hpending
    have hpoll := DmaTransport.txPoll_of_ready h.plain hsock hpending result
    rw [TxTrace.step, hpoll] at hstep
    have hqueued := h.queued
    rw [hpending] at hqueued
    simp only [if_true] at hqueued
    cases result with
    | failed wouldBlock =>
      -- nothing goes out and the data stays pending
      have hret : (transportSend (tr.transport.tx.current.read dmaChunkSize)
          (.failed wouldBlock)).1 ≠ .success := by
        rw [transportSend]
        split <;> exact PqcStatus.noConfusion
      simp only [if_neg hret] at hstep
      cases hstep
      refine ⟨fun _ => ⟨h.plain, h.lastLen_le, ?_⟩, fun _ n hcall => ?_⟩
      · simpa [transportSend] using h.queued
      · cases hcall
    | accepted n =>
      simp only [transportSend, if_true, Memory.take_read] at hstep
      cases hstep
      constructor
      · intro hall
        have hlen := hall n rfl hsock hpending
        exact ⟨h.plain, h.lastLen_le, by simpa [hlen] using hqueued⟩
      · rintro ⟨-, hdone⟩ _ ⟨⟩ - -
        -- nothing is pending any more, so what was sent is what was queued
        have hsent := hdone rfl
        rw [hqueued, List.append_cancel_left_eq] at hsent
        simpa using congrArg List.length hsent

end TxTrace

/-- In a run of queue calls and polls, at every moment the socket has accepted a prefix of what was
    queued, and all of it while nothing is pending, exactly if every poll that sends has the socket
    accept as many bytes as were queued. -/
theorem dmaTransmit_sound_iff (t : DmaTransport) (rxSock txSock : Int) (calls : List TxCall) :
    (∀ pre, pre <+: calls → ∀ tr,
      PartialRun.run TxTrace.step (.start t rxSock txSock) pre = some tr → tr.Sound) ↔
      PartialRun.Every TxTrace.step TxTrace.SendsAll (.start t rxSock txSock) calls := by
  have hstart := TxTrace.Outstanding.start t rxSock txSock
  rw [PartialRun.forall_reached_iff, and_iff_right hstart.sound]
  -- one call at a time
  refine PartialRun.every_congr (I := TxTrace.Outstanding) (fun tr call h => ?_)
    (fun tr call tr' h hall hstep => ?_) hstart
  · cases call with
    | queue data len =>
      refine iff_of_true (fun tr' hstep => (h.queue hstep).sound) fun n hcall => ?_
      cases hcall
    | poll result =>
      constructor
      · intro hsound
        obtain ⟨tr', hstep⟩ := h.poll_isSome result
        exact (h.poll hstep).2 (hsound tr' hstep)
      · intro hall tr' hstep
        exact ((h.poll hstep).1 hall).sound
  · cases call with
    | queue data len => exact h.queue hstep
    | poll result => exact (h.poll hstep).1 hall

/-- Three bytes are queued, and the socket takes the whole chunk that is offered. -/
theorem wholeChunk_not_sound :
    ¬∀ pre, pre <+: [.queue (some fun i => UInt8.ofNat (i + 1)) 3, .poll (.accepted 256)] →
      ∀ tr, PartialRun.run TxTrace.step (.start .initial 3 4) pre = some tr → tr.Sound := by
  intro hsound
  have hend : (PartialRun.run TxTrace.step (.start .initial 3 4)
      [.queue (some fun i => UInt8.ofNat (i + 1)) 3, .poll (.accepted 256)]).map
        (fun tr => (tr.accepted.length, tr.queued.length)) = some (256, 3) := by
    decide +kernel
  obtain ⟨tr, hrun, htr⟩ := Option.map_eq_some_iff.mp hend
  simp only [Prod.mk.injEq] at htr
  have hlen := (hsound _ (List.prefix_refl _) tr hrun).1.length_le
  omega

end SwiftAgg.Native
