import SwiftAgg.Native.DmaTransport

/-!
# Receiving over DMA buffers

A poll receives into the selected buffer and switches, and the read that
follows looks at the buffer that is selected then: never at the one that was
just filled. The first read returns the cleared second buffer, and as long as
what is received is what the reads return, that does not change. So data
arrives intact only where it is a whole chunk of zero bytes.

## Key results

- `Impairment.through_of_zero`: without impairments every packet passes
- `RxTrace.Cleared.step`: the buffers stay cleared as long as chunks of zeros are fetched
- `dmaReceive_intact_iff`: in which runs every read returns what was received
-/

namespace SwiftAgg.Native

/-! ## Memory -/

/-- A chunk of zero bytes. -/
def zeroChunk : Bytes := List.replicate dmaChunkSize 0

@[simp] theorem length_zeroChunk : zeroChunk.length = dmaChunkSize := List.length_replicate

/-- The first chunk of a buffer is cleared. -/
def Memory.Cleared (mem : Memory) : Prop := mem.read dmaChunkSize = zeroChunk

theorem Memory.cleared_zero : Memory.Cleared fun _ => 0 := by
  simp [Memory.Cleared, Memory.read, zeroChunk]

theorem Memory.cleared_write_zeroChunk (mem : Memory) : (mem.write zeroChunk).Cleared := by
  rw [Cleared, ← length_zeroChunk, mem.read_write]

/-! ## Impairments -/

/-- Without impairments every packet passes. -/
theorem Impairment.through_of_zero {imp : Impairment} (h : imp.config = .zero)
    (pass : PqcStatus × Bytes) : imp.through pass = some (pass, imp) := by
  have hloss : imp.config.lossRatePpm = 0 := by rw [h]; rfl
  have hlatency : imp.config.minLatencyMs = 0 ∧ imp.config.maxLatencyMs = 0 := by
    rw [h]
    exact ⟨rfl, rfl⟩
  rw [through, shouldDrop, if_pos hloss]
  simp [getLatencyMs, hlatency]

/-- A delivery that succeeds is not empty, and one that fails stores nothing. -/
theorem transportRecv_cases (len : Nat) (result : RecvResult) :
    (∃ bytes, transportRecv len result = (.success, bytes) ∧ 0 < bytes.length) ∨
      ∃ ret, transportRecv len result = (ret, []) ∧ ret ≠ .success := by
  cases result with
  | failed wouldBlock =>
    refine .inr ⟨_, rfl, ?_⟩
    split <;> exact PqcStatus.noConfusion
  | delivered bytes =>
    rw [transportRecv]
    split
    · exact .inr ⟨_, rfl, PqcStatus.noConfusion⟩
    · rename_i hbytes
      exact .inl ⟨_, rfl, List.length_pos_iff.mpr hbytes⟩

/-! ## One call -/

namespace DmaTransport

variable {t : DmaTransport} {result : RecvResult}

/-- A poll that can receive. -/
theorem rxPoll_of_ready (hplain : t.impairment.config = .zero) (hsock : ¬t.rxSock < 0)
    (hpending : t.rxPending = false) (result : RecvResult) :
    (∃ bytes, 0 < bytes.length ∧ t.rxPoll result =
      some (.success, bytes, { t with rx := (t.rx.write bytes).switch, rxPending := true })) ∨
      ∃ ret, ret ≠ .success ∧ t.rxPoll result = some (ret, [], t) := by
  have hguard : ¬(t.rxSock < 0 ∨ t.rxPending = true) := by
    rintro (h | h)
    · exact hsock h
    · rw [hpending] at h
      cases h
  rw [rxPoll, if_neg hguard, Impairment.recv, Impairment.through_of_zero hplain]
  rcases transportRecv_cases dmaChunkSize result with ⟨bytes, hrecv, hlen⟩ | ⟨ret, hrecv, hret⟩
  · refine .inl ⟨bytes, hlen, ?_⟩
    simp [hrecv, hlen]
  · refine .inr ⟨ret, hret, ?_⟩
    -- nothing was stored
    have hsame : t.rx.write [] = t.rx := by
      obtain ⟨rxSock, txSock, rxPending, txPending, ⟨ping, pong, _ | _⟩, tx, imp⟩ := t <;> rfl
    simp [hrecv, hret, hsame]

/-- The others change nothing. -/
theorem rxPoll_of_not_ready (h : t.rxSock < 0 ∨ t.rxPending = true) :
    t.rxPoll result = some (.errInvalidState, [], t) := by
  rw [rxPoll, if_pos h]
  rfl

/-- A read returns the first chunk of the selected buffer. -/
theorem getRxData_of_pending (hpending : t.rxPending = true) :
    t.getRxData false =
      .ok (dmaChunkSize, t.rx.current.read dmaChunkSize, { t with rxPending := false }) := by
  rw [getRxData, if_neg (by simp [hpending])]

theorem getRxData_of_not_pending {null : Bool} (h : ¬(null = false ∧ t.rxPending = true)) :
    t.getRxData null = .error .errInvalidState := by
  rw [getRxData, if_pos]
  cases null <;> simp_all

end DmaTransport

/-! ## Runs -/

namespace RxTrace

/-- The call is a read that succeeds. -/
def Fetches (tr : RxTrace) : RxCall → Prop
  | .get null => null = false ∧ tr.transport.rxPending = true
  | .poll _ => False

/-- What a read returns is what the latest successful poll received, in number and content. -/
def DeliversIntact (tr : RxTrace) (call : RxCall) : Prop :=
  ∀ null, call = .get null → ∀ len out t, tr.transport.getRxData null = .ok (len, out, t) →
    len = tr.received.length ∧ out.take len = tr.received

/-- A read that succeeds comes after a poll that received a chunk of zero bytes. -/
def FetchesZeros (tr : RxTrace) (call : RxCall) : Prop :=
  tr.Fetches call → tr.received = zeroChunk

/-- The selected buffer is cleared; the other one is cleared too, or holds what was received and
    not yet read. -/
structure Cleared (tr : RxTrace) : Prop where
  plain : tr.transport.impairment.config = .zero
  current : tr.transport.rx.current.Cleared
  other : if tr.transport.rxPending then
      ∃ mem : Memory, tr.transport.rx.other = mem.write tr.received
    else tr.transport.rx.other.Cleared

theorem Cleared.start (t : DmaTransport) (rxSock txSock : Int) :
    (start t rxSock txSock).Cleared where
  plain := rfl
  current := Memory.cleared_zero
  other := Memory.cleared_zero

variable {tr tr' : RxTrace} {call : RxCall}

/-- With the buffers cleared, a read returns zeros whatever was received. -/
theorem Cleared.deliversIntact_iff (h : tr.Cleared) (call : RxCall) :
    tr.DeliversIntact call ↔ tr.FetchesZeros call := by
  cases call with
  | poll result =>
    refine iff_of_true (fun null hcall => ?_) fun hfetches => hfetches.elim
    cases hcall
  | get null =>
    by_cases hfetches : null = false ∧ tr.transport.rxPending = true
    · obtain ⟨rfl, hpending⟩ := hfetches
      have hget := DmaTransport.getRxData_of_pending hpending
      rw [h.current] at hget
      -- the read returns zeros, so it is right where zeros were received
      constructor
      · intro hintact _
        obtain ⟨-, hout⟩ := hintact false rfl _ _ _ hget
        rw [← hout, ← length_zeroChunk, List.take_length]
      · rintro hzeros _ ⟨⟩ len out t hok
        rw [hget] at hok
        cases hok
        rw [hzeros ⟨rfl, hpending⟩]
        exact ⟨length_zeroChunk.symm, by rw [← length_zeroChunk, List.take_length]⟩
    · refine iff_of_true ?_ fun hf => absurd hf hfetches
      rintro _ ⟨⟩ len out t hok
      rw [DmaTransport.getRxData_of_not_pending hfetches] at hok
      cases hok

/-- Calls keep the buffers cleared as long as only zeros are fetched. -/
theorem Cleared.step (h : tr.Cleared) (hzeros : tr.FetchesZeros call)
    (hstep : tr.step call = some tr') : tr'.Cleared := by
  cases call with
  | poll result =>
    by_cases hready : tr.transport.rxSock < 0 ∨ tr.transport.rxPending = true
    · rw [RxTrace.step, DmaTransport.rxPoll_of_not_ready hready] at hstep
      cases hstep
      exact ⟨h.plain, h.current, h.other⟩
    · obtain ⟨hsock, hpending⟩ := not_or.mp hready
      rw [Bool.not_eq_true] at hpending
      have hother := h.other
      rw [hpending] at hother
      rcases DmaTransport.rxPoll_of_ready h.plain hsock hpending result with
        ⟨bytes, hlen, hpoll⟩ | ⟨ret, hret, hpoll⟩
      · -- what is received goes to the buffer that the switch makes the other one
        rw [RxTrace.step, hpoll] at hstep
        cases hstep
        refine ⟨h.plain, ?_, ?_⟩
        · simpa [DmaDoubleBuffer.write] using hother
        · exact ⟨tr.transport.rx.current, by simp [DmaDoubleBuffer.write]⟩
      · rw [RxTrace.step, hpoll] at hstep
        cases hstep
        refine ⟨h.plain, h.current, ?_⟩
        simpa [hret] using h.other
  | get null =>
    by_cases hfetches : null = false ∧ tr.transport.rxPending = true
    · obtain ⟨rfl, hpending⟩ := hfetches
      rw [RxTrace.step, DmaTransport.getRxData_of_pending hpending] at hstep
      cases hstep
      refine ⟨h.plain, h.current, ?_⟩
      -- the buffer that was filled holds zeros again
      obtain ⟨mem, hmem⟩ := (if_pos hpending).mp h.other
      have hcleared : tr.transport.rx.other.Cleared := by
        rw [hmem, hzeros ⟨rfl, hpending⟩]
        exact mem.cleared_write_zeroChunk
      exact hcleared
    · rw [RxTrace.step, DmaTransport.getRxData_of_not_pending hfetches] at hstep
      cases hstep
      exact h

end RxTrace

/-- In a run of polls and reads, every read returns what the latest successful poll received,
    exactly if everything that is received and then read is a chunk of zero bytes. -/
theorem dmaReceive_intact_iff (t : DmaTransport) (rxSock txSock : Int) (calls : List RxCall) :
    PartialRun.Every RxTrace.step RxTrace.DeliversIntact (.start t rxSock txSock) calls ↔
      PartialRun.Every RxTrace.step RxTrace.FetchesZeros (.start t rxSock txSock) calls :=
  PartialRun.every_congr (fun _ call h => RxTrace.Cleared.deliversIntact_iff h call)
    (fun _ _ _ h hzeros hstep => h.step hzeros hstep) (.start t rxSock txSock)

/-- Three bytes are received, and the first read returns a chunk of zeros. -/
theorem threeBytes_not_intact :
    ¬PartialRun.Every RxTrace.step RxTrace.DeliversIntact (.start .initial 3 4)
      [.poll (.delivered [1, 2, 3]), .get false] := by
  rintro ⟨-, hget⟩
  have hpoll : (RxTrace.step (.start .initial 3 4) (.poll (.delivered [1, 2, 3]))).map
      (fun tr => (tr.received, tr.transport.rxPending)) = some ([1, 2, 3], true) := by
    decide +kernel
  obtain ⟨tr, hstep, htr⟩ := Option.map_eq_some_iff.mp hpoll
  simp only [Prod.mk.injEq] at htr
  have hlen := ((hget tr hstep).1 false rfl _ _ _
    (DmaTransport.getRxData_of_pending htr.2)).1
  rw [htr.1] at hlen
  exact absurd hlen (by decide)

end SwiftAgg.Native
