import SwiftAgg.Spec.KeyAgreement
import Mathlib.Algebra.Order.Floor.Div

/-!
# The number of chunks

ROUND_INIT announces a chunk size and a model size, and the client stores the
quotient, rounded up. It computes in `uint32_t`, stores a `uint16_t` and checks
none of the received sizes, so three things can go wrong: a division by zero, a
sum that wraps around, and a quotient that is cut off.

## Key results

- `totalChunks_roundInit`: the stored number, where nothing wraps around
- `countsChunks_iff`: which ROUND_INIT payloads are counted right or refused
-/

namespace SwiftAgg.Native

variable {env : StepEnv} {ctx : ClientProtocolCtx} {hdr : MsgHeader} {payload : Memory}

/-! ## The stored number -/

theorem roundInitChunkSize_pos (h : roundInitChunkSize payload ≠ 0) :
    0 < (roundInitChunkSize payload).toNat :=
  Nat.pos_of_ne_zero fun hzero => h (UInt16.toNat_inj.mp hzero)

/-- The client counts a last, partial chunk; with at most 65535 chunks nothing wraps around. -/
theorem totalChunks_roundInit (hpos : roundInitChunkSize payload ≠ 0)
    (hcount : (roundInitModelSize payload).toNat ≤ 65535 * (roundInitChunkSize payload).toNat) :
    (roundInitChunkCtx ctx hdr payload).totalChunks.toNat =
      ((roundInitModelSize payload).toNat + (roundInitChunkSize payload).toNat - 1) /
        (roundInitChunkSize payload).toNat := by
  have hc := roundInitChunkSize_pos hpos
  simp only [roundInitChunkCtx]
  generalize roundInitModelSize payload = m at *
  generalize roundInitChunkSize payload = c at *
  have hc' := c.toNat_lt
  have hsum : m.toNat + c.toNat < 2 ^ 32 := by omega
  -- the bound on the number of chunks keeps the sum below `2 ^ 32`
  have hdiff : (m + c.toUInt32 - 1).toNat = m.toNat + c.toNat - 1 := by
    have hadd : (m + c.toUInt32).toNat = m.toNat + c.toNat := by
      rw [UInt32.toNat_add, UInt16.toNat_toUInt32, Nat.mod_eq_of_lt hsum]
    have hone : (1 : UInt32) ≤ m + c.toUInt32 := by
      rw [UInt32.le_iff_toNat_le, hadd]
      show 1 ≤ m.toNat + c.toNat
      omega
    rw [UInt32.toNat_sub_of_le _ _ hone, hadd]
    rfl
  have hquot : (m.toNat + c.toNat - 1) / c.toNat < 2 ^ 16 := by
    rw [Nat.div_lt_iff_lt_mul hc]
    omega
  rw [UInt32.toNat_toUInt16, UInt32.toNat_div, UInt16.toNat_toUInt32, hdiff,
    Nat.mod_eq_of_lt hquot]

/-! ## Which payloads are counted -/

/-- The header is not that of a ROUND_INIT for the context's round. -/
def RefusesRoundInit (ctx : ClientProtocolCtx) (hdr : MsgHeader) : Prop :=
  hdr.messageType ≠ MsgType.roundInit.code ∨ hdr.roundId ≠ ctx.currentRoundId

instance (ctx : ClientProtocolCtx) (hdr : MsgHeader) : Decidable (RefusesRoundInit ctx hdr) :=
  inferInstanceAs (Decidable (_ ∨ _))

/-- The sizes announce chunks, and no more than `uint16_t` counts. -/
def CountableSizes (payload : Memory) : Prop :=
  roundInitChunkSize payload ≠ 0 ∧
    (roundInitModelSize payload).toNat ≤ 65535 * (roundInitChunkSize payload).toNat

instance (payload : Memory) : Decidable (CountableSizes payload) :=
  inferInstanceAs (Decidable (_ ∧ _))

/-- No division by zero; and the message is refused and changes nothing, or the exact number of
    chunks is stored, where neither the sum nor the number itself was cut off. -/
def CountsChunks (env : StepEnv) (ctx : ClientProtocolCtx) (hdr : MsgHeader) (payload : Memory) :
    Prop :=
  let chunkSize := (roundInitChunkSize payload).toNat
  let modelSize := (roundInitModelSize payload).toNat
  ∃ out, handleRoundInit env ctx hdr payload = some out ∧
    (out.status ≠ .success ∧ out.ctx = ctx ∨
      out.ctx.chunkCtx.totalChunks.toNat = modelSize ⌈/⌉ chunkSize ∧
        modelSize + chunkSize < 2 ^ 32 ∧ modelSize ⌈/⌉ chunkSize < 2 ^ 16)

/-- What the handler checks before it reads the payload. -/
theorem handleRoundInit_of_refuses (env : StepEnv) (payload : Memory)
    (h : RefusesRoundInit ctx hdr) :
    ∃ status ≠ .success, handleRoundInit env ctx hdr payload = some { status, ctx, payload } := by
  rw [handleRoundInit]
  by_cases htype : hdr.messageType ≠ MsgType.roundInit.code
  · exact ⟨_, PqcStatus.noConfusion, if_pos htype⟩
  · rw [if_neg htype]
    exact ⟨_, PqcStatus.noConfusion, if_pos (h.resolve_left htype)⟩

/-- What it does with the other messages. -/
theorem handleRoundInit_of_not_refuses (h : ¬RefusesRoundInit ctx hdr) :
    handleRoundInit env ctx hdr payload =
      if roundInitChunkSize payload = 0 then none
      else some (transitionOutcome env
        { ctx with
          chunkCtx := roundInitChunkCtx ctx hdr payload
          shamirCtx := ⟨payload 1, payload 0 - 1⟩ } .keySetup payload) := by
  obtain ⟨htype, hround⟩ := not_or.mp h
  rw [handleRoundInit, if_neg htype, if_neg hround]

theorem chunkCtx_transitionOutcome (env : StepEnv) (ctx : ClientProtocolCtx)
    (newState : ProtocolState) (payload : Memory) :
    (transitionOutcome env ctx newState payload).ctx.chunkCtx = ctx.chunkCtx := by
  show (stateMachineTransition env ctx newState).2.chunkCtx = ctx.chunkCtx
  rw [stateMachineTransition]
  split <;> rfl

/-- Sizes that can be counted are counted right, in whatever state. -/
theorem CountableSizes.countsChunks (h : CountableSizes payload) :
    CountsChunks env ctx hdr payload := by
  by_cases hrefuses : RefusesRoundInit ctx hdr
  · obtain ⟨status, hstatus, hout⟩ := handleRoundInit_of_refuses env payload hrefuses
    exact ⟨_, hout, .inl ⟨hstatus, rfl⟩⟩
  · obtain ⟨hpos, hcount⟩ := h
    have hc := roundInitChunkSize_pos hpos
    have hc' := (roundInitChunkSize payload).toNat_lt
    refine ⟨_, (handleRoundInit_of_not_refuses hrefuses).trans (if_neg hpos), .inr ⟨?_, ?_, ?_⟩⟩
    · rw [chunkCtx_transitionOutcome]
      exact totalChunks_roundInit hpos hcount
    · omega
    · have hle := (ceilDiv_le_iff_le_mul hc).mpr ((Nat.mul_comm _ _).symm ▸ hcount)
      omega

/-- In a state from which the client moves on, nothing else is. -/
theorem countsChunks_iff_of_ne_error (hstate : ctx.state ≠ .error) :
    CountsChunks env ctx hdr payload ↔ RefusesRoundInit ctx hdr ∨ CountableSizes payload := by
  constructor
  · rintro ⟨out, hout, hcounts⟩
    by_contra hnot
    obtain ⟨hrefuses, hsizes⟩ := not_or.mp hnot
    rw [handleRoundInit_of_not_refuses hrefuses] at hout
    split at hout
    · cases hout
    · rename_i hpos
      cases hout
      have hc := roundInitChunkSize_pos hpos
      obtain ⟨hstatus, -⟩ | ⟨-, -, hlt⟩ := hcounts
      · -- the transition succeeds
        refine hstatus ?_
        rw [transitionOutcome, stateMachineTransition, if_neg hstate]
      · have hle := (ceilDiv_le_iff_le_mul hc).mp (Nat.le_of_lt_succ hlt)
        exact hsizes ⟨hpos, (Nat.mul_comm _ _).symm ▸ hle⟩
  · rintro (hrefuses | hsizes)
    · obtain ⟨status, hstatus, hout⟩ := handleRoundInit_of_refuses env payload hrefuses
      exact ⟨_, hout, .inl ⟨hstatus, rfl⟩⟩
    · exact hsizes.countsChunks

/-- Client 1 before the ROUND_INIT of round 1. -/
def freshCtx : ClientProtocolCtx := stateMachineInit 1 1 0

/-- The header of that message. -/
def roundOneHeader : MsgHeader := ⟨protocolVersion, 1, 0, MsgType.roundInit.code, 0, 8, 0⟩

/-- A ROUND_INIT payload is always counted right or refused exactly if its chunk size is not zero
    and the model has at most 65535 chunks; and of the payloads that are not, a context that can
    move on takes every one whose header it does not refuse. -/
theorem countsChunks_iff (payload : Memory) :
    ((∀ env ctx hdr, CountsChunks env ctx hdr payload) ↔ CountableSizes payload) ∧
      ∀ env ctx hdr, ctx.state ≠ .error →
        (CountsChunks env ctx hdr payload ↔ RefusesRoundInit ctx hdr ∨ CountableSizes payload) := by
  refine ⟨⟨fun hall => ?_, fun h env ctx hdr => h.countsChunks⟩,
    fun env ctx hdr hstate => countsChunks_iff_of_ne_error hstate⟩
  have hcounts := hall quietEnv freshCtx roundOneHeader
  rw [countsChunks_iff_of_ne_error (by decide)] at hcounts
  exact hcounts.resolve_left (by decide)

/-- A chunk size of zero, `2 ^ 32 - 1` bytes in chunks of two, and 65536 chunks of one byte. -/
theorem not_countsChunks_corners :
    ¬CountsChunks quietEnv freshCtx roundOneHeader (.ofBytes [2, 1, 0, 0, 8, 0, 0, 0]) ∧
      ¬CountsChunks quietEnv freshCtx roundOneHeader
        (.ofBytes [2, 1, 2, 0, 255, 255, 255, 255]) ∧
      ¬CountsChunks quietEnv freshCtx roundOneHeader (.ofBytes [2, 1, 1, 0, 0, 0, 1, 0]) := by
  have hstate : freshCtx.state ≠ .error := by decide
  simp only [countsChunks_iff_of_ne_error hstate]
  decide

end SwiftAgg.Native
