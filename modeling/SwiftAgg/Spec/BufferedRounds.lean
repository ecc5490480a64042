import SwiftAgg.Native.BufferedAggregator
import SwiftAgg.Spec.MaskCorrect
import Mathlib.Algebra.BigOperators.Ring.Finset

/-!
# Rounds of the buffered baseline

`baseline_buffered_aggregate` adds the weighted update to what the buffer
holds and keeps a remainder with the sign of the sum, so that the narrowing to
`int16_t` loses nothing. What it adds to is what the last call left there:
`baseline_buffered_init` does not clear the buffer.

## Key results

- `step_cases`: what a call does to the aggregated buffer
- `step_signedResidue` / `run_signedResidue`: the elements are remainders in every run
- `run_updates_toInt`: an element after the updates is a loop over its own column
- `aggregatesRound_iff`: when a round aggregates its own updates only
- `aggregatesRound_of_cleared`: a round after clearing does
-/

namespace SwiftAgg.Native.BufferedAggregator

variable {b : BufferedAggregator}

/-! ## Remainders -/

/-- A remainder modulo 3329 with the sign of the dividend. -/
def SignedResidue (a : Int) : Prop := a.natAbs < 3329

theorem signedResidue_zero : SignedResidue 0 := Nat.zero_lt_succ _

theorem signedResidue_tmod (a : Int) : SignedResidue (a.tmod 3329) := by
  rw [SignedResidue, Int.natAbs_tmod]
  exact Nat.mod_lt _ (by decide)

/-- Such a remainder is an `int16_t`. -/
theorem SignedResidue.toInt_ofInt {a : Int} (h : SignedResidue a) : (Int16.ofInt a).toInt = a := by
  rw [SignedResidue] at h
  exact Int16.toInt_ofInt_of_le (by omega) (by omega)

/-- Zero is the only one that vanishes in the field. -/
theorem SignedResidue.modEq_zero_iff {a : Int} (h : SignedResidue a) :
    a ≡ 0 [ZMOD 3329] ↔ a = 0 := by
  rw [SignedResidue] at h
  rw [Int.modEq_zero_iff_dvd]
  omega

theorem overwrite_of_lt {buf f : Int16Buffer} {n : UInt32} {i : Nat} (h : i < n.toNat) :
    buf.overwrite n f i = f i :=
  if_pos h

theorem overwrite_cases {P : Int16 → Prop} {buf f : Int16Buffer} (n : UInt32)
    (hbuf : ∀ i, P (buf i)) (hf : ∀ i, P (f i)) (i : Nat) : P (buf.overwrite n f i) := by
  rw [Int16Buffer.overwrite]
  split
  · exact hf i
  · exact hbuf i

/-! ## Calls -/

/-- The calls that compute elements of the aggregated buffer. -/
def Computes : BufferedCall → Prop
  | .aggregate _ _ => True
  | .finalize _ => True
  | _ => False

variable (kdf : Kdf) (prg : MaskPrg)

/-- What a call does to the aggregated buffer: it keeps it, overwrites the elements in use with
    remainders, or clears it. -/
theorem step_cases (b : BufferedAggregator) (call : BufferedCall) :
    (b.step kdf prg call).aggregatedBuffer = b.aggregatedBuffer ∨
      (Computes call ∧ ∃ f : Int16Buffer, (∀ i, SignedResidue (f i).toInt) ∧
        (b.step kdf prg call).aggregatedBuffer = b.aggregatedBuffer.overwrite b.modelSize f) ∨
      (b.step kdf prg call).aggregatedBuffer = fun _ => 0 := by
  cases call with
  | init modelElements =>
    rw [step, baselineBufferedInit]
    split <;> exact .inl rfl
  | loadModel model =>
    rw [step, baselineBufferedLoadModel]
    split <;> exact .inl rfl
  | generateMask g clientId roundId pad =>
    rw [step, baselineBufferedGenerateMask]
    split <;> exact .inl rfl
  | applyMask => exact .inl rfl
  | aggregate clientUpdate weight =>
    rw [step, baselineBufferedAggregate]
    split
    · exact .inl rfl
    · refine .inr (.inl ⟨trivial, _, fun i => ?_, rfl⟩)
      have hres := signedResidue_tmod
        ((b.aggregatedBuffer i).toInt + (clientUpdate i).toInt * weight.toNat)
      exact hres.toInt_ofInt.symm ▸ hres
  | finalize totalWeight =>
    rw [step, baselineBufferedFinalize]
    split
    · exact .inl rfl
    · refine .inr (.inl ⟨trivial, _, fun i => ?_, rfl⟩)
      have hres : SignedResidue
          (((b.aggregatedBuffer i).toInt32.toUInt32 / totalWeight) % 3329).toNat := by
        rw [SignedResidue, UInt32.toNat_mod]
        exact Nat.mod_lt _ (by decide)
      exact hres.toInt_ofInt.symm ▸ hres
  | getResult => exact .inl rfl
  | zeroize => exact .inr (.inr rfl)

/-- Every call leaves remainders in the aggregated buffer. -/
theorem step_signedResidue (hb : ∀ j, SignedResidue (b.aggregatedBuffer j).toInt)
    (call : BufferedCall) (j : Nat) :
    SignedResidue ((b.step kdf prg call).aggregatedBuffer j).toInt := by
  obtain hkept | ⟨-, f, hf, hover⟩ | hzero := b.step_cases kdf prg call
  · rw [hkept]
    exact hb j
  · rw [hover]
    exact overwrite_cases (P := fun a => SignedResidue a.toInt) _ hb hf j
  · rw [hzero]
    exact signedResidue_zero

/-- So they are remainders in every run. -/
theorem run_signedResidue (hb : ∀ j, SignedResidue (b.aggregatedBuffer j).toInt)
    (calls : List BufferedCall) (j : Nat) :
    SignedResidue ((b.run kdf prg calls).aggregatedBuffer j).toInt := by
  induction calls generalizing b with
  | nil => exact hb j
  | cons call calls ih => exact ih (step_signedResidue kdf prg hb call)

theorem initial_signedResidue (j : Nat) : SignedResidue (initial.aggregatedBuffer j).toInt :=
  signedResidue_zero

/-! ## A round -/

/-- The call with which an update and its weight are aggregated. -/
def updateCall (u : Int16Buffer × UInt32) : BufferedCall := .aggregate u.1 u.2

/-- The weighted sum of updates at an element. -/
def weightedSum (updates : List (Int16Buffer × UInt32)) (j : Nat) : Int :=
  (updates.map fun u => (u.2.toNat : Int) * (u.1 j).toInt).sum

/-- What an update makes of an element. -/
def accumulate (j : Nat) (a : Int) (u : Int16Buffer × UInt32) : Int :=
  (a + (u.1 j).toInt * u.2.toNat).tmod 3329

/-- An element that is in use goes through its own loop over the updates. -/
theorem run_updates_toInt (updates : List (Int16Buffer × UInt32)) (hactive : b.active = true)
    {j : Nat} (hj : j < b.modelSize.toNat) :
    ((b.run kdf prg (updates.map updateCall)).aggregatedBuffer j).toInt =
      updates.foldl (accumulate j) (b.aggregatedBuffer j).toInt := by
  induction updates generalizing b with
  | nil => rfl
  | cons u updates ih =>
    have hstep : (b.step kdf prg (updateCall u)).active = true ∧
        (b.step kdf prg (updateCall u)).modelSize = b.modelSize ∧
        ((b.step kdf prg (updateCall u)).aggregatedBuffer j).toInt =
          accumulate j (b.aggregatedBuffer j).toInt u := by
      rw [updateCall, step, baselineBufferedAggregate, if_neg (not_not_intro hactive)]
      refine ⟨hactive, rfl, ?_⟩
      exact (congrArg Int16.toInt (overwrite_of_lt hj)).trans (signedResidue_tmod _).toInt_ofInt
    obtain ⟨hactive', hsize, helem⟩ := hstep
    have hrun := ih hactive' (hsize ▸ hj)
    rwa [helem] at hrun

/-- The loop adds the weighted sum in the field. -/
theorem foldl_accumulate_modEq (updates : List (Int16Buffer × UInt32)) (j : Nat) (a : Int) :
    updates.foldl (accumulate j) a ≡ a + weightedSum updates j [ZMOD 3329] := by
  have hstep : ∀ u ∈ updates, ∀ x, True →
      True ∧ ((accumulate j x u : Int) : Gf) = x + ((u.2.toNat * (u.1 j).toInt : Int) : Gf) := by
    intro u _ x _
    rw [accumulate, cast_tmod, Int.cast_add, mul_comm]
    exact ⟨trivial, rfl⟩
  have hsum := (List.foldl_reduced (fun _ => True) (accumulate j) _ hstep trivial (a := a)).2
  refine (ZMod.intCast_eq_intCast_iff _ _ 3329).mp ?_
  rw [hsum, Int.cast_add, weightedSum, Int.cast_list_sum, List.map_map]
  rfl

/-- After the calls of a round every element in use is a remainder of the weighted sum of the
    updates of that round. -/
def AggregatesRound (b : BufferedAggregator) (n : UInt32) (updates : List (Int16Buffer × UInt32)) :
    Prop :=
  ∀ j < n.toNat,
    let element := ((b.run kdf prg (.init n :: updates.map updateCall)).aggregatedBuffer j).toInt
    element ≡ weightedSum updates j [ZMOD 3329] ∧ SignedResidue element

/-- Starting a round keeps the buffer, so the updates are added to what it held. -/
theorem run_round_modEq (b : BufferedAggregator) {n : UInt32} (hn : n.toNat ≤ maxModelElements)
    (updates : List (Int16Buffer × UInt32)) {j : Nat} (hj : j < n.toNat) :
    ((b.run kdf prg (.init n :: updates.map updateCall)).aggregatedBuffer j).toInt ≡
      (b.aggregatedBuffer j).toInt + weightedSum updates j [ZMOD 3329] := by
  have hinit : b.step kdf prg (.init n) =
      { b with modelSize := n, size_le := hn, active := true } := by
    rw [step, baselineBufferedInit, dif_neg (not_lt.mpr hn)]
  have hrun := run_updates_toInt kdf prg (b := b.step kdf prg (.init n)) updates
    (by rw [hinit]) (by rwa [hinit])
  rw [hinit] at hrun
  rw [run, List.foldl_cons, hinit]
  exact (congrArg (· % 3329) hrun).trans (foldl_accumulate_modEq updates j _)

/-- A round aggregates its own updates only if and only if it begins with zeros. -/
theorem aggregatesRound_iff_zero (hb : ∀ j, SignedResidue (b.aggregatedBuffer j).toInt) {n : UInt32}
    (hn : n.toNat ≤ maxModelElements) (updates : List (Int16Buffer × UInt32)) :
    AggregatesRound kdf prg b n updates ↔ ∀ j < n.toNat, b.aggregatedBuffer j = 0 := by
  refine forall₂_congr fun j hj => ?_
  have hsum := run_round_modEq kdf prg b hn updates hj
  rw [← Int16.toInt_inj, Int16.toInt_zero, ← (hb j).modEq_zero_iff]
  constructor
  · rintro ⟨hown, -⟩
    have hadd := hsum.symm.trans hown
    exact Int.ModEq.add_right_cancel' (weightedSum updates j) (by rwa [zero_add])
  · intro hheld
    have hadd := hheld.add_right (weightedSum updates j)
    rw [zero_add] at hadd
    exact ⟨hsum.trans hadd, run_signedResidue kdf prg hb _ j⟩

/-- Whatever was called before it, a round aggregates its own updates only exactly if the buffer
    was zero, as far as the round uses it, when the round began. -/
theorem aggregatesRound_iff (history : List BufferedCall) (n : UInt32)
    (hn : n.toNat ≤ maxModelElements) (updates : List (Int16Buffer × UInt32)) :
    AggregatesRound kdf prg (initial.run kdf prg history) n updates ↔
      ∀ j < n.toNat, (initial.run kdf prg history).aggregatedBuffer j = 0 :=
  aggregatesRound_iff_zero kdf prg (run_signedResidue kdf prg initial_signedResidue history) hn
    updates

/-- A round with the updates 7 is carried through, then one with the update 5 begins, with the
    buffers cleared in between. -/
theorem aggregatesRound_seven_zeroize_five :
    AggregatesRound (fun _ _ => Bytes.zero32) (fun _ len => ⟨List.replicate len 0, by simp⟩)
      (initial.run (fun _ _ => Bytes.zero32) (fun _ len => ⟨List.replicate len 0, by simp⟩)
        [.init 1, .aggregate (fun _ => 7) 1, .finalize 1, .getResult, .zeroize]) 1
      [(fun _ => 5, 1)] :=
  (aggregatesRound_iff _ _ [.init 1, .aggregate (fun _ => 7) 1, .finalize 1, .getResult, .zeroize] 1
    (by decide) [(fun _ => 5, 1)]).mpr (by decide)

/-- Without clearing the second round ends with 12. -/
theorem not_aggregatesRound_seven_five :
    ¬AggregatesRound (fun _ _ => Bytes.zero32) (fun _ len => ⟨List.replicate len 0, by simp⟩)
      (initial.run (fun _ _ => Bytes.zero32) (fun _ len => ⟨List.replicate len 0, by simp⟩)
        [.init 1, .aggregate (fun _ => 7) 1, .finalize 1, .getResult]) 1 [(fun _ => 5, 1)] := by
  intro hround
  have hfive : (12 : Int) ≡ 5 [ZMOD 3329] := (hround 0 (by decide)).1
  exact absurd hfive (by decide)

/-! ## Cleared buffers -/

/-- Only the calls that compute make a zero buffer anything else. -/
theorem run_zero {calls : List BufferedCall} (hcalls : ∀ call ∈ calls, ¬Computes call)
    (hb : b.aggregatedBuffer = fun _ => 0) :
    (b.run kdf prg calls).aggregatedBuffer = fun _ => 0 := by
  induction calls generalizing b with
  | nil => exact hb
  | cons call calls ih =>
    refine ih (fun c hc => hcalls c (List.mem_cons_of_mem _ hc)) (b := b.step kdf prg call) ?_
    obtain hkept | ⟨hcomputes, -⟩ | hzero := b.step_cases kdf prg call
    · rw [hkept, hb]
    · exact absurd hcomputes (hcalls call List.mem_cons_self)
    · exact hzero

/-- If nothing was computed since the buffers were cleared last, a round aggregates its own updates
    only. -/
theorem aggregatesRound_of_cleared (history : List BufferedCall) {calls : List BufferedCall}
    (hcalls : ∀ call ∈ calls, ¬Computes call) {n : UInt32} (hn : n.toNat ≤ maxModelElements)
    (updates : List (Int16Buffer × UInt32)) :
    AggregatesRound kdf prg (initial.run kdf prg (history ++ .zeroize :: calls)) n updates := by
  have hres := run_signedResidue kdf prg initial_signedResidue (history ++ .zeroize :: calls)
  refine (aggregatesRound_iff_zero kdf prg hres hn updates).mpr fun j _ => ?_
  rw [run, List.foldl_append]
  exact congrFun (run_zero kdf prg hcalls rfl) j

end SwiftAgg.Native.BufferedAggregator
