import SwiftAgg.Spec.Keystream

/-!
# Several requests

The counter is stepped only between the blocks of one request, so the next
request starts with the last block again, and the rest of a block that was cut
short is not remembered. Requests after one another therefore write the
keystream of a single request only if at most one of them asks for anything.

## Key results

- `maskPrgRequests_filter`: requests for nothing do nothing
- `maskPrgRequests_cons`: a request for something is followed by the block it ended with
- `maskPrgRequests_consistent_iff`: which lists of lengths are consistent with a single request
-/

namespace SwiftAgg

open Native

section

variable {tc : TinyCrypt} (sched : tc.Sched) (nonce : Block)

/-- A request for nothing does nothing. -/
theorem maskPrgGetBytes_zero (ctx : MaskPrgCtx tc) : maskPrgGetBytes tc ctx 0 = ([], ctx) := by
  rw [maskPrgGetBytes, maskPrgLoop]
  split <;> rfl

theorem maskPrgRequests_filter (ctx : MaskPrgCtx tc) (lens : List Nat) :
    maskPrgRequests tc ctx lens = maskPrgRequests tc ctx (lens.filter (· ≠ 0)) := by
  induction lens generalizing ctx with
  | nil => rfl
  | cons len lens ih =>
    by_cases hzero : len = 0
    · rw [List.filter_cons_of_neg (by simpa using hzero), ← ih, maskPrgRequests, hzero,
        maskPrgGetBytes_zero]
      rfl
    · rw [List.filter_cons_of_pos (by simpa using hzero), maskPrgRequests, maskPrgRequests, ih]

/-- A single request. -/
theorem maskPrgRequests_singleton (ctx : MaskPrgCtx tc) (len : Nat) :
    (maskPrgRequests tc ctx [len]).1 = (maskPrgGetBytes tc ctx len).1 := by
  rw [maskPrgRequests, maskPrgRequests]
  exact List.append_nil _

/-- The first of several requests, and the block at which the next one starts. -/
theorem maskPrgRequests_cons (i len : Nat) (lens : List Nat) :
    (maskPrgRequests tc ⟨sched, nonce, counterBlock i, true⟩ (len :: lens)).1 =
      (maskPrgLoop tc len ⟨sched, nonce, counterBlock i, true⟩).1 ++
        (maskPrgRequests tc ⟨sched, nonce, counterBlock (i + (len - 1) / 16), true⟩ lens).1 := by
  show (maskPrgLoop tc len _).1 ++ (maskPrgRequests tc (maskPrgLoop tc len _).2 lens).1 = _
  rw [maskPrgLoop_ctx]

theorem writtenBytes_append (calls calls' : List CtrCall) :
    writtenBytes (calls ++ calls') = writtenBytes calls ++ writtenBytes calls' :=
  List.flatMap_append

/-- Nonce and counter of the blocks that calls ask for. -/
def emittedBlocks (calls : List CtrCall) : List (Block × Block) :=
  calls.map fun call => (call.nonce, call.ctr)

theorem emittedBlocks_maskPrgLoop (i len : Nat) :
    emittedBlocks (maskPrgLoop tc len ⟨sched, nonce, counterBlock i, true⟩).1 =
      (List.range' i ((len + 15) / 16)).map fun j => (nonce, counterBlock j) :=
  map_ctr_maskPrgLoop sched nonce true i len

/-- One request does not emit a block twice unless its counter wraps around. -/
theorem nodup_emittedBlocks_maskPrgLoop (len : Nat) :
    (emittedBlocks (maskPrgLoop tc len ⟨sched, nonce, counterBlock 0, true⟩).1).Nodup ↔
      len ≤ 16 * 256 ^ 16 := by
  rw [emittedBlocks_maskPrgLoop]
  constructor
  · intro h
    by_contra hlong
    -- the blocks at the counters `0` and `256 ^ 16`
    have hsame : counterBlock 0 = counterBlock (256 ^ 16) := by
      have hwrap := Bytes.ofNatBE_add_pow 16 0
      rw [Nat.zero_add] at hwrap
      exact Subtype.ext hwrap.symm
    have hzero := List.inj_on_of_nodup_map h (x := 0) (y := 256 ^ 16)
      (List.mem_range'_1.mpr (by omega)) (List.mem_range'_1.mpr (by omega))
      (congrArg (Prod.mk nonce) hsame)
    exact absurd hzero (by decide)
  · intro hle
    refine List.Nodup.map_on ?_ List.nodup_range'
    intro i hi j hj hij
    rw [List.mem_range'_1] at hi hj
    exact Bytes.ofNatBE_inj (by omega) (by omega) (congrArg Subtype.val (Prod.mk.inj hij).2)

/-- A second request emits the last block of the first one again. -/
theorem not_nodup_emittedBlocks_maskPrgRequests (i : Nat) {len len' : Nat} (lens : List Nat)
    (h : 0 < len) (h' : 0 < len') :
    ¬ (emittedBlocks (maskPrgRequests tc ⟨sched, nonce, counterBlock i, true⟩
      (len :: len' :: lens)).1).Nodup := by
  rw [maskPrgRequests_cons, maskPrgRequests_cons]
  simp only [emittedBlocks, List.map_append]
  intro hnodup
  have hfirst := emittedBlocks_maskPrgLoop sched nonce i len
  have hsecond := emittedBlocks_maskPrgLoop sched nonce (i + (len - 1) / 16) len'
  simp only [emittedBlocks] at hfirst hsecond
  rw [hfirst, hsecond] at hnodup
  have hdisjoint := (List.nodup_append'.mp hnodup).2.2
  have hlast : (nonce, counterBlock (i + (len - 1) / 16)) ∈
      (List.range' i ((len + 15) / 16)).map fun j => (nonce, counterBlock j) :=
    List.mem_map.mpr ⟨_, List.mem_range'_1.mpr (by omega), rfl⟩
  have hnext : (nonce, counterBlock (i + (len - 1) / 16)) ∈
      (List.range' (i + (len - 1) / 16) ((len' + 15) / 16)).map fun j => (nonce, counterBlock j) :=
    List.mem_map.mpr ⟨_, List.mem_range'_1.mpr (by omega), rfl⟩
  exact hdisjoint hlast (List.mem_append_left _ hnext)

end

/-! ## A cipher that counts bytes -/

/-- A cipher whose keystream is `0, 1, 2, …`, from block to block. -/
def countingTinyCrypt : TinyCrypt := .ofCipher fun _ _ ctr =>
  ⟨(List.range' (16 * (ctr.val.getD 15 0).toNat) 16).map UInt8.ofNat, by simp⟩

theorem keystream_countingTinyCrypt (sched : countingTinyCrypt.Sched) (nonce : Block)
    (i len : Nat) :
    keystream countingTinyCrypt sched nonce i len =
      (List.range' (16 * i) len).map UInt8.ofNat := by
  apply blockStream_eq_map UInt8.ofNat (by decide)
  intro j
  have hlast : (counterBlock j).val.getD 15 0 = UInt8.ofNat j := by
    have hlen := Bytes.length_ofNatBE 15 (j / 2 ^ 8)
    show (Bytes.ofNatBE 15 (j / 2 ^ 8) ++ [UInt8.ofNat j]).getD 15 0 = _
    rw [List.getD_append_right _ _ _ _ (by omega), hlen]
    rfl
  show (List.range' (16 * ((counterBlock j).val.getD 15 0).toNat) 16).map UInt8.ofNat = _
  rw [hlast, List.range'_eq_map_range, List.range'_eq_map_range, List.map_map, List.map_map]
  apply List.map_congr_left
  intro k _
  apply UInt8.toNat_inj.mp
  simp only [Function.comp_apply, UInt8.toNat_ofNat']
  omega

/-- Under it, a second request does not go on where the first one ended. -/
theorem writtenBytes_countingTinyCrypt_ne (sched : countingTinyCrypt.Sched) (nonce : Block)
    {len len' : Nat} (lens : List Nat) (total : Nat) (h : 0 < len) (h' : 0 < len') :
    writtenBytes (maskPrgRequests countingTinyCrypt ⟨sched, nonce, counterBlock 0, true⟩
        (len :: len' :: lens)).1 ≠
      writtenBytes (maskPrgLoop countingTinyCrypt total
        ⟨sched, nonce, counterBlock 0, true⟩).1 := by
  intro heq
  rw [maskPrgRequests_cons, maskPrgRequests_cons, writtenBytes_append, writtenBytes_append,
    writtenBytes_maskPrgLoop, writtenBytes_maskPrgLoop, writtenBytes_maskPrgLoop,
    keystream_countingTinyCrypt, keystream_countingTinyCrypt, keystream_countingTinyCrypt] at heq
  -- the first byte of the second request
  have hbyte := congrArg (·[len]?) heq
  simp only [List.getElem?_append, List.length_map, List.length_range', Nat.lt_irrefl, ↓reduceIte,
    Nat.sub_self, h', List.getElem?_map, List.getElem?_range' h', Option.map_some] at hbyte
  by_cases htotal : len < total
  · rw [List.getElem?_range' htotal, Option.map_some, Option.some.injEq, ← UInt8.toNat_inj,
      UInt8.toNat_ofNat', UInt8.toNat_ofNat'] at hbyte
    omega
  · rw [List.getElem?_eq_none (by rw [List.length_range']; omega)] at hbyte
    exact absurd hbyte (by simp)

/-! ## Consistency -/

theorem sum_filter_ne_zero (lens : List Nat) : (lens.filter (· ≠ 0)).sum = lens.sum := by
  induction lens with
  | nil => rfl
  | cons len lens ih =>
    by_cases hzero : len = 0
    · rw [List.filter_cons_of_neg (by simpa using hzero), ih, List.sum_cons, hzero, Nat.zero_add]
    · rw [List.filter_cons_of_pos (by simpa using hzero), List.sum_cons, List.sum_cons, ih]

/-- Requests after `mask_prg_init` write what a single request would have written, and no block
    twice, exactly if at most one of them asks for anything and the counter does not wrap around.
    As far as the bytes are concerned, the first is what the law for every cipher comes to. -/
theorem maskPrgRequests_consistent_iff (seed : Bytes32) (lens : List Nat) :
    (∀ tc : TinyCrypt,
      (writtenBytes (maskPrgRequests tc (maskPrgInit tc seed) lens).1 =
          writtenBytes (maskPrgGetBytes tc (maskPrgInit tc seed) lens.sum).1 ∧
        (emittedBlocks (maskPrgRequests tc (maskPrgInit tc seed) lens).1).Nodup ↔
      (lens.filter (· ≠ 0)).length ≤ 1 ∧ lens.sum ≤ 16 * 256 ^ 16)) ∧
    ((∀ tc : TinyCrypt, writtenBytes (maskPrgRequests tc (maskPrgInit tc seed) lens).1 =
        writtenBytes (maskPrgGetBytes tc (maskPrgInit tc seed) lens.sum).1) ↔
      (lens.filter (· ≠ 0)).length ≤ 1) := by
  have hsum := sum_filter_ne_zero lens
  have hpos : ∀ len ∈ lens.filter (· ≠ 0), 0 < len := by
    intro len hlen
    exact Nat.pos_of_ne_zero (by simpa using (List.mem_filter.mp hlen).2)
  simp only [maskPrgRequests_filter _ lens, maskPrgInit_eq]
  rw [← hsum]
  -- only the requests for something are left
  generalize lens.filter (· ≠ 0) = asked at hpos
  match asked, hpos with
  | [], _ =>
    refine ⟨fun tc => ?_, ?_⟩ <;> simp [maskPrgRequests, maskPrgGetBytes_zero, emittedBlocks]
  | [len], _ =>
    have hone : ∀ tc : TinyCrypt, maskPrgGetBytes tc
        ⟨tc.setEncryptKey seed, .zero, counterBlock 0, true⟩ len =
          maskPrgLoop tc len ⟨tc.setEncryptKey seed, .zero, counterBlock 0, true⟩ :=
      fun tc => rfl
    simp only [maskPrgRequests_singleton, List.sum_singleton, List.length_singleton, Nat.le_refl,
      true_and, implies_true, and_true, hone, nodup_emittedBlocks_maskPrgLoop]
  | len :: len' :: rest, hpos =>
    have h := hpos len List.mem_cons_self
    have h' := hpos len' (List.mem_cons_of_mem _ List.mem_cons_self)
    have hmany : ¬ (len :: len' :: rest).length ≤ 1 := by
      simp only [List.length_cons]
      omega
    simp only [hmany, false_and, iff_false, not_and]
    constructor
    · intro tc _
      exact not_nodup_emittedBlocks_maskPrgRequests (tc.setEncryptKey seed) .zero 0 rest h h'
    · intro hall
      exact writtenBytes_countingTinyCrypt_ne seed .zero rest _ h h' (hall countingTinyCrypt)

/-- Two requests for a block each get the same block. -/
theorem maskPrgRequests_sixteen_sixteen :
    writtenBytes (maskPrgRequests countingTinyCrypt
        (maskPrgInit countingTinyCrypt Bytes.zero32) [16, 16]).1 ≠
      writtenBytes (maskPrgGetBytes countingTinyCrypt
        (maskPrgInit countingTinyCrypt Bytes.zero32) (16 + 16)).1 ∧
    ¬ (emittedBlocks (maskPrgRequests countingTinyCrypt
      (maskPrgInit countingTinyCrypt Bytes.zero32) [16, 16]).1).Nodup := by
  rw [maskPrgInit_eq]
  constructor
  · exact writtenBytes_countingTinyCrypt_ne Bytes.zero32 .zero [] _ (by omega) (by omega)
  · exact not_nodup_emittedBlocks_maskPrgRequests _ _ 0 [] (by omega) (by omega)

end SwiftAgg
