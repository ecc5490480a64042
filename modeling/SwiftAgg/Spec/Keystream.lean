import SwiftAgg.ForStd.BlockStream
import SwiftAgg.Native.MaskPrg
import SwiftAgg.Host.ShamirRecovery

/-!
# The keystream of one request

The 16 bytes of the counter count modulo `2 ^ 128`, and a request that starts
at a block writes the stream of blocks from there on. The counter is left at
the last block that was written, not at the next one. A request after
`mask_prg_init` therefore writes the keystream that counter mode defines, which
is what the host regenerates.

## Key results

- `ctrIncrement_counterBlock`: the counter counts
- `writtenBytes_maskPrgLoop`: a request writes the stream of blocks
- `map_ctr_maskPrgLoop`: the counters of its blocks
- `maskPrgLoop_ctx`: the counter it leaves behind
- `aesCtrStream_eq_maskPrgGetBytes`: firmware and host agree on a single request
-/

namespace SwiftAgg

open Native

/-! ## The counter -/

/-- The 128-bit big-endian counter. -/
def counterBlock (n : Nat) : Block := ⟨Bytes.ofNatBE 16 n, Bytes.length_ofNatBE 16 n⟩

theorem counterBlock_zero : counterBlock 0 = .zero := Subtype.ext (Bytes.ofNatBE_zero 16)

theorem ctrIncrement_counterBlock (n : Nat) :
    ctrIncrement (counterBlock n) = counterBlock (n + 1) := by
  have hcounts := Bytes.incrementBE_ofNatBE 16 n []
  rw [List.append_nil, List.append_nil] at hcounts
  apply Subtype.ext
  simp only [ctrIncrement, counterBlock]
  rw [hcounts]

theorem maskPrgInit_eq (tc : TinyCrypt) (seed : Bytes32) :
    maskPrgInit tc seed = ⟨tc.setEncryptKey seed, .zero, counterBlock 0, true⟩ := by
  rw [counterBlock_zero]
  rfl

/-! ## The loop -/

section

variable {tc : TinyCrypt} (sched : tc.Sched) (nonce : Block) (initialized : Bool)

/-- The stream of the blocks under one key schedule and nonce. -/
def keystream (tc : TinyCrypt) (sched : tc.Sched) (nonce : Block) (i len : Nat) : Bytes :=
  blockStream (fun j => (tc.block nonce (counterBlock j) sched).val) i len

/-- The loop at block `i`: it writes the block, and is at block `i + 1` if anything is left. -/
theorem maskPrgLoop_step (i : Nat) {remaining : Nat} (h : 0 < remaining) :
    maskPrgLoop tc remaining ⟨sched, nonce, counterBlock i, initialized⟩ =
      let rest := maskPrgLoop tc (remaining - 16)
        ⟨sched, nonce, counterBlock (if 16 < remaining then i + 1 else i), initialized⟩
      (⟨nonce, counterBlock i, (tc.block nonce (counterBlock i) sched).val.take remaining⟩ ::
        rest.1, rest.2) := by
  have hlen := (tc.block nonce (counterBlock i) sched).property
  rw [maskPrgLoop, if_neg (by omega)]
  by_cases hlong : 16 < remaining
  · simp only [if_pos hlong, tc.ctrMode_eq (Nat.le_refl 16), ctrIncrement_counterBlock,
      if_pos (show 0 < remaining - 16 by omega)]
    rw [List.take_of_length_le (by omega), List.take_of_length_le (by omega)]
  · simp only [if_neg hlong, tc.ctrMode_eq (show remaining ≤ 16 by omega), Nat.sub_self,
      Nat.lt_irrefl, ↓reduceIte, show remaining - 16 = 0 by omega]

/-- A request writes the stream from its first block on. -/
theorem writtenBytes_maskPrgLoop (i remaining : Nat) :
    writtenBytes (maskPrgLoop tc remaining ⟨sched, nonce, counterBlock i, initialized⟩).1 =
      keystream tc sched nonce i remaining := by
  induction remaining using Nat.strong_induction_on generalizing i with
  | _ remaining ih =>
    by_cases hzero : remaining = 0
    · rw [maskPrgLoop, if_pos hzero, hzero]
      rfl
    · rw [maskPrgLoop_step sched nonce initialized i (by omega), keystream,
        blockStream_step (fun j => (tc.block nonce (counterBlock j) sched).property) (by decide)]
      simp only [writtenBytes, List.flatMap_cons]
      congr 1
      by_cases hlong : 16 < remaining
      · rw [if_pos hlong]
        exact ih _ (by omega) (i + 1)
      · -- nothing is left, whatever the counter is
        rw [show remaining - 16 = 0 by omega, maskPrgLoop, if_pos rfl]
        rfl

/-- A request asks for consecutive blocks. -/
theorem map_ctr_maskPrgLoop (i remaining : Nat) :
    (maskPrgLoop tc remaining ⟨sched, nonce, counterBlock i, initialized⟩).1.map
        (fun call => (call.nonce, call.ctr)) =
      (List.range' i ((remaining + 15) / 16)).map fun j => (nonce, counterBlock j) := by
  induction remaining using Nat.strong_induction_on generalizing i with
  | _ remaining ih =>
    by_cases hzero : remaining = 0
    · rw [maskPrgLoop, if_pos hzero, hzero]
      rfl
    · have hblocks : (remaining + 15) / 16 = (remaining - 16 + 15) / 16 + 1 := by omega
      rw [maskPrgLoop_step sched nonce initialized i (by omega), hblocks, List.range'_succ]
      simp only [List.map_cons]
      congr 1
      by_cases hlong : 16 < remaining
      · rw [if_pos hlong]
        exact ih _ (by omega) (i + 1)
      · rw [show remaining - 16 = 0 by omega, maskPrgLoop, if_pos rfl]
        rfl

/-- A request leaves the counter at the last block it has written. -/
theorem maskPrgLoop_ctx (i remaining : Nat) :
    (maskPrgLoop tc remaining ⟨sched, nonce, counterBlock i, initialized⟩).2 =
      ⟨sched, nonce, counterBlock (i + (remaining - 1) / 16), initialized⟩ := by
  induction remaining using Nat.strong_induction_on generalizing i with
  | _ remaining ih =>
    by_cases hzero : remaining = 0
    · rw [maskPrgLoop, if_pos hzero, hzero]
      rfl
    · rw [maskPrgLoop_step sched nonce initialized i (by omega)]
      by_cases hlong : 16 < remaining
      · have hlast : i + 1 + (remaining - 16 - 1) / 16 = i + (remaining - 1) / 16 := by omega
        simp only [if_pos hlong]
        rw [ih _ (by omega), hlast]
      · have hlast : i + (remaining - 1) / 16 = i := by omega
        simp only [if_neg hlong, show remaining - 16 = 0 by omega]
        rw [maskPrgLoop, if_pos rfl, hlast]

end

/-! ## Agreement with the host -/

section

variable {tc : TinyCrypt} {aes : Bytes32 → Block → Block} {encryptor : Host.CtrEncryptor}

/-- The cipher library computes AES-256 on the counter if the nonce is zero. -/
def TinyCryptIsAes (tc : TinyCrypt) (aes : Bytes32 → Block → Block) : Prop :=
  ∀ seed ctr, tc.block .zero ctr (tc.setEncryptKey seed) = aes seed ctr

/-- The `cryptography` package adds the stream of AES-256 blocks, counted from a zero initial
    block, to the data. -/
def EncryptorIsAes (encryptor : Host.CtrEncryptor) (aes : Bytes32 → Block → Block) : Prop :=
  ∀ (seed : Bytes32) (data : Bytes), encryptor seed.val (List.replicate 16 0) data =
    List.zipWith (· ^^^ ·) data
      (blockStream (fun j => (aes seed (counterBlock j)).val) 0 data.length)

/-- Adding zeros changes nothing. -/
private theorem zipWith_xor_replicate_zero (b : Bytes) :
    List.zipWith (· ^^^ ·) (List.replicate b.length 0) b = b := by
  induction b with
  | nil => rfl
  | cons x b ih => rw [List.length_cons, List.replicate_succ, List.zipWith_cons_cons, ih,
      UInt8.zero_xor]

/-- After `mask_prg_init` one request writes the keystream that the host regenerates, through
    either interface. -/
theorem aesCtrStream_eq_maskPrgGetBytes (htc : TinyCryptIsAes tc aes)
    (hencryptor : EncryptorIsAes encryptor aes) (seed : Bytes32) (length : Nat) :
    Host.aesCtrStream (some encryptor) seed.val (List.replicate 16 0) length =
        .ok (writtenBytes (maskPrgGetBytes tc (maskPrgInit tc seed) length).1) ∧
      Host.aesCtrStream (some encryptor) seed.val (List.replicate 16 0) length =
        .ok (writtenBytes (maskPrgSimpleExpand tc (maskPrgSimpleInit tc seed) length).1) := by
  have hblock : ∀ j, ((aes seed (counterBlock j)).val).length = 16 :=
    fun j => (aes seed (counterBlock j)).property
  -- the firmware
  have hfirmware : writtenBytes (maskPrgLoop tc length (maskPrgInit tc seed)).1 =
      blockStream (fun j => (aes seed (counterBlock j)).val) 0 length := by
    rw [maskPrgInit_eq, writtenBytes_maskPrgLoop]
    simp only [keystream, htc seed]
  -- the host
  have hhost : Host.aesCtrStream (some encryptor) seed.val (List.replicate 16 0) length =
      .ok (blockStream (fun j => (aes seed (counterBlock j)).val) 0 length) := by
    have hzeros := zipWith_xor_replicate_zero
      (blockStream (fun j => (aes seed (counterBlock j)).val) 0 length)
    rw [length_blockStream hblock (by decide)] at hzeros
    rw [Host.aesCtrStream, hencryptor, List.length_replicate, hzeros]
  rw [hhost, ← hfirmware]
  exact ⟨rfl, rfl⟩

/-- AES-256 of the zero block under the zero key, for every key and block. -/
def zeroKeyAes : Bytes32 → Block → Block := fun _ _ =>
  ⟨[0xdc, 0x95, 0xc0, 0x78, 0xa2, 0x40, 0x89, 0x89, 0xad, 0x48, 0xa2, 0x14, 0x92, 0x84, 0x20,
    0x87], rfl⟩

/-- The encryptor in counter mode over a given cipher; it takes keys of 32 bytes. -/
def ctrEncryptorOf (aes : Bytes32 → Block → Block) : Host.CtrEncryptor := fun key _ data =>
  if h : key.length = 32 then List.zipWith (· ^^^ ·) data
    (blockStream (fun j => (aes ⟨key, h⟩ (counterBlock j)).val) 0 data.length)
  else []

/-- The first block under the zero key. -/
theorem aesCtrStream_zeroKey :
    Host.aesCtrStream (some (ctrEncryptorOf zeroKeyAes)) Bytes.zero32.val (List.replicate 16 0) 16 =
        .ok (writtenBytes (maskPrgGetBytes (.ofCipher fun seed _ ctr => zeroKeyAes seed ctr)
          (maskPrgInit (.ofCipher fun seed _ ctr => zeroKeyAes seed ctr) Bytes.zero32) 16).1) ∧
      Host.aesCtrStream (some (ctrEncryptorOf zeroKeyAes)) Bytes.zero32.val
          (List.replicate 16 0) 16 =
        .ok (writtenBytes (maskPrgSimpleExpand (.ofCipher fun seed _ ctr => zeroKeyAes seed ctr)
          (maskPrgSimpleInit (.ofCipher fun seed _ ctr => zeroKeyAes seed ctr)
            Bytes.zero32) 16).1) :=
  aesCtrStream_eq_maskPrgGetBytes (fun _ _ => rfl) (fun seed _ => dif_pos seed.property)
    Bytes.zero32 16

end

end SwiftAgg
