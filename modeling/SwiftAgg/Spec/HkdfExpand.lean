import SwiftAgg.ForStd.BlockStream
import SwiftAgg.Native.Hkdf
import SwiftAgg.Host.ShamirRecovery

/-!
# HKDF-Expand

RFC 5869 defines the blocks `T(1)` to `T(255)`, all under one key, each made from
the one before it. The firmware sets the key once, and the call that writes the
first block erases it: the blocks after it are made without the key. The host
makes a new HMAC object for each block; it counts in unbounded integers and
raises when the counter does not fit a byte.

## Key results

- `Native.hkdfSha256ExpandLoop_eq`: the blocks that the firmware's loop writes
- `Host.hkdfExpandLoop_eq` / `Host.hkdfExpandLoop_raises`: the host's loop, up to block 255
  and after
- `hkdfSha256Expand_rfc_iff`: up to which length the accepted calls follow the RFC and the host
-/

namespace SwiftAgg

/-! ## The blocks of the RFC -/

/-- `T(i)`; `T(0)` is the empty string. -/
def rfcBlock (hmac : Hmac) (prk info : Bytes) : Nat → Bytes
  | 0 => []
  | i + 1 => (hmac prk (rfcBlock hmac prk info i ++ info ++ [UInt8.ofNat (i + 1)])).val

/-- `T(1) ‖ … ‖ T(255)`, all that the RFC defines. -/
def rfcOutput (hmac : Hmac) (prk info : Bytes) : Bytes :=
  (List.range' 0 255).flatMap fun i => rfcBlock hmac prk info (i + 1)

section

variable (hmac : Hmac) (prk info : Bytes)

theorem length_rfcBlock (i : Nat) : (rfcBlock hmac prk info (i + 1)).length = 32 :=
  (hmac prk _).property

theorem length_rfcOutput : (rfcOutput hmac prk info).length = 32 * 255 :=
  length_flatMap_range' (length_rfcBlock hmac prk info) 0 255

/-! ## The loops -/

variable {length i : Nat} {okm : Bytes}

/-- While the counter fits its byte, the host appends the same stream. -/
theorem Host.hkdfExpandLoop_eq (hi : i ≤ 255) (hlength : length ≤ okm.length + 32 * (255 - i)) :
    Host.hkdfExpandLoop hmac prk info length okm (rfcBlock hmac prk info i) (i + 1) =
      .ok (okm.take length ++
        blockStream (fun j => rfcBlock hmac prk info (j + 1)) i (length - okm.length)) := by
  induction hrest : 255 - i generalizing i okm with
  | zero =>
    rw [Host.hkdfExpandLoop, if_neg (by omega), Nat.sub_eq_zero_of_le (by omega),
      blockStream_zero, List.append_nil]
  | succ rest ih =>
    have hlen := length_rfcBlock hmac prk info i
    rw [Host.hkdfExpandLoop]
    by_cases hdone : okm.length < length
    · rw [if_pos hdone, if_pos (by omega)]
      show Host.hkdfExpandLoop hmac prk info length (okm ++ rfcBlock hmac prk info (i + 1))
        (rfcBlock hmac prk info (i + 1)) (i + 1 + 1) = _
      have happend : (okm ++ rfcBlock hmac prk info (i + 1)).length = okm.length + 32 := by
        rw [List.length_append, hlen]
      rw [ih (by omega) (by omega) (by omega), happend,
        blockStream_step (length_rfcBlock hmac prk info) (by decide) i, List.take_append,
        List.append_assoc, Nat.sub_add_eq]
    · rw [if_neg hdone, Nat.sub_eq_zero_of_le (by omega), blockStream_zero, List.append_nil]

/-- Past block 255 the counter is no byte. -/
theorem Host.hkdfExpandLoop_raises (hi : i ≤ 255) (hlength : okm.length + 32 * (255 - i) < length) :
    Host.hkdfExpandLoop hmac prk info length okm (rfcBlock hmac prk info i) (i + 1) =
      .error (.valueError "bytes must be in range(0, 256)") := by
  induction hrest : 255 - i generalizing i okm with
  | zero => rw [Host.hkdfExpandLoop, if_pos (by omega), if_neg (by omega)]
  | succ rest ih =>
    have hlen := length_rfcBlock hmac prk info i
    rw [Host.hkdfExpandLoop, if_pos (by omega), if_pos (by omega)]
    show Host.hkdfExpandLoop hmac prk info length (okm ++ rfcBlock hmac prk info (i + 1))
      (rfcBlock hmac prk info (i + 1)) (i + 1 + 1) = _
    exact ih (by omega) (by rw [List.length_append, hlen]; omega) (by omega)

/-- The host expands to the same stream, up to 255 blocks. -/
theorem Host.hkdfExpand_eq (hlength : length ≤ 255 * 32) :
    Host.hkdfExpand hmac prk info length =
      .ok (blockStream (fun j => rfcBlock hmac prk info (j + 1)) 0 length) := by
  have hlen : length ≤ ([] : Bytes).length + 32 * (255 - 0) := by
    rw [List.length_nil]
    omega
  have hloop := Host.hkdfExpandLoop_eq hmac prk info (Nat.zero_le 255) hlen
  simp only [List.take_nil, List.nil_append, List.length_nil, Nat.sub_zero] at hloop
  exact hloop

/-- Beyond 255 blocks the host raises. -/
theorem Host.hkdfExpand_raises (hlength : 255 * 32 < length) :
    Host.hkdfExpand hmac prk info length =
      .error (.valueError "bytes must be in range(0, 256)") :=
  Host.hkdfExpandLoop_raises hmac prk info (Nat.zero_le 255)
    (show ([] : Bytes).length + 32 * (255 - 0) < length by rw [List.length_nil]; omega)

/-- Up to 255 blocks, the output of the RFC is the stream that the host returns. -/
theorem prefix_rfcOutput_iff {okm : Bytes} (hlength : okm.length ≤ 255 * 32) :
    okm <+: rfcOutput hmac prk info ↔
      okm = blockStream (fun j => rfcBlock hmac prk info (j + 1)) 0 okm.length := by
  rw [blockStream_eq_take (length_rfcBlock hmac prk info) (by decide) 0
    (show okm.length ≤ 32 * 255 by omega)]
  exact List.prefix_iff_eq_take

end

/-! ## The firmware's blocks -/

namespace Native

variable (lib : TcHmac) (prk info : Bytes)

/-- The context before block `i + 1`: only the first block finds the key. -/
def contextAt : Nat → TcHmacState
  | 0 => tcHmacSetKey prk
  | _ + 1 => none

/-- The blocks that the firmware makes. -/
def expandBlock : Nat → Bytes
  | 0 => []
  | i + 1 => (tcHmacFinal lib (contextAt prk i)
      (expandBlock i ++ info ++ [UInt8.ofNat (i + 1)])).1.val

theorem length_expandBlock (i : Nat) : (expandBlock lib prk info (i + 1)).length = 32 :=
  (tcHmacFinal lib _ _).1.property

/-- The first block is that of the RFC. -/
theorem expandBlock_one : expandBlock lib prk info 1 = rfcBlock lib.hmac prk info 1 := rfl

/-- Whatever a context held, it is erased by the tag. -/
theorem tcHmacFinal_erases (hmac : TcHmacState) (message : Bytes) :
    (tcHmacFinal lib hmac message).2 = none := by
  cases hmac <;> rfl

/-- From block `i` on, the firmware writes the stream of its blocks. -/
theorem hkdfSha256ExpandLoop_eq (i remaining : Nat) :
    hkdfSha256ExpandLoop lib (contextAt prk i) info remaining (expandBlock lib prk info i)
        (UInt8.ofNat (i + 1)) =
      blockStream (fun j => expandBlock lib prk info (j + 1)) i remaining := by
  induction remaining using Nat.strong_induction_on generalizing i with
  | _ remaining ih =>
    rw [hkdfSha256ExpandLoop]
    by_cases hzero : remaining = 0
    · rw [if_pos hzero, hzero, blockStream_zero]
    · have hlen := length_expandBlock lib prk info i
      have hctr : UInt8.ofNat (i + 1) + 1 = UInt8.ofNat (i + 1 + 1) :=
        (UInt8.ofNat_add (i + 1) 1).symm
      rw [if_neg hzero, blockStream_step (length_expandBlock lib prk info) (by decide)]
      dsimp only
      rw [tcHmacFinal_erases, hctr]
      show (expandBlock lib prk info (i + 1)).take _ ++ hkdfSha256ExpandLoop lib
        (contextAt prk (i + 1)) info _ (expandBlock lib prk info (i + 1)) _ = _
      rw [ih _ (by split <;> omega)]
      -- a cut at 32 bytes or more keeps the whole block
      by_cases hshort : remaining < 32
      · rw [if_pos hshort, Nat.sub_self, Nat.sub_eq_zero_of_le (by omega)]
      · rw [if_neg hshort, List.take_of_length_le (by omega), List.take_of_length_le (by omega)]

/-- What the firmware accepts, it expands to the stream of its blocks. -/
theorem hkdfSha256Expand_eq (prk : Bytes32) {okmLen : Nat}
    (haccept : okmLen ≤ hkdfSha256MaxOutputLen) :
    hkdfSha256Expand lib prk.val info okmLen =
      some (blockStream (fun j => expandBlock lib prk.val info (j + 1)) 0 okmLen) := by
  rw [hkdfSha256Expand, if_neg (not_not.mpr prk.property), if_neg (by omega),
    ← hkdfSha256ExpandLoop_eq]
  rfl

end Native

/-! ## Agreement -/

/-- An accepted call writes the output of the RFC, and the host returns the same bytes. -/
def ExpandsAsRfc (lib : Native.TcHmac) (prk : Bytes32) (info : Bytes) (okmLen : Nat) : Prop :=
  ∃ okm, Native.hkdfSha256Expand lib prk.val info okmLen = some okm ∧ okm.length = okmLen ∧
    okm <+: rfcOutput lib.hmac prk.val info ∧
    Host.hkdfExpand lib.hmac prk.val info okmLen = .ok okm

section

variable {lib : Native.TcHmac} {prk : Bytes32} {info : Bytes} {okmLen : Nat}

/-- The firmware and the RFC agree on a length if their streams of blocks do, and the length is
    not more than 255 blocks. -/
theorem expandsAsRfc_iff_blocks (haccept : okmLen ≤ Native.hkdfSha256MaxOutputLen) :
    ExpandsAsRfc lib prk info okmLen ↔ okmLen ≤ 255 * 32 ∧
      blockStream (fun j => Native.expandBlock lib prk.val info (j + 1)) 0 okmLen =
        blockStream (fun j => rfcBlock lib.hmac prk.val info (j + 1)) 0 okmLen := by
  have hlen := length_blockStream (Native.length_expandBlock lib prk.val info) (by decide) 0 okmLen
  rw [ExpandsAsRfc, Native.hkdfSha256Expand_eq lib info prk haccept]
  constructor
  · -- the output of the RFC is no longer than 255 blocks
    rintro ⟨okm, hokm, hlength, hstart, -⟩
    have hle := hstart.length_le
    rw [length_rfcOutput] at hle
    have heq := (prefix_rfcOutput_iff lib.hmac prk.val info (by omega)).mp hstart
    rw [hlength] at heq
    exact ⟨by omega, (Option.some.inj hokm).trans heq⟩
  · rintro ⟨hle, heq⟩
    refine ⟨_, rfl, hlen, ?_, ?_⟩
    · rw [prefix_rfcOutput_iff lib.hmac prk.val info (by rw [hlen]; exact hle), hlen]
      exact heq
    · rw [Host.hkdfExpand_eq lib.hmac prk.val info hle, heq]

/-- One block is made under the key. -/
theorem expandsAsRfc_of_le (hle : okmLen ≤ 32) : ExpandsAsRfc lib prk info okmLen := by
  have haccept : okmLen ≤ Native.hkdfSha256MaxOutputLen := by
    show okmLen ≤ 8192
    omega
  refine (expandsAsRfc_iff_blocks haccept).mpr ⟨by omega, ?_⟩
  rw [blockStream_step (Native.length_expandBlock lib prk.val info) (by decide),
    blockStream_step (length_rfcBlock lib.hmac prk.val info) (by decide),
    Nat.sub_eq_zero_of_le hle, blockStream_zero, blockStream_zero, Native.expandBlock_one]

/-- The second block begins with a byte other than that of the RFC, for which the key is needed. -/
def SecondBlockDiffers (lib : Native.TcHmac) (prk : Bytes32) (info : Bytes) : Prop :=
  (lib.erased ((rfcBlock lib.hmac prk.val info 1) ++ info ++ [2])).val.head? ≠
    (rfcBlock lib.hmac prk.val info 2).head?

/-- From the second block on the two streams differ. -/
theorem not_expandsAsRfc (haccept : okmLen ≤ Native.hkdfSha256MaxOutputLen) (hlong : 32 < okmLen)
    (hdiffers : SecondBlockDiffers lib prk info) : ¬ExpandsAsRfc lib prk info okmLen := by
  rw [expandsAsRfc_iff_blocks haccept]
  rintro ⟨-, heq⟩
  have hblocks := length_rfcBlock lib.hmac prk.val info
  have hown := Native.length_expandBlock lib prk.val info
  have hsecond := congrArg (fun okm => (okm.drop 32).head?) heq
  rw [blockStream_drop hown (by decide) 0 (by omega), blockStream_drop hblocks (by decide) 0
    (by omega), head?_blockStream hown (by decide) 1 (by omega), head?_blockStream hblocks
    (by decide) 1 (by omega)] at hsecond
  exact hdiffers hsecond

/-- No HMAC makes a block 256. -/
theorem not_expandsAsRfc_of_overlong (hlong : 255 * 32 < okmLen) :
    ¬ExpandsAsRfc lib prk info okmLen := by
  rintro ⟨okm, -, -, -, hhost⟩
  rw [Host.hkdfExpand_raises _ _ _ hlong] at hhost
  cases hhost

/-- Up to one block, the whole derivation of the firmware is that of the host. -/
theorem Native.hkdfSha256_eq_host (salt ikm : Bytes) (hle : okmLen ≤ 32) :
    ∃ okm, Native.hkdfSha256 lib salt ikm info okmLen = some okm ∧
      Host.hkdfExpand lib.hmac (Host.hkdfExtract lib.hmac salt ikm).val info okmLen = .ok okm := by
  obtain ⟨okm, hokm, -, -, hhost⟩ :=
    (expandsAsRfc_of_le hle : ExpandsAsRfc lib (Native.hkdfSha256Extract lib salt ikm) info okmLen)
  exact ⟨okm, hokm, hhost⟩

end

/-- Tags of zeros under every key, and of ones without a key. -/
def tellingHmac : Native.TcHmac := ⟨fun _ _ => Bytes.zero32, fun _ => ⟨List.replicate 32 1, rfl⟩⟩

theorem secondBlockDiffers_tellingHmac (prk : Bytes32) (info : Bytes) :
    SecondBlockDiffers tellingHmac prk info := fun h => by
  have hzero : (1 : UInt8) = 0 := Option.some.inj h
  exact absurd hzero (by decide)

/-- The firmware writes the output of the RFC, and the host returns the same bytes, for every HMAC
    exactly up to one block. Longer outputs fail for every HMAC whose erased context begins the
    second block with another byte than the key does, and beyond 255 blocks for every HMAC. -/
theorem hkdfSha256Expand_rfc_iff (prk : Bytes32) (info : Bytes) {okmLen : Nat}
    (haccept : okmLen ≤ Native.hkdfSha256MaxOutputLen) :
    ((∀ lib, ExpandsAsRfc lib prk info okmLen) ↔ okmLen ≤ 32) ∧
      (∀ lib, SecondBlockDiffers lib prk info →
        (ExpandsAsRfc lib prk info okmLen ↔ okmLen ≤ 32)) ∧
      (255 * 32 < okmLen → ∀ lib, ¬ExpandsAsRfc lib prk info okmLen) := by
  have hexact : ∀ lib, SecondBlockDiffers lib prk info →
      (ExpandsAsRfc lib prk info okmLen ↔ okmLen ≤ 32) := fun lib hdiffers =>
    ⟨fun h => not_lt.mp fun hlong => not_expandsAsRfc haccept hlong hdiffers h,
      expandsAsRfc_of_le⟩
  refine ⟨⟨fun hall => ?_, fun hle lib => expandsAsRfc_of_le hle⟩, hexact,
    fun hlong lib => not_expandsAsRfc_of_overlong hlong⟩
  -- an HMAC that shows whether the key was there
  exact (hexact tellingHmac (secondBlockDiffers_tellingHmac prk info)).mp (hall tellingHmac)

/-- The 42 bytes of the first test vector of the RFC need a second block. -/
theorem hkdfSha256Expand_42 :
    42 ≤ Native.hkdfSha256MaxOutputLen ∧
      ¬ExpandsAsRfc tellingHmac Bytes.zero32 [] 42 := by
  have haccept : 42 ≤ Native.hkdfSha256MaxOutputLen := by decide
  exact ⟨haccept, not_expandsAsRfc haccept (by decide)
    (secondBlockDiffers_tellingHmac Bytes.zero32 [])⟩

/-- A whole block is expanded alike. -/
theorem hkdfSha256Expand_32 :
    ((∀ lib, ExpandsAsRfc lib Bytes.zero32 [] 32) ↔ 32 ≤ 32) ∧
      (∀ lib, SecondBlockDiffers lib Bytes.zero32 [] →
        (ExpandsAsRfc lib Bytes.zero32 [] 32 ↔ 32 ≤ 32)) ∧
      (255 * 32 < 32 → ∀ lib, ¬ExpandsAsRfc lib Bytes.zero32 [] 32) :=
  hkdfSha256Expand_rfc_iff Bytes.zero32 [] (show 32 ≤ 8192 by omega)

end SwiftAgg
