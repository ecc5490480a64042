import SwiftAgg.ForStd.Counter

/-!
# The mask generator

`mask_prg.c` (HEAD side): a key schedule, a nonce and a counter, from which
`mask_prg_get_bytes` asks the cipher library for up to 16 bytes at a time. The
library is a parameter. What a request writes is modelled as the list of its
calls of `tc_ctr_mode`, in order; they write one after the other.
-/

namespace SwiftAgg.Native

/-! ## The cipher library -/

/-- A block of the cipher. -/
abbrev Block := { b : Bytes // b.length = 16 }

/-- A zeroed block. -/
def Block.zero : Block := ⟨List.replicate 16 0, by simp⟩

/-- What `tc_ctr_mode` leaves behind: the bytes written and its two 16-byte arguments. -/
structure CtrResult where
  out : Bytes
  nonce : Block
  ctr : Block
  deriving DecidableEq

/-- The functions of the library. A call for up to 16 bytes writes the first ones of a block that
    nonce, counter and key schedule determine, and changes neither nonce nor counter. -/
structure TinyCrypt where
  Sched : Type
  setEncryptKey : (seed : Bytes32) → Sched
  ctrMode : (len : Nat) → (nonce ctr : Block) → Sched → CtrResult
  block : (nonce ctr : Block) → Sched → Block
  ctrMode_eq : ∀ {len}, len ≤ 16 → ∀ nonce ctr sched,
    ctrMode len nonce ctr sched = ⟨(block nonce ctr sched).val.take len, nonce, ctr⟩

/-- The library whose blocks are those of a given cipher, encrypting nonce and counter. -/
def TinyCrypt.ofCipher (cipher : (seed : Bytes32) → (nonce ctr : Block) → Block) : TinyCrypt where
  Sched := Bytes32
  setEncryptKey seed := seed
  ctrMode len nonce ctr seed := ⟨(cipher seed nonce ctr).val.take len, nonce, ctr⟩
  block nonce ctr seed := cipher seed nonce ctr
  ctrMode_eq _ _ _ _ := rfl

/-! ## The generator -/

/-- `mask_prg_ctx_t`. -/
structure MaskPrgCtx (tc : TinyCrypt) where
  sched : tc.Sched
  nonce : Block
  ctr : Block
  initialized : Bool

/-- `ctr_increment`. -/
def ctrIncrement (ctr : Block) : Block :=
  ⟨Bytes.incrementBE ctr.val 16, by rw [Bytes.length_incrementBE]; exact ctr.property⟩

/-- A call of `tc_ctr_mode`: its nonce and counter, and what it wrote. -/
structure CtrCall where
  nonce : Block
  ctr : Block
  written : Bytes
  deriving DecidableEq

/-- The bytes written by calls one after the other. -/
def writtenBytes (calls : List CtrCall) : Bytes := calls.flatMap CtrCall.written

section

variable (tc : TinyCrypt)

/-- `mask_prg_init`; it writes every field of the context. -/
def maskPrgInit (seed : Bytes32) : MaskPrgCtx tc where
  sched := tc.setEncryptKey seed
  nonce := .zero
  ctr := .zero
  initialized := true

/-- The loop of `mask_prg_get_bytes` and of `mask_prg_simple_expand`. -/
def maskPrgLoop (remaining : Nat) (ctx : MaskPrgCtx tc) : List CtrCall × MaskPrgCtx tc :=
  if remaining = 0 then ([], ctx)
  else
    let chunk := if 16 < remaining then 16 else remaining
    let result := tc.ctrMode chunk ctx.nonce ctx.ctr ctx.sched
    -- the counter is stepped between two blocks only, not after the last one
    let ctr := if 0 < remaining - chunk then ctrIncrement result.ctr else result.ctr
    let rest := maskPrgLoop (remaining - chunk) { ctx with nonce := result.nonce, ctr := ctr }
    (⟨ctx.nonce, ctx.ctr, result.out⟩ :: rest.1, rest.2)
termination_by remaining
decreasing_by split <;> omega

/-- `mask_prg_get_bytes`. -/
def maskPrgGetBytes (ctx : MaskPrgCtx tc) (len : Nat) : List CtrCall × MaskPrgCtx tc :=
  if !ctx.initialized then ([], ctx) else maskPrgLoop tc len ctx

/-- Requests of the given lengths, one after the other. -/
def maskPrgRequests (ctx : MaskPrgCtx tc) : List Nat → List CtrCall × MaskPrgCtx tc
  | [] => ([], ctx)
  | len :: lens =>
    let first := maskPrgGetBytes tc ctx len
    let rest := maskPrgRequests first.2 lens
    (first.1 ++ rest.1, rest.2)

/-- `mask_prg_reseed`; it does not look at `initialized`, nor set it. -/
def maskPrgReseed (ctx : MaskPrgCtx tc) (seed : Bytes32) : MaskPrgCtx tc :=
  { ctx with sched := tc.setEncryptKey seed, nonce := ctrIncrement ctx.nonce, ctr := .zero }

/-- `mask_prg_cleanup`; `zeroed` is a key schedule of zeros. -/
def maskPrgCleanup (zeroed : tc.Sched) : MaskPrgCtx tc where
  sched := zeroed
  nonce := .zero
  ctr := .zero
  initialized := false

/-! ## The simple interface -/

/-- `g_simple_ctx` and `g_simple_initialized`. -/
structure SimplePrg where
  ctx : MaskPrgCtx tc
  initialized : Bool

/-- `mask_prg_simple_init`. -/
def maskPrgSimpleInit (seed : Bytes32) : SimplePrg tc where
  ctx := maskPrgInit tc seed
  initialized := true

/-- `mask_prg_simple_expand`; it looks at its own flag, not at that of the context. -/
def maskPrgSimpleExpand (g : SimplePrg tc) (len : Nat) : List CtrCall × SimplePrg tc :=
  if !g.initialized then ([], g)
  else
    let result := maskPrgLoop tc len g.ctx
    (result.1, { g with ctx := result.2 })

end

end SwiftAgg.Native
