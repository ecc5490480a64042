import SwiftAgg.Native.StateMachine
import SwiftAgg.Spec.ShareCleanup
import SwiftAgg.Spec.ShamirShareCorrect
import Mathlib.Data.List.GetD

/-!
# The buffers of the completion handler

`state_machine_handle_completion` works with byte buffers. `shamir_share_bytes`
writes the share indices to `share_x` as 16-bit words, so the handler reads
every other byte as an index. The secret that is shared is a buffer of 64 bytes
of which the derivation fills 32.

## Key results

- `shamirShareBytes_shareX`: the bytes of `share_x` after the call
- `shareIds_never_sound`: they are never the indices alone
- `completionSecret_words`: where the words of the secret come from
- `completionSecret_never_shareable`: the derivation never fixes them all
-/

namespace SwiftAgg.Native

/-! ## Share indices -/

/-- A byte buffer that is read as words is what the words are stored in. -/
theorem Memory.asBytes_asWords (mem : Memory) : mem.asWords.asBytes = mem := by
  funext k
  have hword := Bytes.be16_word16 (mem (2 * (k / 2) + 1)) (mem (2 * (k / 2)))
  simp only [Bytes.be16, List.cons.injEq, and_true] at hword
  unfold Words.asBytes Memory.asWords
  split
  · rw [hword.2]
    congr 1
    omega
  · rw [hword.1]
    congr 1
    omega

section

variable {rng : Rng} (secret : Memory) {n t : Nat} (shareX : Memory) (shareY : Nat → Memory)
  (workspace : Words)

/-- With a generator that does not fail the call succeeds, and the words of the indices are in
    `share_x`. -/
theorem shamirShareBytes_shareX (hrng : rng.NeverFails) (ht : 1 ≤ t) (htn : t ≤ n)
    (hn : n ≤ 255) :
    (shamirShareBytes rng secret shamirSecretBytes n t shareX shareY workspace).1 = 0 ∧
      (shamirShareBytes rng secret shamirSecretBytes n t shareX shareY workspace).2.1 = fun k =>
        if k < 2 * n then if k % 2 = 0 then UInt8.ofNat (k / 2 + 1) else 0 else shareX k := by
  let bufs : ShareBuffers := ⟨shareX.asWords, fun i => (shareY i).asWords, workspace⟩
  have hret : (shamirShare rng secret.asWords shamirSecretElements n t bufs).1 = 0 :=
    (shamirShare_eq hrng secret.asWords ht htn hn (le_refl 32) bufs).1
  rw [shamirShareBytes, if_neg (not_not.mpr rfl), if_neg (not_refused ht htn hn)]
  refine ⟨hret, ?_⟩
  show Words.asBytes (shamirShare rng secret.asWords shamirSecretElements n t bufs).2.shareX = _
  rw [(shamirShare_of_success rng secret.asWords bufs hret).1]
  funext k
  have hbyte := congrFun shareX.asBytes_asWords k
  unfold Words.asBytes at hbyte ⊢
  dsimp only
  by_cases hk : k < 2 * n
  · -- the high byte of an index is zero
    have hhigh : (k / 2 + 1) / 2 ^ 8 = 0 := by omega
    rw [if_pos hk, if_pos (show k / 2 < n by omega), hhigh]
    rfl
  · rw [if_neg hk, if_neg (show ¬k / 2 < n by omega)]
    exact hbyte

/-- Byte `i` of `share_x` is the index `i + 1` for each of the `n` shares, and no byte behind them
    is written, whatever is there. -/
def ShareIdsSound (rng : Rng) (secret : Memory) (n t : Nat) (shareX : Memory)
    (shareY : Nat → Memory) (workspace : Words) : Prop :=
  (∀ i < n, ((shamirShareBytes rng secret shamirSecretBytes n t shareX shareY workspace).2.1
    i).toNat = i + 1) ∧
  ∀ k, n ≤ k → ∀ shareX' : Memory,
    (shamirShareBytes rng secret shamirSecretBytes n t shareX' shareY workspace).2.1 k = shareX' k

/-- The call succeeds, and the index bytes are never right: twice as many bytes are written as there
    are shares. -/
theorem shareIds_never_sound (hrng : rng.NeverFails) (ht : 1 ≤ t) (htn : t ≤ n) (hn : n ≤ 16) :
    (shamirShareBytes rng secret shamirSecretBytes n t shareX shareY workspace).1 = 0 ∧
      ¬ShareIdsSound rng secret n t shareX shareY workspace := by
  have hcall := fun shareX =>
    shamirShareBytes_shareX secret shareX shareY workspace hrng ht htn (by omega)
  refine ⟨(hcall shareX).1, ?_⟩
  rintro ⟨-, hunwritten⟩
  -- byte `n` is written, so it does not keep both 100 and 101
  have h₁ := hunwritten n (le_refl n) fun _ => 100
  have h₂ := hunwritten n (le_refl n) fun _ => 101
  rw [(hcall _).2] at h₁ h₂
  simp only [if_pos (show n < 2 * n by omega)] at h₁ h₂
  rw [h₁] at h₂
  exact absurd h₂ (by decide)

end

/-- Two shares of zero bytes. -/
theorem shareIds_never_sound_two :
    (shamirShareBytes (fun _ => (0, 0, 0)) (fun _ => 0) shamirSecretBytes 2 2 (fun _ => 0)
      (fun _ _ => 0) fun _ => 0).1 = 0 ∧
      ¬ShareIdsSound (fun _ => (0, 0, 0)) (fun _ => 0) 2 2 (fun _ => 0) (fun _ _ => 0)
        fun _ => 0 :=
  shareIds_never_sound _ _ _ _ (fun _ => rfl) (by decide) (by decide) (by decide)

/-- The index bytes of two shares are 1 and 0. -/
theorem twoShareIds_not_sound :
    ¬ShareIdsSound (fun _ => (0, 0, 0)) (fun _ => 0) 2 2 (fun _ => 0) (fun _ _ => 0)
      fun _ => 0 := by
  rintro ⟨hids, -⟩
  have hsecond := hids 1 (by decide)
  rw [(shamirShareBytes_shareX _ _ _ _ (fun _ => rfl) (by decide) (by decide) (by decide)).2]
    at hsecond
  exact absurd hsecond (by decide)

/-! ## The shared secret -/

/-- The buffer `shamir_secret` of the handler once the derivation has returned, on a stack with
    these bytes. -/
def completionSecret (kdf : Kdf) (g : KemGlobals) (sharedSecret : Bytes32) (clientId : UInt8)
    (roundId : UInt32) (stack : Memory) : Memory :=
  stack.write (kemAdapterDeriveShamirSecret kdf g sharedSecret clientId roundId).val

/-- It is what the handler shares. -/
theorem handleCompletion_shares (pf : Platform) (env : StepEnv) {ctx : ClientProtocolCtx}
    {hdr : MsgHeader} (payload : Memory) (hstate : ctx.state = .maskedUpdateStream)
    (htype : hdr.messageType = MsgType.clientComplete.code) :
    let r := shamirShareBytes env.rng
      (completionSecret pf.kdf env.kem ctx.kemKp.sharedSecret ctx.clientId ctx.currentRoundId
        env.stack)
      shamirSecretBytes ctx.shamirCtx.numShares.toNat ctx.shamirCtx.threshold.toNat env.stack
      (fun _ => env.stack) env.stack.asWords
    handleCompletion pf env ctx hdr payload =
      if r.1 ≠ 0 then { status := .errShamirEncodeFailed, ctx, payload }
      else
        { transitionOutcome env ctx .clientCompletion payload with
          sent := (List.range ctx.shamirCtx.numShares.toNat).map
            (shareMessage ctx r.2.1 r.2.2) } := by
  rw [handleCompletion, if_neg (not_not.mpr hstate), if_neg (not_not.mpr htype)]
  rfl

/-- All 64 bytes are the same on every stack, and all 32 words are elements of the field. -/
def Shareable (buffer : (stack : Memory) → Memory) : Prop :=
  (∀ stack stack', ∀ k < 64, buffer stack k = buffer stack' k) ∧
    ∀ stack, ∀ i < 32, (buffer stack).asWords i < 3329

section

variable (kdf : Kdf) (g : KemGlobals) (sharedSecret : Bytes32) (clientId : UInt8)
  (roundId : UInt32) (stack : Memory)

/-- The bytes of the derivation come first; behind them is what the stack held. -/
theorem completionSecret_apply (k : Nat) :
    completionSecret kdf g sharedSecret clientId roundId stack k =
      if k < 32 then
        (kemAdapterDeriveShamirSecret kdf g sharedSecret clientId roundId).val.getD k 0
      else stack k := by
  have hlen := (kemAdapterDeriveShamirSecret kdf g sharedSecret clientId roundId).property
  unfold completionSecret Memory.write
  split
  · rw [List.getD_eq_getElem _ _ (by omega), List.getD_eq_getElem _ _ (by omega)]
  · rw [List.getD_eq_default _ _ (by omega)]

/-- The derivation fixes 16 of the 32 words. -/
theorem completionSecret_words (i : Nat) :
    (completionSecret kdf g sharedSecret clientId roundId stack).asWords i =
      if i < 16 then
        (Memory.ofBytes (kemAdapterDeriveShamirSecret kdf g sharedSecret clientId
          roundId).val).asWords i
      else stack.asWords i := by
  simp only [Memory.asWords, completionSecret_apply]
  split
  · rw [if_pos (by omega), if_pos (by omega)]
    rfl
  · rw [if_neg (by omega), if_neg (by omega)]

end

/-- Whatever is derived, the words behind it are not fixed. -/
theorem completionSecret_never_shareable (hmac : Hmac) (g : KemGlobals) (sharedSecret : Bytes32)
    (clientId : UInt8) (roundId : UInt32) :
    ¬Shareable (completionSecret (hkdf hmac) g sharedSecret clientId roundId) := by
  rintro ⟨hfixed, -⟩
  have hbyte := hfixed (fun _ => 0) (fun _ => 1) 32 (by decide)
  rw [completionSecret_apply, completionSecret_apply, if_neg (by decide), if_neg (by decide)]
    at hbyte
  exact absurd hbyte (by decide)

/-- On a stack of bytes `0xFF` the last word is 65535. -/
theorem zeroSecret_not_shareable :
    ¬Shareable (completionSecret (hkdf fun _ _ => Bytes.zero32) .initial Bytes.zero32 1 1) := by
  rintro ⟨-, hwords⟩
  have hlast := hwords (fun _ => 0xFF) 31 (by decide)
  rw [completionSecret_words, if_neg (by decide)] at hlast
  exact absurd hlast (by decide)

end SwiftAgg.Native
