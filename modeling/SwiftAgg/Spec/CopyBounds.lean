import SwiftAgg.Spec.PeerTable
import SwiftAgg.Spec.ModelStream

/-!
# Bounds of the handlers

Two lengths of the handlers come from messages: a public key is copied whole
into the 32 bytes of a peer's `shared_secret`, and the number of shares that a
completion asks for was computed by ROUND_INIT, as one less than the number of
clients in `uint8_t`, or lies under a public key that was copied over it.

## Key results

- `processMessage_of_asksShares`: the number of shares that is passed on
- `run_numShares`: that number goes back to the message that set it last
- `handlers_inBounds_iff`: in which runs both stay within their buffers
-/

namespace SwiftAgg.Native

/-- The length of `share_x` and `share_y_buf`. -/
def maxShares : Nat := 16

variable {pf : Platform} {ctx : ClientProtocolCtx} {tr tr' : Trace} {m : Message}

/-! ## Copies -/

/-- Every copy into a peer's `shared_secret` fits. -/
def CopiesFit (pf : Platform) (ctx : ClientProtocolCtx) (m : Message) : Prop :=
  ∀ out, processMessage pf m.env ctx m.hdr m.payload m.payloadLen = some out →
    ∀ c ∈ out.copies, c.len ≤ 32

/-- The public keys are the copies that do not. -/
theorem copiesFit_iff (pf : Platform) (hroom : ctx.pairwiseCtx.numPeers < maxPeersPerClient)
    (m : Message) : CopiesFit pf ctx m ↔ ¬StoresPubkey ctx m := by
  constructor
  · intro hfit hstores
    obtain ⟨i, hslot⟩ := PairwiseContext.exists_keySlot hroom m.hdr.clientId
    have hle : 1184 ≤ 32 :=
      hfit _ (processMessage_of_storesPubkey pf hstores hslot) _ (List.mem_singleton_self _)
    omega
  · intro hstores out hout c hc
    exact ((processMessage_of_not_storesPubkey hstores hout).2 c hc).le

/-! ## Shares -/

/-- The message makes the client share its secret. -/
def AsksShares (ctx : ClientProtocolCtx) (m : Message) : Prop :=
  m.Addresses ctx ∧ ctx.state = .maskedUpdateStream ∧
    m.hdr.messageType = MsgType.clientComplete.code

instance (ctx : ClientProtocolCtx) (m : Message) : Decidable (AsksShares ctx m) :=
  inferInstanceAs (Decidable (_ ∧ _))

/-- The `num_shares` that is passed to `shamir_share_bytes` for the message. -/
def sharesAsked (ctx : ClientProtocolCtx) (m : Message) : Option Nat :=
  if AsksShares ctx m then some ctx.shamirCtx.numShares.toNat else none

/-- The number of shares that is passed fits the buffers of the handler. -/
def SharesFit (ctx : ClientProtocolCtx) (m : Message) : Prop :=
  ∀ n, sharesAsked ctx m = some n → n ≤ maxShares

/-- What the handler makes of the call with this number of shares. -/
theorem processMessage_of_asksShares (pf : Platform) {n : Nat} (h : sharesAsked ctx m = some n) :
    ∃ shamirSecret,
      processMessage pf m.env ctx m.hdr m.payload m.payloadLen =
        some (
          let (ret, shareX, shareY) := shamirShareBytes m.env.rng shamirSecret shamirSecretBytes n
            ctx.shamirCtx.threshold.toNat m.env.stack (fun _ => m.env.stack) m.env.stack.asWords
          if ret ≠ 0 then
            { status := .errShamirEncodeFailed, ctx := m.ticked ctx, payload := m.payload }
          else
            { status := .success
              ctx := m.moved ctx .clientCompletion
              payload := m.payload
              sent := (List.range n).map (shareMessage (m.ticked ctx) shareX shareY) }) := by
  rw [sharesAsked] at h
  split at h
  · rename_i hasks
    obtain ⟨hm, hstate, htype⟩ := hasks
    cases h
    have hticked : (m.ticked ctx).state = .maskedUpdateStream := hstate
    have hchunk : m.hdr.messageType ≠ MsgType.maskChunk.code := by
      rw [htype]
      decide
    -- the secret is what the derivation left on the stack
    refine ⟨m.env.stack.write (kemAdapterDeriveShamirSecret pf.kdf m.env.kem ctx.kemKp.sharedSecret
      ctx.clientId ctx.currentRoundId).val, ?_⟩
    rw [processMessage_of_addresses pf hm, dispatchState, hticked]
    dsimp only
    rw [if_neg hchunk, if_pos htype, handleCompletion, if_neg (not_not.mpr hticked),
      if_neg (not_not.mpr htype), transitionOutcome, stateMachineTransition, hticked]
    rfl
  · cases h

instance (m : Message) (ctx : ClientProtocolCtx) : Decidable (m.StartsRound ctx) :=
  inferInstanceAs (Decidable (_ ∧ _))

/-- What a message sets `num_shares` with: the number of clients that ROUND_INIT announces, or the
    byte of a public key that comes to lie on it. -/
inductive SharesSource where
  | announced (clients : UInt8)
  | overwritten (byte : UInt8)
  deriving Repr, DecidableEq

/-- The `num_shares` that this sets. -/
def SharesSource.numShares : SharesSource → UInt8
  | announced clients => clients - 1
  | overwritten byte => byte

/-- The announced clients, or the byte, are few enough for the buffers; for no clients the number
    of shares wraps around. -/
def SharesSource.Fits : SharesSource → Prop
  | announced clients => 1 ≤ clients.toNat ∧ clients.toNat ≤ 17
  | overwritten byte => byte.toNat ≤ 16

theorem SharesSource.fits_iff (source : SharesSource) :
    source.Fits ↔ source.numShares.toNat ≤ maxShares := by
  cases source with
  | announced clients =>
    have hlt := clients.toNat_lt
    rw [numShares, UInt8.toNat_sub, Fits, maxShares]
    simp only [UInt8.reduceToNat]
    omega
  | overwritten byte => exact Iff.rfl

/-- What the message sets `num_shares` with, if it does. -/
def sharesSource (pf : Platform) (ctx : ClientProtocolCtx) (m : Message) : Option SharesSource :=
  if m.StartsRound ctx then some (.announced (m.payload 0))
  else if pf.storage = .contiguous ∧ StoresPubkey ctx m then
    (ctx.pairwiseCtx.keySlot m.hdr.clientId).map fun i =>
      .overwritten (pubkeyShamirCtx i m.payload).numShares
  else none

/-- What `num_shares` was set with in a run, one after the other. -/
def sharesSources (pf : Platform) (start : Trace) (ms : List Message) : List SharesSource :=
  PartialRun.observe (Trace.step pf) (fun tr m => sharesSource pf tr.ctx m) start ms

/-- An accepted ROUND_INIT fixes the number of shares. -/
theorem Trace.step_announces (h : m.StartsRound tr.ctx) (hstep : Trace.step pf tr m = some tr') :
    tr'.ctx.shamirCtx.numShares = m.payload 0 - 1 := by
  obtain ⟨hm, hstate, htype⟩ := h
  have hticked : (m.ticked tr.ctx).state = .roundInit := hstate
  have hround : m.hdr.roundId = (m.ticked tr.ctx).currentRoundId := hm.1
  obtain ⟨out, hout, rfl⟩ := Option.map_eq_some_iff.mp hstep
  rw [processMessage_of_addresses pf hm, dispatchState, hticked] at hout
  dsimp only at hout
  rw [handleRoundInit, if_neg (not_not.mpr htype), if_neg (not_not.mpr hround)] at hout
  dsimp only at hout
  -- a chunk size of zero has no outcome
  split at hout
  · cases hout
  · rw [transitionOutcome, stateMachineTransition] at hout
    simp only [hticked] at hout
    cases hout
    rfl

/-- A message that sets the number of shares sets it with its source. -/
theorem Trace.step_sharesSource {source : SharesSource}
    (h : sharesSource pf tr.ctx m = some source) (hstep : Trace.step pf tr m = some tr') :
    tr'.ctx.shamirCtx.numShares = source.numShares := by
  rw [sharesSource] at h
  split at h
  · rename_i hstarts
    cases h
    exact Trace.step_announces hstarts hstep
  split at h
  · rename_i hkey
    obtain ⟨hstorage, hstores⟩ := hkey
    obtain ⟨i, hslot, rfl⟩ := Option.map_eq_some_iff.mp h
    rw [Trace.step, processMessage_of_storesPubkey pf hstores hslot, hstorage] at hstep
    cases hstep
    exact congrArg _ (ClientProtocolCtx.copyPubkey_shamirCtx _ _ (PairwiseContext.keySlot_lt hslot))
  · cases h

/-- The other messages keep it. -/
theorem Trace.step_not_sharesSource (h : sharesSource pf tr.ctx m = none)
    (hstep : Trace.step pf tr m = some tr') :
    tr'.ctx.shamirCtx.numShares = tr.ctx.shamirCtx.numShares := by
  rw [sharesSource] at h
  split at h
  · cases h
  rename_i hstarts
  obtain ⟨status, hmove⟩ := Trace.step_move hstep
  generalize hp : tr'.ctx.progress = p at hmove
  have hshamir : tr'.ctx.shamirCtx = p.shamirCtx := hp ▸ rfl
  rw [hshamir]
  cases hmove with
  | stays | advances | masks => rfl
  | starts hm hold htype => exact absurd ⟨hm, hold, htype⟩ hstarts
  | overwrites hstorage hstores hslot =>
    rw [if_pos ⟨hstorage, hstores⟩, hslot] at h
    cases h

/-- After a run the number of shares is what the last source set; before, it is 0. -/
theorem run_numShares {clientId : UInt8} {roundId tick : UInt32} {ms : List Message}
    (hrun : Trace.run pf (.init clientId roundId tick) ms = some tr) :
    tr.ctx.shamirCtx.numShares =
      (sharesSources pf (.init clientId roundId tick) ms).getLast?.elim 0
        SharesSource.numShares :=
  PartialRun.run_eq_last (fun _ _ _ _ hsource hstep => Trace.step_sharesSource hsource hstep)
    (fun _ _ _ hnone hstep => Trace.step_not_sharesSource hnone hstep) hrun

/-- In a run the number of shares that is passed fits exactly if what set it last fits. -/
theorem run_sharesFit_iff {clientId : UInt8} {roundId tick : UInt32} {ms : List Message}
    (hrun : Trace.run pf (.init clientId roundId tick) ms = some tr) (m : Message) :
    SharesFit tr.ctx m ↔ (AsksShares tr.ctx m →
      ∀ source ∈ (sharesSources pf (.init clientId roundId tick) ms).getLast?, source.Fits) := by
  rw [SharesFit, sharesAsked]
  by_cases hasks : AsksShares tr.ctx m
  · rw [if_pos hasks, run_numShares hrun]
    cases (sharesSources pf (.init clientId roundId tick) ms).getLast? with
    | none => simp [maxShares]
    | some source => simp [hasks, source.fits_iff]
  · simp [hasks]

/-! ## Runs -/

/-- In a run every copy into a peer's `shared_secret` fits exactly if no public key of a peer is
    ever taken; and the number of shares that is passed always fits exactly if, whenever a
    completion asks for shares, the message that set `num_shares` last was a ROUND_INIT that
    announced 1 to 17 clients, or a public key with at most 16 in the byte that came to lie on it. -/
theorem handlers_inBounds_iff (pf : Platform) (clientId : UInt8) (roundId tick : UInt32)
    (ms : List Message) :
    (PartialRun.Every (Trace.step pf) (fun tr m => CopiesFit pf tr.ctx m)
        (.init clientId roundId tick) ms ↔
      PartialRun.Every (Trace.step pf) (fun tr m => ¬StoresPubkey tr.ctx m)
        (.init clientId roundId tick) ms) ∧
    (PartialRun.Every (Trace.step pf) (fun tr m => SharesFit tr.ctx m)
        (.init clientId roundId tick) ms ↔
      ∀ pre m, pre ++ [m] <+: ms → ∀ tr, Trace.run pf (.init clientId roundId tick) pre = some tr →
        AsksShares tr.ctx m →
          ∀ source ∈ (sharesSources pf (.init clientId roundId tick) pre).getLast?,
            source.Fits) := by
  constructor
  · -- until a key is taken the table is empty, so there is room for it
    apply PartialRun.every_congr (I := fun tr => tr.ctx.pairwiseCtx.peerIds = []) ?_ ?_ rfl
    · intro tr m hnil
      apply copiesFit_iff pf
      rw [← PairwiseContext.length_peerIds, hnil]
      decide
    · intro tr m tr' hnil hstores hstep
      obtain ⟨out, hout, rfl⟩ := Option.map_eq_some_iff.mp hstep
      exact (processMessage_of_not_storesPubkey hstores hout).1.trans hnil
  · rw [PartialRun.every_iff_prefixes]
    refine forall₃_congr fun pre m hpre => forall₂_congr fun tr hrun => ?_
    exact run_sharesFit_iff hrun m

/-- ROUND_INIT for 20 clients. -/
def crowdedStart : Message :=
  { roundStart 2 2 with payload := .ofBytes [20, 1, 2, 0, 2, 0, 0, 0] }

/-- The messages that lead to the stream, and CLIENT_COMPLETE. -/
def crowdedRun : List Message :=
  streamFrom crowdedStart ++ [serverMessage .clientComplete 0 0]

/-- This run copies a public key into a secret and asks for 19 shares. -/
theorem crowdedRun_outOfBounds :
    ¬PartialRun.Every (Trace.step repeatPlatform)
        (fun tr m => CopiesFit repeatPlatform tr.ctx m) (.init 1 1 0) crowdedRun ∧
      ¬PartialRun.Every (Trace.step repeatPlatform) (fun tr m => SharesFit tr.ctx m)
        (.init 1 1 0) crowdedRun := by
  simp only [PartialRun.every_iff_prefixes]
  constructor
  -- the fourth message is a public key
  · intro hfit
    have hend : (Trace.run repeatPlatform (.init 1 1 0) (crowdedRun.take 3)).map
        (fun tr => decide (StoresPubkey tr.ctx (repeatingPubkey crowdedStart) ∧
          tr.ctx.pairwiseCtx.numPeers < maxPeersPerClient)) = some true := by
      decide +kernel
    obtain ⟨tr, hrun, hkey⟩ := Option.map_eq_some_iff.mp hend
    obtain ⟨hstores, hroom⟩ := of_decide_eq_true hkey
    have hcopies := hfit (crowdedRun.take 3) (repeatingPubkey crowdedStart)
      ⟨crowdedRun.drop 4, rfl⟩ tr hrun
    rw [copiesFit_iff repeatPlatform hroom] at hcopies
    exact hcopies hstores
  -- the last message asks for 19 shares
  · intro hfit
    have hend : (Trace.run repeatPlatform (.init 1 1 0) (crowdedRun.take 6)).map
        (fun tr => sharesAsked tr.ctx (serverMessage .clientComplete 0 0)) = some (some 19) := by
      decide +kernel
    obtain ⟨tr, hrun, hasked⟩ := Option.map_eq_some_iff.mp hend
    have hle : 19 ≤ 16 := hfit (crowdedRun.take 6) (serverMessage .clientComplete 0 0)
      ⟨[], rfl⟩ tr hrun 19 hasked
    omega

end SwiftAgg.Native
