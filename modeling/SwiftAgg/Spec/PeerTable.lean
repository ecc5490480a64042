import SwiftAgg.ForStd.List
import SwiftAgg.Spec.PhaseOrder

/-!
# The peer table

A public key in MASK_SETUP registers the client that its header names. The
dispatcher lets through what the header gives to client 0 or to the client
itself, so these are the only ids that keys bring into the table: other peers
never do, and the client registers itself as soon as a key comes with its own
id. Until then client 0 is alone in the table, and the copies of its keys run
over no other entry.

## Key results

- `processMessage_of_storesPubkey` / `processMessage_of_not_storesPubkey`: what a message does to
  the table, and the copies it makes
- `ServerOnly.step`: client 0 stays alone while the client does not register itself
- `ServerOnly.no_self_iff`: when a message registers the client with itself
- `peerTable_sound_iff`: in which runs the table stays sound
-/

namespace SwiftAgg.Native

/-- The derivation of the seeds keeps the ids. -/
theorem maskProtocolDerivePairwiseSeeds_peerIds {kdf : Kdf} {g : KemGlobals}
    {ctx ctx' : PairwiseContext} {localId : UInt8} {secrets : Memory} {roundId : UInt32}
    {status : PqcStatus}
    (h : maskProtocolDerivePairwiseSeeds kdf g ctx localId secrets roundId = (status, ctx')) :
    ctx'.peerIds = ctx.peerIds := by
  rw [maskProtocolDerivePairwiseSeeds] at h
  split at h
  · cases h
    rfl
  · cases h
    rw [PairwiseContext.peerIds]
    refine List.map_mapIdx_of_map_eq (fun i peer => ?_) ctx.peers
    rfl

/-! ## Public keys -/

variable {pf : Platform} {ctx : ClientProtocolCtx} {m : Message} {out : Outcome}

/-- A public key in MASK_SETUP goes to its branch. -/
theorem processMessage_of_pubkey (pf : Platform) (hm : m.Addresses ctx)
    (hstate : ctx.state = .maskSetup)
    (htype : m.hdr.messageType = MsgType.pairwisePubkey.code) :
    processMessage pf m.env ctx m.hdr m.payload m.payloadLen =
      some (handlePairwisePubkey pf (m.ticked ctx) m.hdr m.payload) := by
  have hticked : (m.ticked ctx).state = .maskSetup := hstate
  rw [processMessage_of_addresses pf hm, dispatchState, hticked]
  dsimp only
  rw [handleMaskSetup, if_neg (not_not.mpr hticked), if_pos htype]

/-- A key with an entry is copied to it. -/
theorem processMessage_of_storesPubkey (pf : Platform) (h : StoresPubkey ctx m) {i : Nat}
    (hslot : ctx.pairwiseCtx.keySlot m.hdr.clientId = some i) :
    processMessage pf m.env ctx m.hdr m.payload m.payloadLen =
      some
        { status := .success
          ctx := { m.ticked ctx with
            pairwiseCtx := ctx.pairwiseCtx.withPeer m.hdr.clientId }.copyPubkey pf.storage i
              m.payload
          payload := m.payload
          copies := [⟨i, .payload, KemVariant.mlKem768.publicKeyBytes⟩] } := by
  obtain ⟨hm, hstate, htype, hlen⟩ := h
  have hticked : (m.ticked ctx).pairwiseCtx = ctx.pairwiseCtx := rfl
  rw [processMessage_of_pubkey pf hm hstate htype, handlePairwisePubkey,
    if_neg (not_not.mpr hlen), hticked]
  -- a known peer keeps its entry, a new one is appended
  cases hfind : ctx.pairwiseCtx.findPeer m.hdr.clientId with
  | some j =>
    rw [PairwiseContext.keySlot_of_findPeer hfind] at hslot
    cases hslot
    rw [PairwiseContext.withPeer_of_findPeer hfind]
    rfl
  | none =>
    have hnot := PairwiseContext.findPeer_eq_none_iff.mp hfind
    rw [PairwiseContext.keySlot_of_notMem hnot] at hslot
    split at hslot
    · rename_i hroom
      cases hslot
      rw [PairwiseContext.withPeer_of_notMem hnot]
      exact congrArg some (if_pos hroom)
    · cases hslot

/-- The other messages keep the ids, and copy whole secrets. -/
theorem processMessage_of_not_storesPubkey (h : ¬StoresPubkey ctx m)
    (hout : processMessage pf m.env ctx m.hdr m.payload m.payloadLen = some out) :
    out.ctx.pairwiseCtx.peerIds = ctx.pairwiseCtx.peerIds ∧ ∀ c ∈ out.copies, c.len = 32 := by
  cases processMessage_step hout with
  | pubkeyStored hstores | tableFull hstores => exact absurd hstores h
  | mismatched | rejected => exact ⟨rfl, fun c hc => absurd hc List.not_mem_nil⟩
  | roundStarted | keypair | keyAgreed => exact ⟨rfl, fun c hc => absurd hc List.not_mem_nil⟩
  | completed | advanced => exact ⟨rfl, fun c hc => absurd hc List.not_mem_nil⟩
  | chunkMasked _ _ _ _ _ hctx hcopies =>
    rw [hctx, hcopies]
    exact ⟨rfl, fun c hc => absurd hc List.not_mem_nil⟩
  | confirmed hm hstate htype hseeds =>
    refine ⟨maskProtocolDerivePairwiseSeeds_peerIds hseeds, fun c hc => ?_⟩
    obtain ⟨i, -, rfl⟩ := List.mem_map.mp hc
    rfl

/-! ## Runs -/

/-- What the masks rely on: the table is within its bounds, its ids are distinct, and the client's
    own is not among them. -/
structure TableSound (ctx : ClientProtocolCtx) : Prop where
  bounded : ctx.pairwiseCtx.numPeers ≤ maxPeersPerClient
  nodup : ctx.pairwiseCtx.peerIds.Nodup
  no_self : ctx.clientId ∉ ctx.pairwiseCtx.peerIds

/-- The message is a public key that the client takes under its own id. -/
def RegistersSelf (ctx : ClientProtocolCtx) (m : Message) : Prop :=
  StoresPubkey ctx m ∧ m.hdr.clientId = ctx.clientId

instance (ctx : ClientProtocolCtx) (m : Message) : Decidable (RegistersSelf ctx m) :=
  inferInstanceAs (Decidable (_ ∧ _))

/-- Nobody but client 0 is registered, and the client is not client 0 then. -/
structure ServerOnly (ctx : ClientProtocolCtx) : Prop where
  peerIds : ctx.pairwiseCtx.peerIds = [] ∨ ctx.pairwiseCtx.peerIds = [0]
  no_self : ctx.clientId ∉ ctx.pairwiseCtx.peerIds

namespace ServerOnly

theorem init (clientId : UInt8) (roundId tick : UInt32) :
    ServerOnly (Trace.init clientId roundId tick).ctx :=
  ⟨.inl rfl, List.not_mem_nil⟩

theorem numPeers_le (h : ServerOnly ctx) : ctx.pairwiseCtx.numPeers ≤ 1 := by
  rw [← PairwiseContext.length_peerIds]
  obtain hnil | hzero := h.peerIds
  · rw [hnil]
    exact Nat.zero_le 1
  · rw [hzero]
    exact le_rfl

theorem sound (h : ServerOnly ctx) : TableSound ctx := by
  refine ⟨h.numPeers_le.trans (by decide), ?_, h.no_self⟩
  obtain hnil | hzero := h.peerIds
  · rw [hnil]
    exact List.nodup_nil
  · rw [hzero]
    exact List.nodup_singleton 0

/-- A key is taken to the last entry, which runs over no other one. -/
theorem storesPubkey (h : ServerOnly ctx) (pf : Platform) (hstores : StoresPubkey ctx m) : ∃ out,
    processMessage pf m.env ctx m.hdr m.payload m.payloadLen = some out ∧
      out.ctx.pairwiseCtx.peerIds =
        if m.hdr.clientId ∈ ctx.pairwiseCtx.peerIds then ctx.pairwiseCtx.peerIds
        else ctx.pairwiseCtx.peerIds ++ [m.hdr.clientId] := by
  have hroom : ctx.pairwiseCtx.numPeers < maxPeersPerClient :=
    h.numPeers_le.trans_lt (by decide)
  obtain ⟨i, hslot⟩ := PairwiseContext.exists_keySlot hroom m.hdr.clientId
  refine ⟨_, processMessage_of_storesPubkey pf hstores hslot, ?_⟩
  rw [ClientProtocolCtx.copyPubkey_peerIds]
  · exact PairwiseContext.withPeer_peerIds hroom
  · exact PairwiseContext.numPeers_withPeer_le h.numPeers_le hslot

/-- A message registers the client with itself, or leaves client 0 alone. -/
theorem no_self_iff (h : ServerOnly ctx)
    (hout : processMessage pf m.env ctx m.hdr m.payload m.payloadLen = some out) :
    out.ctx.clientId ∉ out.ctx.pairwiseCtx.peerIds ↔ ¬RegistersSelf ctx m := by
  obtain ⟨-, hid, -⟩ := (processMessage_step hout).move.orderly
  have hid' : out.ctx.clientId = ctx.clientId := hid
  rw [hid', RegistersSelf]
  by_cases hstores : StoresPubkey ctx m
  · obtain ⟨out', hout', hids⟩ := h.storesPubkey pf hstores
    rw [hout] at hout'
    cases hout'
    rw [hids]
    split
    · rename_i hmem
      have hne : m.hdr.clientId ≠ ctx.clientId := fun heq => h.no_self (heq ▸ hmem)
      simp [h.no_self, hne]
    · simp [h.no_self, hstores, eq_comm]
  · rw [(processMessage_of_not_storesPubkey hstores hout).1]
    simp [h.no_self, hstores]

theorem step (h : ServerOnly ctx) (hregisters : ¬RegistersSelf ctx m)
    (hout : processMessage pf m.env ctx m.hdr m.payload m.payloadLen = some out) :
    ServerOnly out.ctx := by
  refine ⟨?_, (h.no_self_iff hout).mpr hregisters⟩
  by_cases hstores : StoresPubkey ctx m
  · obtain ⟨out', hout', hids⟩ := h.storesPubkey pf hstores
    rw [hout] at hout'
    cases hout'
    rw [hids]
    split
    · exact h.peerIds
    · rename_i hmem
      -- the new entry passed the filter of the dispatcher, and is not the client itself
      have hzero : m.hdr.clientId = 0 :=
        hstores.1.2.resolve_right fun heq => hregisters ⟨hstores, heq⟩
      rw [hzero] at hmem ⊢
      obtain hnil | hserver := h.peerIds
      · rw [hnil]
        exact .inr rfl
      · exact absurd (hserver ▸ List.mem_singleton_self 0) hmem
  · rw [(processMessage_of_not_storesPubkey hstores hout).1]
    exact h.peerIds

end ServerOnly

/-- In a run the table is sound in every state reached exactly if the client never takes a public
    key under its own id. -/
theorem peerTable_sound_iff (pf : Platform) (clientId : UInt8) (roundId tick : UInt32)
    (ms : List Message) :
    (∀ pre, pre <+: ms → ∀ tr, Trace.run pf (.init clientId roundId tick) pre = some tr →
      TableSound tr.ctx) ↔
      PartialRun.Every (Trace.step pf) (fun tr m => ¬RegistersSelf tr.ctx m)
        (.init clientId roundId tick) ms := by
  have hstart := ServerOnly.init clientId roundId tick
  -- the own id stays out of the table as long as no such key is taken
  simp only [Trace.run]
  rw [PartialRun.forall_reached_iff, and_iff_right hstart.sound]
  apply PartialRun.every_congr (I := fun tr => ServerOnly tr.ctx) ?_ ?_ hstart
  · intro tr m h
    constructor
    · intro hsound hregisters
      obtain ⟨out, hout, -⟩ := h.storesPubkey pf hregisters.1
      have hstep : tr.step pf m = some ⟨out.ctx, tr.copies ++ out.copies⟩ := by
        rw [Trace.step, hout, Option.map_some]
      exact (h.no_self_iff hout).mp (hsound _ hstep).no_self hregisters
    · intro hregisters tr' hstep
      obtain ⟨out, hout, rfl⟩ := Option.map_eq_some_iff.mp hstep
      exact (h.step hregisters hout).sound
  · intro tr m tr' h hregisters hstep
    obtain ⟨out, hout, rfl⟩ := Option.map_eq_some_iff.mp hstep
    exact h.step hregisters hout

/-- A public key with the id of client 1. -/
def ownPubkey : Message :=
  { serverMessage .pairwisePubkey 1184 7 with hdr.clientId := 1 }

/-- The messages that bring client 1 into MASK_SETUP, and a public key under its own id. -/
def selfRegistration : List Message :=
  (streamStart 2 2).take 3 ++ [ownPubkey]

/-- After these messages client 1 is its own peer. -/
theorem selfRegistration_not_sound :
    ¬∀ pre, pre <+: selfRegistration → ∀ tr,
      Trace.run repeatPlatform (.init 1 1 0) pre = some tr → TableSound tr.ctx := by
  intro hsound
  have hend : (Trace.run repeatPlatform (.init 1 1 0) selfRegistration).map
      (fun tr => (tr.ctx.clientId, tr.ctx.pairwiseCtx.peerIds)) = some (1, [1]) := by
    decide +kernel
  obtain ⟨tr, hrun, htr⟩ := Option.map_eq_some_iff.mp hend
  simp only [Prod.mk.injEq] at htr
  apply (hsound selfRegistration (List.prefix_refl _) tr hrun).no_self
  rw [htr.1, htr.2]
  exact List.mem_singleton_self 1

end SwiftAgg.Native
