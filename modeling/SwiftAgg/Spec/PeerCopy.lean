import SwiftAgg.ForStd.List
import SwiftAgg.Native.StateMachine

/-!
# The copy of a public key

The entry that a public key is copied to, and what the copy leaves behind. With
the fields one behind the other, it fills the secret and the seed of the entry,
all later entries, and the counters of the stream and of the sharing with bytes
of the key; earlier entries and the rest of the context stay.

## Key results

- `PairwiseContext.keySlot_lt`: a key goes to an entry of the array
- `ClientProtocolCtx.copyPubkey_peerIds`: a copy to the last entry keeps the ids
- `ClientProtocolCtx.copyPubkey_chunkCtx` / `ClientProtocolCtx.copyPubkey_shamirCtx`: the
  counters after the copy
- `ClientProtocolCtx.getElem?_copyPubkey`: the entries after the copy
-/

namespace SwiftAgg.Native

/-! ## The entry of a key -/

namespace PairwiseContext

variable {ctx : PairwiseContext} {id : UInt8} {i : Nat}

/-- The entry that a peer's public key goes to: its own, or a new one while there is room. -/
def keySlot (ctx : PairwiseContext) (peerId : UInt8) : Option Nat :=
  (ctx.findPeer peerId).or (if ctx.numPeers < maxPeersPerClient then some ctx.numPeers else none)

/-- The table with an entry for a peer. -/
def withPeer (ctx : PairwiseContext) (peerId : UInt8) : PairwiseContext :=
  if (ctx.findPeer peerId).isSome then ctx else ctx.addPeer peerId

/-- The ids of the registered peers. -/
def peerIds (ctx : PairwiseContext) : List UInt8 := ctx.peers.map PairwiseSecret.peerClientId

@[simp] theorem length_peerIds : ctx.peerIds.length = ctx.numPeers := List.length_map _

theorem findPeer_eq_none_iff : ctx.findPeer id = none ↔ id ∉ ctx.peerIds := by
  simp [findPeer, peerIds, List.findIdx?_eq_none_iff]

theorem keySlot_of_findPeer (h : ctx.findPeer id = some i) : ctx.keySlot id = some i := by
  rw [keySlot, h, Option.some_or]

theorem withPeer_of_findPeer (h : ctx.findPeer id = some i) : ctx.withPeer id = ctx := by
  rw [withPeer, h, Option.isSome_some, if_pos rfl]

theorem keySlot_of_notMem (h : id ∉ ctx.peerIds) : ctx.keySlot id =
    if ctx.numPeers < maxPeersPerClient then some ctx.numPeers else none := by
  rw [keySlot, findPeer_eq_none_iff.mpr h, Option.none_or]

theorem withPeer_of_notMem (h : id ∉ ctx.peerIds) : ctx.withPeer id = ctx.addPeer id := by
  rw [withPeer, findPeer_eq_none_iff.mpr h, Option.isSome_none, if_neg Bool.false_ne_true]

theorem addPeer_peers (hroom : ctx.numPeers < maxPeersPerClient) :
    (ctx.addPeer id).peers = ctx.peers ++ [⟨id, Bytes.zero32, Bytes.zero32⟩] := by
  have hlen : ctx.peers.length < maxPeersPerClient := hroom
  rw [addPeer, dif_pos hlen]

theorem addPeer_peerIds (hroom : ctx.numPeers < maxPeersPerClient) :
    (ctx.addPeer id).peerIds = ctx.peerIds ++ [id] := by
  rw [peerIds, addPeer_peers hroom, List.map_append]
  rfl

/-- The entry is one of those that are in use afterwards. -/
theorem keySlot_lt_withPeer (h : ctx.keySlot id = some i) : i < (ctx.withPeer id).numPeers := by
  cases hfind : ctx.findPeer id with
  | some j =>
    -- the entry is there already
    rw [keySlot_of_findPeer hfind] at h
    cases h
    rw [withPeer_of_findPeer hfind]
    exact (List.findIdx?_eq_some_iff_getElem.mp hfind).1
  | none =>
    -- a new entry, behind those in use
    have hnot := findPeer_eq_none_iff.mp hfind
    rw [keySlot_of_notMem hnot] at h
    split at h
    · rename_i hroom
      cases h
      rw [withPeer_of_notMem hnot, ← length_peerIds, ← length_peerIds, addPeer_peerIds hroom,
        List.length_append]
      exact Nat.lt_succ_self _
    · cases h

theorem withPeer_peerIds (hroom : ctx.numPeers < maxPeersPerClient) : (ctx.withPeer id).peerIds =
    if id ∈ ctx.peerIds then ctx.peerIds else ctx.peerIds ++ [id] := by
  cases hfind : ctx.findPeer id with
  | some i =>
    have hmem : id ∈ ctx.peerIds := by
      by_contra hnot
      rw [findPeer_eq_none_iff.mpr hnot] at hfind
      cases hfind
    rw [withPeer_of_findPeer hfind, if_pos hmem]
  | none =>
    have hnot := findPeer_eq_none_iff.mp hfind
    rw [withPeer_of_notMem hnot, if_neg hnot, addPeer_peerIds hroom]

/-- In a table of at most one entry, a key goes to the last one. -/
theorem numPeers_withPeer_le (h : ctx.numPeers ≤ 1) (hslot : ctx.keySlot id = some i) :
    (ctx.withPeer id).numPeers ≤ i + 1 := by
  by_cases hmem : id ∈ ctx.peerIds
  · rw [← length_peerIds, withPeer_peerIds (h.trans_lt (by decide)), if_pos hmem, length_peerIds]
    exact h.trans (Nat.le_add_left 1 i)
  · rw [keySlot_of_notMem hmem] at hslot
    split at hslot
    · rename_i hroom
      cases hslot
      rw [← length_peerIds, withPeer_peerIds hroom, if_neg hmem, List.length_append,
        length_peerIds]
      exact le_rfl
    · cases hslot

/-- While there is room, every key has an entry. -/
theorem exists_keySlot (hroom : ctx.numPeers < maxPeersPerClient) (id : UInt8) :
    ∃ i, ctx.keySlot id = some i := by
  rw [keySlot, if_pos hroom]
  cases ctx.findPeer id with
  | none => exact ⟨_, rfl⟩
  | some i => exact ⟨i, rfl⟩

/-- A key goes to an entry of the array. -/
theorem keySlot_lt (h : ctx.keySlot id = some i) : i < maxPeersPerClient :=
  (keySlot_lt_withPeer h).trans_le (ctx.withPeer id).capacity

end PairwiseContext

/-! ## Behind the entry -/

/-- The `chunk_ctx` that a public key leaves when it is copied to entry `i`. -/
def pubkeyChunkCtx (i : Nat) (payload : Memory) : ChunkContext :=
  ChunkContext.layout.load fun k => payload (chunkCtxAddress - secretAddress i + k)

/-- The `shamir_ctx` that a public key leaves when it is copied to entry `i`. -/
def pubkeyShamirCtx (i : Nat) (payload : Memory) : ShamirContext :=
  ShamirContext.layout.load fun k => payload (shamirCtxAddress - secretAddress i + k)

/-- The entry `j` that a public key leaves when it is copied to an earlier entry `i`. -/
def pubkeyPeer (i j : Nat) (payload : Memory) : PairwiseSecret :=
  PairwiseSecret.layout.load fun k => payload (peerAddress j - secretAddress i + k)

/-- The copy begins behind the ids of the peer that it is for and of the earlier ones. -/
theorem PairwiseSecret.afterCopy_peerClientId {i j : Nat} (hj : j ≤ i) (peer : PairwiseSecret)
    (payload : Memory) (len : Nat) :
    (PairwiseSecret.layout.afterCopy (peerAddress j) peer (secretAddress i) payload
      len).peerClientId = peer.peerClientId :=
  if_neg (by simp only [secretAddress, peerAddress]; omega)

/-- The peer that the copy is for gets the front of it. -/
theorem PairwiseSecret.afterCopy_own (i : Nat) (peer : PairwiseSecret) (payload : Memory) :
    PairwiseSecret.layout.afterCopy (peerAddress i) peer (secretAddress i) payload
        KemVariant.mlKem768.publicKeyBytes =
      ⟨peer.peerClientId, payload.read32, Memory.read32 fun k => payload (32 + k)⟩ := by
  -- behind the id, the copy has written every byte of the entry
  have hbehind : ∀ a k, k < 32 → 0 < a → a + 31 < 72 →
      (if secretAddress i ≤ peerAddress i + (a + k) ∧ peerAddress i + (a + k) <
          secretAddress i + KemVariant.mlKem768.publicKeyBytes then
        payload (peerAddress i + (a + k) - secretAddress i)
      else PairwiseSecret.layout.store peer (a + k)) = payload (a - 1 + k) := by
    intro a k hk ha hend
    rw [secretAddress, if_pos (by simp only [KemVariant.publicKeyBytes]; omega)]
    congr 1
    omega
  show PairwiseSecret.mk _ _ _ = _
  rw [PairwiseSecret.mk.injEq]
  refine ⟨?_, Subtype.ext ?_, Subtype.ext ?_⟩
  · exact afterCopy_peerClientId le_rfl peer payload _
  · exact List.map_congr_left fun k hk => (hbehind 1 k (List.mem_range.mp hk) (by decide)
      (by decide)).trans (by rw [Nat.sub_self, Nat.zero_add])
  · exact List.map_congr_left fun k hk => hbehind 33 k (List.mem_range.mp hk) (by decide)
      (by decide)

namespace ClientProtocolCtx

variable (storage : FieldStorage) (ctx : ClientProtocolCtx) (i : Nat) (payload : Memory)

@[simp] theorem copyPubkey_clientId :
    (ctx.copyPubkey storage i payload).clientId = ctx.clientId := by
  cases storage <;> rfl

@[simp] theorem copyPubkey_state : (ctx.copyPubkey storage i payload).state = ctx.state := by
  cases storage <;> rfl

@[simp] theorem copyPubkey_currentRoundId :
    (ctx.copyPubkey storage i payload).currentRoundId = ctx.currentRoundId := by
  cases storage <;> rfl

@[simp] theorem copyPubkey_kemKp : (ctx.copyPubkey storage i payload).kemKp = ctx.kemKp := by
  cases storage <;> rfl

@[simp] theorem copyPubkey_lastActivityTick :
    (ctx.copyPubkey storage i payload).lastActivityTick = ctx.lastActivityTick := by
  cases storage <;> rfl

variable {i}

/-- A copy to the last entry keeps the ids. -/
theorem copyPubkey_peerIds (hlast : ctx.pairwiseCtx.numPeers ≤ i + 1) :
    (ctx.copyPubkey storage i payload).pairwiseCtx.peerIds = ctx.pairwiseCtx.peerIds := by
  cases storage with
  | separate =>
    -- only the secret of one entry is written
    refine List.map_modify_of_map_eq (fun peer => ?_) i ctx.pairwiseCtx.peers
    rfl
  | contiguous =>
    apply List.ext_getElem
    · rw [PairwiseContext.peerIds, PairwiseContext.peerIds, List.length_map, List.length_map]
      exact List.length_mapIdx
    · intro j _ hj
      -- no entry in use lies behind the one that is copied to
      rw [PairwiseContext.length_peerIds] at hj
      simp only [PairwiseContext.peerIds, copyPubkey, PairwiseContext.afterCopy, List.getElem_map,
        List.getElem_mapIdx]
      exact PairwiseSecret.afterCopy_peerClientId (by omega) _ payload _

/-- The copy reaches over `chunk_ctx` and the two counters of `shamir_ctx`. -/
theorem copy_covers (hi : i < maxPeersPerClient) :
    secretAddress i ≤ chunkCtxAddress ∧ secretAddress i ≤ shamirCtxAddress ∧
      shamirCtxAddress + 2 ≤ secretAddress i + KemVariant.mlKem768.publicKeyBytes := by
  simp only [maxPeersPerClient] at hi
  simp only [secretAddress, shamirCtxAddress, chunkCtxAddress, peerAddress, maxPeersPerClient,
    KemVariant.publicKeyBytes]
  omega

/-- `chunk_ctx` after the copy. -/
theorem copyPubkey_chunkCtx (hi : i < maxPeersPerClient) :
    (ctx.copyPubkey .contiguous i payload).chunkCtx = pubkeyChunkCtx i payload := by
  obtain ⟨hstart, -, hend⟩ := copy_covers hi
  exact ChunkContext.layout.afterCopy_of_covered hstart (Nat.le_trans (by decide) hend)

/-- `shamir_ctx` after the copy. -/
theorem copyPubkey_shamirCtx (hi : i < maxPeersPerClient) :
    (ctx.copyPubkey .contiguous i payload).shamirCtx = pubkeyShamirCtx i payload := by
  obtain ⟨-, hstart, hend⟩ := copy_covers hi
  exact ShamirContext.layout.afterCopy_of_covered hstart hend

/-- The peers after the copy: the earlier ones stay, the peer itself gets the front of the key,
    and the later ones are bytes of the key. -/
theorem getElem?_copyPubkey (hi : i < maxPeersPerClient) {j : Nat} {peer : PairwiseSecret}
    (hpeer : ctx.pairwiseCtx.peers[j]? = some peer) :
    (ctx.copyPubkey .contiguous i payload).pairwiseCtx.peers[j]? = some
      (if j < i then peer
      else if j = i then
        ⟨peer.peerClientId, payload.read32, Memory.read32 fun k => payload (32 + k)⟩
      else pubkeyPeer i j payload) := by
  have hj : j < maxPeersPerClient :=
    (List.getElem?_eq_some_iff.mp hpeer).1.trans_le ctx.pairwiseCtx.capacity
  simp only [maxPeersPerClient] at hi hj
  have hmap : (ctx.copyPubkey .contiguous i payload).pairwiseCtx.peers[j]? =
      some (PairwiseSecret.layout.afterCopy (peerAddress j) peer (secretAddress i) payload
        KemVariant.mlKem768.publicKeyBytes) := by
    rw [copyPubkey, PairwiseContext.afterCopy, List.getElem?_mapIdx, hpeer]
    rfl
  rw [hmap]
  refine congrArg some ?_
  obtain hlt | rfl | hgt := Nat.lt_trichotomy j i
  · -- an earlier entry ends before the copy begins
    rw [if_pos hlt]
    refine PairwiseSecret.layout.afterCopy_of_disjoint (.inl ?_)
    simp only [PairwiseSecret.layout, peerAddress, secretAddress]
    omega
  · rw [if_neg (Nat.lt_irrefl j), if_pos rfl]
    exact PairwiseSecret.afterCopy_own j peer payload
  · -- and even the last one lies inside of it
    rw [if_neg (Nat.lt_asymm hgt), if_neg (Nat.ne_of_gt hgt)]
    refine PairwiseSecret.layout.afterCopy_of_covered ?_ ?_
    all_goals
      simp only [PairwiseSecret.layout, peerAddress, secretAddress, KemVariant.publicKeyBytes]
      omega

end ClientProtocolCtx

end SwiftAgg.Native
