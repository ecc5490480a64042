import SwiftAgg.Spec.MaskCorrect
import SwiftAgg.ForStd.PairSum
import Mathlib.Data.Finset.Sort
import Mathlib.Algebra.BigOperators.Ring.Finset

/-!
# Cancellation of pairwise masks

Every client of a group adds the stream it shares with each other client with
the sign of the pair. The two ends of a pair derive the same pairwise seed, but
`mask_protocol_generate_chunk_mask` puts the client's own id into the stream
seed, so they expand different streams, and what is left of the sum are the
differences of the two streams of each pair.

## Key results

- `MaskClient.chunkMask_eq`: the mask of one client as a sum over the others
- `masksCancel_iff`: when the masks of a group cancel, for one group and for all groups
-/

namespace SwiftAgg

open Native

/-! ## Clients of a group -/

/-- A client `a` of the group `S`: all others as its peers, in any order, and the buffer of the
    secrets it shares with them. -/
structure MaskClient (S : Finset UInt8) (K : UInt8 → UInt8 → Bytes32) (a : UInt8) where
  ctx : PairwiseContext
  secrets : Memory
  ids_nodup : (ctx.peers.map PairwiseSecret.peerClientId).Nodup
  mem_ids : ∀ b, b ∈ ctx.peers.map PairwiseSecret.peerClientId ↔ b ∈ S.erase a
  secrets_eq : ∀ i peer, ctx.peers[i]? = some peer →
    kemSecret secrets i = K a peer.peerClientId

section

variable (kdf : Kdf) (prg : MaskPrg) (g : KemGlobals) (round : UInt32) (chunk : UInt16)
  (size : Nat)

/-- `mask_protocol_derive_pairwise_seeds` followed by `mask_protocol_generate_chunk_mask`. -/
def MaskClient.chunkMask {S : Finset UInt8} {K : UInt8 → UInt8 → Bytes32} {a : UInt8}
    (client : MaskClient S K a) : Except PqcStatus (List Int) :=
  let (_, ctx) := maskProtocolDerivePairwiseSeeds kdf g client.ctx a client.secrets round
  maskProtocolGenerateChunkMask kdf prg g ctx a round chunk size

/-- The masks of all clients of the group exist and add up to zero modulo 3329 at every position. -/
def MasksCancel {S : Finset UInt8} {K : UInt8 → UInt8 → Bytes32}
    (clients : ∀ a : S, MaskClient S K a) : Prop :=
  ∃ masks : S → List Int,
    (∀ a, (clients a).chunkMask kdf prg g round chunk size = .ok (masks a) ∧
      (masks a).length = size) ∧
    ∀ j < size, (∑ a, (masks a).getD j 0) % 3329 = 0

/-- The seed of the pair `a`, `b`. -/
def pairSeed (secret : Bytes32) (a b : UInt8) : Bytes32 :=
  kemAdapterDerivePairwiseMaskSeed kdf g secret (min a b) (max a b) round

/-- The word at position `j` of the stream that the end `a` of the pair `a`, `b` expands. -/
def endWord (secret : Bytes32) (a b : UInt8) (j : Nat) : Int :=
  keystreamWord (peerKeystream kdf prg g a round chunk size (pairSeed kdf g round secret a b)) j

/-- What the loop of `mask_protocol_derive_pairwise_seeds` stores for a peer. -/
theorem derivePairwiseSeed_maskSeed (localId : UInt8) (secret : Bytes32) (peer : PairwiseSecret) :
    (derivePairwiseSeed kdf g localId secret round peer).maskSeed =
      pairSeed kdf g round secret localId peer.peerClientId := by
  unfold derivePairwiseSeed pairSeed
  by_cases h : peer.peerClientId < localId
  · simp only [h, ↓reduceIte, min_eq_right h.le, max_eq_left h.le]
  · simp only [h, ↓reduceIte, min_eq_left (not_lt.mp h), max_eq_right (not_lt.mp h)]

theorem derivePairwiseSeed_peerClientId (localId : UInt8) (secret : Bytes32)
    (peer : PairwiseSecret) :
    (derivePairwiseSeed kdf g localId secret round peer).peerClientId = peer.peerClientId := rfl

/-- The derivation loop replaces the entries one by one; on an empty table it does nothing. -/
theorem maskProtocolDerivePairwiseSeeds_peers (ctx : PairwiseContext) (localId : UInt8)
    (secrets : Memory) :
    (maskProtocolDerivePairwiseSeeds kdf g ctx localId secrets round).2.peers =
      ctx.peers.mapIdx fun i peer =>
        derivePairwiseSeed kdf g localId (kemSecret secrets i) round peer := by
  unfold maskProtocolDerivePairwiseSeeds
  split
  · rename_i hnone
    rw [List.length_eq_zero_iff.mp hnone, List.mapIdx_nil]
  · rfl

variable {S : Finset UInt8} {K : UInt8 → UInt8 → Bytes32} {a : UInt8}

/-- The peers' keystreams as the mask loop sees them after the seeds were derived. -/
private theorem MaskClient.keystreams_eq (client : MaskClient S K a) :
    ((maskProtocolDerivePairwiseSeeds kdf g client.ctx a client.secrets round).2.peers.map
      fun peer => (peer.peerClientId,
        peerKeystream kdf prg g a round chunk size peer.maskSeed)) =
      (client.ctx.peers.map PairwiseSecret.peerClientId).map fun b =>
        (b, peerKeystream kdf prg g a round chunk size (pairSeed kdf g round (K a b) a b)) := by
  rw [maskProtocolDerivePairwiseSeeds_peers]
  apply List.ext_getElem?
  intro i
  simp only [List.getElem?_map, List.getElem?_mapIdx, Option.map_map]
  cases hpeer : client.ctx.peers[i]? with
  | none => rfl
  | some peer =>
    simp only [Option.map_some, Function.comp_apply, derivePairwiseSeed_peerClientId,
      derivePairwiseSeed_maskSeed, client.secrets_eq i peer hpeer]

/-- The peers and keystreams of a client once the seeds are derived. -/
def MaskClient.keystreams (client : MaskClient S K a) : List (UInt8 × Bytes) :=
  (client.ctx.peers.map PairwiseSecret.peerClientId).map fun b =>
    (b, peerKeystream kdf prg g a round chunk size (pairSeed kdf g round (K a b) a b))

private theorem MaskClient.chunkMask_eq_combine (hsize : size ≤ 512) (client : MaskClient S K a) :
    client.chunkMask kdf prg g round chunk size =
      .ok (combinePeerMasks a size (client.keystreams kdf prg g round chunk size)) := by
  rw [keystreams, ← client.keystreams_eq]
  exact maskProtocolGenerateChunkMask_of_le kdf prg g _ a round chunk hsize

private theorem MaskClient.length_keystream (client : MaskClient S K a) :
    ∀ p ∈ client.keystreams kdf prg g round chunk size, p.2.length = size * 2 := by
  simp only [keystreams, List.mem_map]
  rintro p ⟨b, -, rfl⟩
  exact (prg _ _).property

/-- The mask of a client: at every position the signed words towards the other clients. -/
theorem MaskClient.chunkMask_eq (hsize : size ≤ 512) (client : MaskClient S K a) :
    ∃ mask, client.chunkMask kdf prg g round chunk size = .ok mask ∧ mask.length = size ∧
      ∀ j < size, ((mask.getD j 0 : Int) : Gf) = ∑ b ∈ S.erase a,
        (maskSign a b : Gf) * endWord kdf prg g round chunk size (K a b) a b j := by
  have hids : (client.ctx.peers.map PairwiseSecret.peerClientId).toFinset = S.erase a := by
    ext b
    rw [List.mem_toFinset, client.mem_ids]
  have hlen := client.length_keystream kdf prg g round chunk size
  refine ⟨_, client.chunkMask_eq_combine kdf prg g round chunk size hsize,
    combinePeerMasks_length hlen, ?_⟩
  intro j hj
  rw [(combinePeerMasks_cast a hlen hj).2, keystreams, List.map_map, ← hids,
    List.sum_toFinset _ client.ids_nodup]
  rfl

/-! ## The group -/

theorem maskSign_pair {a b : UInt8} (h : a < b) (x y : Int) :
    (maskSign a b : Gf) * x + (maskSign b a : Gf) * y = ((x - y : Int) : Gf) := by
  simp only [maskSign, h, not_lt_of_gt h, ↓reduceIte]
  push_cast
  ring

/-- What is left of the masks of a group: the differences of the two streams of each pair. -/
private theorem masksCancel_iff_of_group (hsize : size ≤ 512) (hK : ∀ a b, K a b = K b a)
    (clients : ∀ a : S, MaskClient S K a) :
    MasksCancel kdf prg g round chunk size clients ↔ ∀ j < size,
      (3329 : Int) ∣ ∑ a ∈ S, ∑ b ∈ S with a < b,
        (endWord kdf prg g round chunk size (K a b) a b j -
          endWord kdf prg g round chunk size (K a b) b a j) := by
  choose masks hok hlen hword using
    fun a : S => (clients a).chunkMask_eq kdf prg g round chunk size hsize
  -- the double sum over ordered pairs, folded to one term for each pair `a < b`
  have hsum : ∀ j < size, (((∑ a, (masks a).getD j 0 : Int)) : Gf) =
      ((∑ a ∈ S, ∑ b ∈ S with a < b,
        (endWord kdf prg g round chunk size (K a b) a b j -
          endWord kdf prg g round chunk size (K a b) b a j) : Int) : Gf) := by
    intro j hj
    rw [Int.cast_sum, Finset.sum_congr rfl fun a _ => hword a j hj,
      Finset.sum_coe_sort S fun a => ∑ b ∈ S.erase a,
        (maskSign a b : Gf) * endWord kdf prg g round chunk size (K a b) a b j,
      Finset.sum_erase_eq_sum_lt, Int.cast_sum]
    apply Finset.sum_congr rfl fun a _ => ?_
    rw [Int.cast_sum]
    apply Finset.sum_congr rfl fun b hb => ?_
    rw [hK b a, maskSign_pair (Finset.mem_filter.mp hb).2]
  constructor
  · rintro ⟨masks', hmasks', hzero⟩ j hj
    have heq : masks' = masks := funext fun a => Except.ok.inj ((hmasks' a).1.symm.trans (hok a))
    rw [← Gf.cast_eq_zero_iff, ← hsum j hj, ← heq, Gf.cast_eq_zero_iff]
    exact Int.dvd_of_emod_eq_zero (hzero j hj)
  · intro hdvd
    refine ⟨masks, fun a => ⟨hok a, hlen a⟩, fun j hj => Int.emod_eq_zero_of_dvd ?_⟩
    rw [← Gf.cast_eq_zero_iff, hsum j hj, Gf.cast_eq_zero_iff]
    exact hdvd j hj

/-! ## Groups exist -/

/-- The buffer that holds the 32-byte strings `f 0`, `f 1`, … one after the other. -/
def secretsBuffer (f : Nat → Bytes32) : Memory := fun n => (f (n / 32)).val.getD (n % 32) 0

theorem kemSecret_secretsBuffer (f : Nat → Bytes32) (i : Nat) :
    kemSecret (secretsBuffer f) i = f i := by
  have hlen := (f i).property
  apply Subtype.ext
  apply List.ext_getElem
  · rw [hlen]
    exact Memory.length_read _ _
  · intro k h₁ h₂
    have hk : k < 32 := by omega
    have hdiv : (i * 32 + k) / 32 = i := by omega
    have hmod : k % 32 = k := Nat.mod_eq_of_lt hk
    simp [kemSecret, Memory.read32, Memory.read, secretsBuffer, hdiv, hmod, h₂]

/-- In a group of at most 17 every client fits its peer table. -/
def MaskClient.ofGroup (S : Finset UInt8) (K : UInt8 → UInt8 → Bytes32) (a : UInt8)
    (hcard : (S.erase a).card ≤ 16) : MaskClient S K a where
  ctx :=
    ⟨((S.erase a).sort (· ≤ ·)).map fun b => ⟨b, Bytes.zero32, Bytes.zero32⟩, by
      simpa [maxPeersPerClient] using hcard⟩
  secrets := secretsBuffer fun i => K a (((S.erase a).sort (· ≤ ·)).getD i 0)
  ids_nodup := by
    simp only [List.map_map, Function.comp_def, List.map_id']
    exact Finset.sort_nodup _ _
  mem_ids b := by
    simp only [List.map_map, Function.comp_def, List.map_id', Finset.mem_sort]
  secrets_eq i peer hpeer := by
    rw [kemSecret_secretsBuffer]
    simp only [List.getElem?_map, Option.map_eq_some_iff] at hpeer
    obtain ⟨b, hb, rfl⟩ := hpeer
    rw [List.getD_eq_getElem?_getD, hb, Option.getD_some]

/-! ## Cancellation -/

/-- The masks of a group cancel exactly when the differences of the two streams of its pairs add up
    to zero; the masks of all groups cancel exactly when the two ends of every pair expand streams
    that agree modulo 3329. -/
theorem masksCancel_iff (hsize : size ≤ 512) :
    (∀ (S : Finset UInt8) (K : UInt8 → UInt8 → Bytes32) (clients : ∀ a : S, MaskClient S K a),
      (∀ a b, K a b = K b a) →
        (MasksCancel kdf prg g round chunk size clients ↔ ∀ j < size,
          (3329 : Int) ∣ ∑ a ∈ S, ∑ b ∈ S with a < b,
            (endWord kdf prg g round chunk size (K a b) a b j -
              endWord kdf prg g round chunk size (K a b) b a j))) ∧
    ((∀ (S : Finset UInt8) (K : UInt8 → UInt8 → Bytes32) (clients : ∀ a : S, MaskClient S K a),
      (∀ a b, K a b = K b a) → MasksCancel kdf prg g round chunk size clients) ↔
        ∀ (secret : Bytes32) (a b : UInt8), a < b → ∀ j < size,
          (3329 : Int) ∣ endWord kdf prg g round chunk size secret a b j -
            endWord kdf prg g round chunk size secret b a j) := by
  have hgroup := fun (S : Finset UInt8) (K : UInt8 → UInt8 → Bytes32)
      (clients : ∀ a : S, MaskClient S K a) (hK : ∀ a b, K a b = K b a) =>
    masksCancel_iff_of_group kdf prg g round chunk size hsize hK clients
  refine ⟨hgroup, ?_, ?_⟩
  · intro hall secret a b hab j hj
    -- the group of the two ends alone
    have hcard : ∀ c, (({a, b} : Finset UInt8).erase c).card ≤ 16 := fun c =>
      ((Finset.card_erase_le).trans Finset.card_le_two).trans (by decide)
    have hpair := (hgroup {a, b} (fun _ _ => secret) (fun c => .ofGroup _ _ c (hcard c))
      fun _ _ => rfl).mp (hall _ _ _ fun _ _ => rfl) j hj
    have ha : ({a, b} : Finset UInt8).filter (a < ·) = {b} := by
      ext c
      simp only [Finset.mem_filter, Finset.mem_insert, Finset.mem_singleton]
      constructor
      · rintro ⟨rfl | rfl, h⟩
        · exact absurd h (lt_irrefl _)
        · rfl
      · rintro rfl
        exact ⟨.inr rfl, hab⟩
    have hb : ({a, b} : Finset UInt8).filter (b < ·) = ∅ := by
      ext c
      simp only [Finset.mem_filter, Finset.mem_insert, Finset.mem_singleton, Finset.notMem_empty,
        iff_false, not_and]
      rintro (rfl | rfl)
      · exact not_lt_of_gt hab
      · exact lt_irrefl _
    rwa [Finset.sum_pair hab.ne, ha, hb, Finset.sum_singleton, Finset.sum_empty, add_zero] at hpair
  · intro hends S K clients hK
    rw [hgroup S K clients hK]
    intro j hj
    apply Finset.dvd_sum fun a _ => Finset.dvd_sum fun b hb => ?_
    exact hends (K a b) a b (Finset.mem_filter.mp hb).2 j hj

end

/-- With a generator that ignores its seed the masks of clients 1 and 2 cancel. -/
theorem masksCancel_of_constant_prg :
    MasksCancel (fun _ _ => Bytes.zero32) (fun _ len => ⟨List.replicate len 7, by simp⟩)
      .initial 1 0 2 fun a : ({1, 2} : Finset UInt8) =>
        MaskClient.ofGroup {1, 2} (fun _ _ => Bytes.zero32) a
          ((Finset.card_erase_le.trans Finset.card_le_two).trans (by decide)) := by
  refine (masksCancel_iff (fun _ _ => Bytes.zero32) (fun _ len => ⟨List.replicate len 7, by simp⟩)
    .initial 1 0 2 (by decide)).2.mpr (fun _ _ _ _ _ _ => ?_) _ _ _ fun _ _ => rfl
  simp [endWord, peerKeystream]

/-- A derivation that echoes its info string from the end. -/
def echoKdf : Kdf := fun ikm info =>
  let data := info.reverse ++ ikm
  ⟨(data ++ Bytes.zero32.val).take 32, Bytes.length_take_zero32 data⟩

/-- A generator that repeats its seed. -/
def echoPrg : MaskPrg := fun seed len =>
  ⟨(List.range len).map fun i => seed.val.getD (i % 32) 0, by simp⟩

/-- Clients 1 and 2 in round 1, chunk 0: at position 1 client 1 adds the word `257` of its stream
    and client 2 subtracts the word `258` of its own. -/
theorem masks_of_clients_one_two_remain :
    ¬MasksCancel echoKdf echoPrg .initial 1 0 2 fun a : ({1, 2} : Finset UInt8) =>
      MaskClient.ofGroup {1, 2} (fun _ _ => Bytes.zero32) a
        ((Finset.card_erase_le.trans Finset.card_le_two).trans (by decide)) := by
  rintro ⟨masks, hok, hzero⟩
  have h₁ := (hok ⟨1, by decide⟩).1
  have h₂ := (hok ⟨2, by decide⟩).1
  have hmask₁ : masks ⟨1, by decide⟩ = [0, 257] :=
    Except.ok.inj (h₁.symm.trans (by decide +kernel))
  have hmask₂ : masks ⟨2, by decide⟩ = [0, 3071] :=
    Except.ok.inj (h₂.symm.trans (by decide +kernel))
  have hsum := hzero 1 (by decide)
  have huniv : (Finset.univ : Finset ({1, 2} : Finset UInt8)) =
      {⟨1, by decide⟩, ⟨2, by decide⟩} := by decide
  rw [huniv, Finset.sum_pair (by decide), hmask₁, hmask₂] at hsum
  exact absurd hsum (by decide)

end SwiftAgg
