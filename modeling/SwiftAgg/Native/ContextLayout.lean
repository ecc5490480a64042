import SwiftAgg.ForStd.Layout
import SwiftAgg.Native.Types

/-!
# The context in memory

`pairwise_ctx`, `chunk_ctx` and `shamir_ctx` lie one behind the other in
`client_protocol_ctx_t`. With a four-byte `int`, natural alignment and the low
byte first, a `pairwise_secret_t` has 72 bytes and the two fields behind the
16 of them begin at 1156 and 1180; addresses here count from `pairwise_ctx`.
The longest copy of the state machine into a peer ends at 2269, inside of
`shamir_ctx`, so it reaches nothing but these three fields.
-/

namespace SwiftAgg.Native

/-- The part of a buffer that was put together from three strings. -/
theorem Memory.read_ofBytes_append (front mid back : Bytes) :
    (Memory.read (fun k => Memory.ofBytes (front ++ mid ++ back) (front.length + k)) mid.length) =
      mid := by
  apply List.ext_getElem
  · simp
  · intro i hi hi'
    simp only [Memory.read, Memory.ofBytes, List.getElem_map, List.getElem_range]
    rw [List.append_assoc, List.getD_eq_getElem?_getD,
      List.getElem?_append_right (Nat.le_add_right _ _), Nat.add_sub_cancel_left,
      List.getElem?_append_left hi', List.getElem?_eq_getElem hi', Option.getD_some]

/-! ## The structures -/

/-- The first 65 bytes of a `pairwise_secret_t`; behind them are three bytes of padding and
    `is_initiator`. -/
def PairwiseSecret.bytes (peer : PairwiseSecret) : Bytes :=
  [peer.peerClientId] ++ peer.sharedSecret.val ++ peer.maskSeed.val

/-- `pairwise_secret_t`. -/
def PairwiseSecret.layout : Layout PairwiseSecret where
  size := 72
  store peer := Memory.ofBytes peer.bytes
  load m :=
    { peerClientId := m 0
      sharedSecret := Memory.read32 fun k => m (1 + k)
      maskSeed := Memory.read32 fun k => m (33 + k) }
  load_congr m m' h := by
    have hread : ∀ a, a + 32 ≤ 72 → (Memory.read32 fun k => m (a + k)) =
        Memory.read32 fun k => m' (a + k) := by
      intro a ha
      refine Subtype.ext (List.map_congr_left fun k hk => h (a + k) ?_)
      have hlt := List.mem_range.mp hk
      omega
    rw [h 0 (by decide), hread 1 (by decide), hread 33 (by decide)]
  load_store peer := by
    obtain ⟨id, ⟨secret, hsecret⟩, ⟨seed, hseed⟩⟩ := peer
    -- each of the two strings is read from where it was put
    have hfirst := Memory.read_ofBytes_append [id] secret seed
    have hsecond := Memory.read_ofBytes_append ([id] ++ secret) seed []
    rw [hsecret] at hfirst
    rw [hseed, List.append_nil, List.length_append, hsecret] at hsecond
    congr 1
    · exact Subtype.ext hfirst
    · exact Subtype.ext hsecond

/-- The 24 bytes of a `chunk_context_t`, padding included. -/
def ChunkContext.bytes (chunk : ChunkContext) : Bytes :=
  Bytes.le32 chunk.roundId.toNat ++ [chunk.clientId, 0] ++ Bytes.le16 chunk.chunkIndex.toNat ++
    Bytes.le16 chunk.totalChunks.toNat ++ Bytes.le16 chunk.chunkSize.toNat ++
    Bytes.le32 chunk.modelTotalBytes.toNat ++ Bytes.le32 chunk.bytesProcessed.toNat ++
    [chunk.isFinalChunk, 0, 0, 0]

/-- A `uint16_t` at an address. -/
def Memory.u16 (m : Memory) (a : Nat) : UInt16 := UInt16.ofNat (Bytes.word16 (m a) (m (a + 1)))

/-- A `uint32_t` at an address. -/
def Memory.u32 (m : Memory) (a : Nat) : UInt32 :=
  UInt32.ofNat (Bytes.word16 (m a) (m (a + 1)) + 2 ^ 16 * Bytes.word16 (m (a + 2)) (m (a + 3)))

/-- `chunk_context_t`. -/
def ChunkContext.layout : Layout ChunkContext where
  size := 24
  store chunk := Memory.ofBytes chunk.bytes
  load m :=
    { roundId := Memory.u32 m 0
      clientId := m 4
      chunkIndex := Memory.u16 m 6
      totalChunks := Memory.u16 m 8
      chunkSize := Memory.u16 m 10
      modelTotalBytes := Memory.u32 m 12
      bytesProcessed := Memory.u32 m 16
      isFinalChunk := m 20 }
  load_congr m m' h := by
    have h16 : ∀ a, a + 2 ≤ 24 → Memory.u16 m a = Memory.u16 m' a := fun a ha => by
      rw [Memory.u16, Memory.u16, h a (by omega), h (a + 1) (by omega)]
    have h32 : ∀ a, a + 4 ≤ 24 → Memory.u32 m a = Memory.u32 m' a := fun a ha => by
      rw [Memory.u32, Memory.u32, h a (by omega), h (a + 1) (by omega), h (a + 2) (by omega),
        h (a + 3) (by omega)]
    rw [h32 0 (by decide), h 4 (by decide), h16 6 (by decide), h16 8 (by decide),
      h16 10 (by decide), h32 12 (by decide), h32 16 (by decide), h 20 (by decide)]
  load_store chunk := by
    have h16 : ∀ n : UInt16, UInt16.ofNat (Bytes.word16 (UInt8.ofNat n.toNat)
        (UInt8.ofNat (n.toNat / 2 ^ 8))) = n := fun n => by
      rw [Bytes.word16_ofNat n.toNat_lt, UInt16.ofNat_toNat]
    have h32 : ∀ n : UInt32, UInt32.ofNat (Bytes.word16 (UInt8.ofNat n.toNat)
        (UInt8.ofNat (n.toNat / 2 ^ 8)) + 2 ^ 16 * Bytes.word16 (UInt8.ofNat (n.toNat / 2 ^ 16))
        (UInt8.ofNat (n.toNat / 2 ^ 24))) = n := fun n => by
      rw [Nat.add_comm, Bytes.word32_ofNat n.toNat_lt, UInt32.ofNat_toNat]
    obtain ⟨roundId, clientId, chunkIndex, totalChunks, chunkSize, modelTotalBytes,
      bytesProcessed, isFinalChunk⟩ := chunk
    show ChunkContext.mk _ _ _ _ _ _ _ _ = _
    -- the two fields of one byte are what they were by definition
    congr 1
    · exact h32 roundId
    · exact h16 chunkIndex
    · exact h16 totalChunks
    · exact h16 chunkSize
    · exact h32 modelTotalBytes
    · exact h32 bytesProcessed

/-- `threshold` and `num_shares`, with which a `shamir_context_t` begins. -/
def ShamirContext.layout : Layout ShamirContext where
  size := 2
  store shamir := Memory.ofBytes [shamir.threshold, shamir.numShares]
  load m := { threshold := m 0, numShares := m 1 }
  load_congr m m' h := by rw [h 0 (by decide), h 1 (by decide)]
  load_store _ := rfl

/-! ## Addresses -/

/-- The address of `peers[i]`. -/
def peerAddress (i : Nat) : Nat := 4 + 72 * i

/-- The address of `peers[i].shared_secret`. -/
def secretAddress (i : Nat) : Nat := peerAddress i + 1

/-- The address of `chunk_ctx`. -/
def chunkCtxAddress : Nat := peerAddress maxPeersPerClient

/-- The address of `shamir_ctx`. -/
def shamirCtxAddress : Nat := chunkCtxAddress + 24

/-- How the fields of a context are stored: one behind the other, as a compiler lays the structure
    out, or each on its own, where a copy that is longer than its field is cut off. -/
inductive FieldStorage where
  | contiguous
  | separate
  deriving Repr, DecidableEq

end SwiftAgg.Native
