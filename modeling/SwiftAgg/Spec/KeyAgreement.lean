import SwiftAgg.Spec.StateMachineStep
import Mathlib.Data.List.Basic

/-!
# Pairwise key agreement in the state machine

A peer encapsulates to the client's public key; the client should decapsulate
with its secret key. `state_machine_handle_mask_setup` passes the peer's
`shared_secret` with the length of a public key instead, which the adapter
refuses, so no secret is ever agreed on this way.

## Key results

- `handleMaskSetup_ciphertext_refused`: every pairwise ciphertext is refused
-/

namespace SwiftAgg.Native

/-- ML-KEM correctness: decapsulating an encapsulation to a generated key gives its secret. -/
def KemLib.Correct (lib : KemLib) : Prop :=
  ∀ v coins pk sk coins' ct ss, lib.keypair v coins = (0, pk, sk) →
    lib.enc v coins' pk = (0, ct, ss) → lib.dec v ct sk = (0, ss)

/-- The handler succeeded and the peer's slot holds the secret. -/
def StoresSecret (out : Outcome) (peerId : UInt8) (secret : Bytes32) : Prop :=
  out.status = .success ∧
    ∃ slot ∈ out.ctx.pairwiseCtx.peers, slot.peerClientId = peerId ∧ slot.sharedSecret = secret

/-- A registered peer is found. -/
private theorem findPeer_isSome {ctx : PairwiseContext} {peer : PairwiseSecret}
    (h : peer ∈ ctx.peers) : ∃ i, ctx.findPeer peer.peerClientId = some i := by
  have hsome : (ctx.findPeer peer.peerClientId).isSome := by
    rw [PairwiseContext.findPeer, List.findIdx?_isSome]
    exact List.any_eq_true.mpr ⟨peer, h, by simp⟩
  exact Option.isSome_iff_exists.mp hsome

/-- A pairwise ciphertext for a registered peer leads to the adapter's refusal, whatever it
    holds. -/
theorem handleMaskSetup_ciphertext (pf : Platform) (env : StepEnv) {ctx : ClientProtocolCtx}
    (hstate : ctx.state = .maskSetup) {peer : PairwiseSecret}
    (hpeer : peer ∈ ctx.pairwiseCtx.peers) {hdr : MsgHeader}
    (htype : hdr.messageType = MsgType.pairwiseCiphertext.code)
    (hid : hdr.clientId = peer.peerClientId) (payload : Memory) :
    handleMaskSetup pf env ctx hdr payload = { status := .errInvalidArgument, ctx, payload } := by
  obtain ⟨i, hfind⟩ := findPeer_isSome hpeer
  rw [handleMaskSetup, if_neg (not_not.mpr hstate), htype, if_neg (by decide), if_pos rfl,
    handlePairwiseCiphertext, hid, hfind]
  dsimp only
  rw [kemAdapterDecapsulate_publicKeyBytes, ite_self]

/-- A ciphertext that a registered peer produced by encapsulating to the client's public key is
    refused: the handler reports an invalid argument and stores nothing, so it never succeeds with
    the secret the peer holds. -/
theorem handleMaskSetup_ciphertext_refused (pf : Platform) (_hcorrect : pf.lib.Correct)
    (env : StepEnv) (_hvariant : env.kem.activeVariant = .mlKem768) (ctx : ClientProtocolCtx)
    (hstate : ctx.state = .maskSetup) (coins coins' : Nat) (kp : KemKeypair)
    (_hkp : kemAdapterKeypair pf.lib env.kem coins kp =
      (.success, { ctx.kemKp with sharedSecret := kp.sharedSecret }))
    (peer : PairwiseSecret) (hpeer : peer ∈ ctx.pairwiseCtx.peers) (ct : Bytes) (ss : Bytes32)
    (_henc : kemAdapterEncapsulate pf.lib env.kem coins' ctx.kemKp.publicKey
      ctx.kemKp.publicKeyLen = .ok (ct, ss))
    (hdr : MsgHeader) (htype : hdr.messageType = MsgType.pairwiseCiphertext.code)
    (hid : hdr.clientId = peer.peerClientId) (_hlen : hdr.payloadLength.toNat = ct.length)
    (payload : Memory) (_hpayload : payload.read ct.length = ct) :
    ¬StoresSecret (handleMaskSetup pf env ctx hdr payload) peer.peerClientId ss ∧
      handleMaskSetup pf env ctx hdr payload = { status := .errInvalidArgument, ctx, payload } := by
  have houtcome := handleMaskSetup_ciphertext pf env hstate hpeer htype hid payload
  refine ⟨?_, houtcome⟩
  rintro ⟨hsuccess, -⟩
  rw [houtcome] at hsuccess
  exact PqcStatus.noConfusion hsuccess

/-! ## A run of the handshake -/

/-- A KEM whose keys, ciphertexts and secrets repeat one byte of the coins. -/
def repeatKem : KemLib where
  keypair v coins := (0, List.replicate v.publicKeyBytes (UInt8.ofNat coins),
    List.replicate v.secretKeyBytes (UInt8.ofNat coins))
  enc v coins pk := (0, List.replicate v.ciphertextBytes (UInt8.ofNat coins),
    ⟨List.replicate 32 (pk.headD 0 + UInt8.ofNat coins), by simp⟩)
  dec _ ct sk := (0, ⟨List.replicate 32 (sk.headD 0 + ct.headD 0), by simp⟩)

theorem repeatKem_correct : repeatKem.Correct := by
  intro v coins pk sk coins' ct ss hkp henc
  cases hkp
  cases henc
  have hhead : ∀ (n : Nat) (b : UInt8), n ≠ 0 → (List.replicate n b).headD 0 = b := by
    intro n b hn
    obtain ⟨k, rfl⟩ := Nat.exists_eq_succ_of_ne_zero hn
    rfl
  simp only [repeatKem]
  rw [hhead _ _ (by cases v <;> decide), hhead _ _ (by cases v <;> decide),
    hhead _ _ (by cases v <;> decide)]

/-- A platform with that KEM. -/
def repeatPlatform : Platform where
  lib := repeatKem
  kdf _ _ := Bytes.zero32
  prg _ len := Bytes.zeros len
  storage := .contiguous

/-- Surroundings with ML-KEM-768 active. -/
def quietEnv : StepEnv where
  tick := 0
  transitionTick := 0
  kem := .initial
  coins := 5
  rng _ := (0, 0, 0)
  stack _ := 0

/-- Client 1 in MASK_SETUP with the keypair of coins 5 and client 2 registered. -/
def clientWithPeer : ClientProtocolCtx :=
  { stateMachineInit 1 1 0 with
    state := .maskSetup
    kemKp := (kemAdapterKeypair repeatKem .initial 5 .zero).2
    pairwiseCtx := ⟨[⟨2, Bytes.zero32, Bytes.zero32⟩], by decide⟩ }

/-- The ciphertext message of client 2, encapsulated with coins 9. -/
def peerCiphertextHeader : MsgHeader where
  protocolVersion := protocolVersion
  roundId := 1
  clientId := 2
  messageType := MsgType.pairwiseCiphertext.code
  sequenceNumber := 0
  payloadLength := 1088
  reserved := 0

private theorem read_const (b : UInt8) (len : Nat) :
    Memory.read (fun _ => b) len = List.replicate len b := by
  simp [Memory.read]

/-- The ciphertext of client 2 to client 1 is refused. -/
theorem peer_ciphertext_refused :
    handleMaskSetup repeatPlatform quietEnv clientWithPeer peerCiphertextHeader (fun _ => 9) =
      { status := .errInvalidArgument, ctx := clientWithPeer, payload := fun _ => 9 } :=
  (handleMaskSetup_ciphertext_refused repeatPlatform repeatKem_correct quietEnv rfl clientWithPeer
    rfl 5 9 .zero rfl ⟨2, Bytes.zero32, Bytes.zero32⟩ (by simp [clientWithPeer])
    (List.replicate 1088 9) ⟨List.replicate 32 14, by simp⟩ rfl peerCiphertextHeader rfl rfl
    (by rw [List.length_replicate]; rfl) (fun _ => 9)
    (by rw [List.length_replicate]; exact read_const 9 1088)).2

/-- Client 2 holds the secret that repeats `14`; client 1 does not store it. -/
theorem peer_secret_not_stored :
    repeatKem.Correct ∧
      kemAdapterEncapsulate repeatKem quietEnv.kem 9 clientWithPeer.kemKp.publicKey
        clientWithPeer.kemKp.publicKeyLen =
          .ok (List.replicate 1088 9, ⟨List.replicate 32 14, by simp⟩) ∧
      ¬StoresSecret
        (handleMaskSetup repeatPlatform quietEnv clientWithPeer peerCiphertextHeader fun _ => 9) 2
        ⟨List.replicate 32 14, by simp⟩ := by
  refine ⟨repeatKem_correct, rfl, ?_⟩
  rintro ⟨hsuccess, -⟩
  exact absurd hsuccess (by decide +kernel)

end SwiftAgg.Native
