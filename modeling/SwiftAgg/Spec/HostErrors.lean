import SwiftAgg.Host.BaselineServer
import SwiftAgg.Spec.KeyDerivation

/-!
# Exceptions that do not come from a changed dictionary

The error of a dictionary that changed under a loop is raised by the two loops
that suspend, and by nothing else: derivations, reconstruction, unmasking,
averaging and packing raise other exceptions only.

## Key results

- `triggerRecovery_quiet`: recovery
- `unmaskClientChunks_quiet`, `computeFedavg_quiet`: aggregation
-/

namespace SwiftAgg.Host

open Except (RaisesOnly)

/-- A computation that does not report a changed dictionary. -/
abbrev Quiet {α : Type} (x : Except PyErr α) : Prop := x.RaisesOnly (· ≠ dictChanged)

theorem quiet_ite {α : Type} {c : Prop} [Decidable c] {a : α} {e : PyErr} (he : e ≠ dictChanged) :
    Quiet (if c then .ok a else .error e) := by
  split
  · exact .ok a
  · exact .error he

/-! ## Derivations -/

theorem bytesOf_quiet (ns : List Nat) : Quiet (bytesOf ns) := quiet_ite (by decide)

theorem toBytes4_quiet (n : Nat) : Quiet (toBytes4 n) := quiet_ite (by decide)

theorem toBytes2_quiet (n : Nat) : Quiet (toBytes2 n) := quiet_ite (by decide)

section

variable (hmac : Hmac)

theorem deriveWithInfo_quiet (label : String) (secret info : Bytes) :
    Quiet (deriveWithInfo hmac label secret info) := by
  rw [hkdf_eq_deriveWithInfo]
  exact .ok _

theorem derivePairwiseMaskSeed_quiet (secret : Bytes) (a b roundId : Nat) :
    Quiet (derivePairwiseMaskSeed hmac secret a b roundId) :=
  (bytesOf_quiet _).bind fun _ => (toBytes4_quiet _).bind fun _ => deriveWithInfo_quiet hmac _ _ _

theorem deriveStreamMaskSeed_quiet (secret : Bytes) (clientId roundId chunkIndex : Nat) :
    Quiet (deriveStreamMaskSeed hmac secret clientId roundId chunkIndex) :=
  (bytesOf_quiet _).bind fun _ => (toBytes4_quiet _).bind fun _ => (toBytes2_quiet _).bind fun _ =>
    deriveWithInfo_quiet hmac _ _ _

theorem deriveShamirSecret_quiet (secret : Bytes) (clientId roundId : Nat) :
    Quiet (deriveShamirSecret hmac secret clientId roundId) :=
  (bytesOf_quiet _).bind fun _ => (toBytes4_quiet _).bind fun _ => deriveWithInfo_quiet hmac _ _ _

/-! ## Recovery -/

theorem elementShare_quiet (elemIdx : Nat) (share : Int × Bytes) :
    Quiet (elementShare elemIdx share) := by
  unfold elementShare
  split
  · exact .ok _
  · exact .error (by decide)

theorem reconstructSecret_quiet (shares : List (Int × Int)) : Quiet (reconstructSecret shares) := by
  unfold reconstructSecret
  split
  · exact .error (by decide)
  split
  · exact .error (by decide)
  split
  · exact .error (by decide)
  · exact .ok _

theorem reconstructSecretBytes_quiet (shares : List (Int × Bytes)) :
    Quiet (reconstructSecretBytes shares) := by
  unfold reconstructSecretBytes
  split
  · exact .error (by decide)
  split
  · exact .error (by decide)
  · refine RaisesOnly.bind (RaisesOnly.mapM (fun elemIdx => ?_) _) fun _ => .ok _
    exact (RaisesOnly.mapM (elementShare_quiet elemIdx) _).bind reconstructSecret_quiet

theorem addShare_quiet (roundId dropoutId : Nat) (shares : List (Int × Bytes))
    (client : Nat × ClientState) : Quiet (addShare hmac roundId dropoutId shares client) := by
  unfold addShare
  split
  · exact .ok _
  split
  · split
    · exact (deriveShamirSecret_quiet hmac _ _ _).bind fun _ => .ok _
    · exact .ok _
  · exact .ok _

theorem recoverDropout_quiet (rs : RoundState) (d : Nat) : Quiet (recoverDropout hmac rs d) := by
  unfold recoverDropout
  refine RaisesOnly.bind (RaisesOnly.foldlM (addShare_quiet hmac _ _) _ _) fun shares => ?_
  split
  · refine (reconstructSecretBytes_quiet shares).bind fun secret => ?_
    split
    · exact .ok _
    · exact .error nofun
  · exact .ok _

/-- Recovery does not report a changed dictionary. -/
theorem triggerRecovery_quiet (rs : RoundState) :
    ∀ e, (triggerRecovery hmac rs).1 = some e → e ≠ dictChanged := by
  have hloop : ∀ (dropouts : List Nat) (rs : RoundState) (e : PyErr),
      (recoverDropouts hmac dropouts rs).1 = some e → e ≠ dictChanged := by
    intro dropouts
    induction dropouts with
    | nil => exact nofun
    | cons d dropouts ih =>
      intro rs e he
      rw [recoverDropouts] at he
      -- the loop ends at the first exception
      cases hstep : recoverDropout hmac rs d with
      | error e' =>
        rw [hstep] at he
        cases he
        exact recoverDropout_quiet hmac rs d e hstep
      | ok rs' =>
        rw [hstep] at he
        exact ih rs' e he
  exact hloop rs.dropoutClients rs

/-! ## Aggregation -/

theorem numChunks_quiet (rs : RoundState) : Quiet rs.numChunks := by
  unfold RoundState.numChunks
  split
  · exact .error (by decide)
  · exact .ok _

theorem unpackChunk_quiet (n : Nat) (data : Bytes) : Quiet (unpackChunk n data) :=
  quiet_ite (by decide)

theorem unmaskChunks_quiet (num : Nat) {f : Nat → Bytes → Except PyErr (List Int)}
    (hf : ∀ seqNum data, Quiet (f seqNum data)) (received : Dict Nat Bytes) :
    Quiet (unmaskChunks num f received) := by
  refine RaisesOnly.foldlM (fun unmasked chunk => ?_) _ _
  unfold unmaskChunk
  split
  · exact .ok _
  · exact (hf _ _).bind fun _ => .ok _

theorem unmaskSurvivor_quiet (rs : RoundState) (num : Nat)
    (unmasked : Dict Nat (Dict Nat (List Int))) (client : Nat × ClientState) :
    Quiet (unmaskSurvivor rs num unmasked client) := by
  unfold unmaskSurvivor
  split
  · exact .ok _
  · exact (unmaskChunks_quiet num (fun _ => unpackChunk_quiet rs.chunkSize) _).bind fun _ => .ok _

theorem unmaskDropoutChunk_quiet (n : Nat) (masks : Dict Nat (List Int)) (seqNum : Nat)
    (data : Bytes) : Quiet (unmaskDropoutChunk n masks seqNum data) := by
  refine (unpackChunk_quiet n data).bind fun values => ?_
  show Quiet (if n = 0 then _ else _)
  split
  · exact .ok _
  cases masks.get? seqNum with
  | none => exact .error (by simp [dictChanged])
  | some mask =>
    show Quiet (if mask.length < n then _ else _)
    split
    · exact .error (by decide)
    · exact .ok _

variable (aes : AesCtr)

theorem recoverDroppedClientMasks_quiet (secret : Bytes) (roundId : Nat) (peerIds : List Nat)
    (d num n : Nat) :
    Quiet (recoverDroppedClientMasks hmac aes secret roundId peerIds d num n) := by
  unfold recoverDroppedClientMasks recoverDroppedClientPairwiseSeeds
  refine RaisesOnly.bind (RaisesOnly.foldlM (fun seeds peerId => ?_) _ _) fun seeds => ?_
  · exact (derivePairwiseMaskSeed_quiet hmac _ _ _ _).bind fun _ => .ok _
  refine RaisesOnly.foldlM (fun masks chunkIdx => ?_) _ _
  refine RaisesOnly.bind (RaisesOnly.mapM (fun peerId => ?_) _) fun _ => .ok _
  split
  · exact .error nofun
  · exact (deriveStreamMaskSeed_quiet hmac _ _ _ _).bind fun _ => .ok _

theorem unmaskDropout_quiet (rs : RoundState) (num : Nat)
    (unmasked : Dict Nat (Dict Nat (List Int))) (d : Nat) :
    Quiet (unmaskDropout hmac aes rs num unmasked d) := by
  unfold unmaskDropout
  split
  · exact .ok _
  split
  · exact .ok _
  split
  · refine RaisesOnly.bind ?_ fun _ => .ok _
    exact (recoverDroppedClientMasks_quiet hmac aes _ _ _ _ _ _).bind fun masks =>
      unmaskChunks_quiet num (unmaskDropoutChunk_quiet rs.chunkSize masks) _
  · exact .ok _

/-- Unmasking does not report a changed dictionary. -/
theorem unmaskClientChunks_quiet (rs : RoundState) : Quiet (unmaskClientChunks hmac aes rs) :=
  (numChunks_quiet rs).bind fun num =>
    (RaisesOnly.foldlM (unmaskSurvivor_quiet rs num) _ _).bind fun _ =>
      RaisesOnly.foldlM (unmaskDropout_quiet hmac aes rs num) _ _

end

theorem addSeqChunk_quiet (weight : Nat) (chunks fed : Dict Nat (List Int)) (seqNum : Nat) :
    Quiet (addSeqChunk weight chunks fed seqNum) := by
  unfold addSeqChunk
  split
  · exact .ok _
  split
  · exact .error nofun
  · refine RaisesOnly.bind ?_ fun _ => .ok _
    unfold addChunk
    split
    · exact .error (by decide)
    · exact .ok _

/-- Averaging does not report a changed dictionary. -/
theorem computeFedavg_quiet (rs : RoundState) (unmasked : Dict Nat (Dict Nat (List Int))) :
    Quiet (computeFedavg rs unmasked) := by
  refine (numChunks_quiet rs).bind fun num => ?_
  refine RaisesOnly.bind (RaisesOnly.foldlM (fun fed client => ?_) _ _) fun sums => ?_
  · unfold addClient
    split
    · exact .ok _
    split
    · exact RaisesOnly.foldlM (addSeqChunk_quiet _ _) _ _
    · exact .ok _
  · split
    · exact .ok _
    · exact .ok _

/-! ## Messages -/

theorem buildHeader_quiet (messageType roundId clientId seq len : Nat) :
    Quiet (buildHeader messageType roundId clientId seq len) := quiet_ite (by decide)

end SwiftAgg.Host
