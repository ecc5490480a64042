import SwiftAgg.Spec.FedAvgCorrect
import SwiftAgg.Spec.ServerInvariant

/-!
# The stored chunks of a round

In a well-formed round every stored chunk can be unpacked, so the survivors'
part of `_unmask_client_chunks` cannot fail: it gives the values of the stored
chunks, whatever is recovered of the dropped clients.

## Key results

- `unmaskClientChunks_survivor`: what unmasking gives for a client that did not drop out
- `unmaskClientChunks_of_no_dropout`: all that unmasking gives, if no client dropped out
-/

namespace SwiftAgg.Host

/-- The values of a client's stored chunks with indices below `num`. -/
def ClientState.storedValues (num n : Nat) (c : ClientState) : Dict Nat (List Int) :=
  (unmaskChunks num (fun _ => unpackChunk n) c.receivedChunks).toOption.getD .empty

theorem ClientState.unmaskChunks_eq (num : Nat) {n : Nat} {c : ClientState} (hfit : c.ChunksFit n) :
    unmaskChunks num (fun _ => unpackChunk n) c.receivedChunks = .ok (c.storedValues num n) ∧
      ∀ i, (c.storedValues num n).get? i =
        if i < num then (c.receivedChunks.get? i).map Bytes.int16sBE else none := by
  obtain ⟨chunks, hfold, hget⟩ := Dict.foldlM_insert
    (unmaskChunk num fun _ => unpackChunk n)
    (fun e => if num ≤ e.1 then none else some (Bytes.int16sBE e.2)) c.receivedChunks
    fun e he d => by
      have hlen := hfit e.1 e.2 (Dict.get?_eq_some_iff.mpr he)
      unfold unmaskChunk
      -- rows behind the last chunk are skipped
      split_ifs
      · rfl
      · simp only [unpackChunk, hlen, Nat.mul_comm n 2]
        rfl
  have hunmask : unmaskChunks num (fun _ => unpackChunk n) c.receivedChunks = .ok chunks := hfold
  have hstored : c.storedValues num n = chunks := by
    rw [ClientState.storedValues, hunmask]
    rfl
  refine ⟨hunmask.trans (by rw [hstored]), fun i => ?_⟩
  rw [hstored, hget]
  by_cases hi : i < num
  · simp only [if_pos hi, if_neg (not_le.mpr hi), Option.map_eq_bind]
    rfl
  · simp only [if_neg hi, if_pos (not_lt.mp hi), Option.bind_fun_none]

section

variable {rs : RoundState}

/-- The first loop of `_unmask_client_chunks`. -/
theorem foldlM_unmaskSurvivor_stored (hwf : rs.WellFormed) (num : Nat) : ∃ survivors,
    rs.clients.entries.foldlM (unmaskSurvivor rs num) .empty = .ok survivors ∧
      ∀ id, survivors.get? id = if id ∈ rs.dropoutClients then none
        else (rs.clients.get? id).map (ClientState.storedValues num rs.chunkSize) := by
  obtain ⟨survivors, hfold, hget⟩ := Dict.foldlM_insert (unmaskSurvivor rs num)
    (fun e => if e.1 ∈ rs.dropoutClients then none
      else some (e.2.storedValues num rs.chunkSize)) rs.clients fun e he d => by
      have hfit := hwf.chunks e.1 e.2 (Dict.get?_eq_some_iff.mpr he)
      unfold unmaskSurvivor
      split_ifs
      · rfl
      · rw [(ClientState.unmaskChunks_eq num hfit).1]
        rfl
  refine ⟨survivors, hfold, fun id => ?_⟩
  rw [hget]
  by_cases hid : id ∈ rs.dropoutClients
  · simp only [if_pos hid, Option.bind_fun_none]
  · simp only [if_neg hid, Option.map_eq_bind]
    rfl

/-- A dropped client's chunks are entered under its own id. -/
theorem unmaskDropout_frame {hmac : Hmac} {aes : AesCtr} {num d : Nat}
    {unmasked unmasked' : Dict Nat (Dict Nat (List Int))}
    (h : unmaskDropout hmac aes rs num unmasked d = .ok unmasked') {id : Nat} (hid : id ≠ d) :
    unmasked'.get? id = unmasked.get? id := by
  unfold unmaskDropout at h
  -- only the last branch enters chunks, under the id `d`
  split at h
  · cases h
    rfl
  split at h
  · cases h
    rfl
  split at h
  · obtain ⟨chunks, -, hchunks⟩ := Except.bind_eq_ok.mp h
    cases hchunks
    rw [Dict.get?_insert, if_neg hid]
  · cases h
    rfl

/-- What unmasking gives for a client that did not drop out. -/
theorem unmaskClientChunks_survivor (hwf : rs.WellFormed) {hmac : Hmac} {aes : AesCtr}
    {unmasked : Dict Nat (Dict Nat (List Int))} (h : unmaskClientChunks hmac aes rs = .ok unmasked)
    {id : Nat} (hid : id ∉ rs.dropoutClients) :
    unmasked.get? id = (rs.clients.get? id).map
      (ClientState.storedValues (rs.modelSize / rs.chunkSize) rs.chunkSize) := by
  obtain ⟨num, hnum, h⟩ := Except.bind_eq_ok.mp h
  obtain ⟨survivors, hsurvivors, hdropouts⟩ := Except.bind_eq_ok.mp h
  obtain ⟨survivors', hfold, hget⟩ := foldlM_unmaskSurvivor_stored hwf num
  obtain rfl : survivors' = survivors := Except.ok.inj (hfold.symm.trans hsurvivors)
  -- the second loop enters dropped clients only
  have hframe : unmasked.get? id = survivors'.get? id := by
    refine List.foldlM_ok_invariant (fun u => u.get? id = survivors'.get? id) ?_ rfl hdropouts
    intro d hd u u' hu hstep
    have hne : id ≠ d := fun heq => hid (heq ▸ hd)
    rw [unmaskDropout_frame hstep hne, hu]
  have hsize : rs.modelSize / rs.chunkSize = num := by
    unfold RoundState.numChunks at hnum
    split at hnum
    · cases hnum
    · exact Except.ok.inj hnum
  rw [hframe, hget, if_neg hid, hsize]

/-- All that unmasking gives, if no client dropped out. -/
theorem unmaskClientChunks_of_no_dropout (hwf : rs.WellFormed) (hmac : Hmac) (aes : AesCtr)
    (hchunk : rs.chunkSize ≠ 0) (hnone : rs.dropoutClients = []) : ∃ unmasked,
    unmaskClientChunks hmac aes rs = .ok unmasked ∧ ∀ id, unmasked.get? id =
      (rs.clients.get? id).map
        (ClientState.storedValues (rs.modelSize / rs.chunkSize) rs.chunkSize) := by
  obtain ⟨survivors, hfold, hget⟩ :=
    foldlM_unmaskSurvivor_stored hwf (rs.modelSize / rs.chunkSize)
  refine ⟨survivors, ?_, fun id => ?_⟩
  · rw [unmaskClientChunks, RoundState.numChunks, if_neg hchunk, hnone]
    exact Except.bind_eq_ok.mpr ⟨_, rfl, Except.bind_eq_ok.mpr ⟨survivors, hfold, rfl⟩⟩
  · rw [hget, hnone, if_neg List.not_mem_nil]

end

end SwiftAgg.Host
