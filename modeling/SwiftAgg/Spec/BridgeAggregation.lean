import SwiftAgg.Host.ProtocolBridge
import SwiftAgg.Spec.DeliveredAverage

/-!
# Aggregation in the protocol bridge

`_finalize_aggregation` adds the chunks up as they are stored, without a table of
unmasked chunks in between. A dropped client that holds a secret makes it raise;
otherwise it gives the sum of the surviving clients' deliveries, divided by a
total that counts the dropped clients, too. Without dropouts this is what
`_unmask_client_chunks` and `_compute_fedavg` give.

## Key results

- `finalizeAggregation_eq`: what is returned, and when the function raises
- `finalizeAggregation_eq_aggregate`: the two servers agree on a round without dropouts
-/

namespace SwiftAgg.Host.ProtocolBridge

variable {rs : RoundState} {num n : Nat}

/-! ## The loops -/

/-- A stored chunk is added like the chunk of the values it encodes. -/
theorem addReceivedChunk_eq {c : ClientState} (hfit : c.ChunksFit n) (weight : Nat)
    (fed : Dict Nat (List Int)) {chunk : Nat × Bytes} (hchunk : chunk ∈ c.receivedChunks.entries) :
    addReceivedChunk num n weight fed chunk =
      addSeqChunk weight (c.storedValues num n) fed chunk.1 := by
  have hget : c.receivedChunks.get? chunk.1 = some chunk.2 := Dict.get?_eq_some_iff.mpr hchunk
  have hstored := (ClientState.unmaskChunks_eq num hfit).2 chunk.1
  rw [hget, Option.map_some] at hstored
  unfold addReceivedChunk addSeqChunk
  by_cases hnum : num ≤ chunk.1
  · rw [if_pos hnum, hstored, if_neg (not_lt.mpr hnum)]
  · have hlen : chunk.2.length = 2 * n := by
      rw [hfit chunk.1 chunk.2 hget, Nat.mul_comm]
    rw [if_neg hnum, hstored, if_pos (not_le.mp hnum), unpackChunk, if_pos hlen]
    rfl

theorem chunkValue_storedValues {c : ClientState} (hfit : c.ChunksFit n) {i : Nat} (hi : i < num)
    (j : Nat) : chunkValue (c.storedValues num n) i j = c.delivery.value i j := by
  rw [chunkValue, (ClientState.unmaskChunks_eq num hfit).2, if_pos hi]
  rfl

/-- The chunks of one client, in the order in which they arrived. -/
theorem foldlM_addReceivedChunk {fed : Dict Nat (List Int)} {r : Nat → Nat → Gf}
    (h : Rows num n fed r) (weight : Nat) {c : ClientState} (hfit : c.ChunksFit n) :
    ∃ fed', c.receivedChunks.entries.foldlM (addReceivedChunk num n weight) fed = .ok fed' ∧
      fed'.keys = fed.keys ∧
      Rows num n fed' fun i j => r i j + weight * (c.delivery.value i j : Int) := by
  have hstored := (ClientState.unmaskChunks_eq num hfit).2
  -- the loop is the one over the values, over the indices of the round only
  have hloop : c.receivedChunks.entries.foldlM (addReceivedChunk num n weight) fed =
      (c.receivedChunks.keys.filter fun i => i < num).foldlM
        (addSeqChunk weight (c.storedValues num n)) fed := by
    rw [List.foldlM_congr_mem fun chunk hchunk fed => addReceivedChunk_eq hfit weight fed hchunk,
      List.foldlM_filter, Dict.keys, List.foldlM_map]
    refine List.foldlM_congr_mem fun chunk _ fed => ?_
    by_cases hnum : chunk.1 < num
    · simp only [hnum, decide_true, ↓reduceIte]
    · simp only [hnum, decide_false, Bool.false_eq_true, ↓reduceIte, addSeqChunk, hstored]
      rfl
  have hfits : Fits num n (c.storedValues num n) := by
    intro i hi values hvalues
    rw [hstored, if_pos hi] at hvalues
    obtain ⟨data, hdata, rfl⟩ := Option.map_eq_some_iff.mp hvalues
    rw [Bytes.length_int16sBE, hfit i data hdata, Nat.mul_div_cancel _ Nat.two_pos]
  obtain ⟨fed', hfold, hkeys, hrows⟩ := h.foldlM_addSeqChunk weight hfits
    (c.receivedChunks.nodup.filter _) fun i hi => of_decide_eq_true (List.mem_filter.mp hi).2
  refine ⟨fed', hloop.trans hfold, hkeys, hrows.congr fun i hi j _ => ?_⟩
  split
  · rw [chunkValue_storedValues hfit hi]
  · rename_i hmem
    -- a chunk that is not stored counts as zeros
    have hnone : c.receivedChunks.get? i = none := by
      rw [Dict.get?_eq_none_iff]
      exact fun hkey => hmem (List.mem_filter.mpr ⟨hkey, decide_eq_true hi⟩)
    have hvalue : c.delivery.value i j = 0 := by
      show (((c.receivedChunks.get? i).map Bytes.int16sBE).getD []).getD j 0 = 0
      rw [hnone]
      rfl
    rw [hvalue, Int.cast_zero, mul_zero, add_zero]

/-- What a client adds to position `j` of chunk `i`: nothing if it has dropped out. -/
def survivorValue (rs : RoundState) (client : Nat × ClientState) (i j : Nat) : Gf :=
  if client.1 ∈ rs.dropoutClients then 0
  else client.2.delivery.weight * (client.2.delivery.value i j : Int)

/-- The first loop. -/
theorem foldlM_addSurvivor {l : List (Nat × ClientState)}
    (hl : ∀ e ∈ l, e.2.ChunksFit rs.chunkSize) {fed : Dict Nat (List Int)} {r : Nat → Nat → Gf}
    (h : Rows num rs.chunkSize fed r) :
    ∃ fed', l.foldlM (addSurvivor rs num) fed = .ok fed' ∧ fed'.keys = fed.keys ∧
      Rows num rs.chunkSize fed' fun i j =>
        r i j + (l.map fun e => survivorValue rs e i j).sum := by
  induction l generalizing fed r with
  | nil => exact ⟨fed, rfl, rfl, h.congr fun i _ j _ => by simp⟩
  | cons e l ih =>
    have hl' := fun e' he' => hl e' (List.mem_cons_of_mem e he')
    -- one client: its rows and the value it adds
    have hclient : ∃ fed₁, addSurvivor rs num fed e = .ok fed₁ ∧ fed₁.keys = fed.keys ∧
        Rows num rs.chunkSize fed₁ fun i j => r i j + survivorValue rs e i j := by
      unfold addSurvivor survivorValue
      by_cases hdrop : e.1 ∈ rs.dropoutClients
      · simp only [if_pos hdrop, add_zero]
        exact ⟨fed, rfl, rfl, h⟩
      · simp only [if_neg hdrop]
        cases hdone : e.2.completed with
        | false =>
          refine ⟨fed, rfl, rfl, h.congr fun i _ j _ => ?_⟩
          simp [Delivery.weight, ClientState.delivery, hdone]
        | true =>
          have hweight : e.2.delivery.weight = e.2.weight := if_pos hdone
          rw [hweight]
          exact foldlM_addReceivedChunk h e.2.weight (hl e (by simp))
    obtain ⟨fed₁, hstep, hkeys₁, hrows₁⟩ := hclient
    obtain ⟨fed', hfold, hkeys, hrows⟩ := ih hl' hrows₁
    refine ⟨fed', ?_, hkeys.trans hkeys₁, hrows.congr fun i _ j _ => ?_⟩
    · rw [List.foldlM_cons, hstep]
      exact hfold
    · rw [List.map_cons, List.sum_cons, add_assoc]

/-- A client that holds a secret. -/
def holdsSecret (rs : RoundState) (id : Nat) : Bool :=
  (rs.clients.get? id).any fun c => truthy c.sharedSecret

/-- The exception of a name that `_trigger_recovery` imports for itself. -/
def unknownRecovery : PyErr := .nameError "recover_dropped_client_masks"

theorem addDropout_eq (rs : RoundState) (fed : Dict Nat (List Int)) (id : Nat) :
    addDropout rs fed id = if holdsSecret rs id then .error unknownRecovery else .ok fed := by
  unfold addDropout holdsSecret
  cases rs.clients.get? id with
  | none => rfl
  | some c => rfl

/-- The second loop changes nothing. -/
theorem foldlM_addDropout (rs : RoundState) (l : List Nat) (fed : Dict Nat (List Int)) :
    l.foldlM (addDropout rs) fed =
      if ∃ id ∈ l, holdsSecret rs id then .error unknownRecovery else .ok fed := by
  induction l with
  | nil => rfl
  | cons id l ih =>
    rw [List.foldlM_cons, addDropout_eq]
    by_cases hid : holdsSecret rs id
    · rw [if_pos hid, if_pos ⟨id, List.mem_cons_self, hid⟩]
      rfl
    · rw [if_neg hid]
      refine ih.trans (if_congr ?_ rfl rfl)
      simp [hid]

/-- The total counts all completed clients. -/
theorem totalSamples_eq (rs : RoundState) : totalSamples rs = rs.progress.total := by
  -- the other server's total, where all clients are in its table
  let table : Dict Nat (Dict Nat (List Int)) := rs.clients.map fun _ => .empty
  have hall : ∀ id ∈ rs.clients.keys, id ∈ table.keys := fun id hid => by
    rwa [Dict.keys_map]
  have hcounted : (rs.clients.values.filter fun c => c.completed && table.contains c.clientId) =
      rs.clients.values.filter ClientState.completed := by
    refine List.filter_congr fun c hc => ?_
    obtain ⟨id, hid⟩ := Dict.mem_values_iff.mp hc
    have hmem : c.clientId ∈ table.keys :=
      rs.registered id c hid ▸ hall id (Dict.mem_keys_of_get? hid)
    rw [Dict.contains_eq_true_iff.mpr hmem, Bool.and_true]
  rw [← totalSamples_delivered hall, Host.totalSamples, hcounted]
  rfl

/-! ## The aggregate -/

/-- The surviving clients' deliveries over the total of all completed clients. -/
def survivorAverage (rs : RoundState) (i j : Nat) : Gf :=
  (rs.clients.entries.map fun e => survivorValue rs e i j).sum *
    if 1 < rs.progress.total then (rs.progress.total : Gf)⁻¹ else 1

/-- A dropped client that holds a secret makes the function raise; otherwise it gives the average
    of the survivors. -/
theorem finalizeAggregation_eq (hwf : rs.WellFormed) (hchunk : rs.chunkSize ≠ 0) : ∃ fed,
    fed.keys = List.range (rs.modelSize / rs.chunkSize) ∧
      Rows (rs.modelSize / rs.chunkSize) rs.chunkSize fed (survivorAverage rs) ∧
      finalizeAggregation rs =
        if ∃ id ∈ rs.dropoutClients, holdsSecret rs id then .error unknownRecovery
        else .ok fed := by
  have hzero : Rows (rs.modelSize / rs.chunkSize) rs.chunkSize
      (zeroChunks (rs.modelSize / rs.chunkSize) rs.chunkSize) fun _ _ => 0 := rows_zeroChunks
  obtain ⟨sums, hfold, hkeys, hrows⟩ := foldlM_addSurvivor
    (fun e he => hwf.chunks e.1 e.2 (Dict.get?_eq_some_iff.mpr he)) hzero
  simp only [zero_add] at hrows
  have hkeys' : sums.keys = List.range (rs.modelSize / rs.chunkSize) := hkeys.trans keys_zeroChunks
  -- the two loops, with what is left to do behind them
  have hloops : finalizeAggregation rs =
      if ∃ id ∈ rs.dropoutClients, holdsSecret rs id then .error unknownRecovery
      else if 1 < rs.progress.total then
        .ok (sums.mapValues fun _ row =>
          row.map fun v => v * modInv rs.progress.total % fieldModulus)
      else .ok sums := by
    have hnum : rs.numChunks = .ok (rs.modelSize / rs.chunkSize) := if_neg hchunk
    simp only [finalizeAggregation, hnum, bind, Except.bind]
    rw [hfold]
    simp only [foldlM_addDropout, totalSamples_eq]
    by_cases hsecret : ∃ id ∈ rs.dropoutClients, holdsSecret rs id
    · rw [if_pos hsecret, if_pos hsecret]
    · rw [if_neg hsecret, if_neg hsecret]
      rfl
  rw [hloops]
  by_cases htotal : 1 < rs.progress.total
  · refine ⟨_, ?_, (hrows.mapValues (modInv rs.progress.total)).congr fun i _ j _ => ?_,
      by rw [if_pos htotal]⟩
    · rw [Dict.keys_mapValues, hkeys']
    · rw [survivorAverage, if_pos htotal, modInv_cast, Int.cast_natCast]
  · refine ⟨sums, hkeys', hrows.congr fun i _ j _ => ?_, by rw [if_neg htotal]⟩
    rw [survivorAverage, if_neg htotal, mul_one]

/-- Without dropouts all clients survive. -/
theorem survivorAverage_eq_average (hnone : rs.dropoutClients = []) :
    survivorAverage rs = rs.progress.average := by
  funext i j
  have hvalue : ∀ e, survivorValue rs e i j =
      (e.2.delivery.weight : Gf) * (e.2.delivery.value i j : Int) :=
    fun e => if_neg (hnone ▸ List.not_mem_nil)
  rw [survivorAverage, Progress.average, rs.values_progress, Dict.values, List.map_map,
    List.map_map, funext hvalue]
  rfl

/-- On a round without dropouts both servers compute the same. -/
theorem finalizeAggregation_eq_aggregate (hwf : rs.WellFormed) (hnone : rs.dropoutClients = [])
    (hmac : Hmac) (aes : AesCtr) : finalizeAggregation rs = aggregate hmac aes rs := by
  by_cases hchunk : rs.chunkSize = 0
  · -- neither of them counts the chunks
    have hnum : rs.numChunks = .error .zeroDivisionError := if_pos hchunk
    rw [finalizeAggregation, aggregate, unmaskClientChunks, hnum]
    rfl
  · obtain ⟨fed, hkeys, hrows, heq⟩ := finalizeAggregation_eq hwf hchunk
    obtain ⟨fed', heq', hkeys', hrows'⟩ := aggregate_delivered hwf hmac aes hchunk hnone
    have hsecret : ¬∃ id ∈ rs.dropoutClients, holdsSecret rs id := by
      rw [hnone]
      simp
    rw [survivorAverage_eq_average hnone] at hrows
    rw [heq, if_neg hsecret, heq', hrows.unique hrows' hkeys hkeys']

end SwiftAgg.Host.ProtocolBridge
