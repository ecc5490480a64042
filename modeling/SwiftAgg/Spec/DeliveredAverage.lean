import SwiftAgg.Spec.Aggregation
import SwiftAgg.Spec.RoundCompletion

/-!
# What is averaged without dropouts

In a round without dropouts the aggregate is determined by the deliveries of
the clients: their chunks, whether they have completed, and their sample
counts. Neither the secrets nor the order in which clients and chunks arrived
enter.

## Key results

- `aggregate_delivered`: the aggregate represents the weighted average of the deliveries
- `Progress.Equiv.average`: which does not depend on the order of arrival
-/

namespace SwiftAgg.Host

/-! ## The average of the deliveries -/

/-- The weight with which a delivery enters the sum: none before completion. -/
def Delivery.weight (d : Delivery) : Nat :=
  if d.completed then if 0 < d.sampleCount then d.sampleCount else 1 else 0

/-- The samples a delivery counts with. -/
def Delivery.samples (d : Delivery) : Nat := if d.completed then d.sampleCount else 0

/-- Value `j` of chunk `i`; a chunk that was not delivered counts as zeros. -/
def Delivery.value (d : Delivery) (i j : Nat) : Int :=
  (((d.chunks.get? i).map Bytes.int16sBE).getD []).getD j 0

/-- The total the sums are divided by; without sample counts, the number of completed clients. -/
def Progress.total (p : Progress) : Nat :=
  let total := (p.deliveries.values.map Delivery.samples).sum
  if total = 0 then p.completed else total

/-- The weighted average of the deliveries. -/
def Progress.average (p : Progress) (i j : Nat) : Gf :=
  (p.deliveries.values.map fun d => (d.weight : Gf) * (d.value i j : Int)).sum *
    if 1 < p.total then (p.total : Gf)⁻¹ else 1

section

variable {rs : RoundState}

theorem RoundState.values_progress (rs : RoundState) :
    rs.progress.deliveries.values = rs.clients.values.map ClientState.delivery := by
  simp only [RoundState.progress, Dict.values, Dict.map, List.map_map]
  rfl

/-- Where all clients were unmasked, the normaliser counts the completed ones. -/
theorem totalSamples_delivered {unmasked : Dict Nat (Dict Nat (List Int))}
    (hall : ∀ id ∈ rs.clients.keys, id ∈ unmasked.keys) :
    totalSamples rs unmasked = rs.progress.total := by
  -- the source looks every client up in the unmasked values: all of them are there
  have hcounted : (rs.clients.values.filter fun c => c.completed && unmasked.contains c.clientId) =
      rs.clients.values.filter ClientState.completed := by
    refine List.filter_congr fun c hc => ?_
    obtain ⟨⟨id, c'⟩, he, rfl⟩ := List.mem_map.mp hc
    have hget : rs.clients.get? id = some c' := Dict.get?_eq_some_iff.mpr he
    have hmem : c'.clientId ∈ unmasked.keys :=
      rs.registered id c' hget ▸ hall id (Dict.mem_keys_of_get? hget)
    rw [Dict.contains_eq_true_iff.mpr hmem, Bool.and_true]
  have hsum : ∀ l : List ClientState,
      (((l.filter ClientState.completed).filter fun c => 0 < c.sampleCount).map
        ClientState.sampleCount).sum = ((l.map ClientState.delivery).map Delivery.samples).sum := by
    intro l
    induction l with
    | nil => rfl
    | cons c l ih =>
      rw [List.map_cons, List.map_cons, List.sum_cons, ← ih]
      cases hdone : c.completed with
      | false => simp [hdone, Delivery.samples, ClientState.delivery]
      | true =>
        by_cases hpos : 0 < c.sampleCount
        · simp [hdone, hpos, Delivery.samples, ClientState.delivery]
        · have hzero : c.sampleCount = 0 := by omega
          simp [hdone, hzero, Delivery.samples, ClientState.delivery]
  have hcompleted : (rs.clients.values.filter ClientState.completed).length =
      rs.progress.completed := by
    rw [Progress.completed, rs.values_progress, List.countP_map, ← List.countP_eq_length_filter]
    rfl
  simp only [totalSamples, Progress.total, hcounted, hsum, hcompleted, rs.values_progress]

/-- Without dropouts the aggregate represents the weighted average of the deliveries. -/
theorem aggregate_delivered (hwf : rs.WellFormed) (hmac : Hmac) (aes : AesCtr)
    (hchunk : rs.chunkSize ≠ 0) (hnone : rs.dropoutClients = []) : ∃ fed,
    aggregate hmac aes rs = .ok fed ∧ fed.keys = List.range (rs.modelSize / rs.chunkSize) ∧
      Rows (rs.modelSize / rs.chunkSize) rs.chunkSize fed rs.progress.average := by
  obtain ⟨unmasked, hunmasked, hget⟩ :=
    unmaskClientChunks_of_no_dropout hwf hmac aes hchunk hnone
  have hstored : ∀ id c, rs.clients.get? id = some c → ∀ i,
      (c.storedValues (rs.modelSize / rs.chunkSize) rs.chunkSize).get? i = _ :=
    fun id c hc => (ClientState.unmaskChunks_eq _ (hwf.chunks id c hc)).2
  have hfits : ∀ e ∈ unmasked.entries, e.1 ∈ rs.completedIds →
      Fits (rs.modelSize / rs.chunkSize) rs.chunkSize e.2 := by
    intro e he _ i hi values hvalues
    have hentry := Dict.get?_eq_some_iff.mpr he
    rw [hget] at hentry
    obtain ⟨c, hc, hchunks⟩ := Option.map_eq_some_iff.mp hentry
    rw [← hchunks, hstored e.1 c hc, if_pos hi] at hvalues
    obtain ⟨data, hdata, rfl⟩ := Option.map_eq_some_iff.mp hvalues
    have hlen := hwf.chunks e.1 c hc i data hdata
    rw [Bytes.length_int16sBE]
    omega
  have hall : ∀ id ∈ rs.clients.keys, id ∈ unmasked.keys := by
    intro id hid
    obtain ⟨c, hc⟩ := Dict.mem_keys_iff.mp hid
    have hentry := hget id
    rw [Dict.get?_eq_some_iff.mpr hc] at hentry
    exact Dict.mem_keys_of_get? hentry
  obtain ⟨fed, hfed, hkeys, hrows⟩ := computeFedavg_table hchunk hfits
  refine ⟨fed, Except.bind_eq_ok.mpr ⟨unmasked, hunmasked, hfed⟩, hkeys,
    hrows.congr fun i hi j _ => ?_⟩
  have hsum := Dict.perm_map_entries (d := unmasked) (e := rs.clients)
    (f := fun id chunks => (rs.weight id : Gf) * (chunkValue chunks i j : Int))
    (g := fun _ c => (c.delivery.weight : Gf) * (c.delivery.value i j : Int)) fun id => ?_
  · rw [Progress.average, RoundState.normaliser, totalSamples_delivered hall, rs.values_progress,
      hsum.sum_eq, modInv_cast, Int.cast_natCast, List.map_map, Dict.values, List.map_map]
    rfl
  · -- client by client, the summands agree
    rw [hget, Option.map_map]
    cases hc : rs.clients.get? id with
    | none => rfl
    | some c =>
      have hweight : rs.weight id = c.delivery.weight := by
        rw [RoundState.weight, hc]
        rfl
      have hvalue : chunkValue (c.storedValues (rs.modelSize / rs.chunkSize) rs.chunkSize) i j =
          c.delivery.value i j := by
        rw [chunkValue, hstored id c hc, if_pos hi]
        rfl
      rw [Option.map_some, Option.map_some, Function.comp_apply, hweight, hvalue]

end

/-! ## The order of arrival -/

/-- The same delivery, whatever the order in which the chunks arrived. -/
structure Delivery.Equiv (d d' : Delivery) : Prop where
  chunks : ∀ i, d.chunks.get? i = d'.chunks.get? i
  completed : d.completed = d'.completed
  sampleCount : d.sampleCount = d'.sampleCount

/-- The same deliveries in rounds of the same size, whatever the order in which they arrived. -/
structure Progress.Equiv (p p' : Progress) : Prop where
  chunkSize : p.chunkSize = p'.chunkSize
  modelSize : p.modelSize = p'.modelSize
  deliveries : ∀ id, Option.Rel Delivery.Equiv (p.deliveries.get? id) (p'.deliveries.get? id)

section

variable {p p' : Progress}

/-- What depends on each delivery up to the order of its chunks is the same, up to order. -/
theorem Progress.Equiv.perm_values {α : Type} (h : p.Equiv p') {f : Delivery → α}
    (hf : ∀ d d', Delivery.Equiv d d' → f d = f d') :
    (p.deliveries.values.map f).Perm (p'.deliveries.values.map f) := by
  have hperm := Dict.perm_map_entries (d := p.deliveries) (e := p'.deliveries) (f := fun _ => f)
    (g := fun _ => f) fun id => ?_
  · rw [Dict.values, Dict.values, List.map_map, List.map_map]
    exact hperm
  · have hid := h.deliveries id
    generalize p.deliveries.get? id = d at hid ⊢
    generalize p'.deliveries.get? id = d' at hid ⊢
    cases hid with
    | none => rfl
    | some hd => exact congrArg some (hf _ _ hd)

theorem Progress.Equiv.total (h : p.Equiv p') : p.total = p'.total := by
  have hsum := (h.perm_values (f := Delivery.samples) fun d d' hd => by
    rw [Delivery.samples, Delivery.samples, hd.completed, hd.sampleCount]).sum_eq
  have hcompleted : p.completed = p'.completed := by
    have hcount :=
      (h.perm_values (f := Delivery.completed) fun d d' hd => hd.completed).countP_eq id
    rwa [List.countP_map, List.countP_map] at hcount
  rw [Progress.total, Progress.total, hsum, hcompleted]

/-- The average does not depend on the order of arrival. -/
theorem Progress.Equiv.average (h : p.Equiv p') : p.average = p'.average := by
  funext i j
  have hsum := (h.perm_values (f := fun d => (d.weight : Gf) * (d.value i j : Int))
    fun d d' hd => by
      simp only [Delivery.weight, Delivery.value, hd.completed, hd.sampleCount, hd.chunks]).sum_eq
  rw [Progress.average, Progress.average, hsum, h.total]

end

/-- Rows that represent the same table are equal. -/
theorem Rows.unique {num n : Nat} {fed fed' : Dict Nat (List Int)} {r : Nat → Nat → Gf}
    (h : Rows num n fed r) (h' : Rows num n fed' r) (hkeys : fed.keys = List.range num)
    (hkeys' : fed'.keys = List.range num) : fed = fed' := by
  refine Dict.ext_get? (hkeys.trans hkeys'.symm) fun i => ?_
  by_cases hi : i < num
  · obtain ⟨row, hrow, hlen, hvals⟩ := h i hi
    obtain ⟨row', hrow', hlen', hvals'⟩ := h' i hi
    rw [hrow, hrow']
    refine congrArg some (List.ext_getElem (hlen.trans hlen'.symm) fun j hj hj' => ?_)
    obtain ⟨hcanonical, hcast⟩ := hvals j (hlen ▸ hj)
    obtain ⟨hcanonical', hcast'⟩ := hvals' j (hlen' ▸ hj')
    rw [List.getD_eq_getElem _ _ hj] at hcanonical hcast
    rw [List.getD_eq_getElem _ _ hj'] at hcanonical' hcast'
    exact Gf.eq_of_cast_eq hcanonical hcanonical' (hcast.trans hcast'.symm)
  · have hnotMem : i ∉ List.range num := fun hmem => hi (List.mem_range.mp hmem)
    rw [Dict.get?_eq_none_iff.mpr (hkeys ▸ hnotMem), Dict.get?_eq_none_iff.mpr (hkeys' ▸ hnotMem)]

end SwiftAgg.Host
