import SwiftAgg.Spec.DeliveredAverage
import SwiftAgg.Spec.KeySetup

/-!
# The order of arrival

Clients send their messages in parallel, so the server may receive them in any
order that keeps each client's key before its chunks and these before its
completion. In a round without dropouts the last message to arrive completes
the round, and the aggregate is the same for all orders.

## Key results

- `foldl_receive`: what a client has delivered depends on its own messages only
- `checkRoundCompletion_publishes`: a round without dropouts becomes complete, with its average
- `aggregate_independent_of_order`: the result is the same for any two orders
-/

namespace SwiftAgg.Host

open Coroutine

/-! ## Deliveries, client by client -/

/-- What a message of a client delivers. -/
inductive Item where
  | key (payload : Bytes)
  | chunk (seq : Nat) (data : Bytes)
  | complete (payload : Bytes)
  deriving DecidableEq

/-- KEM_PUBLIC_KEY, MASK_CHUNK and CLIENT_COMPLETE. -/
def Message.item (m : Message) : Option Item :=
  if m.header.messageType = 0x01 then some (.key m.payload)
  else if m.header.messageType = 0x21 then some (.chunk m.header.sequenceNumber m.payload)
  else if m.header.messageType = 0x30 then some (.complete m.payload)
  else none

/-- What an item makes of the delivery of its client, in a round with chunks of `n` values. -/
def Item.deliver (n : Nat) (d : Option Delivery) : Item → Option Delivery
  | .key _ => some (d.getD .new)
  | .chunk seq data => d.map fun d =>
    if data.length = n * 2 then { d with chunks := d.chunks.insert seq data } else d
  | .complete payload => d.map fun d =>
    { d with sampleCount := announcedSamples payload d.sampleCount, completed := true }

theorem Message.item_eq_complete {m : Message} {payload : Bytes}
    (h : m.item = some (.complete payload)) : m.header.messageType = 0x30 := by
  unfold Message.item at h
  split at h
  · cases h
  split at h
  · cases h
  split at h
  · assumption
  · cases h

/-- A client's message changes the delivery of that client only. -/
theorem Progress.receive_item {p : Progress} {m : Message} {item : Item} (h : m.item = some item) :
    (p.receive m).dropouts = p.dropouts ∧ ∀ id, (p.receive m).deliveries.get? id =
      if id = m.header.clientId then item.deliver p.chunkSize (p.deliveries.get? id)
      else p.deliveries.get? id := by
  unfold Message.item at h
  split at h
  · -- a key registers its client; a second one delivers nothing
    rename_i htype
    cases h
    rw [p.receive_key htype]
    by_cases hmem : m.header.clientId ∈ p.deliveries.keys
    · rw [if_pos (Dict.contains_eq_true_iff.mpr hmem)]
      refine ⟨rfl, fun id => ?_⟩
      split
      · rename_i hid
        obtain ⟨d, hd⟩ := Dict.mem_keys_iff.mp (hid ▸ hmem)
        rw [Dict.get?_eq_some_iff.mpr hd]
        rfl
      · rfl
    · rw [if_neg fun hcontains => hmem (Dict.contains_eq_true_iff.mp hcontains)]
      refine ⟨rfl, fun id => ?_⟩
      rw [Dict.get?_insert]
      split
      · rename_i hid
        rw [Dict.get?_eq_none_iff.mpr (hid ▸ hmem)]
        rfl
      · rfl
  split at h
  · -- a chunk of another length is ignored
    rename_i htype
    cases h
    rw [p.receive_chunk htype]
    by_cases hlen : m.payload.length = p.chunkSize * 2
    · rw [if_pos hlen]
      refine ⟨rfl, fun id => ?_⟩
      simp only [Dict.get?_modify, Item.deliver, hlen, ↓reduceIte]
    · rw [if_neg hlen]
      refine ⟨rfl, fun id => ?_⟩
      simp only [Item.deliver, hlen, ↓reduceIte, Option.map_id', ite_self]
  split at h
  · rename_i htype
    cases h
    rw [p.receive_complete htype]
    refine ⟨rfl, fun id => ?_⟩
    rw [Dict.get?_modify]
    rfl
  · cases h

/-- What a client has delivered depends on its own messages only. -/
theorem foldl_receive {ms : List Message} (hms : ∀ m ∈ ms, m.item.isSome) (p : Progress) :
    (ms.foldl Progress.receive p).dropouts = p.dropouts ∧
      ∀ id, (ms.foldl Progress.receive p).deliveries.get? id =
        ((ms.filter fun m => m.header.clientId = id).filterMap Message.item).foldl
          (Item.deliver p.chunkSize) (p.deliveries.get? id) := by
  induction ms generalizing p with
  | nil => exact ⟨rfl, fun _ => rfl⟩
  | cons m ms ih =>
    -- the chunk size is the same all along, so the items are delivered in the same way
    obtain ⟨item, hitem⟩ := Option.isSome_iff_exists.mp (hms m List.mem_cons_self)
    obtain ⟨hdropouts, hget⟩ := Progress.receive_item (p := p) hitem
    obtain ⟨hdropouts', hget'⟩ := ih (fun m' hm' => hms m' (List.mem_cons_of_mem m hm'))
      (p.receive m)
    refine ⟨hdropouts'.trans hdropouts, fun id => ?_⟩
    rw [List.foldl_cons, hget' id, (p.receive_params m).2.2.1, hget id]
    by_cases hid : id = m.header.clientId
    · rw [if_pos hid, List.filter_cons_of_pos (by simp [hid]), List.filterMap_cons_some hitem]
      rfl
    · rw [if_neg hid, List.filter_cons_of_neg (by simpa using Ne.symm hid)]

theorem foldl_receive_params (ms : List Message) (p : Progress) :
    (ms.foldl Progress.receive p).expectedClients = p.expectedClients ∧
      (ms.foldl Progress.receive p).threshold = p.threshold ∧
      (ms.foldl Progress.receive p).chunkSize = p.chunkSize ∧
      (ms.foldl Progress.receive p).modelSize = p.modelSize := by
  induction ms generalizing p with
  | nil => exact ⟨rfl, rfl, rfl, rfl⟩
  | cons m ms ih =>
    obtain ⟨he, ht, hc, hm⟩ := p.receive_params m
    obtain ⟨he', ht', hc', hm'⟩ := ih (p.receive m)
    exact ⟨he'.trans he, ht'.trans ht, hc'.trans hc, hm'.trans hm⟩

/-- The progress of a round that is created first and then receives its messages. -/
theorem progressOf_created {init : Message} {rs : RoundState} (hinit : init.createdRound = some rs)
    {ms : List Message} (hms : ∀ m ∈ ms, m.header.roundId = init.header.roundId) :
    progressOf (init :: ms) init.header.roundId none =
      some (ms.foldl Progress.receive rs.progress) := by
  have hcreated : init.advance init.header.roundId none = some rs.progress := by
    rw [Message.advance.eq_def, if_pos rfl, hinit]
    rfl
  have hreceive : ∀ (l : List Message) (p : Progress),
      (∀ m ∈ l, m.header.roundId = init.header.roundId) →
        progressOf l init.header.roundId (some p) = some (l.foldl Progress.receive p) := by
    -- once there is a round, every message is received by it
    intro l
    induction l with
    | nil => exact fun _ _ => rfl
    | cons m l ih =>
      intro p hl
      have hstep : m.advance init.header.roundId (some p) = some (p.receive m) := by
        rw [Message.advance.eq_def, if_pos (hl m List.mem_cons_self).symm]
      rw [progressOf, List.foldl_cons, hstep]
      exact ih (p.receive m) fun m' hm' => hl m' (List.mem_cons_of_mem m hm')
  rw [progressOf, List.foldl_cons, hcreated]
  exact hreceive ms rs.progress hms

/-! ## Delivery orders -/

/-- What a client sends in a round: its public key, its chunks, at most one under each number, and
    the payload of its completion. -/
structure ClientScript where
  clientId : Nat
  publicKey : Bytes
  chunks : Dict Nat Bytes
  completion : Bytes

/-- The items of a client, with its chunks in some order. -/
def ClientScript.items (c : ClientScript) (chunks : List (Nat × Bytes)) : List Item :=
  .key c.publicKey :: (chunks.map fun p => .chunk p.1 p.2) ++ [.complete c.completion]

/-- The messages of the clients in an order that keeps each client's public key before its chunks,
    and these before its completion. No client's connection is closed meanwhile. -/
structure DeliveryOrder (roundId : Nat) (scripts : List ClientScript) (ms : List Message) :
    Prop where
  parsed : ∀ m ∈ ms, m.header.Parsed
  connected : ∀ m ∈ ms, ∀ m' ∈ ms, m'.writer ∉ m.closing
  round : ∀ m ∈ ms, m.header.roundId = roundId
  sender : ∀ m ∈ ms, m.item.isSome ∧ ∃ c ∈ scripts, c.clientId = m.header.clientId
  client : ∀ c ∈ scripts, ∃ chunks, chunks.Perm c.chunks.entries ∧
    (ms.filter fun m => m.header.clientId = c.clientId).filterMap Message.item = c.items chunks

/-- All that a client sends has been delivered; chunks that do not have `n` values are ignored. -/
structure ClientScript.Delivered (n : Nat) (c : ClientScript) (d : Delivery) : Prop where
  chunks : ∀ i, d.chunks.get? i = (c.chunks.get? i).filter fun data => data.length = n * 2
  completed : d.completed = true
  sampleCount : d.sampleCount = announcedSamples c.completion 0

/-- Two complete deliveries of the same client differ in the order of the chunks only. -/
theorem ClientScript.Delivered.equiv {n : Nat} {c : ClientScript} {d d' : Delivery}
    (h : c.Delivered n d) (h' : c.Delivered n d') : d.Equiv d' where
  chunks i := (h.chunks i).trans (h'.chunks i).symm
  completed := h.completed.trans h'.completed.symm
  sampleCount := h.sampleCount.trans h'.sampleCount.symm

/-- Store the chunks that have `n` values, one after the other. -/
private def storeChunks (n : Nat) (stored : Dict Nat Bytes) (chunks : List (Nat × Bytes)) :
    Dict Nat Bytes :=
  chunks.foldl (fun stored e => (if e.2.length = n * 2 then some e.2 else none).elim stored
    (stored.insert e.1)) stored

private theorem foldl_deliver_chunks (n : Nat) (chunks : List (Nat × Bytes)) (d : Delivery) :
    (chunks.map fun p => Item.chunk p.1 p.2).foldl (Item.deliver n) (some d) =
      some { d with chunks := storeChunks n d.chunks chunks } := by
  induction chunks generalizing d with
  | nil => rfl
  | cons e chunks ih =>
    rw [List.map_cons, List.foldl_cons, Item.deliver, Option.map_some, ih, storeChunks, storeChunks,
      List.foldl_cons]
    split
    · rfl
    · rfl

theorem ClientScript.deliver_items (n : Nat) (c : ClientScript) {chunks : List (Nat × Bytes)}
    (hperm : chunks.Perm c.chunks.entries) : ∃ d,
    (c.items chunks).foldl (Item.deliver n) none = some d ∧ c.Delivered n d := by
  have hfold : (c.items chunks).foldl (Item.deliver n) none =
      some ⟨storeChunks n .empty chunks, true, announcedSamples c.completion 0⟩ := by
    rw [ClientScript.items, List.cons_append, List.foldl_cons, List.foldl_append]
    show [Item.complete c.completion].foldl _ (List.foldl (Item.deliver n) (some .new) _) = _
    rw [foldl_deliver_chunks]
    rfl
  refine ⟨_, hfold, fun i => ?_, rfl, rfl⟩
  -- each number occurs at most once, so the order of the chunks does not show
  have hget := Dict.get?_foldl_insert
    (fun e : Nat × Bytes => if e.2.length = n * 2 then some e.2 else none) hperm i
  refine hget.trans ?_
  cases c.chunks.get? i with
  | none => rfl
  | some data =>
    rw [Option.bind_some, Option.filter_some]
    by_cases hlen : data.length = n * 2
    · rw [if_pos hlen, if_pos (decide_eq_true hlen)]
    · rw [if_neg hlen, if_neg (by simpa using hlen)]

/-- Every client has delivered all that it sends, and there are no others. -/
structure AllDelivered (scripts : List ClientScript) (p : Progress) : Prop where
  clients : ∀ c ∈ scripts, ∃ d, p.deliveries.get? c.clientId = some d ∧ c.Delivered p.chunkSize d
  others : ∀ id, (∀ c ∈ scripts, c.clientId ≠ id) → p.deliveries.get? id = none

section

variable {scripts : List ClientScript} {p p' : Progress}

theorem AllDelivered.exists_script (h : AllDelivered scripts p) {id : Nat} {d : Delivery}
    (hd : p.deliveries.get? id = some d) :
    ∃ c ∈ scripts, c.clientId = id ∧ c.Delivered p.chunkSize d := by
  by_contra hnone
  by_cases hid : ∃ c ∈ scripts, c.clientId = id
  · obtain ⟨c, hc, rfl⟩ := hid
    obtain ⟨d', hd', hdelivered⟩ := h.clients c hc
    obtain rfl : d' = d := Option.some.inj (hd'.symm.trans hd)
    exact hnone ⟨c, hc, rfl, hdelivered⟩
  · have hget := h.others id fun c hc heq => hid ⟨c, hc, heq⟩
    rw [hd] at hget
    cases hget

/-- Where all is delivered the progress is the same, up to order. -/
theorem AllDelivered.equiv (h : AllDelivered scripts p) (h' : AllDelivered scripts p')
    (hchunk : p.chunkSize = p'.chunkSize) (hmodel : p.modelSize = p'.modelSize) : p.Equiv p' := by
  refine ⟨hchunk, hmodel, fun id => ?_⟩
  by_cases hid : ∃ c ∈ scripts, c.clientId = id
  · obtain ⟨c, hc, rfl⟩ := hid
    obtain ⟨d, hd, hdelivered⟩ := h.clients c hc
    obtain ⟨d', hd', hdelivered'⟩ := h'.clients c hc
    rw [hd, hd']
    exact .some (hdelivered.equiv (hchunk ▸ hdelivered'))
  · have hnone : ∀ c ∈ scripts, c.clientId ≠ id := fun c hc heq => hid ⟨c, hc, heq⟩
    rw [h.others id hnone, h'.others id hnone]
    exact .none

/-- As many clients as there are have completed. -/
theorem AllDelivered.completed (h : AllDelivered scripts p)
    (hids : (scripts.map ClientScript.clientId).Nodup) : p.completed = scripts.length := by
  have hset : p.completedClients = (scripts.map ClientScript.clientId).toFinset := by
    ext id
    rw [Progress.mem_completedClients, List.mem_toFinset, List.mem_map]
    constructor
    · rintro ⟨d, hd, -⟩
      obtain ⟨c, hc, hid, -⟩ := h.exists_script hd
      exact ⟨c, hc, hid⟩
    · rintro ⟨c, hc, rfl⟩
      obtain ⟨d, hd, hdelivered⟩ := h.clients c hc
      exact ⟨d, hd, hdelivered.completed⟩
  rw [← Progress.card_completedClients, hset, List.toFinset_card_of_nodup hids, List.length_map]

/-- All delivered chunks have the length of the round. -/
theorem AllDelivered.wellFormed {rs : RoundState} (h : AllDelivered scripts rs.progress)
    (hnone : rs.dropoutClients = []) : rs.WellFormed where
  dropouts := hnone ▸ List.nodup_nil
  chunks id c hc seq data hdata := by
    have hget : rs.progress.deliveries.get? id = some c.delivery := by
      rw [RoundState.progress, Dict.get?_map, hc, Option.map_some]
    obtain ⟨script, -, -, hdelivered⟩ := h.exists_script hget
    have hchunk := hdelivered.chunks seq
    rw [show c.delivery.chunks.get? seq = some data from hdata] at hchunk
    obtain ⟨-, hlen⟩ := Option.filter_eq_some_iff.mp hchunk.symm
    exact of_decide_eq_true hlen

end

section

variable {roundId : Nat} {scripts : List ClientScript} {ms : List Message}

/-- After all messages every client has delivered. -/
theorem DeliveryOrder.allDelivered (h : DeliveryOrder roundId scripts ms) {p : Progress}
    (hempty : p.deliveries = .empty) : AllDelivered scripts (ms.foldl Progress.receive p) := by
  obtain ⟨-, hget⟩ := foldl_receive (fun m hm => (h.sender m hm).1) p
  obtain ⟨-, -, hchunk, -⟩ := foldl_receive_params ms p
  refine ⟨fun c hc => ?_, fun id hid => ?_⟩
  · obtain ⟨chunks, hperm, hitems⟩ := h.client c hc
    rw [hget, hitems, hempty, hchunk]
    exact c.deliver_items p.chunkSize hperm
  · have hfilter : (ms.filter fun m => m.header.clientId = id) = [] := by
      rw [List.filter_eq_nil_iff]
      intro m hm heq
      obtain ⟨c, hc, hsender⟩ := (h.sender m hm).2
      exact hid c hc (hsender.trans (of_decide_eq_true heq))
    rw [hget, hfilter, hempty]
    rfl

/-- The ids of the clients fit into a header. -/
theorem DeliveryOrder.clientId_lt (h : DeliveryOrder roundId scripts ms) {c : ClientScript}
    (hc : c ∈ scripts) : c.clientId < 256 := by
  obtain ⟨chunks, -, hitems⟩ := h.client c hc
  have hkey : Item.key c.publicKey ∈
      (ms.filter fun m => m.header.clientId = c.clientId).filterMap Message.item := by
    rw [hitems]
    exact List.mem_cons_self
  obtain ⟨m, hm, -⟩ := List.mem_filterMap.mp hkey
  obtain ⟨hmem, hid⟩ := List.mem_filter.mp hm
  have hlt := (MessageHeader.parsed_iff.mp (h.parsed m hmem)).2.1
  rwa [of_decide_eq_true hid] at hlt

/-- The last message is a completion. -/
theorem DeliveryOrder.last (h : DeliveryOrder roundId scripts ms) (hscripts : scripts ≠ []) :
    ∃ pre m, ms = pre ++ [m] ∧ m.header.messageType = 0x30 := by
  rcases List.eq_nil_or_concat ms with rfl | ⟨pre, m, rfl⟩
  · obtain ⟨c, hc⟩ := List.exists_mem_of_ne_nil scripts hscripts
    obtain ⟨chunks, -, hitems⟩ := h.client c hc
    cases hitems
  · rw [List.concat_eq_append] at *
    have hm : m ∈ pre ++ [m] := List.mem_append_right _ List.mem_cons_self
    obtain ⟨hsome, c, hc, hsender⟩ := h.sender m hm
    obtain ⟨item, hitem⟩ := Option.isSome_iff_exists.mp hsome
    obtain ⟨chunks, -, hitems⟩ := h.client c hc
    have hlast : [m].filter (fun m => m.header.clientId = c.clientId) = [m] :=
      List.filter_cons_of_pos (by simp [hsender])
    rw [List.filter_append, hlast, List.filterMap_append, List.filterMap_cons_some hitem,
      ClientScript.items] at hitems
    -- the last item of its client is the completion
    obtain ⟨-, hcomplete⟩ := List.append_inj' hitems rfl
    cases hcomplete
    exact ⟨pre, m, rfl, Message.item_eq_complete hitem⟩

end

/-! ## The completion of a round without dropouts -/

/-- `_encapsulate` does not raise, and the ciphertext it returns fits into a message. -/
def HostEnv.Encapsulates (env : HostEnv) : Prop :=
  ∀ n key, ∃ ct ss, env.encapsulate n key = .ok (ct, ss) ∧ ct.length < 2 ^ 16

/-- Where encapsulation does not raise and no connection is lost, key setup does not raise. -/
theorem HostEnv.Encapsulates.keyErrors {env : HostEnv} (henv : env.Encapsulates) {roundId : Nat}
    (hround : roundId < 2 ^ 32) {ks : List Nat} (hks : ∀ id ∈ ks, id < 256)
    {clientWriters : Dict Nat Nat} {lost : List Nat}
    (hopen : ∀ w ∈ clientWriters.values, w ∉ lost) :
    KeyErrors env roundId (fun writers closing => writers = clientWriters ∧ closing = lost) ks
      fun _ => False where
  encapsulate n key e he := by
    obtain ⟨ct, ss, hok, -⟩ := henv n key
    rw [hok] at he
    cases he
  header n key ct ss hok e he := by
    obtain ⟨ct', ss', hok', hlen⟩ := henv n key
    rw [hok'] at hok
    cases hok
    rw [buildHeader, if_pos ⟨hround, by decide, by decide, by decide, hlen⟩] at he
    cases he
  seed a ha b hb secret e he := by
    have hmin : min a b < 256 := min_rec' (· < 256) (hks a ha) (hks b hb)
    have hmax : max a b < 256 := max_rec' (· < 256) (hks a ha) (hks b hb)
    rw [derivePairwiseMaskSeed_eq_ok env.hmac secret hmin hmax hround] at he
    cases he
  reset := by
    rintro _ _ ⟨rfl, rfl⟩ writer hwriter _ _ ⟨-, rfl⟩ hlost
    exact hopen writer hwriter hlost

section

variable {env : HostEnv} {roundId : Nat} {s : ServerState} {rs : RoundState}

/-- A round is well formed by its progress. -/
theorem RoundState.WellFormed.of_progress {rs' : RoundState} (h : rs.WellFormed)
    (hprogress : rs'.progress = rs.progress) : rs'.WellFormed where
  dropouts := by
    have hdropouts : rs'.dropoutClients = rs.dropoutClients := congrArg Progress.dropouts hprogress
    rw [hdropouts]
    exact h.dropouts
  chunks id c' hc' := by
    have hget : (rs.clients.get? id).map ClientState.delivery = some c'.delivery := by
      have hdelivery := congrArg (fun p => p.deliveries.get? id) hprogress
      simp only [RoundState.progress, Dict.get?_map, hc', Option.map_some] at hdelivery
      exact hdelivery.symm
    -- the same client in the other round, with the same chunks
    obtain ⟨c, hc, hdelivery⟩ := Option.map_eq_some_iff.mp hget
    have hchunks : c.receivedChunks = c'.receivedChunks := congrArg Delivery.chunks hdelivery
    have hsize : rs'.chunkSize = rs.chunkSize := congrArg Progress.chunkSize hprogress
    intro seq data hdata
    rw [hsize]
    exact h.chunks id c hc seq data (hchunks ▸ hdata)

/-- The rounds after the result was stored and broadcast, as far as it came. -/
theorem publish_run (env : HostEnv) (hround : s.rounds.get? roundId = some rs)
    {fed : Dict Nat (List Int)} (hfed : aggregate env.hmac env.aes rs = .ok fed)
    (hkeys : fed.keys = List.range (rs.modelSize / rs.chunkSize)) :
    ((publish env roundId).run s).2.rounds = (s.storeResult roundId fed).rounds := by
  have hadvance := publish_advance env hround
  rw [hfed] at hadvance
  simp only [hkeys, imp_self, implies_true, if_true] at hadvance
  rw [run_eq_of_advance_eq hadvance]
  cases packTelemetry rs.roundId with
  | error e => rfl
  | ok telemetry => exact (broadcast_run rs fed telemetry _ _).1

/-- A check that unmasks a round without dropouts, in which key setup does not raise, makes it
    complete, and the result represents the average of the deliveries. -/
theorem checkRoundCompletion_publishes {K : Dict Nat Nat → List Nat → Prop}
    (hK : K s.clientWriters s.closing) (hkeyed : s.Keyed)
    (hround : s.rounds.get? roundId = some rs) (hunmasks : rs.Unmasks) (hwf : rs.WellFormed)
    (hchunk : rs.chunkSize ≠ 0) (hnone : rs.dropoutClients = [])
    (hE : KeyErrors env roundId K rs.clients.keys fun _ => False) :
    ∃ rs', ((checkRoundCompletion env roundId).run s).2.rounds.get? roundId = some rs' ∧
      rs'.stage = .roundComplete ∧
      rs'.unmaskedChunks.keys = List.range (rs.modelSize / rs.chunkSize) ∧
      Rows (rs.modelSize / rs.chunkSize) rs.chunkSize rs'.unmaskedChunks rs.progress.average := by
  have hstart : InRound roundId (· = rs.progress) K (s.setStage roundId .unmasking) := by
    refine ⟨hkeyed.setStage roundId .unmasking, ⟨rs.progress, ?_, rfl⟩, hK⟩
    rw [ServerState.progress, ServerState.get?_setStage hround]
    rfl
  have hraises : Raises (InRound roundId (· = rs.progress) K) (fun _ => False)
      (prepare env roundId) := by
    refine prepare_raises (fun p hp => ?_) hE fun rs' hrs' e he => ?_
    · rw [hp, RoundState.progress, Dict.keys_map]
    · -- there is nobody to recover
      have hdropouts : rs'.dropoutClients = [] := (congrArg Progress.dropouts hrs').trans hnone
      rw [triggerRecovery, hdropouts] at he
      cases he
  obtain ⟨hend, hno⟩ := hraises.run hstart
  rw [run_eq_of_advance_eq (checkRoundCompletion_of_unmasks env hround hunmasks),
    unmaskAndAggregate_eq, run_bind]
  generalize (prepare env roundId).run (s.setStage roundId .unmasking) = result at hend hno
  obtain ⟨r, s'⟩ := result
  cases r with
  | error e => exact (hno e rfl).elim
  | ok _ =>
    obtain ⟨rs', hround', -, hprogress⟩ := hend.exists_round
    have hchunk' : rs'.chunkSize = rs.chunkSize := congrArg Progress.chunkSize hprogress
    have hmodel' : rs'.modelSize = rs.modelSize := congrArg Progress.modelSize hprogress
    obtain ⟨fed, hfed, hkeys, hrows⟩ := aggregate_delivered (hwf.of_progress hprogress) env.hmac
      env.aes (hchunk'.trans_ne hchunk) ((congrArg Progress.dropouts hprogress).trans hnone)
    simp only [publish_run env hround' hfed hkeys]
    rw [hprogress, hmodel', hchunk'] at hrows
    rw [hmodel', hchunk'] at hkeys
    refine ⟨{ rs' with unmaskedChunks := fed, stage := .roundComplete }, ?_, rfl, hkeys, hrows⟩
    rw [ServerState.storeResult, Dict.get?_modify, if_pos rfl, hround', Option.map_some]

/-- The completion of a registered client leads to the check. -/
theorem receive_complete_checks (env : HostEnv) {m : Message} (htype : m.header.messageType = 0x30)
    (hround : s.rounds.get? m.header.roundId = some rs)
    (hclient : m.header.clientId ∈ rs.clients.keys) : (s.receive env m).1 = .ok true := by
  obtain ⟨c, hc⟩ := Dict.mem_keys_iff.mp hclient
  have hget : (s.rounds.get? m.header.roundId).bind (fun rs => rs.clients.get? m.header.clientId) =
      some c := by
    rw [hround]
    exact Dict.get?_eq_some_iff.mpr hc
  have hadvance : ∃ s₁, (beforeCheck env m).advance { s with closing := m.closing } =
      (.ended (.ok true), s₁) := by
    rw [beforeCheck, if_pos htype, advance_getClient_bind]
    simp only [hget]
    exact ⟨_, rfl⟩
  obtain ⟨s₁, hadvance⟩ := hadvance
  rw [ServerState.receive, run_of_advance hadvance]

/-- The completion with which all is delivered makes the round complete, with the average of the
    deliveries. -/
theorem handle_last {scripts : List ClientScript} {m : Message} (henv : env.Encapsulates)
    (hopen : ∀ w ∈ s.clientWriters.values, w ∉ m.closing) (hkeyed : s.Keyed)
    (hround : s.rounds.get? m.header.roundId = some rs)
    (hparsed : m.header.Parsed) (htype : m.header.messageType = 0x30)
    (hclient : m.header.clientId ∈ rs.clients.keys)
    (hall : AllDelivered scripts (rs.progress.receive m))
    (hids : (scripts.map ClientScript.clientId).Nodup) (hlt : ∀ c ∈ scripts, c.clientId < 256)
    (hexpected : rs.expectedClients = scripts.length) (hthreshold : rs.threshold ≤ scripts.length)
    (hchunk : rs.chunkSize ≠ 0) (hnone : rs.dropoutClients = []) : ∃ rs',
    (s.handle env m).rounds.get? m.header.roundId = some rs' ∧ rs'.stage = .roundComplete ∧
      rs'.unmaskedChunks.keys = List.range (rs.modelSize / rs.chunkSize) ∧
      Rows (rs.modelSize / rs.chunkSize) rs.chunkSize rs'.unmaskedChunks
        (rs.progress.receive m).average := by
  obtain ⟨harrival, hchecks⟩ := receive_arrival env s m
  have hcheck := receive_complete_checks env htype hround hclient
  obtain ⟨rs₁, hround₁, hreceives⟩ := harrival.own rs hround
  have hprogress := hreceives.progress
  obtain ⟨hexpected₁, hthreshold₁, hchunk₁, hmodel₁⟩ := rs.progress.receive_params m
  have hnone₁ : rs₁.progress.dropouts = [] := by
    rw [hprogress, rs.progress.receive_complete htype]
    exact hnone
  rw [← hprogress] at hexpected₁ hthreshold₁ hchunk₁ hmodel₁ hall ⊢
  -- as many clients have completed as are expected, and nobody has dropped out
  have hunmasks : rs₁.Unmasks := by
    rw [rs₁.unmasks_iff, Progress.Unmasks, hall.completed hids, hnone₁, hexpected₁, hthreshold₁]
    show (rs.expectedClients : Int) - 0 ≤ _ ∧ (rs.threshold : Int) ≤ rs.expectedClients - 0
    omega
  have hkeys : ∀ id ∈ rs₁.clients.keys, id < 256 := by
    intro id hid
    obtain ⟨c, hc⟩ := Dict.mem_keys_iff.mp hid
    have hget : rs₁.progress.deliveries.get? id = some c.delivery := by
      rw [RoundState.progress, Dict.get?_map, Dict.get?_eq_some_iff.mpr hc, Option.map_some]
    obtain ⟨script, hscript, rfl, -⟩ := hall.exists_script hget
    exact hlt script hscript
  -- a completion stores no writer, so the connections are those from before
  have hwriters₁ : (s.receive env m).2.clientWriters = s.clientWriters :=
    harrival.clientWriters.resolve_right fun hconnects =>
      (hchecks hcheck).not_connects hconnects.1
  have hE := henv.keyErrors (MessageHeader.parsed_iff.mp hparsed).1 hkeys hopen
  have hchunk' : rs₁.chunkSize = rs.chunkSize := hchunk₁
  have hmodel' : rs₁.modelSize = rs.modelSize := hmodel₁
  have hcomplete := checkRoundCompletion_publishes ⟨hwriters₁, receive_closing env s m⟩
    (harrival.keyed hkeyed) hround₁ hunmasks (hall.wellFormed hnone₁) (hchunk'.trans_ne hchunk)
    hnone₁ hE
  rw [hchunk', hmodel'] at hcomplete
  rw [handle_eq, if_pos hcheck]
  exact hcomplete

end

/-! ## The result -/

section

variable {env : HostEnv} {init : Message} {rs₀ : RoundState} {scripts : List ClientScript}
  {ms : List Message}

/-- In every delivery order the round becomes complete, with the average of the deliveries. -/
theorem DeliveryOrder.completes (h : DeliveryOrder init.header.roundId scripts ms)
    (henv : env.Encapsulates) (hinit : init.createdRound = some rs₀) (hscripts : scripts ≠ [])
    (hids : (scripts.map ClientScript.clientId).Nodup)
    (hexpected : rs₀.expectedClients = scripts.length) (hthreshold : rs₀.threshold ≤ scripts.length)
    (hchunk : rs₀.chunkSize ≠ 0) : ∃ rs,
    (ServerState.new.handleAll env (init :: ms)).rounds.get? init.header.roundId = some rs ∧
      rs.stage = .roundComplete ∧
      rs.unmaskedChunks.keys = List.range (rs₀.modelSize / rs₀.chunkSize) ∧
      Rows (rs₀.modelSize / rs₀.chunkSize) rs₀.chunkSize rs.unmaskedChunks
        (ms.foldl Progress.receive rs₀.progress).average := by
  obtain ⟨pre, m, rfl, htype⟩ := h.last hscripts
  have hm : m ∈ pre ++ [m] := List.mem_append_right _ List.mem_cons_self
  have hpre : ∀ m' ∈ pre, m' ∈ pre ++ [m] := fun m' hm' => List.mem_append_left _ hm'
  -- the server before the last message
  have hbefore : (ServerState.new.handleAll env (init :: pre)).progress init.header.roundId =
      some (pre.foldl Progress.receive rs₀.progress) :=
    (handleAll_progress env ServerState.keyed_new _ _).trans
      (progressOf_created hinit fun m' hm' => h.round m' (hpre m' hm'))
  obtain ⟨rs, hround, hprogress⟩ := Option.map_eq_some_iff.mp hbefore
  have hnew : rs₀.progress.deliveries = .empty ∧ rs₀.progress.dropouts = [] := by
    obtain ⟨_, _, _, _, rfl⟩ := Message.createdRound_eq_some hinit
    exact ⟨rfl, rfl⟩
  obtain ⟨hexpected₁, hthreshold₁, hchunk₁, hmodel₁⟩ := foldl_receive_params pre rs₀.progress
  obtain ⟨hdropouts₁, -⟩ := foldl_receive (fun m' hm' => (h.sender m' (hpre m' hm')).1) rs₀.progress
  rw [← hprogress] at hexpected₁ hthreshold₁ hchunk₁ hmodel₁ hdropouts₁
  have hreceived : (pre ++ [m]).foldl Progress.receive rs₀.progress = rs.progress.receive m := by
    rw [hprogress, List.foldl_append]
    rfl
  have hall : AllDelivered scripts (rs.progress.receive m) := hreceived ▸ h.allDelivered hnew.1
  -- its client is registered, since a completion registers nobody
  have hclient : m.header.clientId ∈ rs.clients.keys := by
    obtain ⟨c, hc, hsender⟩ := (h.sender m hm).2
    obtain ⟨d, hd, -⟩ := hall.clients c hc
    have hmem := Dict.mem_keys_of_get? hd
    rwa [rs.progress.receive_complete htype, Dict.keys_modify, RoundState.progress, Dict.keys_map,
      hsender] at hmem
  have hopen : ∀ w ∈ (ServerState.new.handleAll env (init :: pre)).clientWriters.values,
      w ∉ m.closing := by
    intro w hw
    obtain hnone | ⟨m', hm', htype', rfl⟩ :=
      handleAll_mem_writers env ServerState.keyed_new (init :: pre) hw
    · cases hnone
    · -- ROUND_INIT registers nobody
      obtain rfl | hm' := List.mem_cons.mp hm'
      · have hne : m'.header.messageType ≠ 0x40 := fun htype => by
          rw [htype] at htype'
          exact absurd htype' (by decide)
        rw [Message.createdRound_of_ne hne] at hinit
        cases hinit
      · exact h.connected m hm m' (hpre m' hm')
  have hlast := handle_last henv hopen (handleAll_keyed env ServerState.keyed_new (init :: pre))
    (h.round m hm ▸ hround) (h.parsed m hm) htype hclient hall hids (fun c hc => h.clientId_lt hc)
    (hexpected₁.trans hexpected) (hthreshold₁.trans_le hthreshold) (hchunk₁.trans_ne hchunk)
    (hdropouts₁.trans hnew.2)
  rw [h.round m hm] at hlast
  rw [hreceived, ← show rs.modelSize = rs₀.modelSize from hmodel₁,
    ← show rs.chunkSize = rs₀.chunkSize from hchunk₁, ← List.cons_append, ServerState.handleAll,
    List.foldl_append]
  exact hlast

end

/-- The result of a round without dropouts is the same for any two delivery orders, and whatever
    the secrets are. -/
theorem aggregate_independent_of_order (env env' : HostEnv) (henv : env.Encapsulates)
    (henv' : env'.Encapsulates) (init : Message) (rs₀ : RoundState)
    (hinit : init.createdRound = some rs₀) (scripts : List ClientScript) (hscripts : scripts ≠ [])
    (hids : (scripts.map ClientScript.clientId).Nodup)
    (hexpected : rs₀.expectedClients = scripts.length) (hthreshold : rs₀.threshold ≤ scripts.length)
    (hchunk : rs₀.chunkSize ≠ 0) (ms ms' : List Message)
    (h : DeliveryOrder init.header.roundId scripts ms)
    (h' : DeliveryOrder init.header.roundId scripts ms') : ∃ rs rs',
    (ServerState.new.handleAll env (init :: ms)).rounds.get? init.header.roundId = some rs ∧
      (ServerState.new.handleAll env' (init :: ms')).rounds.get? init.header.roundId = some rs' ∧
      rs.stage = .roundComplete ∧ rs'.stage = .roundComplete ∧
      rs.unmaskedChunks = rs'.unmaskedChunks := by
  obtain ⟨rs, hrs, hstage, hkeys, hrows⟩ :=
    h.completes henv hinit hscripts hids hexpected hthreshold hchunk
  obtain ⟨rs', hrs', hstage', hkeys', hrows'⟩ :=
    h'.completes henv' hinit hscripts hids hexpected hthreshold hchunk
  have hempty : rs₀.progress.deliveries = .empty := by
    obtain ⟨_, _, _, _, rfl⟩ := Message.createdRound_eq_some hinit
    rfl
  obtain ⟨-, -, hsize, hmodel⟩ := foldl_receive_params ms rs₀.progress
  obtain ⟨-, -, hsize', hmodel'⟩ := foldl_receive_params ms' rs₀.progress
  have hequiv := (h.allDelivered hempty).equiv (h'.allDelivered hempty) (hsize.trans hsize'.symm)
    (hmodel.trans hmodel'.symm)
  rw [hequiv.average] at hrows
  exact ⟨rs, rs', hrs, hrs', hstage, hstage', hrows.unique hrows' hkeys hkeys'⟩

/-- A key agreement that returns ciphertexts and secrets of 32 equal bytes. -/
def constantKem (b : UInt8) : HostEnv :=
  { zeroEnv with encapsulate := fun _ _ => .ok (List.replicate 32 b, List.replicate 32 (b + 1)) }

theorem constantKem_encapsulates (b : UInt8) : (constantKem b).Encapsulates :=
  fun _ _ => ⟨List.replicate 32 b, _, rfl, by rw [List.length_replicate]; decide⟩

/-- Two chunks of one value for each of the clients 1 and 2, and the sample counts 3 and 1. -/
def twoScripts : List ClientScript :=
  [⟨1, someKey, (Dict.empty.insert 0 [0, 5]).insert 1 [0, 6], [0, 0, 0, 3]⟩,
    ⟨2, someKey, (Dict.empty.insert 0 [0, 7]).insert 1 [0, 8], [0, 0, 0, 1]⟩]

/-- One client after the other. -/
def inTurn : List Message :=
  [.of 1 1 0x01 0 someKey, .of 1 1 0x21 0 [0, 5], .of 1 1 0x21 1 [0, 6],
    .of 1 1 0x30 0 [0, 0, 0, 3], .of 1 2 0x01 0 someKey, .of 1 2 0x21 0 [0, 7],
    .of 1 2 0x21 1 [0, 8], .of 1 2 0x30 0 [0, 0, 0, 1]]

/-- The second client first, and the chunks of both in between each other. -/
def shuffled : List Message :=
  [.of 1 2 0x01 0 someKey, .of 1 2 0x21 1 [0, 8], .of 1 1 0x01 0 someKey, .of 1 1 0x21 1 [0, 6],
    .of 1 2 0x21 0 [0, 7], .of 1 2 0x30 0 [0, 0, 0, 1], .of 1 1 0x21 0 [0, 5],
    .of 1 1 0x30 0 [0, 0, 0, 3]]

theorem inTurn_deliveryOrder : DeliveryOrder 1 twoScripts inTurn where
  parsed := by decide
  connected := by decide
  round := by decide
  sender := by decide
  client c hc := by
    refine ⟨c.chunks.entries, .refl _, ?_⟩
    revert c
    decide

theorem shuffled_deliveryOrder : DeliveryOrder 1 twoScripts shuffled where
  parsed := by decide
  connected := by decide
  round := by decide
  sender := by decide
  client c hc := by
    refine ⟨c.chunks.entries.reverse, List.reverse_perm _, ?_⟩
    revert c
    decide

/-- The two orders, with different secrets. -/
theorem twoScripts_result : ∃ rs rs',
    (ServerState.new.handleAll (constantKem 1)
      (.of 1 0 0x40 0 [2, 2, 1, 0, 2, 0, 0, 0] :: inTurn)).rounds.get? 1 = some rs ∧
    (ServerState.new.handleAll (constantKem 9)
      (.of 1 0 0x40 0 [2, 2, 1, 0, 2, 0, 0, 0] :: shuffled)).rounds.get? 1 = some rs' ∧
    rs.stage = .roundComplete ∧ rs'.stage = .roundComplete ∧
    rs.unmaskedChunks = rs'.unmaskedChunks :=
  aggregate_independent_of_order (constantKem 1) (constantKem 9) (constantKem_encapsulates 1)
    (constantKem_encapsulates 9) (.of 1 0 0x40 0 [2, 2, 1, 0, 2, 0, 0, 0]) (.new 1 2 2 1 2) rfl
    twoScripts (by decide) (by decide) rfl (by decide) (by decide) inTurn shuffled
    inTurn_deliveryOrder shuffled_deliveryOrder

end SwiftAgg.Host
