import SwiftAgg.Spec.MaskSecrecy
import SwiftAgg.Spec.OrderIndependence

/-!
# Rounds of masked chunks

The clients of a group mask their chunks with the streams of their pairs, one
for both ends of a pair, and send them to the server, which averages what it has
stored under the sample counts. The masks cancel in the plain sum; under the
weights of the average they do so for all streams only if the weights are the
same modulo 3329.

## Key results

- `deliveryOrder_oneByOne`: there is an order in which all messages can arrive
- `MaskedRound.completes`: what the server publishes
- `MaskedRound.publishes_average_iff`: when that is the average of the chunks, whatever the streams
  are
-/

namespace SwiftAgg

namespace Host

/-! ## One client after the other -/

/-- The message of an item. -/
def Item.message (roundId clientId : Nat) : Item → Message
  | .key payload => .of roundId clientId 0x01 0 payload
  | .chunk seq data => .of roundId clientId 0x21 seq data
  | .complete payload => .of roundId clientId 0x30 0 payload

theorem Item.item_message (roundId clientId : Nat) (item : Item) :
    (item.message roundId clientId).item = some item := by
  cases item with
  | key payload => rfl
  | chunk seq data => rfl
  | complete payload => rfl

theorem Item.message_header (roundId clientId : Nat) (item : Item) :
    (item.message roundId clientId).header.roundId = roundId ∧
      (item.message roundId clientId).header.clientId = clientId ∧
      (item.message roundId clientId).closing = [] := by
  cases item with
  | key payload => exact ⟨rfl, rfl, rfl⟩
  | chunk seq data => exact ⟨rfl, rfl, rfl⟩
  | complete payload => exact ⟨rfl, rfl, rfl⟩

/-- The messages of a client. -/
def ClientScript.messages (roundId : Nat) (c : ClientScript) : List Message :=
  (c.items c.chunks.entries).map (Item.message roundId c.clientId)

/-- All clients one after the other. -/
def oneByOne (roundId : Nat) (scripts : List ClientScript) : List Message :=
  scripts.flatMap (ClientScript.messages roundId)

/-- What a client sends fits into messages. -/
structure ClientScript.Sendable (c : ClientScript) : Prop where
  clientId : c.clientId < 2 ^ 8
  publicKey : c.publicKey.length < 2 ^ 16
  chunks : ∀ e ∈ c.chunks.entries, e.1 < 2 ^ 16 ∧ e.2.length < 2 ^ 16
  completion : c.completion.length < 2 ^ 16

section

variable {roundId : Nat} {scripts : List ClientScript}

theorem ClientScript.Sendable.parsed {c : ClientScript} (h : c.Sendable) (hround : roundId < 2 ^ 32)
    {m : Message} (hm : m ∈ c.messages roundId) : m.header.Parsed := by
  obtain ⟨item, hitem, rfl⟩ := List.mem_map.mp hm
  rw [MessageHeader.parsed_iff]
  rw [ClientScript.items, List.mem_append, List.mem_cons, List.mem_map, List.mem_singleton] at hitem
  obtain (rfl | ⟨e, he, rfl⟩) | rfl := hitem
  · exact ⟨hround, h.clientId, (by decide : 0x01 < 2 ^ 8), (by decide : 0 < 2 ^ 16), h.publicKey⟩
  · exact ⟨hround, h.clientId, (by decide : 0x21 < 2 ^ 8), h.chunks e he⟩
  · exact ⟨hround, h.clientId, (by decide : 0x30 < 2 ^ 8), (by decide : 0 < 2 ^ 16), h.completion⟩

theorem ClientScript.header_of_mem {c : ClientScript} {m : Message} (hm : m ∈ c.messages roundId) :
    m.header.roundId = roundId ∧ m.header.clientId = c.clientId ∧ m.item.isSome := by
  obtain ⟨item, -, rfl⟩ := List.mem_map.mp hm
  obtain ⟨hround, hclient, -⟩ := item.message_header roundId c.clientId
  exact ⟨hround, hclient, by rw [Item.item_message]; rfl⟩

/-- The messages of one of the clients. -/
theorem filter_oneByOne (hids : (scripts.map ClientScript.clientId).Nodup) {c : ClientScript}
    (hc : c ∈ scripts) :
    (oneByOne roundId scripts).filter (fun m => m.header.clientId = c.clientId) =
      c.messages roundId := by
  have hown : ∀ c' : ClientScript, c'.clientId = c.clientId →
      (c'.messages roundId).filter (fun m => m.header.clientId = c.clientId) =
        c'.messages roundId := fun c' hid => List.filter_eq_self.mpr fun m hm =>
    decide_eq_true ((ClientScript.header_of_mem hm).2.1.trans hid)
  have hother : ∀ c' : ClientScript, c'.clientId ≠ c.clientId →
      (c'.messages roundId).filter (fun m => m.header.clientId = c.clientId) = [] :=
    fun c' hid => List.filter_eq_nil_iff.mpr fun m hm hof =>
      hid ((ClientScript.header_of_mem hm).2.1.symm.trans (of_decide_eq_true hof))
  induction scripts with
  | nil => cases hc
  | cons c' scripts ih =>
    rw [List.map_cons, List.nodup_cons] at hids
    rw [oneByOne, List.flatMap_cons, List.filter_append]
    rcases List.mem_cons.mp hc with rfl | hc
    · -- nobody behind it has its id
      have hrest : ∀ c' ∈ scripts,
          (c'.messages roundId).filter (fun m => m.header.clientId = c.clientId) = [] :=
        fun c' hc' => hother c' fun hid => hids.1 (hid ▸ List.mem_map_of_mem hc')
      rw [hown c rfl, List.filter_flatMap, List.flatMap_eq_nil_iff.mpr hrest, List.append_nil]
    · rw [hother c' fun hid => hids.1 (hid ▸ List.mem_map_of_mem hc), List.nil_append]
      exact ih hids.2 hc

/-- It is an order in which the messages can arrive. -/
theorem deliveryOrder_oneByOne (hround : roundId < 2 ^ 32)
    (hids : (scripts.map ClientScript.clientId).Nodup) (hsend : ∀ c ∈ scripts, c.Sendable) :
    DeliveryOrder roundId scripts (oneByOne roundId scripts) where
  parsed m hm := by
    obtain ⟨c, hc, hm⟩ := List.mem_flatMap.mp hm
    exact (hsend c hc).parsed hround hm
  connected m hm m' _ hlost := by
    obtain ⟨c, -, hm⟩ := List.mem_flatMap.mp hm
    obtain ⟨item, -, rfl⟩ := List.mem_map.mp hm
    rw [(item.message_header roundId c.clientId).2.2] at hlost
    cases hlost
  round m hm := by
    obtain ⟨c, hc, hm⟩ := List.mem_flatMap.mp hm
    exact (ClientScript.header_of_mem hm).1
  sender m hm := by
    obtain ⟨c, hc, hm⟩ := List.mem_flatMap.mp hm
    obtain ⟨-, hclient, hitem⟩ := ClientScript.header_of_mem hm
    exact ⟨hitem, c, hc, hclient.symm⟩
  client c hc := by
    refine ⟨c.chunks.entries, .refl _, ?_⟩
    rw [filter_oneByOne hids hc, ClientScript.messages, List.filterMap_map]
    have hitem : Message.item ∘ Item.message roundId c.clientId = some :=
      funext (Item.item_message roundId c.clientId)
    rw [hitem, List.filterMap_some]

/-- A sum over complete deliveries is a sum over the clients. -/
theorem AllDelivered.sum_values {M : Type} [AddCommMonoid M] {p : Progress}
    (h : AllDelivered scripts p) (hids : (scripts.map ClientScript.clientId).Nodup)
    {f : Delivery → M} {g : ClientScript → M}
    (hfg : ∀ c ∈ scripts, ∀ d, c.Delivered p.chunkSize d → f d = g c) :
    (p.deliveries.values.map f).sum = (scripts.map g).sum := by
  let table : Dict Nat ClientScript :=
    ⟨scripts.map fun c => (c.clientId, c), by rwa [List.map_map]⟩
  have hperm := Dict.perm_map_entries (d := p.deliveries) (e := table) (f := fun _ => f)
    (g := fun _ => g) fun id => ?_
  · rw [Dict.values, List.map_map]
    refine hperm.sum_eq.trans ?_
    rw [List.map_map]
    rfl
  · by_cases hid : ∃ c ∈ scripts, c.clientId = id
    · obtain ⟨c, hc, rfl⟩ := hid
      obtain ⟨d, hd, hdelivered⟩ := h.clients c hc
      have htable : table.get? c.clientId = some c :=
        Dict.get?_eq_some_iff.mpr (List.mem_map_of_mem hc)
      rw [hd, htable, Option.map_some, Option.map_some, hfg c hc d hdelivered]
    · have hnone : ∀ c ∈ scripts, c.clientId ≠ id := fun c hc heq => hid ⟨c, hc, heq⟩
      have htable : table.get? id = none := Dict.get?_eq_none_iff.mpr fun hmem => by
        obtain ⟨c, hc⟩ := Dict.mem_keys_iff.mp hmem
        obtain ⟨c', hc', heq⟩ := List.mem_map.mp hc
        exact hnone c' hc' (congrArg Prod.fst heq)
      rw [h.others id hnone, htable]
      rfl

end

end Host

/-! ## A round of masked chunks -/

open Host Native

/-- The clients of a round with what they bring into it: `num` chunks of `size` words each, a public
    key and a number of samples, all of which fit into messages. -/
structure MaskedRound where
  group : List UInt8
  nodup : group.Nodup
  nonempty : group ≠ []
  peers : UInt8 → List UInt8
  peerTables : PeerTables group.toFinset peers
  num : Nat
  num_pos : 0 < num
  num_le : num ≤ 2 ^ 16
  size : Nat
  size_pos : 0 < size
  size_lt : size < 2 ^ 15
  chunk : Nat → UInt8 → List Int
  length_chunk : ∀ i a, (chunk i a).length = size
  publicKey : UInt8 → Bytes
  publicKey_lt : ∀ a, (publicKey a).length < 2 ^ 16
  samples : UInt8 → Nat
  samples_lt : ∀ a, samples a < 2 ^ 32

namespace MaskedRound

/-- What a client sends, with a stream for each chunk and pair. -/
def script (r : MaskedRound) (stream : Nat → PairStreams r.size) (a : UInt8) : ClientScript where
  clientId := a.toNat
  publicKey := r.publicKey a
  chunks := .tabulate r.num fun i =>
    Bytes.packInt16BE (maskedChunk (stream i) r.peers (r.chunk i) a)
  completion := Bytes.be32 (r.samples a)

def scripts (r : MaskedRound) (stream : Nat → PairStreams r.size) : List ClientScript :=
  r.group.map (r.script stream)

/-- The weight of a client: its samples, or one. -/
def weight (r : MaskedRound) (a : UInt8) : Nat := if 0 < r.samples a then r.samples a else 1

/-- All samples, or the number of clients if nobody has any. -/
def total (r : MaskedRound) : Nat :=
  if (r.group.map r.samples).sum = 0 then r.group.length else (r.group.map r.samples).sum

/-- What the weighted sums are multiplied with. -/
def scale (r : MaskedRound) : Gf := if 1 < r.total then (r.total : Gf)⁻¹ else 1

/-- The weighted average of the chunks, without any mask. -/
def average (r : MaskedRound) (i j : Nat) : Gf :=
  (∑ a ∈ r.group.toFinset, (r.weight a : Gf) * chunkResidue (r.chunk i) j a) * r.scale

/-- What the weights leave of the masks. -/
def residue (r : MaskedRound) (stream : Nat → PairStreams r.size) (i j : Nat) : Gf :=
  (∑ a ∈ r.group.toFinset, (r.weight a : Gf) *
    ∑ b ∈ r.group.toFinset.erase a, pairTerm (stream i) j a b) * r.scale

section

variable (r : MaskedRound) (stream : Nat → PairStreams r.size)

theorem length_maskedChunk (i : Nat) (a : UInt8) :
    (maskedChunk (stream i) r.peers (r.chunk i) a).length = r.size :=
  SwiftAgg.length_maskedChunk (stream i) r.peers (r.length_chunk i a)

theorem script_sendable (a : UInt8) : (r.script stream a).Sendable where
  clientId := a.toNat_lt
  publicKey := r.publicKey_lt a
  chunks e he := by
    obtain ⟨hi, hdata⟩ := Dict.mem_entries_tabulate.mp he
    refine ⟨hi.trans_le r.num_le, ?_⟩
    rw [hdata, Bytes.length_packInt16BE, r.length_maskedChunk stream]
    have := r.size_lt
    omega
  completion := by
    show 4 < 2 ^ 16
    decide

theorem nodup_scripts : ((r.scripts stream).map ClientScript.clientId).Nodup := by
  rw [scripts, List.map_map]
  exact r.nodup.map fun a b hab => UInt8.toNat_inj.mp hab

theorem length_scripts : (r.scripts stream).length = r.group.length :=
  List.length_map _

theorem scripts_ne_nil : r.scripts stream ≠ [] := by
  rw [scripts, Ne, List.map_eq_nil_iff]
  exact r.nonempty

/-- A sum over the scripts is one over the clients. -/
theorem sum_scripts {M : Type} [AddCommMonoid M] (g : ClientScript → M) :
    ((r.scripts stream).map g).sum = ∑ a ∈ r.group.toFinset, g (r.script stream a) := by
  rw [scripts, List.map_map, List.sum_toFinset _ r.nodup]
  rfl

theorem announcedSamples_be32 (a : UInt8) :
    announcedSamples (Bytes.be32 (r.samples a)) 0 = r.samples a :=
  Bytes.word32_ofNat (r.samples_lt a)

/-- The server unpacks the words that the client has masked. -/
theorem delivered_value {a : UInt8} (ha : a ∈ r.group) {d : Delivery}
    (hd : (r.script stream a).Delivered r.size d) {i j : Nat} (hi : i < r.num) (hj : j < r.size) :
    ((d.value i j : Int) : Gf) =
      PairMask.masked r.group.toFinset (pairTerm (stream i) j) (chunkResidue (r.chunk i) j) a := by
  have hlen := r.length_maskedChunk stream i a
  have ha' : a ∈ r.group.toFinset := List.mem_toFinset.mpr ha
  have hmasked : ∀ k < r.size, Canonical ((maskedChunk (stream i) r.peers (r.chunk i) a).getD k 0) ∧
      (((maskedChunk (stream i) r.peers (r.chunk i) a).getD k 0 : Int) : Gf) =
        PairMask.masked r.group.toFinset (pairTerm (stream i) k) (chunkResidue (r.chunk i) k) a :=
    fun k hk => maskedChunk_cast r.peerTables ha' (r.length_chunk i a) hk
  -- all words of the chunk are canonical, so they survive the packing
  have hwords : ∀ v ∈ maskedChunk (stream i) r.peers (r.chunk i) a, -2 ^ 15 ≤ v ∧ v < 2 ^ 15 := by
    intro v hv
    obtain ⟨k, hk, rfl⟩ := List.getElem_of_mem hv
    have hcanon := (hmasked k (hlen ▸ hk)).1
    rw [List.getD_eq_getElem _ _ hk] at hcanon
    exact hcanon.int16
  have hstored : d.chunks.get? i =
      some (Bytes.packInt16BE (maskedChunk (stream i) r.peers (r.chunk i) a)) := by
    rw [hd.chunks i, script, Dict.get?_tabulate _ hi]
    refine Option.filter_some_pos (decide_eq_true ?_)
    rw [Bytes.length_packInt16BE, hlen, Nat.mul_comm]
  rw [Delivery.value, hstored, Option.map_some, Option.getD_some, Bytes.int16sBE_packInt16BE hwords]
  exact (hmasked j hj).2

end

section

variable {r : MaskedRound} {stream : Nat → PairStreams r.size} {p : Progress}

/-- A complete delivery of a client has the client's weight. -/
theorem delivered_weight {a : UInt8} {d : Delivery} (hd : (r.script stream a).Delivered r.size d) :
    d.weight = r.weight a := by
  have hsamples : d.sampleCount = r.samples a := hd.sampleCount.trans (r.announcedSamples_be32 a)
  rw [Delivery.weight, hd.completed, hsamples]
  rfl

/-- The server divides by the total of the round. -/
theorem delivered_total (h : AllDelivered (r.scripts stream) p) : p.total = r.total := by
  have hsum : (p.deliveries.values.map Delivery.samples).sum = (r.group.map r.samples).sum := by
    rw [h.sum_values (r.nodup_scripts stream) (g := fun c => announcedSamples c.completion 0)
      fun c hc d hd => ?_]
    · rw [r.sum_scripts stream, ← List.sum_toFinset _ r.nodup]
      exact Finset.sum_congr rfl fun a _ => r.announcedSamples_be32 a
    · rw [Delivery.samples, hd.completed, hd.sampleCount]
      rfl
  rw [Progress.total, total, hsum, h.completed (r.nodup_scripts stream), r.length_scripts stream]

/-- The average of the deliveries is that of the chunks and what is left of the masks. -/
theorem delivered_average (h : AllDelivered (r.scripts stream) p) (hsize : p.chunkSize = r.size)
    {i j : Nat} (hi : i < r.num) (hj : j < r.size) :
    p.average i j = r.average i j + r.residue stream i j := by
  let masked : UInt8 → Gf := fun a => r.weight a *
    PairMask.masked r.group.toFinset (pairTerm (stream i) j) (chunkResidue (r.chunk i) j) a
  have hsum := h.sum_values (r.nodup_scripts stream)
    (f := fun d => (d.weight : Gf) * (d.value i j : Int))
    (g := fun c => masked (UInt8.ofNat c.clientId)) fun c hc d hd => by
      obtain ⟨a, ha, rfl⟩ := List.mem_map.mp hc
      rw [hsize] at hd
      have hid : UInt8.ofNat (r.script stream a).clientId = a := UInt8.ofNat_toNat
      rw [delivered_weight hd, r.delivered_value stream ha hd hi hj, hid]
  have hids : ∀ a, masked (UInt8.ofNat (r.script stream a).clientId) = masked a := fun a =>
    congrArg masked UInt8.ofNat_toNat
  rw [Progress.average, hsum, delivered_total h, r.sum_scripts stream,
    Finset.sum_congr rfl fun a _ => hids a]
  simp only [masked, PairMask.masked, mul_add, Finset.sum_add_distrib, add_mul]
  rfl

end

/-! ## The result of the round -/

section

variable {r : MaskedRound} {stream : Nat → PairStreams r.size} {env : HostEnv} {init : Host.Message}
  {rs₀ : RoundState} {ms : List Host.Message}

/-- A round for the group, with its chunks. -/
structure Opens (r : MaskedRound) (rs₀ : RoundState) : Prop where
  expectedClients : rs₀.expectedClients = r.group.length
  threshold : rs₀.threshold ≤ r.group.length
  chunkSize : rs₀.chunkSize = r.size
  chunks : rs₀.modelSize / rs₀.chunkSize = r.num

/-- After a run of messages the round of the first one is complete, and its result represents the
    residues `y`. -/
def Publishes (r : MaskedRound) (env : HostEnv) (init : Host.Message) (ms : List Host.Message)
    (y : Nat → Nat → Gf) : Prop := ∃ rs,
  (ServerState.new.handleAll env (init :: ms)).rounds.get? init.header.roundId = some rs ∧
    rs.stage = .roundComplete ∧ rs.unmaskedChunks.keys = List.range r.num ∧
    Rows r.num r.size rs.unmaskedChunks y

/-- In whatever order the messages arrive, the server publishes the average together with what is
    left of the masks. -/
theorem completes (henv : env.Encapsulates) (hinit : init.createdRound = some rs₀)
    (hopens : r.Opens rs₀) (h : DeliveryOrder init.header.roundId (r.scripts stream) ms) :
    r.Publishes env init ms fun i j => r.average i j + r.residue stream i j := by
  have hlen := r.length_scripts stream
  have hsize := hopens.chunkSize
  obtain ⟨rs, hrs, hstage, hkeys, hrows⟩ := h.completes henv hinit (r.scripts_ne_nil stream)
    (r.nodup_scripts stream) (hopens.expectedClients.trans hlen.symm)
    (hopens.threshold.trans_eq hlen.symm) (hsize.trans_ne r.size_pos.ne')
  have hempty : rs₀.progress.deliveries = .empty := by
    obtain ⟨_, _, _, _, rfl⟩ := Host.Message.createdRound_eq_some hinit
    rfl
  have hall := h.allDelivered hempty
  obtain ⟨-, -, hchunk, -⟩ := foldl_receive_params ms rs₀.progress
  rw [hopens.chunks] at hkeys hrows
  rw [hsize] at hrows
  exact ⟨rs, hrs, hstage, hkeys, hrows.congr fun i hi j hj =>
    delivered_average hall (hchunk.trans hsize) hi hj⟩

/-- Streams for given terms of the pairs, the same for all chunks and positions. -/
def streamsOf (size : Nat) (f : UInt8 → UInt8 → Gf) : Nat → PairStreams size := fun _ z =>
  streamOfWords size fun _ => f z.inf z.sup

theorem pairTerm_streamsOf {f : UInt8 → UInt8 → Gf} (hf : PairMask.Antisymm f) {size i j : Nat}
    (hj : j < size) {a b : UInt8} (hab : a ≠ b) :
    pairTerm (streamsOf size f i) j a b = f a b := by
  rw [pairTerm, streamsOf, keystreamWord_streamOfWords hj, Gf.cast_val, Sym2.inf_mk, Sym2.sup_mk]
  -- the loop of the larger id subtracts the word
  rcases lt_or_gt_of_ne hab with hlt | hlt
  · simp [Native.maskSign, hlt, hlt.le]
  · simp [Native.maskSign, not_lt_of_gt hlt, hlt.le, eq_neg_of_add_eq_zero_left (hf a b hab)]

/-- Where the server publishes the average, there is nothing left of the masks. -/
theorem residue_of_publishes (henv : env.Encapsulates) (hinit : init.createdRound = some rs₀)
    (hopens : r.Opens rs₀) (h : DeliveryOrder init.header.roundId (r.scripts stream) ms)
    (haverage : r.Publishes env init ms r.average) {i j : Nat} (hi : i < r.num) (hj : j < r.size) :
    r.residue stream i j = 0 := by
  obtain ⟨rs, hrs, -, -, hrows⟩ := haverage
  obtain ⟨rs', hrs', -, -, hrows'⟩ := completes henv hinit hopens h
  obtain rfl : rs = rs' := Option.some.inj (hrs.symm.trans hrs')
  obtain ⟨row, hrow, -, hvals⟩ := hrows i hi
  obtain ⟨row', hrow', -, hvals'⟩ := hrows' i hi
  obtain rfl : row = row' := Option.some.inj (hrow.symm.trans hrow')
  have hword := (hvals j hj).2.symm.trans (hvals' j hj).2
  exact left_eq_add.mp hword

/-- There is nothing left of them if the weights are the same modulo 3329. -/
theorem residue_eq_zero
    (hweight : ∀ a ∈ r.group, ∀ b ∈ r.group, r.weight a ≡ r.weight b [MOD 3329]) (i j : Nat) :
    r.residue stream i j = 0 := by
  have hequal : ∀ a ∈ r.group.toFinset, ∀ b ∈ r.group.toFinset,
      (r.weight a : Gf) = (r.weight b : Gf) := fun a ha b hb =>
    (ZMod.natCast_eq_natCast_iff _ _ _).mpr
      (hweight a (List.mem_toFinset.mp ha) b (List.mem_toFinset.mp hb))
  have hcancel := PairMask.weighted_cancel_iff.mpr hequal
  rw [residue, hcancel _ (antisymm_pairTerm (stream i) j), zero_mul]

/-- What is left of masks with given terms. -/
theorem residue_streamsOf (r : MaskedRound) {f : UInt8 → UInt8 → Gf} (hf : PairMask.Antisymm f)
    {i j : Nat} (hj : j < r.size) : r.residue (streamsOf r.size f) i j =
      (∑ a ∈ r.group.toFinset, (r.weight a : Gf) * ∑ b ∈ r.group.toFinset.erase a, f a b) *
        r.scale := by
  refine congrArg (· * r.scale) (Finset.sum_congr rfl fun a _ => ?_)
  refine congrArg ((r.weight a : Gf) * ·) (Finset.sum_congr rfl fun b hb => ?_)
  exact pairTerm_streamsOf hf hj (Finset.ne_of_mem_erase hb).symm

/-- The messages of the clients can arrive one client after the other. -/
theorem deliveryOrder (r : MaskedRound) (stream : Nat → PairStreams r.size) {roundId : Nat}
    (hround : roundId < 2 ^ 32) :
    DeliveryOrder roundId (r.scripts stream) (oneByOne roundId (r.scripts stream)) := by
  refine deliveryOrder_oneByOne hround (r.nodup_scripts stream) fun c hc => ?_
  obtain ⟨a, -, rfl⟩ := List.mem_map.mp hc
  exact r.script_sendable stream a

theorem total_pos (r : MaskedRound) : 0 < r.total := by
  have hgroup := List.length_pos_iff.mpr r.nonempty
  unfold total
  split
  · exact hgroup
  · omega

/-- The sums are lost in the scaling exactly if the total is divisible by 3329. -/
theorem scale_eq_zero_iff (r : MaskedRound) : r.scale = 0 ↔ 3329 ∣ r.total := by
  have hpos := r.total_pos
  unfold scale
  split
  · rw [inv_eq_zero, ZMod.natCast_eq_zero_iff]
  · have hone : r.total = 1 := by omega
    rw [hone]
    decide

end

/-- In whatever order the messages arrive, the server publishes the average of the unmasked chunks
    together with what is left of the masks. For all streams this is the average exactly if all
    clients have the same weight modulo 3329, or if the total is divisible by 3329, where everything
    becomes zero. -/
theorem publishes_average_iff (r : MaskedRound) (env : HostEnv) (henv : env.Encapsulates)
    (init : Host.Message) (hparsed : init.header.Parsed) (rs₀ : RoundState)
    (hinit : init.createdRound = some rs₀) (hopens : r.Opens rs₀) :
    (∀ stream ms, DeliveryOrder init.header.roundId (r.scripts stream) ms →
      r.Publishes env init ms fun i j => r.average i j + r.residue stream i j) ∧
    ((∀ stream ms, DeliveryOrder init.header.roundId (r.scripts stream) ms →
      r.Publishes env init ms r.average) ↔
    3329 ∣ r.total ∨ ∀ a ∈ r.group, ∀ b ∈ r.group, r.weight a ≡ r.weight b [MOD 3329]) := by
  refine ⟨fun stream ms => completes henv hinit hopens, ?_⟩
  constructor
  · intro hall
    rw [← scale_eq_zero_iff, or_iff_not_imp_left]
    intro hscale
    -- streams that realise arbitrary terms of the pairs leave nothing of them
    have hcancel : ∀ f : UInt8 → UInt8 → Gf, PairMask.Antisymm f →
        ∑ a ∈ r.group.toFinset, (r.weight a : Gf) * ∑ b ∈ r.group.toFinset.erase a, f a b = 0 := by
      intro f hf
      have horder := r.deliveryOrder (streamsOf r.size f) (MessageHeader.parsed_iff.mp hparsed).1
      have hresidue := residue_of_publishes henv hinit hopens horder (hall _ _ horder) r.num_pos
        r.size_pos
      rw [r.residue_streamsOf hf r.size_pos] at hresidue
      exact (mul_eq_zero.mp hresidue).resolve_right hscale
    intro a ha b hb
    rw [← ZMod.natCast_eq_natCast_iff]
    exact PairMask.weighted_cancel_iff.mp hcancel a (List.mem_toFinset.mpr ha) b
      (List.mem_toFinset.mpr hb)
  · intro hcond stream ms h
    obtain ⟨rs, hrs, hstage, hkeys, hrows⟩ := completes henv hinit hopens h
    refine ⟨rs, hrs, hstage, hkeys, hrows.congr fun i _ j _ => ?_⟩
    rcases hcond with htotal | hweight
    · rw [average, residue, (scale_eq_zero_iff r).mpr htotal, mul_zero, mul_zero, add_zero]
    · rw [residue_eq_zero hweight, add_zero]

/-- Three clients with one chunk of two words each, and with as many samples as their ids. -/
def three : MaskedRound where
  group := [1, 2, 3]
  nodup := by decide
  nonempty := by decide
  peers := threeTables
  peerTables := threeTables_peerTables
  num := 1
  num_pos := by decide
  num_le := by decide
  size := 2
  size_pos := by decide
  size_lt := by decide
  chunk _ a := twoWordChunks (fun a => a.toNat) a
  length_chunk _ _ := rfl
  publicKey _ := someKey
  publicKey_lt _ := by decide
  samples a := a.toNat
  samples_lt a := a.toNat_lt.trans (by decide)

/-- Their masks do not cancel under all streams. -/
theorem publishes_average_three :
    ¬∀ stream ms, DeliveryOrder 1 (three.scripts stream) ms →
      three.Publishes (constantKem 1) (.of 1 0 0x40 0 [3, 2, 2, 0, 2, 0, 0, 0]) ms
        three.average := by
  intro hall
  have hiff := publishes_average_iff three (constantKem 1) (constantKem_encapsulates 1)
    (.of 1 0 0x40 0 [3, 2, 2, 0, 2, 0, 0, 0]) (by decide) (.new 1 3 2 2 2) rfl
    ⟨rfl, by decide, rfl, rfl⟩
  exact absurd (hiff.2.mp hall) (by decide)

end MaskedRound

end SwiftAgg
