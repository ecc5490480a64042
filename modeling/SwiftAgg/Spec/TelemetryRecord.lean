import SwiftAgg.Host.Telemetry
import SwiftAgg.Spec.Broadcast

/-!
# The telemetry record of an aggregated chunk

The writer packs 60 bytes, and the reader takes the last 64 bytes of the
payload for the record. So it starts with the last two values of the chunk, and
every field is read from the place of the one before it; the flags come out of
a counter that is always zero.

## Key results

- `parseTelemetry_payload`: what the reader makes of a payload
- `telemetry_survives_iff`: for which records and chunks that is the record
- `collectTelemetry_not_survives`: it never is for the records of the server
-/

namespace SwiftAgg.Host

/-! ## Writing -/

/-- The fields fit the format. -/
structure Telemetry.InRange (t : Telemetry) : Prop where
  counters : ∀ w ∈ t.counters, w < 2 ^ 32
  aggregationSuccess : t.aggregationSuccess < 2 ^ 8
  accuracy : t.accuracy < 2 ^ 8

/-- Every value fits 16 bits. -/
def IsInt16Chunk (chunk : List Int) : Prop := ∀ v ∈ chunk, -2 ^ 15 ≤ v ∧ v < 2 ^ 15

/-- The first 56 bytes of a record, as words. -/
def Telemetry.words (t : Telemetry) : List Nat := t.counters ++ [0, 0, 0]

/-- The last four bytes of a record. -/
def Telemetry.flags (t : Telemetry) : List Nat :=
  [if t.heapZero then 1 else 0, t.aggregationSuccess, t.accuracy, 0]

@[simp] theorem Telemetry.length_words (t : Telemetry) : t.words.length = 14 := rfl

@[simp] theorem Telemetry.length_flags (t : Telemetry) : t.flags.length = 4 := rfl

section

variable {t : Telemetry} {chunk : List Int}

theorem Telemetry.InRange.words (h : t.InRange) : ∀ w ∈ t.words, w < 2 ^ 32 := by
  intro w hw
  rcases List.mem_append.mp hw with hw | hw
  · exact h.counters w hw
  · have hzero : w = 0 := by simpa using hw
    omega

theorem Telemetry.InRange.flags (h : t.InRange) : ∀ f ∈ t.flags, f < 2 ^ 8 := by
  have hheap : (if t.heapZero then 1 else 0) < 2 ^ 8 := by split <;> omega
  simp only [Telemetry.flags, List.forall_mem_cons, List.not_mem_nil, false_implies, implies_true,
    and_true]
  exact ⟨hheap, h.aggregationSuccess, h.accuracy, by omega⟩

/-- The bytes of a record. -/
def Telemetry.bytes (t : Telemetry) : Bytes :=
  Bytes.packU32BE t.words ++ t.flags.map UInt8.ofNat

@[simp] theorem Telemetry.length_bytes (t : Telemetry) : t.bytes.length = 60 := by
  simp [Telemetry.bytes]

/-- A record whose fields fit the format is packed. -/
theorem Telemetry.InRange.pack (h : t.InRange) : t.pack = .ok t.bytes :=
  if_pos ⟨h.words, h.flags⟩

theorem roundCompletePayload_eq (ht : t.InRange) (hchunk : IsInt16Chunk chunk) :
    roundCompletePayload t chunk.length chunk = .ok (Bytes.packInt16BE chunk ++ t.bytes) := by
  rw [roundCompletePayload, ht.pack, packChunk, if_pos ⟨rfl, hchunk⟩]
  rfl

end

/-! ## The writer in the server -/

theorem collectTelemetry_inRange {roundId : Nat} (h : roundId < 2 ^ 32) :
    (collectTelemetry roundId).InRange where
  counters := by simpa [Telemetry.counters, collectTelemetry] using h
  aggregationSuccess := show 1 < 2 ^ 8 by decide
  accuracy := show 255 < 2 ^ 8 by decide

/-- What the server packs is the record that it collects. -/
theorem packTelemetry_eq (roundId : Nat) :
    packTelemetry roundId = (collectTelemetry roundId).pack := by
  rw [packTelemetry]
  split
  · rename_i hid
    rw [(collectTelemetry_inRange hid).pack]
    simp [Telemetry.bytes, Telemetry.words, Telemetry.counters, Telemetry.flags, collectTelemetry,
      Bytes.packU32BE, Bytes.be32]
  · rename_i hid
    refine (if_neg fun h => hid ?_).symm
    exact h.1 roundId List.mem_cons_self

/-- The message with a chunk is a header with this payload behind it. -/
theorem aggregateMessage_payload {rs : RoundState} {fed : Dict Nat (List Int)} {chunk : List Int}
    {telemetry data : Bytes} {seqNum : Nat} (htelemetry : packTelemetry rs.roundId = .ok telemetry)
    (hchunk : fed.get? seqNum = some chunk)
    (hmessage : aggregateMessage rs fed telemetry seqNum = .ok data) :
    ∃ payload header,
      roundCompletePayload (collectTelemetry rs.roundId) rs.chunkSize chunk = .ok payload ∧
      buildHeader 0x41 rs.roundId 0 seqNum payload.length = .ok header ∧
      data = header ++ payload := by
  rw [aggregateMessage, hchunk] at hmessage
  obtain ⟨values, hvalues, hmessage⟩ := Except.bind_eq_ok.mp hmessage
  cases hvalues
  obtain ⟨result, hresult, hmessage⟩ := Except.bind_eq_ok.mp hmessage
  obtain ⟨header, hheader, hmessage⟩ := Except.bind_eq_ok.mp hmessage
  cases hmessage
  refine ⟨result ++ telemetry, header, ?_, ?_, List.append_assoc _ _ _⟩
  · rw [roundCompletePayload, ← packTelemetry_eq, htelemetry, hresult]
    rfl
  · rw [List.length_append]
    exact hheader

/-! ## Reading -/

/-- The last two values of a chunk, read as one word. -/
def tailWord (chunk : List Int) : Nat :=
  2 ^ 16 * (chunk.getD (chunk.length - 2) 0 % 2 ^ 16).toNat +
    (chunk.getD (chunk.length - 1) 0 % 2 ^ 16).toNat

/-- The record one place too early: the counters after a given word, and no flags. -/
def Telemetry.shifted (t : Telemetry) (word : Nat) : Telemetry where
  roundId := word
  keygenCycles := t.roundId
  encapsCycles := t.keygenCycles
  decapsCycles := t.encapsCycles
  hkdfCycles := t.decapsCycles
  maskGenCycles := t.hkdfCycles
  maskApplyCycles := t.maskGenCycles
  peakSram := t.maskApplyCycles
  minFreeHeap := t.peakSram
  largestFreeBlock := t.minFreeHeap
  stackHighWater := t.largestFreeBlock
  heapZero := false
  aggregationSuccess := 0
  accuracy := 0

theorem tailWord_lt (chunk : List Int) : tailWord chunk < 2 ^ 32 := by
  rw [tailWord]
  omega

/-- The last four bytes of a packed chunk. -/
theorem packInt16BE_tail {chunk : List Int} (hlen : 2 ≤ chunk.length) :
    ∃ front, Bytes.packInt16BE chunk = front ++ Bytes.be32 (tailWord chunk) := by
  have hlast : (chunk.drop (chunk.length - 2)).length = 2 := by
    rw [List.length_drop]
    omega
  obtain ⟨v, w, hvw⟩ := List.length_eq_two.mp hlast
  obtain ⟨front, rfl⟩ : ∃ front, chunk = front ++ [v, w] :=
    ⟨_, by rw [← hvw, List.take_append_drop]⟩
  refine ⟨Bytes.packInt16BE front, ?_⟩
  have hword : tailWord (front ++ [v, w]) =
      2 ^ 16 * (v % 2 ^ 16).toNat + (w % 2 ^ 16).toNat := by
    simp [tailWord]
  rw [hword, Bytes.be32_add (by omega)]
  simp [Bytes.packInt16BE]

/-- Fifteen packed words, read as a record. -/
theorem unpackRecord_packU32BE {ws : List Nat} {w : Nat} (hlen : ws.length = 14)
    (h : ∀ v ∈ ws, v < 2 ^ 32) :
    unpackRecord (Bytes.packU32BE (ws ++ [w])) = ws ++ (Bytes.be32 w).map UInt8.toNat := by
  have hsplit : Bytes.packU32BE (ws ++ [w]) = Bytes.packU32BE ws ++ Bytes.be32 w := by
    simp [Bytes.packU32BE]
  have hpacked : (Bytes.packU32BE ws).length = 56 := by rw [Bytes.length_packU32BE, hlen]
  rw [unpackRecord, hsplit, List.take_left' hpacked, List.drop_left' hpacked,
    Bytes.u32sBE_packU32BE h]

/-- What the reader makes of a payload. -/
theorem parseTelemetry_payload {t : Telemetry} (ht : t.InRange) {chunk : List Int}
    (hlen : 2 ≤ chunk.length) :
    handleTelemetryMessage 0x41 (Bytes.packInt16BE chunk ++ t.bytes) =
      some (some (t.shifted (tailWord chunk))) := by
  obtain ⟨front, hfront⟩ := packInt16BE_tail hlen
  -- the last 64 bytes are fifteen words and the flags
  have hpayload : Bytes.packInt16BE chunk ++ t.bytes =
      front ++ (Bytes.packU32BE (tailWord chunk :: t.words) ++ t.flags.map UInt8.ofNat) := by
    rw [hfront, Telemetry.bytes]
    simp [Bytes.packU32BE]
  have hwords : (Bytes.packU32BE (tailWord chunk :: t.words)).length = 60 := by simp
  rw [hpayload, handleTelemetryMessage, if_pos (by simp)]
  have hdrop : (front ++ (Bytes.packU32BE (tailWord chunk :: t.words) ++
      t.flags.map UInt8.ofNat)).length - 64 = front.length := by
    simp
  rw [hdrop, List.drop_left, parseTelemetry, if_neg (by simp), List.take_left' hwords]
  -- the fifteenth word is the last of the zeros
  have hlast : tailWord chunk :: t.words = tailWord chunk :: (t.counters ++ [0, 0]) ++ [0] := rfl
  have hrange : ∀ v ∈ tailWord chunk :: (t.counters ++ [0, 0]), v < 2 ^ 32 := by
    have hcounters := ht.counters
    have hword := tailWord_lt chunk
    simp only [List.forall_mem_cons, List.forall_mem_append, List.not_mem_nil, false_implies,
      implies_true, and_true]
    exact ⟨hword, hcounters, by omega, by omega⟩
  rw [hlast, unpackRecord_packU32BE rfl hrange]
  rfl

/-! ## The record in the payload -/

/-- The reader gets the integer fields of a record, its heap flag and its success out of a
    payload. -/
def Telemetry.Survives (t : Telemetry) (payload : Bytes) : Prop :=
  ∃ read, handleTelemetryMessage 0x41 payload = some (some read) ∧
    read.counters = t.counters ∧ read.heapZero = t.heapZero ∧
      read.aggregationSuccess = t.aggregationSuccess

/-- A shifted record has the same counters only if they are all the word in front of them. -/
theorem Telemetry.counters_shifted_iff (t : Telemetry) (word : Nat) :
    (t.shifted word).counters = t.counters ↔ ∀ w ∈ t.counters, w = word := by
  simp only [Telemetry.counters, Telemetry.shifted, List.cons.injEq, and_true,
    List.forall_mem_cons, List.not_mem_nil, false_implies, implies_true]
  omega

theorem Telemetry.survives_payload_iff {t : Telemetry} (ht : t.InRange) {chunk : List Int}
    (hlen : 2 ≤ chunk.length) :
    t.Survives (Bytes.packInt16BE chunk ++ t.bytes) ↔
      (∀ w ∈ t.counters, w = tailWord chunk) ∧ t.heapZero = false ∧ t.aggregationSuccess = 0 := by
  rw [Survives, parseTelemetry_payload ht hlen, ← t.counters_shifted_iff]
  -- the reader has no other record to offer
  constructor
  · rintro ⟨_, ⟨⟩, hcounters, hheap, hsuccess⟩
    exact ⟨hcounters, hheap.symm, hsuccess.symm⟩
  · rintro ⟨hcounters, hheap, hsuccess⟩
    exact ⟨_, rfl, hcounters, hheap.symm, hsuccess.symm⟩

/-- The records that the server collects never come through: they report a success. -/
theorem collectTelemetry_not_survives {roundId : Nat} (hid : roundId < 2 ^ 32) {chunk : List Int}
    (hlen : 2 ≤ chunk.length) :
    ¬(collectTelemetry roundId).Survives
      (Bytes.packInt16BE chunk ++ (collectTelemetry roundId).bytes) := by
  rw [Telemetry.survives_payload_iff (collectTelemetry_inRange hid) hlen]
  rintro ⟨-, -, hsuccess⟩
  exact absurd hsuccess Nat.one_ne_zero

/-- Any record and chunk make a payload; where it has 64 bytes, the reader gets the record out of
    it exactly if all integer fields are the word that the last two values of the chunk make, the
    heap flag is off, and no success is reported. -/
theorem telemetry_survives_iff (t : Telemetry) (ht : t.InRange) (chunk : List Int)
    (hchunk : IsInt16Chunk chunk) :
    ∃ payload, roundCompletePayload t chunk.length chunk = .ok payload ∧
      (64 ≤ payload.length →
        (t.Survives payload ↔ (∀ w ∈ t.counters, w = tailWord chunk) ∧
          t.heapZero = false ∧ t.aggregationSuccess = 0)) := by
  refine ⟨_, roundCompletePayload_eq ht hchunk, fun hlen => ?_⟩
  apply Telemetry.survives_payload_iff ht
  rw [List.length_append, Bytes.length_packInt16BE, Telemetry.length_bytes] at hlen
  omega

/-- The record of round 1 with the chunk of two zeros. -/
theorem telemetry_survives_iff_roundOne :
    ∃ payload, roundCompletePayload (collectTelemetry 1) [0, 0].length [0, 0] = .ok payload ∧
      (64 ≤ payload.length →
        ((collectTelemetry 1).Survives payload ↔
          (∀ w ∈ (collectTelemetry 1).counters, w = tailWord [0, 0]) ∧
          (collectTelemetry 1).heapZero = false ∧ (collectTelemetry 1).aggregationSuccess = 0)) :=
  telemetry_survives_iff _ (collectTelemetry_inRange (by decide)) _ (by simp [IsInt16Chunk])

/-- The reader takes the record of round 1 for one of round 0 that failed. -/
theorem roundOne_not_survives :
    ∃ payload, roundCompletePayload (collectTelemetry 1) 2 [0, 0] = .ok payload ∧
      64 ≤ payload.length ∧ ¬(collectTelemetry 1).Survives payload := by
  have hchunk : IsInt16Chunk [0, 0] := by simp [IsInt16Chunk]
  refine ⟨_, roundCompletePayload_eq (collectTelemetry_inRange (by decide)) hchunk, ?_, ?_⟩
  · simp
  · exact collectTelemetry_not_survives (by decide) (by decide)

end SwiftAgg.Host
