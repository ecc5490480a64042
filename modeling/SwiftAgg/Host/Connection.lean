import SwiftAgg.Host.BaselineServer

/-!
# Connections of the host server

`_handle_client` of `baseline_server.py` and the header format it reads. The
bytes of a connection are all that its client sends before it closes; how they
arrive in pieces does not matter to `readexactly`.
-/

namespace SwiftAgg.Host

/-! ## Headers -/

/-- The values of `HEADER_FORMAT`: `MessageHeader` with all its fields. -/
structure HeaderFields where
  protocolVersion : Nat
  roundId : Nat
  clientId : Nat
  messageType : Nat
  sequenceNumber : Nat
  payloadLength : Nat
  reserved : Nat
  deriving Repr, DecidableEq

/-- The fields that the handlers read. -/
def HeaderFields.header (f : HeaderFields) : MessageHeader where
  roundId := f.roundId
  clientId := f.clientId
  messageType := f.messageType
  sequenceNumber := f.sequenceNumber
  payloadLength := f.payloadLength

/-- Every value fits its code in `HEADER_FORMAT`, `">IIBBHHH"`. -/
def HeaderFields.InRange (f : HeaderFields) : Prop :=
  f.protocolVersion < 2 ^ 32 ∧ f.roundId < 2 ^ 32 ∧ f.clientId < 2 ^ 8 ∧ f.messageType < 2 ^ 8 ∧
    f.sequenceNumber < 2 ^ 16 ∧ f.payloadLength < 2 ^ 16 ∧ f.reserved < 2 ^ 16

instance (f : HeaderFields) : Decidable f.InRange := inferInstanceAs (Decidable (_ ∧ _))

/-- `struct.pack(HEADER_FORMAT, ...)`. -/
def packHeader (f : HeaderFields) : Except PyErr Bytes :=
  if f.InRange then
    .ok (Bytes.be32 f.protocolVersion ++ Bytes.be32 f.roundId ++
      [UInt8.ofNat f.clientId, UInt8.ofNat f.messageType] ++ Bytes.be16 f.sequenceNumber ++
      Bytes.be16 f.payloadLength ++ Bytes.be16 f.reserved)
  else .error .structError

/-- `struct.unpack(HEADER_FORMAT, data)`, as `_parse_header` does it. -/
def unpackHeader : Bytes → Except PyErr HeaderFields
  | [v₀, v₁, v₂, v₃, r₀, r₁, r₂, r₃, clientId, messageType, s₀, s₁, l₀, l₁, z₀, z₁] =>
    .ok
      { protocolVersion := 2 ^ 16 * Bytes.word16 v₁ v₀ + Bytes.word16 v₃ v₂
        roundId := 2 ^ 16 * Bytes.word16 r₁ r₀ + Bytes.word16 r₃ r₂
        clientId := clientId.toNat
        messageType := messageType.toNat
        sequenceNumber := Bytes.word16 s₁ s₀
        payloadLength := Bytes.word16 l₁ l₀
        reserved := Bytes.word16 z₁ z₀ }
  | _ => .error .structError

/-! ## The read loop -/

/-- `HEADER_SIZE`. -/
def headerSize : Nat := 16

/-- `await reader.readexactly(n)`: the bytes read and those after them; `none` stands for an
    `IncompleteReadError`. -/
def readExactly (n : Nat) (stream : Bytes) : Option (Bytes × Bytes) :=
  if stream.length < n then none else some (stream.take n, stream.drop n)

/-- The reads of one pass of the loop: the header and the payload, and the bytes after them. -/
def readMessage (stream : Bytes) : Option ((HeaderFields × Bytes) × Bytes) := do
  let (headerData, rest) ← readExactly headerSize stream
  -- 16 bytes always unpack
  let header ← (unpackHeader headerData).toOption
  let (payload, rest) ← readExactly header.payloadLength rest
  return ((header, payload), rest)

theorem readExactly_length {n : Nat} {stream data rest : Bytes}
    (h : readExactly n stream = some (data, rest)) :
    data.length = n ∧ stream = data ++ rest := by
  rw [readExactly] at h
  split at h
  · cases h
  · rename_i hlen
    cases h
    exact ⟨List.length_take_of_le (not_lt.mp hlen), (List.take_append_drop n stream).symm⟩

theorem readMessage_shorter {stream rest : Bytes} {message : HeaderFields × Bytes}
    (h : readMessage stream = some (message, rest)) : rest.length < stream.length := by
  obtain ⟨⟨headerData, rest₁⟩, hheader, h⟩ := Option.bind_eq_some_iff.mp h
  obtain ⟨header, -, h⟩ := Option.bind_eq_some_iff.mp h
  obtain ⟨⟨payload, rest₂⟩, hpayload, h⟩ := Option.bind_eq_some_iff.mp h
  cases h
  obtain ⟨hlen, rfl⟩ := readExactly_length hheader
  obtain ⟨-, rfl⟩ := readExactly_length hpayload
  rw [headerSize] at hlen
  simp only [List.length_append]
  omega

/-- The loop of `_handle_client`: what it passes to `_dispatch_message`, one after the other. -/
def readMessages (stream : Bytes) : List (HeaderFields × Bytes) :=
  match _h : readMessage stream with
  | none => []
  | some (message, rest) => message :: readMessages rest
termination_by stream.length
decreasing_by exact readMessage_shorter _h

/-- `_handle_client` on a connection; an exception of a handler ends its loop. -/
def handleClient (env : HostEnv) (writer : Nat) (stream : Bytes) : Server Unit :=
  (readMessages stream).forM fun (header, payload) =>
    dispatchMessage env header.header payload writer

end SwiftAgg.Host
