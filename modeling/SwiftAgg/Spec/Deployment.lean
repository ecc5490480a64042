import SwiftAgg.Spec.ClientProgress
import SwiftAgg.Spec.EmptyRounds
import SwiftAgg.Spec.ServerFrames
import SwiftAgg.Spec.WireFormat

/-!
# Firmware clients and the host server

The two sides of the protocol were written apart. The server sends neither
ROUND_INIT nor KEM_PUBLIC_KEY, the two messages that a client needs to get
through key setup. And should clients come to stream their chunks, none of them
has the length for which the server stores it.

## Key results

- `firmware_waits`: what the server sends brings no client through key setup
- `firmware_rounds_blank`: what clients stream leaves the rounds of the server at zero
-/

namespace SwiftAgg

open Native (Platform StepEnv MsgType ClientProtocolCtx Trace Memory stateMachineInit receivedHeader
  processMessage processMessage_step roundInitChunkSize)
open Host (HostEnv System Event writtenTo)

/-! ## From the server to the clients -/

/-- The messages of the server, as the firmware decodes their headers. -/
theorem Host.messageType_of_written {env : HostEnv} {events : List Event} {writer : Nat}
    {data : Bytes} (h : data ∈ writtenTo writer (System.new.run env events).state.sent) :
    (receivedHeader data).messageType ≠ MsgType.roundInit.code ∧
      (receivedHeader data).messageType ≠ MsgType.kemPublicKey.code := by
  obtain ⟨-, m, rs, -, hwritten, -, rfl⟩ :=
    Host.run_framesSent env events _ (Host.mem_writtenTo.mp h)
  rw [Host.messageFrame, Native.receivedHeader_encodeHeader]
  show UInt8.ofNat m.1.messageType ≠ _ ∧ UInt8.ofNat m.1.messageType ≠ _
  obtain htype | htype := hwritten.messageType
  · rw [htype]
    decide
  · rw [htype]
    decide

namespace Native

variable {pf : Platform} {tr tr' : Trace} {m : Message}

/-- What the messages of a run keep, the run keeps. -/
theorem Trace.run_invariant_mem {P : Trace → Prop} {ms : List Message}
    (hstep : ∀ tr m tr', m ∈ ms → P tr → Trace.step pf tr m = some tr' → P tr') (hP : P tr)
    (hrun : Trace.run pf tr ms = some tr') : P tr' := by
  have hevery : PartialRun.Every (Trace.step pf) (fun _ m => m ∈ ms) tr ms :=
    PartialRun.every_iff_prefixes.mpr fun pre m hpre _ _ =>
      hpre.subset (List.mem_append_right pre (List.mem_singleton_self m))
  exact hevery.run_invariant (fun tr m tr' hI hm => hstep tr m tr' hm hI) hP hrun

/-- A client without a keypair, whose round has started or not. -/
structure Trace.Unkeyed (started : Prop) (tr : Trace) : Prop where
  state : tr.ctx.state = .roundInit ∨ tr.ctx.state = .keySetup ∧ started
  kemKp : tr.ctx.kemKp = .zero
  pairwiseCtx : tr.ctx.pairwiseCtx = .empty
  copies : tr.copies = []

/-- Without a keypair nothing can be decapsulated: no variant has secret keys of length zero. -/
theorem kemAdapterDecapsulate_zero (lib : KemLib) (g : KemGlobals) (ct : Memory) (ctLen : Nat)
    (sk : Memory) : kemAdapterDecapsulate lib g ct ctLen sk 0 = .error .errInvalidArgument := by
  have hlen : 0 ≠ g.skBytes := by
    rw [g.sizes.2.1]
    cases g.activeVariant <;> decide
  rw [kemAdapterDecapsulate, if_pos (.inr hlen)]

/-- Only KEM_PUBLIC_KEY brings a client to a keypair, and only ROUND_INIT starts its round. -/
theorem Trace.Unkeyed.step {started : Prop} (h : tr.Unkeyed started)
    (hm : m.hdr.messageType ≠ MsgType.kemPublicKey.code)
    (hstart : m.hdr.messageType = MsgType.roundInit.code → started)
    (hstep : Trace.step pf tr m = some tr') : tr'.Unkeyed started := by
  obtain ⟨out, hout, rfl⟩ := Option.map_eq_some_iff.mp hstep
  obtain ⟨hstate, hkp, hpeers, hcopies⟩ := h
  have hcopies' : tr.copies ++ [] = [] := by rw [hcopies, List.append_nil]
  -- the later phases have not been reached
  have hearly : ∀ {state}, tr.ctx.state = state → state ≠ .roundInit → state ≠ .keySetup → False :=
    fun heq hinit hsetup => hstate.elim (fun h => hinit (heq.symm.trans h))
      fun h => hsetup (heq.symm.trans h.1)
  cases processMessage_step hout with
  | mismatched hm hs => exact ⟨hstate, hkp, hpeers, hcopies'⟩
  | rejected hm hs => exact ⟨hstate, hkp, hpeers, hcopies'⟩
  | roundStarted hm hold htype hsize => exact ⟨.inr ⟨rfl, hstart htype⟩, hkp, hpeers, hcopies'⟩
  | keypair haddr hold htype => exact (hm htype).elim
  | keyAgreed haddr hold htype hdec =>
    rw [hkp] at hdec
    rw [show KemKeypair.zero.secretKeyLen = 0 from rfl, kemAdapterDecapsulate_zero] at hdec
    cases hdec
  | pubkeyStored hstores => exact (hearly hstores.2.1 (by decide) (by decide)).elim
  | tableFull hstores => exact (hearly hstores.2.1 (by decide) (by decide)).elim
  | confirmed haddr hold => exact (hearly hold (by decide) (by decide)).elim
  | chunkMasked haddr hold => exact (hearly hold (by decide) (by decide)).elim
  | completed haddr hold => exact (hearly hold (by decide) (by decide)).elim
  | advanced haddr hadvance =>
    obtain hold | ⟨hold, -⟩ := hstate
    · rw [hold] at hadvance
      cases hadvance
    · rw [hold] at hadvance
      cases hadvance

/-- A message of another type leaves a client that waits for its round as it is. -/
theorem Trace.step_of_ne_roundInit (pf : Platform) (clientId : UInt8) (roundId tick : UInt32)
    {m : Message} (htype : m.hdr.messageType ≠ MsgType.roundInit.code) :
    ∃ tick', Trace.step pf (Trace.init clientId roundId tick) m =
      some (Trace.init clientId roundId tick') := by
  simp only [Trace.step, processMessage]
  split
  · exact ⟨tick, rfl⟩
  · split
    · exact ⟨tick, rfl⟩
    · -- the clock is set before the message is looked at
      refine ⟨m.env.tick, ?_⟩
      show (handleRoundInit _ _ _ _).map _ = _
      rw [handleRoundInit, if_pos htype]
      rfl

end Native

/-- The firmware decodes the header from a message that the server wrote to the connection. -/
def Native.Message.FromServer (env : HostEnv) (events : List Event) (writer : Nat)
    (m : Native.Message) : Prop :=
  ∃ data ∈ writtenTo writer (System.new.run env events).state.sent, m.hdr = receivedHeader data

/-- A client that is sent no KEM_PUBLIC_KEY but what the server writes to a connection, mixed with
    any other messages, never gets a keypair, knows no peers and does not get past key setup. If it
    is sent nothing else, it is as it was initialised, but for its clock. -/
theorem firmware_waits (pf : Platform) (env : HostEnv) (events : List Event) (writer : Nat)
    (clientId : UInt8) (roundId tick : UInt32) (ms : List Native.Message)
    (h : ∀ m ∈ ms, m.FromServer env events writer ∨
      m.hdr.messageType ≠ MsgType.kemPublicKey.code) :
    (∀ tr, Trace.run pf (.init clientId roundId tick) ms = some tr →
      tr.Unkeyed (∃ m ∈ ms, m.hdr.messageType = MsgType.roundInit.code)) ∧
    ((∀ m ∈ ms, m.FromServer env events writer) →
      ∃ tick', Trace.run pf (.init clientId roundId tick) ms =
        some ⟨stateMachineInit clientId roundId tick', []⟩) := by
  constructor
  · intro tr hrun
    refine Native.Trace.run_invariant_mem (fun tr m tr' hm hkeep hstep => ?_)
      ⟨.inl rfl, rfl, rfl, rfl⟩ hrun
    refine Native.Trace.Unkeyed.step hkeep ?_ (fun htype => ⟨m, hm, htype⟩) hstep
    obtain ⟨data, hdata, hhdr⟩ | hother := h m hm
    · rw [hhdr]
      exact (Host.messageType_of_written hdata).2
    · exact hother
  · intro hall
    clear h
    induction ms generalizing tick with
    | nil => exact ⟨tick, rfl⟩
    | cons m ms ih =>
      obtain ⟨data, hdata, hhdr⟩ := hall m List.mem_cons_self
      have htype := (Host.messageType_of_written hdata).1
      rw [← hhdr] at htype
      obtain ⟨tick₁, hstep⟩ := Native.Trace.step_of_ne_roundInit pf clientId roundId tick htype
      obtain ⟨tick₂, hrun⟩ := ih tick₁ fun m hm => hall m (List.mem_cons_of_mem _ hm)
      refine ⟨tick₂, ?_⟩
      rw [Trace.run, List.foldlM_cons, hstep]
      exact hrun

/-- A client registers, sends its chunk and completes; its handler resumes until it ends. -/
def answeredRound : List Event :=
  [.dispatch (.of 1 0 0x40 0 [1, 1, 1, 0, 1, 0, 0, 0]), .dispatch (.of 1 1 0x01 0 Host.someKey),
    .dispatch (.of 1 1 0x21 0 [0, 5]), .dispatch (.of 1 1 0x30 0 []), .resume 0, .resume 0]

/-- A message of the server as the firmware takes it. -/
def Native.Message.ofBytes (data : Bytes) : Native.Message where
  env := Native.quietEnv
  hdr := receivedHeader data
  payload := .ofBytes (data.drop 16)
  payloadLen := (receivedHeader data).payloadLength

/-- A ROUND_INIT of somebody else, then the ciphertext and the aggregate of the server. -/
def startedThenAnswered : List Native.Message :=
  ⟨Native.quietEnv, roundInitHeader, fourByFourInit, 8⟩ ::
    (writtenTo 1 (System.new.run Host.zeroEnv answeredRound).state.sent).map Native.Message.ofBytes

/-- They leave the client in key setup at best. -/
theorem firmware_waits_answered :
    startedThenAnswered.length = 3 ∧
      ∀ tr, Trace.run Native.repeatPlatform (.init 1 1 0) startedThenAnswered = some tr →
        tr.Unkeyed (∃ m ∈ startedThenAnswered, m.hdr.messageType = MsgType.roundInit.code) := by
  refine ⟨by decide +kernel, (firmware_waits _ Host.zeroEnv answeredRound 1 1 1 0 _
    fun m hm => ?_).1⟩
  rcases List.mem_cons.mp hm with rfl | hm
  · exact .inr (by decide)
  · obtain ⟨data, hdata, rfl⟩ := List.mem_map.mp hm
    exact .inl ⟨data, hdata, rfl⟩

/-! ## From the clients to the server -/

/-- The chunk size of a ROUND_INIT payload, in the bytes of the client and the elements of the
    server. -/
def announcedChunkSize (init : Bytes) : Nat := Bytes.word16 (init.getD 2 0) (init.getD 3 0)

/-- A ROUND_INIT has these parameters, and a public key that runs over the counters leaves less than
    twice the announced chunk size. -/
def Native.KeepsParams (pf : Platform) (init : Bytes) (tr : Trace) (m : Native.Message) : Prop :=
  (m.hdr.messageType = MsgType.roundInit.code → ∀ k < 8, m.payload k = Memory.ofBytes init k) ∧
    (pf.storage = .contiguous → Native.StoresPubkey tr.ctx m →
      ∀ i ∈ tr.ctx.pairwiseCtx.keySlot m.hdr.clientId,
        (Native.pubkeyChunkCtx i m.payload).chunkSize.toNat < announcedChunkSize init * 2)

instance (pf : Platform) (init : Bytes) (tr : Trace) (m : Native.Message) :
    Decidable (Native.KeepsParams pf init tr m) :=
  inferInstanceAs (Decidable ((_ → _) ∧ (_ → _ → _)))

/-- What a client leaves in the payload of a chunk that it has accepted, in a round that it was
    given the parameters `init` for and kept them. -/
def Native.MasksChunk (pf : Platform) (init data : Bytes) : Prop :=
  ∃ clientId roundId tick ms tr m out,
    Trace.run pf (.init clientId roundId tick) ms = some tr ∧
      PartialRun.Every (Trace.step pf) (Native.KeepsParams pf init)
        (.init clientId roundId tick) ms ∧
      Native.AcceptsChunk tr.ctx m ∧
      processMessage pf m.env tr.ctx m.hdr m.payload m.payloadLen = some out ∧
      data = out.payload.read m.payloadLen.toNat

namespace Native

variable {pf : Platform} {tr tr' : Trace} {m : Message} {init : Bytes}

/-- Once its round has started, the chunks of a client are shorter than those that the server
    stores. -/
def Trace.HasParams (init : Bytes) (tr : Trace) : Prop :=
  tr.ctx.state = .roundInit ∨ tr.ctx.chunkCtx.chunkSize.toNat < announcedChunkSize init * 2

theorem toNat_roundInitChunkSize {payload : Memory}
    (hpayload : ∀ k < 8, payload k = Memory.ofBytes init k) :
    (roundInitChunkSize payload).toNat = announcedChunkSize init := by
  rw [roundInitChunkSize, hpayload 2 (by decide), hpayload 3 (by decide)]
  exact UInt16.toNat_ofNat_of_lt' (Bytes.word16_lt _ _)

theorem Trace.HasParams.step (h : tr.HasParams init) (hm : KeepsParams pf init tr m)
    (hstep : Trace.step pf tr m = some tr') : tr'.HasParams init := by
  obtain ⟨status, hmove⟩ := Trace.step_move hstep
  have hstate : tr'.ctx.state = tr'.ctx.progress.state := rfl
  have hchunk : tr'.ctx.chunkCtx = tr'.ctx.progress.chunkCtx := rfl
  rw [Trace.HasParams, hstate, hchunk]
  generalize tr'.ctx.progress = p at hmove
  cases hmove with
  | stays => exact h
  | starts haddr hold htype hsize =>
    have hparams : (roundInitChunkCtx tr.ctx m.hdr m.payload).chunkSize.toNat =
        announcedChunkSize init := toNat_roundInitChunkSize (hm.1 htype)
    have hpos : announcedChunkSize init ≠ 0 := by
      intro hzero
      apply hsize
      rw [← UInt16.toNat_inj]
      exact hparams.trans hzero
    exact .inr (by rw [hparams]; omega)
  | advances haddr hold hnext => exact .inr (h.resolve_left hold)
  | masks haccepts =>
    refine .inr (h.resolve_left fun hold => ?_)
    rw [haccepts.2.1] at hold
    cases hold
  | overwrites hstorage hstores hslot => exact .inr (hm.2 hstorage hstores _ hslot)

/-- An accepted chunk is shorter than those that the server stores. -/
theorem MasksChunk.length {data : Bytes} (h : MasksChunk pf init data) :
    data.length ≠ announcedChunkSize init * 2 := by
  obtain ⟨clientId, roundId, tick, ms, tr, m, out, hrun, hkeeps, haccepts, -, rfl⟩ := h
  have hparams : tr.HasParams init := hkeeps.run_invariant
    (fun tr m tr' h hm hstep => Trace.HasParams.step h hm hstep) (.inl rfl) hrun
  obtain ⟨-, hstate, -, -, hlength, -⟩ := haccepts
  obtain hold | hsize := hparams
  · rw [hstate] at hold
    cases hold
  · have hlen : m.payloadLen.toNat ≤ tr.ctx.chunkCtx.chunkSize.toNat := by
      obtain heq | ⟨-, hlt⟩ := hlength
      · rw [heq]
      · exact (UInt16.lt_iff_toNat_lt.mp hlt).le
    rw [Memory.length_read]
    omega

end Native

/-- A round is created with the announced chunk size. -/
theorem Host.Message.chunkSize_createdRound {m : Host.Message} {rs : Host.RoundState}
    (h : m.createdRound = some rs) : rs.chunkSize = announcedChunkSize m.payload := by
  unfold Host.Message.createdRound at h
  split at h
  · split at h
    · rename_i hpayload
      cases h
      rw [hpayload]
      rfl
    · cases h
  · cases h

/-- If clients and server are given the same parameters for a round, no public key makes the chunks
    of a client twice as long, and all chunks that the server receives were masked by clients, then
    in every interleaving no chunk is stored, and every result that is stored or sent consists of
    zeros. -/
theorem firmware_rounds_blank (pf : Platform) (env : HostEnv) (inits : Nat → Bytes)
    (events : List Event)
    (hinit : ∀ m, .dispatch m ∈ events → m.header.messageType = 0x40 →
      m.payload = inits m.header.roundId)
    (hchunk : ∀ m, .dispatch m ∈ events → m.header.messageType = 0x21 →
      Native.MasksChunk pf (inits m.header.roundId) m.payload) :
    (System.new.run env events).state.Blank fun id => announcedChunkSize (inits id) := by
  refine ((Host.System.blank_new _).run fun m hm => ⟨fun rs hrs => ?_, fun htype => ?_⟩).state
  · have htype : m.header.messageType = 0x40 := by
      by_contra hne
      rw [Host.Message.createdRound_of_ne hne] at hrs
      cases hrs
    rw [Host.Message.chunkSize_createdRound hrs, hinit m hm htype]
  · exact (hchunk m hm htype).length

/-- Two clients with chunks of two, of which there is one. -/
def twoByTwo : Bytes := [2, 1, 2, 0, 2, 0, 0, 0]

/-- The chunk that client 1 accepts: one word, with a mask of zero. -/
theorem masksChunk_sevens : Native.MasksChunk Native.repeatPlatform twoByTwo [7, 7] := by
  let m := Native.serverMessage .maskChunk 2 7
  have hsome : ((Trace.run Native.repeatPlatform (.init 1 1 0) (Native.streamStart 2 2)).bind
      fun tr => (processMessage Native.repeatPlatform m.env tr.ctx m.hdr m.payload 2).map fun out =>
        (decide (Native.AcceptsChunk tr.ctx m), out.payload.read 2)) = some (true, [7, 7]) := by
    decide +kernel
  obtain ⟨tr, hrun, hchunk⟩ := Option.bind_eq_some_iff.mp hsome
  obtain ⟨out, hout, heq⟩ := Option.map_eq_some_iff.mp hchunk
  obtain ⟨haccepts, hread⟩ := Prod.mk.inj heq
  refine ⟨1, 1, 0, Native.streamStart 2 2, tr, m, out, hrun, ?_, of_decide_eq_true haccepts, hout,
    hread.symm⟩
  decide +kernel

/-- Both clients register and complete, and client 1 sends its chunk. -/
def streamedRound : List Host.Message :=
  [.of 1 0 0x40 0 twoByTwo, .of 1 1 0x01 0 Host.someKey, .of 1 2 0x01 0 Host.someKey,
    .of 1 1 0x21 0 [7, 7], .of 1 1 0x30 0 [], .of 1 2 0x30 0 []]

def streamedEvents : List Event :=
  streamedRound.map Event.dispatch ++ [.resume 0, .resume 0, .resume 0]

/-- The round completes, with zeros where the chunk should be. -/
theorem firmware_rounds_blank_streamed :
    (System.new.run Host.zeroEnv streamedEvents).state.Blank
        (fun _ => announcedChunkSize twoByTwo) ∧
      ((System.new.run Host.zeroEnv streamedEvents).state.rounds.get? 1).map (fun rs =>
        (rs.stage, rs.unmaskedChunks.entries)) = some (.roundComplete, [(0, [0, 0])]) := by
  have hmem : ∀ m, Event.dispatch m ∈ streamedEvents → m ∈ streamedRound := by
    intro m hm
    simpa [streamedEvents] using hm
  refine ⟨firmware_rounds_blank Native.repeatPlatform Host.zeroEnv (fun _ => twoByTwo)
    streamedEvents (fun m hm => ?_) (fun m hm htype => ?_), by decide +kernel⟩
  · have hinits : ∀ m ∈ streamedRound, m.header.messageType = 0x40 → m.payload = twoByTwo := by
      decide
    exact hinits m (hmem m hm)
  · have hchunks : ∀ m ∈ streamedRound, m.header.messageType = 0x21 → m.payload = [7, 7] := by
      decide
    exact hchunks m (hmem m hm) htype ▸ masksChunk_sevens

end SwiftAgg
