import SwiftAgg.Spec.KeystreamRequests

/-!
# A generator over its whole life

`mask_prg_init` starts with the nonce zero, and each `mask_prg_reseed` takes the
next nonce; from one of them to the next the generator is in an epoch, with one
seed and one nonce. After `mask_prg_cleanup` it writes nothing until it is
initialized again, reseeding does not revive it. A run of calls uses the blocks
of its epochs, so it uses a block twice if an epoch has two requests, or if two
epochs have the same seed and nonce.

## Key results

- `runCalls_epochs`: a run writes what its epochs write, one after the other
- `usedBlocks_nodup_iff`: when no block is used twice
-/

namespace SwiftAgg

open Native

/-- A call with a context. -/
inductive MaskPrgCall where
  | init (seed : Bytes32)
  | reseed (seed : Bytes32)
  | getBytes (len : Nat)
  | cleanup
  deriving DecidableEq

/-- What the calls of the cipher library in a run are made with, and what they write. -/
abbrev KeyedCall (tc : TinyCrypt) := tc.Sched × CtrCall

section

variable {tc : TinyCrypt} (zeroed : tc.Sched)

/-- The calls of the cipher library that a call makes, and the context after it. -/
def MaskPrgCall.run (ctx : MaskPrgCtx tc) : MaskPrgCall → List (KeyedCall tc) × MaskPrgCtx tc
  | .init seed => ([], maskPrgInit tc seed)
  | .reseed seed => ([], maskPrgReseed tc ctx seed)
  | .getBytes len =>
    let result := maskPrgGetBytes tc ctx len
    (result.1.map (ctx.sched, ·), result.2)
  | .cleanup => ([], maskPrgCleanup tc zeroed)

/-- The calls of the cipher library in a run. -/
def runCalls (ctx : MaskPrgCtx tc) : List MaskPrgCall → List (KeyedCall tc)
  | [] => []
  | call :: calls => (call.run zeroed ctx).1 ++ runCalls (call.run zeroed ctx).2 calls

/-- The blocks that a run uses: key schedule, nonce and counter. -/
def usedBlocks (ctx : MaskPrgCtx tc) (calls : List MaskPrgCall) : List (tc.Sched × Block × Block) :=
  (runCalls zeroed ctx calls).map fun c => (c.1, c.2.nonce, c.2.ctr)

end

/-! ## Epochs -/

/-- A seed, how often the generator was reseeded before, and the lengths requested. -/
structure Epoch where
  seed : Bytes32
  reseeds : Nat
  lens : List Nat
  deriving DecidableEq

/-- The epochs of a run that starts in an epoch, or in a context that is not initialized. -/
def epochs : Option Epoch → List MaskPrgCall → List Epoch
  | current, [] => current.toList
  | current, .init seed :: calls => current.toList ++ epochs (some ⟨seed, 0, []⟩) calls
  | none, .reseed _ :: calls => epochs none calls
  | some e, .reseed seed :: calls => e :: epochs (some ⟨seed, e.reseeds + 1, []⟩) calls
  | none, .getBytes _ :: calls => epochs none calls
  | some e, .getBytes len :: calls => epochs (some { e with lens := e.lens ++ [len] }) calls
  | current, .cleanup :: calls => current.toList ++ epochs none calls

section

variable {tc : TinyCrypt} {zeroed : tc.Sched}

/-- The context at the beginning of an epoch. -/
def Epoch.start (tc : TinyCrypt) (e : Epoch) : MaskPrgCtx tc :=
  ⟨tc.setEncryptKey e.seed, counterBlock e.reseeds, counterBlock 0, true⟩

/-- What an epoch writes. -/
def Epoch.calls (tc : TinyCrypt) (e : Epoch) : List (KeyedCall tc) :=
  (maskPrgRequests tc (e.start tc) e.lens).1.map (tc.setEncryptKey e.seed, ·)

/-- The context within an epoch. -/
def Epoch.ctx (tc : TinyCrypt) (e : Epoch) : MaskPrgCtx tc :=
  (maskPrgRequests tc (e.start tc) e.lens).2

/-- The context belongs to the epoch, or is not initialized. -/
def InEpoch (ctx : MaskPrgCtx tc) : Option Epoch → Prop
  | none => ctx.initialized = false
  | some e => ctx = e.ctx tc

/-- Requests keep the key schedule, the nonce and the flag. -/
theorem maskPrgRequests_ctx (sched : tc.Sched) (nonce : Block) (i : Nat) (lens : List Nat) :
    ∃ k, (maskPrgRequests tc ⟨sched, nonce, counterBlock i, true⟩ lens).2 =
      ⟨sched, nonce, counterBlock k, true⟩ := by
  induction lens generalizing i with
  | nil => exact ⟨i, rfl⟩
  | cons len lens ih =>
    show ∃ k, (maskPrgRequests tc (maskPrgLoop tc len _).2 lens).2 = _
    rw [maskPrgLoop_ctx]
    exact ih _

theorem Epoch.ctx_eq (tc : TinyCrypt) (e : Epoch) : ∃ k, e.ctx tc =
    ⟨tc.setEncryptKey e.seed, counterBlock e.reseeds, counterBlock k, true⟩ :=
  maskPrgRequests_ctx _ _ 0 e.lens

theorem maskPrgRequests_append (ctx : MaskPrgCtx tc) (lens : List Nat) (len : Nat) :
    maskPrgRequests tc ctx (lens ++ [len]) =
      ((maskPrgRequests tc ctx lens).1 ++
          (maskPrgGetBytes tc (maskPrgRequests tc ctx lens).2 len).1,
        (maskPrgGetBytes tc (maskPrgRequests tc ctx lens).2 len).2) := by
  induction lens generalizing ctx with
  | nil => simp [maskPrgRequests]
  | cons first lens ih => simp [maskPrgRequests, ih]

/-- One more request in an epoch. -/
theorem Epoch.ask (zeroed : tc.Sched) (e : Epoch) (len : Nat) :
    (Epoch.mk e.seed e.reseeds (e.lens ++ [len])).calls tc =
        e.calls tc ++ ((MaskPrgCall.getBytes len).run zeroed (e.ctx tc)).1 ∧
      (Epoch.mk e.seed e.reseeds (e.lens ++ [len])).ctx tc =
        ((MaskPrgCall.getBytes len).run zeroed (e.ctx tc)).2 := by
  obtain ⟨k, hk⟩ := e.ctx_eq tc
  have hsched : (e.ctx tc).sched = tc.setEncryptKey e.seed := by rw [hk]
  constructor
  · rw [Epoch.calls, maskPrgRequests_append, List.map_append, MaskPrgCall.run, hsched]
    rfl
  · rw [Epoch.ctx, maskPrgRequests_append]
    rfl

/-- A run writes what is left of the epoch it starts in, and then what its other epochs write. -/
theorem runCalls_epochs (zeroed : tc.Sched) (ctx : MaskPrgCtx tc) (current : Option Epoch)
    (h : InEpoch ctx current) (calls : List MaskPrgCall) :
    (current.toList.flatMap (Epoch.calls tc)) ++ runCalls zeroed ctx calls =
      (epochs current calls).flatMap (Epoch.calls tc) := by
  induction calls generalizing ctx current with
  | nil => simp [runCalls, epochs]
  | cons call calls ih =>
    have hstart : ∀ seed n, (Epoch.mk seed n []).calls tc = [] := fun seed n => rfl
    cases call with
    | init seed =>
      have hrest := ih (maskPrgInit tc seed) (some ⟨seed, 0, []⟩) (by
        rw [maskPrgInit_eq, ← counterBlock_zero]
        rfl)
      simp only [Option.toList_some, List.flatMap_cons, List.flatMap_nil, hstart,
        List.nil_append] at hrest
      simp only [runCalls, MaskPrgCall.run, List.nil_append, epochs, List.flatMap_append, hrest]
    | cleanup =>
      have hrest := ih (maskPrgCleanup tc zeroed) none rfl
      simp only [Option.toList_none, List.flatMap_nil, List.nil_append] at hrest
      simp only [runCalls, MaskPrgCall.run, List.nil_append, epochs, List.flatMap_append, hrest]
    | reseed seed =>
      cases current with
      | none => exact ih (maskPrgReseed tc ctx seed) none h
      | some e =>
        obtain ⟨k, hk⟩ := e.ctx_eq tc
        have hctx : maskPrgReseed tc ctx seed = (Epoch.mk seed (e.reseeds + 1) []).ctx tc := by
          rw [show ctx = e.ctx tc from h, hk, maskPrgReseed, ctrIncrement_counterBlock,
            ← counterBlock_zero]
          rfl
        have hrest := ih _ (some ⟨seed, e.reseeds + 1, []⟩) hctx
        simp only [Option.toList_some, List.flatMap_cons, List.flatMap_nil, hstart,
          List.nil_append] at hrest
        simp only [runCalls, MaskPrgCall.run, List.nil_append, epochs, Option.toList_some,
          List.flatMap_cons, List.flatMap_nil, List.append_nil, hrest]
    | getBytes len =>
      cases current with
      | none =>
        -- nothing is written without initialization
        have hnone : maskPrgGetBytes tc ctx len = ([], ctx) := by
          rw [maskPrgGetBytes, show ctx.initialized = false from h]
          rfl
        have hrest := ih ctx none h
        simp only [runCalls, MaskPrgCall.run, hnone, List.map_nil, List.nil_append, epochs]
        exact hrest
      | some e =>
        obtain rfl : ctx = e.ctx tc := h
        obtain ⟨hcalls, hctx⟩ := e.ask zeroed len
        have hrest := ih _ (some ⟨e.seed, e.reseeds, e.lens ++ [len]⟩) hctx.symm
        simp only [Option.toList_some, List.flatMap_cons, List.flatMap_nil, List.append_nil,
          hcalls] at hrest
        simp only [runCalls, epochs, Option.toList_some, List.flatMap_cons, List.flatMap_nil,
          List.append_nil, ← hrest, List.append_assoc]

/-! ## Blocks used twice -/

/-- The epoch asks for something. -/
def Epoch.Asks (e : Epoch) : Prop := ∃ len ∈ e.lens, len ≠ 0

instance (e : Epoch) : Decidable e.Asks := by
  unfold Epoch.Asks
  infer_instance

/-- What tells epochs apart: the seed, and the nonce, which is a counter of 16 bytes. -/
def Epoch.key (e : Epoch) : Bytes32 × Nat := (e.seed, e.reseeds % 256 ^ 16)

/-- At most one request of each epoch asks for anything, and not for more blocks than there are;
    and no two epochs that ask for something have the same seed and nonce. -/
structure FreshEpochs (es : List Epoch) : Prop where
  single : ∀ e ∈ es, (e.lens.filter (· ≠ 0)).length ≤ 1 ∧ e.lens.sum ≤ 16 * 256 ^ 16
  keys : ((es.filter (·.Asks)).map Epoch.key).Nodup

theorem counterBlock_mod (n : Nat) : counterBlock (n % 256 ^ 16) = counterBlock n := by
  have hwrap : ∀ q r, Bytes.ofNatBE 16 (r + 256 ^ 16 * q) = Bytes.ofNatBE 16 r := by
    intro q r
    induction q with
    | zero => rfl
    | succ q ih => rw [Nat.mul_succ, ← Nat.add_assoc, Bytes.ofNatBE_add_pow, ih]
  apply Subtype.ext
  show Bytes.ofNatBE 16 (n % 256 ^ 16) = Bytes.ofNatBE 16 n
  rw [← hwrap (n / 256 ^ 16) (n % 256 ^ 16), Nat.mod_add_div]

theorem counterBlock_eq_iff (m n : Nat) :
    counterBlock m = counterBlock n ↔ m % 256 ^ 16 = n % 256 ^ 16 := by
  constructor
  · intro h
    rw [← counterBlock_mod m, ← counterBlock_mod n] at h
    exact Bytes.ofNatBE_inj (Nat.mod_lt _ (by decide)) (Nat.mod_lt _ (by decide))
      (congrArg Subtype.val h)
  · intro h
    rw [← counterBlock_mod m, h, counterBlock_mod]

/-- The blocks that an epoch uses. -/
def Epoch.blocks (tc : TinyCrypt) (e : Epoch) : List (tc.Sched × Block × Block) :=
  (e.calls tc).map fun c => (c.1, c.2.nonce, c.2.ctr)

theorem Epoch.blocks_eq (e : Epoch) : e.blocks tc =
    (emittedBlocks (maskPrgRequests tc (e.start tc) e.lens).1).map
      (tc.setEncryptKey e.seed, ·) := by
  simp [blocks, calls, emittedBlocks]

/-- In an epoch no block is used twice if at most one request asks for anything and its counter does
    not wrap around. -/
theorem Epoch.nodup_blocks_iff (e : Epoch) : (e.blocks tc).Nodup ↔
    (e.lens.filter (· ≠ 0)).length ≤ 1 ∧ e.lens.sum ≤ 16 * 256 ^ 16 := by
  have hpos : ∀ len ∈ e.lens.filter (· ≠ 0), 0 < len := fun len hlen =>
    Nat.pos_of_ne_zero (by simpa using (List.mem_filter.mp hlen).2)
  rw [blocks_eq, List.nodup_map_iff (Prod.mk_right_injective _), maskPrgRequests_filter,
    ← sum_filter_ne_zero]
  -- only the requests for something are left
  generalize e.lens.filter (· ≠ 0) = asked at hpos
  match asked, hpos with
  | [], _ => simp [maskPrgRequests, emittedBlocks]
  | [len], _ =>
    rw [maskPrgRequests_singleton]
    show (emittedBlocks (maskPrgLoop tc len _).1).Nodup ↔ _
    rw [start, nodup_emittedBlocks_maskPrgLoop]
    simp
  | len :: len' :: rest, hpos =>
    have h := hpos len List.mem_cons_self
    have h' := hpos len' (List.mem_cons_of_mem _ List.mem_cons_self)
    have hmany := not_nodup_emittedBlocks_maskPrgRequests (tc.setEncryptKey e.seed)
      (counterBlock e.reseeds) 0 rest h h'
    rw [start]
    simp [hmany]

/-- All blocks of requests have the nonce of the context. -/
theorem nonce_of_mem_emittedBlocks (sched : tc.Sched) (nonce : Block) (i : Nat) (lens : List Nat)
    {b : Block × Block}
    (hb : b ∈ emittedBlocks (maskPrgRequests tc ⟨sched, nonce, counterBlock i, true⟩ lens).1) :
    b.1 = nonce := by
  induction lens generalizing i with
  | nil => simp [maskPrgRequests, emittedBlocks] at hb
  | cons len lens ih =>
    rw [maskPrgRequests_cons, emittedBlocks, List.map_append, List.mem_append] at hb
    rcases hb with hfirst | hrest
    · rw [← emittedBlocks, emittedBlocks_maskPrgLoop] at hfirst
      obtain ⟨j, -, rfl⟩ := List.mem_map.mp hfirst
      rfl
    · exact ih _ hrest

theorem Epoch.mem_blocks {e : Epoch} {b : tc.Sched × Block × Block} (hb : b ∈ e.blocks tc) :
    b.1 = tc.setEncryptKey e.seed ∧ b.2.1 = counterBlock e.reseeds := by
  rw [blocks_eq] at hb
  obtain ⟨p, hp, rfl⟩ := List.mem_map.mp hb
  exact ⟨rfl, nonce_of_mem_emittedBlocks _ _ 0 _ hp⟩

theorem Epoch.blocks_of_not_asks {e : Epoch} (h : ¬e.Asks) : e.blocks tc = [] := by
  have hnone : e.lens.filter (· ≠ 0) = [] := by
    simp only [Asks, not_exists, not_and, not_not] at h
    simpa using h
  rw [blocks_eq, maskPrgRequests_filter, hnone]
  rfl

/-- An epoch that asks for anything uses the block at counter zero. -/
theorem Epoch.first_mem_blocks (tc : TinyCrypt) {e : Epoch} (h : e.Asks) :
    (tc.setEncryptKey e.seed, counterBlock e.reseeds, counterBlock 0) ∈ e.blocks tc := by
  have hpos : ∀ len ∈ e.lens.filter (· ≠ 0), 0 < len := fun len hlen =>
    Nat.pos_of_ne_zero (by simpa using (List.mem_filter.mp hlen).2)
  rw [blocks_eq, maskPrgRequests_filter]
  cases hasked : e.lens.filter (· ≠ 0) with
  | nil =>
    obtain ⟨len, hlen, hne⟩ := h
    have hmem : len ∈ e.lens.filter (· ≠ 0) := List.mem_filter.mpr ⟨hlen, decide_eq_true hne⟩
    rw [hasked] at hmem
    exact absurd hmem List.not_mem_nil
  | cons len rest =>
    have hlen := hpos len (hasked ▸ List.mem_cons_self)
    have hblock : (counterBlock e.reseeds, counterBlock 0) ∈
        emittedBlocks (maskPrgLoop tc len (e.start tc)).1 := by
      rw [start, emittedBlocks_maskPrgLoop]
      exact List.mem_map.mpr ⟨0, List.mem_range'_1.mpr (by omega), rfl⟩
    refine List.mem_map.mpr ⟨_, ?_, rfl⟩
    rw [start, maskPrgRequests_cons, emittedBlocks, List.map_append]
    exact List.mem_append_left _ hblock

/-- Two epochs have a block in common if both ask for something, with one seed and nonce. -/
theorem Epoch.disjoint_blocks_iff (htc : Function.Injective tc.setEncryptKey) (e e' : Epoch) :
    (e.blocks tc).Disjoint (e'.blocks tc) ↔ (e.Asks → e'.Asks → e.key ≠ e'.key) := by
  constructor
  · intro hdisjoint h h' hkey
    obtain ⟨hseed, hnonce⟩ := Prod.mk.inj hkey
    have hfirst := first_mem_blocks tc h
    rw [hseed, (counterBlock_eq_iff _ _).mpr hnonce] at hfirst
    exact hdisjoint hfirst (first_mem_blocks tc h')
  · intro hkeys b hb hb'
    have h : e.Asks := by
      by_contra hnot
      rw [blocks_of_not_asks hnot] at hb
      exact List.not_mem_nil hb
    have h' : e'.Asks := by
      by_contra hnot
      rw [blocks_of_not_asks hnot] at hb'
      exact List.not_mem_nil hb'
    obtain ⟨hsched, hnonce⟩ := mem_blocks hb
    obtain ⟨hsched', hnonce'⟩ := mem_blocks hb'
    refine hkeys h h' (Prod.ext (htc (hsched.symm.trans hsched')) ?_)
    exact (counterBlock_eq_iff _ _).mp (hnonce.symm.trans hnonce')

/-- A run on a context that is not initialized uses no block twice, under an injective key schedule,
    exactly if each of its epochs has at most one request for anything, which does not exceed the
    counter, and no two epochs that have one share seed and nonce. -/
theorem usedBlocks_nodup_iff (htc : Function.Injective tc.setEncryptKey) (ctx : MaskPrgCtx tc)
    (hctx : ctx.initialized = false) (calls : List MaskPrgCall) :
    (usedBlocks zeroed ctx calls).Nodup ↔ FreshEpochs (epochs none calls) := by
  have hrun : usedBlocks zeroed ctx calls = (epochs none calls).flatMap (Epoch.blocks tc) := by
    have hcalls := runCalls_epochs zeroed ctx none hctx calls
    rw [Option.toList_none, List.flatMap_nil, List.nil_append] at hcalls
    rw [usedBlocks, hcalls, List.map_flatMap]
    rfl
  have hkeys : (((epochs none calls).filter (·.Asks)).map Epoch.key).Nodup ↔
      (epochs none calls).Pairwise fun e e' => (e.blocks tc).Disjoint (e'.blocks tc) := by
    rw [List.Nodup, List.pairwise_map, List.pairwise_filter]
    simp only [Epoch.disjoint_blocks_iff htc, decide_eq_true_eq]
  rw [hrun, List.nodup_flatMap]
  constructor
  · rintro ⟨hsingle, hpairwise⟩
    exact ⟨fun e he => e.nodup_blocks_iff.mp (hsingle e he), hkeys.mpr hpairwise⟩
  · rintro ⟨hsingle, hnodup⟩
    exact ⟨fun e he => e.nodup_blocks_iff.mpr (hsingle e he), hkeys.mp hnodup⟩

end

/-- A reseed with the same seed takes the next nonce; the request after the cleanup gets nothing, in
    spite of the reseed before it. -/
def reseededCalls : List MaskPrgCall :=
  [.init Bytes.zero32, .getBytes 20, .getBytes 0, .reseed Bytes.zero32, .getBytes 32, .cleanup,
    .reseed Bytes.zero32, .getBytes 16]

theorem usedBlocks_nodup_reseeded :
    (usedBlocks (Bytes.zero32 : countingTinyCrypt.Sched)
      (maskPrgCleanup countingTinyCrypt Bytes.zero32) reseededCalls).Nodup :=
  (usedBlocks_nodup_iff (fun _ _ h => h) (maskPrgCleanup countingTinyCrypt Bytes.zero32) rfl
    reseededCalls).mpr ⟨by decide, by decide⟩

end SwiftAgg
