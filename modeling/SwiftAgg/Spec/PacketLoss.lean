import SwiftAgg.ForStd.Lcg
import SwiftAgg.Native.Impairment

/-!
# Packet loss

Without a latency, `impairment_recv` and `impairment_send` draw one word for
each packet and drop it if the remainder by one million is below the loss rate.
The generator runs through all words before it repeats one, so in any run of
`2 ^ 32` packets the number of packets dropped is fixed by the loss rate alone:
neither the seed nor what was drawn before changes it.

## Key results

- `dropFlags_eq`: the packets that are dropped, by the states of the generator
- `count_dropFlags`: how many of `2 ^ 32` packets are dropped
- `impairedCalls_eq`: a run of calls, with the same flags for whatever is passed
- `impairedCalls_period`: what `2 ^ 32` calls do
-/

namespace SwiftAgg.Native

namespace Impairment

/-- Calls of `impairment_should_drop`, one after another. -/
def dropFlags : Nat → Impairment → List Bool × Impairment
  | 0, imp => ([], imp)
  | n + 1, imp =>
    let (drop, imp) := imp.shouldDrop
    let (drops, imp) := dropFlags n imp
    (drop :: drops, imp)

/-- A call of `impairment_recv` or `impairment_send`, with what the socket does if it is reached. -/
inductive PacketCall where
  | recv (len : Nat) (result : RecvResult)
  | send (data : Bytes) (result : SendResult)

/-- The call without an impairment. -/
def PacketCall.direct : PacketCall → PqcStatus × Bytes
  | recv len result => transportRecv len result
  | send data result => transportSend data result

/-- The call as it is made. -/
def PacketCall.impaired (imp : Impairment) :
    PacketCall → Option ((PqcStatus × Bytes) × Impairment)
  | recv len result => imp.recv len result
  | send data result => imp.send data result

/-- What the caller of a packet that is dropped or not gets. -/
def PacketCall.outcome (drop : Bool) (call : PacketCall) : PqcStatus × Bytes :=
  if drop then (.errNetworkTimeout, []) else call.direct

/-- Calls of `impairment_recv` and `impairment_send`, one after another. -/
def impairedCalls (imp : Impairment) :
    List PacketCall → Option (List (PqcStatus × Bytes) × Impairment)
  | [] => some ([], imp)
  | call :: calls => do
    let (out, imp) ← call.impaired imp
    let (outs, imp) ← impairedCalls imp calls
    return (out :: outs, imp)

/-! ## Which packets are dropped -/

/-- The generator as a generator of natural numbers. -/
theorem toNat_rngNext (imp : Impairment) :
    imp.rngNext.rngState.toNat = Lcg.next 1664525 1013904223 (2 ^ 32) imp.rngState.toNat := by
  rw [rngNext, UInt32.toNat_add, UInt32.toNat_mul, Lcg.next, Nat.mod_add_mod]
  rfl

@[simp] theorem iterate_rngNext_config (imp : Impairment) (n : Nat) :
    (rngNext^[n] imp).config = imp.config := by
  induction n with
  | zero => rfl
  | succ n ih => rw [Function.iterate_succ_apply', rngNext_config, ih]

theorem toNat_iterate_rngNext (imp : Impairment) (n : Nat) :
    (rngNext^[n] imp).rngState.toNat =
      (Lcg.next 1664525 1013904223 (2 ^ 32))^[n] imp.rngState.toNat := by
  induction n with
  | zero => rfl
  | succ n ih => rw [Function.iterate_succ_apply', toNat_rngNext, ih, Function.iterate_succ_apply']

/-- A packet is dropped for a draw with this state. -/
def drops (lossRatePpm : UInt32) (state : Nat) : Bool :=
  state % 1000000 < lossRatePpm.toNat

theorem shouldDrop_of_ne_zero {imp : Impairment} (h : imp.config.lossRatePpm ≠ 0) :
    imp.shouldDrop =
      (drops imp.config.lossRatePpm imp.rngNext.rngState.toNat, imp.rngNext) := by
  simp only [shouldDrop, if_neg h, drops, rngNext_config, UInt32.lt_iff_toNat_lt,
    UInt32.toNat_mod, UInt32.reduceToNat]

theorem shouldDrop_of_eq_zero {imp : Impairment} (h : imp.config.lossRatePpm = 0) :
    imp.shouldDrop = (false, imp) := by
  rw [shouldDrop, if_pos h]

/-- The flags of `n` packets are those of the next `n` states. -/
theorem dropFlags_eq {imp : Impairment} (h : imp.config.lossRatePpm ≠ 0) (n : Nat) :
    dropFlags n imp =
      ((List.range n).map fun i =>
          drops imp.config.lossRatePpm (rngNext^[i + 1] imp).rngState.toNat,
        rngNext^[n] imp) := by
  induction n generalizing imp with
  | zero => rfl
  | succ n ih =>
    have hnext : imp.rngNext.config.lossRatePpm ≠ 0 := by rwa [rngNext_config]
    have hrest := ih hnext
    rw [rngNext_config] at hrest
    have hfirst : rngNext^[0 + 1] imp = imp.rngNext := rfl
    rw [dropFlags, shouldDrop_of_ne_zero h]
    simp only [hrest]
    rw [List.range_succ_eq_map, List.map_cons, List.map_map, hfirst, Function.iterate_succ_apply]
    have htail : (List.range n).map (fun i =>
          drops imp.config.lossRatePpm (rngNext^[i + 1] imp.rngNext).rngState.toNat) =
        (List.range n).map ((fun i =>
          drops imp.config.lossRatePpm (rngNext^[i + 1] imp).rngState.toNat) ∘ Nat.succ) := by
      apply List.map_congr_left
      intro i _
      rw [Function.comp_apply, Nat.succ_eq_add_one, Function.iterate_succ_apply _ (i + 1)]
    rw [htail]

theorem dropFlags_of_eq_zero {imp : Impairment} (h : imp.config.lossRatePpm = 0) (n : Nat) :
    dropFlags n imp = (List.replicate n false, imp) := by
  induction n with
  | zero => rfl
  | succ n ih =>
    rw [dropFlags, shouldDrop_of_eq_zero h]
    simp only [ih, List.replicate_succ]

/-! ## How many are dropped -/

/-- The packets lost of `2 ^ 32`: the words come in 4294 full blocks of a million and one of
    967296. -/
def lostPackets (lossRatePpm : Nat) : Nat :=
  4294 * min lossRatePpm 1000000 + min lossRatePpm 967296

theorem drops_iff (lossRatePpm : UInt32) (state : Nat) :
    drops lossRatePpm state = true ↔ state % 1000000 < lossRatePpm.toNat := by
  rw [drops, decide_eq_true_eq]

theorem count_drops (lossRatePpm : UInt32) (n : Nat) :
    n.count (fun state => drops lossRatePpm state) =
      n / 1000000 * min lossRatePpm.toNat 1000000 + min lossRatePpm.toNat (n % 1000000) := by
  rw [← Nat.count_mod_lt (by decide), Nat.count_eq_card_filter_range,
    Nat.count_eq_card_filter_range]
  exact congrArg Finset.card (Finset.filter_congr fun state _ => drops_iff lossRatePpm state)

theorem count_true_map_range (p : Nat → Bool) (n : Nat) :
    ((List.range n).map p).count true = n.count fun i => p i := by
  induction n with
  | zero => rfl
  | succ n ih =>
    rw [List.range_succ, List.map_append, List.count_append, ih, Nat.count_succ, List.map_singleton,
      List.count_singleton]
    by_cases hp : p n <;> simp [hp]

/-- After `2 ^ 32` draws the generator is where it was. -/
theorem iterate_rngNext_period (imp : Impairment) {n : Nat} (hn : 2 ^ 32 ∣ n) :
    rngNext^[n] imp = imp := by
  have hstate := toNat_iterate_rngNext imp n
  rw [(Lcg.iterate_next_eq_iff (by decide) (by decide) imp.rngState.toNat_lt n).mpr hn,
    UInt32.toNat_inj] at hstate
  have hconfig := iterate_rngNext_config imp n
  generalize rngNext^[n] imp = after at hstate hconfig
  cases after
  cases imp
  simp only at hstate hconfig
  rw [hstate, hconfig]

theorem length_dropFlags (imp : Impairment) (n : Nat) : (dropFlags n imp).1.length = n := by
  by_cases hrate : imp.config.lossRatePpm = 0
  · rw [dropFlags_of_eq_zero hrate, List.length_replicate]
  · rw [dropFlags_eq hrate, List.length_map, List.length_range]

theorem dropFlags_snd_of_dvd (imp : Impairment) {n : Nat} (hn : 2 ^ 32 ∣ n) :
    (dropFlags n imp).2 = imp := by
  by_cases hrate : imp.config.lossRatePpm = 0
  · rw [dropFlags_of_eq_zero hrate]
  · rw [dropFlags_eq hrate]
    exact iterate_rngNext_period imp hn

/-- The packets dropped among `n` are the draws with a small remainder. -/
theorem count_dropFlags_eq {imp : Impairment} (h : imp.config.lossRatePpm ≠ 0) (n : Nat) :
    (dropFlags n imp).1.count true = n.count fun i => drops imp.config.lossRatePpm
      ((Lcg.next 1664525 1013904223 (2 ^ 32))^[i] imp.rngNext.rngState.toNat) := by
  have hdraws : (fun i => drops imp.config.lossRatePpm (rngNext^[i + 1] imp).rngState.toNat) =
      fun i => drops imp.config.lossRatePpm
        ((Lcg.next 1664525 1013904223 (2 ^ 32))^[i] imp.rngNext.rngState.toNat) := by
    funext i
    rw [Function.iterate_succ_apply, toNat_iterate_rngNext]
  rw [dropFlags_eq h, hdraws, count_true_map_range]

/-- Of `2 ^ 32` packets a number is dropped that only the loss rate determines. -/
theorem count_dropFlags (imp : Impairment) :
    (dropFlags (2 ^ 32) imp).1.count true = lostPackets imp.config.lossRatePpm.toNat := by
  by_cases hrate : imp.config.lossRatePpm = 0
  · rw [dropFlags_of_eq_zero hrate, List.count_replicate, hrate]
    simp [lostPackets]
  · have hcount := Lcg.count_iterate (by decide) (by decide) imp.rngNext.rngState.toNat_lt
      (a := 1664525) (c := 1013904223) fun state => drops imp.config.lossRatePpm state = true
    have hblocks : 2 ^ 32 / 1000000 = 4294 := by norm_num
    have hrest : 2 ^ 32 % 1000000 = 967296 := by norm_num
    rw [count_dropFlags_eq hrate, hcount, count_drops, lostPackets, hblocks, hrest]

/-! ## Runs of calls -/

theorem shouldDrop_config (imp : Impairment) : imp.shouldDrop.2.config = imp.config := by
  unfold shouldDrop
  split_ifs
  · rfl
  · exact rngNext_config imp

/-- Without a latency, a call draws once and is dropped or passed on. -/
theorem through_of_noLatency {imp : Impairment} (hmin : imp.config.minLatencyMs = 0)
    (hmax : imp.config.maxLatencyMs = 0) (pass : PqcStatus × Bytes) :
    imp.through pass =
      some (if imp.shouldDrop.1 then (.errNetworkTimeout, []) else pass, imp.shouldDrop.2) := by
  have hlatency : imp.shouldDrop.2.getLatencyMs = some (0, imp.shouldDrop.2) := by
    rw [getLatencyMs, if_pos (by rw [shouldDrop_config]; exact ⟨hmin, hmax⟩)]
    rfl
  unfold through
  cases hdrop : imp.shouldDrop with
  | mk drop after =>
    rw [hdrop] at hlatency
    cases drop
    · simp [hlatency]
    · simp

theorem impaired_of_noLatency {imp : Impairment} (hmin : imp.config.minLatencyMs = 0)
    (hmax : imp.config.maxLatencyMs = 0) (call : PacketCall) :
    call.impaired imp = some (call.outcome imp.shouldDrop.1, imp.shouldDrop.2) := by
  cases call with
  | recv len result => exact through_of_noLatency hmin hmax _
  | send data result => exact through_of_noLatency hmin hmax _

/-- Without a latency, a run of calls takes the flags one by one. -/
theorem impairedCalls_eq {imp : Impairment} (hmin : imp.config.minLatencyMs = 0)
    (hmax : imp.config.maxLatencyMs = 0) (calls : List PacketCall) :
    impairedCalls imp calls =
      some (List.zipWith PacketCall.outcome (dropFlags calls.length imp).1 calls,
        (dropFlags calls.length imp).2) := by
  induction calls generalizing imp with
  | nil => rfl
  | cons call calls ih =>
    have hconfig := shouldDrop_config imp
    rw [impairedCalls, impaired_of_noLatency hmin hmax]
    simp only [Option.bind_eq_bind, Option.bind_some, ih (by rw [hconfig, hmin])
      (by rw [hconfig, hmax])]
    rfl

/-- Without a latency, of any `2 ^ 32` calls of `impairment_recv` and `impairment_send` exactly
    `lostPackets` are dropped, whatever the seed, and which ones does not depend on what is sent
    or received; the others do what `transport_recv` and `transport_send` do, and the generator
    ends where it was. -/
theorem impairedCalls_period (imp : Impairment) (hmin : imp.config.minLatencyMs = 0)
    (hmax : imp.config.maxLatencyMs = 0) :
    ∃ drops : List Bool, drops.length = 2 ^ 32 ∧
      drops.count true = lostPackets imp.config.lossRatePpm.toNat ∧
      ∀ calls : List PacketCall, calls.length = 2 ^ 32 →
        impairedCalls imp calls = some (List.zipWith PacketCall.outcome drops calls, imp) := by
  refine ⟨_, length_dropFlags imp (2 ^ 32), count_dropFlags imp, fun calls hcalls => ?_⟩
  rw [impairedCalls_eq hmin hmax, hcalls, dropFlags_snd_of_dvd imp (Nat.dvd_refl _)]

/-- Three percent, after a seed. -/
theorem impairedCalls_period_threePercent :
    ∃ drops : List Bool, drops.length = 2 ^ 32 ∧
      drops.count true = lostPackets 30000 ∧
      ∀ calls : List PacketCall, calls.length = 2 ^ 32 →
        impairedCalls (init initial ⟨30000, 0, 0, 0, 42⟩) calls =
          some (List.zipWith PacketCall.outcome drops calls, init initial ⟨30000, 0, 0, 0, 42⟩) :=
  impairedCalls_period (init initial ⟨30000, 0, 0, 0, 42⟩) rfl rfl

end Impairment

end SwiftAgg.Native
