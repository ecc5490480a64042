import SwiftAgg.Native.Impairment
import Mathlib.Data.Nat.Basic

/-!
# Latencies

`impairment_get_latency_ms` draws a latency between the configured bounds and
moves it by at most the jitter. The width of the range is taken in `uint32_t`,
where one more than it is zero for a minimum that is one above the maximum. The
jitter is drawn in `uint32_t` and used as an `int32_t`: from `2 ^ 30` on the
difference can leave the range of `int32_t`.

## Key results

- `zero_mem_latencyDivisors_iff`: when a remainder by zero is taken
- `jittered_eq_none` / `jittered_eq_some`: the jitter, with and without an overflow
- `latencySafe_iff`: which settings and states of the generator are safe and bounded
-/

namespace SwiftAgg.Native

namespace Impairment

/-! ## The call in parts -/

/-- The divisors of the remainders that `impairment_get_latency_ms` takes. -/
def latencyDivisors (imp : Impairment) : List UInt32 :=
  if imp.config.minLatencyMs = 0 ∧ imp.config.maxLatencyMs = 0 then []
  else
    (imp.config.maxLatencyMs - imp.config.minLatencyMs + 1) ::
      if imp.config.jitterMs = 0 then [] else [2 * imp.config.jitterMs + 1]

/-- A latency after the jitter, with the second draw of the call. -/
def jittered (latency jitter draw : UInt32) : Option UInt32 := do
  let r ← umod draw (2 * jitter + 1)
  let jitterVal ← int32 (r.toInt32.toInt - jitter.toInt32.toInt)
  let sum ← int32 (latency.toInt32.toInt + jitterVal)
  return if 0 < sum then UInt32.ofNat sum.toNat else latency

/-- A call that draws: first the latency, then the jitter, if there is any. -/
theorem getLatencyMs_eq {imp : Impairment}
    (h : ¬(imp.config.minLatencyMs = 0 ∧ imp.config.maxLatencyMs = 0)) :
    imp.getLatencyMs =
      (umod imp.rngNext.rngState (imp.config.maxLatencyMs - imp.config.minLatencyMs + 1)).bind
        fun r =>
          let latency := imp.config.minLatencyMs + r
          if imp.config.jitterMs = 0 then some (latency, imp.rngNext)
          else (jittered latency imp.config.jitterMs imp.rngNext.rngNext.rngState).map
            fun latency => (latency, imp.rngNext.rngNext) := by
  rw [getLatencyMs, if_neg h]
  simp only [Option.bind_eq_bind, Option.pure_def, jittered, Option.map_bind, Option.map_some,
    Function.comp_def, rngNext_config]

/-! ## Remainders -/

/-- Twice the jitter and one is odd. -/
theorem two_mul_add_one_ne_zero (jitter : UInt32) : 2 * jitter + 1 ≠ 0 := by
  intro hzero
  have hnat := congrArg UInt32.toNat hzero
  rw [UInt32.toNat_add, UInt32.toNat_mul] at hnat
  simp only [UInt32.reduceToNat] at hnat
  omega

/-- A remainder by zero is taken exactly for a minimum that is one above the maximum. -/
theorem zero_mem_latencyDivisors_iff (imp : Impairment) :
    0 ∈ imp.latencyDivisors ↔ imp.config.minLatencyMs = imp.config.maxLatencyMs + 1 := by
  rw [latencyDivisors]
  generalize imp.config.minLatencyMs = lo, imp.config.maxLatencyMs = hi,
    imp.config.jitterMs = jitter
  split
  · rename_i hzero
    obtain ⟨rfl, rfl⟩ := hzero
    decide
  · have hjitter : (0 : UInt32) ∉ if jitter = 0 then [] else [2 * jitter + 1] := by
      split
      · exact List.not_mem_nil
      · rw [List.mem_singleton]
        exact (two_mul_add_one_ne_zero jitter).symm
    rw [List.mem_cons, or_iff_left hjitter]
    constructor
    · intro hrange
      grind
    · rintro rfl
      grind

/-- Such a call has no value. -/
theorem getLatencyMs_eq_none {imp : Impairment} (h : 0 ∈ imp.latencyDivisors) :
    imp.getLatencyMs = none := by
  have hrange := (zero_mem_latencyDivisors_iff imp).mp h
  have hdraws : ¬(imp.config.minLatencyMs = 0 ∧ imp.config.maxLatencyMs = 0) := by
    rintro ⟨hmin, hmax⟩
    rw [hmin, hmax] at hrange
    exact absurd hrange (by decide)
  have hzero : imp.config.maxLatencyMs - imp.config.minLatencyMs + 1 = 0 := by grind
  rw [getLatencyMs_eq hdraws, hzero, umod, if_pos rfl, Option.bind_none]

/-! ## Bounds -/

/-- A draw from a range lies in the range. -/
theorem toNat_add_mod {lo hi : UInt32} (draw : UInt32) (hle : lo.toNat ≤ hi.toNat)
    (hlt : hi.toNat < 2 ^ 31) :
    hi - lo + 1 ≠ 0 ∧ lo.toNat ≤ (lo + draw % (hi - lo + 1)).toNat ∧
      (lo + draw % (hi - lo + 1)).toNat ≤ hi.toNat := by
  have hdiff : (hi - lo + 1).toNat = hi.toNat - lo.toNat + 1 := by
    rw [UInt32.toNat_add, UInt32.toNat_sub_of_le _ _ (UInt32.le_iff_toNat_le.mpr hle)]
    simp only [UInt32.reduceToNat]
    omega
  have hmod := Nat.mod_lt draw.toNat (show 0 < (hi - lo + 1).toNat by omega)
  have hdraw : (lo + draw % (hi - lo + 1)).toNat =
      lo.toNat + draw.toNat % (hi - lo + 1).toNat := by
    rw [UInt32.toNat_add, UInt32.toNat_mod]
    omega
  refine ⟨fun hzero => ?_, by omega, by omega⟩
  rw [hzero] at hdiff
  simp only [UInt32.reduceToNat] at hdiff
  omega

/-- A `uint32_t` as an `int32_t`. -/
theorem toInt_toInt32 (a : UInt32) :
    a.toInt32.toInt = if a.toNat < 2 ^ 31 then (a.toNat : Int) else a.toNat - 2 ^ 32 := by
  have hbits : a.toInt32.toInt = a.toBitVec.toInt := rfl
  rw [hbits, BitVec.toInt_eq_toNat_cond, UInt32.toNat_toBitVec]
  split <;> split <;> omega

section

variable {jitter draw : UInt32}

/-- The second draw, cut to at most twice the jitter. -/
theorem umod_draw (jitter draw : UInt32) :
    umod draw (2 * jitter + 1) = some (draw % (2 * jitter + 1)) :=
  if_neg (two_mul_add_one_ne_zero jitter)

theorem toNat_draw_le (draw : UInt32) (h : jitter.toNat < 2 ^ 31) :
    (draw % (2 * jitter + 1)).toNat ≤ 2 * jitter.toNat := by
  have hdiv : (2 * jitter + 1).toNat = 2 * jitter.toNat + 1 := by
    rw [UInt32.toNat_add, UInt32.toNat_mul]
    simp only [UInt32.reduceToNat]
    omega
  have hmod := Nat.mod_lt draw.toNat (show 0 < (2 * jitter + 1).toNat by omega)
  rw [UInt32.toNat_mod]
  omega

/-- A draw from `2 ^ 31` on becomes negative, and the difference overflows. -/
theorem jittered_eq_none (latency : UInt32) (h : jitter.toNat < 2 ^ 31)
    (hdraw : 2 ^ 31 ≤ (draw % (2 * jitter + 1)).toNat) : jittered latency jitter draw = none := by
  have hle := toNat_draw_le draw h
  have hval : int32 ((draw % (2 * jitter + 1)).toInt32.toInt - jitter.toInt32.toInt) = none := by
    rw [toInt_toInt32, if_neg (not_lt.mpr hdraw), toInt_toInt32, if_pos h, int32,
      if_neg (by omega)]
  rw [jittered, umod_draw]
  simp only [Option.bind_eq_bind, Option.bind_some, hval, Option.bind_none]

/-- Any other draw moves the latency by at most the jitter. -/
theorem jittered_eq_some {latency : UInt32} (h : latency.toNat + jitter.toNat < 2 ^ 31)
    (hdraw : (draw % (2 * jitter + 1)).toNat < 2 ^ 31) :
    ∃ out, jittered latency jitter draw = some out ∧ latency.toNat - jitter.toNat ≤ out.toNat ∧
      out.toNat ≤ latency.toNat + jitter.toNat := by
  have hle := toNat_draw_le draw (show jitter.toNat < 2 ^ 31 by omega)
  generalize hr : draw % (2 * jitter + 1) = r at *
  have hval : int32 (r.toInt32.toInt - jitter.toInt32.toInt) =
      some ((r.toNat : Int) - jitter.toNat) := by
    rw [toInt_toInt32, if_pos hdraw, toInt_toInt32, if_pos (by omega), int32, if_pos (by omega)]
  have hsum : int32 (latency.toInt32.toInt + ((r.toNat : Int) - jitter.toNat)) =
      some (latency.toNat + ((r.toNat : Int) - jitter.toNat)) := by
    rw [toInt_toInt32, if_pos (by omega), int32, if_pos (by omega)]
  refine ⟨_, by
    rw [jittered, umod_draw, hr]
    simp only [Option.bind_eq_bind, Option.bind_some, hval, hsum, Option.pure_def]
    rfl, ?_⟩
  split
  · rw [UInt32.toNat_ofNat']
    omega
  · omega

end

/-! ## Safe settings -/

/-- No remainder by zero; and if the bounds are in order and stay below `2 ^ 31` with the jitter,
    the call returns a latency that is at most the jitter away from the range. -/
def LatencySafe (imp : Impairment) : Prop :=
  let minLatencyMs := imp.config.minLatencyMs.toNat
  let maxLatencyMs := imp.config.maxLatencyMs.toNat
  let jitterMs := imp.config.jitterMs.toNat
  0 ∉ imp.latencyDivisors ∧
    (minLatencyMs ≤ maxLatencyMs → maxLatencyMs + jitterMs < 2 ^ 31 →
      ∃ latency imp', imp.getLatencyMs = some (latency, imp') ∧
        minLatencyMs - jitterMs ≤ latency.toNat ∧ latency.toNat ≤ maxLatencyMs + jitterMs)

/-- The second draw of the call, cut to at most twice the jitter, is an `int32_t`. -/
def DrawFits (imp : Impairment) : Prop :=
  (imp.rngNext.rngNext.rngState % (2 * imp.config.jitterMs + 1)).toNat < 2 ^ 31

instance (imp : Impairment) : Decidable imp.DrawFits := inferInstanceAs (Decidable (_ < _))

/-- Within the bounds, a call returns a latency exactly if its draws fit, and then within the
    bounds. -/
theorem getLatencyMs_bounded {imp : Impairment}
    (hle : imp.config.minLatencyMs.toNat ≤ imp.config.maxLatencyMs.toNat)
    (hlt : imp.config.maxLatencyMs.toNat + imp.config.jitterMs.toNat < 2 ^ 31)
    (hmax : imp.config.maxLatencyMs ≠ 0) :
    (imp.DrawFits → ∃ latency imp', imp.getLatencyMs = some (latency, imp') ∧
      imp.config.minLatencyMs.toNat - imp.config.jitterMs.toNat ≤ latency.toNat ∧
        latency.toNat ≤ imp.config.maxLatencyMs.toNat + imp.config.jitterMs.toNat) ∧
      (¬imp.DrawFits → imp.getLatencyMs = none) := by
  obtain ⟨hrange, hmin_le, hle_max⟩ := toNat_add_mod imp.rngNext.rngState hle
    (show imp.config.maxLatencyMs.toNat < 2 ^ 31 by omega)
  rw [getLatencyMs_eq fun h => hmax h.2, umod, if_neg hrange, Option.bind_some, DrawFits]
  dsimp only
  generalize imp.config.minLatencyMs + imp.rngNext.rngState % _ = latency at *
  by_cases hjitter : imp.config.jitterMs = 0
  · -- there is no second draw
    rw [if_pos hjitter, hjitter]
    refine ⟨fun _ => ⟨_, _, rfl, ?_, ?_⟩, fun hdraw => absurd ?_ hdraw⟩
    · exact (Nat.sub_le _ _).trans hmin_le
    · exact hle_max
    · have hone : (2 * 0 + 1 : UInt32) = 1 := rfl
      rw [hone, UInt32.toNat_mod, UInt32.toNat_one, Nat.mod_one]
      decide
  · rw [if_neg hjitter]
    constructor
    · intro hdraw
      have hsum : latency.toNat + imp.config.jitterMs.toNat < 2 ^ 31 := by omega
      obtain ⟨out, hout, hlow, hhigh⟩ := jittered_eq_some hsum hdraw
      rw [hout]
      exact ⟨out, _, rfl, by omega, by omega⟩
    · intro hdraw
      rw [jittered_eq_none latency (by omega) (not_lt.mp hdraw), Option.map_none]

/-- The settings and states of the generator for which the call is safe. -/
theorem latencySafe_iff_of_config (imp : Impairment) :
    imp.LatencySafe ↔ imp.config.minLatencyMs ≠ imp.config.maxLatencyMs + 1 ∧
      (imp.config.minLatencyMs.toNat ≤ imp.config.maxLatencyMs.toNat →
        imp.config.maxLatencyMs.toNat + imp.config.jitterMs.toNat < 2 ^ 31 →
          imp.config.maxLatencyMs = 0 ∨ imp.DrawFits) := by
  rw [LatencySafe, zero_mem_latencyDivisors_iff]
  refine and_congr_right fun _ => forall₂_congr fun hle hlt => ?_
  by_cases hmax : imp.config.maxLatencyMs = 0
  · -- without latencies the call returns at once
    refine iff_of_true ⟨0, imp, ?_, ?_, Nat.zero_le _⟩ (.inl hmax)
    · have hmin : imp.config.minLatencyMs = 0 := by
        rw [hmax] at hle
        exact UInt32.toNat_inj.mp (Nat.le_zero.mp hle)
      rw [getLatencyMs, if_pos ⟨hmin, hmax⟩]
      rfl
    · rw [hmax] at hle
      exact (Nat.sub_le _ _).trans hle
  · rw [or_iff_right hmax]
    obtain ⟨hfits, hoverflow⟩ := getLatencyMs_bounded hle hlt hmax
    refine ⟨fun ⟨latency, imp', hsome, _⟩ => ?_, hfits⟩
    by_contra hdraw
    rw [hoverflow hdraw] at hsome
    cases hsome

/-- Below `2 ^ 30` every draw fits; from there on one does not. -/
theorem forall_drawFits_iff {imp : Impairment} (h : imp.config.jitterMs.toNat < 2 ^ 31) :
    (∀ rngState, { imp with rngState }.DrawFits) ↔ imp.config.jitterMs.toNat < 2 ^ 30 := by
  constructor
  · intro hall
    by_contra hlarge
    -- the generator reaches `2 ^ 31` from here in two steps
    have hstate : ({ imp with rngState := 2003239710 } : Impairment).rngNext.rngNext.rngState =
        2 ^ 31 := by
      simp only [rngNext]
      decide
    have hdraw := hall 2003239710
    have hdiv : (2 * imp.config.jitterMs + 1).toNat = 2 * imp.config.jitterMs.toNat + 1 := by
      rw [UInt32.toNat_add, UInt32.toNat_mul]
      simp only [UInt32.reduceToNat]
      omega
    have hpow : ((2 : UInt32) ^ 31).toNat = 2 ^ 31 := by decide
    rw [DrawFits, hstate, UInt32.toNat_mod, hdiv, hpow, Nat.mod_eq_of_lt (by omega)] at hdraw
    exact absurd hdraw (lt_irrefl _)
  · intro hsmall rngState
    have hle := toNat_draw_le ({ imp with rngState } : Impairment).rngNext.rngNext.rngState h
    rw [DrawFits]
    exact lt_of_le_of_lt hle (by omega)

/-- Latencies and jitter as the setters store them. -/
def withLatency (imp : Impairment) (minLatencyMs maxLatencyMs jitterMs : UInt32) : Impairment :=
  (imp.setLatencyMs minLatencyMs maxLatencyMs).setJitterMs jitterMs

/-- The settings are safe exactly if the minimum is not one above the maximum and, where the bounds
    are to hold, the second draw fits or there is no latency; for every state of the generator they
    are so exactly if the jitter is below `2 ^ 30` then. -/
theorem latencySafe_iff (imp : Impairment) (minLatencyMs maxLatencyMs jitterMs : UInt32) :
    ((imp.withLatency minLatencyMs maxLatencyMs jitterMs).LatencySafe ↔
      minLatencyMs ≠ maxLatencyMs + 1 ∧
        (minLatencyMs.toNat ≤ maxLatencyMs.toNat →
          maxLatencyMs.toNat + jitterMs.toNat < 2 ^ 31 →
            maxLatencyMs = 0 ∨
              (imp.withLatency minLatencyMs maxLatencyMs jitterMs).DrawFits)) ∧
      ((∀ rngState, ({ imp with rngState }.withLatency minLatencyMs maxLatencyMs
          jitterMs).LatencySafe) ↔
        minLatencyMs ≠ maxLatencyMs + 1 ∧
          (minLatencyMs.toNat ≤ maxLatencyMs.toNat →
            maxLatencyMs.toNat + jitterMs.toNat < 2 ^ 31 →
              maxLatencyMs = 0 ∨ jitterMs.toNat < 2 ^ 30)) := by
  refine ⟨latencySafe_iff_of_config _, ?_⟩
  refine (forall_congr' fun _ => latencySafe_iff_of_config _).trans ?_
  -- the setters leave the generator alone
  have hfits : maxLatencyMs.toNat + jitterMs.toNat < 2 ^ 31 →
      ((∀ rngState, ({ imp with rngState }.withLatency minLatencyMs maxLatencyMs
        jitterMs).DrawFits) ↔ jitterMs.toNat < 2 ^ 30) := by
    intro hlt
    have hjitter : (imp.withLatency minLatencyMs maxLatencyMs jitterMs).config.jitterMs.toNat <
        2 ^ 31 := by
      show jitterMs.toNat < 2 ^ 31
      omega
    have hiff := forall_drawFits_iff hjitter
    exact hiff
  constructor
  · intro hall
    refine ⟨(hall 0).1, fun hle hlt => ?_⟩
    rw [or_iff_not_imp_left]
    intro hmax
    rw [← hfits hlt]
    exact fun rngState => ((hall rngState).2 hle hlt).resolve_left hmax
  · rintro ⟨hne, hall⟩ rngState
    refine ⟨hne, fun hle hlt => ?_⟩
    exact (hall hle hlt).imp_right fun hsmall => (hfits hlt).mpr hsmall rngState

/-- The whole range of `uint32_t` takes a remainder by zero. -/
theorem not_latencySafe_wholeRange :
    ¬(initial.withLatency 0 0xFFFFFFFF 0).LatencySafe := by
  rw [latencySafe_iff_of_config]
  decide

end Impairment

end SwiftAgg.Native
