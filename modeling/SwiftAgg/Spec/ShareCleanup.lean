import SwiftAgg.Native.Shamir

/-!
# What `shamir_share` leaves in its workspace

The coefficients of the shared polynomials are written to a workspace of the
caller. A generator that fails ends the element loop; then the failing element
and all elements before it are cleared, and later elements have not been
written yet. A call that succeeds clears all elements at its end.

## Key results

- `shamirCoefficientsLoop_of_failure`: the workspace after a failing draw
- `shamirCoefficientsLoop_frame`: the words behind the last element
- `shamirShare_cleans`: status, shares and workspace of a call
-/

namespace SwiftAgg.Native

/-! ## Clearing -/

theorem Words.clear_of_not (ws : Words) {base len k : Nat}
    (hk : ¬(base ≤ k ∧ k < base + len)) : ws.clear base len k = ws k := if_neg hk

/-- Clearing a block behind a cleared front clears both. -/
theorem Words.clear_clear (ws : Words) (base len : Nat) :
    (ws.clear 0 base).clear base len = ws.clear 0 (base + len) := by
  funext k
  simp only [clear]
  split_ifs <;> first | rfl | omega

/-- The loop over the previous elements clears everything before the failing one. -/
theorem Words.foldl_clear (ws : Words) (t e : Nat) :
    (List.range e).foldl (fun ws prevElem => ws.clear (prevElem * t) t) ws =
      ws.clear 0 (e * t) := by
  induction e with
  | zero =>
    rw [Nat.zero_mul]
    funext k
    exact (clear_of_not ws (by omega)).symm
  | succ e ih =>
    rw [List.range_succ, List.foldl_append, ih, List.foldl_cons, List.foldl_nil, clear_clear,
      Nat.add_mul, Nat.one_mul]

/-- A front that is cleared hides what was written there. -/
theorem Words.clear_congr {ws ws' : Words} {len : Nat} (h : ∀ k, len ≤ k → ws k = ws' k) :
    ws.clear 0 len = ws'.clear 0 len := by
  funext k
  simp only [clear]
  split_ifs
  · rfl
  · exact h k (by omega)

/-! ## The coefficients of one element -/

section

variable {rng : Rng} {base remaining i draw : Nat} {ws : Words}

/-- Words outside the block that is filled are not touched, whatever the generator does. -/
theorem generateRandomCoefficientsLoop_frame {k : Nat}
    (hk : ¬(base ≤ k ∧ k < base + i + remaining)) :
    (generateRandomCoefficientsLoop rng base remaining i draw ws).2 k = ws k := by
  induction remaining generalizing i draw ws with
  | zero => rfl
  | succ remaining ih =>
    rw [generateRandomCoefficientsLoop]
    dsimp only
    split
    · exact Words.clear_of_not _ (by omega)
    · rw [ih (by omega), Function.update_of_ne (by omega)]

/-- Without a failing draw the block is filled. -/
theorem generateRandomCoefficientsLoop_of_success
    (h : ∀ d < remaining, (rng (draw + d)).1 = 0) :
    (generateRandomCoefficientsLoop rng base remaining i draw ws).1 = 0 := by
  induction remaining generalizing i draw ws with
  | zero => rfl
  | succ remaining ih =>
    rw [generateRandomCoefficientsLoop]
    dsimp only
    have hfirst : (rng draw).1 = 0 := h 0 (by omega)
    rw [if_neg (not_not.mpr hfirst)]
    refine ih fun d hd => ?_
    rw [Nat.add_right_comm, Nat.add_assoc]
    exact h (d + 1) (by omega)

/-- The status of the first failing draw is returned. -/
theorem generateRandomCoefficientsLoop_of_failure {j : Nat} (hj : j < remaining)
    (hbefore : ∀ d < j, (rng (draw + d)).1 = 0) (hfail : (rng (draw + j)).1 ≠ 0) :
    (generateRandomCoefficientsLoop rng base remaining i draw ws).1 = (rng (draw + j)).1 := by
  induction remaining generalizing i draw ws j with
  | zero => omega
  | succ remaining ih =>
    rw [generateRandomCoefficientsLoop]
    dsimp only
    cases j with
    | zero =>
      have hfirst : (rng draw).1 ≠ 0 := hfail
      rw [if_pos hfirst]
      rfl
    | succ j =>
      have hfirst : (rng draw).1 = 0 := hbefore 0 (by omega)
      have hshift : ∀ d, draw + 1 + d = draw + (d + 1) := by omega
      rw [if_neg (not_not.mpr hfirst), ← hshift j]
      refine ih (by omega) (fun d hd => ?_) ?_
      · rw [hshift]
        exact hbefore (d + 1) (by omega)
      · rwa [hshift]

end

/-! ## All elements -/

section

variable {rng : Rng} {secret : Words} {t : Nat}

/-- Words behind the last element are not touched. -/
theorem shamirCoefficientsLoop_frame {remaining elem draw : Nat} {ws : Words} {k : Nat}
    (hk : (elem + remaining) * t ≤ k) (ht : 0 < t) :
    (shamirCoefficientsLoop rng secret t remaining elem draw ws).2 k = ws k := by
  induction remaining generalizing elem draw ws with
  | zero => rfl
  | succ remaining ih =>
    have hle : (elem + 1) * t ≤ k := le_trans (Nat.mul_le_mul_right t (by omega)) hk
    have hnext : (elem + 1) * t = elem * t + t := by rw [Nat.add_mul, Nat.one_mul]
    have hrest : (elem + 1 + remaining) * t ≤ k := by
      rwa [Nat.add_assoc, Nat.add_comm 1 remaining]
    have hfilled : ∀ draw ws, (generateRandomCoefficients rng draw ws (elem * t + 1) (t - 1)).2 k =
        ws k := fun draw ws => generateRandomCoefficientsLoop_frame (by omega)
    rw [shamirCoefficientsLoop]
    dsimp only
    split
    · split
      · rw [Words.foldl_clear]
        show Words.clear (Words.clear _ _ _) _ _ k = ws k
        rw [Words.clear_of_not _ (by omega), Words.clear_of_not _ (by omega), hfilled,
          Function.update_of_ne (by omega)]
      · rw [ih hrest, hfilled, Function.update_of_ne (by omega)]
    · rw [ih hrest, Function.update_of_ne (by omega)]

/-- A draw that fails while element `e` is processed: its status is returned, everything up to and
    with the element is cleared, and nothing behind it was touched. -/
theorem shamirCoefficientsLoop_of_failure {remaining elem e j : Nat} (hle : elem ≤ e)
    (he : e < elem + remaining) (hj : j < t - 1)
    (hbefore : ∀ d < e * (t - 1) + j, (rng d).1 = 0) (hfail : (rng (e * (t - 1) + j)).1 ≠ 0)
    (ws : Words) :
    shamirCoefficientsLoop rng secret t remaining elem (elem * (t - 1)) ws =
      ((rng (e * (t - 1) + j)).1, ws.clear 0 ((e + 1) * t)) := by
  induction remaining generalizing elem ws with
  | zero => omega
  | succ remaining ih =>
    have hnext : (elem + 1) * t = elem * t + t := by rw [Nat.add_mul, Nat.one_mul]
    have hframe : ∀ draw ws, ∀ k ≥ (elem + 1) * t,
        (generateRandomCoefficients rng draw ws (elem * t + 1) (t - 1)).2 k = ws k :=
      fun draw ws k hk => generateRandomCoefficientsLoop_frame (by omega)
    rw [shamirCoefficientsLoop]
    dsimp only
    rw [if_pos (by omega)]
    rcases Nat.eq_or_lt_of_le hle with rfl | hlt
    · -- the draws of this element fail
      have hstatus : (generateRandomCoefficients rng (elem * (t - 1))
          (Function.update ws (elem * t) (secret elem)) (elem * t + 1) (t - 1)).1 =
            (rng (elem * (t - 1) + j)).1 :=
        generateRandomCoefficientsLoop_of_failure hj (fun d hd => hbefore _ (by omega)) hfail
      rw [hstatus, if_pos hfail, Words.foldl_clear]
      congr 1
      -- the failing element is cleared first, then the elements before it
      funext k
      by_cases hk : k < (elem + 1) * t
      · simp only [Words.clear]
        split_ifs <;> first | rfl | omega
      · rw [Words.clear_of_not _ (by omega), Words.clear_of_not _ (by omega),
          Words.clear_of_not _ (by omega), hframe _ _ k (by omega),
          Function.update_of_ne (by omega)]
    · -- the draws of this element succeed, a later one fails
      have hblock : (elem + 1) * (t - 1) ≤ e * (t - 1) := Nat.mul_le_mul_right (t - 1) hlt
      have hdraw : (elem + 1) * (t - 1) = elem * (t - 1) + (t - 1) := by
        rw [Nat.add_mul, Nat.one_mul]
      have hstatus : (generateRandomCoefficients rng (elem * (t - 1))
          (Function.update ws (elem * t) (secret elem)) (elem * t + 1) (t - 1)).1 = 0 :=
        generateRandomCoefficientsLoop_of_success fun d hd => hbefore _ (by omega)
      have hend : (elem + 1) * t ≤ (e + 1) * t := Nat.mul_le_mul_right t (by omega)
      rw [hstatus, if_neg (by decide), ← hdraw, ih hlt (by omega)]
      congr 1
      refine Words.clear_congr fun k hk => ?_
      rw [hframe _ _ k (by omega), Function.update_of_ne (by omega)]

end

/-! ## The call -/

section

variable (rng : Rng) (secret : Words) {m n t : Nat} (bufs : ShareBuffers)

/-- A failing element loop is all there is to the call. -/
theorem shamirShare_of_failure (hm : m ≤ 32) (ht : 1 ≤ t) (htn : t ≤ n) (hn : n ≤ 255)
    (hret : (shamirCoefficientsLoop rng secret t m 0 0 bufs.workspace).1 ≠ 0) :
    shamirShare rng secret m n t bufs =
      ((shamirCoefficientsLoop rng secret t m 0 0 bufs.workspace).1,
        { bufs with
          workspace := (shamirCoefficientsLoop rng secret t m 0 0 bufs.workspace).2 }) := by
  have helems : ¬shamirSecretElements < m := by
    rw [shamirSecretElements]
    omega
  rw [shamirShare, if_neg (not_refused ht htn hn), if_neg helems]
  exact if_pos hret

/-- A call that succeeds hands out the indices from 1 on and clears the workspace. -/
theorem shamirShare_of_success (hret : (shamirShare rng secret m n t bufs).1 = 0) :
    (shamirShare rng secret m n t bufs).2.shareX =
        (fun i => if i < n then i + 1 else bufs.shareX i) ∧
      (shamirShare rng secret m n t bufs).2.workspace =
        (shamirCoefficientsLoop rng secret t m 0 0 bufs.workspace).2.clear 0 (t * m) := by
  unfold shamirShare at hret ⊢
  -- a refused call returns -1
  split_ifs at hret ⊢ with hrefused hlarge
  · cases hret
  · cases hret
  dsimp only at hret ⊢
  split_ifs at hret ⊢ with hloop
  · exact absurd hret hloop
  · exact ⟨rfl, rfl⟩

/-- A call that succeeds leaves zeros in the words it used. One that fails while element `e` is
    processed returns the status of the generator, writes no share and leaves zeros in the words of
    all elements up to `e`. No other word of the workspace is changed. -/
theorem shamirShare_cleans (hm : m ≤ 32) (ht : 1 ≤ t) (htn : t ≤ n) (hn : n ≤ 255) :
    ((shamirShare rng secret m n t bufs).1 = 0 →
      (∀ k < t * m, (shamirShare rng secret m n t bufs).2.workspace k = 0) ∧
        ∀ k, t * m ≤ k → (shamirShare rng secret m n t bufs).2.workspace k = bufs.workspace k) ∧
    ∀ e < m, ∀ j < t - 1, (∀ d < e * (t - 1) + j, (rng d).1 = 0) →
      (rng (e * (t - 1) + j)).1 ≠ 0 →
        (shamirShare rng secret m n t bufs).1 = (rng (e * (t - 1) + j)).1 ∧
        (shamirShare rng secret m n t bufs).2.shareX = bufs.shareX ∧
        (shamirShare rng secret m n t bufs).2.shareY = bufs.shareY ∧
        (∀ k < (e + 1) * t, (shamirShare rng secret m n t bufs).2.workspace k = 0) ∧
        ∀ k, (e + 1) * t ≤ k →
          (shamirShare rng secret m n t bufs).2.workspace k = bufs.workspace k := by
  constructor
  · intro hret
    rw [(shamirShare_of_success rng secret bufs hret).2]
    refine ⟨fun k hk => if_pos ⟨Nat.zero_le k, by omega⟩, fun k hk => ?_⟩
    rw [Words.clear_of_not _ (by omega)]
    apply shamirCoefficientsLoop_frame _ ht
    rwa [Nat.zero_add, Nat.mul_comm]
  · intro e he j hj hbefore hfail
    have hloop : shamirCoefficientsLoop rng secret t m 0 (0 * (t - 1)) bufs.workspace =
        ((rng (e * (t - 1) + j)).1, bufs.workspace.clear 0 ((e + 1) * t)) :=
      shamirCoefficientsLoop_of_failure (Nat.zero_le e) (by omega) hj hbefore hfail _
    rw [Nat.zero_mul] at hloop
    have hcall := shamirShare_of_failure rng secret bufs hm ht htn hn (by rwa [hloop])
    rw [hcall, hloop]
    refine ⟨rfl, rfl, rfl, fun k hk => ?_, fun k hk => ?_⟩
    · exact if_pos ⟨Nat.zero_le k, by omega⟩
    · exact Words.clear_of_not _ (by omega)

end

/-- The second draw fails with -5 while the second of three elements is shared. -/
theorem shamirShare_cleans_secondDraw :
    let bufs : ShareBuffers := ⟨fun _ => 7, fun _ _ => 7, fun _ => 7⟩
    let r := shamirShare (fun d => (if d = 1 then -5 else 0, 1, 0)) (fun _ => 9) 3 2 2 bufs
    r.1 = -5 ∧ r.2.shareX = bufs.shareX ∧ r.2.shareY = bufs.shareY ∧
      (∀ k < 4, r.2.workspace k = 0) ∧ ∀ k, 4 ≤ k → r.2.workspace k = 7 :=
  (shamirShare_cleans (fun d => (if d = 1 then -5 else 0, 1, 0)) (fun _ => 9)
    ⟨fun _ => 7, fun _ _ => 7, fun _ => 7⟩ (by decide) (by decide) (by decide) (by decide)).2
      1 (by decide) 0 (by decide) (by decide) (by decide)

end SwiftAgg.Native
