import Mathlib.Data.Int.CardIntervalMod
import Mathlib.Data.Set.Card
import Mathlib.Algebra.BigOperators.Group.List.Basic
import SwiftAgg.ForStd.Bytes

/-!
# Counting reduced draws

Random words are reduced modulo a number that does not divide their range, so
the residues below the remainder come from one word more than the others. The
number of sequences of words that reduce to given residues depends on how many
of these residues are favoured in this way, and on nothing else.

## Key results

- `ncard_forall₂`: the sequences that take each element from a given set
- `ncard_mod_eq`: the words with a given residue
- `ncard_reduced` / `ncard_reduced_bytes`: the sequences of words with given residues
- `biasedCount_inj`: sequences of one length are equally many if as many residues are favoured
-/

namespace Sampling

/-! ## Sequences -/

/-- The sequences that take each element from a given set are as many as the choices multiply
    to. -/
theorem ncard_forall₂ {α β : Type*} (F : β → Set α) (bs : List β) :
    {l : List α | List.Forall₂ (fun b a => a ∈ F b) bs l}.ncard =
      (bs.map fun b => (F b).ncard).prod := by
  induction bs with
  | nil =>
    have hnil : {l : List α | List.Forall₂ (fun b a => a ∈ F b) [] l} = {[]} := by
      ext l
      exact List.forall₂_nil_left_iff
    rw [hnil, Set.ncard_singleton, List.map_nil, List.prod_nil]
  | cons b bs ih =>
    -- a sequence is its first element and the rest
    have hcons : {l : List α | List.Forall₂ (fun b a => a ∈ F b) (b :: bs) l} =
        (fun p : α × List α => p.1 :: p.2) ''
          (F b ×ˢ {l | List.Forall₂ (fun b a => a ∈ F b) bs l}) := by
      ext l
      constructor
      · intro h
        obtain ⟨a, l, ha, hl, rfl⟩ := List.forall₂_cons_left_iff.mp h
        exact ⟨(a, l), ⟨ha, hl⟩, rfl⟩
      · rintro ⟨p, ⟨ha, hl⟩, rfl⟩
        exact .cons ha hl
    have hinj : Function.Injective fun p : α × List α => p.1 :: p.2 := by
      rintro ⟨a, l⟩ ⟨a', l'⟩ h
      obtain ⟨rfl, rfl⟩ := List.cons.inj h
      rfl
    rw [hcons, Set.ncard_image_of_injective _ hinj, Set.ncard_prod, ih, List.map_cons,
      List.prod_cons]

/-! ## Residues -/

/-- The words below `r` with residue `a`: one more for the residues below `r % m`. -/
theorem ncard_mod_eq {m r a : ℕ} (ha : a < m) :
    {w | w < r ∧ w % m = a}.ncard = r / m + if a < r % m then 1 else 0 := by
  have hset : {w | w < r ∧ w % m = a} = ↑((Finset.range r).filter (· ≡ a [MOD m])) := by
    ext w
    simp [Nat.ModEq, Nat.mod_eq_of_lt ha]
  rw [hset, Set.ncard_coe_finset, ← Nat.count_eq_card_filter_range,
    Nat.count_modEq_card r (Nat.zero_lt_of_lt ha), Nat.mod_eq_of_lt ha]

/-- The number of sequences for `n` residues, `k` of them favoured, with `q` words each. -/
def biasedCount (q n k : ℕ) : ℕ := (q + 1) ^ k * q ^ (n - k)

theorem prod_biased (q : ℕ) (p : ℕ → Bool) (as : List ℕ) :
    (as.map fun a => q + if p a then 1 else 0).prod =
      biasedCount q as.length (as.countP p) := by
  induction as with
  | nil => rfl
  | cons a as ih =>
    have hle := List.countP_le_length (p := p) (l := as)
    rw [List.map_cons, List.prod_cons, ih, biasedCount, biasedCount, List.length_cons,
      List.countP_cons]
    split
    · rw [Nat.add_sub_add_right, pow_succ]
      ring
    · have hlen : as.length + 1 - as.countP p = as.length - as.countP p + 1 := by omega
      simp only [Nat.add_zero, hlen, pow_succ]
      ring

/-- Words below `r`, each with its residue. -/
theorem forall₂_residue_iff {m r : ℕ} {as ws : List ℕ} :
    List.Forall₂ (fun a w => w ∈ {w | w < r ∧ w % m = a}) as ws ↔
      (∀ w ∈ ws, w < r) ∧ ws.map (· % m) = as := by
  constructor
  · intro h
    induction h with
    | nil => exact ⟨fun _ hw => absurd hw List.not_mem_nil, rfl⟩
    | cons hw _ ih =>
      obtain ⟨hlt, hmod⟩ := hw
      exact ⟨List.forall_mem_cons.mpr ⟨hlt, ih.1⟩, congrArg₂ List.cons hmod ih.2⟩
  · rintro ⟨hlt, rfl⟩
    rw [List.forall₂_map_left_iff, List.forall₂_same]
    exact fun w hw => ⟨hlt w hw, rfl⟩

/-- The sequences of words below `r` with given residues modulo `m`. -/
theorem ncard_reduced {m r : ℕ} {as : List ℕ} (has : ∀ a ∈ as, a < m) :
    {ws : List ℕ | (∀ w ∈ ws, w < r) ∧ ws.map (· % m) = as}.ncard =
      biasedCount (r / m) as.length (as.countP (· < r % m)) := by
  simp only [← forall₂_residue_iff, ncard_forall₂, ← prod_biased]
  congr 1
  refine List.map_congr_left fun a ha => ?_
  simpa using ncard_mod_eq (has a ha)

/-- The byte strings of 16-bit words with given residues modulo `m`. -/
theorem ncard_reduced_bytes {m : ℕ} {as : List ℕ} (has : ∀ a ∈ as, a < m) :
    {b : Bytes | b.length % 2 = 0 ∧ (Bytes.u16sLE b).map (· % m) = as}.ncard =
      biasedCount (2 ^ 16 / m) as.length (as.countP (· < 2 ^ 16 % m)) := by
  -- packing is one-to-one on words of 16 bits
  have himage : {b : Bytes | b.length % 2 = 0 ∧ (Bytes.u16sLE b).map (· % m) = as} =
      Bytes.packU16LE '' {ws | (∀ w ∈ ws, w < 2 ^ 16) ∧ ws.map (· % m) = as} := by
    ext b
    constructor
    · rintro ⟨heven, hmod⟩
      exact ⟨Bytes.u16sLE b, ⟨fun w hw => Bytes.lt_of_mem_u16sLE hw, hmod⟩,
        Bytes.packU16LE_u16sLE heven⟩
    · rintro ⟨ws, ⟨hlt, hmod⟩, rfl⟩
      refine ⟨?_, by rwa [Bytes.u16sLE_packU16LE hlt]⟩
      rw [Bytes.length_packU16LE]
      omega
  have hinj : Set.InjOn Bytes.packU16LE {ws | (∀ w ∈ ws, w < 2 ^ 16) ∧ ws.map (· % m) = as} := by
    rintro ws ⟨hlt, -⟩ ws' ⟨hlt', -⟩ h
    rw [← Bytes.u16sLE_packU16LE hlt, h, Bytes.u16sLE_packU16LE hlt']
  rw [himage, hinj.ncard_image, ncard_reduced has]

/-- A favoured residue more makes for more sequences. -/
theorem biasedCount_strictMonoOn {q n k k' : ℕ} (hq : 0 < q) (hk : k < k') (hk' : k' ≤ n) :
    biasedCount q n k < biasedCount q n k' := by
  have hpow : q ^ (k' - k) < (q + 1) ^ (k' - k) := Nat.pow_lt_pow_left (by omega) (by omega)
  calc (q + 1) ^ k * q ^ (n - k)
      = (q + 1) ^ k * q ^ (n - k') * q ^ (k' - k) := by
        rw [mul_assoc, ← pow_add]
        congr 2
        omega
    _ < (q + 1) ^ k * q ^ (n - k') * (q + 1) ^ (k' - k) :=
        Nat.mul_lt_mul_of_pos_left hpow (by positivity)
    _ = (q + 1) ^ k' * q ^ (n - k') := by
        rw [mul_right_comm, ← pow_add]
        congr 2
        omega

/-- As many favoured residues, as many sequences, and the other way round. -/
theorem biasedCount_inj {q n k k' : ℕ} (hq : 0 < q) (hk : k ≤ n) (hk' : k' ≤ n) :
    biasedCount q n k = biasedCount q n k' ↔ k = k' := by
  constructor
  · intro h
    rcases Nat.lt_trichotomy k k' with hlt | heq | hlt
    · exact absurd h (biasedCount_strictMonoOn hq hlt hk').ne
    · exact heq
    · exact absurd h (biasedCount_strictMonoOn hq hlt hk).ne'
  · rintro rfl
    rfl

end Sampling
