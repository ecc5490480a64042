import Mathlib.Algebra.BigOperators.Group.Finset.Basic
import Mathlib.Data.List.Nodup
import Mathlib.Data.List.Basic
import Mathlib.Tactic.Common
import SwiftAgg.ForStd.Except

/-!
# Insertion-ordered dictionaries

`Dict κ ν` is a finite map that remembers the order in which its keys were
first inserted: assigning to a key that is present replaces the value in
place, assigning to a new key appends it. The list of entries never holds a
key twice, which the structure carries as a field.

## Key results

- `get?_eq_some_iff`: a lookup succeeds exactly on the stored entries
- `get?_insert` / `get?_modify`: what assignment and in-place update do to lookups
- `forall_insert` / `forall_modify`: what they keep of all entries
- `keys_modify`: in-place update changes no key and no order
- `perm_map_entries`: dictionaries with the same lookups have the same entries, up to order
- `ext_get?`: with the same order of keys they are equal
- `sum_filter_entries`: a sum over some of the keys
- `get?_foldl_insert` / `foldlM_insert`: a loop that assigns to the keys of a dictionary
- `entries_foldl_insert`: a loop that assigns to new keys
- `entries_eq_of_get?`: the entries, if the values are known
- `foldlM_insert_keys`: a loop over keys, which may come twice
-/

/-- A finite map with the order of first insertion. -/
structure Dict (κ ν : Type) where
  entries : List (κ × ν)
  nodup : (entries.map Prod.fst).Nodup

namespace Dict

variable {κ ν : Type}

@[ext] theorem ext {d e : Dict κ ν} (h : d.entries = e.entries) : d = e := by
  cases d; cases e; simp only at h; subst h; rfl

/-- The empty dictionary. -/
def empty : Dict κ ν := ⟨[], by simp⟩

instance : Inhabited (Dict κ ν) := ⟨empty⟩

/-- The keys in insertion order. -/
def keys (d : Dict κ ν) : List κ := d.entries.map Prod.fst

/-- The values in insertion order. -/
def values (d : Dict κ ν) : List ν := d.entries.map Prod.snd

theorem mem_keys_iff {d : Dict κ ν} {k : κ} : k ∈ d.keys ↔ ∃ v, (k, v) ∈ d.entries := by
  simp [keys]

/-- Update in place every value stored under a key, leaving keys and order alone. -/
def mapValues (d : Dict κ ν) (f : κ → ν → ν) : Dict κ ν where
  entries := d.entries.map fun p => (p.1, f p.1 p.2)
  nodup := by simpa [List.map_map, Function.comp_def] using d.nodup

@[simp] theorem keys_mapValues (d : Dict κ ν) (f : κ → ν → ν) :
    (d.mapValues f).keys = d.keys := by
  simp [keys, mapValues, List.map_map, Function.comp_def]

/-- Apply a function to all values, of any type. -/
def map {μ : Type} (d : Dict κ ν) (f : ν → μ) : Dict κ μ where
  entries := d.entries.map fun p => (p.1, f p.2)
  nodup := by simpa [List.map_map, Function.comp_def] using d.nodup

@[simp] theorem keys_map {μ : Type} (d : Dict κ ν) (f : ν → μ) : (d.map f).keys = d.keys := by
  simp [keys, map, List.map_map, Function.comp_def]

/-- The values of `f` under the keys below `n`, in order. -/
def tabulate (n : Nat) (f : Nat → ν) : Dict Nat ν where
  entries := (List.range n).map fun i => (i, f i)
  nodup := by simpa [List.map_map, Function.comp_def] using List.nodup_range

theorem mem_entries_tabulate {n : Nat} {f : Nat → ν} {e : Nat × ν} :
    e ∈ (tabulate n f).entries ↔ e.1 < n ∧ e.2 = f e.1 := by
  obtain ⟨i, v⟩ := e
  simp [tabulate, eq_comm]

variable [DecidableEq κ]

/-- Lookup. -/
def get? (d : Dict κ ν) (k : κ) : Option ν := d.entries.lookup k

/-- Membership of a key. -/
def contains (d : Dict κ ν) (k : κ) : Bool := decide (k ∈ d.keys)

/-- Update in place the value of one key, if it is present. -/
def modify (d : Dict κ ν) (k : κ) (f : ν → ν) : Dict κ ν :=
  d.mapValues fun k' v => if k' = k then f v else v

/-- Assignment `d[k] = v`. -/
def insert (d : Dict κ ν) (k : κ) (v : ν) : Dict κ ν :=
  if h : k ∈ d.keys then d.modify k fun _ => v
  else
    { entries := d.entries ++ [(k, v)]
      nodup := by
        rw [List.map_append, List.map_cons, List.map_nil, ← List.concat_eq_append]
        exact d.nodup.concat h }

/-! ## Lookup -/

/-- A lookup returns the value stored under the key, and only that. -/
theorem get?_eq_some_iff {d : Dict κ ν} {k : κ} {v : ν} :
    d.get? k = some v ↔ (k, v) ∈ d.entries := by
  obtain ⟨entries, nodup⟩ := d
  simp only [get?]
  induction entries with
  | nil => simp
  | cons p rest ih =>
    obtain ⟨k', v'⟩ := p
    simp only [List.map_cons, List.nodup_cons] at nodup
    -- `lookup` takes the first entry; there is no second one with its key
    by_cases hk : k = k'
    · subst hk
      simp only [List.lookup_cons_self, Option.some.injEq, List.mem_cons, Prod.mk.injEq, true_and]
      constructor
      · exact fun h => .inl h.symm
      · rintro (rfl | h)
        · rfl
        · exact absurd (List.mem_map_of_mem h) nodup.1
    · rw [List.lookup_cons, beq_false_of_ne hk, ih nodup.2]
      simp [hk]

theorem get?_eq_none_iff {d : Dict κ ν} {k : κ} : d.get? k = none ↔ k ∉ d.keys := by
  rw [mem_keys_iff, Option.eq_none_iff_forall_ne_some]
  simp only [ne_eq, get?_eq_some_iff, not_exists]

theorem mem_keys_of_get? {d : Dict κ ν} {k : κ} {v : ν} (h : d.get? k = some v) : k ∈ d.keys :=
  mem_keys_iff.mpr ⟨v, get?_eq_some_iff.mp h⟩

theorem mem_values_iff {d : Dict κ ν} {v : ν} : v ∈ d.values ↔ ∃ k, d.get? k = some v := by
  simp only [values, List.mem_map, get?_eq_some_iff, Prod.exists, exists_eq_right]

theorem get?_tabulate {n : Nat} (f : Nat → ν) {i : Nat} (hi : i < n) :
    (tabulate n f).get? i = some (f i) :=
  get?_eq_some_iff.mpr (mem_entries_tabulate.mpr ⟨hi, rfl⟩)

@[simp] theorem get?_empty (k : κ) : (empty : Dict κ ν).get? k = none := rfl

@[simp] theorem contains_eq_true_iff {d : Dict κ ν} {k : κ} : d.contains k = true ↔ k ∈ d.keys := by
  simp [contains]

@[simp] theorem contains_eq_false_iff {d : Dict κ ν} {k : κ} :
    d.contains k = false ↔ k ∉ d.keys := by
  simp [contains]

@[simp] theorem keys_modify (d : Dict κ ν) (k : κ) (f : ν → ν) : (d.modify k f).keys = d.keys :=
  keys_mapValues d _

theorem get?_mapValues (d : Dict κ ν) (f : κ → ν → ν) (k : κ) :
    (d.mapValues f).get? k = (d.get? k).map (f k) := by
  cases h : d.get? k with
  | none =>
    rw [get?_eq_none_iff] at h
    rw [Option.map_none, get?_eq_none_iff, keys_mapValues]
    exact h
  | some v =>
    rw [get?_eq_some_iff] at h
    rw [Option.map_some, get?_eq_some_iff]
    exact List.mem_map_of_mem (f := fun p : κ × ν => (p.1, f p.1 p.2)) h

theorem get?_modify (d : Dict κ ν) (k k' : κ) (f : ν → ν) :
    (d.modify k f).get? k' = if k' = k then (d.get? k').map f else d.get? k' := by
  rw [modify, get?_mapValues]
  split <;> simp_all

/-- Assignment overwrites its own key and leaves every other lookup unchanged. -/
theorem get?_insert (d : Dict κ ν) (k k' : κ) (v : ν) :
    (d.insert k v).get? k' = if k' = k then some v else d.get? k' := by
  unfold insert
  split
  · -- an existing key keeps its place
    rename_i hk
    rw [get?_modify]
    split
    · rename_i heq
      subst heq
      obtain ⟨w, hw⟩ := mem_keys_iff.mp hk
      rw [get?_eq_some_iff.mpr hw, Option.map_some]
    · rfl
  · -- a new key is appended
    rename_i hk
    cases h : d.get? k' with
    | some w =>
      have hne : k' ≠ k := fun heq => hk (heq ▸ mem_keys_of_get? h)
      rw [if_neg hne, get?_eq_some_iff]
      exact List.mem_append_left _ (get?_eq_some_iff.mp h)
    | none =>
      split
      · rename_i heq
        subst heq
        rw [get?_eq_some_iff]
        simp
      · rename_i hne
        rw [get?_eq_none_iff] at h ⊢
        simp_all [keys]

/-- What holds of all entries and of the one that is assigned. -/
theorem forall_insert {P : κ → ν → Prop} {d : Dict κ ν} {k : κ} {v : ν}
    (h : ∀ k' v', d.get? k' = some v' → P k' v') (hv : P k v) :
    ∀ k' v', (d.insert k v).get? k' = some v' → P k' v' := by
  intro k' v' hget
  rw [get?_insert] at hget
  split at hget
  · rename_i heq
    cases hget
    exact heq ▸ hv
  · exact h k' v' hget

/-- What holds of all entries and of the one after its update. -/
theorem forall_modify {P : κ → ν → Prop} {d : Dict κ ν} {k : κ} {f : ν → ν}
    (h : ∀ k' v, d.get? k' = some v → P k' v) (hf : ∀ v, d.get? k = some v → P k (f v)) :
    ∀ k' v', (d.modify k f).get? k' = some v' → P k' v' := by
  intro k' v' hget
  rw [get?_modify] at hget
  split at hget
  · rename_i heq
    subst heq
    obtain ⟨v, hv, rfl⟩ := Option.map_eq_some_iff.mp hget
    exact hf v hv
  · exact h k' v' hget

private theorem map_entries_of_notMem {l : List (κ × ν)} {k : κ} (f : ν → ν)
    (h : k ∉ l.map Prod.fst) : (l.map fun p => (p.1, if p.1 = k then f p.2 else p.2)) = l := by
  refine (List.map_congr_left fun p hp => ?_).trans (List.map_id _)
  have hne : p.1 ≠ k := fun heq => h (heq ▸ List.mem_map_of_mem hp)
  rw [if_neg hne]
  rfl

theorem modify_of_notMem {d : Dict κ ν} {k : κ} (f : ν → ν) (h : k ∉ d.keys) :
    d.modify k f = d :=
  Dict.ext (map_entries_of_notMem f h)

/-- Only the entry of the key changes. -/
theorem entries_modify_append {d : Dict κ ν} {l l' : List (κ × ν)} {k : κ} {v : ν} (f : ν → ν)
    (h : d.entries = l ++ (k, v) :: l') : (d.modify k f).entries = l ++ (k, f v) :: l' := by
  have hnodup := d.nodup
  rw [h, List.map_append, List.map_cons, List.nodup_middle, List.nodup_cons, List.mem_append,
    not_or] at hnodup
  obtain ⟨⟨hfront, hback⟩, -⟩ := hnodup
  show d.entries.map _ = _
  rw [h, List.map_append, List.map_cons, map_entries_of_notMem f hfront,
    map_entries_of_notMem f hback]
  simp only [↓reduceIte]

/-- Assigning the value that is there. -/
theorem insert_of_get? {d : Dict κ ν} {k : κ} {v : ν} (h : d.get? k = some v) :
    d.insert k v = d := by
  rw [insert, dif_pos (mem_keys_of_get? h)]
  apply Dict.ext
  show d.entries.map _ = d.entries
  refine (List.map_congr_left fun p hp => ?_).trans (List.map_id _)
  show (p.1, if p.1 = k then v else p.2) = p
  split
  · rename_i heq
    have hget := get?_eq_some_iff.mpr hp
    rw [heq, h] at hget
    rw [Option.some.inj hget]
  · rfl

theorem modify_modify (d : Dict κ ν) (k : κ) (f g : ν → ν) :
    (d.modify k f).modify k g = d.modify k fun v => g (f v) := by
  apply Dict.ext
  simp only [modify, mapValues, List.map_map]
  refine List.map_congr_left fun p _ => ?_
  simp only [Function.comp_apply]
  split <;> rfl

theorem mem_keys_insert {d : Dict κ ν} {k k' : κ} {v : ν} :
    k' ∈ (d.insert k v).keys ↔ k' = k ∨ k' ∈ d.keys := by
  rw [← not_iff_not, not_or, ← get?_eq_none_iff, ← get?_eq_none_iff, get?_insert]
  by_cases h : k' = k <;> simp [h]

theorem keys_insert_of_mem {d : Dict κ ν} {k : κ} (v : ν) (h : k ∈ d.keys) :
    (d.insert k v).keys = d.keys := by
  rw [insert, dif_pos h, keys_modify]

/-- Inserting a fresh key appends it. -/
theorem entries_insert_of_notMem {d : Dict κ ν} {k : κ} (v : ν) (h : k ∉ d.keys) :
    (d.insert k v).entries = d.entries ++ [(k, v)] := by
  simp [insert, h]

/-! ## Images -/

section

variable {μ : Type} (d : Dict κ ν) {f : ν → μ}

theorem get?_map (f : ν → μ) (k : κ) : (d.map f).get? k = (d.get? k).map f := by
  cases h : d.get? k with
  | none =>
    rw [get?_eq_none_iff] at h
    rw [Option.map_none, get?_eq_none_iff, keys_map]
    exact h
  | some v =>
    rw [get?_eq_some_iff] at h
    rw [Option.map_some, get?_eq_some_iff]
    exact List.mem_map_of_mem (f := fun p : κ × ν => (p.1, f p.2)) h

/-- An in-place update seen through `f` is an in-place update. -/
theorem map_modify (k : κ) {g : ν → ν} {g' : μ → μ} (h : ∀ v, f (g v) = g' (f v)) :
    (d.modify k g).map f = (d.map f).modify k g' := by
  apply Dict.ext
  simp only [map, modify, mapValues, List.map_map]
  refine List.map_congr_left fun p _ => ?_
  simp only [Function.comp_apply]
  split
  · rw [h]
  · rfl

/-- An in-place update that `f` does not see. -/
theorem map_modify_of_eq (k : κ) {g : ν → ν} (h : ∀ v, f (g v) = f v) :
    (d.modify k g).map f = d.map f := by
  apply Dict.ext
  simp only [map, modify, mapValues, List.map_map]
  refine List.map_congr_left fun p _ => ?_
  simp only [Function.comp_apply]
  split
  · rw [h]
  · rfl

theorem map_insert (f : ν → μ) (k : κ) (v : ν) :
    (d.insert k v).map f = (d.map f).insert k (f v) := by
  by_cases hk : k ∈ d.keys
  · have hk' : k ∈ (d.map f).keys := by rwa [keys_map]
    rw [insert, dif_pos hk, insert, dif_pos hk']
    exact map_modify d k fun _ => rfl
  · have hk' : k ∉ (d.map f).keys := by rwa [keys_map]
    apply Dict.ext
    rw [entries_insert_of_notMem _ hk']
    show (d.insert k v).entries.map _ = _
    rw [entries_insert_of_notMem _ hk, List.map_append]
    rfl

end

/-! ## Order -/

/-- Seen through functions under which all lookups agree, two dictionaries have the same entries up
    to order. -/
theorem perm_map_entries {μ α : Type} {d : Dict κ ν} {e : Dict κ μ} {f : κ → ν → α} {g : κ → μ → α}
    (h : ∀ k, (d.get? k).map (f k) = (e.get? k).map (g k)) :
    (d.entries.map fun p => f p.1 p.2).Perm (e.entries.map fun p => g p.1 p.2) := by
  -- with the keys kept, both lists are duplicate-free and have the same members
  have hnodup : ∀ {ν' : Type} (d' : Dict κ ν') (f' : κ → ν' → α),
      (d'.entries.map fun p => (p.1, f' p.1 p.2)).Nodup := by
    intro ν' d' f'
    refine List.Nodup.of_map Prod.fst ?_
    rw [List.map_map]
    exact d'.nodup
  have hmem : ∀ {ν' : Type} (d' : Dict κ ν') (f' : κ → ν' → α) (k : κ) (a : α),
      (k, a) ∈ d'.entries.map (fun p => (p.1, f' p.1 p.2)) ↔
        (d'.get? k).map (f' k) = some a := by
    intro ν' d' f' k a
    rw [List.mem_map, Option.map_eq_some_iff]
    constructor
    · rintro ⟨p, hp, heq⟩
      cases heq
      exact ⟨p.2, get?_eq_some_iff.mpr hp, rfl⟩
    · rintro ⟨v, hv, rfl⟩
      exact ⟨(k, v), get?_eq_some_iff.mp hv, rfl⟩
  have hperm : (d.entries.map fun p => (p.1, f p.1 p.2)).Perm
      (e.entries.map fun p => (p.1, g p.1 p.2)) := by
    rw [List.perm_ext_iff_of_nodup (hnodup d f) (hnodup e g)]
    rintro ⟨k, a⟩
    rw [hmem, hmem, h]
  have hvalues := hperm.map Prod.snd
  rwa [List.map_map, List.map_map] at hvalues

/-- The entries are the keys with their values. -/
theorem ext_get? {d e : Dict κ ν} (hkeys : d.keys = e.keys) (hget : ∀ k, d.get? k = e.get? k) :
    d = e := by
  have hlen : d.entries.length = e.entries.length := by
    simpa [keys] using congrArg List.length hkeys
  refine Dict.ext (List.ext_getElem hlen fun i hd he => ?_)
  have hkey : (d.entries[i]).1 = (e.entries[i]).1 := by
    have hi := congrArg (·[i]?) hkeys
    simpa [keys, hd, he] using hi
  have hdvalue : d.get? (d.entries[i]).1 = some (d.entries[i]).2 :=
    get?_eq_some_iff.mpr (List.getElem_mem hd)
  have hevalue : e.get? (e.entries[i]).1 = some (e.entries[i]).2 :=
    get?_eq_some_iff.mpr (List.getElem_mem he)
  rw [hget, hkey, hevalue] at hdvalue
  exact Prod.ext hkey (Option.some.inj hdvalue.symm)

/-! ## Sums -/

/-- A sum over the entries under the keys in `C` is a sum over `C`. -/
theorem sum_filter_entries {M : Type} [AddCommMonoid M] (d : Dict κ ν) {C : Finset κ}
    (hC : ∀ k ∈ C, k ∈ d.keys) (f : κ → M) :
    ((d.entries.filter fun e => e.1 ∈ C).map fun e => f e.1).sum = ∑ k ∈ C, f k := by
  have hnodup : ((d.entries.filter fun e => e.1 ∈ C).map Prod.fst).Nodup :=
    d.nodup.sublist (List.filter_sublist.map _)
  have hset : ((d.entries.filter fun e => e.1 ∈ C).map Prod.fst).toFinset = C := by
    ext k
    simp only [List.mem_toFinset, List.mem_map, List.mem_filter, decide_eq_true_eq]
    constructor
    · rintro ⟨e, ⟨-, he⟩, rfl⟩
      exact he
    · intro hk
      obtain ⟨v, hv⟩ := mem_keys_iff.mp (hC k hk)
      exact ⟨(k, v), ⟨hv, hk⟩, rfl⟩
  rw [← hset, List.sum_toFinset _ hnodup, List.map_map, hset]
  rfl

/-! ## Loops -/

/-- A loop over entries with distinct keys that assigns `v e` to the key of `e`, or skips the entry:
    every assigned key holds its value, and all other keys are left alone. -/
private theorem foldl_insert {μ : Type} (v : κ × ν → Option μ) {l : List (κ × ν)}
    (hnodup : (l.map Prod.fst).Nodup) (d : Dict κ μ) :
    (∀ e ∈ l, ∀ x, v e = some x →
      (l.foldl (fun d e => (v e).elim d (d.insert e.1)) d).get? e.1 = some x) ∧
    ∀ k, (∀ e ∈ l, e.1 = k → v e = none) →
      (l.foldl (fun d e => (v e).elim d (d.insert e.1)) d).get? k = d.get? k := by
  induction l generalizing d with
  | nil => exact ⟨by simp, by simp⟩
  | cons e l ih =>
    simp only [List.map_cons, List.nodup_cons] at hnodup
    obtain ⟨hset, hframe⟩ := ih hnodup.2 ((v e).elim d (d.insert e.1))
    rw [List.foldl_cons]
    -- the rest of the loop does not come back to the key of `e`
    have hkey := hframe e.1 fun e' he' heq => absurd (heq ▸ List.mem_map_of_mem he') hnodup.1
    refine ⟨?_, ?_⟩
    · intro e' he' x hx
      rcases List.mem_cons.mp he' with rfl | he'
      · rw [hkey, hx, Option.elim_some, get?_insert, if_pos rfl]
      · exact hset e' he' x hx
    · intro k hk
      rw [hframe k fun e' he' => hk e' (List.mem_cons_of_mem e he')]
      cases hv : v e with
      | none => rfl
      | some x =>
        have hne : k ≠ e.1 := by
          rintro rfl
          exact absurd (hk e (by simp) rfl) (by simp [hv])
        rw [Option.elim_some, get?_insert, if_neg hne]

/-- The loop over all entries of a dictionary, in any order. -/
theorem get?_foldl_insert {μ : Type} (v : κ × ν → Option μ) {d : Dict κ ν} {l : List (κ × ν)}
    (hperm : l.Perm d.entries) (k : κ) :
    (l.foldl (fun r e => (v e).elim r (r.insert e.1)) empty).get? k =
      (d.get? k).bind fun x => v (k, x) := by
  have hnodup : (l.map Prod.fst).Nodup := (hperm.map Prod.fst).nodup_iff.mpr d.nodup
  obtain ⟨hset, hframe⟩ := foldl_insert v hnodup empty
  cases hx : (d.get? k).bind fun x => v (k, x) with
  | some y =>
    obtain ⟨x, hk, hv⟩ := Option.bind_eq_some_iff.mp hx
    exact hset (k, x) (hperm.mem_iff.mpr (get?_eq_some_iff.mp hk)) y hv
  | none =>
    -- the only entry of the loop with this key is the one of the dictionary
    refine (hframe k fun e he heq => ?_).trans (get?_empty k)
    subst heq
    rw [get?_eq_some_iff.mpr (hperm.mem_iff.mp he)] at hx
    exact hx

/-- The same loop, with steps that may raise and do not. -/
theorem foldlM_insert {ε μ : Type} (step : Dict κ μ → κ × ν → Except ε (Dict κ μ))
    (v : κ × ν → Option μ) (d : Dict κ ν)
    (hstep : ∀ e ∈ d.entries, ∀ r, step r e = .ok ((v e).elim r (r.insert e.1))) :
    ∃ r, d.entries.foldlM step empty = .ok r ∧
      ∀ k, r.get? k = (d.get? k).bind fun x => v (k, x) := by
  obtain ⟨hfold, -⟩ := List.foldlM_eq_ok (fun _ => True)
    (fun e he r _ => ⟨hstep e he r, trivial⟩) (b := (empty : Dict κ μ)) trivial
  exact ⟨_, hfold, get?_foldl_insert v (.refl _)⟩

/-- A loop that assigns to distinct keys that are not there yet appends them in its order. -/
theorem entries_foldl_insert (f : κ → ν) {l : List κ} (hnodup : l.Nodup) {d : Dict κ ν}
    (hnew : ∀ k ∈ l, k ∉ d.keys) :
    (l.foldl (fun d k => d.insert k (f k)) d).entries = d.entries ++ l.map fun k => (k, f k) := by
  induction l generalizing d with
  | nil => exact (List.append_nil _).symm
  | cons a l ih =>
    obtain ⟨ha, hnodup'⟩ := List.nodup_cons.mp hnodup
    have hnew' : ∀ k ∈ l, k ∉ (d.insert a (f a)).keys := by
      intro k hk hmem
      obtain rfl | hold := mem_keys_insert.mp hmem
      · exact ha hk
      · exact hnew k (List.mem_cons_of_mem a hk) hold
    rw [List.foldl_cons, ih hnodup' hnew', entries_insert_of_notMem _ (hnew a List.mem_cons_self),
      List.append_assoc, List.singleton_append, List.map_cons]

/-- The entries of a dictionary of which all values are known. -/
theorem entries_eq_of_get? {d : Dict κ ν} {l : List κ} {f : κ → ν} (hkeys : d.keys = l)
    (hget : ∀ k ∈ l, d.get? k = some (f k)) : d.entries = l.map fun k => (k, f k) := by
  have hentries : ∀ e ∈ d.entries, e = (e.1, f e.1) := by
    rintro ⟨k, v⟩ he
    have hk : k ∈ l := hkeys ▸ mem_keys_iff.mpr ⟨v, he⟩
    have hv : v = f k := Option.some.inj ((get?_eq_some_iff.mpr he).symm.trans (hget k hk))
    rw [hv]
  rw [← hkeys, keys, List.map_map]
  exact (List.map_id _).symm.trans (List.map_congr_left hentries)

/-- A loop over keys that assigns to a key a value that depends on the key alone, or skips it. -/
theorem foldlM_insert_keys {ε μ : Type} (step : Dict κ μ → κ → Except ε (Dict κ μ))
    (v : κ → Option μ) {l : List κ}
    (hstep : ∀ k ∈ l, ∀ r, step r k = .ok ((v k).elim r (r.insert k))) (d : Dict κ μ) :
    ∃ r, l.foldlM step d = .ok r ∧
      ∀ k, r.get? k = (if k ∈ l then v k else none).or (d.get? k) := by
  induction l generalizing d with
  | nil => exact ⟨d, rfl, fun k => by simp⟩
  | cons a l ih =>
    obtain ⟨r, hfold, hget⟩ := ih (fun k hk => hstep k (List.mem_cons_of_mem a hk))
      ((v a).elim d (d.insert a))
    refine ⟨r, ?_, fun k => ?_⟩
    · rw [List.foldlM_cons, hstep a (by simp)]
      exact hfold
    · rw [hget]
      by_cases hka : k = a
      · -- the rest of the loop can only assign the same value again
        subst hka
        cases hv : v k with
        | none => simp
        | some x => by_cases hk : k ∈ l <;> simp [hk, get?_insert]
      · have hskip : ((v a).elim d (d.insert a)).get? k = d.get? k := by
          cases v a with
          | none => rfl
          | some x => rw [Option.elim_some, get?_insert, if_neg hka]
        simp [hskip, hka]

end Dict
