import QortalRelay.Foundation.Store
import QortalRelay.Foundation.Trace
import Mathlib.Algebra.BigOperators.Group.Multiset.Basic
import Mathlib.Data.Multiset.Count
import Mathlib.Data.List.Count
import Mathlib.Tactic

/-!
# Tallies

A number of holders and, next to it, a map from keys to the number of holders of each key, kept by
increments and decrements. The map has no entry for a key without holders. What a tally stands for
is the multiset of the keys of its holders (`Tally.Counts`); one more holder and one holder less
are one key more and one key less (`Tally.Counts.add`, `Tally.Counts.remove`).
-/

set_option autoImplicit false
set_option relaxedAutoImplicit false

namespace QortalRelay.Foundation

open Store Trace

/-! ### Pools of places -/

section Pools

variable {K : Type*}

/-- The keys in a pool of places, each taken under a key or free. -/
def taken (pool : List (Option K)) : Multiset K := weight (fun place ↦ place.elim 0 ({·})) pool

@[simp] theorem taken_nil : taken ([] : List (Option K)) = 0 := rfl

@[simp] theorem taken_append_free (pool : List (Option K)) :
    taken (pool ++ [none]) = taken pool := by
  simp [taken]

@[simp] theorem taken_append_some (pool : List (Option K)) (key : K) :
    taken (pool ++ [some key]) = key ::ₘ taken pool := by
  simp [taken, add_comm]

/-- A place that is taken becomes free. -/
theorem taken_set_free {pool : List (Option K)} {i : ℕ} {key : K}
    (h : pool[i]? = some (some key)) : taken pool = key ::ₘ taken (pool.set i none) := by
  have hset := weight_set (fun place : Option K ↦ place.elim 0 ({·} : K → Multiset K)) h none
  simp only [Option.elim_some, Option.elim_none, add_zero] at hset
  rw [taken, ← hset, add_comm, Multiset.singleton_add, taken]

/-- A place that is free becomes taken. -/
theorem taken_set_some {pool : List (Option K)} {i : ℕ} (h : pool[i]? = some none) (key : K) :
    taken (pool.set i (some key)) = key ::ₘ taken pool := by
  have hset := weight_set (fun place : Option K ↦ place.elim 0 ({·} : K → Multiset K)) h (some key)
  simp only [Option.elim_some, Option.elim_none, add_zero] at hset
  rw [taken, hset, add_comm, Multiset.singleton_add, taken]

theorem taken_eq_zero {pool : List (Option K)} (h : ∀ place ∈ pool, place = none) :
    taken pool = 0 :=
  weight_eq_zero fun place hplace ↦ by rw [h place hplace, Option.elim_none]

theorem card_taken (pool : List (Option K)) :
    (taken pool).card = pool.countP Option.isSome := by
  induction pool with
  | nil => rfl
  | cons place pool ih =>
    rw [taken, weight_cons, Multiset.card_add, ← taken, ih]
    cases place <;> simp [add_comm]

theorem count_taken [DecidableEq K] (pool : List (Option K)) (key : K) {atKey : Option K → Bool}
    (hatKey : ∀ place, atKey place = true ↔ place = some key) :
    (taken pool).count key = pool.countP atKey := by
  induction pool with
  | nil => rfl
  | cons place pool ih =>
    rw [taken, weight_cons, Multiset.count_add, ← taken, ih, List.countP_cons]
    cases place with
    | none => simp [show atKey none = false by simpa using (hatKey none).not]
    | some other =>
      rw [Option.elim_some, Multiset.count_singleton, add_comm]
      congr 1
      by_cases hsame : key = other
      · rw [if_pos hsame, if_pos ((hatKey _).mpr (by rw [hsame]))]
      · rw [if_neg hsame, if_neg fun hat ↦ hsame (Option.some.inj ((hatKey _).mp hat)).symm]

end Pools

/-! ### Tallies -/

/-- A count for each key with their total. -/
structure Tally (K : Type*) [LinearOrder K] where
  total : ℤ
  counts : Bucket K ℤ

namespace Tally

variable {K : Type*} [LinearOrder K]

def empty : Tally K := ⟨0, .empty⟩

/-- A missing entry reads as zero. -/
def count (tally : Tally K) (key : K) : ℤ := (tally.counts.get key).getD 0

def add (tally : Tally K) (key : K) : Tally K :=
  ⟨tally.total + 1, tally.counts.put key (tally.count key + 1)⟩

/-- The entry of a key goes with its last holder. -/
def remove (tally : Tally K) (key : K) : Tally K where
  total := tally.total - 1
  counts :=
    if tally.count key - 1 = 0 then (tally.counts.put key (tally.count key - 1)).deleteAll [key]
    else tally.counts.put key (tally.count key - 1)

/-! ### Holders -/

/-- The tally of the holders with the given keys. -/
structure Counts (tally : Tally K) (holders : Multiset K) : Prop where
  total : tally.total = holders.card
  get : ∀ key, tally.counts.get key =
    if holders.count key = 0 then none else some (holders.count key : ℤ)

theorem counts_empty : (empty : Tally K).Counts 0 := ⟨rfl, fun _ ↦ by simp [empty]⟩

variable {tally : Tally K} {holders : Multiset K}

theorem Counts.count_eq (h : tally.Counts holders) (key : K) :
    tally.count key = holders.count key := by
  rw [count, h.get]
  split_ifs with hzero
  · simp [hzero]
  · rfl

theorem count_add (tally : Tally K) (key other : K) :
    (tally.add key).count other =
      if other = key then tally.count key + 1 else tally.count other := by
  rw [count, add, Bucket.get_put]
  split_ifs <;> rfl

theorem Counts.add (h : tally.Counts holders) (key : K) :
    (tally.add key).Counts (key ::ₘ holders) := by
  refine ⟨by simp [Tally.add, h.total], fun other ↦ ?_⟩
  rw [Tally.add, Bucket.get_put, h.count_eq, Multiset.count_cons]
  split_ifs with hsame hzero hzero
  · omega
  · simp [hsame]
  · rw [h.get, if_pos (by omega)]
  · rw [h.get, if_neg (by omega)]
    simp

/-- Assumes: the key has a holder, and a tally that differs by one in the total and at the key,
where the entry has gone with the last holder. -/
theorem Counts.decrement {key : K} (h : tally.Counts (key ::ₘ holders)) {tally' : Tally K}
    (htotal : tally'.total = tally.total - 1)
    (hget : ∀ other, tally'.counts.get other =
      if other = key then (if tally.count key ≤ 1 then none else some (tally.count key - 1))
      else tally.counts.get other) : tally'.Counts holders := by
  have hcount : tally.count key = holders.count key + 1 := by
    rw [h.count_eq, Multiset.count_cons_self, Nat.cast_succ]
  refine ⟨by rw [htotal, h.total, Multiset.card_cons]; omega, fun other ↦ ?_⟩
  rw [hget, hcount]
  by_cases hsame : other = key
  · subst hsame
    rw [if_pos rfl]
    by_cases hlast : holders.count other = 0
    · rw [if_pos (by omega), if_pos hlast]
    · rw [if_neg (by omega), if_neg hlast, add_sub_cancel_right]
  · rw [if_neg hsame, h.get, Multiset.count_cons_of_ne hsame]

theorem Counts.remove {key : K} (h : tally.Counts (key ::ₘ holders)) :
    (tally.remove key).Counts holders := by
  have hcount : tally.count key = holders.count key + 1 := by
    rw [h.count_eq, Multiset.count_cons_self, Nat.cast_succ]
  refine h.decrement rfl fun other ↦ ?_
  rw [Tally.remove]
  by_cases hlast : tally.count key - 1 = 0
  · have hle : tally.count key ≤ 1 := by omega
    rw [if_pos hlast, Bucket.get_deleteAll, Bucket.get_put]
    by_cases hsame : other = key <;> simp [hsame, hle]
  · have hlt : ¬ tally.count key ≤ 1 := by omega
    rw [if_neg hlast, Bucket.get_put, if_neg hlt]

/-! ### What is read off a tally -/

/-- With one holder less no key has more holders. -/
theorem Counts.count_le {key : K} (h : tally.Counts (key ::ₘ holders)) {tally' : Tally K}
    (h' : tally'.Counts holders) (other : K) : tally'.count other ≤ tally.count other := by
  rw [h.count_eq, h'.count_eq]
  exact_mod_cast Multiset.count_le_count_cons other key holders

theorem Counts.mem_keys (h : tally.Counts holders) {key : K} :
    key ∈ tally.counts.keys ↔ key ∈ holders := by
  rw [Bucket.mem_keys_iff_get_isSome, h.get, ← Multiset.one_le_count_iff_mem]
  split_ifs with hzero
  · simp [hzero]
  · simp only [Option.isSome_some, true_iff]
    omega

/-- Every entry is the number of holders of its key, and there is one. -/
theorem Counts.entry (h : tally.Counts holders) {key : K} {n : ℤ}
    (hget : tally.counts.get key = some n) : n = holders.count key ∧ 1 ≤ n := by
  rw [h.get] at hget
  split_ifs at hget with hzero
  obtain rfl := Option.some.inj hget
  exact ⟨rfl, by omega⟩

/-- The entries add up to the number of holders. -/
theorem Counts.sum_entries (h : tally.Counts holders) :
    (tally.counts.entries.map Prod.snd).sum = tally.total := by
  have hentries : tally.counts.entries.map Prod.snd =
      tally.counts.keys.map fun key ↦ (holders.count key : ℤ) := by
    rw [Bucket.keys, List.map_map]
    refine List.map_congr_left fun entry hentry ↦ ?_
    exact (h.entry (tally.counts.get_of_mem_entries hentry)).1
  have hkeys : tally.counts.keys.toFinset = holders.toFinset := by
    ext key
    rw [List.mem_toFinset, Multiset.mem_toFinset, h.mem_keys]
  rw [hentries, ← List.sum_toFinset _ tally.counts.nodup_keys, hkeys, ← Nat.cast_sum,
    Multiset.toFinset_sum_count_eq, h.total]

theorem Counts.counts_eq_empty (h : tally.Counts 0) : tally.counts.entries = [] := by
  rw [List.eq_nil_iff_forall_not_mem]
  intro entry hentry
  have hkey : entry.1 ∈ tally.counts.keys := List.mem_map_of_mem hentry
  exact Multiset.notMem_zero _ (h.mem_keys.mp hkey)

/-- The tally of a pool, read against the places of the pool. -/
theorem Counts.pool {pool : List (Option K)} (h : tally.Counts (taken pool)) :
    tally.total = pool.countP Option.isSome ∧ ∀ key (atKey : Option K → Bool),
      (∀ place, atKey place = true ↔ place = some key) → tally.count key = pool.countP atKey := by
  refine ⟨by rw [h.total, card_taken], fun key atKey hatKey ↦ ?_⟩
  rw [h.count_eq, count_taken pool key hatKey]

end Tally

end QortalRelay.Foundation
