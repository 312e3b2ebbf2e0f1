import Mathlib.Order.Lattice
import Mathlib.Data.List.Basic
import Mathlib.Data.List.Pairwise
import Mathlib.Data.List.Nodup
import Mathlib.Data.List.Perm.Subperm

/-!
# Sorted buckets and cursor loops

A bucket of an ordered key-value store: a list of entries with strictly ascending keys, the
ordering carried by the structure. A cursor loop visits the keys in ascending order and for each
one keeps the entry, deletes it, or stops; `condemned` is the list of keys it deletes. Two shapes
of loop are compared with one filter: the loop that looks at every entry (`condemned_full`), and
the loop that stops at the first entry it would keep, which needs the deleted keys to come first
(`condemned_early`). A bucket also serves as a finite map whose size is observable.
-/

set_option autoImplicit false
set_option relaxedAutoImplicit false

namespace QortalRelay.Foundation.Store

/-! ### Buckets -/

/-- Entries in strictly ascending order of their keys. -/
structure Bucket (K V : Type*) [LinearOrder K] where
  entries : List (K × V)
  sorted : (entries.map Prod.fst).Pairwise (· < ·)

section Operations

variable {K V : Type*} [LinearOrder K]

/-- The value of the first entry with the key. -/
def lookupEntry (key : K) : List (K × V) → Option V
  | [] => none
  | entry :: rest => if key = entry.1 then some entry.2 else lookupEntry key rest

/-- The entries with one of them inserted at its place, or replaced there. -/
def insertEntry (key : K) (value : V) : List (K × V) → List (K × V)
  | [] => [(key, value)]
  | entry :: rest =>
    if key < entry.1 then (key, value) :: entry :: rest
    else if key = entry.1 then (key, value) :: rest
    else entry :: insertEntry key value rest

theorem mem_keys_insertEntry {key other : K} {value : V} {entries : List (K × V)} :
    other ∈ (insertEntry key value entries).map Prod.fst ↔
      other = key ∨ other ∈ entries.map Prod.fst := by
  induction entries with
  | nil => simp [insertEntry]
  | cons entry rest ih =>
    unfold insertEntry
    split_ifs with hlt heq
    · simp
    · simp [heq]
    · simp only [List.map_cons, List.mem_cons, ih]
      tauto

theorem sorted_insertEntry (key : K) (value : V) {entries : List (K × V)}
    (hsorted : (entries.map Prod.fst).Pairwise (· < ·)) :
    ((insertEntry key value entries).map Prod.fst).Pairwise (· < ·) := by
  induction entries with
  | nil => simp [insertEntry]
  | cons entry rest ih =>
    rw [List.map_cons, List.pairwise_cons] at hsorted
    unfold insertEntry
    split_ifs with hlt heq
    · simp only [List.map_cons, List.pairwise_cons, List.mem_cons]
      refine ⟨?_, hsorted⟩
      rintro other (rfl | hother)
      · exact hlt
      · exact hlt.trans (hsorted.1 other hother)
    · simp only [List.map_cons, List.pairwise_cons]
      exact ⟨fun other hother ↦ heq ▸ hsorted.1 other hother, hsorted.2⟩
    · simp only [List.map_cons, List.pairwise_cons]
      refine ⟨fun other hother ↦ ?_, ih hsorted.2⟩
      rcases mem_keys_insertEntry.mp hother with rfl | h
      · exact lt_of_le_of_ne (not_lt.mp hlt) fun h ↦ heq h.symm
      · exact hsorted.1 other h

namespace Bucket

/-- A bucket without entries. -/
def empty : Bucket K V := ⟨[], List.Pairwise.nil⟩

/-- The keys in the order a cursor visits them. -/
def keys (b : Bucket K V) : List K := b.entries.map Prod.fst

/-- The value stored under a key. -/
def get (b : Bucket K V) (key : K) : Option V := lookupEntry key b.entries

/-- The number of keys. -/
def keyN (b : Bucket K V) : ℕ := b.entries.length

/-- Store a value under a key, over any value that was there. -/
def put (b : Bucket K V) (key : K) (value : V) : Bucket K V :=
  ⟨insertEntry key value b.entries, sorted_insertEntry key value b.sorted⟩

/-- Remove the entries of the listed keys. -/
def deleteAll (b : Bucket K V) (dead : List K) : Bucket K V :=
  ⟨b.entries.filter fun entry ↦ entry.1 ∉ dead,
    b.sorted.sublist (List.filter_sublist.map Prod.fst)⟩

end Bucket

end Operations

/-! ### Reading after writing -/

section Reading

variable {K V : Type*} [LinearOrder K]

theorem lookupEntry_insertEntry (key other : K) (value : V) (entries : List (K × V)) :
    lookupEntry other (insertEntry key value entries) =
      if other = key then some value else lookupEntry other entries := by
  induction entries with
  | nil => rfl
  | cons entry rest ih =>
    unfold insertEntry
    by_cases hlt : key < entry.1
    · simp [hlt, lookupEntry]
    · by_cases hkey : key = entry.1
      · by_cases hother : other = entry.1
        · simp [hkey, hother, lookupEntry]
        · simp [hkey, hother, lookupEntry]
      · by_cases hother : other = key
        · simp [hlt, hkey, hother, lookupEntry, hother ▸ ih]
        · simp [hlt, hkey, hother, lookupEntry, ih]

theorem lookupEntry_isSome_iff {key : K} {entries : List (K × V)} :
    (lookupEntry key entries).isSome ↔ key ∈ entries.map Prod.fst := by
  induction entries with
  | nil => simp [lookupEntry]
  | cons entry rest ih =>
    unfold lookupEntry
    split_ifs with h
    · simp [h]
    · simp [ih, h]

theorem lookupEntry_filter (keep : K → Bool) (key : K) (entries : List (K × V)) :
    lookupEntry key (entries.filter fun entry ↦ keep entry.1) =
      if keep key then lookupEntry key entries else none := by
  induction entries with
  | nil => simp [lookupEntry]
  | cons entry rest ih =>
    by_cases hkeep : keep entry.1
    · by_cases heq : key = entry.1
      · simp [hkeep, lookupEntry, heq]
      · simp [hkeep, lookupEntry, heq, ih]
    · by_cases heq : key = entry.1
      · subst heq
        simp [hkeep, ih]
      · simp [hkeep, lookupEntry, heq, ih]

namespace Bucket

@[simp] theorem get_empty (key : K) : (empty : Bucket K V).get key = none := rfl

theorem get_put (b : Bucket K V) (key other : K) (value : V) :
    (b.put key value).get other = if other = key then some value else b.get other :=
  lookupEntry_insertEntry key other value b.entries

@[simp] theorem get_put_self (b : Bucket K V) (key : K) (value : V) :
    (b.put key value).get key = some value := by
  rw [get_put, if_pos rfl]

theorem get_put_of_ne (b : Bucket K V) {key other : K} (h : other ≠ key) (value : V) :
    (b.put key value).get other = b.get other := by
  rw [get_put, if_neg h]

theorem mem_keys_iff_get_isSome {b : Bucket K V} {key : K} :
    key ∈ b.keys ↔ (b.get key).isSome :=
  lookupEntry_isSome_iff.symm

theorem nodup_keys (b : Bucket K V) : b.keys.Nodup := b.sorted.imp ne_of_lt

theorem get_of_mem_entries (b : Bucket K V) {key : K} {value : V}
    (h : (key, value) ∈ b.entries) : b.get key = some value := by
  have hnodup : (b.entries.map Prod.fst).Nodup := b.nodup_keys
  unfold get
  generalize b.entries = entries at h hnodup
  induction entries with
  | nil => simp at h
  | cons entry rest ih =>
    rw [List.map_cons, List.nodup_cons] at hnodup
    rcases List.mem_cons.mp h with rfl | hrest
    · simp [lookupEntry]
    · have hne : key ≠ entry.1 := by
        rintro rfl
        exact hnodup.1 (List.mem_map.mpr ⟨_, hrest, rfl⟩)
      rw [lookupEntry, if_neg hne, ih hrest hnodup.2]

theorem get_deleteAll (b : Bucket K V) (dead : List K) (key : K) :
    (b.deleteAll dead).get key = if key ∈ dead then none else b.get key := by
  have h := lookupEntry_filter (fun k ↦ decide (k ∉ dead)) key b.entries
  by_cases hdead : key ∈ dead
  · simpa [hdead, get, deleteAll] using h
  · simpa [hdead, get, deleteAll] using h

/-- Deletion only removes. -/
theorem get_of_get_deleteAll {b : Bucket K V} {dead : List K} {key : K} {value : V}
    (h : (b.deleteAll dead).get key = some value) : b.get key = some value := by
  rw [get_deleteAll] at h
  split_ifs at h
  exact h

@[simp] theorem length_keys (b : Bucket K V) : b.keys.length = b.keyN := by
  simp [keys, keyN]

theorem perm_keys_put {b : Bucket K V} {key : K} (hkey : b.get key = none) (value : V) :
    (b.put key value).keys.Perm (key :: b.keys) := by
  have hnew : key ∉ b.keys := by
    rw [mem_keys_iff_get_isSome, hkey]
    simp
  refine (List.perm_ext_iff_of_nodup (nodup_keys _) (b.nodup_keys.cons hnew)).mpr fun other ↦ ?_
  rw [List.mem_cons, mem_keys_iff_get_isSome, mem_keys_iff_get_isSome, get_put]
  split_ifs with hother
  · simp [hother]
  · simp [hother]

theorem perm_keys_deleteAll {b : Bucket K V} {key : K} (hkey : key ∈ b.keys) :
    b.keys.Perm (key :: (b.deleteAll [key]).keys) := by
  have hgone : key ∉ (b.deleteAll [key]).keys := by
    rw [mem_keys_iff_get_isSome, get_deleteAll]
    simp
  refine (List.perm_ext_iff_of_nodup b.nodup_keys ((nodup_keys _).cons hgone)).mpr fun other ↦ ?_
  rw [List.mem_cons, mem_keys_iff_get_isSome, mem_keys_iff_get_isSome, get_deleteAll]
  by_cases hother : other = key
  · simpa [hother] using mem_keys_iff_get_isSome.mp hkey
  · simp [hother]

theorem keyN_put_le (b : Bucket K V) (key : K) (value : V) :
    (b.put key value).keyN ≤ b.keyN + 1 := by
  have hsubset : (b.put key value).keys ⊆ key :: b.keys := by
    intro other hother
    rw [mem_keys_iff_get_isSome, get_put] at hother
    rw [List.mem_cons, mem_keys_iff_get_isSome]
    split_ifs at hother with heq
    · exact Or.inl heq
    · exact Or.inr hother
  simpa using (List.subperm_of_subset (nodup_keys _) hsubset).length_le

/-- A value that is replaced adds no key. -/
theorem keyN_put_of_isSome {b : Bucket K V} {key : K} (h : (b.get key).isSome) (value : V) :
    (b.put key value).keyN = b.keyN := by
  have hsame : (b.put key value).keys.Perm b.keys := by
    refine (List.perm_ext_iff_of_nodup (nodup_keys _) b.nodup_keys).mpr fun other ↦ ?_
    rw [mem_keys_iff_get_isSome, mem_keys_iff_get_isSome, get_put]
    split_ifs with hother
    · simp [hother, h]
    · rfl
  simpa using hsame.length_eq

theorem keyN_deleteAll_le (b : Bucket K V) (dead : List K) : (b.deleteAll dead).keyN ≤ b.keyN :=
  List.length_filter_le _ _

theorem keyN_deleteAll_singleton {b : Bucket K V} {key : K} (hkey : key ∈ b.keys) :
    (b.deleteAll [key]).keyN + 1 = b.keyN := by
  simpa using (perm_keys_deleteAll hkey).length_eq.symm

end Bucket

end Reading

/-! ### Cursor loops -/

section Cursor

variable {K V ε : Type*}

/-- What a loop does with the entry its cursor is on. -/
inductive Verdict
  | keep
  | delete
  | stop
deriving DecidableEq, Repr

/-- The keys a cursor loop deletes. The cursor visits the keys in order, and after a deletion it
moves on to the following key. -/
def condemned (visit : K → Except ε Verdict) : List K → Except ε (List K)
  | [] => .ok []
  | key :: rest =>
    match visit key with
    | .error e => .error e
    | .ok .stop => .ok []
    | .ok .keep => condemned visit rest
    | .ok .delete => (condemned visit rest).map (key :: ·)

/-- A loop that looks at every entry deletes exactly the doomed ones. -/
theorem condemned_full {visit : K → Except ε Verdict} {doomed : K → Bool} {keys : List K}
    (hvisit : ∀ key ∈ keys, visit key = .ok (if doomed key then .delete else .keep)) :
    condemned visit keys = .ok (keys.filter doomed) := by
  induction keys with
  | nil => rfl
  | cons key rest ih =>
    have hrest := ih fun k hk ↦ hvisit k (List.mem_cons_of_mem _ hk)
    have hkey := hvisit key List.mem_cons_self
    by_cases h : doomed key
    · simp [condemned, hkey, h, hrest, Except.map]
    · simp [condemned, hkey, h, hrest]

variable [LinearOrder K]

/-- A loop that stops at the first entry it would keep deletes exactly the doomed ones. Assumes:
in the order of the keys the doomed ones come first. -/
theorem condemned_early {visit : K → Except ε Verdict} {doomed : K → Bool} {keys : List K}
    (hsorted : keys.Pairwise (· < ·))
    (hfirst : ∀ key ∈ keys, ∀ later ∈ keys, key < later → doomed later → doomed key)
    (hvisit : ∀ key ∈ keys, visit key = .ok (if doomed key then .delete else .stop)) :
    condemned visit keys = .ok (keys.filter doomed) := by
  induction keys with
  | nil => rfl
  | cons key rest ih =>
    rw [List.pairwise_cons] at hsorted
    have hkey := hvisit key List.mem_cons_self
    by_cases h : doomed key
    · have hrest := ih hsorted.2
        (fun k hk l hl ↦ hfirst k (List.mem_cons_of_mem _ hk) l (List.mem_cons_of_mem _ hl))
        (fun k hk ↦ hvisit k (List.mem_cons_of_mem _ hk))
      simp [condemned, hkey, h, hrest, Except.map]
    · -- Nothing after the first survivor is doomed.
      have hnone : rest.filter doomed = [] := by
        rw [List.filter_eq_nil_iff]
        intro later hlater hdoomed
        exact h (hfirst key List.mem_cons_self later (List.mem_cons_of_mem _ hlater)
          (hsorted.1 later hlater) hdoomed)
      simp [condemned, hkey, h, hnone]

/-- Deleting what a loop condemned leaves the entries that are not doomed. -/
theorem get_deleteAll_filter (b : Bucket K V) (doomed : K → Bool) (key : K) :
    (b.deleteAll (b.keys.filter doomed)).get key = if doomed key then none else b.get key := by
  rw [Bucket.get_deleteAll]
  by_cases hdoomed : doomed key
  · by_cases hmem : key ∈ b.keys
    · simp [hdoomed, hmem]
    · have hnone : b.get key = none := by
        rw [Bucket.mem_keys_iff_get_isSome, Option.not_isSome_iff_eq_none] at hmem
        exact hmem
      simp [hdoomed, hnone]
  · simp [hdoomed]

/-! ### Cursors over a bucket that shrinks -/

namespace Bucket

/-- The key a cursor moves to: the first one after the key it was on. -/
def next (b : Bucket K V) (key : K) : Option K := b.keys.find? fun other ↦ decide (key < other)

/-- A cursor loop that deletes from the bucket it walks. -/
def sweepFrom (visit : K → Except ε Verdict) : ℕ → Option K → Bucket K V → Except ε (Bucket K V)
  | fuel + 1, some key, b =>
    match visit key with
    | .error e => .error e
    | .ok .stop => .ok b
    | .ok .keep => sweepFrom visit fuel (b.next key) b
    | .ok .delete => sweepFrom visit fuel ((b.deleteAll [key]).next key) (b.deleteAll [key])
  | _, _, b => .ok b

/-- The loop from the first key to the end. It has no more turns than there are keys. -/
def sweep (visit : K → Except ε Verdict) (b : Bucket K V) : Except ε (Bucket K V) :=
  sweepFrom visit b.keyN b.keys.head? b

theorem ext_entries {b c : Bucket K V} (h : b.entries = c.entries) : b = c := by
  cases b
  cases c
  cases h
  rfl

theorem deleteAll_nil (b : Bucket K V) : b.deleteAll [] = b :=
  ext_entries (by simp [deleteAll])

theorem deleteAll_cons (b : Bucket K V) (key : K) (dead : List K) :
    (b.deleteAll [key]).deleteAll dead = b.deleteAll (key :: dead) := by
  refine ext_entries ?_
  simp only [deleteAll, List.filter_filter]
  refine List.filter_congr fun entry _ ↦ ?_
  by_cases hkey : entry.1 = key
  · simp [hkey]
  · simp [hkey]

theorem keys_deleteAll (b : Bucket K V) (dead : List K) :
    (b.deleteAll dead).keys = b.keys.filter fun key ↦ key ∉ dead := by
  simp only [keys, deleteAll, List.filter_map, Function.comp_def]

/-- A cursor between the keys it has passed and those before it moves on to the first of these. -/
theorem next_eq_head {b : Bucket K V} {key : K} {passed rest : List K}
    (hkeys : b.keys = passed ++ rest) (hpassed : ∀ other ∈ passed, other ≤ key)
    (hrest : ∀ other ∈ rest, key < other) : b.next key = rest.head? := by
  have hnone : passed.find? (fun other ↦ decide (key < other)) = none := by
    simpa using hpassed
  rw [next, hkeys, List.find?_append, hnone, Option.none_or]
  cases rest with
  | nil => rfl
  | cons first rest =>
    rw [List.find?_cons_of_pos (by simpa using hrest first List.mem_cons_self), List.head?_cons]

/-- Assumes: the cursor has passed some of the keys and stands on the first of the others. The
induction is on these; what was passed is never looked at again. -/
theorem sweepFrom_eq (visit : K → Except ε Verdict) {rest passed : List K} {fuel : ℕ}
    {b : Bucket K V} (hkeys : b.keys = passed ++ rest) (hfuel : rest.length ≤ fuel) :
    sweepFrom visit fuel rest.head? b = (condemned visit rest).map b.deleteAll := by
  induction rest generalizing passed fuel b with
  | nil => cases fuel <;> simp [sweepFrom, condemned, Except.map, deleteAll_nil]
  | cons key rest ih =>
    obtain ⟨fuel, rfl⟩ : ∃ n, fuel = n + 1 := ⟨fuel - 1, by simp at hfuel; omega⟩
    have hfuel' : rest.length ≤ fuel := by simpa using hfuel
    have hsorted : (passed ++ key :: rest).Pairwise (· < ·) := hkeys ▸ b.sorted
    obtain ⟨-, hlater, hcross⟩ := List.pairwise_append.mp hsorted
    have hpassed : ∀ other ∈ passed, other < key :=
      fun other hother ↦ hcross other hother key List.mem_cons_self
    have hrest : ∀ other ∈ rest, key < other := (List.pairwise_cons.mp hlater).1
    cases hvisit : visit key with
    | error e => simp [sweepFrom, condemned, hvisit, Except.map]
    | ok verdict =>
      cases verdict with
      | stop => simp [sweepFrom, condemned, hvisit, Except.map, deleteAll_nil]
      | keep =>
        have hkeys' : b.keys = (passed ++ [key]) ++ rest := by simp [hkeys]
        have hnext : b.next key = rest.head? := by
          refine next_eq_head hkeys' (fun other hother ↦ ?_) hrest
          rcases List.mem_append.mp hother with hother | hother
          · exact (hpassed other hother).le
          · exact (List.mem_singleton.mp hother).le
        simp only [List.head?_cons, sweepFrom, condemned, hvisit, hnext]
        exact ih hkeys' hfuel'
      | delete =>
        have hkeys' : (b.deleteAll [key]).keys = passed ++ rest := by
          rw [keys_deleteAll, hkeys, List.filter_append, List.filter_cons_of_neg (by simp)]
          congr 1
          · exact List.filter_eq_self.mpr fun other hother ↦ by
              simpa using (hpassed other hother).ne
          · exact List.filter_eq_self.mpr fun other hother ↦ by
              simpa using (hrest other hother).ne'
        have hnext := next_eq_head hkeys' (fun other hother ↦ (hpassed other hother).le) hrest
        simp only [List.head?_cons, sweepFrom, condemned, hvisit, hnext]
        rw [ih hkeys' hfuel']
        cases condemned visit rest with
        | error e => rfl
        | ok dead => exact congrArg Except.ok (deleteAll_cons b key dead)

theorem sweep_eq (visit : K → Except ε Verdict) (b : Bucket K V) :
    b.sweep visit = (condemned visit b.keys).map b.deleteAll :=
  sweepFrom_eq visit (List.nil_append _).symm (length_keys b).le

end Bucket

end Cursor

end QortalRelay.Foundation.Store
