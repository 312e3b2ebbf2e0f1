import Mathlib.Data.List.Rotate
import Mathlib.Tactic

/-!
# Ring buffers

A ring is a list of slots, the slot of its first entry and the number of its entries; entries wrap
around the end of the slots. Its operations are those of a program on an array: every index is
checked against the length and every remainder against a divisor of zero, and an operation that
breaks one of these has no value. Read in order, a ring is a list (`RingBuffer.contents`). On a well
formed ring each operation has a value and acts on that list as its name says
(`RingBuffer.removeFirst_spec`, `RingBuffer.append_spec`, `RingBuffer.resize_spec`).
-/

set_option autoImplicit false
set_option relaxedAutoImplicit false

namespace QortalRelay.Foundation

/-! ### Operations -/

/-- The first entry stands at `head`, the others in the slots after it, `count` in all. -/
structure RingBuffer (α : Type) where
  slots : List α
  head : ℕ
  count : ℕ

variable {α : Type}

/-- A store to an index of an array. -/
def store (slots : List α) (i : ℕ) (x : α) : Option (List α) :=
  if i < slots.length then some (slots.set i x) else none

namespace RingBuffer

def empty : RingBuffer α := ⟨[], 0, 0⟩

/-- The slot of the entry with number `i`: a remainder, with no value when there are no slots. -/
def slot (ring : RingBuffer α) (i : ℕ) : Option ℕ :=
  if ring.slots.length = 0 then none else some ((ring.head + i) % ring.slots.length)

def first (ring : RingBuffer α) : Option α := ring.slots[ring.head]?

/-- The first entry is taken out and its slot made blank. -/
def removeFirst (blank : α) (ring : RingBuffer α) : Option (α × RingBuffer α) := do
  let x ← ring.first
  let slots ← store ring.slots ring.head blank
  let head ← ring.slot 1
  return (x, ⟨slots, head, ring.count - 1⟩)

/-- Stores an element behind the others; fails when the index is out of range. -/
def append (ring : RingBuffer α) (x : α) : Option (RingBuffer α) := do
  let i ← ring.slot ring.count
  let slots ← store ring.slots i x
  return ⟨slots, ring.head, ring.count + 1⟩

/-- The first `k` entries copied, one after the other, to the front of other slots. -/
def copy (ring : RingBuffer α) : ℕ → List α → Option (List α)
  | 0, slots => some slots
  | k + 1, slots => do
    let slots ← ring.copy k slots
    let i ← ring.slot k
    let x ← ring.slots[i]?
    store slots k x

/-- The entries moved to the front of `n` new slots. -/
def resize (blank : α) (n : ℕ) (ring : RingBuffer α) : Option (RingBuffer α) := do
  let slots ← ring.copy ring.count (List.replicate n blank)
  return ⟨slots, 0, ring.count⟩

/-! ### The entries as a list -/

/-- The elements in the order in which they were stored. -/
def contents (ring : RingBuffer α) : List α := (ring.slots.rotate ring.head).take ring.count

/-- The head lies in the storage, and not more is stored than fits. -/
structure WellFormed (ring : RingBuffer α) : Prop where
  fits : ring.count ≤ ring.slots.length
  inside : 0 < ring.slots.length → ring.head < ring.slots.length

theorem wellFormed_empty : (empty : RingBuffer α).WellFormed := ⟨le_rfl, fun h ↦ h⟩

@[simp] theorem contents_empty : (empty : RingBuffer α).contents = [] := rfl

theorem length_contents {ring : RingBuffer α} (h : ring.WellFormed) :
    ring.contents.length = ring.count := by
  have hfits := h.fits
  simp [contents]
  omega

theorem contents_getElem? {ring : RingBuffer α} (h : ring.WellFormed) {i : ℕ}
    (hi : i < ring.count) :
    ring.contents[i]? = ring.slots[(ring.head + i) % ring.slots.length]? := by
  have hfits := h.fits
  rw [contents, List.getElem?_take_of_lt hi, List.getElem?_rotate (by omega), add_comm]

/-- An index that wraps around at most once. -/
theorem wrap_eq {n a b : ℕ} (ha : a < n) (hb : b ≤ n) :
    (a + b) % n = if a + b < n then a + b else a + b - n := by
  split_ifs with hlt
  · exact Nat.mod_eq_of_lt hlt
  · rw [Nat.mod_eq_sub_mod (by omega), Nat.mod_eq_of_lt (by omega)]

theorem slot_eq {ring : RingBuffer α} (hslots : 0 < ring.slots.length) (i : ℕ) :
    ring.slot i = some ((ring.head + i) % ring.slots.length) :=
  if_neg (by omega)

theorem store_eq {slots : List α} {i : ℕ} (h : i < slots.length) (x : α) :
    store slots i x = some (slots.set i x) :=
  if_pos h

/-- The contents are known from the entry at every place. -/
theorem contents_ext {ring : RingBuffer α} {entries : List α} (h : ring.WellFormed)
    (hlength : entries.length = ring.count)
    (hentries : ∀ i < ring.count,
      ring.slots[(ring.head + i) % ring.slots.length]? = entries[i]?) :
    ring.contents = entries := by
  refine List.ext_getElem? fun i ↦ ?_
  by_cases hi : i < ring.count
  · rw [contents_getElem? h hi, hentries i hi]
  · rw [List.getElem?_eq_none (by rw [length_contents h]; omega),
      List.getElem?_eq_none (by omega)]

/-! ### What the operations do -/

theorem first_eq_head? {ring : RingBuffer α} (h : ring.WellFormed) (hcount : 0 < ring.count) :
    ring.first = ring.contents.head? := by
  have hinside := h.inside (hcount.trans_le h.fits)
  rw [List.head?_eq_getElem?, contents_getElem? h hcount, Nat.add_zero,
    Nat.mod_eq_of_lt hinside, first]

/-- Assumes: a well formed ring that is not empty. -/
theorem removeFirst_spec (blank : α) {ring : RingBuffer α} (h : ring.WellFormed)
    (hcount : 0 < ring.count) : ∃ x ring', ring.removeFirst blank = some (x, ring') ∧
      ring.contents = x :: ring'.contents ∧ ring'.WellFormed ∧ ring'.count + 1 = ring.count ∧
      ring'.slots.length = ring.slots.length := by
  have hfits := h.fits
  have hslots : 0 < ring.slots.length := by omega
  have hinside := h.inside hslots
  have hnext : (ring.head + 1) % ring.slots.length < ring.slots.length := Nat.mod_lt _ hslots
  let ring' : RingBuffer α := ⟨ring.slots.set ring.head blank, (ring.head + 1) % ring.slots.length,
    ring.count - 1⟩
  have hwf : ring'.WellFormed :=
    ⟨by simp only [ring', List.length_set]; omega, fun _ ↦ by simpa [ring'] using hnext⟩
  refine ⟨ring.slots[ring.head], ring', ?_, ?_, hwf, by simp only [ring']; omega, by simp [ring']⟩
  · simp [removeFirst, first, List.getElem?_eq_getElem hinside, store_eq hinside, slot_eq hslots,
      ring']
  -- Entry `i + 1` of the old ring is entry `i` of the new one, away from the blank slot.
  · refine contents_ext h (by simp [length_contents hwf, ring']; omega) fun i hi ↦ ?_
    cases i with
    | zero => simp [Nat.mod_eq_of_lt hinside, List.getElem?_eq_getElem hinside]
    | succ i =>
      have hi' : i < ring'.count := by simp only [ring']; omega
      have hwrap := wrap_eq hinside (show i + 1 ≤ ring.slots.length by omega)
      have hshift : (ring'.head + i) % ring'.slots.length =
          (ring.head + (i + 1)) % ring.slots.length := by
        simp only [ring', List.length_set, Nat.mod_add_mod]
        congr 1
        omega
      have hother : ring.head ≠ (ring.head + (i + 1)) % ring.slots.length := by
        rw [hwrap]
        split_ifs <;> omega
      rw [List.getElem?_cons_succ, contents_getElem? hwf hi', hshift, List.getElem?_set_ne hother]

/-- Assumes: a well formed ring with a free slot. -/
theorem append_spec {ring : RingBuffer α} (h : ring.WellFormed)
    (hroom : ring.count < ring.slots.length) (x : α) : ∃ ring', ring.append x = some ring' ∧
      ring'.contents = ring.contents ++ [x] ∧ ring'.WellFormed ∧ ring'.count = ring.count + 1 ∧
      ring'.slots.length = ring.slots.length := by
  have hslots : 0 < ring.slots.length := by omega
  have hinside := h.inside hslots
  have hlast : (ring.head + ring.count) % ring.slots.length < ring.slots.length :=
    Nat.mod_lt _ hslots
  let ring' : RingBuffer α := ⟨ring.slots.set ((ring.head + ring.count) % ring.slots.length) x,
    ring.head, ring.count + 1⟩
  have hwf : ring'.WellFormed :=
    ⟨by simp only [ring', List.length_set]; omega, fun _ ↦ by simpa [ring'] using hinside⟩
  refine ⟨ring', ?_, ?_, hwf, rfl, by simp [ring']⟩
  · simp [append, slot_eq hslots, store_eq hlast, ring']
  · refine contents_ext hwf (by simp [length_contents h, ring']) fun i hi ↦ ?_
    simp only [ring', List.length_set] at hi ⊢
    rcases Nat.lt_succ_iff_lt_or_eq.mp hi with hlt | rfl
    · have hother : (ring.head + ring.count) % ring.slots.length ≠
          (ring.head + i) % ring.slots.length := by
        rw [wrap_eq hinside h.fits, wrap_eq hinside (show i ≤ ring.slots.length by omega)]
        split_ifs <;> omega
      rw [List.getElem?_set_ne hother, List.getElem?_append_left (by rw [length_contents h]; omega),
        contents_getElem? h hlt]
    · rw [List.getElem?_set_self hlast, List.getElem?_append_right (by rw [length_contents h]),
        length_contents h, Nat.sub_self]
      rfl

/-- Assumes: a well formed ring and enough slots. The first `k` entries are copied. -/
theorem copy_spec {ring : RingBuffer α} (h : ring.WellFormed) (slots : List α)
    (hroom : ring.count ≤ slots.length) {k : ℕ} (hk : k ≤ ring.count) :
    ∃ slots', ring.copy k slots = some slots' ∧ slots'.length = slots.length ∧
      ∀ i < k, slots'[i]? = ring.contents[i]? := by
  have hfits := h.fits
  induction k with
  | zero => exact ⟨slots, rfl, rfl, fun i hi ↦ absurd hi (Nat.not_lt_zero i)⟩
  | succ k ih =>
    obtain ⟨copied, hcopied, hlength, hentries⟩ := ih (by omega)
    have hslots : 0 < ring.slots.length := by omega
    have hindex : (ring.head + k) % ring.slots.length < ring.slots.length := Nat.mod_lt _ hslots
    have hstore : k < copied.length := by omega
    refine ⟨copied.set k ring.slots[(ring.head + k) % ring.slots.length], ?_,
      by simpa using hlength,
      fun i hi ↦ ?_⟩
    · simp [copy, hcopied, slot_eq hslots, List.getElem?_eq_getElem hindex, store_eq hstore]
    · rcases Nat.lt_succ_iff_lt_or_eq.mp hi with hlt | rfl
      · rw [List.getElem?_set_ne (by omega), hentries i hlt]
      · rw [List.getElem?_set_self hstore, contents_getElem? h (by omega),
          List.getElem?_eq_getElem hindex]

/-- Assumes: a well formed ring whose entries fit the new slots. -/
theorem resize_spec (blank : α) {ring : RingBuffer α} (h : ring.WellFormed) {n : ℕ}
    (hroom : ring.count ≤ n) : ∃ ring', ring.resize blank n = some ring' ∧
      ring'.contents = ring.contents ∧ ring'.WellFormed ∧ ring'.count = ring.count ∧
      ring'.slots.length = n := by
  obtain ⟨slots, hcopy, hlength, hentries⟩ :=
    copy_spec h (List.replicate n blank) (by simpa using hroom) le_rfl
  rw [List.length_replicate] at hlength
  have hwf : (⟨slots, 0, ring.count⟩ : RingBuffer α).WellFormed :=
    ⟨hroom.trans hlength.ge, fun h ↦ h⟩
  refine ⟨⟨slots, 0, ring.count⟩, by simp [resize, hcopy], ?_, hwf, rfl, hlength⟩
  refine contents_ext hwf (length_contents h) fun i hi ↦ ?_
  change i < ring.count at hi
  rw [← hentries i hi, Nat.zero_add, Nat.mod_eq_of_lt (show i < slots.length by omega)]

end RingBuffer

end QortalRelay.Foundation
