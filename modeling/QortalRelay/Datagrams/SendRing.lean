import QortalRelay.Foundation.RingBuffer

/-!
# The ring of frames to send

`ringbuffer.RingBuffer`, a queue that doubles its storage when it is full. Its length is the length
of a slice whose capacity is the storage, so the two are the count and the slots of a ring; the
positions wrap by one subtraction. The operations fault where the source panics, and on a well
formed ring they act on its contents as those of a list (`pushBack_spec`, `popFront_spec`,
`peekFront_eq`).
-/

set_option autoImplicit false
set_option relaxedAutoImplicit false

namespace QortalRelay.Datagrams.SendRing

open Foundation

variable {α : Type} {ring : RingBuffer α}

/-! ### The operations -/

/-- The storage is doubled, and the entries are copied to its front: those from `headPos` on, and
then those before it. The slices are taken of the old slice, which ends with its length. -/
def grow (blank : α) (ring : RingBuffer α) : Option (RingBuffer α) :=
  let newSize := if ring.slots.length * 2 = 0 then 1 else ring.slots.length * 2
  if ring.head ≤ ring.count then
    some ⟨(ring.slots.take ring.count).drop ring.head ++ (ring.slots.take ring.head) ++
      List.replicate (newSize - ring.count) blank, 0, ring.count⟩
  else none

/-- The entry is stored behind the last one of a ring with room. -/
def place (ring : RingBuffer α) (x : α) : Option (RingBuffer α) := do
  let tailPos := ring.head + ring.count
  let tailPos := if tailPos ≥ ring.slots.length then tailPos - ring.slots.length else tailPos
  let slots ← store ring.slots tailPos x
  return ⟨slots, ring.head, ring.count + 1⟩

def pushBack (blank : α) (ring : RingBuffer α) (x : α) : Option (RingBuffer α) :=
  if ring.count = ring.slots.length then (grow blank ring).bind (place · x) else place ring x

/-- None for the panic of an empty queue. -/
def popFront (blank : α) (ring : RingBuffer α) : Option (α × RingBuffer α) :=
  if ring.count = 0 then none
  else do
    let x ← ring.slots[ring.head]?
    let slots ← store ring.slots ring.head blank
    let headPos := if ring.head + 1 = ring.slots.length then 0 else ring.head + 1
    return (x, ⟨slots, headPos, ring.count - 1⟩)

/-- None for the panic of an empty queue. -/
def peekFront (ring : RingBuffer α) : Option α :=
  if ring.count = 0 then none else ring.slots[ring.head]?

/-! ### What they do -/

/-- A ring without storage starts at zero. -/
structure Ok (ring : RingBuffer α) : Prop where
  wellFormed : ring.WellFormed
  head_le : ring.head ≤ ring.slots.length

theorem ok_empty : Ok (RingBuffer.empty : RingBuffer α) := ⟨RingBuffer.wellFormed_empty, le_rfl⟩

theorem ok_of_pos {ring : RingBuffer α} (h : ring.WellFormed) (hpos : 0 < ring.slots.length) :
    Ok ring :=
  ⟨h, (h.inside hpos).le⟩

/-- Assumes: a full ring. -/
theorem grow_spec (blank : α) (h : Ok ring) (hfull : ring.count = ring.slots.length) :
    ∃ ring', grow blank ring = some ring' ∧ ring'.contents = ring.contents ∧ ring'.WellFormed ∧
      ring'.count = ring.count ∧ ring'.count < ring'.slots.length := by
  have hhead := h.head_le
  have hentries : ring.contents = ring.slots.drop ring.head ++ ring.slots.take ring.head := by
    rw [RingBuffer.contents, List.rotate_eq_drop_append_take hhead, hfull]
    exact List.take_of_length_le (by simp; omega)
  have hlength : (ring.slots.drop ring.head ++ ring.slots.take ring.head).length = ring.count := by
    rw [← hentries, RingBuffer.length_contents h.wellFormed]
  have hsize : ring.count <
      (if ring.slots.length * 2 = 0 then 1 else ring.slots.length * 2) := by
    split_ifs <;> omega
  rw [grow, if_pos (by omega), List.take_of_length_le hfull.ge]
  set newSize := if ring.slots.length * 2 = 0 then 1 else ring.slots.length * 2
  have hslots : (ring.slots.drop ring.head ++ ring.slots.take ring.head ++
      List.replicate (newSize - ring.count) blank).length = newSize := by
    rw [List.length_append, hlength, List.length_replicate]
    omega
  refine ⟨_, rfl, ?_, ⟨by simp only [hslots]; omega, fun _ ↦ by simp only [hslots]; omega⟩, rfl,
    by simpa only [hslots] using hsize⟩
  rw [RingBuffer.contents, List.rotate_zero, List.take_left' hlength, hentries]

/-- Assumes: a ring with room. -/
theorem place_eq_append (h : ring.WellFormed) (hroom : ring.count < ring.slots.length) (x : α) :
    place ring x = ring.append x := by
  have hwrap := RingBuffer.wrap_eq (h.inside (by omega)) h.fits
  rw [place, RingBuffer.append, RingBuffer.slot_eq (by omega), hwrap]
  simp only [Option.bind_eq_bind, Option.bind_some]
  split_ifs <;> first | rfl | omega

theorem pushBack_spec (blank : α) (h : Ok ring) (x : α) :
    ∃ ring', pushBack blank ring x = some ring' ∧ ring'.contents = ring.contents ++ [x] ∧
      Ok ring' ∧ ring'.count = ring.count + 1 := by
  unfold pushBack
  split_ifs with hfull
  · obtain ⟨roomy, hgrow, hcontents, hwf, hcount, hroom⟩ := grow_spec blank h hfull
    obtain ⟨ring', happend, hcontents', hwf', hcount', hslots⟩ :=
      RingBuffer.append_spec hwf hroom x
    refine ⟨ring', ?_, by rw [hcontents', hcontents], ok_of_pos hwf' (by omega),
      by rw [hcount', hcount]⟩
    rw [hgrow, Option.bind_some, place_eq_append hwf hroom, happend]
  · have hroom : ring.count < ring.slots.length := lt_of_le_of_ne h.wellFormed.fits hfull
    obtain ⟨ring', happend, hcontents, hwf, hcount, hslots⟩ :=
      RingBuffer.append_spec h.wellFormed hroom x
    exact ⟨ring', by rw [place_eq_append h.wellFormed hroom, happend], hcontents,
      ok_of_pos hwf (by omega), hcount⟩

theorem popFront_spec (blank : α) (h : Ok ring) (hcount : 0 < ring.count) :
    ∃ x ring', popFront blank ring = some (x, ring') ∧ ring.contents = x :: ring'.contents ∧
      Ok ring' ∧ ring'.count + 1 = ring.count := by
  have hfits := h.wellFormed.fits
  obtain ⟨x, ring', hremove, hcontents, hwf, hless, hslots⟩ :=
    RingBuffer.removeFirst_spec blank h.wellFormed hcount
  have hinside := h.wellFormed.inside (by omega)
  have hnext : (if ring.head + 1 = ring.slots.length then 0 else ring.head + 1) =
      (ring.head + 1) % ring.slots.length := by
    rw [RingBuffer.wrap_eq hinside (by omega)]
    split_ifs <;> omega
  refine ⟨x, ring', ?_, hcontents, ok_of_pos hwf (by omega), hless⟩
  rw [← hremove, popFront, if_neg (by omega), RingBuffer.removeFirst, RingBuffer.first,
    RingBuffer.slot_eq (by omega), hnext]
  rfl

theorem peekFront_eq (h : Ok ring) : peekFront ring = ring.contents.head? := by
  unfold peekFront
  split_ifs with hzero
  · have hlength := RingBuffer.length_contents h.wellFormed
    rw [hzero, List.length_eq_zero_iff] at hlength
    rw [hlength]
    rfl
  · exact RingBuffer.first_eq_head? h.wellFormed (Nat.pos_of_ne_zero hzero)

end QortalRelay.Datagrams.SendRing
