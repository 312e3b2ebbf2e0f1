import QortalRelay.Datagrams.Queue

/-!
# A receive queue is a FIFO with expiry

`Fifo` is what a receive queue is for: a list of entries that leaves at the head, by a pop or
because an entry has grown too old, and takes new entries at its end while there is room and budget.
The code of every operation, run on a sound queue with whatever answers the shared counters give,
returns, ends in a sound queue and acts on the entries as the operation of the list does
(`wp_operation`). The precondition also carries the books: at every call the queue and its
reservations are charged with exactly what the operation has taken from the shared counter.
-/

set_option autoImplicit false
set_option relaxedAutoImplicit false

namespace QortalRelay.Datagrams

open Foundation QueueCode

/-! ### The list queue -/

/-- A queue as a list of entries. -/
structure Fifo where
  entries : List Entry
  limit : ℤ
  maxAge : ℤ
  closed : Bool
  droppedFull : ℕ
  droppedBudget : ℕ
  droppedExpired : ℕ

def totalCharge (entries : List Entry) : ℤ := (entries.map Entry.charge).sum

namespace Fifo

def new (limit : ℤ) : Fifo := ⟨[], limit, 0, false, 0, 0, 0⟩

/-- Ages count only once there is a largest one. -/
def stale (fifo : Fifo) (now : Time) (entry : Entry) : Bool :=
  fifo.maxAge > 0 ∧ now.sub entry.arrived > fifo.maxAge

def expire (fifo : Fifo) (now : Time) : Fifo :=
  { fifo with
    entries := fifo.entries.dropWhile (fifo.stale now)
    droppedExpired := fifo.droppedExpired + (fifo.entries.takeWhile (fifo.stale now)).length }

/-- Room for a datagram: in number and in bytes. -/
def fits (fifo : Fifo) (data : List UInt8) : Bool :=
  (fifo.entries.length : ℤ) < fifo.limit ∧
    totalCharge fifo.entries + (data.length + packetOverhead) ≤ burstBytes

/-- Whether the reservations succeed is for the surroundings to say. -/
def push (fifo : Fifo) (data : List UInt8) (now : Time) (granted : Bool) : Fifo × Bool :=
  if fifo.closed then (fifo, false)
  else
    let fifo := fifo.expire now
    if fifo.fits data then
      if granted then ({ fifo with entries := fifo.entries ++ [⟨data, now⟩] }, true)
      else ({ fifo with droppedBudget := fifo.droppedBudget + 1 }, false)
    else ({ fifo with droppedFull := fifo.droppedFull + 1 }, false)

/-- The old packets at the front go, and the first of the others is returned. -/
def pop (fifo : Fifo) (now : Time) : Fifo × Option (List UInt8) :=
  let fifo := fifo.expire now
  match fifo.entries with
  | [] => (fifo, none)
  | entry :: rest => ({ fifo with entries := rest }, some entry.data)

def enableBurst (fifo : Fifo) : Fifo := { fifo with limit := burstPackets, maxAge := burstAge }

def close (fifo : Fifo) : Fifo := { fifo with closed := true, entries := [] }

/-- One operation; `granted` when the budget had room for all that it asked for. -/
def apply (fifo : Fifo) (operation : Operation) (granted : Bool) : Fifo × Result :=
  match operation with
  | .push data now => ((fifo.push data now granted).1, .pushed (fifo.push data now granted).2)
  | .pop now => ((fifo.pop now).1, .popped (fifo.pop now).2)
  | .enableBurst => (fifo.enableBurst, .done)
  | .close => (fifo.close, .done)

end Fifo

/-! ### Sound queues -/

/-- What a queue is to its users. -/
def Queue.view (queue : Queue) : Fifo where
  entries := queue.ring.contents
  limit := queue.limit
  maxAge := queue.maxAge
  closed := queue.closed
  droppedFull := queue.stats.droppedFull
  droppedBudget := queue.stats.droppedBudget
  droppedExpired := queue.stats.droppedExpired

/-- What holds of a queue between operations and at every call inside one. Queues that were made
with a small limit also stay within it. -/
structure Queue.Sound (small : Prop) (queue : Queue) : Prop where
  ring : queue.ring.WellFormed
  bytes : queue.bytes = totalCharge queue.ring.contents
  bytes_le : queue.bytes ≤ burstBytes
  ringCharge : queue.ringCharge = queue.ring.slots.length * slotCharge
  drained : queue.closed = true → queue.ring.slots = []
  limit_le : small → queue.limit ≤ burstPackets
  count_le : small → (queue.ring.count : ℤ) ≤ max 0 queue.limit
  slots_le : small → (queue.ring.slots.length : ℤ) ≤ burstPackets

theorem Queue.sound_new {small : Prop} (limit : ℤ) (hlimit : small → limit ≤ burstPackets) :
    (Queue.new limit).Sound small :=
  ⟨RingBuffer.wellFormed_empty, rfl, by simp [new, burstBytes], by simp [new, RingBuffer.empty],
    fun _ ↦ rfl, hlimit, fun _ ↦ by simp [new, RingBuffer.empty],
    fun _ ↦ by simp [new, RingBuffer.empty, burstPackets]⟩

def Frame.charge (frame : Frame) : ℤ :=
  frame.queue.bytes + frame.queue.ringCharge + frame.reserved

/-! ### The books -/

namespace Request

/-- The additions only give back. -/
def Lawful : Request → Prop
  | reserve charge => 0 ≤ charge
  | add delta => delta ≤ 0
  | count _ => True

/-- What a request has added to `used` when it is answered. -/
def effect : Request → Bool → ℤ
  | reserve charge, granted => if granted then charge else 0
  | add delta, _ => delta
  | count _, _ => 0

/-- A reservation that is refused. -/
def refuses : Request → Bool → Bool
  | reserve _, granted => !granted
  | _, _ => false

end Request

/-- What an operation has taken from `used` and not given back, with what its queue held when it
began, and whether all its reservations were granted. -/
structure Ledger where
  owed : ℤ
  granted : Bool

/-- The contract of a queue with the counters: at each request it is sound, and what it holds and
has reserved is what it owes. -/
def books (small : Prop) : Contract Frame Request Bool Ledger where
  visible ledger frame request :=
    frame.queue.Sound small ∧ 0 ≤ frame.reserved ∧ frame.charge = ledger.owed ∧ request.Lawful
  note ledger request answer :=
    ⟨ledger.owed + request.effect answer, ledger.granted && !request.refuses answer⟩

/-! ### Rules for the code of a queue -/

section Rules

variable {small : Prop} {α : Type} {queue : Queue} {reserved owed : ℤ} {granted : Bool}

theorem wp_queue {post : Ledger → Frame → Queue → Prop} {ledger : Ledger} {frame : Frame}
    (h : post ledger frame frame.queue) :
    Code.wp (books small) post QueueCode.queue ledger frame := h

theorem wp_put {post : Ledger → Frame → Unit → Prop} {ledger : Ledger} {frame : Frame}
    {queue' : Queue} {delta reserved' : ℤ} (hreserved : frame.reserved + delta = reserved')
    (h : post ledger ⟨queue', reserved'⟩ ()) :
    Code.wp (books small) post (put queue' delta) ledger frame := by
  subst hreserved
  exact h

/-- Assumes: a sound queue with balanced books. -/
theorem wp_reserve {post : Ledger → Frame → Bool → Prop} {charge : ℤ}
    (hsound : queue.Sound small) (hreserved : 0 ≤ reserved)
    (howed : Frame.charge ⟨queue, reserved⟩ = owed) (hcharge : 0 ≤ charge)
    (hgranted : post ⟨owed + charge, granted⟩ ⟨queue, reserved + charge⟩ true)
    (hrefused : post ⟨owed, false⟩ ⟨queue, reserved⟩ false) :
    Code.wp (books small) post (reserve charge) ⟨owed, granted⟩ ⟨queue, reserved⟩ := by
  refine Code.wp_bind (Code.wp_call ⟨hsound, hreserved, howed, hcharge⟩ fun answer ↦ ?_)
  cases answer
  · exact show post ⟨owed + 0, granted && false⟩ ⟨queue, reserved + 0⟩ false by
      simpa using hrefused
  · exact show post ⟨owed + charge, granted && true⟩ ⟨queue, reserved + charge⟩ true by
      simpa using hgranted

/-- Assumes: a sound queue with balanced books. -/
theorem wp_release {post : Ledger → Frame → Unit → Prop} {charge : ℤ}
    (hsound : queue.Sound small) (hreserved : 0 ≤ reserved)
    (howed : Frame.charge ⟨queue, reserved⟩ = owed) (hcharge : 0 ≤ charge)
    (h : post ⟨owed - charge, granted⟩ ⟨queue, reserved⟩ ()) :
    Code.wp (books small) post (release charge) ⟨owed, granted⟩ ⟨queue, reserved⟩ := by
  refine Code.wp_bind (Code.wp_call ⟨hsound, hreserved, howed, ?_⟩ fun answer ↦ ?_)
  · simpa [Request.Lawful] using hcharge
  · exact show post ⟨owed - charge, granted && true⟩ ⟨queue, reserved⟩ () by simpa using h

/-- Assumes: a sound queue with balanced books. -/
theorem wp_countOne {post : Ledger → Frame → Unit → Prop} {counter : Counter}
    (hsound : queue.Sound small) (hreserved : 0 ≤ reserved)
    (howed : Frame.charge ⟨queue, reserved⟩ = owed)
    (h : post ⟨owed, granted⟩ ⟨queue, reserved⟩ ()) :
    Code.wp (books small) post (countOne counter) ⟨owed, granted⟩ ⟨queue, reserved⟩ := by
  refine Code.wp_bind (Code.wp_call ⟨hsound, hreserved, howed, trivial⟩ fun answer ↦ ?_)
  exact show post ⟨owed + 0, granted && true⟩ ⟨queue, reserved⟩ () by simpa using h

end Rules

/-! ### The functions of a queue -/

section Functions

variable {small : Prop} {α : Type} {queue : Queue} {reserved owed : ℤ} {granted : Bool}

/-- The statistics do not matter. -/
theorem Queue.Sound.withStats (h : queue.Sound small) (stats : Stats) :
    Queue.Sound small { queue with stats := stats } :=
  ⟨h.ring, h.bytes, h.bytes_le, h.ringCharge, h.drained, h.limit_le, h.count_le, h.slots_le⟩

theorem Queue.Sound.length_entries (h : queue.Sound small) :
    queue.view.entries.length = queue.ring.count := RingBuffer.length_contents h.ring

theorem Queue.Sound.ringCharge_nonneg (h : queue.Sound small) : 0 ≤ queue.ringCharge := by
  have := h.ringCharge
  simp only [slotCharge] at this
  omega

theorem Entry.charge_pos (entry : Entry) : 0 < entry.charge := by
  simp only [charge, packetOverhead]
  omega

theorem totalCharge_cons (entry : Entry) (entries : List Entry) :
    totalCharge (entry :: entries) = entry.charge + totalCharge entries := by
  simp [totalCharge]

theorem totalCharge_nonneg (entries : List Entry) : 0 ≤ totalCharge entries := by
  induction entries with
  | nil => exact le_rfl
  | cons entry entries ih =>
    have := entry.charge_pos
    rw [totalCharge_cons]
    omega

/-- Assumes: a sound queue with balanced books. -/
theorem wp_shrink {post : Ledger → Frame → Unit → Prop} (hsound : queue.Sound small)
    (hreserved : 0 ≤ reserved) (howed : Frame.charge ⟨queue, reserved⟩ = owed)
    (h : ∀ queue' owed', queue'.Sound small → Frame.charge ⟨queue', reserved⟩ = owed' →
      queue'.view = queue.view → post ⟨owed', granted⟩ ⟨queue', reserved⟩ ()) :
    Code.wp (books small) post Queue.shrink ⟨owed, granted⟩ ⟨queue, reserved⟩ := by
  refine Code.wp_bind (wp_queue ?_)
  split_ifs with hempty
  · have hcontents : queue.ring.contents = [] := by
      rw [← List.length_eq_zero_iff, RingBuffer.length_contents hsound.ring, hempty.1]
    refine Code.wp_bind (wp_release hsound hreserved howed hsound.ringCharge_nonneg ?_)
    refine wp_put (add_zero _) (h _ _ ?_ ?_ ?_)
    · exact ⟨RingBuffer.wellFormed_empty, by simpa [hcontents] using hsound.bytes, hsound.bytes_le,
        by simp [RingBuffer.empty], fun _ ↦ rfl, hsound.limit_le,
        fun _ ↦ by simp [RingBuffer.empty],
        fun _ ↦ by simp [RingBuffer.empty, burstPackets]⟩
    · simp only [Frame.charge] at howed ⊢
      omega
    · simp [Queue.view, hcontents]
  · exact Code.wp_pure (h queue owed hsound howed rfl)

/-- Assumes: a sound queue with balanced books that is not empty. -/
theorem wp_remove {post : Ledger → Frame → List UInt8 → Prop} {now : Time}
    (hsound : queue.Sound small) (hreserved : 0 ≤ reserved)
    (howed : Frame.charge ⟨queue, reserved⟩ = owed) (hcount : 0 < queue.ring.count)
    (h : ∀ queue' owed' entry rest, queue'.Sound small →
      Frame.charge ⟨queue', reserved⟩ = owed' → queue.view.entries = entry :: rest →
      queue'.view = { queue.view with entries := rest } →
      post ⟨owed', granted⟩ ⟨queue', reserved⟩ entry.data) :
    Code.wp (books small) post (Queue.remove now) ⟨owed, granted⟩ ⟨queue, reserved⟩ := by
  obtain ⟨entry, ring, hremove, hcontents, hring, hless, hslots⟩ :=
    RingBuffer.removeFirst_spec .blank hsound.ring hcount
  have hbytes := hsound.bytes
  rw [hcontents, totalCharge_cons] at hbytes
  have hentry := entry.charge_pos
  have hsound' : Queue.Sound small
      { queue with ring := ring, bytes := queue.bytes - entry.charge } := by
    refine ⟨hring, ?_, ?_, ?_, ?_, hsound.limit_le, ?_, ?_⟩
    · exact sub_eq_of_eq_add' hbytes
    · exact (sub_le_self _ hentry.le).trans hsound.bytes_le
    · simpa [hslots] using hsound.ringCharge
    · intro hclosed
      simpa [hsound.drained hclosed] using hslots
    · exact fun hs ↦ le_trans (by simp only; omega) (hsound.count_le hs)
    · exact fun hs ↦ by simpa [hslots] using hsound.slots_le hs
  refine Code.wp_bind (wp_queue (Code.wp_bind (Code.wp_checked hremove ?_)))
  refine Code.wp_bind (wp_release hsound hreserved howed hentry.le ?_)
  refine Code.wp_bind (wp_put (add_zero _) ?_)
  refine Code.wp_bind (wp_shrink hsound' hreserved ?_ fun shrunk owed' hshrunk howed' hview ↦ ?_)
  · simp only [Frame.charge] at howed ⊢
    omega
  · refine Code.wp_bind (wp_queue (Code.wp_bind (wp_put (add_zero _) (Code.wp_pure ?_))))
    exact h _ owed' entry ring.contents (hshrunk.withStats _) howed' hcontents hview

theorem Fifo.expire_of_not_stale {fifo : Fifo} {now : Time}
    (h : ∀ entry ∈ fifo.entries.head?, fifo.stale now entry = false) : fifo.expire now = fifo := by
  rcases fifo with ⟨_ | ⟨entry, rest⟩, limit, maxAge, closed, full, budget, expired⟩
  · rfl
  · have hentry := h entry rfl
    simp [expire, hentry]

theorem Fifo.expire_of_stale {fifo : Fifo} {now : Time} {entry : Entry} {rest : List Entry}
    (hentries : fifo.entries = entry :: rest) (h : fifo.stale now entry = true) :
    fifo.expire now = Fifo.expire
      { fifo with entries := rest, droppedExpired := fifo.droppedExpired + 1 } now := by
  have hstale : ∀ e, Fifo.stale
      { fifo with entries := rest, droppedExpired := fifo.droppedExpired + 1 } now e =
        fifo.stale now e := fun _ ↦ rfl
  simp only [expire, hentries, List.dropWhile_cons, List.takeWhile_cons, h, if_true, funext hstale,
    List.length_cons]
  congr 1
  omega

/-- Assumes: a sound queue with balanced books, and rounds for all its entries. -/
theorem wp_expireRounds {post : Ledger → Frame → Unit → Prop} {now : Time} {rounds : ℕ}
    (hsound : queue.Sound small) (hreserved : 0 ≤ reserved)
    (howed : Frame.charge ⟨queue, reserved⟩ = owed) (hrounds : queue.ring.count ≤ rounds)
    (h : ∀ queue' owed', queue'.Sound small → Frame.charge ⟨queue', reserved⟩ = owed' →
      queue'.view = queue.view.expire now → post ⟨owed', granted⟩ ⟨queue', reserved⟩ ()) :
    Code.wp (books small) post (Queue.expireRounds now rounds) ⟨owed, granted⟩
      ⟨queue, reserved⟩ := by
  have hlength := hsound.length_entries
  induction rounds generalizing queue owed with
  | zero =>
    refine Code.wp_pure (h queue owed hsound howed (Fifo.expire_of_not_stale ?_).symm)
    rw [List.length_eq_zero_iff.mp (show queue.view.entries.length = 0 by omega)]
    simp
  | succ rounds ih =>
    refine Code.wp_bind (wp_queue ?_)
    split_ifs with hguard
    · change queue.ring.count > 0 ∧ queue.maxAge > 0 at hguard
      have hfirst := RingBuffer.first_eq_head? hsound.ring hguard.1
      obtain ⟨entry, rest, hentries⟩ : ∃ entry rest, queue.view.entries = entry :: rest :=
        List.exists_cons_of_length_pos (by omega)
      refine Code.wp_bind (Code.wp_checked (hfirst.trans (congrArg List.head? hentries)) ?_)
      split_ifs with hold
      · have hstale : queue.view.stale now entry = true := decide_eq_true ⟨hguard.2, hold⟩
        refine Code.wp_bind (wp_remove hsound hreserved howed hguard.1 ?_)
        intro removed owed' entry' rest' hremoved howed' hentries' hview
        obtain ⟨rfl, rfl⟩ := List.cons.inj (hentries.symm.trans hentries')
        refine Code.wp_bind (wp_queue (Code.wp_bind (wp_put (add_zero _) ?_)))
        have hdropped : removed.droppedExpired.Sound small := hremoved.withStats _
        refine Code.wp_bind (wp_countOne hdropped hreserved howed' ?_)
        have hcount := hdropped.length_entries
        have hview' : removed.droppedExpired.view = { queue.view with
            entries := rest, droppedExpired := queue.view.droppedExpired + 1 } := by
          change { removed.view with droppedExpired := removed.view.droppedExpired + 1 } = _
          rw [hview]
        refine ih hdropped howed' ?_ ?_ hcount
        · rw [hview'] at hcount
          rw [hentries, List.length_cons] at hlength
          change rest.length = _ at hcount
          change removed.droppedExpired.ring.count ≤ rounds
          omega
        · intro queue' owed'' hqueue' howed'' hexpire
          refine h queue' owed'' hqueue' howed'' ?_
          rw [hexpire, hview', Fifo.expire_of_stale hentries hstale]
      · refine Code.wp_pure (h queue owed hsound howed (Fifo.expire_of_not_stale ?_).symm)
        intro first hmem
        rw [hentries, List.head?_cons, Option.mem_some_iff] at hmem
        exact decide_eq_false fun hstale ↦ hold (hmem ▸ hstale.2)
    · refine Code.wp_pure (h queue owed hsound howed (Fifo.expire_of_not_stale ?_).symm)
      intro first hmem
      have hcount : 0 < queue.ring.count := by
        rw [← hlength]
        exact List.length_pos_of_mem (List.mem_of_mem_head? hmem)
      exact decide_eq_false fun hstale ↦ hguard ⟨hcount, hstale.1⟩

/-- Assumes: a sound queue with balanced books. -/
theorem wp_expire {post : Ledger → Frame → Unit → Prop} {now : Time}
    (hsound : queue.Sound small) (hreserved : 0 ≤ reserved)
    (howed : Frame.charge ⟨queue, reserved⟩ = owed)
    (h : ∀ queue' owed', queue'.Sound small → Frame.charge ⟨queue', reserved⟩ = owed' →
      queue'.view = queue.view.expire now → post ⟨owed', granted⟩ ⟨queue', reserved⟩ ()) :
    Code.wp (books small) post (Queue.expire now) ⟨owed, granted⟩ ⟨queue, reserved⟩ :=
  Code.wp_bind (wp_queue (wp_expireRounds hsound hreserved howed le_rfl h))

/-- Assumes: a full ring under its limit, with its replacement reserved. -/
theorem wp_grow {post : Ledger → Frame → Unit → Prop} {slots : ℕ}
    (hsound : queue.Sound small) (hopen : queue.closed = false)
    (hreserved : slots * slotCharge ≤ reserved)
    (howed : Frame.charge ⟨queue, reserved⟩ = owed) (hroom : queue.ring.count ≤ slots)
    (hslots : small → (slots : ℤ) ≤ burstPackets)
    (h : ∀ queue' owed', queue'.Sound small →
      Frame.charge ⟨queue', reserved - slots * slotCharge⟩ = owed' → queue'.view = queue.view →
      queue'.ring.slots.length = slots → queue'.bytes = queue.bytes →
      post ⟨owed', granted⟩ ⟨queue', reserved - slots * slotCharge⟩ ()) :
    Code.wp (books small) post (queue.grow slots) ⟨owed, granted⟩ ⟨queue, reserved⟩ := by
  obtain ⟨ring, hresize, hcontents, hring, hcount, hlength⟩ :=
    RingBuffer.resize_spec .blank hsound.ring hroom
  have hnonneg : 0 ≤ reserved := le_trans (by simp [slotCharge]) hreserved
  refine Code.wp_bind (Code.wp_checked hresize ?_)
  refine Code.wp_bind (wp_release hsound hnonneg howed hsound.ringCharge_nonneg ?_)
  refine wp_put rfl (h _ _ ?_ ?_ ?_ hlength rfl)
  · refine ⟨hring, ?_, hsound.bytes_le, ?_, ?_, hsound.limit_le, ?_, ?_⟩
    · simpa [hcontents] using hsound.bytes
    · simp [hlength]
    · simp [hopen]
    · simpa [hcount] using hsound.count_le
    · simpa [hlength] using hslots
  · simp only [Frame.charge] at howed ⊢
    omega
  · simp [Queue.view, hcontents]

theorem totalCharge_append (entries : List Entry) (entry : Entry) :
    totalCharge (entries ++ [entry]) = totalCharge entries + entry.charge := by
  simp [totalCharge]

/-- Assumes: a free slot and room for the datagram, whose charge is reserved. -/
theorem wp_append {post : Ledger → Frame → Unit → Prop} {data : List UInt8} {now : Time}
    (hsound : queue.Sound small) (hopen : queue.closed = false)
    (howed : Frame.charge ⟨queue, data.length + packetOverhead⟩ = owed)
    (hslot : queue.ring.count < queue.ring.slots.length)
    (hlimit : (queue.ring.count : ℤ) < queue.limit)
    (hbytes : queue.bytes + (data.length + packetOverhead) ≤ burstBytes)
    (h : ∀ queue' owed', queue'.Sound small → Frame.charge ⟨queue', 0⟩ = owed' →
      queue'.view = { queue.view with entries := queue.view.entries ++ [⟨data, now⟩] } →
      post ⟨owed', granted⟩ ⟨queue', 0⟩ ()) :
    Code.wp (books small) post (Queue.append data now) ⟨owed, granted⟩
      ⟨queue, data.length + packetOverhead⟩ := by
  obtain ⟨ring, happend, hcontents, hring, hcount, hlength⟩ :=
    RingBuffer.append_spec hsound.ring hslot ⟨data, now⟩
  refine Code.wp_bind (wp_queue (Code.wp_bind (Code.wp_checked happend ?_)))
  refine wp_put (add_neg_cancel _) (h _ _ ?_ ?_ ?_)
  · refine ⟨hring, ?_, hbytes, ?_, ?_, hsound.limit_le, ?_, ?_⟩
    · rw [hcontents, totalCharge_append, ← hsound.bytes]
      rfl
    · simpa [hlength] using hsound.ringCharge
    · simp [hopen]
    · intro hs
      rw [hcount]
      simp only [Nat.cast_add, Nat.cast_one]
      omega
    · simpa [hlength] using hsound.slots_le
  · simp only [Frame.charge] at howed ⊢
    omega
  · simp [Queue.view, hcontents]

theorem Queue.Sound.fits_iff (h : queue.Sound small) (data : List UInt8) :
    queue.view.fits data = true ↔ (queue.ring.count : ℤ) < queue.limit ∧
      queue.bytes + (data.length + packetOverhead) ≤ burstBytes := by
  rw [Fifo.fits, decide_eq_true_iff, h.length_entries, h.bytes]
  rfl

/-- Assumes: a sound queue with balanced books. -/
theorem wp_push {post : Ledger → Frame → Bool → Prop} {data : List UInt8} {now : Time}
    (hsound : queue.Sound small) (howed : Frame.charge ⟨queue, 0⟩ = owed)
    (h : ∀ queue' owed' granted' accepted, queue'.Sound small →
      Frame.charge ⟨queue', 0⟩ = owed' →
      queue.view.push data now granted' = (queue'.view, accepted) →
      post ⟨owed', granted'⟩ ⟨queue', 0⟩ accepted) :
    Code.wp (books small) post (Queue.push data now) ⟨owed, true⟩ ⟨queue, 0⟩ := by
  have hcharge : 0 ≤ (data.length : ℤ) + packetOverhead := by simp only [packetOverhead]; omega
  refine Code.wp_bind (wp_queue (Code.wp_ite (fun hclosed ↦ ?_) fun hclosed ↦ ?_))
  · exact Code.wp_pure (h queue owed true false hsound howed (if_pos hclosed))
  have hopen : queue.closed = false := Bool.eq_false_iff.mpr hclosed
  refine Code.wp_bind (wp_expire hsound le_rfl howed fun q owed' hq howed' hview ↦ ?_)
  have hopen' : q.closed = false := (congrArg Fifo.closed hview).trans hopen
  have hpush : ∀ granted', queue.view.push data now granted' =
      if q.view.fits data then
        if granted' then ({ q.view with entries := q.view.entries ++ [⟨data, now⟩] }, true)
        else ({ q.view with droppedBudget := q.view.droppedBudget + 1 }, false)
      else ({ q.view with droppedFull := q.view.droppedFull + 1 }, false) := by
    intro granted'
    rw [hview]
    exact if_neg hclosed
  have hfits := hq.fits_iff data
  refine Code.wp_bind (wp_queue ?_)
  dsimp only
  refine Code.wp_ite (fun hfull ↦ ?_) fun hfull ↦ ?_
  -- There is no room.
  · refine Code.wp_bind (wp_put (add_zero _) ?_)
    refine Code.wp_bind (wp_countOne (hq.withStats _) le_rfl howed' (Code.wp_pure ?_))
    refine h _ _ _ _ (hq.withStats _) howed' ((hpush true).trans (if_neg ?_))
    rw [hfits]
    rintro ⟨hlimit, hbytes⟩
    exact hfull.elim hlimit.not_ge hbytes.not_gt
  obtain ⟨hlimit, hbytes⟩ := not_or.mp hfull
  have hroom : q.view.fits data = true := hfits.mpr ⟨not_le.mp hlimit, not_lt.mp hbytes⟩
  refine Code.wp_bind (wp_reserve hq le_rfl howed' hcharge ?_ ?_)
  swap
  -- The datagram is refused.
  · refine Code.wp_bind (wp_put (add_zero _) ?_)
    refine Code.wp_bind (wp_countOne (hq.withStats _) le_rfl howed' (Code.wp_pure ?_))
    exact h _ _ _ _ (hq.withStats _) howed' ((hpush false).trans (if_pos hroom))
  have haccepted := (hpush true).trans (if_pos hroom)
  have hreserved : Frame.charge ⟨q, data.length + packetOverhead⟩ =
      owed' + (data.length + packetOverhead) := by
    simp only [Frame.charge] at howed' ⊢
    omega
  rw [zero_add]
  refine Code.wp_ite (fun hfalse ↦ absurd hfalse (by simp)) fun _ ↦ ?_
  refine Code.wp_ite (fun hring ↦ ?_) fun hring ↦ ?_
  swap
  -- A slot is free.
  · refine Code.wp_bind (wp_append hq hopen' hreserved (lt_of_le_of_ne hq.ring.fits hring)
      (not_le.mp hlimit) (not_lt.mp hbytes) fun q' owed'' hq' howed'' hview' ↦ ?_)
    exact Code.wp_pure (h q' owed'' true true hq' howed'' (haccepted.trans (by rw [hview']; rfl)))
  -- The ring is full: it grows, or the datagram is refused after all.
  have hslots : (q.ring.count : ℤ) <
      ((min q.limit (max 8 (q.ring.slots.length * 2))).toNat : ℤ) := by omega
  refine Code.wp_bind (wp_reserve hq hcharge hreserved (by simp only [slotCharge]; omega) ?_ ?_)
  · refine Code.wp_ite (fun hfalse ↦ absurd hfalse (by simp)) fun _ ↦ ?_
    refine Code.wp_bind (wp_grow hq hopen' (le_add_of_nonneg_left hcharge) ?_ (by omega) ?_ ?_)
    · simp only [Frame.charge] at hreserved ⊢
      omega
    · intro hs
      have := hq.limit_le hs
      omega
    intro grown owed'' hgrown howed'' hview' hlength hkept
    rw [add_sub_cancel_right] at howed'' ⊢
    have hcount : grown.ring.count = q.ring.count := by
      rw [← hgrown.length_entries, ← hq.length_entries, hview']
    have hlimit' : grown.limit = q.limit := congrArg Fifo.limit hview'
    refine Code.wp_bind (wp_append hgrown ((congrArg Fifo.closed hview').trans hopen') howed''
      (by omega) (by omega) (by rw [hkept]; exact not_lt.mp hbytes)
      fun q' owed3 hq' howed3 hview3 ↦ Code.wp_pure ?_)
    exact h q' owed3 true true hq' howed3 (haccepted.trans (by rw [hview3, hview']; rfl))
  · refine Code.wp_ite (fun _ ↦ ?_) fun htrue ↦ absurd htrue (by simp)
    refine Code.wp_bind (wp_release hq hcharge hreserved hcharge ?_)
    refine Code.wp_bind (wp_put (add_neg_cancel _) ?_)
    rw [add_sub_cancel_right]
    refine Code.wp_bind (wp_countOne (hq.withStats _) le_rfl howed' (Code.wp_pure ?_))
    exact h _ _ _ _ (hq.withStats _) howed' ((hpush false).trans (if_pos hroom))

/-- Assumes: a sound queue with balanced books. -/
theorem wp_pop {post : Ledger → Frame → Option (List UInt8) → Prop} {now : Time}
    (hsound : queue.Sound small) (howed : Frame.charge ⟨queue, 0⟩ = owed)
    (h : ∀ queue' owed' popped, queue'.Sound small → Frame.charge ⟨queue', 0⟩ = owed' →
      queue.view.pop now = (queue'.view, popped) → post ⟨owed', granted⟩ ⟨queue', 0⟩ popped) :
    Code.wp (books small) post (Queue.pop now) ⟨owed, granted⟩ ⟨queue, 0⟩ := by
  refine Code.wp_bind (wp_expire hsound le_rfl howed fun q owed' hq howed' hview ↦ ?_)
  have hlength := hq.length_entries
  refine Code.wp_bind (wp_queue ?_)
  dsimp only
  refine Code.wp_ite (fun hempty ↦ Code.wp_pure (h q owed' none hq howed' ?_)) fun hsome ↦ ?_
  · have hentries : q.view.entries = [] := List.length_eq_zero_iff.mp (hlength.trans hempty)
    rw [Fifo.pop, ← hview, hentries]
  · refine Code.wp_bind (wp_remove hq le_rfl howed' (Nat.pos_of_ne_zero hsome) ?_)
    intro q' owed'' entry rest hq' howed'' hentries hview'
    refine Code.wp_pure (h q' owed'' (some entry.data) hq' howed'' ?_)
    rw [Fifo.pop, ← hview, hentries, hview']

/-- Assumes: a sound queue with balanced books. -/
theorem wp_enableBurst {post : Ledger → Frame → Unit → Prop}
    (hsound : queue.Sound small) (howed : Frame.charge ⟨queue, 0⟩ = owed)
    (h : ∀ queue' owed', queue'.Sound small → Frame.charge ⟨queue', 0⟩ = owed' →
      queue.view.enableBurst = queue'.view → post ⟨owed', granted⟩ ⟨queue', 0⟩ ()) :
    Code.wp (books small) post Queue.enableBurst ⟨owed, granted⟩ ⟨queue, 0⟩ := by
  refine Code.wp_bind (wp_queue (wp_put (add_zero _) (h _ owed ?_ howed rfl)))
  refine ⟨hsound.ring, hsound.bytes, hsound.bytes_le, hsound.ringCharge, hsound.drained,
    fun _ ↦ le_rfl, fun hs ↦ ?_, hsound.slots_le⟩
  have hlimit := hsound.limit_le hs
  have hcount := hsound.count_le hs
  simp only [burstPackets] at hlimit ⊢
  omega

theorem Queue.Sound.contents_eq_nil (h : queue.Sound small) (hclosed : queue.closed = true) :
    queue.ring.contents = [] := by
  simp [RingBuffer.contents, h.drained hclosed]

/-- Assumes: a sound queue with balanced books. -/
theorem wp_close {post : Ledger → Frame → Unit → Prop}
    (hsound : queue.Sound small) (howed : Frame.charge ⟨queue, 0⟩ = owed)
    (h : ∀ queue' owed', queue'.Sound small → Frame.charge ⟨queue', 0⟩ = owed' →
      queue.view.close = queue'.view → post ⟨owed', granted⟩ ⟨queue', 0⟩ ()) :
    Code.wp (books small) post Queue.close ⟨owed, granted⟩ ⟨queue, 0⟩ := by
  refine Code.wp_bind (wp_queue (Code.wp_ite (fun hclosed ↦ ?_) fun hopen ↦ ?_))
  · refine Code.wp_pure (h queue owed hsound howed ?_)
    have hcontents := hsound.contents_eq_nil hclosed
    have hclosed' : queue.closed = true := hclosed
    simp [Fifo.close, Queue.view, hcontents, hclosed']
  · have hbytes : 0 ≤ queue.bytes := hsound.bytes ▸ totalCharge_nonneg _
    refine Code.wp_bind (wp_release hsound le_rfl howed
      (add_nonneg hbytes hsound.ringCharge_nonneg) (wp_put (add_zero _) (h _ _ ?_ ?_ rfl)))
    · exact ⟨RingBuffer.wellFormed_empty, rfl, by simp [burstBytes], by simp [RingBuffer.empty],
        fun _ ↦ rfl, hsound.limit_le, fun _ ↦ by simp [RingBuffer.empty],
        fun _ ↦ by simp [RingBuffer.empty, burstPackets]⟩
    · simp only [Frame.charge] at howed ⊢
      omega

/-- Assumes: a sound queue with balanced books. Every operation returns, keeps the books, and does
to the entries what the operation of the list queue does. -/
theorem wp_operation {post : Ledger → Frame → Result → Prop} (operation : Operation)
    (hsound : queue.Sound small) (howed : Frame.charge ⟨queue, 0⟩ = owed)
    (h : ∀ queue' owed' granted' result, queue'.Sound small → Frame.charge ⟨queue', 0⟩ = owed' →
      queue.view.apply operation granted' = (queue'.view, result) →
      post ⟨owed', granted'⟩ ⟨queue', 0⟩ result) :
    Code.wp (books small) post operation.code ⟨owed, true⟩ ⟨queue, 0⟩ := by
  cases operation with
  | push data now =>
    refine Code.wp_bind (wp_push hsound howed fun q' owed' granted' accepted hq' howed' hpush ↦ ?_)
    exact Code.wp_pure (h q' owed' granted' _ hq' howed' (by simp [Fifo.apply, hpush]))
  | pop now =>
    refine Code.wp_bind (wp_pop hsound howed fun q' owed' popped hq' howed' hpop ↦ ?_)
    exact Code.wp_pure (h q' owed' true _ hq' howed' (by simp [Fifo.apply, hpop]))
  | enableBurst =>
    refine Code.wp_bind (wp_enableBurst hsound howed fun q' owed' hq' howed' hburst ↦ ?_)
    exact Code.wp_pure (h q' owed' true _ hq' howed' (by simp [Fifo.apply, hburst]))
  | close =>
    refine Code.wp_bind (wp_close hsound howed fun q' owed' hq' howed' hclose ↦ ?_)
    exact Code.wp_pure (h q' owed' true _ hq' howed' (by simp [Fifo.apply, hclose]))

end Functions

end QortalRelay.Datagrams
