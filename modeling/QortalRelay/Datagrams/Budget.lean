import QortalRelay.Datagrams.Refinement
import QortalRelay.Foundation.Trace

/-!
# The budget that all receive queues share

Any number of receive queues over one set of counters, each used by one operation at a time, with
the atomic steps of the operations interleaved in any order. In every state that is reached the
counter `used` is what the queues are charged with and what the operations in progress have
reserved, and it stays within its limit (`receive_budget`): every operation meets its contract
(`wp_operation`), and one step changes the counter and the charge of the queue that moved by the
same amount (`Progress.step_spec`).
-/

set_option autoImplicit false
set_option relaxedAutoImplicit false

namespace QortalRelay.Datagrams

open Foundation Foundation.Trace

/-! ### Queues in use -/

/-- A queue that no operation uses, or the thread of the operation that uses it. -/
inductive Slot
  | idle (queue : Queue)
  | busy (thread : Thread Frame Request Progress Bool Result)

/-- All queues of the process with the counters they share. -/
structure System where
  counters : Counters
  slots : List Slot

def System.initial : System := ⟨⟨0, 0, 0, 0, 0⟩, []⟩

/-- A queue is made, one of its operations begins, or it makes a step. -/
inductive Action
  | create (limit : ℤ) (hlimit : limit ≤ burstPackets)
  | begin (i : ℕ) (operation : Operation)
  /-- One atomic step of the operation on a queue, or its return. -/
  | move (i : ℕ)

def System.begun (system : System) (i : ℕ) (queue : Queue) (operation : Operation) : System :=
  { system with
    slots := system.slots.set i (.busy ((operation.code ⟨queue, 0⟩).launch device)) }

def System.moved (system : System) (i : ℕ) :
    Thread Frame Request Progress Bool Result → System
  | .returned frame _ => { system with slots := system.slots.set i (.idle frame.queue) }
  | thread =>
    let (counters, thread') := thread.advance device system.counters
    ⟨counters, system.slots.set i (.busy thread')⟩

/-- An action that does not apply to the state of its queue changes nothing: the operations of one
queue exclude each other by its lock. -/
def System.act (system : System) : Action → System
  | .create limit _ => { system with slots := system.slots ++ [.idle (Queue.new limit)] }
  | .begin i operation =>
    match system.slots[i]? with
    | some (.idle queue) => system.begun i queue operation
    | _ => system
  | .move i =>
    match system.slots[i]? with
    | some (.busy thread) => system.moved i thread
    | _ => system

def System.run (actions : List Action) : System := actions.foldl System.act System.initial

/-! ### What a queue is charged with -/

/-- What a reservation has already added to `used`. -/
def Progress.held : Progress → ℤ
  | loadPeak charge _ | swapPeak charge _ _ => charge
  | _ => 0

namespace Slot

/-- The queue; none after a fault. -/
def queue : Slot → Option Queue
  | idle queue => some queue
  | busy (.returned frame _) | busy (.calling frame _ _ _) => some frame.queue
  | busy .faulted => none

def queued (slot : Slot) : ℤ := slot.queue.elim 0 fun queue ↦ queue.bytes + queue.ringCharge

/-- What the operation in progress has reserved and not yet put to the queue or given back. -/
def reservation : Slot → ℤ
  | idle _ | busy .faulted => 0
  | busy (.returned frame _) => frame.reserved
  | busy (.calling frame _ progress _) => frame.reserved + progress.held

def charge (slot : Slot) : ℤ := slot.queued + slot.reservation

end Slot

/-! ### Serving a request -/

/-- How far a request can have come. A swap that succeeds stays within the limit. -/
def Request.Serves : Request → Progress → Prop
  | reserve charge, .load charge' => charge' = charge
  | reserve charge, .swap charge' n => charge' = charge ∧ n + charge ≤ globalLimit
  | reserve charge, .loadPeak charge' _ => charge' = charge
  | reserve charge, .swapPeak charge' _ _ => charge' = charge
  | add delta, .add delta' => delta' = delta
  | count counter, .count counter' => counter' = counter
  | _, _ => False

theorem Request.serves_start (request : Request) : request.Serves (device.start request) := by
  cases request <;> rfl

theorem held_start (request : Request) : (device.start request).held = 0 := by
  cases request <;> rfl

theorem Request.Serves.held_nonneg {request : Request} {progress : Progress}
    (h : request.Serves progress) (hlawful : request.Lawful) : 0 ≤ progress.held := by
  cases request <;> cases progress <;> simp_all [Request.Serves, Request.Lawful, Progress.held]

/-- Assumes: a lawful request and a counter within its limit. A step inside the request changes the
counter with what is held, and the last one by the effect of the answer. -/
theorem Progress.step_spec {request : Request} {progress : Progress} {counters counters' : Counters}
    {outcome : Progress ⊕ Bool} (hlawful : request.Lawful) (hserves : request.Serves progress)
    (hused : counters.used ≤ globalLimit)
    (hstep : device.step progress counters = (counters', outcome)) :
    counters'.used ≤ globalLimit ∧
    match outcome with
    | .inl progress' => request.Serves progress' ∧
        counters'.used = counters.used + progress'.held - progress.held
    | .inr answer => counters'.used = counters.used + request.effect answer - progress.held := by
  cases request with
  | reserve charge =>
    cases progress with
    | load charge' =>
      obtain rfl : charge' = charge := hserves
      simp only [device, step] at hstep
      split_ifs at hstep with hfull
      · cases hstep
        exact ⟨hused, by simp [Request.effect, held]⟩
      · cases hstep
        exact ⟨hused, ⟨rfl, not_lt.mp hfull⟩, by simp [held]⟩
    | swap charge' n =>
      obtain ⟨rfl, hroom⟩ := hserves
      simp only [device, step] at hstep
      split_ifs at hstep with hsame
      · cases hstep
        exact ⟨hroom, rfl, by simp [held, hsame]⟩
      · cases hstep
        exact ⟨hused, rfl, by simp [held]⟩
    | loadPeak charge' total =>
      obtain rfl : charge' = charge := hserves
      simp only [device, step] at hstep
      split_ifs at hstep
      · cases hstep
        exact ⟨hused, rfl, by simp [held]⟩
      · cases hstep
        exact ⟨hused, by simp [Request.effect, held]⟩
    | swapPeak charge' total p =>
      obtain rfl : charge' = charge := hserves
      simp only [device, step] at hstep
      split_ifs at hstep
      · cases hstep
        exact ⟨hused, by simp [Request.effect, held]⟩
      · cases hstep
        exact ⟨hused, rfl, by simp [held]⟩
    | add delta => exact hserves.elim
    | count counter => exact hserves.elim
  | add delta =>
    cases progress with
    | add delta' =>
      obtain rfl : delta' = delta := hserves
      cases hstep
      exact ⟨add_le_of_le_of_nonpos hused hlawful, by simp [Request.effect, held]⟩
    | _ => exact hserves.elim
  | count counter =>
    cases progress with
    | count counter' =>
      cases hstep
      have hkept : (counters.count counter').used = counters.used := by cases counter' <;> rfl
      exact ⟨hkept.trans_le hused, by simp [Request.effect, held, hkept]⟩
    | _ => exact hserves.elim

/-! ### The books of a system -/

/-- The postcondition of an operation: nothing is reserved any more. -/
def settled (ledger : Ledger) (frame : Frame) (_ : Result) : Prop :=
  frame.queue.Sound True ∧ frame.reserved = 0 ∧ frame.charge = ledger.owed

def Slot.Ok : Slot → Prop
  | idle queue => queue.Sound True
  | busy thread => ∃ ledger, thread.Meets (books True) Request.Serves settled ledger

/-- The budget in use is what all queues hold and have reserved, and it is within the limit. -/
structure System.Balanced (system : System) : Prop where
  used_le : system.counters.used ≤ globalLimit
  slots : ∀ slot ∈ system.slots, slot.Ok
  used : system.counters.used = weight Slot.charge system.slots

/-- A thread that has just been launched owes what its ledger says. -/
theorem charge_launch {program : Program Frame Request Bool Result} {ledger : Ledger}
    (h : program.wp (books True) settled ledger) :
    (Slot.busy (program.launch device)).charge = ledger.owed := by
  cases program with
  | ret frame result => exact h.2.2
  | fault => exact h.elim
  | call frame request next =>
    have howed : frame.charge = ledger.owed := h.1.2.2.1
    simpa [Program.launch, Slot.charge, Slot.queued, Slot.queue, Slot.reservation, held_start,
      Frame.charge] using howed

theorem ok_launch {program : Program Frame Request Bool Result} {ledger : Ledger}
    (h : program.wp (books True) settled ledger) : (Slot.busy (program.launch device)).Ok :=
  ⟨ledger, Program.meets_launch device Request.serves_start h⟩

/-- Assumes: the slot that moved is in order, and the counter has changed with its charge. -/
theorem System.Balanced.set {system : System} (h : system.Balanced) {i : ℕ} {old new : Slot}
    {counters : Counters} (hold : system.slots[i]? = some old)
    (hused_le : counters.used ≤ globalLimit) (hnew : new.Ok)
    (hused : counters.used = system.counters.used + new.charge - old.charge) :
    System.Balanced ⟨counters, system.slots.set i new⟩ := by
  refine ⟨hused_le, forall_mem_set h.slots hnew, ?_⟩
  have hset := weight_set Slot.charge hold new
  have hbefore := h.used
  change counters.used = weight Slot.charge (system.slots.set i new)
  omega

/-- A thread that is being served keeps the books. -/
theorem System.Balanced.advance {system : System} (h : system.Balanced) {i : ℕ}
    {thread : Thread Frame Request Progress Bool Result}
    (hthread : system.slots[i]? = some (.busy thread)) :
    System.Balanced ⟨(thread.advance device system.counters).1,
      system.slots.set i (.busy (thread.advance device system.counters).2)⟩ := by
  obtain ⟨ledger, hmeets⟩ := h.slots _ (List.mem_of_getElem? hthread)
  cases thread with
  | returned frame result =>
    exact h.set hthread h.used_le ⟨ledger, hmeets⟩ (by simp [Thread.advance])
  | faulted => exact hmeets.elim
  | calling frame request progress next =>
    obtain ⟨⟨hsound, hreserved, howed, hlawful⟩, hserves, hnext⟩ := hmeets
    have hcharge : (Slot.busy (.calling frame request progress next)).charge =
        frame.charge + progress.held := by
      simp only [Slot.charge, Slot.queued, Slot.queue, Slot.reservation, Option.elim_some,
        Frame.charge]
      omega
    rcases hstep : device.step progress system.counters with ⟨counters', progress' | answer⟩
    · obtain ⟨hused_le, hserves', hused⟩ := Progress.step_spec hlawful hserves h.used_le hstep
      have hadvance : (Thread.calling frame request progress next).advance device system.counters =
          (counters', .calling frame request progress' next) := by
        simp only [Thread.advance, hstep]
      rw [hadvance]
      refine h.set hthread hused_le
        ⟨ledger, ⟨hsound, hreserved, howed, hlawful⟩, hserves', hnext⟩ ?_
      simp only [Slot.charge, Slot.queued, Slot.queue, Slot.reservation, Option.elim_some]
      omega
    · obtain ⟨hused_le, hused⟩ := Progress.step_spec hlawful hserves h.used_le hstep
      have hadvance : (Thread.calling frame request progress next).advance device system.counters =
          (counters', (next answer).launch device) := by
        simp only [Thread.advance, hstep]
      rw [hadvance]
      refine h.set hthread hused_le (ok_launch (hnext answer)) ?_
      have hlaunch := charge_launch (hnext answer)
      change _ = ledger.owed + request.effect answer at hlaunch
      change counters'.used = _ + (Slot.busy ((next answer).launch device)).charge - _
      simp only at hused
      omega

theorem System.Balanced.act {system : System} (h : system.Balanced) (action : Action) :
    (system.act action).Balanced := by
  cases action with
  | create limit hlimit =>
    have hsound : (Queue.new limit).Sound True := Queue.sound_new limit fun _ ↦ hlimit
    refine ⟨h.used_le, fun slot hslot ↦ ?_, ?_⟩
    · rcases List.mem_append.mp hslot with hslot | hslot
      · exact h.slots slot hslot
      · rw [List.mem_singleton.mp hslot]
        exact hsound
    · have hused := h.used
      simpa [System.act, Slot.charge, Slot.queued, Slot.queue, Slot.reservation, Queue.new]
        using hused
  | begin i operation =>
    simp only [System.act]
    split
    · next queue hslot =>
      have hsound : queue.Sound True := h.slots _ (List.mem_of_getElem? hslot)
      have hwp : Code.wp (books True) settled operation.code ⟨Frame.charge ⟨queue, 0⟩, true⟩
          ⟨queue, 0⟩ :=
        wp_operation operation hsound rfl fun _ _ _ _ hqueue howed _ ↦ ⟨hqueue, rfl, howed⟩
      refine h.set hslot h.used_le (ok_launch hwp) ?_
      rw [charge_launch hwp]
      simp [Slot.charge, Slot.queued, Slot.queue, Slot.reservation, Frame.charge]
    · exact h
  | move i =>
    simp only [System.act]
    split
    · next thread hslot =>
      obtain ⟨ledger, hmeets⟩ := h.slots _ (List.mem_of_getElem? hslot)
      cases thread with
      | returned frame result =>
        obtain ⟨hsound, hreserved, -⟩ := hmeets
        refine h.set hslot h.used_le hsound ?_
        simp [Slot.charge, Slot.queued, Slot.queue, Slot.reservation, hreserved]
      | faulted => exact hmeets.elim
      | calling frame request progress next => exact h.advance hslot
    · exact h

theorem System.balanced_run (actions : List Action) : (System.run actions).Balanced := by
  induction actions using List.reverseRecOn with
  | nil => exact ⟨by simp [run, initial, globalLimit], by simp [run, initial], rfl⟩
  | append_singleton actions action ih =>
    rw [run, List.foldl_append]
    exact ih.act action

/-! ### The budget -/

theorem Slot.Ok.queue {slot : Slot} (h : slot.Ok) :
    ∃ queue, slot.queue = some queue ∧ queue.Sound True ∧ 0 ≤ slot.reservation := by
  cases slot with
  | idle queue => exact ⟨queue, rfl, h, le_rfl⟩
  | busy thread =>
    obtain ⟨ledger, hmeets⟩ := h
    cases thread with
    | returned frame result => exact ⟨frame.queue, rfl, hmeets.1, hmeets.2.1.ge⟩
    | faulted => exact hmeets.elim
    | calling frame request progress next =>
      obtain ⟨⟨hsound, hreserved, -, hlawful⟩, hserves, -⟩ := hmeets
      exact ⟨frame.queue, rfl, hsound, add_nonneg hreserved (hserves.held_nonneg hlawful)⟩

theorem Slot.Ok.charge_nonneg {slot : Slot} (h : slot.Ok) : 0 ≤ slot.charge := by
  obtain ⟨queue, hqueue, hsound, hreservation⟩ := h.queue
  have hbytes : 0 ≤ queue.bytes := hsound.bytes ▸ totalCharge_nonneg _
  refine add_nonneg ?_ hreservation
  rw [queued, hqueue]
  exact add_nonneg hbytes hsound.ringCharge_nonneg

/-- The budget that all receive queues share. Whatever queues are made with limits up to 1024, and
however the atomic steps of their operations are interleaved, in the state that is reached:

* `used` is the sum of the bytes and ring charges of the queues and of what the operations in
  progress have reserved, and lies between 0 and the limit.
* Every queue is there, so no index was out of range and no divisor zero. Its bytes are those of its
  entries and at most 1 MiB; its entries are within its limit, if that is not negative, and within
  its ring; and the ring is charged by the slot, with at most 64 KiB.
* When every queue is closed, `used` is 0. -/
theorem receive_budget (actions : List Action) :
    let system := System.run actions
    system.counters.used = weight Slot.queued system.slots + weight Slot.reservation system.slots ∧
    0 ≤ system.counters.used ∧ system.counters.used ≤ globalLimit ∧
    (∀ slot ∈ system.slots, 0 ≤ slot.reservation ∧ ∃ queue, slot.queue = some queue ∧
      queue.bytes = totalCharge queue.ring.contents ∧ queue.bytes ≤ burstBytes ∧
      (queue.ring.count : ℤ) ≤ max 0 queue.limit ∧
      queue.ring.count ≤ queue.ring.slots.length ∧
      queue.ringCharge = 64 * queue.ring.slots.length ∧ queue.ringCharge ≤ 64 * 1024) ∧
    ((∀ slot ∈ system.slots, ∃ queue, slot = .idle queue ∧ queue.closed = true) →
      system.counters.used = 0) := by
  intro system
  have hbalanced : system.Balanced := System.balanced_run actions
  refine ⟨hbalanced.used.trans (weight_add _ _ _), ?_, hbalanced.used_le, fun slot hslot ↦ ?_,
    fun hclosed ↦ ?_⟩
  · rw [hbalanced.used]
    refine List.sum_nonneg fun charge hcharge ↦ ?_
    obtain ⟨slot, hslot, rfl⟩ := List.mem_map.mp hcharge
    exact (hbalanced.slots slot hslot).charge_nonneg
  · obtain ⟨queue, hqueue, hsound, hreservation⟩ := (hbalanced.slots slot hslot).queue
    have hslots := hsound.slots_le trivial
    have hcharge := hsound.ringCharge
    simp only [slotCharge, burstPackets] at hcharge hslots
    exact ⟨hreservation, queue, hqueue, hsound.bytes, hsound.bytes_le, hsound.count_le trivial,
      hsound.ring.fits, by omega, by omega⟩
  · rw [hbalanced.used]
    refine weight_eq_zero fun slot hslot ↦ ?_
    obtain ⟨queue, rfl, hqueue⟩ := hclosed slot hslot
    have hsound : queue.Sound True := hbalanced.slots _ hslot
    have hbytes : queue.bytes = 0 := by rw [hsound.bytes, hsound.contents_eq_nil hqueue]; rfl
    have hring : queue.ringCharge = 0 := by rw [hsound.ringCharge, hsound.drained hqueue]; rfl
    simp [Slot.charge, Slot.queued, Slot.queue, Slot.reservation, hbytes, hring]

/-- A datagram of one byte on a new queue: its own charge, and that of a ring of eight slots. -/
example : (System.run ([.create 32 (by decide), .begin 0 (.push [7] ⟨0, 0⟩)] ++
    List.replicate 10 (.move 0))).counters.used = 577 := by decide

end QortalRelay.Datagrams
