import QortalRelay.Clock
import QortalRelay.Foundation.Program
import QortalRelay.Foundation.RingBuffer

/-!
# Receive queues for datagrams

The bounded queues of received datagrams and the accounting that all of them share. The code of an
operation is a program over its queue that calls the shared counters (`Code`); a call is served in
the atomic loads, swaps and additions of the source. An index out of range or a remainder by zero is
a fault.

A queue is used by one operation at a time, so what an operation does to it between two accesses to
the counters is taken together with one of them. The bytes of a removed datagram leave the queue,
and a queue is closed, with the addition that gives the bytes back.
-/

set_option autoImplicit false
set_option relaxedAutoImplicit false

namespace QortalRelay.Datagrams

open Foundation

/-! ### The shared counters -/

/-- The budget of all queues of the process, in bytes. -/
def globalLimit : ℤ := 32 * 1024 * 1024

/-- Charged for the bookkeeping of each datagram. -/
def packetOverhead : ℤ := 64

def burstPackets : ℤ := 1024

def burstBytes : ℤ := 1024 * 1024

def burstAge : ℤ := 50 * Time.millisecond

/-- Charged for each slot of a ring. -/
def slotCharge : ℤ := 64

/-- The counters of the process, each an atomic variable of the source. -/
structure Counters where
  used : ℤ
  peak : ℤ
  full : ℕ
  budget : ℕ
  expired : ℕ

inductive Counter
  | full
  | budget
  | expired

/-- What a queue asks of the counters. -/
inductive Request
  | reserve (charge : ℤ)
  | add (delta : ℤ)
  | count (counter : Counter)

/-- A reservation reads `used`, swaps it, and then raises `peak` to the total it has reached; the
other requests are single atomic operations. -/
inductive Progress
  | load (charge : ℤ)
  | swap (charge n : ℤ)
  | loadPeak (charge total : ℤ)
  | swapPeak (charge total p : ℤ)
  | add (delta : ℤ)
  | count (counter : Counter)

def Request.start : Request → Progress
  | reserve charge => .load charge
  | add delta => .add delta
  | count counter => .count counter

def Counters.count (counters : Counters) : Counter → Counters
  | .full => { counters with full := counters.full + 1 }
  | .budget => { counters with budget := counters.budget + 1 }
  | .expired => { counters with expired := counters.expired + 1 }

/-- One atomic step. Only reservations read their answer. -/
def Progress.step : Progress → Counters → Counters × (Progress ⊕ Bool)
  | load charge, counters =>
    if counters.used + charge > globalLimit then (counters, .inr false)
    else (counters, .inl (swap charge counters.used))
  | swap charge n, counters =>
    if counters.used = n then
      ({ counters with used := n + charge }, .inl (loadPeak charge (n + charge)))
    else (counters, .inl (load charge))
  | loadPeak charge total, counters =>
    if total > counters.peak then (counters, .inl (swapPeak charge total counters.peak))
    else (counters, .inr true)
  | swapPeak charge total p, counters =>
    if counters.peak = p then ({ counters with peak := total }, .inr true)
    else (counters, .inl (loadPeak charge total))
  | add delta, counters => ({ counters with used := counters.used + delta }, .inr true)
  | count counter, counters => (counters.count counter, .inr true)

def device : Device Counters Request Progress Bool := ⟨Request.start, Progress.step⟩

/-! ### A queue -/

/-- A packet in the queue with the time of its arrival. -/
structure Entry where
  data : List UInt8
  arrived : Time

def Entry.blank : Entry := ⟨[], ⟨0, 0⟩⟩

def Entry.charge (entry : Entry) : ℤ := entry.data.length + packetOverhead

structure Stats where
  peakBytes : ℤ
  droppedFull : ℕ
  droppedBudget : ℕ
  droppedExpired : ℕ
  maxResidenceMicros : ℤ

/-- The queue of the source, without its lock. -/
structure Queue where
  ring : RingBuffer Entry
  bytes : ℤ
  ringCharge : ℤ
  limit : ℤ
  maxAge : ℤ
  closed : Bool
  stats : Stats

def Queue.new (limit : ℤ) : Queue := ⟨.empty, 0, 0, limit, 0, false, ⟨0, 0, 0, 0, 0⟩⟩

/-- A queue inside an operation. What the operation has reserved and not yet put to the queue is
read by nothing. -/
structure Frame where
  queue : Queue
  reserved : ℤ

abbrev QueueCode := Code Frame Request Bool

namespace QueueCode

def queue : QueueCode Queue := do
  let frame ← Code.get
  return frame.queue

/-- A local update of the queue, and of what is reserved. -/
def put (queue : Queue) (reserved : ℤ) : QueueCode Unit := do
  let frame ← Code.get
  Code.set ⟨queue, frame.reserved + reserved⟩

/-- Takes the charge from the budget of the process, if it is there. -/
def reserve (charge : ℤ) : QueueCode Bool := do
  let granted ← Code.call (.reserve charge)
  let queue ← queue
  put queue (if granted then charge else 0)
  return granted

/-- `used.Add(-charge)`. -/
def release (charge : ℤ) : QueueCode Unit := do
  let _ ← Code.call (.add (-charge))

def countOne (counter : Counter) : QueueCode Unit := do
  let _ ← Code.call (.count counter)

end QueueCode

open QueueCode

namespace Queue

def droppedFull (queue : Queue) : Queue :=
  { queue with stats := { queue.stats with droppedFull := queue.stats.droppedFull + 1 } }

def droppedBudget (queue : Queue) : Queue :=
  { queue with stats := { queue.stats with droppedBudget := queue.stats.droppedBudget + 1 } }

def droppedExpired (queue : Queue) : Queue :=
  { queue with stats := { queue.stats with droppedExpired := queue.stats.droppedExpired + 1 } }

/-- An entry has left at the given age. -/
def residence (queue : Queue) (age : ℤ) : Queue :=
  { queue with stats := { queue.stats with
      maxResidenceMicros :=
        if age > 0 then max queue.stats.maxResidenceMicros (age / 1000)
        else queue.stats.maxResidenceMicros } }

/-- The slots of a large ring are given up with its last entry. -/
def shrink : QueueCode Unit := do
  let q ← queue
  if q.ring.count = 0 ∧ q.ring.slots.length > 32 then
    release q.ringCharge
    put { q with ring := .empty, ringCharge := 0 } 0

/-- Takes the first packet out and gives its charge back. -/
def remove (now : Time) : QueueCode (List UInt8) := do
  let q ← queue
  let (e, ring) ← Code.checked (q.ring.removeFirst .blank)
  release e.charge
  put { q with ring := ring, bytes := q.bytes - e.charge } 0
  shrink
  let q ← queue
  put (q.residence (now.sub e.arrived)) 0
  return e.data

/-- The loop of `expire`, for at most the given number of rounds. -/
def expireRounds (now : Time) : ℕ → QueueCode Unit
  | 0 => return ()
  | rounds + 1 => do
    let q ← queue
    if q.ring.count > 0 ∧ q.maxAge > 0 then
      let e ← Code.checked q.ring.first
      if now.sub e.arrived > q.maxAge then
        let _ ← remove now
        let q ← queue
        put q.droppedExpired 0
        countOne .expired
        expireRounds now rounds

/-- Each round removes an entry, so there are no more rounds than entries. -/
def expire (now : Time) : QueueCode Unit := do
  let q ← queue
  expireRounds now q.ring.count

/-- A ring for more entries takes the place of the full one. The new ring is reserved while the old
one is still charged. -/
def grow (q : Queue) (slots : ℕ) : QueueCode Unit := do
  let ring ← Code.checked (q.ring.resize .blank slots)
  release q.ringCharge
  put { q with ring := ring, ringCharge := slots * slotCharge } (-(slots * slotCharge))

/-- Puts a packet behind the others; its charge is already taken. -/
def append (data : List UInt8) (now : Time) : QueueCode Unit := do
  let q ← queue
  let ring ← Code.checked (q.ring.append ⟨data, now⟩)
  let bytes := q.bytes + (data.length + packetOverhead)
  put { q with
    ring := ring
    bytes := bytes
    stats := { q.stats with peakBytes := max q.stats.peakBytes (bytes + q.ringCharge) } }
    (-(data.length + packetOverhead))

/-- Whether the packet was accepted. Its charge is taken before it is stored, and a full ring is
replaced by a larger one. -/
def push (data : List UInt8) (now : Time) : QueueCode Bool := do
  let q ← queue
  if q.closed then return false
  else
    expire now
    let q ← queue
    let charge := data.length + packetOverhead
    if (q.ring.count : ℤ) ≥ q.limit ∨ q.bytes + charge > burstBytes then
      put q.droppedFull 0
      countOne .full
      return false
    else
      let granted ← reserve charge
      if !granted then
        put q.droppedBudget 0
        countOne .budget
        return false
      else if q.ring.count = q.ring.slots.length then
        let slots := (min q.limit (max 8 (q.ring.slots.length * 2))).toNat
        let granted ← reserve (slots * slotCharge)
        if !granted then
          release charge
          put q.droppedBudget (-charge)
          countOne .budget
          return false
        else
          q.grow slots
          append data now
          return true
      else
        append data now
        return true

/-- The first packet that is not too old. -/
def pop (now : Time) : QueueCode (Option (List UInt8)) := do
  expire now
  let q ← queue
  if q.ring.count = 0 then return none
  else
    let data ← remove now
    return some data

/-- A larger limit, and packets that grow old. -/
def enableBurst : QueueCode Unit := do
  let q ← queue
  put { q with limit := burstPackets, maxAge := burstAge } 0

/-- Gives everything back. A closed queue accepts nothing. -/
def close : QueueCode Unit := do
  let q ← queue
  if q.closed then return ()
  else
    release (q.bytes + q.ringCharge)
    put { q with closed := true, ringCharge := 0, ring := .empty, bytes := 0 } 0

end Queue

/-! ### The operations -/

/-- A call of one of the exported methods. -/
inductive Operation
  | push (data : List UInt8) (now : Time)
  | pop (now : Time)
  | enableBurst
  | close

inductive Result
  | pushed (accepted : Bool)
  | popped (data : Option (List UInt8))
  | done

def Operation.code : Operation → QueueCode Result
  | push data now => return .pushed (← Queue.push data now)
  | pop now => return .popped (← Queue.pop now)
  | enableBurst => do
    Queue.enableBurst
    return .done
  | close => do
    Queue.close
    return .done

end QortalRelay.Datagrams
