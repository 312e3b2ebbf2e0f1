import QortalRelay.Datagrams.History
import QortalRelay.Http3.Frames

/-!
# Streams that are given datagrams

A request stream with the state of its two sides and its queue of received datagrams,
`stateTrackingStream`. The datagrams are charged to the budget of the process until the queue is
closed, which happens with the first error of the receive side: of a read, or of a cancelled read
(`TrackedStream.closeReceive`). No other function of the stream closes the queue
(`TrackedStream.Ok`).
-/

set_option autoImplicit false
set_option relaxedAutoImplicit false

namespace QortalRelay.Http3

open Datagrams

/-! ### The functions of a stream -/

/-- The HTTP/3 error codes that are used here. -/
inductive ErrorCode
  | noError
  | internalError
  | excessiveLoad
  | requestIncomplete
  | requestCanceled
  | messageError
  | qpackDecompressionFailed
  | connectError
deriving DecidableEq

/-- Why one side of a stream has ended. -/
inductive StreamError
  | read (error : ReadError)
  | cancelled (code : ErrorCode)
  | closed
  /-- The context of the stream is done. -/
  | done
deriving DecidableEq

/-- A stream of the state tracker: the first error of each side, and the queue of its datagrams. -/
structure TrackedStream where
  sendErr : Option StreamError
  recvErr : Option StreamError
  queue : Queue
  hasData : Bool
  /-- Among the streams of the connection that are given datagrams. -/
  tracked : Bool

def streamDatagramQueueLen : ℤ := 32

namespace TrackedStream

def new : TrackedStream := ⟨none, none, Queue.new streamDatagramQueueLen, false, true⟩

/-- The send side ends. The stream is tracked until both sides have ended. -/
def closeSend (stream : TrackedStream) (error : StreamError) : TrackedStream :=
  if stream.sendErr = none then
    { stream with
      tracked := stream.tracked && stream.recvErr.isNone
      sendErr := some error }
  else stream

/-- The answers of the counters do not matter to a close. -/
def closeReceive (stream : TrackedStream) (error : StreamError) : TrackedStream :=
  if stream.recvErr = none then
    { stream with
      tracked := stream.tracked && stream.sendErr.isNone
      recvErr := some error
      queue := (Operation.close.perform (fun _ _ ↦ true) stream.queue).1
      hasData := true }
  else stream

def cancelRead (stream : TrackedStream) (code : ErrorCode) : TrackedStream :=
  stream.closeReceive (.cancelled code)

def cancelWrite (stream : TrackedStream) (code : ErrorCode) : TrackedStream :=
  stream.closeSend (.cancelled code)

def close (stream : TrackedStream) : TrackedStream := stream.closeSend .closed

/-- What a read does to the stream; the bytes go to the reader. -/
def read (stream : TrackedStream) : Option ReadError → TrackedStream
  | none => stream
  | some error => stream.closeReceive (.read error)

/-- A datagram of the connection that names the stream. -/
def enqueueDatagram (stream : TrackedStream) (data : List UInt8) (now : Time)
    (surroundings : Surroundings) : TrackedStream :=
  if stream.tracked = true ∧ stream.recvErr = none then
    match (Operation.push data now).perform surroundings stream.queue with
    | (queue, .pushed true) => { stream with queue := queue, hasData := true }
    | (queue, _) => { stream with queue := queue }
  else stream

/-! ### The receive side -/

/-- The receive side of the stream is in order: the queue is closed with its first error. -/
structure Ok (stream : TrackedStream) : Prop where
  queue : stream.queue.Sound True
  closed : stream.queue.closed = stream.recvErr.isSome

theorem ok_new : new.Ok :=
  ⟨Queue.sound_new _ fun _ ↦ by decide, rfl⟩

variable {stream : TrackedStream}

theorem Ok.closeSend (h : stream.Ok) (error : StreamError) : (stream.closeSend error).Ok := by
  unfold TrackedStream.closeSend
  split_ifs
  · exact ⟨h.queue, h.closed⟩
  · exact h

theorem Ok.closeReceive (h : stream.Ok) (error : StreamError) :
    (stream.closeReceive error).Ok := by
  unfold TrackedStream.closeReceive
  split_ifs
  · obtain ⟨-, hsound, -⟩ := Operation.close.perform_spec h.queue fun _ _ ↦ true
    exact ⟨hsound, (Fifo.closed_perform h.queue _ _).mpr (Or.inr rfl)⟩
  · exact h

theorem isSome_recvErr_closeReceive (stream : TrackedStream) (error : StreamError) :
    (stream.closeReceive error).recvErr.isSome = true := by
  unfold closeReceive
  split_ifs with hnone
  · rfl
  · exact Option.isSome_iff_ne_none.mpr hnone

@[simp] theorem recvErr_closeSend (stream : TrackedStream) (error : StreamError) :
    (stream.closeSend error).recvErr = stream.recvErr := by
  unfold closeSend
  split_ifs <;> rfl

theorem Ok.read (h : stream.Ok) (error : Option ReadError) : (stream.read error).Ok := by
  cases error with
  | none => exact h
  | some error => exact h.closeReceive _

theorem isSome_recvErr_read (stream : TrackedStream) (error : Option ReadError) :
    (stream.read error).recvErr.isSome = (stream.recvErr.isSome || error.isSome) := by
  cases error with
  | none => simp [TrackedStream.read]
  | some error => simp [TrackedStream.read, isSome_recvErr_closeReceive]

/-- Every operation but the close leaves the receive side in order. -/
theorem Ok.perform (h : stream.Ok) {operation : Operation} (hoperation : operation ≠ .close)
    (surroundings : Surroundings) (hasData : Bool) :
    Ok { stream with
      queue := (operation.perform surroundings stream.queue).1, hasData := hasData } := by
  obtain ⟨-, hsound, -⟩ := operation.perform_spec h.queue surroundings
  refine ⟨hsound, ?_⟩
  have hclosed := Fifo.closed_perform h.queue operation surroundings
  rw [or_iff_left hoperation, h.closed] at hclosed
  exact Bool.eq_iff_iff.mpr hclosed

theorem Ok.enqueueDatagram (h : stream.Ok) (data : List UInt8) (now : Time)
    (surroundings : Surroundings) : (stream.enqueueDatagram data now surroundings).Ok := by
  have hpush := h.perform (nofun : Operation.push data now ≠ .close) surroundings
  unfold TrackedStream.enqueueDatagram
  split_ifs
  · split
    · next queue heq => simpa [heq] using hpush true
    · next queue result _ heq => simpa [heq] using hpush stream.hasData
  · exact h

@[simp] theorem recvErr_enqueueDatagram (stream : TrackedStream) (data : List UInt8) (now : Time)
    (surroundings : Surroundings) :
    (stream.enqueueDatagram data now surroundings).recvErr = stream.recvErr := by
  unfold enqueueDatagram
  split_ifs
  · split <;> rfl
  · rfl

/-- A closed queue is charged with nothing. -/
theorem Ok.charge_eq_zero (h : stream.Ok) (hclosed : stream.queue.closed = true) :
    stream.queue.bytes + stream.queue.ringCharge = 0 := by
  rw [h.queue.bytes, h.queue.contents_eq_nil hclosed, h.queue.ringCharge, h.queue.drained hclosed]
  rfl

/-! ### Waking the receiver of datagrams -/

/-- An error of the receive side has been signalled to the channel of the stream. -/
def Signalled (stream : TrackedStream) : Prop :=
  stream.recvErr.isSome = true → stream.hasData = true

theorem Signalled.closeReceive (h : stream.Signalled) (error : StreamError) :
    (stream.closeReceive error).Signalled := by
  unfold TrackedStream.closeReceive
  split_ifs
  · exact fun _ ↦ rfl
  · exact h

theorem Signalled.read (h : stream.Signalled) (error : Option ReadError) :
    (stream.read error).Signalled := by
  cases error with
  | none => exact h
  | some error => exact h.closeReceive _

theorem Signalled.closeSend (h : stream.Signalled) (error : StreamError) :
    (stream.closeSend error).Signalled := by
  unfold TrackedStream.closeSend
  split_ifs
  · exact h
  · exact h

theorem Signalled.enqueueDatagram (h : stream.Signalled) (data : List UInt8) (now : Time)
    (surroundings : Surroundings) : (stream.enqueueDatagram data now surroundings).Signalled := by
  unfold TrackedStream.enqueueDatagram
  split_ifs
  · split
    · exact fun _ ↦ rfl
    · exact h
  · exact h

end TrackedStream

end QortalRelay.Http3
