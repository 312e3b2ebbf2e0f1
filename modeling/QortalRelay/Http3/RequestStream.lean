import QortalRelay.Http3.TrackedStream

/-!
# Handling a request stream

The function that handles a request stream of the HTTP/3 server, `handleRequestStream`, as it goes
through the bytes and read errors of the stream and what the handler of the request does, while
datagrams for the stream come in at any time.

Once the stream has been handled and not handed over to the handler, its queue is closed on every
way out but two (`queue_released_iff`). A first frame that is no HEADERS frame, or a priority update
for a push, closes the connection and returns without cancelling the stream, so that nothing closes
the queue unless a read has reported an error before.
-/

set_option autoImplicit false
set_option relaxedAutoImplicit false

namespace QortalRelay.Http3

open Datagrams

/-! ### The machine -/

/-- What `requestFromHeaders` makes of a block of header fields. -/
inductive Decoded
  | request
  | tooLarge
  | qpackError
  | messageError
deriving DecidableEq

/-- The limit on header blocks and what the QPACK decoder makes of one. -/
structure ServerConfig where
  maxHeaderBytes : ℕ
  decode : List UInt8 → Decoded

/-- How far the server has got with a request. -/
inductive Phase
  | opening (parse : Parse)
  | headerBlock (left : ℕ) (read : List UInt8)
  | serving
  | returned (hijacked : Bool)
deriving DecidableEq

/-- A request stream on the side of the server. -/
structure Exchange where
  phase : Phase
  stream : TrackedStream
  connClosed : Bool

/-- What a handler does to the stream, apart from reading it. -/
inductive HandlerAction
  | cancelRead (code : ErrorCode)
  | closeSend (error : StreamError)
  | receiveDatagram (now : Time) (surroundings : Surroundings)
  | enableDatagramReceiveBuffer

/-- What can happen to a request stream. -/
inductive Event
  /-- A read gives a byte and may report an error with it. -/
  | byte (byte : UInt8) (error : Option ReadError)
  | failure (error : ReadError)
  | datagram (data : List UInt8) (now : Time) (surroundings : Surroundings)
  | handler (action : HandlerAction)
  | handlerReturns (hijacked panicked : Bool)
  | streamDone
  | connectionCloses

namespace Exchange

def new : Exchange := ⟨.opening .start, .new, false⟩

def returns (exchange : Exchange) (stream : TrackedStream) : Exchange :=
  { exchange with phase := .returned false, stream := stream }

/-- Both sides of the stream are cancelled. -/
def aborts (exchange : Exchange) (code : ErrorCode) : Exchange :=
  exchange.returns ((exchange.stream.cancelRead code).cancelWrite code)

/-- The request is answered with an error, once its receive side has been cancelled. -/
def rejects (exchange : Exchange) : Exchange :=
  exchange.returns (exchange.stream.cancelRead .excessiveLoad).close

def decoded (config : ServerConfig) (exchange : Exchange) (block : List UInt8) : Exchange :=
  match config.decode block with
  | .request => { exchange with phase := .serving }
  | .tooLarge => exchange.rejects
  | .qpackError => exchange.aborts .qpackDecompressionFailed
  | .messageError => exchange.aborts .messageError

/-- The first frame has been parsed. The parser closes the connection at a reserved frame type. -/
def opened (config : ServerConfig) (exchange : Exchange) :
    Except ParseError Frame → Exchange
  | .error .priorityUpdateForPush => { exchange with phase := .returned false, connClosed := true }
  | .error .reserved => { exchange with connClosed := true }.aborts .requestIncomplete
  | .error _ => exchange.aborts .requestIncomplete
  | .ok (.headers length) =>
    if length > config.maxHeaderBytes then exchange.rejects
    else if length = 0 then exchange.decoded config []
    else { exchange with phase := .headerBlock length [] }
  | .ok _ => { exchange with phase := .returned false, connClosed := true }

/-- A byte of the stream, after the read has had its effect on the stream. -/
def received (config : ServerConfig) (exchange : Exchange) (byte : UInt8)
    (error : Option ReadError) : Exchange :=
  match exchange.phase with
  | .opening parse =>
    match parse.receive byte error with
    | .more parse => { exchange with phase := .opening parse }
    | .done result => exchange.opened config result
  | .headerBlock left read =>
    if left ≤ 1 then exchange.decoded config (read ++ [byte])
    else if error = none then { exchange with phase := .headerBlock (left - 1) (read ++ [byte]) }
    else exchange.aborts .requestIncomplete
  | _ => exchange

/-- A read that gives no byte. -/
def failed (config : ServerConfig) (exchange : Exchange) (error : ReadError) : Exchange :=
  match exchange.phase with
  | .opening _ => exchange.opened config (.error (.read error))
  | .headerBlock _ _ => exchange.aborts .requestIncomplete
  | _ => exchange

/-- What the handler does with the stream of its request. -/
def handles (exchange : Exchange) : HandlerAction → Exchange
  | .cancelRead code => { exchange with stream := exchange.stream.cancelRead code }
  | .closeSend error => { exchange with stream := exchange.stream.closeSend error }
  | .receiveDatagram now surroundings =>
    { exchange with stream := { exchange.stream with
        queue := ((Operation.pop now).perform surroundings exchange.stream.queue).1 } }
  | .enableDatagramReceiveBuffer =>
    { exchange with stream := { exchange.stream with
        queue := (Operation.enableBurst.perform (fun _ _ ↦ true) exchange.stream.queue).1 } }

/-- The handler has returned. A stream that it has taken over is left to it. -/
def handled (exchange : Exchange) (hijacked panicked : Bool) : Exchange :=
  if hijacked then { exchange with phase := .returned true }
  else if panicked then exchange.aborts .internalError
  else exchange.returns (exchange.stream.cancelRead .noError).close

/-- One event. The handler acts while it serves the request, and later if it has taken the stream
over. -/
def act (config : ServerConfig) (exchange : Exchange) : Event → Exchange
  | .byte byte error =>
    -- After the return nobody reads, unless the stream has been taken over.
    if exchange.phase = .returned false then exchange
    else { exchange with stream := exchange.stream.read error }.received config byte error
  | .failure error =>
    if exchange.phase = .returned false then exchange
    else { exchange with stream := exchange.stream.read (some error) }.failed config error
  | .datagram data now surroundings =>
    { exchange with stream := exchange.stream.enqueueDatagram data now surroundings }
  | .handler action =>
    if exchange.phase = .serving ∨ exchange.phase = .returned true then exchange.handles action
    else exchange
  | .handlerReturns hijacked panicked =>
    if exchange.phase = .serving then exchange.handled hijacked panicked else exchange
  | .streamDone => { exchange with stream := exchange.stream.closeSend .done }
  | .connectionCloses => { exchange with connClosed := true }

def run (config : ServerConfig) (exchange : Exchange) (events : List Event) : Exchange :=
  events.foldl (act config) exchange

end Exchange

/-! ### The first frame -/

/-- A first frame that ends the request without cancelling the stream. -/
def unexpected : Except ParseError Frame → Bool
  | .error .priorityUpdateForPush => true
  | .error _ => false
  | .ok (.headers _) => false
  | .ok _ => true

/-- What the parser makes of the bytes and errors of the stream, and whether a read has reported an
error by then. -/
def firstFrame (parse : Parse) (reported : Bool) :
    List Event → Option (Except ParseError Frame × Bool)
  | [] => none
  | .byte byte error :: events =>
    match parse.receive byte error with
    | .more parse => firstFrame parse (reported || error.isSome) events
    | .done result => some (result, reported || error.isSome)
  | .failure error :: _ => some (.error (.read error), true)
  | _ :: events => firstFrame parse reported events

/-- The client opens the stream with an unexpected frame, and no read reports an error while it is
parsed. -/
def Abandons (events : List Event) : Prop :=
  ∃ result, firstFrame .start false events = some (result, false) ∧ unexpected result = true

/-! ### Ways out -/

namespace Exchange

variable {config : ServerConfig} {exchange : Exchange}

/-- Past the first frame, with the receive side ended if the function has returned. -/
structure Settled (exchange : Exchange) : Prop where
  opened : ∀ parse, exchange.phase ≠ .opening parse
  ended : exchange.phase = .returned false → exchange.stream.recvErr.isSome = true

/-- The function has returned and the receive side has not ended. -/
structure Abandoned (exchange : Exchange) : Prop where
  returned : exchange.phase = .returned false
  unended : exchange.stream.recvErr = none

theorem settled_aborts (exchange : Exchange) (code : ErrorCode) :
    (exchange.aborts code).Settled :=
  ⟨nofun, fun _ ↦ by
    simpa [aborts, returns, TrackedStream.cancelWrite, TrackedStream.cancelRead]
      using exchange.stream.isSome_recvErr_closeReceive (.cancelled code)⟩

theorem settled_rejects (exchange : Exchange) : exchange.rejects.Settled :=
  ⟨nofun, fun _ ↦ by
    simpa [rejects, returns, TrackedStream.close, TrackedStream.cancelRead]
      using exchange.stream.isSome_recvErr_closeReceive (.cancelled .excessiveLoad)⟩

theorem settled_decoded (exchange : Exchange) (block : List UInt8) :
    (exchange.decoded config block).Settled := by
  unfold decoded
  split
  · exact ⟨nofun, nofun⟩
  · exact exchange.settled_rejects
  · exact exchange.settled_aborts _
  · exact exchange.settled_aborts _

/-- Only an unexpected first frame leaves the receive side as it is. -/
theorem settled_opened {result : Except ParseError Frame}
    (h : unexpected result = true → exchange.stream.recvErr.isSome = true) :
    (exchange.opened config result).Settled := by
  match result with
  | .error .priorityUpdateForPush => exact ⟨nofun, fun _ ↦ h rfl⟩
  | .error .reserved => exact settled_aborts _ _
  | .error (.read _) | .error .malformed => exact settled_aborts _ _
  | .ok (.headers length) =>
    simp only [opened]
    split_ifs
    · exact exchange.settled_rejects
    · exact exchange.settled_decoded []
    · exact ⟨nofun, nofun⟩
  | .ok (.data _) | .ok .settings | .ok (.goAway _) | .ok (.priorityUpdate _) =>
    exact ⟨nofun, fun _ ↦ h rfl⟩

theorem abandoned_opened {result : Except ParseError Frame} (h : unexpected result = true)
    (hnone : exchange.stream.recvErr = none) : (exchange.opened config result).Abandoned := by
  match result with
  | .error .priorityUpdateForPush => exact ⟨rfl, hnone⟩
  | .error .reserved | .error (.read _) | .error .malformed => cases h
  | .ok (.headers length) => cases h
  | .ok (.data _) | .ok .settings | .ok (.goAway _) | .ok (.priorityUpdate _) =>
    exact ⟨rfl, hnone⟩

/-- The handler of a stream cannot undo the end of its receive side. -/
theorem settled_handles (h : exchange.Settled) (hphase : exchange.phase ≠ .returned false)
    (action : HandlerAction) : (exchange.handles action).Settled := by
  cases action <;> exact ⟨h.opened, fun hreturned ↦ absurd hreturned hphase⟩

theorem settled_received (h : exchange.Settled) (hphase : exchange.phase ≠ .returned false)
    (byte : UInt8) (error : Option ReadError) :
    (exchange.received config byte error).Settled := by
  unfold received
  split
  · next parse hparse => exact absurd hparse (h.opened parse)
  · split_ifs
    · exact settled_decoded _ _
    · exact ⟨nofun, nofun⟩
    · exact settled_aborts _ _
  · exact ⟨h.opened, fun hreturned ↦ absurd hreturned hphase⟩

theorem Settled.act (h : exchange.Settled) (event : Event) :
    (exchange.act config event).Settled := by
  cases event with
  | byte byte error =>
    simp only [Exchange.act]
    split_ifs with hphase
    · exact h
    · have hread : Settled { exchange with stream := exchange.stream.read error } :=
        ⟨h.opened, fun hreturned ↦ absurd hreturned hphase⟩
      exact settled_received hread hphase byte error
  | failure error =>
    simp only [Exchange.act]
    split_ifs with hphase
    · exact h
    · unfold failed
      split
      · next parse hparse => exact absurd hparse (h.opened parse)
      · exact settled_aborts _ _
      · exact ⟨h.opened, fun hreturned ↦ absurd hreturned hphase⟩
  | datagram data now surroundings =>
    exact ⟨h.opened, by simpa [Exchange.act] using h.ended⟩
  | handler action =>
    simp only [Exchange.act]
    split_ifs with hphase
    · exact settled_handles h (by rcases hphase with h | h <;> simp [h]) action
    · exact h
  | handlerReturns hijacked panicked =>
    simp only [Exchange.act, handled]
    split_ifs
    · exact ⟨nofun, nofun⟩
    · exact settled_aborts _ _
    · exact ⟨nofun, fun _ ↦ by
        simpa [returns, TrackedStream.close, TrackedStream.cancelRead]
          using exchange.stream.isSome_recvErr_closeReceive (.cancelled .noError)⟩
    · exact h
  | streamDone => exact ⟨h.opened, by simpa [Exchange.act] using h.ended⟩
  | connectionCloses => exact ⟨h.opened, h.ended⟩

theorem Abandoned.act (h : exchange.Abandoned) (event : Event) :
    (exchange.act config event).Abandoned := by
  have hreturned := h.returned
  cases event with
  | byte byte error => simpa [Exchange.act, hreturned] using h
  | failure error => simpa [Exchange.act, hreturned] using h
  | datagram data now surroundings => exact ⟨hreturned, by simpa [Exchange.act] using h.unended⟩
  | handler action => simpa [Exchange.act, hreturned] using h
  | handlerReturns hijacked panicked => simpa [Exchange.act, hreturned] using h
  | streamDone => exact ⟨hreturned, by simpa [Exchange.act] using h.unended⟩
  | connectionCloses => exact ⟨hreturned, h.unended⟩

theorem Settled.run (h : exchange.Settled) (events : List Event) :
    (exchange.run config events).Settled := by
  induction events generalizing exchange with
  | nil => exact h
  | cons event events ih => exact ih (h.act event)

theorem Abandoned.run (h : exchange.Abandoned) (events : List Event) :
    (exchange.run config events).Abandoned := by
  induction events generalizing exchange with
  | nil => exact h
  | cons event events ih => exact ih (h.act event)

/-- What a run leaves behind, given what the parser made of the first frame. -/
def Outcome (exchange : Exchange) : Option (Except ParseError Frame × Bool) → Prop
  | none => ∃ parse, exchange.phase = .opening parse
  | some (result, reported) =>
    if unexpected result = true ∧ reported = false then exchange.Abandoned else exchange.Settled

theorem outcome_opened {result : Except ParseError Frame} {reported : Bool}
    (h : exchange.stream.recvErr.isSome = reported) (events : List Event) :
    ((exchange.opened config result).run config events).Outcome (some (result, reported)) := by
  simp only [Outcome]
  split_ifs with habandons
  · rw [habandons.2, Option.isSome_eq_false_iff, Option.isNone_iff_eq_none] at h
    exact (abandoned_opened habandons.1 h).run events
  · refine (settled_opened fun hunexpected ↦ ?_).run events
    rw [h]
    exact Bool.eq_true_of_not_eq_false fun hreported ↦ habandons ⟨hunexpected, hreported⟩

/-- From the opening on, the first frame decides how the function can return. -/
theorem run_opening {parse : Parse} {reported : Bool} (hphase : exchange.phase = .opening parse)
    (hreported : exchange.stream.recvErr.isSome = reported) (events : List Event) :
    (exchange.run config events).Outcome (firstFrame parse reported events) := by
  induction events generalizing exchange parse reported with
  | nil => exact ⟨parse, hphase⟩
  | cons event events ih =>
    rw [run, List.foldl_cons, ← run]
    cases event with
    | byte byte error =>
      have hread := exchange.stream.isSome_recvErr_read error
      rw [hreported] at hread
      cases hparse : parse.receive byte error with
      | more rest =>
        simp only [firstFrame, hparse]
        exact ih (by simp [act, received, hphase, hparse])
          (by simpa [act, received, hphase, hparse] using hread)
      | done result =>
        simp only [firstFrame, hparse, act, received, hphase, reduceCtorEq, if_false]
        exact outcome_opened hread events
    | failure error =>
      have hread := exchange.stream.isSome_recvErr_read (some error)
      simp only [firstFrame, act, failed, hphase, reduceCtorEq, if_false]
      exact outcome_opened (by simpa using hread) events
    -- The other events come from elsewhere and touch neither the parser nor the receive side.
    | datagram | streamDone | connectionCloses =>
      exact ih (by simpa [act] using hphase) (by simpa [act] using hreported)
    | handler | handlerReturns =>
      exact ih (by simp [act, hphase]) (by simpa [act, hphase] using hreported)

/-! ### The queue of a stream that has been handled -/

theorem ok_decoded (h : exchange.stream.Ok) (block : List UInt8) :
    (exchange.decoded config block).stream.Ok := by
  unfold decoded
  split
  · exact h
  · exact (h.closeReceive _).closeSend _
  · exact (h.closeReceive _).closeSend _
  · exact (h.closeReceive _).closeSend _

theorem ok_opened (h : exchange.stream.Ok) (result : Except ParseError Frame) :
    (exchange.opened config result).stream.Ok := by
  match result with
  | .error .priorityUpdateForPush => exact h
  | .error .reserved | .error (.read _) | .error .malformed =>
    exact (h.closeReceive _).closeSend _
  | .ok (.headers length) =>
    simp only [opened]
    split_ifs
    · exact (h.closeReceive _).closeSend _
    · exact ok_decoded h []
    · exact h
  | .ok (.data _) | .ok .settings | .ok (.goAway _) | .ok (.priorityUpdate _) => exact h

theorem ok_received (h : exchange.stream.Ok) (byte : UInt8) (error : Option ReadError) :
    (exchange.received config byte error).stream.Ok := by
  unfold received
  split
  · split
    · exact h
    · exact ok_opened h _
  · split_ifs
    · exact ok_decoded h _
    · exact h
    · exact (h.closeReceive _).closeSend _
  · exact h

theorem ok_failed (h : exchange.stream.Ok) (error : ReadError) :
    (exchange.failed config error).stream.Ok := by
  unfold failed
  split
  · exact ok_opened h _
  · exact (h.closeReceive _).closeSend _
  · exact h

theorem ok_handles (h : exchange.stream.Ok) (action : HandlerAction) :
    (exchange.handles action).stream.Ok := by
  cases action with
  | cancelRead code => exact h.closeReceive _
  | closeSend error => exact h.closeSend error
  | receiveDatagram now surroundings =>
    exact h.perform (nofun : Operation.pop now ≠ .close) surroundings _
  | enableDatagramReceiveBuffer =>
    exact h.perform (nofun : Operation.enableBurst ≠ .close) _ _

theorem ok_handled (h : exchange.stream.Ok) (hijacked panicked : Bool) :
    (exchange.handled hijacked panicked).stream.Ok := by
  unfold handled
  split_ifs
  · exact h
  · exact (h.closeReceive _).closeSend _
  · exact (h.closeReceive _).closeSend _

theorem ok_act (h : exchange.stream.Ok) (event : Event) :
    (exchange.act config event).stream.Ok := by
  cases event with
  | byte byte error =>
    simp only [act]
    split_ifs
    · exact h
    · exact ok_received (h.read error) byte error
  | failure error =>
    simp only [act]
    split_ifs
    · exact h
    · exact ok_failed (h.read (some error)) error
  | datagram data now surroundings => exact h.enqueueDatagram data now surroundings
  | handler action =>
    simp only [act]
    split_ifs
    · exact ok_handles h action
    · exact h
  | handlerReturns hijacked panicked =>
    simp only [act]
    split_ifs
    · exact ok_handled h hijacked panicked
    · exact h
  | streamDone => exact h.closeSend .done
  | connectionCloses => exact h

theorem ok_run (h : exchange.stream.Ok) (events : List Event) :
    (exchange.run config events).stream.Ok := by
  induction events generalizing exchange with
  | nil => exact h
  | cons event events ih => exact ih (ok_act h event)

end Exchange

/-- Assumes: the function has returned and the handler has not taken the stream over. The queue of
the stream has been closed and is charged with nothing, unless the client has opened the stream with
an unexpected frame. -/
theorem queue_released_iff (config : ServerConfig) (events : List Event)
    (h : (Exchange.new.run config events).phase = .returned false) :
    ((Exchange.new.run config events).stream.queue.closed = true ∧
      (Exchange.new.run config events).stream.queue.bytes +
        (Exchange.new.run config events).stream.queue.ringCharge = 0) ↔ ¬ Abandons events := by
  have hok : (Exchange.new.run config events).stream.Ok :=
    Exchange.ok_run (TrackedStream.ok_new : Exchange.new.stream.Ok) events
  have houtcome : (Exchange.new.run config events).Outcome (firstFrame .start false events) :=
    Exchange.run_opening rfl rfl events
  constructor
  · rintro ⟨hclosed, -⟩ ⟨result, hfirst, hunexpected⟩
    rw [hfirst, Exchange.Outcome, if_pos ⟨hunexpected, rfl⟩] at houtcome
    rw [hok.closed, houtcome.unended] at hclosed
    cases hclosed
  · intro hexpected
    have hsettled : (Exchange.new.run config events).Settled := by
      match hfirst : firstFrame .start false events with
      | none =>
        obtain ⟨parse, hopening⟩ := hfirst ▸ houtcome
        rw [h] at hopening
        cases hopening
      | some (result, reported) =>
        rw [hfirst, Exchange.Outcome, if_neg] at houtcome
        · exact houtcome
        · rintro ⟨hunexpected, rfl⟩
          exact hexpected ⟨result, hfirst, hunexpected⟩
    have hclosed := hok.closed.trans (hsettled.ended h)
    exact ⟨hclosed, hok.charge_eq_zero hclosed⟩

/-- A datagram, a request with one byte of header fields, and the return of its handler. -/
def servedRequest : List Event :=
  [.datagram [7] ⟨0, 0⟩ fun _ _ ↦ true, .byte 0x01 none, .byte 0x01 none, .byte 0xd1 none,
    .handlerReturns false false, .connectionCloses]

theorem queue_released_served :
    (Exchange.new.run ⟨8192, fun _ ↦ .request⟩ servedRequest).phase = .returned false ∧
    (Exchange.new.run ⟨8192, fun _ ↦ .request⟩ servedRequest).stream.queue.closed = true ∧
    ¬ Abandons servedRequest := by
  have hreturned :
      (Exchange.new.run ⟨8192, fun _ ↦ .request⟩ servedRequest).phase = .returned false := by
    decide
  have hexpected : ¬ Abandons servedRequest := by
    rintro ⟨result, hfirst, hunexpected⟩
    cases (rfl : firstFrame .start false servedRequest = some (.ok (.headers 1), false)).symm.trans
      hfirst
    cases hunexpected
  exact ⟨hreturned, ((queue_released_iff _ servedRequest hreturned).mpr hexpected).1, hexpected⟩

/-- A datagram, and an empty DATA frame where the HEADERS frame of the request should be. The
connection is closed, and the queue keeps a datagram of one byte and a ring of eight slots. -/
def abandonedRequest : List Event :=
  [.datagram [7] ⟨0, 0⟩ fun _ _ ↦ true, .byte 0x00 none, .byte 0x00 none, .connectionCloses]

theorem queue_not_released :
    (Exchange.new.run ⟨8192, fun _ ↦ .request⟩ abandonedRequest).phase = .returned false ∧
    (Exchange.new.run ⟨8192, fun _ ↦ .request⟩ abandonedRequest).connClosed = true ∧
    (Exchange.new.run ⟨8192, fun _ ↦ .request⟩ abandonedRequest).stream.queue.closed = false ∧
    (Exchange.new.run ⟨8192, fun _ ↦ .request⟩ abandonedRequest).stream.queue.bytes +
      (Exchange.new.run ⟨8192, fun _ ↦ .request⟩ abandonedRequest).stream.queue.ringCharge =
      577 := by
  decide

end QortalRelay.Http3
