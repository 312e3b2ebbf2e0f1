import QortalRelay.Http3.Body
import QortalRelay.Http3.TrackedStream
import QortalRelay.Relay.Admission

/-!
# Tunnels

The handler of a CONNECT-UDP request with its goroutines: the handler itself, which takes a session
slot, dials the target and then reads and drops the capsules of the stream, `proxyConnSend`, which
writes the datagrams of the stream to the socket, and `proxyConnReceive`, which sends the packets of
the socket as datagrams. The handler waits for the other two before it returns and gives its slot
back. The machine interleaves the atomic steps of all goroutines of any number of tunnels with what
comes from outside.

`proxyConnSend` waits for a datagram or an error of the receive side of the stream, and nothing else
wakes it. The capsule reader can stop without such an error, at a frame that the client may not
send. In runs without such frames no tunnel of a closed connection is stuck, and the counters hold
no slot of a tunnel that can go no further (`slots_not_lost`). A single SETTINGS frame on the
request stream blocks a tunnel for good, with its slot (`slot_lost`).
-/

set_option autoImplicit false
set_option relaxedAutoImplicit false

namespace QortalRelay.Tunnels

open Foundation Foundation.Encoding Foundation.Store Foundation.Trace Datagrams Http3 Admission

/-! ### One tunnel -/

/-- Where the handler stands. -/
inductive Phase
  | dialing
  | registering
  | answering
  | reading (body : BodyReader) (capsule : Capsule)
  /-- The capsules have ended; the stream and then the socket are closed. -/
  | stopped
  | closing
  | waiting
  | leaving
  | releasing
  | returned
deriving DecidableEq

/-- Where the loop from the stream to the socket is. -/
inductive Sender
  | idle
  | receiving
  | selecting
  | writing (payload : List UInt8)
  | ending
  | done
deriving DecidableEq

/-- Where the loop from the socket to the stream is. -/
inductive Receiver
  | idle
  | reading
  | sending (payload : List UInt8)
  /-- `SendDatagram` has found the send side open and is at the queue of the connection. -/
  | queueing
  | ending
  | done
deriving DecidableEq

/-- A tunnel: its stream, its socket, its handler and the two loops between them. -/
structure Tunnel where
  source : Text
  stream : TrackedStream
  connClosed : Bool
  socketClosed : Bool
  phase : Phase
  sender : Sender
  receiver : Receiver

/-- An atomic step of one of the goroutines, with what it gets from the stream, the socket or the
clock. -/
inductive Move
  | dial (succeeds : Bool)
  | register
  | answer
  | read (byte : UInt8) (error : Option ReadError)
  | readFails (error : ReadError)
  | closeStream
  | closeSocket
  | wait
  | leave
  | release
  | receiveDatagram (now : Time) (surroundings : Surroundings)
  | wake
  | write (succeeds : Bool)
  | endSending
  | readSocket (packet : Option (List UInt8))
  | checkSend
  | sendDatagram (succeeds : Bool)
  | endReceiving

/-- What comes from outside: from the connection, and from the entry of the tunnel in the proxy when
the proxy is closed. -/
inductive Outside
  | datagram (data : List UInt8) (now : Time) (surroundings : Surroundings)
  | streamDone
  | connectionCloses
  | entryCancelsRead
  | entryClosesStream
  | entryClosesSocket

def maxUDPPayloadSize : ℕ := 1500

/-- What `proxyConnSend` does with a datagram. -/
def forward (data : List UInt8) : Sender :=
  match parseVarint data with
  | none => .ending
  | some (contextID, payload) =>
    if contextID ≠ 0 then .receiving
    else if payload.length > maxUDPPayloadSize then .receiving
    else .writing payload

namespace Tunnel

/-- The handler of an admitted request, with the stream as it has been handed over. -/
def new (source : Text) (stream : TrackedStream) (connClosed : Bool) : Tunnel :=
  ⟨source, stream, connClosed, false, .dialing, .idle, .idle⟩

/-- A read of the capsule reader gives a byte. -/
def received (config : TrailerConfig) (tunnel : Tunnel) (body : BodyReader) (capsule : Capsule)
    (byte : UInt8) (error : Option ReadError) : Tunnel :=
  let stream := tunnel.stream.read error
  match body.receive config byte error with
  | .more body => { tunnel with stream := stream, phase := .reading body capsule }
  | .deliver body =>
    match capsule.receive byte error with
    | some capsule => { tunnel with stream := stream, phase := .reading body capsule }
    | none => { tunnel with stream := stream, phase := .stopped }
  | .stop closesConn =>
    { tunnel with
      stream := stream, phase := .stopped, connClosed := tunnel.connClosed || closesConn }

/-- `ReceiveDatagram` under the lock of the stream, and what follows without it. -/
def receiveDatagram (tunnel : Tunnel) (now : Time) (surroundings : Surroundings) : Tunnel :=
  match (Operation.pop now).perform surroundings tunnel.stream.queue with
  | (queue, .popped (some data)) =>
    { tunnel with stream := { tunnel.stream with queue := queue }, sender := forward data }
  | (queue, _) =>
    { tunnel with
      stream := { tunnel.stream with queue := queue }
      sender := if tunnel.stream.recvErr.isSome then .ending else .selecting }

/-- A step of a goroutine; none if it cannot be taken. A read of a closed connection gives an
error, and so does the socket once it is closed. `SendDatagram` looks once whether the send side has
ended; what happens after that does not concern the call. -/
def move (config : TrailerConfig) (proxyClosed : Bool) (tunnel : Tunnel) : Move → Option Tunnel
  | .dial succeeds =>
    match tunnel.phase, succeeds with
    | .dialing, true =>
      some { tunnel with
        phase := .registering
        stream := { tunnel.stream with
          queue := (Operation.enableBurst.perform (fun _ _ ↦ true) tunnel.stream.queue).1 } }
    | .dialing, false => some { tunnel with phase := .releasing }
    | _, _ => none
  | .register =>
    match tunnel.phase, proxyClosed with
    | .registering, true => some { tunnel with phase := .releasing, socketClosed := true }
    | .registering, false => some { tunnel with phase := .answering }
    | _, _ => none
  | .answer =>
    match tunnel.phase with
    | .answering =>
      some { tunnel with
        phase := .reading .new (.type []), sender := .receiving, receiver := .reading }
    | _ => none
  | .read byte error =>
    match tunnel.phase with
    | .reading body capsule =>
      if tunnel.connClosed ∧ error = none then none
      else some (tunnel.received config body capsule byte error)
    | _ => none
  | .readFails error =>
    match tunnel.phase with
    | .reading _ _ =>
      some { tunnel with stream := tunnel.stream.read (some error), phase := .stopped }
    | _ => none
  | .closeStream =>
    match tunnel.phase with
    | .stopped => some { tunnel with stream := tunnel.stream.close, phase := .closing }
    | _ => none
  | .closeSocket =>
    match tunnel.phase with
    | .closing => some { tunnel with socketClosed := true, phase := .waiting }
    | _ => none
  | .wait =>
    match tunnel.phase, tunnel.sender, tunnel.receiver with
    | .waiting, .done, .done => some { tunnel with phase := .leaving }
    | _, _, _ => none
  | .leave =>
    match tunnel.phase with
    | .leaving => some { tunnel with socketClosed := true, phase := .releasing }
    | _ => none
  | .release =>
    match tunnel.phase with
    | .releasing => some { tunnel with phase := .returned }
    | _ => none
  | .receiveDatagram now surroundings =>
    match tunnel.sender with
    | .receiving => some (tunnel.receiveDatagram now surroundings)
    | _ => none
  | .wake =>
    match tunnel.sender, tunnel.stream.hasData with
    | .selecting, true =>
      some { tunnel with
        stream := { tunnel.stream with hasData := false }, sender := .receiving }
    | _, _ => none
  | .write succeeds =>
    match tunnel.sender with
    | .writing _ =>
      if tunnel.socketClosed ∧ succeeds then none
      else some { tunnel with sender := if succeeds then .receiving else .ending }
    | _ => none
  | .endSending =>
    match tunnel.sender with
    | .ending => some { tunnel with stream := tunnel.stream.close, sender := .done }
    | _ => none
  | .readSocket packet =>
    match tunnel.receiver, packet with
    | .reading, none => some { tunnel with receiver := .ending }
    | .reading, some payload =>
      if tunnel.socketClosed then none
      else if payload.length > maxUDPPayloadSize then some tunnel
      else some { tunnel with receiver := .sending payload }
    | _, _ => none
  | .checkSend =>
    match tunnel.receiver with
    | .sending _ =>
      some { tunnel with
        receiver := if tunnel.stream.sendErr.isSome then .ending else .queueing }
    | _ => none
  | .sendDatagram succeeds =>
    match tunnel.receiver with
    | .queueing => some { tunnel with receiver := if succeeds then .reading else .ending }
    | _ => none
  | .endReceiving =>
    match tunnel.receiver with
    | .ending => some { tunnel with stream := tunnel.stream.close, receiver := .done }
    | _ => none

/-- The tunnel has an entry in the proxy. -/
def registered (tunnel : Tunnel) : Bool :=
  match tunnel.phase with
  | .answering | .reading _ _ | .stopped | .closing | .waiting | .leaving => true
  | _ => false

/-- What the connection and the closer of the proxy do to a tunnel. -/
def outside (proxyClosed : Bool) (tunnel : Tunnel) : Outside → Tunnel
  | .datagram data now surroundings =>
    { tunnel with stream := tunnel.stream.enqueueDatagram data now surroundings }
  | .streamDone => { tunnel with stream := tunnel.stream.closeSend .done }
  | .connectionCloses => { tunnel with connClosed := true }
  | .entryCancelsRead =>
    if proxyClosed ∧ tunnel.registered then
      { tunnel with stream := tunnel.stream.cancelRead .connectError }
    else tunnel
  | .entryClosesStream =>
    if proxyClosed ∧ tunnel.registered then { tunnel with stream := tunnel.stream.close }
    else tunnel
  | .entryClosesSocket =>
    if proxyClosed ∧ tunnel.registered then { tunnel with socketClosed := true } else tunnel

/-- The source under which the tunnel holds a session slot. -/
def holding (tunnel : Tunnel) : Option Text :=
  match tunnel.phase with
  | .returned => none
  | _ => some tunnel.source

/-- The step does not bring the capsule reader to a forbidden frame, unless a read has reported an
error before. -/
def orderly (config : TrailerConfig) (tunnel : Tunnel) : Move → Bool
  | .read byte none =>
    match tunnel.phase with
    | .reading body _ => tunnel.stream.recvErr.isSome || !body.forbids config byte
    | _ => true
  | _ => true

/-- The step waits for nothing that need not come: a read of the stream and a datagram that waits
for room are over with the connection, a read of the socket once it is closed. -/
def prompt (tunnel : Tunnel) : Move → Bool
  | .read _ _ => false
  | .readFails _ => tunnel.connClosed
  | .readSocket none => tunnel.socketClosed
  | .readSocket (some _) => false
  | .sendDatagram succeeds => !succeeds && tunnel.connClosed
  | _ => true

/-- One of the goroutines can take a step. -/
def CanStep (config : TrailerConfig) (proxyClosed : Bool) (tunnel : Tunnel) : Prop :=
  ∃ move, tunnel.prompt move = true ∧ (tunnel.move config proxyClosed move).isSome = true

end Tunnel

/-! ### All tunnels -/

/-- The tunnels of the relay with the counters of their sources. -/
structure Server where
  sessions : Sessions
  proxyClosed : Bool
  tunnels : List Tunnel

/-- A request arrives, a tunnel moves or is moved from outside, or the relay or its proxy closes. -/
inductive Event
  /-- A request for a permitted target comes to `acquire`. -/
  | arrive (source : Text) (stream : TrackedStream) (connClosed : Bool)
  | move (i : ℕ) (move : Move)
  | outside (i : ℕ) (outside : Outside)
  | close
  | closeProxy

namespace Server

def start (maxSessions : ℤ) : Server := ⟨.start maxSessions, false, []⟩

/-- The sessions after a step of a tunnel. -/
def released (sessions : Sessions) (source : Text) : Move → Sessions
  | .release => sessions.release source
  | _ => sessions

/-- One event; a move that the tunnel cannot make changes nothing. -/
def act (config : TrailerConfig) (server : Server) : Event → Server
  | .arrive source stream connClosed =>
    match server.sessions.acquire source with
    | (sessions, true) =>
      { server with
        sessions := sessions
        tunnels := server.tunnels ++ [.new source stream connClosed] }
    | (_, false) => server
  | .move i move =>
    match server.tunnels[i]? with
    | none => server
    | some tunnel =>
      match tunnel.move config server.proxyClosed move with
      | none => server
      | some tunnel' =>
        { server with
          sessions := released server.sessions tunnel.source move
          tunnels := server.tunnels.set i tunnel' }
  | .outside i outside =>
    match server.tunnels[i]? with
    | none => server
    | some tunnel =>
      { server with tunnels := server.tunnels.set i (tunnel.outside server.proxyClosed outside) }
  | .close => { server with sessions := server.sessions.close }
  | .closeProxy => { server with proxyClosed := true }

def run (config : TrailerConfig) (server : Server) (events : List Event) : Server :=
  events.foldl (act config) server

def orderly (config : TrailerConfig) (server : Server) : Event → Bool
  | .move i move => (server.tunnels[i]?).all (·.orderly config move)
  | _ => true

/-- No step of the run brings a capsule reader to a forbidden frame before a read has reported an
error. -/
def orderlyRun (config : TrailerConfig) (server : Server) : List Event → Bool
  | [] => true
  | event :: events =>
    server.orderly config event && (server.act config event).orderlyRun config events

end Server

/-! ### What a step keeps -/

/-- The goroutines have been started and are waited for. -/
def Phase.isServing : Phase → Bool
  | reading _ _ | stopped | closing | waiting => true
  | _ => false

/-- The capsules have ended, and the goroutines are waited for. -/
def Phase.isPast : Phase → Bool
  | stopped | closing | waiting => true
  | _ => false

namespace Tunnel

/-- The receive side of the stream has ended before the handler waits, the socket is closed, and the
sender cannot miss the end. -/
structure Ok (tunnel : Tunnel) : Prop where
  started : tunnel.phase.isServing = true → tunnel.sender ≠ .idle ∧ tunnel.receiver ≠ .idle
  ended : tunnel.phase.isPast = true → tunnel.stream.recvErr.isSome = true
  socket : tunnel.phase = .waiting → tunnel.socketClosed = true
  woken : tunnel.sender = .selecting → tunnel.stream.Signalled

theorem ok_new (source : Text) (stream : TrackedStream) (connClosed : Bool) :
    (new source stream connClosed).Ok :=
  ⟨nofun, nofun, nofun, nofun⟩

variable {config : TrailerConfig} {proxyClosed : Bool} {tunnel tunnel' : Tunnel}

/-- The stream may change in any way that keeps an error of its receive side and its signal. -/
theorem Ok.withStream (h : tunnel.Ok) {stream : TrackedStream}
    (hended : tunnel.stream.recvErr.isSome = true → stream.recvErr.isSome = true)
    (hsignalled : tunnel.stream.Signalled → stream.Signalled) :
    Ok { tunnel with stream := stream } :=
  ⟨h.started, fun hpast ↦ hended (h.ended hpast), h.socket,
    fun hselecting ↦ hsignalled (h.woken hselecting)⟩

theorem Ok.closeSend (h : tunnel.Ok) (error : StreamError) :
    Ok { tunnel with stream := tunnel.stream.closeSend error } :=
  h.withStream (by simp) (·.closeSend error)

theorem Ok.read (h : tunnel.Ok) (error : Option ReadError) :
    Ok { tunnel with stream := tunnel.stream.read error } :=
  h.withStream (by rw [TrackedStream.isSome_recvErr_read]; simp +contextual) (·.read error)

/-- The sender may go on in any way but to wait. -/
theorem Ok.withSender (h : tunnel.Ok) {sender : Sender} (hidle : sender ≠ .idle)
    (hselecting : sender ≠ .selecting) : Ok { tunnel with sender := sender } :=
  ⟨fun hserving ↦ ⟨hidle, (h.started hserving).2⟩, h.ended, h.socket,
    fun hsender ↦ absurd hsender hselecting⟩

theorem Ok.withReceiver (h : tunnel.Ok) {receiver : Receiver} (hidle : receiver ≠ .idle) :
    Ok { tunnel with receiver := receiver } :=
  ⟨fun hserving ↦ ⟨(h.started hserving).1, hidle⟩, h.ended, h.socket, h.woken⟩

theorem Ok.outside (h : tunnel.Ok) (outside : Outside) :
    (tunnel.outside proxyClosed outside).Ok := by
  cases outside with
  | datagram data now surroundings =>
    exact h.withStream (by simp) (·.enqueueDatagram data now surroundings)
  | streamDone => exact h.closeSend .done
  | connectionCloses => exact ⟨h.started, h.ended, h.socket, h.woken⟩
  | entryCancelsRead =>
    simp only [Tunnel.outside]
    split_ifs
    · exact h.withStream (fun _ ↦ TrackedStream.isSome_recvErr_closeReceive _ _)
        (·.closeReceive _)
    · exact h
  | entryClosesStream =>
    simp only [Tunnel.outside]
    split_ifs
    · exact h.closeSend .closed
    · exact h
  | entryClosesSocket =>
    simp only [Tunnel.outside]
    split_ifs
    · exact ⟨h.started, h.ended, fun _ ↦ rfl, h.woken⟩
    · exact h

/-- The capsule reader goes on, or has stopped with an error of the receive side. -/
theorem Ok.received (h : tunnel.Ok) {body : BodyReader} {capsule : Capsule}
    (hphase : tunnel.phase = .reading body capsule) {byte : UInt8} {error : Option ReadError}
    (horderly : error = none →
      tunnel.stream.recvErr.isSome = true ∨ body.forbids config byte = false) :
    (tunnel.received config body capsule byte error).Ok := by
  have hread := h.read error
  have hstarted := h.started (by rw [hphase]; rfl)
  have hreported : ∀ reported, error = some reported →
      (tunnel.stream.read error).recvErr.isSome = true := by
    rintro reported rfl
    exact TrackedStream.isSome_recvErr_closeReceive _ _
  simp only [Tunnel.received]
  split
  · exact ⟨fun _ ↦ hstarted, nofun, nofun, hread.woken⟩
  · split
    · exact ⟨fun _ ↦ hstarted, nofun, nofun, hread.woken⟩
    · next hcapsule =>
      refine ⟨fun _ ↦ hstarted, fun _ ↦ ?_, nofun, hread.woken⟩
      cases error with
      | none => exact absurd hcapsule (capsule.receive_ne_none byte)
      | some reported => exact hreported reported rfl
  · next closesConn hstop =>
    refine ⟨fun _ ↦ hstarted, fun _ ↦ ?_, nofun, hread.woken⟩
    cases error with
    | none =>
      rcases horderly rfl with hended | hallowed
      · exact hended
      · rw [BodyReader.forbids_of_receive_stop hstop] at hallowed
        cases hallowed
    | some reported => exact hreported reported rfl

/-- Whatever the datagram, the sender goes on, unless there was none: then it waits for an error
that has not come yet. -/
theorem Ok.receiveDatagram (h : tunnel.Ok) (now : Time) (surroundings : Surroundings) :
    (tunnel.receiveDatagram now surroundings).Ok := by
  unfold Tunnel.receiveDatagram
  split
  · next queue data _ =>
    refine ⟨fun hserving ↦ ⟨?_, (h.started hserving).2⟩, h.ended, h.socket, ?_⟩
    · unfold forward
      split
      · nofun
      · split_ifs <;> nofun
    · unfold forward
      split
      · nofun
      · split_ifs <;> nofun
  · refine ⟨fun hserving ↦ ⟨?_, (h.started hserving).2⟩, h.ended, h.socket, ?_⟩
    · dsimp only
      split_ifs <;> nofun
    · dsimp only
      split_ifs with hended
      · nofun
      · exact fun _ hended' ↦ absurd hended' hended

theorem Ok.move (h : tunnel.Ok) {move : Move} (horderly : tunnel.orderly config move = true)
    (hmove : tunnel.move config proxyClosed move = some tunnel') : tunnel'.Ok := by
  cases move with
  | dial succeeds =>
    simp only [Tunnel.move] at hmove
    split at hmove
    · obtain rfl := Option.some.inj hmove
      exact ⟨nofun, nofun, nofun, h.woken⟩
    · obtain rfl := Option.some.inj hmove
      exact ⟨nofun, nofun, nofun, h.woken⟩
    · cases hmove
  | register =>
    simp only [Tunnel.move] at hmove
    split at hmove
    · obtain rfl := Option.some.inj hmove
      exact ⟨nofun, nofun, nofun, h.woken⟩
    · obtain rfl := Option.some.inj hmove
      exact ⟨nofun, nofun, nofun, h.woken⟩
    · cases hmove
  | answer =>
    simp only [Tunnel.move] at hmove
    split at hmove
    · obtain rfl := Option.some.inj hmove
      exact ⟨fun _ ↦ ⟨nofun, nofun⟩, nofun, nofun, nofun⟩
    · cases hmove
  | read byte error =>
    simp only [Tunnel.move] at hmove
    split at hmove
    · next body capsule hphase =>
      split_ifs at hmove
      obtain rfl := Option.some.inj hmove
      refine h.received hphase fun hnone ↦ ?_
      subst hnone
      simpa [Tunnel.orderly, hphase] using horderly
    · cases hmove
  | readFails error =>
    simp only [Tunnel.move] at hmove
    split at hmove
    · next hphase =>
      obtain rfl := Option.some.inj hmove
      have hread := h.read (some error)
      exact ⟨fun _ ↦ h.started (by rw [hphase]; rfl),
        fun _ ↦ TrackedStream.isSome_recvErr_closeReceive _ _, nofun, hread.woken⟩
    · cases hmove
  | closeStream =>
    simp only [Tunnel.move] at hmove
    split at hmove
    · next hphase =>
      obtain rfl := Option.some.inj hmove
      have hclosed := h.closeSend .closed
      exact ⟨fun _ ↦ h.started (by rw [hphase]; rfl),
        fun _ ↦ hclosed.ended (by simp [hphase, Phase.isPast]), nofun, hclosed.woken⟩
    · cases hmove
  | closeSocket =>
    simp only [Tunnel.move] at hmove
    split at hmove
    · next hphase =>
      obtain rfl := Option.some.inj hmove
      exact ⟨fun _ ↦ h.started (by rw [hphase]; rfl), fun _ ↦ h.ended (by rw [hphase]; rfl),
        fun _ ↦ rfl, h.woken⟩
    · cases hmove
  | wait =>
    simp only [Tunnel.move] at hmove
    split at hmove
    · obtain rfl := Option.some.inj hmove
      exact ⟨nofun, nofun, nofun, h.woken⟩
    · cases hmove
  | leave =>
    simp only [Tunnel.move] at hmove
    split at hmove
    · obtain rfl := Option.some.inj hmove
      exact ⟨nofun, nofun, nofun, h.woken⟩
    · cases hmove
  | release =>
    simp only [Tunnel.move] at hmove
    split at hmove
    · obtain rfl := Option.some.inj hmove
      exact ⟨nofun, nofun, nofun, h.woken⟩
    · cases hmove
  | receiveDatagram now surroundings =>
    simp only [Tunnel.move] at hmove
    split at hmove
    · obtain rfl := Option.some.inj hmove
      exact h.receiveDatagram now surroundings
    · cases hmove
  | wake =>
    simp only [Tunnel.move] at hmove
    split at hmove
    · obtain rfl := Option.some.inj hmove
      exact ⟨fun hserving ↦ ⟨nofun, (h.started hserving).2⟩, h.ended, h.socket, nofun⟩
    · cases hmove
  | write succeeds =>
    simp only [Tunnel.move] at hmove
    split at hmove
    · split_ifs at hmove
      · obtain rfl := Option.some.inj hmove
        exact h.withSender nofun nofun
      · obtain rfl := Option.some.inj hmove
        exact h.withSender nofun nofun
    · cases hmove
  | endSending =>
    simp only [Tunnel.move] at hmove
    split at hmove
    · obtain rfl := Option.some.inj hmove
      exact (h.closeSend .closed).withSender nofun nofun
    · cases hmove
  | readSocket packet =>
    simp only [Tunnel.move] at hmove
    split at hmove
    · obtain rfl := Option.some.inj hmove
      exact h.withReceiver nofun
    · split_ifs at hmove
      · obtain rfl := Option.some.inj hmove
        exact h
      · obtain rfl := Option.some.inj hmove
        exact h.withReceiver nofun
    · cases hmove
  | checkSend =>
    simp only [Tunnel.move] at hmove
    split at hmove
    · obtain rfl := Option.some.inj hmove
      exact h.withReceiver (by split_ifs <;> simp)
    · cases hmove
  | sendDatagram succeeds =>
    simp only [Tunnel.move] at hmove
    split at hmove
    · obtain rfl := Option.some.inj hmove
      exact h.withReceiver (by split_ifs <;> simp)
    · cases hmove
  | endReceiving =>
    simp only [Tunnel.move] at hmove
    split at hmove
    · obtain rfl := Option.some.inj hmove
      exact (h.closeSend .closed).withReceiver nofun
    · cases hmove

/-- A tunnel of a closed connection is not stuck. -/
theorem Ok.canStep (h : tunnel.Ok) (hclosed : tunnel.connClosed = true)
    (hphase : tunnel.phase ≠ .returned) : tunnel.CanStep config proxyClosed := by
  cases hcase : tunnel.phase with
  | dialing => exact ⟨.dial true, rfl, by simp [Tunnel.move, hcase]⟩
  | registering => exact ⟨.register, rfl, by cases proxyClosed <;> simp [Tunnel.move, hcase]⟩
  | answering => exact ⟨.answer, rfl, by simp [Tunnel.move, hcase]⟩
  | reading body capsule => exact ⟨.readFails .broken, hclosed, by simp [Tunnel.move, hcase]⟩
  | stopped => exact ⟨.closeStream, rfl, by simp [Tunnel.move, hcase]⟩
  | closing => exact ⟨.closeSocket, rfl, by simp [Tunnel.move, hcase]⟩
  | waiting =>
    obtain ⟨hsender, hreceiver⟩ := h.started (by rw [hcase]; rfl)
    cases hsending : tunnel.sender with
    | idle => exact absurd hsending hsender
    | receiving =>
      exact ⟨.receiveDatagram ⟨0, 0⟩ fun _ _ ↦ true, rfl, by simp [Tunnel.move, hsending]⟩
    | selecting =>
      -- the capsules have ended with an error of the receive side, and that was signalled
      have hdata := h.woken hsending (h.ended (by rw [hcase]; rfl))
      exact ⟨.wake, rfl, by simp [Tunnel.move, hsending, hdata]⟩
    | writing payload => exact ⟨.write false, rfl, by simp [Tunnel.move, hsending]⟩
    | ending => exact ⟨.endSending, rfl, by simp [Tunnel.move, hsending]⟩
    | done =>
      cases hreceiving : tunnel.receiver with
      | idle => exact absurd hreceiving hreceiver
      | reading => exact ⟨.readSocket none, h.socket hcase, by simp [Tunnel.move, hreceiving]⟩
      | sending payload => exact ⟨.checkSend, rfl, by simp [Tunnel.move, hreceiving]⟩
      | queueing =>
        exact ⟨.sendDatagram false, by simp [prompt, hclosed], by simp [Tunnel.move, hreceiving]⟩
      | ending => exact ⟨.endReceiving, rfl, by simp [Tunnel.move, hreceiving]⟩
      | done => exact ⟨.wait, rfl, by simp [Tunnel.move, hcase, hsending, hreceiving]⟩
  | leaving => exact ⟨.leave, rfl, by simp [Tunnel.move, hcase]⟩
  | releasing => exact ⟨.release, rfl, by simp [Tunnel.move, hcase]⟩
  | returned => exact absurd hcase hphase

/-! ### The slot of a tunnel -/

@[simp] theorem holding_outside (tunnel : Tunnel) (outside : Outside) :
    (tunnel.outside proxyClosed outside).holding = tunnel.holding := by
  cases outside with
  | datagram | streamDone | connectionCloses => rfl
  | entryCancelsRead | entryClosesStream | entryClosesSocket =>
    simp only [Tunnel.outside]
    split_ifs <;> rfl

theorem holding_received {body : BodyReader} {capsule : Capsule} (byte : UInt8)
    (error : Option ReadError) :
    (tunnel.received config body capsule byte error).holding = some tunnel.source := by
  simp only [received]
  split
  · rfl
  · split <;> rfl
  · rfl

theorem holding_receiveDatagram (tunnel : Tunnel) (now : Time) (surroundings : Surroundings) :
    (tunnel.receiveDatagram now surroundings).holding = tunnel.holding := by
  unfold receiveDatagram
  split <;> rfl

/-- The slot is given back by the last step of the handler. -/
theorem move_release (h : tunnel.move config proxyClosed .release = some tunnel') :
    tunnel.holding = some tunnel.source ∧ tunnel'.holding = none := by
  simp only [move] at h
  split at h
  · next hphase =>
    obtain rfl := Option.some.inj h
    exact ⟨by simp [holding, hphase], rfl⟩
  · cases h

/-- Every other step keeps the slot. -/
theorem holding_move {move : Move} (hmove : tunnel.move config proxyClosed move = some tunnel')
    (hrelease : move ≠ .release) : tunnel'.holding = tunnel.holding := by
  cases move with
  | release => exact absurd rfl hrelease
  | read byte error =>
    simp only [Tunnel.move] at hmove
    split at hmove
    · next hphase =>
      split_ifs at hmove
      obtain rfl := Option.some.inj hmove
      rw [holding_received, holding, hphase]
    · cases hmove
  | receiveDatagram now surroundings =>
    simp only [Tunnel.move] at hmove
    split at hmove
    · obtain rfl := Option.some.inj hmove
      exact tunnel.holding_receiveDatagram now surroundings
    · cases hmove
  | _ =>
    simp only [Tunnel.move] at hmove
    split at hmove <;> (try split_ifs at hmove) <;> cases hmove <;> simp [holding, *]

end Tunnel

/-! ### What a run keeps -/

namespace Server

/-- The tunnels are in order and the counters are the tally of those that have not returned. -/
structure Ok (server : Server) : Prop where
  tunnels : ∀ tunnel ∈ server.tunnels, tunnel.Ok
  sessions : server.sessions.Ok (taken (server.tunnels.map Tunnel.holding))

theorem ok_start (maxSessions : ℤ) : (start maxSessions).Ok :=
  ⟨fun _ hmem ↦ absurd hmem List.not_mem_nil, Sessions.ok_start maxSessions⟩

variable {config : TrailerConfig} {server : Server}

/-- One tunnel moves and keeps its slot. -/
theorem Ok.set (h : server.Ok) {i : ℕ} {tunnel tunnel' : Tunnel}
    (hget : server.tunnels[i]? = some tunnel) (hok : tunnel'.Ok)
    (hholding : tunnel'.holding = tunnel.holding) :
    Ok { server with tunnels := server.tunnels.set i tunnel' } := by
  refine ⟨forall_mem_set h.tunnels hok, ?_⟩
  have hsame : (server.tunnels.map Tunnel.holding).set i tunnel.holding =
      server.tunnels.map Tunnel.holding := by
    obtain ⟨hi, rfl⟩ := List.getElem?_eq_some_iff.mp hget
    rw [← List.map_set, List.set_getElem_self]
  rw [List.map_set, hholding, hsame]
  exact h.sessions

/-- One tunnel gives its slot back. -/
theorem Ok.release (h : server.Ok) {i : ℕ} {tunnel tunnel' : Tunnel}
    (hget : server.tunnels[i]? = some tunnel) (hok : tunnel'.Ok)
    (hholding : tunnel.holding = some tunnel.source) (hholding' : tunnel'.holding = none) :
    Ok { server with
      sessions := server.sessions.release tunnel.source
      tunnels := server.tunnels.set i tunnel' } := by
  refine ⟨forall_mem_set h.tunnels hok, ?_⟩
  have hsessions := h.sessions
  have hplace : (server.tunnels.map Tunnel.holding)[i]? = some (some tunnel.source) := by
    rw [List.getElem?_map, hget, Option.map_some, hholding]
  rw [taken_set_free hplace] at hsessions
  rw [List.map_set, hholding']
  exact hsessions.release

theorem Ok.act (h : server.Ok) {event : Event} (horderly : server.orderly config event = true) :
    (server.act config event).Ok := by
  cases event with
  | arrive source stream connClosed =>
    simp only [Server.act]
    split
    · next sessions hacquire =>
      have hacquired : (server.sessions.acquire source).2 = true := by rw [hacquire]
      have hsessions := h.sessions.acquire hacquired
      rw [hacquire] at hsessions
      refine ⟨fun tunnel hmem ↦ ?_, by simpa [Tunnel.holding, Tunnel.new] using hsessions⟩
      rcases List.mem_append.mp hmem with hmem | hmem
      · exact h.tunnels tunnel hmem
      · rw [List.mem_singleton.mp hmem]
        exact Tunnel.ok_new source stream connClosed
    · exact h
  | move i move =>
    simp only [Server.act]
    split
    · exact h
    · next tunnel hget =>
      split
      · exact h
      · next tunnel' hmove =>
        have horderly' : tunnel.orderly config move = true := by
          simpa [Server.orderly, hget] using horderly
        have hok := (h.tunnels tunnel (List.mem_of_getElem? hget)).move horderly' hmove
        cases move with
        | release =>
          obtain ⟨hheld, hfree⟩ := Tunnel.move_release hmove
          exact h.release hget hok hheld hfree
        | _ => exact h.set hget hok (Tunnel.holding_move hmove nofun)
  | outside i outside =>
    simp only [Server.act]
    split
    · exact h
    · next tunnel hget =>
      exact h.set hget ((h.tunnels tunnel (List.mem_of_getElem? hget)).outside outside)
        (tunnel.holding_outside outside)
  | close => exact ⟨h.tunnels, h.sessions.close⟩
  | closeProxy => exact ⟨h.tunnels, h.sessions⟩

theorem Ok.run (h : server.Ok) {events : List Event}
    (horderly : server.orderlyRun config events = true) : (server.run config events).Ok := by
  induction events generalizing server with
  | nil => exact h
  | cons event events ih =>
    obtain ⟨hevent, hevents⟩ := Bool.and_eq_true_iff.mp horderly
    exact ih (h.act hevent) hevents

@[simp] theorem maxSessions_act (config : TrailerConfig) (server : Server) (event : Event) :
    (server.act config event).sessions.maxSessions = server.sessions.maxSessions := by
  cases event with
  | arrive source stream connClosed =>
    simp only [Server.act, Sessions.acquire]
    split_ifs <;> rfl
  | move i move =>
    simp only [Server.act]
    split
    · rfl
    · split
      · rfl
      · cases move <;> rfl
  | outside i outside =>
    simp only [Server.act]
    split <;> rfl
  | close => rfl
  | closeProxy => rfl

theorem maxSessions_run (config : TrailerConfig) (server : Server) (events : List Event) :
    (server.run config events).sessions.maxSessions = server.sessions.maxSessions := by
  induction events generalizing server with
  | nil => rfl
  | cons event events ih => exact (ih _).trans (maxSessions_act config server event)

end Server

/-! ### Slots -/

/-- In every run in which no capsule reader comes to a forbidden frame, every tunnel of a closed
connection that has not returned can go on, so one that cannot has given its slot back; and the
counters count exactly the tunnels that have not returned.

Assumes: no read of a capsule reader completes a forbidden frame before a read of its stream has
reported an error. -/
theorem slots_not_lost (config : TrailerConfig) (maxSessions : ℤ) (events : List Event)
    (h : (Server.start maxSessions).orderlyRun config events = true) :
    let server := (Server.start maxSessions).run config events
    (∀ tunnel ∈ server.tunnels, tunnel.connClosed = true → tunnel.phase ≠ .returned →
      tunnel.CanStep config server.proxyClosed) ∧
    (∀ tunnel ∈ server.tunnels, tunnel.connClosed = true →
      ¬ tunnel.CanStep config server.proxyClosed → tunnel.holding = none) ∧
    Exact server.sessions.active (server.tunnels.map Tunnel.holding)
      (if maxSessions ≤ 0 then 256 else maxSessions) 8 := by
  intro server
  have hok : server.Ok := (Server.ok_start maxSessions).run h
  have hstep : ∀ tunnel ∈ server.tunnels, tunnel.connClosed = true → tunnel.phase ≠ .returned →
      tunnel.CanStep config server.proxyClosed :=
    fun tunnel hmem hclosed hphase ↦ (hok.tunnels tunnel hmem).canStep hclosed hphase
  refine ⟨hstep, fun tunnel hmem hclosed hstuck ↦ ?_,
    exact_of_counts hok.sessions.active ?_ hok.sessions.count_le⟩
  · have hreturned := not_not.mp fun hphase ↦ hstuck (hstep tunnel hmem hclosed hphase)
    rw [Tunnel.holding, hreturned]
  · exact hok.sessions.total_le.trans (Server.maxSessions_run config _ events).le

/-- A client that opens a tunnel and closes the connection. -/
def servedTunnel : List Event :=
  [.arrive ['a'] .new false, .move 0 (.dial true), .move 0 .register, .move 0 .answer,
    .move 0 (.receiveDatagram ⟨0, 0⟩ fun _ _ ↦ true), .outside 0 .connectionCloses,
    .move 0 (.readFails .broken), .move 0 .closeStream, .move 0 .closeSocket,
    .move 0 (.readSocket none), .move 0 .endReceiving, .move 0 .wake,
    .move 0 (.receiveDatagram ⟨0, 0⟩ fun _ _ ↦ true), .move 0 .endSending, .move 0 .wait,
    .move 0 .leave, .move 0 .release]

def noTrailers : TrailerConfig := ⟨1024, fun _ ↦ false⟩

theorem slots_not_lost_served :
    (∀ tunnel ∈ ((Server.start 0).run noTrailers servedTunnel).tunnels,
      tunnel.connClosed = true ∧ tunnel.holding = none) ∧
    ((Server.start 0).run noTrailers servedTunnel).sessions.active.total = 0 := by
  have horderly : (Server.start 0).orderlyRun noTrailers servedTunnel = true := by
    decide +kernel
  obtain ⟨-, -, hexact⟩ := slots_not_lost noTrailers 0 servedTunnel horderly
  have hfree : ∀ tunnel ∈ ((Server.start 0).run noTrailers servedTunnel).tunnels,
      tunnel.connClosed = true ∧ tunnel.holding = none := by
    decide +kernel
  refine ⟨hfree, hexact.total.trans ?_⟩
  rw [List.countP_eq_zero.mpr]
  · rfl
  · intro place hplace
    obtain ⟨tunnel, hmem, rfl⟩ := List.mem_map.mp hplace
    simp [(hfree tunnel hmem).2]

/-- A client that opens a tunnel and sends a SETTINGS frame on its stream, which closes the
connection. -/
def settingsOnTunnel : List Event :=
  [.arrive ['a'] .new false, .move 0 (.dial true), .move 0 .register, .move 0 .answer,
    .move 0 (.receiveDatagram ⟨0, 0⟩ fun _ _ ↦ true), .move 0 (.read 0x04 none),
    .move 0 (.read 0x00 none), .move 0 .closeStream, .move 0 .closeSocket,
    .move 0 (.readSocket none), .move 0 .endReceiving]

/-- The tunnel waits for its sender, which nothing wakes, and still holds its slot. -/
theorem slot_lost :
    let server := (Server.start 0).run noTrailers settingsOnTunnel
    ∃ tunnel ∈ server.tunnels, tunnel.connClosed = true ∧ tunnel.phase = .waiting ∧
      (∀ move, tunnel.move noTrailers server.proxyClosed move = none) ∧
      server.sessions.active.total = 1 ∧ server.sessions.active.count ['a'] = 1 := by
  intro server
  have hphase : ∀ tunnel ∈ server.tunnels, tunnel.connClosed = true ∧ tunnel.phase = .waiting ∧
      tunnel.sender = .selecting ∧ tunnel.stream.hasData = false ∧ tunnel.receiver = .done := by
    decide
  have hsome : server.tunnels ≠ [] := by decide
  obtain ⟨tunnel, hmem⟩ := List.exists_mem_of_ne_nil _ hsome
  obtain ⟨hclosed, hwaiting, hselecting, hdata, hdone⟩ := hphase tunnel hmem
  refine ⟨tunnel, hmem, hclosed, hwaiting, fun move ↦ ?_, by decide, by decide⟩
  cases move <;> simp [Tunnel.move, hwaiting, hselecting, hdata, hdone]

end QortalRelay.Tunnels
