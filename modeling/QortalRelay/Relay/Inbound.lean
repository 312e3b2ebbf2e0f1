import QortalRelay.Http3.Varint
import QortalRelay.Relay.Delivery

/-!
# From the connection to the sockets

The way of a datagram from a client: `HandleDatagramFrame` puts it to the queue of its QUIC
connection, the loop `receiveDatagrams` takes it from there, reads the quarter stream identifier and
hands the rest to the stream that it names, and `proxyConnSend` of that stream's tunnel writes the
payload to the socket. The machine interleaves these steps with every other step of the tunnels of
the connection.

Whatever the interleaving, what is written to the socket of a tunnel is a subsequence of the
payloads that were sent to its stream (`datagrams_stay_on_their_stream`): nothing is written twice,
out of order or to another tunnel. The loop and the tunnels wait on channels that hold one token,
and none of them waits without a token while there is something for it
(`datagram_receivers_not_left_waiting`).
-/

set_option autoImplicit false
set_option relaxedAutoImplicit false

namespace QortalRelay

open Foundation Foundation.Encoding Foundation.Trace Datagrams Http3

/-! ### The connection -/

namespace Inbound

open Tunnels

/-- A stream of the connection: its request is being read, or its tunnel is served. -/
inductive Handling
  | request (stream : TrackedStream)
  | tunnel (tunnel : Tunnel)

/-- A stream of the connection, before it is a tunnel or after. -/
structure Port where
  id : ℕ
  handling : Handling

namespace Port

def stream (port : Port) : TrackedStream :=
  match port.handling with
  | .request stream => stream
  | .tunnel tunnel => tunnel.stream

def withStream (port : Port) (stream : TrackedStream) : Port :=
  match port.handling with
  | .request _ => ⟨port.id, .request stream⟩
  | .tunnel tunnel => ⟨port.id, .tunnel { tunnel with stream := stream }⟩

end Port

/-- Where `receiveDatagrams` stands. It is started with the settings of the client. -/
inductive Loop
  | unstarted
  | receiving
  | selecting
  | routing (data : Bytes)
  /-- The stream has been looked up. -/
  | delivering (i : ℕ) (data : Bytes)
  | done

/-- The receiving side of a connection: its own queue, the loop that reads it and the streams. -/
structure RawConn where
  rcvQueue : Queue
  rcvd : Bool
  closed : Bool
  loop : Loop
  ports : List Port
  /-- What has been written to the sockets, with the stream of the tunnel. -/
  written : List (ℕ × Bytes)

/-- A frame arrives, the loop of the connection makes a step, or a tunnel does. -/
inductive Event
  | handleDatagramFrame (data : Bytes) (now : Time) (surroundings : Surroundings)
  | startLoop
  | receive (now : Time) (surroundings : Surroundings)
  | wake
  | fail
  | route
  | deliver (now : Time) (surroundings : Surroundings)
  | enableBurst
  | closeQueue
  | closeChannel
  | track (id : ℕ)
  | closeSend (i : ℕ) (error : StreamError)
  | closeReceive (i : ℕ) (error : StreamError)
  | serve (i : ℕ) (source : Text) (connClosed : Bool)
  | move (i : ℕ) (proxyClosed : Bool) (move : Move)
  | outside (i : ℕ) (proxyClosed : Bool) (outside : Outside)

def maxDatagramRcvQueueLen : ℤ := 128

def maxQuarterStreamID : ℕ := 2 ^ 60 - 1

namespace RawConn

def start : RawConn := ⟨.new maxDatagramRcvQueueLen, false, false, .unstarted, [], []⟩

/-- The entry of the map of streams. A stream leaves the map when both of its sides have ended. -/
def lookup (conn : RawConn) (id : ℕ) : Option ℕ :=
  conn.ports.findIdx? fun port ↦ port.id == id && port.stream.tracked

/-- What `receiveDatagrams` does with a datagram of the connection. -/
def route (conn : RawConn) (data : Bytes) : Loop :=
  match parseVarint data with
  | none => .done
  | some (quarterStreamID, payload) =>
    if quarterStreamID > maxQuarterStreamID then .done
    else
      match conn.lookup (4 * quarterStreamID) with
      | none => .receiving
      | some i => .delivering i payload

/-- A step on one stream; nothing happens where there is none. -/
def atPort (conn : RawConn) (i : ℕ) (step : Port → Port) : RawConn :=
  match conn.ports[i]? with
  | none => conn
  | some port => { conn with ports := conn.ports.set i (step port) }

def moveAt (config : TrailerConfig) (conn : RawConn) (i : ℕ) (proxyClosed : Bool) (move : Move) :
    RawConn :=
  match conn.ports[i]? with
  | some ⟨id, .tunnel tunnel⟩ =>
    match tunnel.move config proxyClosed move with
    | some tunnel' =>
      { conn with
        ports := conn.ports.set i ⟨id, .tunnel tunnel'⟩
        written := conn.written ++ (tunnel.wrote move).toList.map fun payload ↦ (id, payload) }
    | none => conn
  | _ => conn

/-- The steps of the connection, of its loop and of its streams. A step that cannot be taken changes
nothing. -/
def act (config : TrailerConfig) (conn : RawConn) : Event → RawConn
  | .handleDatagramFrame data now surroundings =>
    match (Operation.push data now).perform surroundings conn.rcvQueue with
    | (queue, .pushed true) => { conn with rcvQueue := queue, rcvd := true }
    | (queue, _) => { conn with rcvQueue := queue }
  | .startLoop =>
    match conn.loop with
    | .unstarted => { conn with loop := .receiving }
    | _ => conn
  | .receive now surroundings =>
    match conn.loop with
    | .receiving =>
      match (Operation.pop now).perform surroundings conn.rcvQueue with
      | (queue, .popped (some data)) => { conn with rcvQueue := queue, loop := .routing data }
      | (queue, _) => { conn with rcvQueue := queue, loop := .selecting }
    | _ => conn
  | .wake =>
    match conn.loop, conn.rcvd with
    | .selecting, true => { conn with rcvd := false, loop := .receiving }
    | _, _ => conn
  | .fail =>
    match conn.loop, conn.closed with
    | .selecting, true => { conn with loop := .done }
    | _, _ => conn
  | .route =>
    match conn.loop with
    | .routing data => { conn with loop := conn.route data }
    | _ => conn
  | .deliver now surroundings =>
    match conn.loop with
    | .delivering i data =>
      { conn.atPort i fun port ↦
          port.withStream (port.stream.enqueueDatagram data now surroundings) with
        loop := .receiving }
    | _ => conn
  | .enableBurst =>
    { conn with rcvQueue := (Operation.enableBurst.perform (fun _ _ ↦ true) conn.rcvQueue).1 }
  | .closeQueue =>
    { conn with rcvQueue := (Operation.close.perform (fun _ _ ↦ true) conn.rcvQueue).1 }
  | .closeChannel => { conn with closed := true }
  -- A connection does not use the identifier of a stream again.
  | .track id =>
    if conn.ports.any (·.id == id) then conn
    else { conn with ports := conn.ports ++ [⟨id, .request .new⟩] }
  | .closeSend i error =>
    conn.atPort i fun port ↦
      match port.handling with
      | .request stream => ⟨port.id, .request (stream.closeSend error)⟩
      | .tunnel _ => port
  | .closeReceive i error =>
    conn.atPort i fun port ↦
      match port.handling with
      | .request stream => ⟨port.id, .request (stream.closeReceive error)⟩
      | .tunnel _ => port
  | .serve i source connClosed =>
    conn.atPort i fun port ↦
      match port.handling with
      | .request stream => ⟨port.id, .tunnel (.new source stream connClosed)⟩
      | .tunnel _ => port
  | .move i proxyClosed move => conn.moveAt config i proxyClosed move
  | .outside i proxyClosed outside =>
    match outside with
    -- Datagrams come from the loop.
    | .datagram _ _ _ => conn
    | outside =>
      conn.atPort i fun port ↦
        match port.handling with
        | .request _ => port
        | .tunnel tunnel => ⟨port.id, .tunnel (tunnel.outside proxyClosed outside)⟩

def run (config : TrailerConfig) (conn : RawConn) (events : List Event) : RawConn :=
  events.foldl (act config) conn

end RawConn

/-! ### Datagrams on their way -/

def Event.frame? : Event → Option Bytes
  | handleDatagramFrame data _ _ => some data
  | _ => none

/-- The payload that a datagram of the connection has for the tunnel of a stream. -/
def payloadFor (id : ℕ) (data : Bytes) : Option Bytes :=
  match parseVarint data with
  | none => none
  | some (quarterStreamID, payload) =>
    if quarterStreamID ≤ maxQuarterStreamID ∧ 4 * quarterStreamID = id then payloadOf payload
    else none

namespace Loop

/-- What the loop has taken and not looked up yet, as far as it is for the stream. -/
def passing (id : ℕ) : Loop → List Bytes
  | routing data => (payloadFor id data).toList
  | _ => []

/-- What the loop has for the stream it has looked up. -/
def handing (i : ℕ) : Loop → List Bytes
  | delivering j data => if j = i then (payloadOf data).toList else []
  | _ => []

end Loop

namespace Port

def pending (port : Port) : List Bytes :=
  match port.handling with
  | .request stream => stream.queue.waiting.filterMap payloadOf
  | .tunnel tunnel => tunnel.pending

def Attentive (port : Port) : Prop :=
  match port.handling with
  | .request stream => stream.Ok
  | .tunnel tunnel => tunnel.Attentive

/-- A datagram goes to the end of what waits at the stream. -/
theorem enqueueDatagram {port : Port} (h : port.Attentive) (data : Bytes) (now : Time)
    (surroundings : Surroundings) :
    let port' := port.withStream (port.stream.enqueueDatagram data now surroundings)
    port'.id = port.id ∧ port'.Attentive ∧
      port'.pending.Sublist (port.pending ++ (payloadOf data).toList) := by
  have hpayload := filterMap_singleton payloadOf data
  obtain ⟨id, handling⟩ := port
  cases handling with
  | request stream =>
    have hok : stream.Ok := h
    refine ⟨rfl, hok.enqueueDatagram data now surroundings, ?_⟩
    have hsub := (hok.waiting_enqueueDatagram data now surroundings).filterMap payloadOf
    rwa [List.filterMap_append, hpayload] at hsub
  | tunnel tunnel =>
    have hattentive : tunnel.Attentive := h
    refine ⟨rfl, ⟨hattentive.stream.enqueueDatagram data now surroundings, fun hsender ↦
      TrackedStream.Told.enqueueDatagram hattentive.stream (hattentive.told hsender) data now
        surroundings⟩, ?_⟩
    have hsub := (hattentive.stream.waiting_enqueueDatagram data now surroundings).filterMap
      payloadOf
    rw [List.filterMap_append, hpayload] at hsub
    simp only [pending, Tunnel.pending, List.append_assoc]
    exact hsub.append_left _

end Port

namespace RawConn

def transit (conn : RawConn) (id : ℕ) : List Bytes :=
  conn.loop.passing id ++ conn.rcvQueue.waiting.filterMap (payloadFor id)

/-- What has been written to the socket of the tunnel of a stream. -/
def writtenTo (conn : RawConn) (id : ℕ) : List Bytes :=
  conn.written.filterMap fun entry ↦ if entry.1 = id then some entry.2 else none

/-- What has been written for a stream, what waits at the stream and what is on its way to it came
in this order. -/
def Carried (arrived : List Bytes) (conn : RawConn) (id : ℕ) (here : List Bytes) : Prop :=
  (conn.writtenTo id ++ (here ++ conn.transit id)).Sublist (arrived.filterMap (payloadFor id))

/-- Holds after any events: for each stream, what is written, what waits and what is on its way came
in this order, and the loop sleeps over a packet only with a token to wake it. -/
structure Sound (arrived : List Bytes) (conn : RawConn) : Prop where
  rcvQueue : conn.rcvQueue.Sound True
  attentive : ∀ port ∈ conn.ports, port.Attentive
  carried : ∀ (i : ℕ) (port : Port), conn.ports[i]? = some port →
    conn.Carried arrived port.id (port.pending ++ conn.loop.handing i)
  strangers : ∀ id ∉ conn.ports.map Port.id, conn.Carried arrived id []
  distinct : (conn.ports.map Port.id).Nodup
  inside : ∀ i data, conn.loop = .delivering i data → i < conn.ports.length
  told : conn.loop = .selecting → conn.rcvd = true ∨ conn.closed = true ∨ conn.rcvQueue.waiting = []

theorem sound_start : start.Sound [] where
  rcvQueue := Queue.sound_new _ fun _ ↦ by decide
  attentive := by simp [start]
  carried := by simp [start]
  strangers _ _ := List.Sublist.refl _
  distinct := by simp [start]
  inside := nofun
  told := nofun

variable {arrived : List Bytes} {conn conn' : RawConn}

/-- Assumes: what is written and what is left on the way was there or has arrived, in this order. -/
theorem Carried.step {id : ℕ} {here here' new : List Bytes} (h : conn.Carried arrived id here)
    (wrote : List Bytes) (hwritten : conn'.writtenTo id = conn.writtenTo id ++ wrote)
    (hsub : (wrote ++ (here' ++ conn'.transit id)).Sublist
      (here ++ (conn.transit id ++ new.filterMap (payloadFor id)))) :
    conn'.Carried (arrived ++ new) id here' := by
  have hfirst := hsub.append_left (conn.writtenTo id)
  have hsecond := List.Sublist.append_right h (new.filterMap (payloadFor id))
  rw [Carried, hwritten, List.filterMap_append, List.append_assoc]
  refine hfirst.trans ?_
  rwa [List.append_assoc, List.append_assoc] at hsecond

/-- Assumes: the streams and what has been written stay as they are, and what the loop and the queue
have was there or has arrived, in this order. -/
theorem Sound.withLoop (h : conn.Sound arrived) {queue : Queue} {rcvd closed : Bool} {loop : Loop}
    {new : List Bytes} (hqueue : queue.Sound True)
    (hports : ∀ (i : ℕ) (port : Port), conn.ports[i]? = some port →
      (loop.handing i ++
        (loop.passing port.id ++ queue.waiting.filterMap (payloadFor port.id))).Sublist
        (conn.loop.handing i ++ (conn.transit port.id ++ new.filterMap (payloadFor port.id))))
    (hstrangers : ∀ id, (loop.passing id ++ queue.waiting.filterMap (payloadFor id)).Sublist
      (conn.transit id ++ new.filterMap (payloadFor id)))
    (hinside : ∀ i data, loop = .delivering i data → i < conn.ports.length)
    (htold : loop = .selecting → rcvd = true ∨ closed = true ∨ queue.waiting = []) :
    Sound (arrived ++ new)
      { conn with rcvQueue := queue, rcvd := rcvd, closed := closed, loop := loop } where
  rcvQueue := hqueue
  attentive := h.attentive
  carried i port hport := by
    refine (h.carried i port hport).step [] (List.append_nil _).symm ?_
    rw [List.nil_append, List.append_assoc, List.append_assoc]
    exact (hports i port hport).append_left _
  strangers id hid :=
    (h.strangers id hid).step [] (List.append_nil _).symm (hstrangers id)
  distinct := h.distinct
  inside := hinside
  told := htold

theorem filterMap_written (id id' : ℕ) (written : List (ℕ × Bytes)) (wrote : List Bytes) :
    (written ++ wrote.map fun payload ↦ (id', payload)).filterMap
        (fun entry ↦ if entry.1 = id then some entry.2 else none) =
      written.filterMap (fun entry ↦ if entry.1 = id then some entry.2 else none) ++
        (if id' = id then wrote else []) := by
  rw [List.filterMap_append]
  congr 1
  by_cases hid : id' = id <;> simp [hid, List.filterMap_map]

/-- Assumes: a stream keeps its identifier; what is written, what waits at it and what the loop has
for it was there, in this order; and the loop has nothing new for the other streams. -/
theorem Sound.setPort (h : conn.Sound arrived) (wrote : List Bytes) (loop : Loop) {i : ℕ}
    {port port' : Port} (hport : conn.ports[i]? = some port) (hid : port'.id = port.id)
    (hattentive : port'.Attentive)
    (hpending : (wrote ++ (port'.pending ++ loop.handing i)).Sublist
      (port.pending ++ conn.loop.handing i))
    (hother : loop = conn.loop ∨ loop = .receiving) :
    Sound arrived { conn with
      ports := conn.ports.set i port'
      loop := loop
      written := conn.written ++ wrote.map fun payload ↦ (port.id, payload) } := by
  have hids : (conn.ports.set i port').map Port.id = conn.ports.map Port.id :=
    map_set_of_eq Port.id hport hid
  have htransit : ∀ id, (loop.passing id ++
      conn.rcvQueue.waiting.filterMap (payloadFor id)).Sublist (conn.transit id) := by
    intro id
    rcases hother with rfl | rfl
    · exact List.Sublist.refl _
    · exact List.sublist_append_right _ _
  have hhanding : ∀ k, (loop.handing k).Sublist (conn.loop.handing k) := by
    intro k
    rcases hother with rfl | rfl
    · exact List.Sublist.refl _
    · exact List.nil_sublist _
  rw [← List.append_nil arrived]
  refine ⟨h.rcvQueue, forall_mem_set h.attentive hattentive, ?_, ?_, ?_, ?_, ?_⟩
  · intro k other hk
    rcases getElem?_set_cases hk with ⟨rfl, rfl⟩ | ⟨hki, hold⟩
    · rw [hid]
      refine (h.carried k port hport).step wrote ?_ ?_
      · rw [writtenTo, filterMap_written, if_pos rfl]
        rfl
      · rw [List.filterMap_nil, List.append_nil, ← List.append_assoc]
        exact hpending.append (htransit port.id)
    · have hne : port.id ≠ other.id := fun heq ↦
        hki (index_eq_of_nodup h.distinct hport hold heq).symm
      refine (h.carried k other hold).step [] ?_ ?_
      · rw [writtenTo, filterMap_written, if_neg hne]
        rfl
      · rw [List.filterMap_nil, List.append_nil]
        exact ((hhanding k).append_left _).append (htransit other.id)
  · intro id hstranger
    rw [hids] at hstranger
    refine (h.strangers id hstranger).step [] ?_ ?_
    · have hne : port.id ≠ id :=
        fun heq ↦ hstranger (heq ▸ List.mem_map_of_mem (List.mem_of_getElem? hport))
      rw [writtenTo, filterMap_written, if_neg hne]
      rfl
    · rw [List.filterMap_nil, List.append_nil]
      exact htransit id
  · rw [hids]
    exact h.distinct
  · intro k data hloop
    rw [List.length_set]
    rcases hother with rfl | rfl
    · exact h.inside k data hloop
    · cases hloop
  · intro hloop
    rcases hother with rfl | rfl
    · exact h.told hloop
    · cases hloop

/-- A step on a stream that adds nothing to what waits there. -/
theorem Sound.atPort (h : conn.Sound arrived) (i : ℕ) {step : Port → Port}
    (hstep : ∀ port, port.Attentive → (step port).id = port.id ∧ (step port).Attentive ∧
      (step port).pending.Sublist port.pending) :
    (conn.atPort i step).Sound arrived := by
  unfold RawConn.atPort
  split
  · exact h
  · next port hport =>
    obtain ⟨hid, hattentive, hpending⟩ :=
      hstep port (h.attentive port (List.mem_of_getElem? hport))
    simpa using h.setPort [] conn.loop hport hid hattentive (hpending.append_right _) (Or.inl rfl)

theorem Sound.moveAt (h : conn.Sound arrived) (config : TrailerConfig) (i : ℕ) (proxyClosed : Bool)
    (move : Move) : (conn.moveAt config i proxyClosed move).Sound arrived := by
  unfold RawConn.moveAt
  split
  · next id tunnel hport =>
    split
    · next tunnel' hmove =>
      have hattentive : tunnel.Attentive := h.attentive _ (List.mem_of_getElem? hport)
      obtain ⟨hnew, hpending⟩ := hattentive.effect (Tunnel.effect_of_move hmove)
      have hsub := hpending.append_right (conn.loop.handing i)
      rw [List.append_assoc] at hsub
      exact h.setPort _ conn.loop hport rfl (⟨hnew.1, hnew.2⟩ : tunnel'.Attentive) hsub (Or.inl rfl)
    · exact h
  · exact h

/-- `enqueueDatagram` on the stream that the loop has looked up. -/
theorem Sound.deliver (h : conn.Sound arrived) {i : ℕ} {data : Bytes}
    (hloop : conn.loop = .delivering i data) (now : Time) (surroundings : Surroundings) :
    Sound arrived { conn.atPort i fun port ↦
        port.withStream (port.stream.enqueueDatagram data now surroundings) with
      loop := .receiving } := by
  have hi := h.inside i data hloop
  have hport : conn.ports[i]? = some conn.ports[i] := List.getElem?_eq_getElem hi
  have hold := h.attentive _ (List.getElem_mem hi)
  obtain ⟨hid, hattentive, hpending⟩ := Port.enqueueDatagram hold data now surroundings
  have hset := h.setPort [] .receiving hport hid hattentive (by
    rw [hloop, Loop.handing, if_pos rfl]
    simpa [Loop.handing] using hpending) (Or.inr rfl)
  simpa [RawConn.atPort, hport] using hset

/-- Assumes: the loop goes on with no datagram in its hands, and does not wait. -/
theorem Sound.advance (h : conn.Sound arrived) {rcvd : Bool} {loop : Loop}
    (hloop : loop = .receiving ∨ loop = .done) :
    Sound arrived { conn with rcvd := rcvd, loop := loop } := by
  have hnone : (∀ i, loop.handing i = []) ∧ ∀ id, loop.passing id = [] := by
    rcases hloop with rfl | rfl <;> exact ⟨fun _ ↦ rfl, fun _ ↦ rfl⟩
  rw [← List.append_nil arrived]
  refine h.withLoop h.rcvQueue (fun i port _ ↦ ?_) (fun id ↦ ?_) ?_ ?_
  · rw [hnone.1, hnone.2, List.filterMap_nil, List.append_nil]
    exact (List.sublist_append_right _ _).trans (List.sublist_append_right _ _)
  · rw [hnone.2, List.filterMap_nil, List.append_nil]
    exact List.sublist_append_right _ _
  · rcases hloop with rfl | rfl <;> nofun
  · rcases hloop with rfl | rfl <;> nofun

/-- What the loop does with a datagram: the stream that it finds is the one that is named. -/
theorem Sound.route (h : conn.Sound arrived) {data : Bytes} (hloop : conn.loop = .routing data) :
    Sound arrived { conn with loop := conn.route data } := by
  unfold RawConn.route
  split
  · exact h.advance (Or.inr rfl)
  · next quarterStreamID payload hparse =>
    split_ifs with hlarge
    · exact h.advance (Or.inr rfl)
    · split
      · exact h.advance (Or.inl rfl)
      · next i hlookup =>
        obtain ⟨hi, hfound, -⟩ := List.findIdx?_eq_some_iff_getElem.mp hlookup
        rw [Bool.and_eq_true, beq_iff_eq] at hfound
        rw [← List.append_nil arrived]
        refine h.withLoop h.rcvQueue (fun k port hk ↦ ?_) (fun id ↦ ?_) ?_ nofun
        · rw [List.filterMap_nil, List.append_nil, hloop, transit, hloop]
          by_cases hki : i = k
          · subst hki
            rw [List.getElem?_eq_getElem hi] at hk
            obtain rfl := Option.some.inj hk
            simp [Loop.handing, Loop.passing, payloadFor, hparse, hfound.1, not_lt.mp hlarge]
          · simp [Loop.handing, Loop.passing, hki]
        · rw [List.filterMap_nil, List.append_nil, transit]
          exact List.sublist_append_right _ _
        · intro k data' heq
          cases heq
          exact hi

theorem Sound.track (h : conn.Sound arrived) {id : ℕ} (hfresh : id ∉ conn.ports.map Port.id) :
    Sound arrived { conn with ports := conn.ports ++ [⟨id, .request .new⟩] } where
  rcvQueue := h.rcvQueue
  attentive port hport := by
    rcases List.mem_append.mp hport with hold | hnew
    · exact h.attentive port hold
    · obtain rfl := List.mem_singleton.mp hnew
      exact TrackedStream.ok_new
  carried i port hport := by
    rcases getElem?_snoc_cases hport with hold | ⟨rfl, rfl⟩
    · exact h.carried i port hold
    · have hhanding : conn.loop.handing conn.ports.length = [] := by
        cases hloop : conn.loop with
        | delivering j data => exact if_neg (h.inside j data hloop).ne
        | _ => rfl
      rw [hhanding]
      exact h.strangers id hfresh
  strangers id' hid' := by
    rw [List.map_append, List.mem_append, not_or] at hid'
    exact h.strangers id' hid'.1
  distinct := by
    rw [List.map_append]
    exact h.distinct.append (List.nodup_singleton _) (by simpa using hfresh)
  inside i data hloop := by
    rw [List.length_append]
    exact Nat.lt_add_right _ (h.inside i data hloop)
  told := h.told

/-- An operation on the queue of the connection that is given nothing and gives nothing out. -/
theorem Sound.perform (h : conn.Sound arrived) {operation : Operation}
    (hoffered : operation.offered = none) :
    Sound arrived
      { conn with rcvQueue := (operation.perform (fun _ _ ↦ true) conn.rcvQueue).1 } := by
  obtain ⟨-, hsound, -⟩ := operation.perform_spec h.rcvQueue fun _ _ ↦ true
  have hsub := operation.waiting_sublist h.rcvQueue fun _ _ ↦ true
  rw [hoffered, Option.toList_none, List.append_nil] at hsub
  replace hsub := (List.sublist_append_right _ _).trans hsub
  rw [← List.append_nil arrived]
  refine h.withLoop hsound (fun i port _ ↦ ?_) (fun id ↦ ?_) h.inside fun hloop ↦ ?_
  · rw [List.filterMap_nil, List.append_nil]
    exact ((hsub.filterMap _).append_left _).append_left _
  · rw [List.filterMap_nil, List.append_nil]
    exact (hsub.filterMap _).append_left _
  · rcases h.told hloop with hrcvd | hclosed | hempty
    · exact Or.inl hrcvd
    · exact Or.inr (Or.inl hclosed)
    · rw [hempty] at hsub
      exact Or.inr (Or.inr (List.sublist_nil.mp hsub))

/-- `HandleDatagramFrame`. -/
theorem Sound.handleDatagramFrame (h : conn.Sound arrived) (config : TrailerConfig) (data : Bytes)
    (now : Time) (surroundings : Surroundings) :
    (conn.act config (.handleDatagramFrame data now surroundings)).Sound (arrived ++ [data]) := by
  obtain ⟨-, hsound, -⟩ := (Operation.push data now).perform_spec h.rcvQueue surroundings
  have hsub : List.Sublist _ (conn.rcvQueue.waiting ++ [data]) :=
    (List.sublist_append_right _ _).trans
      ((Operation.push data now).waiting_sublist h.rcvQueue surroundings)
  have hpush : ∀ queue result rcvd,
      (Operation.push data now).perform surroundings conn.rcvQueue = (queue, result) →
      (conn.loop = .selecting → rcvd = true ∨ conn.closed = true ∨ queue.waiting = []) →
      Sound (arrived ++ [data]) { conn with rcvQueue := queue, rcvd := rcvd } := by
    intro queue result rcvd heq htold
    rw [heq] at hsound hsub
    have hpayloads : ∀ id, (conn.loop.passing id ++
        queue.waiting.filterMap (payloadFor id)).Sublist
        (conn.transit id ++ [data].filterMap (payloadFor id)) := by
      intro id
      rw [transit, List.append_assoc, ← List.filterMap_append]
      exact (hsub.filterMap _).append_left _
    exact h.withLoop hsound (fun i port _ ↦ (hpayloads port.id).append_left _) hpayloads
      h.inside htold
  simp only [RawConn.act]
  split
  · next queue heq => exact hpush queue _ true heq fun _ ↦ Or.inl rfl
  · next queue result hrefused heq =>
    refine hpush queue result conn.rcvd heq fun hloop ↦
      (h.told hloop).imp_right (Or.imp_right fun hempty ↦ ?_)
    have hnil := waiting_eq_nil_of_push h.rcvQueue data now surroundings hempty (by
      rw [heq]
      exact fun hpushed ↦ hrefused hpushed)
    rwa [heq] at hnil

/-- `Receive` with the lock. -/
theorem Sound.receive (h : conn.Sound arrived) (config : TrailerConfig) (now : Time)
    (surroundings : Surroundings) :
    (conn.act config (.receive now surroundings)).Sound arrived := by
  obtain ⟨-, hsound, -⟩ := (Operation.pop now).perform_spec h.rcvQueue surroundings
  have hsub := (Operation.pop now).waiting_sublist h.rcvQueue surroundings
  rw [show (Operation.pop now).offered = none from rfl, Option.toList_none, List.append_nil] at hsub
  simp only [RawConn.act]
  split
  · next hloop =>
    have htransit : ∀ id, conn.transit id = conn.rcvQueue.waiting.filterMap (payloadFor id) := by
      intro id
      rw [transit, hloop]
      rfl
    split
    · next queue data heq =>
      rw [heq] at hsound hsub
      have hpayloads : ∀ id, (Loop.passing id (.routing data) ++
          queue.waiting.filterMap (payloadFor id)).Sublist (conn.transit id) := by
        intro id
        have hfilter := hsub.filterMap (payloadFor id)
        rwa [List.filterMap_append, poppedData, Option.toList_some, filterMap_singleton,
          ← htransit] at hfilter
      rw [← List.append_nil arrived]
      refine h.withLoop hsound (fun i port _ ↦ ?_) (fun id ↦ ?_) (by simp) (by simp)
      · rw [List.filterMap_nil, List.append_nil]
        exact (hpayloads port.id).trans (List.sublist_append_right _ _)
      · rw [List.filterMap_nil, List.append_nil]
        exact hpayloads id
    · next queue result hsome heq =>
      have hempty := waiting_eq_nil_of_pop h.rcvQueue now surroundings (by
        rw [heq]
        exact poppedData_eq_none hsome)
      rw [heq] at hsound hempty
      rw [← List.append_nil arrived]
      refine h.withLoop hsound (fun i port _ ↦ ?_) (fun id ↦ ?_) (by simp) fun _ ↦
        Or.inr (Or.inr hempty)
      · rw [hempty]
        exact List.nil_sublist _
      · rw [hempty]
        exact List.nil_sublist _
  · exact h

theorem Sound.act (h : conn.Sound arrived) (config : TrailerConfig) {event : Event}
    (hframe : event.frame? = none) : (conn.act config event).Sound arrived := by
  cases event with
  | handleDatagramFrame data now surroundings => cases hframe
  | receive now surroundings => exact h.receive config now surroundings
  | startLoop =>
    simp only [RawConn.act]
    split
    · exact h.advance (Or.inl rfl)
    · exact h
  | wake =>
    simp only [RawConn.act]
    split
    · exact h.advance (Or.inl rfl)
    · exact h
  | fail =>
    simp only [RawConn.act]
    split
    · exact h.advance (Or.inr rfl)
    · exact h
  | closeChannel =>
    exact ⟨h.rcvQueue, h.attentive, h.carried, h.strangers, h.distinct, h.inside,
      fun _ ↦ Or.inr (Or.inl rfl)⟩
  | route =>
    simp only [RawConn.act]
    split
    · next data hloop => exact h.route hloop
    · exact h
  | deliver now surroundings =>
    simp only [RawConn.act]
    split
    · next i data hloop => exact h.deliver hloop now surroundings
    · exact h
  | enableBurst => exact h.perform rfl
  | closeQueue => exact h.perform rfl
  | track id =>
    simp only [RawConn.act]
    split_ifs with hknown
    · exact h
    · refine h.track fun hmem ↦ hknown ?_
      obtain ⟨port, hport, hid⟩ := List.mem_map.mp hmem
      exact List.any_eq_true.mpr ⟨port, hport, by simpa using hid⟩
  | closeSend i error =>
    refine h.atPort i fun port hport ↦ ?_
    obtain ⟨id, handling⟩ := port
    cases handling with
    | request stream =>
      have hok : stream.Ok := hport
      refine ⟨rfl, hok.closeSend error, ?_⟩
      simp only [Port.pending, TrackedStream.queue_closeSend]
      exact List.Sublist.refl _
    | tunnel tunnel => exact ⟨rfl, hport, List.Sublist.refl _⟩
  | closeReceive i error =>
    refine h.atPort i fun port hport ↦ ?_
    obtain ⟨id, handling⟩ := port
    cases handling with
    | request stream =>
      have hok : stream.Ok := hport
      exact ⟨rfl, hok.closeReceive error, (hok.waiting_closeReceive error).filterMap _⟩
    | tunnel tunnel => exact ⟨rfl, hport, List.Sublist.refl _⟩
  | serve i source connClosed =>
    refine h.atPort i fun port hport ↦ ?_
    obtain ⟨id, handling⟩ := port
    cases handling with
    | request stream => exact ⟨rfl, ⟨hport, nofun⟩, List.Sublist.refl _⟩
    | tunnel tunnel => exact ⟨rfl, hport, List.Sublist.refl _⟩
  | move i proxyClosed move => exact h.moveAt config i proxyClosed move
  | outside i proxyClosed outside =>
    simp only [RawConn.act]
    split
    · exact h
    · next hdatagram =>
      refine h.atPort i fun port hport ↦ ?_
      obtain ⟨id, handling⟩ := port
      cases handling with
      | request stream => exact ⟨rfl, hport, List.Sublist.refl _⟩
      | tunnel tunnel =>
        have hattentive : tunnel.Attentive := hport
        obtain ⟨hnew, hpending⟩ := hattentive.effect
          (Tunnel.effect_of_outside proxyClosed hdatagram)
        exact ⟨rfl, ⟨hnew.1, hnew.2⟩, hpending⟩

theorem Sound.run (h : conn.Sound arrived) (config : TrailerConfig) (events : List Event) :
    (conn.run config events).Sound (arrived ++ events.filterMap Event.frame?) := by
  induction events generalizing conn arrived with
  | nil => simpa [RawConn.run] using h
  | cons event events ih =>
    rw [RawConn.run, List.foldl_cons]
    cases hframe : event.frame? with
    | none => simpa [hframe, RawConn.run] using ih (h.act config hframe)
    | some data =>
      cases event with
      | handleDatagramFrame data' now surroundings =>
        obtain rfl := Option.some.inj hframe
        simpa [Event.frame?, RawConn.run] using
          ih (h.handleDatagramFrame config data' now surroundings)
      | _ => cases hframe

end RawConn

/-! ### Results -/

/-- What `proxyConnSend` writes for a datagram of its stream: the payload after a context identifier
of zero, if it is no longer than a UDP payload may be. -/
theorem payloadOf_eq_some_iff {data payload : Bytes} :
    payloadOf data = some payload ↔
      parseVarint data = some (0, payload) ∧ payload.length ≤ maxUDPPayloadSize := by
  unfold payloadOf forward
  cases hparse : parseVarint data with
  | none => simp
  | some parsed =>
    obtain ⟨contextID, rest⟩ := parsed
    by_cases hcontext : contextID = 0
    · by_cases hlength : rest.length > maxUDPPayloadSize
      · simp only [hcontext, hlength, ne_eq, not_true_eq_false, if_false, if_true,
          Option.some.injEq, Prod.mk.injEq, true_and, reduceCtorEq, false_iff, not_and]
        rintro rfl
        omega
      · simp only [hcontext, hlength, ne_eq, not_true_eq_false, if_false, Option.some.injEq,
          Prod.mk.injEq, true_and]
        constructor
        · rintro rfl
          exact ⟨rfl, by omega⟩
        · exact fun h ↦ h.1
    · simp [hcontext]

theorem exists_frame_of_payloadFor {id : ℕ} {data payload : Bytes}
    (h : payloadFor id data = some payload) : payload.length ≤ maxUDPPayloadSize ∧
      ∃ quarterStreamID t s, id = 4 * quarterStreamID ∧
        data = wire t quarterStreamID ++ (wire s 0 ++ payload) := by
  unfold payloadFor at h
  split at h
  · cases h
  · next quarterStreamID rest hparse =>
    split_ifs at h with hid
    obtain ⟨hcontext, hlength⟩ := payloadOf_eq_some_iff.mp h
    obtain ⟨t, -, -, rfl⟩ := exists_wire_of_parseVarint hparse
    obtain ⟨s, -, -, rfl⟩ := exists_wire_of_parseVarint hcontext
    exact ⟨hlength, quarterStreamID, t, s, hid.2.symm, rfl⟩

/-- In every run of a connection, whatever comes from the client and from the network and however
the steps of the loop and of the tunnels are interleaved, what is written to the socket of the
tunnel of a stream is a subsequence of the payloads of the datagrams that name the stream: in the
order of their arrival, each at most once, and none of another stream. Such a datagram is the
quarter of the stream identifier, a context identifier of zero and the payload, which is no longer
than a UDP payload may be. -/
theorem datagrams_stay_on_their_stream (config : TrailerConfig) (events : List Event) (id : ℕ) :
    ((RawConn.start.run config events).writtenTo id).Sublist
        ((events.filterMap Event.frame?).filterMap (payloadFor id)) ∧
      ∀ payload ∈ (RawConn.start.run config events).writtenTo id,
        payload.length ≤ maxUDPPayloadSize ∧ ∃ quarterStreamID t s, id = 4 * quarterStreamID ∧
          wire t quarterStreamID ++ (wire s 0 ++ payload) ∈ events.filterMap Event.frame? := by
  have hsound := RawConn.sound_start.run config events
  rw [List.nil_append] at hsound
  have hsub : ((RawConn.start.run config events).writtenTo id).Sublist
      ((events.filterMap Event.frame?).filterMap (payloadFor id)) := by
    by_cases hmem : id ∈ (RawConn.start.run config events).ports.map Port.id
    · obtain ⟨port, hport, rfl⟩ := List.mem_map.mp hmem
      obtain ⟨i, hi⟩ := List.mem_iff_getElem?.mp hport
      exact (List.sublist_append_left _ _).trans (hsound.carried i port hi)
    · exact (List.sublist_append_left _ _).trans (hsound.strangers id hmem)
  refine ⟨hsub, fun payload hpayload ↦ ?_⟩
  obtain ⟨data, hdata, hfor⟩ := List.mem_filterMap.mp (hsub.subset hpayload)
  obtain ⟨hlength, quarterStreamID, t, s, hid, rfl⟩ := exists_frame_of_payloadFor hfor
  exact ⟨hlength, quarterStreamID, t, s, hid, hdata⟩

-- A datagram for a tunnel whose loop and sender both wait goes all the way.
example : (RawConn.start.run ⟨0, fun _ ↦ true⟩
    [.track 4, .serve 0 [] false, .move 0 false (.dial true), .move 0 false .register,
      .move 0 false .answer, .move 0 false (.receiveDatagram ⟨0, 0⟩ fun _ _ ↦ true), .startLoop,
      .receive ⟨0, 0⟩ fun _ _ ↦ true, .handleDatagramFrame [1, 0, 7] ⟨0, 0⟩ fun _ _ ↦ true, .wake,
      .receive ⟨0, 0⟩ fun _ _ ↦ true, .route, .deliver ⟨0, 0⟩ fun _ _ ↦ true,
      .move 0 false .wake, .move 0 false (.receiveDatagram ⟨0, 0⟩ fun _ _ ↦ true),
      .move 0 false (.write true)]).writtenTo 4 = [[7]] := by
  decide +kernel

end Inbound

end QortalRelay
