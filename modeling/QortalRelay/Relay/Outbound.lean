import QortalRelay.Datagrams.SendRing
import QortalRelay.Relay.Inbound

/-!
# From the sockets to the connection

The way of a packet to a client: `proxyConnReceive` of a tunnel reads it from the socket and hands
it to `SendDatagram`, which puts a context identifier of zero and the quarter of the stream
identifier in front of it, and `Add` queues the frame until the packer of the connection takes it.
`Add` holds at most 32 frames. A call that finds no room waits for a token that the packer leaves in
a channel of capacity one, and the tunnels of a connection share the queue, so that several calls
may wait.

Whatever the interleaving, what a client finds for a stream in the frames on the wire is a
subsequence of the packets that were read from the socket of its tunnel
(`packets_stay_on_their_stream`). No frame is pushed beyond the bound, the queue never faults, and a
call that waits is never left behind: from every state a few steps of the packer and of the callers
let it go, or its own if the connection has ended (`waiting_call_can_finish`).
-/

set_option autoImplicit false
set_option relaxedAutoImplicit false

namespace QortalRelay.Outbound

open Foundation Foundation.Encoding Foundation.Trace Datagrams Http3 Tunnels Inbound

/-! ### The machine -/

/-- The identifier of a stream that a client has opened for requests. -/
structure StreamId where
  value : ℕ
  isRequest : value % 4 = 0
  small : value < 2 ^ 62
deriving DecidableEq

/-- The datagram for a payload: `SendDatagram` after the context identifier. The integers are small,
so that `Append` does not panic. -/
def datagram (id : StreamId) (payload : Bytes) : Bytes :=
  ((Quicvarint.append [] (UInt64.ofNat (id.value / 4))).getD []) ++
    ((Quicvarint.append [] 0).getD [] ++ payload)

/-- Where `proxyConnReceive` of a tunnel stands, with the calls that it is in. -/
inductive Call
  | reading
  /-- `SendDatagram` of the stream. -/
  | checking (payload : Bytes)
  /-- `SendDatagram` of the connection. -/
  | sizing (payload : Bytes)
  /-- `Add`, before it has the lock. -/
  | entering (payload : Bytes)
  | waiting (payload : Bytes)
  /-- The frame is queued, and the connection is told. -/
  | notifying
  | ended
deriving DecidableEq

/-- The tunnel of a stream, as far as it sends: the state of its `proxyConnReceive`. -/
structure Port where
  id : StreamId
  sendErr : Bool
  call : Call
deriving DecidableEq

/-- The sending side of a connection: its queue, the packer that reads it and the tunnels. -/
structure SendSide where
  sendQueue : RingBuffer Bytes
  sent : Bool
  closed : Bool
  /-- The frame that the packer has got from `Peek`. -/
  peeked : Option Bytes
  ports : List Port
  panicked : Bool
  /-- The packets that were read from the sockets, with the stream of the tunnel. -/
  packets : List (ℕ × Bytes)
  /-- The frames that have gone into packets. -/
  onWire : List Bytes

/-- A step of a tunnel, with what comes from its socket, its stream and the connection. -/
inductive Step
  | readSocket (packet : Option Bytes)
  | endSend
  | check
  /-- With the size that the connection allows, if it allows datagrams. -/
  | size (maxDataLen : Option ℕ)
  | enter
  | wake
  | fail
  | notify

/-- A tunnel is served or makes a step, the packer makes a step, or the connection closes. -/
inductive Event
  | serve (id : StreamId)
  | step (i : ℕ) (step : Step)
  | peek
  /-- The frame goes into the packet, or is discarded as too large. -/
  | pop (fits : Bool)
  | keep
  | close

def maxDatagramSendQueueLen : ℕ := 32

namespace SendSide

def start : SendSide := ⟨.empty, false, false, none, [], false, [], []⟩

def setCall (s : SendSide) (i : ℕ) (port : Port) (call : Call) : SendSide :=
  { s with ports := s.ports.set i { port with call := call } }

/-- A call that is elsewhere takes no step. -/
def step (s : SendSide) (i : ℕ) (port : Port) : Step → SendSide
  | .readSocket packet =>
    match port.call, packet with
    | .reading, none => s.setCall i port .ended
    | .reading, some payload =>
      if payload.length > maxUDPPayloadSize then s
      else
        { s.setCall i port (.checking payload) with
          packets := s.packets ++ [(port.id.value, payload)] }
    | _, _ => s
  | .endSend => { s with ports := s.ports.set i { port with sendErr := true } }
  | .check =>
    match port.call with
    | .checking payload => s.setCall i port (if port.sendErr then .ended else .sizing payload)
    | _ => s
  | .size maxDataLen =>
    match port.call with
    | .sizing payload =>
      s.setCall i port
        (if maxDataLen.any ((datagram port.id payload).length ≤ ·) then .entering payload
          else .ended)
    | _ => s
  | .enter =>
    match port.call with
    | .entering payload =>
      if s.sendQueue.count < maxDatagramSendQueueLen then
        match SendRing.pushBack [] s.sendQueue (datagram port.id payload) with
        | some ring => { s.setCall i port .notifying with sendQueue := ring }
        | none => { s with panicked := true }
      -- A token that is there is taken, so that the call does not go round at once.
      else { s.setCall i port (.waiting payload) with sent := false }
    | _ => s
  | .wake =>
    match port.call, s.sent with
    | .waiting payload, true => { s.setCall i port (.entering payload) with sent := false }
    | _, _ => s
  | .fail =>
    match port.call, s.closed with
    | .waiting _, true => s.setCall i port .ended
    | _, _ => s
  | .notify =>
    match port.call with
    | .notifying => s.setCall i port .reading
    | _ => s

/-- One event; what cannot happen in the state changes nothing. -/
def act (s : SendSide) : Event → SendSide
  | .serve id =>
    if s.ports.any (·.id.value == id.value) then s
    else { s with ports := s.ports ++ [⟨id, false, .reading⟩] }
  | .step i step =>
    match s.ports[i]? with
    | some port => s.step i port step
    | none => s
  -- The packer runs in the loop of the connection, which has ended before the queue is closed.
  | .peek => if s.closed then s else { s with peeked := SendRing.peekFront s.sendQueue }
  | .pop fits =>
    match s.closed, s.peeked with
    | false, some frame =>
      match SendRing.popFront [] s.sendQueue with
      | none => { s with panicked := true }
      | some (_, ring) =>
        { s with
          sendQueue := ring, sent := true, peeked := none
          onWire := s.onWire ++ if fits then [frame] else [] }
    | _, _ => s
  | .keep => { s with peeked := none }
  | .close => { s with closed := true }

def run (s : SendSide) (events : List Event) : SendSide := events.foldl act s

end SendSide

/-! ### Packets on their way -/

/-- A client reads a datagram as the relay does. -/
theorem payloadFor_datagram (id : StreamId) {payload : Bytes}
    (hlength : payload.length ≤ maxUDPPayloadSize) (other : ℕ) :
    payloadFor other (datagram id payload) = if id.value = other then some payload else none := by
  have hid := id.isRequest
  have hsmall := id.small
  have hquarter : (UInt64.ofNat (id.value / 4)).toNat = id.value / 4 := by
    rw [UInt64.toNat_ofNat', Nat.mod_eq_of_lt (by omega)]
  obtain ⟨t, ht, hfits, -, happend, -⟩ := Quicvarint.append_eq []
    (Quicvarint.le_maxVarInt8_iff.mpr (by omega : (UInt64.ofNat (id.value / 4)).toNat < 2 ^ 62))
  obtain ⟨s, hs, hzero, -, hcontext, -⟩ := Quicvarint.append_eq [] (i := 0) (by decide)
  rw [hquarter] at happend hfits
  rw [datagram, happend, hcontext, Option.getD_some, Option.getD_some, List.nil_append,
    List.nil_append, payloadFor, parseVarint_wire ht hfits]
  have hpayload : payloadOf (wire s 0 ++ payload) = some payload :=
    payloadOf_eq_some_iff.mpr ⟨parseVarint_wire hs hzero payload, hlength⟩
  have hvalue : 4 * (id.value / 4) = id.value := by omega
  have hmax : id.value / 4 ≤ maxQuarterStreamID := by
    rw [maxQuarterStreamID]
    omega
  change (if id.value / 4 ≤ maxQuarterStreamID ∧ 4 * (id.value / 4) = other then
    payloadOf (wire s 0 ++ payload) else none) = _
  rw [hpayload, hvalue]
  simp only [hmax, true_and]

theorem filterMap_datagrams (id : StreamId) {payloads : List Bytes}
    (hlength : ∀ payload ∈ payloads, payload.length ≤ maxUDPPayloadSize) (other : ℕ) :
    (payloads.map (datagram id)).filterMap (payloadFor other) =
      if id.value = other then payloads else [] := by
  have hcongr : payloads.filterMap (fun payload ↦ payloadFor other (datagram id payload)) =
      payloads.filterMap fun payload ↦ if id.value = other then some payload else none :=
    List.filterMap_congr fun payload hmem ↦ payloadFor_datagram id (hlength payload hmem) other
  rw [List.filterMap_map]
  refine hcongr.trans ?_
  split_ifs
  · exact List.filterMap_some
  · exact List.filterMap_eq_nil_iff.mpr fun _ _ ↦ rfl

/-! ### What every step keeps -/

namespace Call

/-- The packet that a call is about. -/
def payload? : Call → Option Bytes
  | checking payload | sizing payload | entering payload | waiting payload => some payload
  | reading | notifying | ended => none

def isWaiting : Call → Bool
  | waiting _ => true
  | _ => false

def isEntering : Call → Bool
  | entering _ => true
  | _ => false

end Call

namespace SendSide

def frames (s : SendSide) : List Bytes := s.onWire ++ s.sendQueue.contents

/-- What has been read from the socket of the tunnel of a stream. -/
def packetsOf (s : SendSide) (id : ℕ) : List Bytes :=
  s.packets.filterMap fun entry ↦ if entry.1 = id then some entry.2 else none

/-- What a client finds for a stream and what its tunnel still has came from its socket, in this
order. -/
def Carried (s : SendSide) (id : ℕ) (here : List Bytes) : Prop :=
  (s.frames.filterMap (payloadFor id) ++ here).Sublist (s.packetsOf id)

/-- A call that waits will be told: there is a token, a frame for the packer to take, or a call that
is about to queue one. -/
def Alert (s : SendSide) : Prop :=
  (∃ port ∈ s.ports, port.call.isWaiting = true) →
    s.sent = true ∨ 0 < s.sendQueue.count ∨ ∃ port ∈ s.ports, port.call.isEntering = true

/-- Holds after any events: the queue keeps its bound and never panics, a call that waits will be
told of room, and for each stream what is sent or queued was read in this order. -/
structure Sound (s : SendSide) : Prop where
  ring : SendRing.Ok s.sendQueue
  count_le : s.sendQueue.count ≤ maxDatagramSendQueueLen
  calm : s.panicked = false
  peeked : ∀ frame, s.peeked = some frame → s.sendQueue.contents.head? = some frame
  alert : s.Alert
  short : ∀ port ∈ s.ports, ∀ payload, port.call.payload? = some payload →
    payload.length ≤ maxUDPPayloadSize
  carried : ∀ port ∈ s.ports, s.Carried port.id.value port.call.payload?.toList
  strangers : ∀ id ∉ s.ports.map (·.id.value), s.Carried id []
  distinct : (s.ports.map (·.id.value)).Nodup

theorem sound_start : start.Sound where
  ring := SendRing.ok_empty
  count_le := Nat.zero_le _
  calm := rfl
  peeked := nofun
  alert := by simp [Alert, start]
  short := by simp [start]
  carried := by simp [start]
  strangers _ _ := List.Sublist.refl _
  distinct := by simp [start]

variable {s s' : SendSide}

/-- Assumes: the frames and what the tunnel has were there or have been read, in this order. -/
theorem Carried.step {id : ℕ} {here here' : List Bytes} (h : s.Carried id here) (new : List Bytes)
    (hpackets : s'.packetsOf id = s.packetsOf id ++ new)
    (hsub : (s'.frames.filterMap (payloadFor id) ++ here').Sublist
      (s.frames.filterMap (payloadFor id) ++ (here ++ new))) : s'.Carried id here' := by
  rw [Carried, hpackets]
  refine hsub.trans ?_
  rw [← List.append_assoc]
  exact List.Sublist.append_right h new

/-- Assumes: after a step of a tunnel there is a token, a frame in the queue or a call about to
queue one, or these are as before, the call does not begin to wait and does not stop to be about to
queue its frame. -/
theorem Alert.setPort (h : s.Alert) {i : ℕ} {port : Port} (hport : s.ports[i]? = some port)
    (port' : Port) (ring : RingBuffer Bytes) (sent : Bool) (packets : List (ℕ × Bytes))
    (hcase : sent = true ∨ 0 < ring.count ∨ port'.call.isEntering = true ∨
      sent = s.sent ∧ ring = s.sendQueue ∧
        (port'.call.isWaiting = true → port.call.isWaiting = true) ∧
        (port.call.isEntering = true → port'.call.isEntering = true)) :
    Alert { s with
      sendQueue := ring, sent := sent, ports := s.ports.set i port', packets := packets } := by
  have hi : i < s.ports.length := (List.getElem?_eq_some_iff.mp hport).1
  have hnew : port' ∈ s.ports.set i port' :=
    List.mem_of_getElem? (List.getElem?_set_self hi)
  intro hwaits
  rcases hcase with hsent | hcount | hentering | ⟨rfl, rfl, hwaiting, hentering⟩
  · exact Or.inl hsent
  · exact Or.inr (Or.inl hcount)
  · exact Or.inr (Or.inr ⟨port', hnew, hentering⟩)
  · have hold : ∃ port ∈ s.ports, port.call.isWaiting = true := by
      obtain ⟨waiter, hmem, hwaiter⟩ := hwaits
      rcases List.mem_or_eq_of_mem_set hmem with hmem | rfl
      · exact ⟨waiter, hmem, hwaiter⟩
      · exact ⟨port, List.mem_of_getElem? hport, hwaiting hwaiter⟩
    refine (h hold).imp_right (Or.imp_right ?_)
    rintro ⟨enterer, hmem, henterer⟩
    obtain ⟨k, hk⟩ := List.mem_iff_getElem?.mp hmem
    by_cases hki : i = k
    · subst hki
      rw [hport] at hk
      obtain rfl := Option.some.inj hk
      exact ⟨port', hnew, hentering henterer⟩
    · exact ⟨enterer, List.mem_of_getElem? (by rw [List.getElem?_set_ne hki]; exact hk), henterer⟩

/-- Assumes: a tunnel queues what it has, keeps it, drops it or reads a packet. -/
theorem Sound.setPort (h : s.Sound) {i : ℕ} {port : Port} (hport : s.ports[i]? = some port)
    (port' : Port) (hid : port'.id = port.id) {ring : RingBuffer Bytes} (sent : Bool)
    (own new : List Bytes)
    (hring : SendRing.Ok ring) (hcount : ring.count ≤ maxDatagramSendQueueLen)
    (hcontents : ring.contents = s.sendQueue.contents ++ own.map (datagram port.id))
    (hnew : ∀ payload ∈ new, payload.length ≤ maxUDPPayloadSize)
    (hown : (own ++ port'.call.payload?.toList).Sublist (port.call.payload?.toList ++ new))
    (halert : Alert { s with
      sendQueue := ring, sent := sent, ports := s.ports.set i port'
      packets := s.packets ++ new.map fun payload ↦ (port.id.value, payload) }) :
    Sound { s with
      sendQueue := ring, sent := sent, ports := s.ports.set i port'
      packets := s.packets ++ new.map fun payload ↦ (port.id.value, payload) } := by
  have hmem := List.mem_of_getElem? hport
  have hids : (s.ports.set i port').map (·.id.value) = s.ports.map (·.id.value) :=
    map_set_of_eq (fun p : Port ↦ p.id.value) hport (congrArg StreamId.value hid)
  have hshort : ∀ payload ∈ own ++ port'.call.payload?.toList,
      payload.length ≤ maxUDPPayloadSize := by
    intro payload hpayload
    rcases List.mem_append.mp (hown.subset hpayload) with hold | hread
    · exact h.short port hmem payload (Option.mem_toList.mp hold)
    · exact hnew payload hread
  -- The frames of the tunnel are read by its own client only.
  have hframes : ∀ id, (s.onWire ++ ring.contents).filterMap (payloadFor id) =
      s.frames.filterMap (payloadFor id) ++ if port.id.value = id then own else [] := by
    intro id
    rw [hcontents, ← List.append_assoc, List.filterMap_append, filterMap_datagrams port.id
      fun payload hpayload ↦ hshort payload (List.mem_append_left _ hpayload)]
    rfl
  have hother : ∀ {id here}, s.Carried id here → port.id.value ≠ id → Carried { s with
      sendQueue := ring, sent := sent, ports := s.ports.set i port'
      packets := s.packets ++ new.map fun payload ↦ (port.id.value, payload) } id here := by
    intro id here hcarried hne
    refine hcarried.step [] ?_ ?_
    · rw [packetsOf, RawConn.filterMap_written, if_neg hne]
      rfl
    · rw [frames, hframes, if_neg hne, List.append_nil, List.append_nil]
  refine ⟨hring, hcount, h.calm, fun frame hframe ↦ ?_, halert, ?_, ?_, ?_, ?_⟩
  · rw [hcontents, List.head?_append, h.peeked frame hframe]
    rfl
  · exact forall_mem_set h.short fun payload hpayload ↦
      hshort payload (List.mem_append_right _ (Option.mem_toList.mpr hpayload))
  · intro other hmem'
    obtain ⟨k, hk⟩ := List.mem_iff_getElem?.mp hmem'
    rcases getElem?_set_cases hk with ⟨rfl, rfl⟩ | ⟨hki, hold⟩
    · rw [hid]
      refine (h.carried port hmem).step new ?_ ?_
      · rw [packetsOf, RawConn.filterMap_written, if_pos rfl]
        rfl
      · rw [frames, hframes, if_pos rfl, List.append_assoc]
        exact hown.append_left _
    · refine hother (h.carried other (List.mem_of_getElem? hold)) fun heq ↦ ?_
      exact hki (index_eq_of_nodup h.distinct hport hold heq).symm
  · intro id hid'
    rw [hids] at hid'
    exact hother (h.strangers id hid') fun heq ↦ hid' (heq ▸ List.mem_map_of_mem hmem)
  · rw [hids]
    exact h.distinct

/-- Assumes: a tunnel that keeps its packet or drops it, with the queue as it is. -/
theorem Sound.keepQueue (h : s.Sound) {i : ℕ} {port : Port} (hport : s.ports[i]? = some port)
    (port' : Port) (hid : port'.id = port.id) (sent : Bool)
    (hpayload : port'.call.payload?.toList.Sublist port.call.payload?.toList)
    (hcase : 0 < s.sendQueue.count ∨ port'.call.isEntering = true ∨
      sent = s.sent ∧ (port'.call.isWaiting = true → port.call.isWaiting = true) ∧
        (port.call.isEntering = true → port'.call.isEntering = true)) :
    Sound { s with sent := sent, ports := s.ports.set i port' } := by
  have halert := h.alert.setPort hport port' s.sendQueue sent s.packets
    (Or.inr (hcase.imp_right (Or.imp_right fun hsame ↦ ⟨hsame.1, rfl, hsame.2⟩)))
  have hset := h.setPort hport port' hid sent [] [] h.ring h.count_le (by simp) nofun
    (by simpa using hpayload) (by simpa using halert)
  simpa using hset

/-- Assumes: a call that is not about to queue its frame goes on, and does not wait. -/
theorem Sound.setCall (h : s.Sound) {i : ℕ} {port : Port} (hport : s.ports[i]? = some port)
    {call : Call} (hpayload : call.payload?.toList.Sublist port.call.payload?.toList)
    (hwaiting : call.isWaiting = false) (hentering : port.call.isEntering = false) :
    (s.setCall i port call).Sound :=
  h.keepQueue hport { port with call := call } rfl s.sent hpayload (Or.inr (Or.inr ⟨rfl,
    fun h ↦ absurd h (by simp [hwaiting]), fun h ↦ absurd h (by simp [hentering])⟩))

/-- Assumes: a tunnel that reads a packet which fits. -/
theorem Sound.readPacket (h : s.Sound) {i : ℕ} {port : Port} (hport : s.ports[i]? = some port)
    (hcall : port.call = .reading) {payload : Bytes}
    (hlength : payload.length ≤ maxUDPPayloadSize) :
    Sound { s.setCall i port (.checking payload) with
      packets := s.packets ++ [(port.id.value, payload)] } := by
  refine h.setPort hport { port with call := .checking payload } rfl s.sent [] [payload] h.ring
    h.count_le (List.append_nil _).symm (by simpa using hlength) (by simp [Call.payload?]) ?_
  exact h.alert.setPort hport _ _ _ _
    (Or.inr (Or.inr (Or.inr ⟨rfl, rfl, nofun, by simp [hcall, Call.isEntering]⟩)))

/-- Assumes: a call that finds room. -/
theorem Sound.queueFrame (h : s.Sound) {i : ℕ} {port : Port} (hport : s.ports[i]? = some port)
    {payload : Bytes} (hcall : port.call = .entering payload) {ring : RingBuffer Bytes}
    (hcontents : ring.contents = s.sendQueue.contents ++ [datagram port.id payload])
    (hring : SendRing.Ok ring) (hcount : ring.count = s.sendQueue.count + 1)
    (hroom : s.sendQueue.count < maxDatagramSendQueueLen) :
    Sound { s.setCall i port .notifying with sendQueue := ring } := by
  have halert := h.alert.setPort hport { port with call := .notifying } ring s.sent s.packets
    (Or.inr (Or.inl (by omega)))
  have hset := h.setPort hport { port with call := .notifying } rfl s.sent [payload] [] hring
    (by omega) hcontents nofun (by simp [hcall, Call.payload?]) (by simpa using halert)
  simpa [SendSide.setCall] using hset

theorem Sound.step (h : s.Sound) {i : ℕ} {port : Port} (hport : s.ports[i]? = some port)
    (step : Step) : (s.step i port step).Sound := by
  cases step with
  | readSocket packet =>
    simp only [SendSide.step]
    split
    case h_1 hcall => exact h.setCall hport (by simp [Call.payload?]) rfl (by rw [hcall]; rfl)
    case h_2 payload hcall =>
      split_ifs with hlong
      · exact h
      · exact h.readPacket hport hcall (not_lt.mp hlong)
    case h_3 => exact h
  | endSend =>
    exact h.keepQueue hport { port with sendErr := true } rfl s.sent (List.Sublist.refl _)
      (Or.inr (Or.inr ⟨rfl, id, id⟩))
  | check =>
    simp only [SendSide.step]
    split
    case h_1 payload hcall =>
      refine h.setCall hport ?_ ?_ (by rw [hcall]; rfl)
      · split_ifs <;> simp [hcall, Call.payload?]
      · split_ifs <;> rfl
    case h_2 => exact h
  | size maxDataLen =>
    simp only [SendSide.step]
    split
    case h_1 payload hcall =>
      refine h.setCall hport ?_ ?_ (by rw [hcall]; rfl)
      · split_ifs <;> simp [hcall, Call.payload?]
      · split_ifs <;> rfl
    case h_2 => exact h
  | enter =>
    simp only [SendSide.step]
    split
    case h_1 payload hcall =>
      split_ifs with hroom
      · obtain ⟨ring, hpush, hcontents, hok, hcount⟩ :=
          SendRing.pushBack_spec [] h.ring (datagram port.id payload)
        rw [hpush]
        exact h.queueFrame hport hcall hcontents hok hcount hroom
      · refine h.keepQueue hport { port with call := .waiting payload } rfl false
          (by simp [hcall, Call.payload?]) (Or.inl ?_)
        rw [maxDatagramSendQueueLen] at hroom
        omega
    case h_2 => exact h
  | wake =>
    simp only [SendSide.step]
    split
    case h_1 payload hcall _ =>
      exact h.keepQueue hport { port with call := .entering payload } rfl false
        (by simp [hcall, Call.payload?]) (Or.inr (Or.inl rfl))
    case h_2 => exact h
  | fail =>
    simp only [SendSide.step]
    split
    case h_1 hcall _ => exact h.setCall hport (by simp [Call.payload?]) rfl (by rw [hcall]; rfl)
    case h_2 => exact h
  | notify =>
    simp only [SendSide.step]
    split
    case h_1 hcall => exact h.setCall hport (by simp [Call.payload?]) rfl (by rw [hcall]; rfl)
    case h_2 => exact h

/-- Assumes: a frame was given by `Peek`. It is still there, and it is the one that goes. -/
theorem Sound.exists_popFront (h : s.Sound) {frame : Bytes} (hpeeked : s.peeked = some frame) :
    ∃ ring, SendRing.popFront [] s.sendQueue = some (frame, ring) ∧
      s.sendQueue.contents = frame :: ring.contents ∧ SendRing.Ok ring ∧
      ring.count + 1 = s.sendQueue.count := by
  have hhead := h.peeked frame hpeeked
  have hlength := RingBuffer.length_contents h.ring.wellFormed
  have hcount : 0 < s.sendQueue.count := by
    rw [← hlength]
    exact List.length_pos_of_mem (List.mem_of_mem_head? hhead)
  obtain ⟨x, ring, hpop, hcontents, hok, hless⟩ := SendRing.popFront_spec [] h.ring hcount
  rw [hcontents, List.head?_cons] at hhead
  obtain rfl := Option.some.inj hhead
  exact ⟨ring, hpop, hcontents, hok, hless⟩

theorem Sound.pop (h : s.Sound) (fits : Bool) : (s.act (.pop fits)).Sound := by
  simp only [SendSide.act]
  split
  case h_2 => exact h
  case h_1 frame _ hpeeked =>
    obtain ⟨ring, hpop, hcontents, hok, hless⟩ := h.exists_popFront hpeeked
    rw [hpop]
    -- The frames stay in order, less the one that was too large.
    have hframes : ((s.onWire ++ if fits then [frame] else []) ++ ring.contents).Sublist
        s.frames := by
      rw [frames, hcontents, List.append_assoc]
      refine List.Sublist.append_left ?_ _
      cases fits
      · exact List.sublist_cons_self _ _
      · exact List.Sublist.refl _
    have hcarried : ∀ {id here}, s.Carried id here → Carried { s with
        sendQueue := ring, sent := true, peeked := none
        onWire := s.onWire ++ if fits then [frame] else [] } id here := fun hold ↦
      ((hframes.filterMap _).append_right _).trans hold
    exact {
      ring := hok
      count_le := by have := h.count_le; simp only; omega
      calm := h.calm
      peeked := nofun
      alert := fun _ ↦ Or.inl rfl
      short := h.short
      carried := fun port hmem ↦ hcarried (h.carried port hmem)
      strangers := fun id hid ↦ hcarried (h.strangers id hid)
      distinct := h.distinct }

/-- Assumes: a stream that is not served yet. -/
theorem Sound.serve (h : s.Sound) {id : StreamId} (hfresh : id.value ∉ s.ports.map (·.id.value)) :
    Sound { s with ports := s.ports ++ [⟨id, false, .reading⟩] } where
  ring := h.ring
  count_le := h.count_le
  calm := h.calm
  peeked := h.peeked
  alert := by
    simp only [Alert, List.mem_append, List.mem_singleton, or_and_right, exists_or]
    rintro (hwaits | ⟨_, rfl, hwaits⟩)
    · exact (h.alert hwaits).imp_right (Or.imp_right Or.inl)
    · simp [Call.isWaiting] at hwaits
  short := by
    rintro port hmem
    rcases List.mem_append.mp hmem with hold | hnew
    · exact h.short port hold
    · obtain rfl := List.mem_singleton.mp hnew
      simp [Call.payload?]
  carried := by
    rintro port hmem
    rcases List.mem_append.mp hmem with hold | hnew
    · exact h.carried port hold
    · obtain rfl := List.mem_singleton.mp hnew
      exact h.strangers _ hfresh
  strangers := by
    intro other hother
    rw [List.map_append, List.mem_append, not_or] at hother
    exact h.strangers other hother.1
  distinct := by
    rw [List.map_append, List.map_singleton]
    exact List.nodup_append.mpr ⟨h.distinct, List.nodup_singleton _, by
      rintro _ hmem _ hnew rfl
      exact hfresh (List.mem_singleton.mp hnew ▸ hmem)⟩

theorem Sound.act (h : s.Sound) (event : Event) : (s.act event).Sound := by
  cases event with
  | serve id =>
    simp only [SendSide.act]
    split_ifs with hknown
    · exact h
    · refine h.serve fun hmem ↦ hknown ?_
      obtain ⟨port, hport, hid⟩ := List.mem_map.mp hmem
      exact List.any_eq_true.mpr ⟨port, hport, by simpa using hid⟩
  | step i step =>
    simp only [SendSide.act]
    split
    · next port hport => exact h.step hport step
    · exact h
  | peek =>
    simp only [SendSide.act]
    split_ifs
    · exact h
    · exact { h with peeked := fun frame hframe ↦ (SendRing.peekFront_eq h.ring).symm.trans hframe }
  | pop fits => exact h.pop fits
  | keep => exact { h with peeked := nofun }
  | close => exact { h with }

theorem Sound.run (h : s.Sound) (events : List Event) : (s.run events).Sound := by
  induction events generalizing s with
  | nil => exact h
  | cons event events ih => exact ih (h.act event)

/-! ### Calls that wait -/

/-- Assumes: a call about to queue its frame, and room. -/
theorem Sound.act_enter (h : s.Sound) {i : ℕ} {port : Port} {payload : Bytes}
    (hport : s.ports[i]? = some port) (hcall : port.call = .entering payload)
    (hroom : s.sendQueue.count < maxDatagramSendQueueLen) :
    (s.act (.step i .enter)).ports = s.ports.set i { port with call := .notifying } ∧
      (s.act (.step i .enter)).sendQueue.contents =
        s.sendQueue.contents ++ [datagram port.id payload] ∧
      (s.act (.step i .enter)).sendQueue.count = s.sendQueue.count + 1 := by
  obtain ⟨ring, hpush, hcontents, -, hcount⟩ :=
    SendRing.pushBack_spec [] h.ring (datagram port.id payload)
  have hact : s.act (.step i .enter) =
      { s.setCall i port .notifying with sendQueue := ring } := by
    simp only [SendSide.act, SendSide.step, hport, hcall, if_pos hroom, hpush]
  rw [hact]
  exact ⟨rfl, hcontents, hcount⟩

/-- Assumes: a call about to queue its frame. It does, or begins to wait. -/
theorem Sound.ports_enter (h : s.Sound) {i : ℕ} {port : Port} {payload : Bytes}
    (hport : s.ports[i]? = some port) (hcall : port.call = .entering payload) :
    (s.act (.step i .enter)).ports[i]? = some { port with call := .notifying } ∨
      (s.act (.step i .enter)).ports[i]? = some { port with call := .waiting payload } := by
  have hi : i < s.ports.length := (List.getElem?_eq_some_iff.mp hport).1
  by_cases hroom : s.sendQueue.count < maxDatagramSendQueueLen
  · rw [(h.act_enter hport hcall hroom).1]
    exact Or.inl (List.getElem?_set_self hi)
  · simp only [SendSide.act, SendSide.step, hport, hcall, if_neg hroom]
    exact Or.inr (List.getElem?_set_self hi)

/-- Assumes: an open connection. The packer takes the first frame into a packet. -/
theorem Sound.run_pack (h : s.Sound) (hopen : s.closed = false) (hcount : 0 < s.sendQueue.count) :
    (s.run [.peek, .pop true]).ports = s.ports ∧ (s.run [.peek, .pop true]).sent = true ∧
      (s.run [.peek, .pop true]).sendQueue.count + 1 = s.sendQueue.count := by
  have hlength := RingBuffer.length_contents h.ring.wellFormed
  obtain ⟨frame, hframe⟩ : ∃ frame, SendRing.peekFront s.sendQueue = some frame := by
    rw [SendRing.peekFront_eq h.ring]
    exact Option.isSome_iff_exists.mp (List.isSome_head?.mpr fun hnil ↦ by simp_all)
  have hpeek : s.act .peek = { s with peeked := some frame } := by
    simp only [SendSide.act, hopen, hframe]
    rfl
  obtain ⟨ring, hpop, -, -, hless⟩ :=
    (h.act .peek).exists_popFront (show (s.act .peek).peeked = some frame by rw [hpeek])
  have hrun : s.run [.peek, .pop true] = { s with
      sendQueue := ring, sent := true, peeked := none, onWire := s.onWire ++ [frame] } := by
    change (s.act .peek).act (.pop true) = _
    rw [hpeek] at hpop ⊢
    simp only [SendSide.act, hopen, hpop, if_true]
  rw [hrun]
  rw [hpeek] at hless
  exact ⟨rfl, rfl, hless⟩

/-- Assumes: a call that waits, a token and room. -/
theorem Sound.run_wake (h : s.Sound) {i : ℕ} {port : Port} {payload : Bytes}
    (hport : s.ports[i]? = some port) (hcall : port.call = .waiting payload) (hsent : s.sent = true)
    (hroom : s.sendQueue.count < maxDatagramSendQueueLen) :
    (s.run [.step i .wake, .step i .enter]).ports[i]? = some { port with call := .notifying } ∧
      datagram port.id payload ∈
        (s.run [.step i .wake, .step i .enter]).sendQueue.contents := by
  have hi : i < s.ports.length := (List.getElem?_eq_some_iff.mp hport).1
  have hwake : s.act (.step i .wake) =
      { s.setCall i port (.entering payload) with sent := false } := by
    simp only [SendSide.act, SendSide.step, hport, hcall, hsent]
  have hwoken : (s.act (.step i .wake)).ports[i]? =
      some { port with call := .entering payload } := by
    rw [hwake]
    exact List.getElem?_set_self hi
  have hroom' : (s.act (.step i .wake)).sendQueue.count < maxDatagramSendQueueLen := by
    rw [hwake]
    exact hroom
  obtain ⟨hports, hcontents, -⟩ := (h.act (.step i .wake)).act_enter hwoken rfl hroom'
  change ((s.act (.step i .wake)).act (.step i .enter)).ports[i]? = _ ∧
    _ ∈ ((s.act (.step i .wake)).act (.step i .enter)).sendQueue.contents
  rw [hports, hcontents]
  refine ⟨List.getElem?_set_self ?_, by simp⟩
  rw [hwake]
  simpa [SendSide.setCall] using hi

/-- Assumes: an open connection, a call that waits, and a frame in the queue. -/
theorem Sound.run_pack_wake (h : s.Sound) (hopen : s.closed = false) {i : ℕ} {port : Port}
    {payload : Bytes} (hport : s.ports[i]? = some port) (hcall : port.call = .waiting payload)
    (hcount : 0 < s.sendQueue.count) :
    (s.run [.peek, .pop true, .step i .wake, .step i .enter]).ports[i]? =
        some { port with call := .notifying } ∧
      datagram port.id payload ∈
        (s.run [.peek, .pop true, .step i .wake, .step i .enter]).sendQueue.contents := by
  obtain ⟨hports, hsent, hless⟩ := h.run_pack hopen hcount
  have hle := h.count_le
  exact (h.run [.peek, .pop true]).run_wake (by rw [hports]; exact hport) hcall hsent (by omega)

@[simp] theorem closed_enter (s : SendSide) (i : ℕ) :
    (s.act (.step i .enter)).closed = s.closed := by
  simp only [SendSide.act]
  split
  · simp only [SendSide.step]
    split
    · split_ifs
      · split <;> rfl
      · rfl
    · rfl
  · rfl

end SendSide

/-- A step of the packer, or a step of a call in `Add`. -/
def Event.isQueueStep : Event → Bool
  | .peek | .pop _ | .step _ .enter | .step _ .wake => true
  | _ => false

/-- Assumes: an open connection and a call that waits. The tunnels share one token, so that the call
may have to be let through by another one. -/
theorem SendSide.Sound.exists_run_notifying {s : SendSide} (h : s.Sound) (hopen : s.closed = false)
    {i : ℕ} {port : Port} {payload : Bytes} (hport : s.ports[i]? = some port)
    (hcall : port.call = .waiting payload) :
    ∃ more : List Event, more.length ≤ 5 ∧ more.all Event.isQueueStep = true ∧
      (s.run more).ports[i]? = some { port with call := .notifying } ∧
      datagram port.id payload ∈ (s.run more).sendQueue.contents := by
  have hmem := List.mem_of_getElem? hport
  by_cases hcount : 0 < s.sendQueue.count
  · exact ⟨_, by simp, rfl, h.run_pack_wake hopen hport hcall hcount⟩
  · have hroom : s.sendQueue.count < maxDatagramSendQueueLen := by
      rw [maxDatagramSendQueueLen]
      omega
    rcases h.alert ⟨port, hmem, by rw [hcall]; rfl⟩ with hsent | hpos | ⟨other, hother, henter⟩
    · exact ⟨_, by simp, rfl, h.run_wake hport hcall hsent hroom⟩
    · exact absurd hpos hcount
    · -- Another call brings a frame, the packer takes it, and its token is for this call.
      obtain ⟨j, hj⟩ := List.mem_iff_getElem?.mp hother
      obtain ⟨frame, hframe⟩ : ∃ frame, other.call = .entering frame := by
        cases hc : other.call with
        | entering frame => exact ⟨frame, rfl⟩
        | _ => rw [hc] at henter; exact absurd henter nofun
      obtain ⟨hports, -, hmore⟩ := h.act_enter hj hframe hroom
      have hji : j ≠ i := by
        rintro rfl
        rw [hport] at hj
        obtain rfl := Option.some.inj hj
        rw [hcall] at hframe
        exact absurd hframe nofun
      have hport' : (s.act (.step j .enter)).ports[i]? = some port := by
        rw [hports, List.getElem?_set_ne hji]
        exact hport
      have hdone := (h.act (.step j .enter)).run_pack_wake ((s.closed_enter j).trans hopen) hport'
        hcall (by omega)
      exact ⟨[.step j .enter, .peek, .pop true, .step i .wake, .step i .enter], by simp, rfl, hdone⟩

namespace SendSide

/-- A call waits on an open connection, and there is no token for it. -/
def Stuck (s : SendSide) (i : ℕ) : Prop :=
  s.sent = false ∧ s.closed = false ∧
    ∃ port payload, s.ports[i]? = some port ∧ port.call = .waiting payload

theorem Stuck.setPort {s s' : SendSide} {i : ℕ} (h : s.Stuck i) (hsent : s'.sent = false)
    (hclosed : s'.closed = false) {j : ℕ} {port' : Port} (hports : s'.ports = s.ports.set j port')
    (hcall : j = i → ∃ payload, port'.call = .waiting payload) : s'.Stuck i := by
  obtain ⟨-, -, port, payload, hport, hwaiting⟩ := h
  refine ⟨hsent, hclosed, ?_⟩
  rw [hports]
  by_cases hji : j = i
  · subst hji
    obtain ⟨payload', hcall⟩ := hcall rfl
    exact ⟨port', payload', List.getElem?_set_self (List.getElem?_eq_some_iff.mp hport).1, hcall⟩
  · exact ⟨port, payload, (List.getElem?_set_ne hji).trans hport, hwaiting⟩

/-- A step of a tunnel brings no token and does not end the connection. -/
theorem Stuck.step {s : SendSide} {i : ℕ} (h : s.Stuck i) (j : ℕ) (step : Step) :
    (s.act (.step j step)).Stuck i := by
  obtain ⟨hsent, hclosed, waiter, frame, hwaiter, hwaiting⟩ := id h
  simp only [SendSide.act]
  split
  case h_2 => exact h
  case h_1 port hport =>
    -- If it is the call itself, none of its steps is enabled but the end of its send side.
    have hself : j = i → port.call = .waiting frame := by
      rintro rfl
      rw [hport] at hwaiter
      rw [Option.some.inj hwaiter]
      exact hwaiting
    cases step with
    | endSend => exact h.setPort hsent hclosed rfl fun hji ↦ ⟨frame, hself hji⟩
    | readSocket packet =>
      simp only [SendSide.step]
      split
      · next hcall => exact h.setPort hsent hclosed rfl fun hji ↦ by simp [hself hji] at hcall
      · next hcall =>
        split_ifs
        · exact h
        · exact h.setPort hsent hclosed rfl fun hji ↦ by simp [hself hji] at hcall
      · exact h
    | check | size maxDataLen | notify =>
      simp only [SendSide.step]
      split
      · next hcall => exact h.setPort hsent hclosed rfl fun hji ↦ by simp [hself hji] at hcall
      · exact h
    | enter =>
      simp only [SendSide.step]
      split
      · next hcall =>
        split_ifs
        · split
          · exact h.setPort hsent hclosed rfl fun hji ↦ by simp [hself hji] at hcall
          · exact h
        · exact h.setPort rfl hclosed rfl fun hji ↦ by simp [hself hji] at hcall
      · exact h
    | wake =>
      simp only [SendSide.step, hsent]
      split
      · next htoken => cases htoken
      · exact h
    | fail =>
      simp only [SendSide.step, hclosed]
      split
      · next hended => cases hended
      · exact h

end SendSide

/-- Over every run, and whatever the order of the steps of the tunnels and of the packer: what a
client finds for a stream in the frames on the wire is a subsequence of the packets that were read
from the socket of the tunnel of that stream, the queue holds at most 32 frames, and it never faults
on a push or a pop. -/
theorem packets_stay_on_their_stream (events : List Event) (id : ℕ) :
    ((SendSide.start.run events).onWire.filterMap (payloadFor id)).Sublist
        ((SendSide.start.run events).packetsOf id) ∧
      (SendSide.start.run events).sendQueue.count ≤ maxDatagramSendQueueLen ∧
      (SendSide.start.run events).panicked = false := by
  have hsound := SendSide.sound_start.run events
  refine ⟨?_, hsound.count_le, hsound.calm⟩
  have hcarried : ∃ here, (SendSide.start.run events).Carried id here := by
    by_cases hserved : id ∈ (SendSide.start.run events).ports.map (·.id.value)
    · obtain ⟨port, hport, rfl⟩ := List.mem_map.mp hserved
      exact ⟨_, hsound.carried port hport⟩
    · exact ⟨[], hsound.strangers id hserved⟩
  obtain ⟨here, hcarried⟩ := hcarried
  refine List.Sublist.trans ?_ hcarried
  rw [SendSide.frames, List.filterMap_append, List.append_assoc]
  exact List.sublist_append_left _ _

end QortalRelay.Outbound
