import QortalRelay.Relay.Winding

/-!
# Closing the relay

`Server.Close` refuses new sessions and closes the proxy, the HTTP/3 server, the ticket authority
and the socket, in this order. `Proxy.Close` closes the stream and the socket of every tunnel in the
map of closers, with the lock of the proxy, and then waits until the counter of the tunnels is zero.
The HTTP/3 server waits for the handlers of its connections. The machine interleaves any number of
calls of `Server.Close` with the goroutines of any number of tunnels.

Only one call gets past the flag, so that nothing is closed twice, and a call that is past its wait
leaves no tunnel at work and none that could begin (`close_ends_every_tunnel`).
-/

set_option autoImplicit false
set_option relaxedAutoImplicit false

namespace QortalRelay.Shutdown

open Foundation Foundation.Encoding Foundation.Trace Datagrams Http3 Admission Tunnels

/-! ### The machine -/

/-- Where a call of `Server.Close` stands. -/
inductive Call
  | entering
  /-- The server was closed already. -/
  | refused
  | locking
  /-- `Proxy.Close` with its lock, and the entries that it has not come to. -/
  | choosing (pending : List ℕ)
  | cancelling (i : ℕ) (pending : List ℕ)
  | closingStream (i : ℕ) (pending : List ℕ)
  | closingConn (i : ℕ) (pending : List ℕ)
  /-- The wait for the counter of the tunnels. -/
  | waiting
  | clearing
  | closingServer
  | closingTickets
  | closingSocket
  | finished
deriving DecidableEq

/-- The relay as far as its shutdown reads it: the counters, the tunnels, the proxy with its
closers, and the calls of `Close`. -/
structure Relay where
  sessions : Sessions
  tunnels : List Tunnel
  proxyClosed : Bool
  closers : List ℕ
  refCount : ℤ
  calls : List Call
  /-- How often the channel of the metrics, the HTTP/3 server, the ticket authority and the socket
  have been closed. -/
  metricsDone : ℕ
  serverClosed : ℕ
  ticketsClosed : ℕ
  udpClosed : ℕ

/-- A request arrives, a tunnel moves or is moved from outside, or a call of `Close` makes a step.
-/
inductive Event
  /-- A request for a permitted target comes to `acquire`. -/
  | arrive (source : Text) (stream : { stream : TrackedStream // stream.Ok }) (connClosed : Bool)
  | move (i : ℕ) (move : Move)
  /-- The handler removes its entry from the map of closers. -/
  | delete (i : ℕ)
  | datagram (i : ℕ) (data : Bytes) (now : Time) (surroundings : Surroundings)
  | streamDone (i : ℕ)
  | connectionCloses (i : ℕ)
  | call
  /-- With the entry that the range over the map comes to. -/
  | step (k : ℕ) (choice : ℕ)

def Call.holdsProxy : Call → Bool
  | choosing _ | cancelling _ _ | closingStream _ _ | closingConn _ _ => true
  | _ => false

/-- A step that takes the lock of the proxy. `proxyConnReceive` takes it to look at the flag before
it reports its error. -/
def needsProxy : Move → Bool
  | .register | .endReceiving => true
  | _ => false

namespace Relay

def start (maxSessions : ℤ) : Relay := ⟨.start maxSessions, [], false, [], 0, [], 0, 0, 0, 0⟩

def locked (relay : Relay) : Bool := relay.calls.any Call.holdsProxy

/-- What a step of a tunnel does to the counters and the map. -/
def account (relay : Relay) (i : ℕ) (tunnel : Tunnel) : Move → Relay
  | .register =>
    if relay.proxyClosed then relay
    else { relay with closers := relay.closers ++ [i], refCount := relay.refCount + 1 }
  | .leave => { relay with refCount := relay.refCount - 1 }
  | .release => { relay with sessions := relay.sessions.release tunnel.source }
  | _ => relay

def setTunnel (relay : Relay) (i : ℕ) (tunnel : Tunnel) : Relay :=
  { relay with tunnels := relay.tunnels.set i tunnel }

def setCall (relay : Relay) (k : ℕ) (call : Call) : Relay :=
  { relay with calls := relay.calls.set k call }

/-- The counter is decremented after the entry is removed. -/
def mayMove (relay : Relay) (i : ℕ) : Move → Bool
  | .leave => !relay.closers.contains i
  | move => !(relay.locked && needsProxy move)

/-- A step of a tunnel, if it can be made. -/
def move (config : TrailerConfig) (relay : Relay) (i : ℕ) (move : Move) : Relay :=
  match relay.tunnels[i]? with
  | none => relay
  | some tunnel =>
    match tunnel.move config relay.proxyClosed move with
    | none => relay
    | some tunnel' =>
      if relay.mayMove i move then (relay.account i tunnel move).setTunnel i tunnel' else relay

def outside (relay : Relay) (i : ℕ) (outside : Outside) : Relay :=
  match relay.tunnels[i]? with
  | none => relay
  | some tunnel => relay.setTunnel i (tunnel.outside relay.proxyClosed outside)

/-- The handler takes its entry out of the map, under the lock of the proxy. -/
def delete (relay : Relay) (i : ℕ) : Relay :=
  match relay.tunnels[i]? with
  | none => relay
  | some tunnel =>
    if tunnel.phase = .leaving ∧ relay.locked = false then
      { relay with closers := relay.closers.erase i }
    else relay

/-- One step of a call of `Close`. The closers are called in any order, of which `choice` picks one.
-/
def step (relay : Relay) (k choice : ℕ) : Call → Relay
  | .entering =>
    if relay.sessions.closed then relay.setCall k .refused
    else
      { relay.setCall k .locking with
        sessions := relay.sessions.close, metricsDone := relay.metricsDone + 1 }
  | .locking =>
    if relay.locked then relay
    else { relay.setCall k (.choosing relay.closers) with proxyClosed := true }
  | .choosing pending =>
    if pending.contains choice then relay.setCall k (.cancelling choice (pending.erase choice))
    else if pending.isEmpty then relay.setCall k .waiting
    else relay
  | .cancelling i pending =>
    (relay.outside i .entryCancelsRead).setCall k (.closingStream i pending)
  | .closingStream i pending =>
    (relay.outside i .entryClosesStream).setCall k (.closingConn i pending)
  | .closingConn i pending => (relay.outside i .entryClosesSocket).setCall k (.choosing pending)
  | .waiting => if relay.refCount = 0 then relay.setCall k .clearing else relay
  | .clearing => { relay.setCall k .closingServer with closers := [] }
  | .closingServer =>
    -- The server waits until the handlers of its connections have returned.
    if relay.tunnels.all fun tunnel ↦ tunnel.phase = .returned then
      { relay.setCall k .closingTickets with serverClosed := relay.serverClosed + 1 }
    else relay
  | .closingTickets =>
    { relay.setCall k .closingSocket with ticketsClosed := relay.ticketsClosed + 1 }
  | .closingSocket => { relay.setCall k .finished with udpClosed := relay.udpClosed + 1 }
  | .refused | .finished => relay

/-- One event; what cannot happen in the state changes nothing. -/
def act (config : TrailerConfig) (relay : Relay) : Event → Relay
  | .arrive source stream connClosed =>
    match relay.sessions.acquire source with
    | (sessions, true) =>
      { relay with
        sessions := sessions
        tunnels := relay.tunnels ++ [.new source stream.val connClosed] }
    | (_, false) => relay
  | .move i move => relay.move config i move
  | .delete i => relay.delete i
  | .datagram i data now surroundings => relay.outside i (.datagram data now surroundings)
  | .streamDone i => relay.outside i .streamDone
  | .connectionCloses i => relay.outside i .connectionCloses
  | .call => { relay with calls := relay.calls ++ [.entering] }
  | .step k choice =>
    match relay.calls[k]? with
    | none => relay
    | some call => relay.step k choice call

def run (config : TrailerConfig) (relay : Relay) (events : List Event) : Relay :=
  events.foldl (act config) relay

/-! ### What every step keeps -/

/-- The tunnel at an index, if there is one. -/
def At (relay : Relay) (i : ℕ) (property : Tunnel → Prop) : Prop :=
  ∀ tunnel, relay.tunnels[i]? = some tunnel → property tunnel

/-- The entries are closed, but for those that the call has still to come to. -/
def ClosedBut (relay : Relay) (pending : List ℕ) : Prop :=
  ∀ i ∈ relay.closers, i ∉ pending → relay.At i Tunnel.Shut

/-- No tunnel has its goroutines at work, and none is about to start them. -/
def Quiet (relay : Relay) : Prop := ∀ tunnel ∈ relay.tunnels, tunnel.registered = false

def Returned (relay : Relay) : Prop := ∀ tunnel ∈ relay.tunnels, tunnel.phase = .returned

end Relay

namespace Call

def active : Call → ℕ
  | entering | refused => 0
  | _ => 1

def pastServer : Call → ℕ
  | closingTickets | closingSocket | finished => 1
  | _ => 0

def pastTickets : Call → ℕ
  | closingSocket | finished => 1
  | _ => 0

def pastSocket : Call → ℕ
  | finished => 1
  | _ => 0

/-- What a call that stands here has brought about. -/
def Fits (relay : Relay) : Call → Prop
  | entering | refused | locking => True
  | choosing pending => relay.proxyClosed = true ∧ relay.ClosedBut pending
  | cancelling i pending => relay.proxyClosed = true ∧ relay.ClosedBut (i :: pending)
  | closingStream i pending =>
    relay.proxyClosed = true ∧ relay.ClosedBut (i :: pending) ∧
      (i ∈ relay.closers → relay.At i fun tunnel ↦ tunnel.stream.recvErr.isSome = true)
  | closingConn i pending =>
    relay.proxyClosed = true ∧ relay.ClosedBut (i :: pending) ∧
      (i ∈ relay.closers → relay.At i fun tunnel ↦
        tunnel.stream.recvErr.isSome = true ∧ tunnel.stream.sendErr.isSome = true)
  | waiting => relay.proxyClosed = true ∧ relay.ClosedBut []
  | clearing | closingServer => relay.proxyClosed = true ∧ relay.Quiet
  | closingTickets | closingSocket | finished => relay.proxyClosed = true ∧ relay.Returned

end Call

namespace Relay

/-- How many tunnels are in the proxy. -/
def flows (tunnels : List Tunnel) : ℕ :=
  weight (fun tunnel ↦ if tunnel.registered then 1 else 0) tunnels

/-- The calls, the counters and the map of closers fit the tunnels. -/
structure Sound (relay : Relay) : Prop where
  flag : relay.metricsDone = if relay.sessions.closed then 1 else 0
  active : weight Call.active relay.calls = relay.metricsDone
  server : weight Call.pastServer relay.calls = relay.serverClosed
  tickets : weight Call.pastTickets relay.calls = relay.ticketsClosed
  socket : weight Call.pastSocket relay.calls = relay.udpClosed
  fits : ∀ call ∈ relay.calls, call.Fits relay
  attentive : ∀ tunnel ∈ relay.tunnels, tunnel.Attentive
  staffed : ∀ tunnel ∈ relay.tunnels, tunnel.Staffed
  listed : ∀ i ∈ relay.closers, ∃ tunnel, relay.tunnels[i]? = some tunnel ∧ tunnel.registered = true
  complete : ∀ i tunnel, relay.tunnels[i]? = some tunnel → tunnel.registered = true →
    i ∈ relay.closers ∨ tunnel.phase = .leaving
  nodup : relay.closers.Nodup
  refCount : relay.refCount = flows relay.tunnels

theorem sound_start (maxSessions : ℤ) : (start maxSessions).Sound where
  flag := rfl
  active := rfl
  server := rfl
  tickets := rfl
  socket := rfl
  fits := by simp [start]
  attentive := by simp [start]
  staffed := by simp [start]
  listed := by simp [start]
  complete := by simp [start]
  nodup := by simp [start]
  refCount := rfl

end Relay

variable {config : TrailerConfig} {relay relay' : Relay}

/-- The tunnels of the entries have gone onward. -/
def Relay.Follows (relay' relay : Relay) : Prop :=
  ∀ i ∈ relay'.closers, i ∈ relay.closers ∧ ∀ tunnel', relay'.tunnels[i]? = some tunnel' →
    ∃ tunnel, relay.tunnels[i]? = some tunnel ∧ tunnel.Onward tunnel'

theorem Relay.Follows.at (h : relay'.Follows relay) {i : ℕ} (hi : i ∈ relay'.closers)
    {property : Tunnel → Prop}
    (hproperty : ∀ {tunnel tunnel'}, Tunnel.Onward tunnel tunnel' → property tunnel →
      property tunnel') (hat : relay.At i property) : relay'.At i property := by
  intro tunnel' hget'
  obtain ⟨tunnel, hget, honward⟩ := (h i hi).2 tunnel' hget'
  exact hproperty honward (hat tunnel hget)

theorem Relay.Follows.closedBut (h : relay'.Follows relay) {pending : List ℕ}
    (hclosed : relay.ClosedBut pending) : relay'.ClosedBut pending :=
  fun i hi hpending ↦ h.at hi (fun honward hshut ↦ hshut.onward honward)
    (hclosed i (h i hi).1 hpending)

/-- Assumes: no entry is added, the tunnels of the entries go onward, no tunnel starts where none is
at work, and all have returned if they had. -/
theorem Call.Fits.mono {call : Call} (h : call.Fits relay)
    (hproxy : relay.proxyClosed = true → relay'.proxyClosed = true)
    (hfollows : relay'.Follows relay) (hquiet : relay.Quiet → relay'.Quiet)
    (hreturned : relay.Returned → relay'.Returned) : call.Fits relay' := by
  cases call with
  | entering | refused | locking => exact trivial
  | choosing pending | cancelling i pending | waiting =>
    exact ⟨hproxy h.1, hfollows.closedBut h.2⟩
  | closingStream i pending =>
    exact ⟨hproxy h.1, hfollows.closedBut h.2.1, fun hi ↦ hfollows.at hi
      (fun honward ↦ honward.recvErr) (h.2.2 (hfollows i hi).1)⟩
  | closingConn i pending =>
    exact ⟨hproxy h.1, hfollows.closedBut h.2.1, fun hi ↦ hfollows.at hi
      (fun honward hended ↦ ⟨honward.recvErr hended.1, honward.sendErr hended.2⟩)
      (h.2.2 (hfollows i hi).1)⟩
  | clearing | closingServer => exact ⟨hproxy h.1, hquiet h.2⟩
  | closingTickets | closingSocket | finished => exact ⟨hproxy h.1, hreturned h.2⟩

/-- Assumes: an open proxy. No call has come to the entries. -/
theorem Call.Fits.of_open {call : Call} (h : call.Fits relay) (hopen : relay.proxyClosed = false) :
    call.Fits relay' := by
  cases call with
  | entering | refused | locking => exact trivial
  | _ => exact absurd h.1 (by simp [hopen])

theorem Call.fits_of_inactive {call : Call} (h : call.active = 0) : call.Fits relay := by
  cases call with
  | entering | refused => exact trivial
  | _ => cases h

namespace Relay

theorem flows_set {tunnels : List Tunnel} {i : ℕ} {tunnel : Tunnel}
    (hget : tunnels[i]? = some tunnel) (tunnel' : Tunnel) :
    flows (tunnels.set i tunnel') + (if tunnel.registered then 1 else 0) =
      flows tunnels + if tunnel'.registered then 1 else 0 :=
  weight_set _ hget tunnel'

/-- Assumes: the tunnel keeps its place in the proxy. -/
theorem Sound.setTunnel (h : relay.Sound) {i : ℕ} {tunnel tunnel' : Tunnel}
    (hget : relay.tunnels[i]? = some tunnel) (honward : tunnel.Onward tunnel')
    (hregistered : tunnel'.registered = tunnel.registered)
    (hleaving : tunnel.phase = .leaving → tunnel'.phase = .leaving)
    (hreturned : tunnel.phase = .returned → tunnel'.phase = .returned)
    (hattentive : tunnel'.Attentive) (hstaffed : tunnel'.Staffed) :
    (relay.setTunnel i tunnel').Sound where
  flag := h.flag
  active := h.active
  server := h.server
  tickets := h.tickets
  socket := h.socket
  fits call hcall := by
    have hmem := List.mem_of_getElem? hget
    refine (h.fits call hcall).mono id (fun j hj ↦ ⟨hj, fun other hother ↦ ?_⟩)
      (fun hquiet ↦ forall_mem_set hquiet (hregistered.trans (hquiet tunnel hmem)))
      fun hall ↦ forall_mem_set hall (hreturned (hall tunnel hmem))
    rcases getElem?_set_cases hother with ⟨rfl, rfl⟩ | ⟨-, hold⟩
    · exact ⟨tunnel, hget, honward⟩
    · exact ⟨other, hold, Tunnel.Onward.refl other⟩
  attentive := forall_mem_set h.attentive hattentive
  staffed := forall_mem_set h.staffed hstaffed
  listed j hj := by
    obtain ⟨other, hother, hat⟩ := h.listed j hj
    by_cases hij : i = j
    · subst hij
      rw [hget] at hother
      obtain rfl := Option.some.inj hother
      exact ⟨tunnel', List.getElem?_set_self (List.getElem?_eq_some_iff.mp hget).1,
        hregistered.trans hat⟩
    · exact ⟨other, by rw [← hother]; exact List.getElem?_set_ne hij, hat⟩
  complete j other hother hat := by
    rcases getElem?_set_cases hother with ⟨rfl, rfl⟩ | ⟨-, hold⟩
    · exact (h.complete j tunnel hget (hregistered ▸ hat)).imp_right hleaving
    · exact h.complete j other hold hat
  nodup := h.nodup
  refCount := by
    have hflows := flows_set hget tunnel'
    rw [hregistered, Nat.add_right_cancel_iff] at hflows
    exact h.refCount.trans (congrArg Nat.cast hflows.symm)

theorem Sound.withSessions (h : relay.Sound) {sessions : Sessions}
    (hclosed : sessions.closed = relay.sessions.closed) :
    Sound { relay with sessions := sessions } :=
  { h with
    flag := by simp only [hclosed]; exact h.flag
    fits := fun call hcall ↦ (h.fits call hcall).mono id
      (fun i hi ↦ ⟨hi, fun tunnel hget ↦ ⟨tunnel, hget, Tunnel.Onward.refl tunnel⟩⟩) id id }

theorem Sound.outside (h : relay.Sound) (i : ℕ) (outside : Outside) :
    (relay.outside i outside).Sound := by
  unfold Relay.outside
  split
  · exact h
  · next tunnel hget =>
    have hmem := List.mem_of_getElem? hget
    exact h.setTunnel hget (tunnel.onward_outside _ outside) (tunnel.registered_outside _ outside)
      (fun hleaving ↦ (tunnel.outside_outline _ outside).1.trans hleaving)
      (fun hreturned ↦ (tunnel.outside_outline _ outside).1.trans hreturned)
      ((h.attentive tunnel hmem).outside outside) ((h.staffed tunnel hmem).outside outside)

/-- Assumes: a tunnel comes into the map of an open proxy. -/
theorem Sound.register (h : relay.Sound) {i : ℕ} {tunnel tunnel' : Tunnel}
    (hget : relay.tunnels[i]? = some tunnel) (hopen : relay.proxyClosed = false)
    (hold : tunnel.registered = false) (hnew : tunnel'.registered = true)
    (hattentive : tunnel'.Attentive) (hstaffed : tunnel'.Staffed) :
    Sound { relay with
      closers := relay.closers ++ [i], refCount := relay.refCount + 1
      tunnels := relay.tunnels.set i tunnel' } where
  flag := h.flag
  active := h.active
  server := h.server
  tickets := h.tickets
  socket := h.socket
  fits call hcall := (h.fits call hcall).of_open hopen
  attentive := forall_mem_set h.attentive hattentive
  staffed := forall_mem_set h.staffed hstaffed
  listed j hj := by
    have hself : (relay.tunnels.set i tunnel')[i]? = some tunnel' :=
      List.getElem?_set_self (List.getElem?_eq_some_iff.mp hget).1
    by_cases hij : i = j
    · subst hij
      exact ⟨tunnel', hself, hnew⟩
    · rcases List.mem_append.mp hj with hj | hj
      · obtain ⟨other, hother, hat⟩ := h.listed j hj
        exact ⟨other, by rw [← hother]; exact List.getElem?_set_ne hij, hat⟩
      · exact absurd (List.mem_singleton.mp hj).symm hij
  complete j other hother hat := by
    rcases getElem?_set_cases hother with ⟨rfl, rfl⟩ | ⟨-, hold⟩
    · exact Or.inl (List.mem_append_right _ (List.mem_singleton_self _))
    · exact (h.complete j other hold hat).imp_left (List.mem_append_left _)
  nodup := by
    refine List.nodup_append.mpr ⟨h.nodup, List.nodup_singleton i, ?_⟩
    rintro j hj _ hi rfl
    obtain ⟨other, hother, hat⟩ := h.listed j hj
    rw [List.mem_singleton.mp hi, hget] at hother
    obtain rfl := Option.some.inj hother
    rw [hold] at hat
    cases hat
  refCount := by
    have hflows := flows_set hget tunnel'
    have hcount := h.refCount
    simp only [hold, hnew, if_true, Bool.false_eq_true, if_false] at hflows ⊢
    omega

/-- Assumes: a tunnel leaves whose entry has been removed. -/
theorem Sound.leave (h : relay.Sound) {i : ℕ} {tunnel tunnel' : Tunnel}
    (hget : relay.tunnels[i]? = some tunnel) (hremoved : i ∉ relay.closers)
    (hold : tunnel.registered = true) (hnew : tunnel'.registered = false)
    (hreturned : tunnel.phase = .returned → tunnel'.phase = .returned)
    (hattentive : tunnel'.Attentive) (hstaffed : tunnel'.Staffed) :
    Sound { relay with
      refCount := relay.refCount - 1, tunnels := relay.tunnels.set i tunnel' } where
  flag := h.flag
  active := h.active
  server := h.server
  tickets := h.tickets
  socket := h.socket
  fits call hcall := by
    refine (h.fits call hcall).mono id (fun j hj ↦ ⟨hj, fun other hother ↦ ?_⟩)
      (fun hquiet ↦ forall_mem_set hquiet hnew)
      fun hall ↦ forall_mem_set hall (hreturned (hall tunnel (List.mem_of_getElem? hget)))
    rcases getElem?_set_cases hother with ⟨rfl, -⟩ | ⟨-, hsame⟩
    · exact absurd hj hremoved
    · exact ⟨other, hsame, Tunnel.Onward.refl other⟩
  attentive := forall_mem_set h.attentive hattentive
  staffed := forall_mem_set h.staffed hstaffed
  listed j hj := by
    have hij : i ≠ j := fun heq ↦ hremoved (heq ▸ hj)
    obtain ⟨other, hother, hat⟩ := h.listed j hj
    exact ⟨other, by rw [← hother]; exact List.getElem?_set_ne hij, hat⟩
  complete j other hother hat := by
    rcases getElem?_set_cases hother with ⟨rfl, rfl⟩ | ⟨-, hsame⟩
    · rw [hnew] at hat
      cases hat
    · exact h.complete j other hsame hat
  nodup := h.nodup
  refCount := by
    have hflows := flows_set hget tunnel'
    have hcount := h.refCount
    simp only [hold, hnew, if_true, Bool.false_eq_true, if_false] at hflows ⊢
    omega

theorem Sound.move (h : relay.Sound) (config : TrailerConfig) (i : ℕ) (move : Move) :
    (relay.move config i move).Sound := by
  unfold Relay.move
  split
  · exact h
  · next tunnel hget =>
    have hmem := List.mem_of_getElem? hget
    split
    · exact h
    · next tunnel' hmove =>
      have hattentive := (h.attentive tunnel hmem).move hmove
      have hstaffed := (h.staffed tunnel hmem).move hmove
      have hpassage := Tunnel.passage_of_move hmove
      have hset := h.setTunnel hget (Tunnel.onward_move hmove)
      split_ifs with hmay
      · cases move with
        | register =>
          obtain ⟨hphase, hregistered⟩ := Tunnel.move_register hmove
          have hold : tunnel.registered = false := by rw [Tunnel.registered, hphase]
          simp only [account]
          split_ifs with hclosed
          · rw [hclosed] at hregistered
            exact hset (hregistered.trans hold.symm) (hpassage.leaving (by simp))
              hpassage.returned hattentive hstaffed
          · rw [Bool.not_eq_true] at hclosed
            rw [hclosed] at hregistered
            exact h.register hget hclosed hold hregistered hattentive hstaffed
        | leave =>
          obtain ⟨hphase, hregistered⟩ := Tunnel.move_leave hmove
          refine h.leave hget (by simpa [mayMove] using hmay) ?_ hregistered hpassage.returned
            hattentive hstaffed
          rw [Tunnel.registered, hphase]
        | release =>
          have hsound := hset (hpassage.registered (by simp) (by simp))
            (hpassage.leaving (by simp)) hpassage.returned hattentive hstaffed
          exact hsound.withSessions rfl
        | _ =>
          exact hset (hpassage.registered (by simp) (by simp)) (hpassage.leaving (by simp))
            hpassage.returned hattentive hstaffed
      · exact h

theorem follows_of_subset {closers : List ℕ} (hsubset : ∀ i ∈ closers, i ∈ relay.closers) :
    Follows { relay with closers := closers } relay :=
  fun i hi ↦ ⟨hsubset i hi, fun tunnel hget ↦ ⟨tunnel, hget, Tunnel.Onward.refl tunnel⟩⟩

theorem Sound.delete (h : relay.Sound) (i : ℕ) : (relay.delete i).Sound := by
  unfold Relay.delete
  split
  · exact h
  · next tunnel hget =>
    split_ifs with hleaving
    · have hsubset : ∀ j ∈ relay.closers.erase i, j ∈ relay.closers := fun j ↦ List.mem_of_mem_erase
      exact { h with
        fits := fun call hcall ↦ (h.fits call hcall).mono id (follows_of_subset hsubset) id id
        listed := fun j hj ↦ h.listed j (hsubset j hj)
        complete := fun j other hother hat ↦ by
          by_cases hij : j = i
          · subst hij
            rw [hget] at hother
            obtain rfl := Option.some.inj hother
            exact Or.inr hleaving.1
          · exact (h.complete j other hother hat).imp_left (List.mem_erase_of_ne hij).mpr
        nodup := h.nodup.erase i }
    · exact h

/-- Assumes: no call has got past the flag. -/
theorem Sound.arrive (h : relay.Sound) (hopen : relay.sessions.closed = false) (source : Text)
    {stream : TrackedStream} (hstream : stream.Ok) (connClosed : Bool) :
    Sound { relay with tunnels := relay.tunnels ++ [.new source stream connClosed] } where
  flag := h.flag
  active := h.active
  server := h.server
  tickets := h.tickets
  socket := h.socket
  fits call hcall := by
    have hle : call.active ≤ weight Call.active relay.calls := le_weight hcall
    have hflag := h.flag
    rw [if_neg (by simp [hopen])] at hflag
    rw [h.active] at hle
    exact Call.fits_of_inactive (by omega)
  attentive := List.forall_mem_append.mpr
    ⟨h.attentive, List.forall_mem_singleton.mpr ⟨hstream, by simp [Tunnel.new]⟩⟩
  staffed := List.forall_mem_append.mpr
    ⟨h.staffed, List.forall_mem_singleton.mpr (Tunnel.staffed_new source stream connClosed)⟩
  listed i hi := by
    obtain ⟨tunnel, hget, hat⟩ := h.listed i hi
    exact ⟨tunnel, List.getElem?_append_left (List.getElem?_eq_some_iff.mp hget).1 |>.trans hget,
      hat⟩
  complete i tunnel hget hat := by
    rcases getElem?_snoc_cases hget with hold | ⟨-, rfl⟩
    · exact h.complete i tunnel hold hat
    · cases hat
  nodup := h.nodup
  refCount := by
    rw [flows, weight_append]
    exact h.refCount

/-- Assumes: a call goes on, and what it closes is counted. -/
theorem Sound.advance (h : relay.Sound) {k : ℕ} {old new : Call} (hk : relay.calls[k]? = some old)
    {sessions : Sessions} {metricsDone serverClosed ticketsClosed udpClosed : ℕ}
    (hflag : metricsDone = if sessions.closed then 1 else 0)
    (hactive : relay.metricsDone + new.active = metricsDone + old.active)
    (hserver : relay.serverClosed + new.pastServer = serverClosed + old.pastServer)
    (htickets : relay.ticketsClosed + new.pastTickets = ticketsClosed + old.pastTickets)
    (hsocket : relay.udpClosed + new.pastSocket = udpClosed + old.pastSocket)
    (hfits : new.Fits relay) :
    Sound { relay with
      calls := relay.calls.set k new, sessions := sessions, metricsDone := metricsDone
      serverClosed := serverClosed, ticketsClosed := ticketsClosed, udpClosed := udpClosed } where
  flag := hflag
  active := by
    have hweight := weight_set Call.active hk new
    rw [h.active, hactive] at hweight
    exact Nat.add_right_cancel hweight
  server := by
    have hweight := weight_set Call.pastServer hk new
    rw [h.server, hserver] at hweight
    exact Nat.add_right_cancel hweight
  tickets := by
    have hweight := weight_set Call.pastTickets hk new
    rw [h.tickets, htickets] at hweight
    exact Nat.add_right_cancel hweight
  socket := by
    have hweight := weight_set Call.pastSocket hk new
    rw [h.socket, hsocket] at hweight
    exact Nat.add_right_cancel hweight
  fits call hcall :=
    (forall_mem_set h.fits hfits call hcall).mono id (follows_of_subset fun _ hi ↦ hi) id id
  attentive := h.attentive
  staffed := h.staffed
  listed := h.listed
  complete := h.complete
  nodup := h.nodup
  refCount := h.refCount

/-- Assumes: a call goes on that closes nothing of the server. -/
theorem Sound.setCall (h : relay.Sound) {k : ℕ} {old new : Call} (hk : relay.calls[k]? = some old)
    (hactive : new.active = old.active) (hserver : new.pastServer = old.pastServer)
    (htickets : new.pastTickets = old.pastTickets) (hsocket : new.pastSocket = old.pastSocket)
    (hfits : new.Fits relay) : (relay.setCall k new).Sound :=
  h.advance hk h.flag (by rw [hactive]) (by rw [hserver]) (by rw [htickets]) (by rw [hsocket]) hfits

theorem Sound.closeProxy (h : relay.Sound) : Sound { relay with proxyClosed := true } :=
  { h with
    fits := fun call hcall ↦
      (h.fits call hcall).mono (fun _ ↦ rfl) (follows_of_subset fun _ hi ↦ hi) id id }

/-- Assumes: no tunnel is at work. -/
theorem Sound.clear (h : relay.Sound) (hquiet : relay.Quiet) : Sound { relay with closers := [] } :=
  { h with
    fits := fun call hcall ↦ (h.fits call hcall).mono id (follows_of_subset (by simp)) id id
    listed := by simp
    complete := fun i tunnel hget hat ↦ by
      rw [hquiet tunnel (List.mem_of_getElem? hget)] at hat
      cases hat
    nodup := List.nodup_nil }

/-- Assumes: the counter of the tunnels is zero. -/
theorem Sound.quiet (h : relay.Sound) (hzero : relay.refCount = 0) : relay.Quiet := by
  intro tunnel hmem
  have hcount := h.refCount
  have hle : (if tunnel.registered then 1 else 0) ≤ flows relay.tunnels :=
    le_weight (f := fun tunnel : Tunnel ↦ if tunnel.registered then 1 else 0) hmem
  rw [← Bool.not_eq_true]
  intro hregistered
  rw [if_pos hregistered] at hle
  omega

/-- One step of `proxyEntry.Close`. -/
theorem at_outside {i : ℕ} (outside : Outside) {property : Tunnel → Prop}
    (hat : relay.At i fun tunnel ↦ property (tunnel.outside relay.proxyClosed outside)) :
    (relay.outside i outside).At i property := by
  intro tunnel' hget'
  unfold Relay.outside at hget'
  split at hget'
  · next hnone => exact absurd (hnone.symm.trans hget') (by simp)
  · next tunnel hget =>
    rw [Relay.setTunnel, List.getElem?_set_self (List.getElem?_eq_some_iff.mp hget).1] at hget'
    obtain rfl := Option.some.inj hget'
    exact hat tunnel hget

theorem follows_outside (i : ℕ) (outside : Outside) : (relay.outside i outside).Follows relay := by
  unfold Relay.outside
  split
  · exact follows_of_subset fun _ hi ↦ hi
  · next tunnel hget =>
    refine fun j hj ↦ ⟨hj, fun other hother ↦ ?_⟩
    rcases getElem?_set_cases hother with ⟨rfl, rfl⟩ | ⟨-, hsame⟩
    · exact ⟨tunnel, hget, tunnel.onward_outside _ outside⟩
    · exact ⟨other, hsame, Tunnel.Onward.refl other⟩

@[simp] theorem calls_outside (i : ℕ) (outside : Outside) :
    (relay.outside i outside).calls = relay.calls := by
  unfold Relay.outside
  split <;> rfl

@[simp] theorem closers_outside (i : ℕ) (outside : Outside) :
    (relay.outside i outside).closers = relay.closers := by
  unfold Relay.outside
  split <;> rfl

@[simp] theorem proxyClosed_outside (i : ℕ) (outside : Outside) :
    (relay.outside i outside).proxyClosed = relay.proxyClosed := by
  unfold Relay.outside
  split <;> rfl

theorem Sound.step (h : relay.Sound) {k : ℕ} {call : Call} (hk : relay.calls[k]? = some call)
    (choice : ℕ) : (relay.step k choice call).Sound := by
  have hfits := h.fits call (List.mem_of_getElem? hk)
  cases call with
  | entering =>
    simp only [Relay.step]
    split_ifs with hclosed
    · exact h.setCall hk rfl rfl rfl rfl trivial
    · have hflag := h.flag
      rw [if_neg hclosed] at hflag
      exact h.advance hk (by rw [hflag]; rfl) rfl rfl rfl rfl trivial
  | refused | finished => exact h
  | locking =>
    simp only [Relay.step]
    split_ifs
    · exact h
    · exact h.closeProxy.setCall hk rfl rfl rfl rfl ⟨rfl, fun i hi hpending ↦ absurd hi hpending⟩
  | choosing pending =>
    simp only [Relay.step]
    split_ifs with hchoice hempty
    · refine h.setCall hk rfl rfl rfl rfl ⟨hfits.1, fun i hi hpending ↦ hfits.2 i hi ?_⟩
      rw [List.mem_cons, not_or] at hpending
      exact fun hmem ↦ hpending.2 ((List.mem_erase_of_ne hpending.1).mpr hmem)
    · rw [List.isEmpty_iff.mp hempty] at hfits
      exact h.setCall hk rfl rfl rfl rfl hfits
    · exact h
  | cancelling i pending =>
    rw [← calls_outside i .entryCancelsRead] at hk
    refine (h.outside i .entryCancelsRead).setCall hk rfl rfl rfl rfl
      ⟨by simpa using hfits.1, (follows_outside i _).closedBut hfits.2, fun hi ↦ at_outside _ ?_⟩
    rw [closers_outside] at hi
    intro tunnel hget
    obtain ⟨known, hknown, hregistered⟩ := h.listed i hi
    rw [hget] at hknown
    obtain rfl := Option.some.inj hknown
    simp only [Tunnel.outside, hfits.1, hregistered, and_self, if_true]
    exact TrackedStream.isSome_recvErr_closeReceive _ _
  | closingStream i pending =>
    rw [← calls_outside i .entryClosesStream] at hk
    refine (h.outside i .entryClosesStream).setCall hk rfl rfl rfl rfl
      ⟨by simpa using hfits.1, (follows_outside i _).closedBut hfits.2.1, fun hi ↦ at_outside _ ?_⟩
    rw [closers_outside] at hi
    intro tunnel hget
    obtain ⟨known, hknown, hregistered⟩ := h.listed i hi
    rw [hget] at hknown
    obtain rfl := Option.some.inj hknown
    simp only [Tunnel.outside, hfits.1, hregistered, and_self, if_true]
    exact ⟨by simpa [TrackedStream.close] using hfits.2.2 hi tunnel hget,
      TrackedStream.isSome_sendErr_closeSend _ _⟩
  | closingConn i pending =>
    rw [← calls_outside i .entryClosesSocket] at hk
    refine (h.outside i .entryClosesSocket).setCall hk rfl rfl rfl rfl
      ⟨by simpa using hfits.1, fun j hj hpending ↦ ?_⟩
    rw [closers_outside] at hj
    by_cases hij : j = i
    · subst hij
      refine at_outside _ fun tunnel hget ↦ ?_
      obtain ⟨known, hknown, hregistered⟩ := h.listed j hj
      rw [hget] at hknown
      obtain rfl := Option.some.inj hknown
      have hended := hfits.2.2 hj tunnel hget
      simp only [Tunnel.outside, hfits.1, hregistered, and_self, if_true]
      exact ⟨hended.1, hended.2, rfl⟩
    · exact (follows_outside i _).closedBut hfits.2.1 j (by simpa using hj)
        (by simp [hij, hpending])
  | waiting =>
    simp only [Relay.step]
    split_ifs with hzero
    · exact h.setCall hk rfl rfl rfl rfl ⟨hfits.1, h.quiet hzero⟩
    · exact h
  | clearing => exact (h.clear hfits.2).setCall hk rfl rfl rfl rfl hfits
  | closingServer =>
    simp only [Relay.step]
    split_ifs with hall
    · exact h.advance hk h.flag rfl rfl rfl rfl ⟨hfits.1, by simpa [Returned] using hall⟩
    · exact h
  | closingTickets => exact h.advance hk h.flag rfl rfl rfl rfl hfits
  | closingSocket => exact h.advance hk h.flag rfl rfl rfl rfl hfits

theorem Sound.act (h : relay.Sound) (event : Event) : (relay.act config event).Sound := by
  cases event with
  | arrive source stream connClosed =>
    simp only [Relay.act]
    split
    · next sessions hacquire =>
      have hopen : relay.sessions.closed = false ∧ sessions.closed = relay.sessions.closed := by
        unfold Sessions.acquire at hacquire
        split_ifs at hacquire with hfull
        · cases hacquire
        · obtain ⟨rfl, -⟩ := Prod.mk.inj hacquire
          simp only [not_or, Bool.not_eq_true] at hfull
          exact ⟨hfull.1, rfl⟩
      exact (h.arrive hopen.1 source stream.property connClosed).withSessions hopen.2
    · exact h
  | move i move => exact h.move config i move
  | delete i => exact h.delete i
  | datagram i data now surroundings => exact h.outside i _
  | streamDone i => exact h.outside i _
  | connectionCloses i => exact h.outside i _
  | call =>
    exact {
      flag := h.flag
      active := by simpa [Relay.act, Call.active] using h.active
      server := by simpa [Relay.act, Call.pastServer] using h.server
      tickets := by simpa [Relay.act, Call.pastTickets] using h.tickets
      socket := by simpa [Relay.act, Call.pastSocket] using h.socket
      fits := List.forall_mem_append.mpr ⟨fun call hcall ↦ (h.fits call hcall).mono id
        (follows_of_subset fun _ hi ↦ hi) id id, List.forall_mem_singleton.mpr trivial⟩
      attentive := h.attentive
      staffed := h.staffed
      listed := h.listed
      complete := h.complete
      nodup := h.nodup
      refCount := h.refCount }
  | step k choice =>
    simp only [Relay.act]
    split
    · exact h
    · next call hk => exact h.step hk choice

theorem Sound.run (h : relay.Sound) (events : List Event) : (relay.run config events).Sound := by
  induction events generalizing relay with
  | nil => exact h
  | cons event events ih => exact ih (h.act event)

/-- Assumes: two calls that have got past the flag. -/
theorem Sound.eq_of_active (h : relay.Sound) {j k : ℕ} {first second : Call}
    (hj : relay.calls[j]? = some first) (hk : relay.calls[k]? = some second)
    (hfirst : first.active = 1) (hsecond : second.active = 1) : j = k := by
  by_contra hne
  have hle := add_le_weight (f := Call.active) hne hj hk
  have hflag := h.flag
  rw [h.active] at hle
  split_ifs at hflag <;> omega

end Relay

/-! ### Results -/

/-- The call is past the wait for the tunnels. -/
def Call.isPastWait : Call → Bool
  | clearing | closingServer | closingTickets | closingSocket | finished => true
  | _ => false

/-- Assumes: a call that is past the wait. No tunnel is at work. -/
theorem Relay.Sound.quiet_of_isPastWait (h : relay.Sound) {call : Call} (hcall : call ∈ relay.calls)
    (hpast : call.isPastWait = true) : relay.Quiet := by
  have hfits := h.fits call hcall
  cases call with
  | clearing | closingServer => exact hfits.2
  | closingTickets | closingSocket | finished =>
    exact fun tunnel hmem ↦ by rw [Tunnel.registered, hfits.2 tunnel hmem]
  | _ => cases hpast

theorem Call.pastServer_le (call : Call) : call.pastServer ≤ call.active := by
  cases call <;> simp [pastServer, active]

theorem Call.pastTickets_le (call : Call) : call.pastTickets ≤ call.active := by
  cases call <;> simp [pastTickets, active]

theorem Call.pastSocket_le (call : Call) : call.pastSocket ≤ call.active := by
  cases call <;> simp [pastSocket, active]

/-- In every run of the relay, with any number of calls of `Server.Close` among the steps of the
tunnels: the channel of the metrics, the HTTP/3 server, the ticket authority and the socket are
closed at most once, the counter of `Proxy` is the number of the tunnels between their registration
and their return, and once a call has got past the flag no session is granted. When a call is past
its wait for the tunnels, no tunnel is between these points: its goroutines have not been started,
or they have ended and its socket is closed. When a call has closed everything, every handler of a
tunnel has returned. -/
theorem close_ends_every_tunnel (config : TrailerConfig) (maxSessions : ℤ) (events : List Event) :
    let relay := (Relay.start maxSessions).run config events
    (relay.metricsDone ≤ 1 ∧ relay.serverClosed ≤ 1 ∧ relay.ticketsClosed ≤ 1 ∧
      relay.udpClosed ≤ 1) ∧
    relay.refCount = (relay.tunnels.filter Tunnel.registered).length ∧
    ((∃ call ∈ relay.calls, call.active = 1) →
      ∀ source, (relay.sessions.acquire source).2 = false) ∧
    ((∃ call ∈ relay.calls, call.isPastWait = true) → ∀ tunnel ∈ relay.tunnels,
      tunnel.registered = false ∧
        (tunnel.sender = .idle ∧ tunnel.receiver = .idle ∨
          tunnel.sender = .done ∧ tunnel.receiver = .done ∧ tunnel.socketClosed = true)) ∧
    (.finished ∈ relay.calls → ∀ tunnel ∈ relay.tunnels, tunnel.phase = .returned) := by
  intro relay
  have hsound : relay.Sound := (Relay.sound_start maxSessions).run events
  have hmetrics : relay.metricsDone ≤ 1 := by
    have hflag := hsound.flag
    split_ifs at hflag <;> omega
  have hserver : relay.serverClosed ≤ relay.metricsDone := by
    rw [← hsound.server, ← hsound.active]
    exact weight_mono fun call _ ↦ call.pastServer_le
  have htickets : relay.ticketsClosed ≤ relay.metricsDone := by
    rw [← hsound.tickets, ← hsound.active]
    exact weight_mono fun call _ ↦ call.pastTickets_le
  have hsocket : relay.udpClosed ≤ relay.metricsDone := by
    rw [← hsound.socket, ← hsound.active]
    exact weight_mono fun call _ ↦ call.pastSocket_le
  refine ⟨⟨hmetrics, by omega, by omega, by omega⟩, ?_, ?_, ?_,
    fun hfinished ↦ (hsound.fits _ hfinished).2⟩
  · rw [hsound.refCount, Relay.flows, weight_indicator]
  · rintro ⟨call, hcall, hactive⟩ source
    have hle : call.active ≤ weight Call.active relay.calls := le_weight hcall
    have hclosed : relay.sessions.closed = true := by
      by_contra hopen
      have hflag := hsound.flag
      rw [if_neg hopen] at hflag
      rw [hsound.active] at hle
      omega
    simp [Sessions.acquire, hclosed]
  · rintro ⟨call, hcall, hpast⟩ tunnel hmem
    have hstaffed := hsound.staffed tunnel hmem
    have hregistered := hsound.quiet_of_isPastWait hcall hpast tunnel hmem
    refine ⟨hregistered, ?_⟩
    unfold Tunnel.Staffed at hstaffed
    cases hphase : tunnel.phase <;> simp_all [Tunnel.registered]

end QortalRelay.Shutdown
