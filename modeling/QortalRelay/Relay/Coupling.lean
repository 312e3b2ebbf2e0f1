import QortalRelay.Relay.Outbound
import QortalRelay.Relay.Shutdown

/-!
# Tunnels and the queues of their connections

`proxyConnReceive` of a tunnel is looked at from two sides: it is a goroutine that the handler of
the tunnel, and with it `Server.Close`, waits for, and it is a caller of `Add` at the queue of its
connection, where it may have to wait itself. Here the two machines run together. A request arrives
on a stream of a connection, and from then on a step of the call at the queue is also a step of the
tunnel where the tunnel notices it (`moveOf`). What ends the send side of the stream is a matter of
the tunnel, what empties the queue or ends the connection is one of the connection.

Each of the machines is, after every joint run, in a state that it can reach by itself, every tunnel
has a port of its own, and its goroutine stands where the call of the port stands
(`Joint.Coupled`, `Joint.coupled_run`).
-/

set_option autoImplicit false
set_option relaxedAutoImplicit false

namespace QortalRelay.Coupling

open Foundation Foundation.Encoding Foundation.Store Foundation.Trace Datagrams Http3 Admission
open Tunnels
open Outbound (SendSide Port Step StreamId)

/-! ### The machine -/

/-- The relay with the send sides of its connections. The place of a tunnel is its connection and
the port of its stream there. -/
structure Joint where
  relay : Shutdown.Relay
  sides : List SendSide
  places : List (ℕ × ℕ)

/-- The events of the shutdown model and those of the send sides. A step of a receiving loop is one
event of both. -/
inductive Event
  | connect
  /-- A request for a permitted target comes to `acquire`, on a stream of a connection. -/
  | arrive (c : ℕ) (id : StreamId) (source : Text)
      (stream : { stream : TrackedStream // stream.Ok }) (connClosed : Bool)
  | relay (event : Shutdown.Event)
  /-- A step of `proxyConnReceive` of a tunnel. -/
  | call (i : ℕ) (step : Step)
  /-- A step of the packer of a connection, or the end of the connection. -/
  | connection (c : ℕ) (event : Outbound.Event)

/-- The events of the relay that are neither a request nor a step of `proxyConnReceive` on its way
from the socket to the queue. -/
def isOwn : Shutdown.Event → Bool
  | .arrive _ _ _ | .move _ (.readSocket _) | .move _ .checkSend | .move _ (.sendDatagram _) =>
    false
  | _ => true

def isConnection : Outbound.Event → Bool
  | .peek | .pop _ | .keep | .close => true
  | .serve _ | .step _ _ => false

/-- What a step of a call is for its tunnel. -/
def moveOf (closed : Bool) (port : Port) : Step → Option Move
  | .readSocket packet =>
    match port.call with
    | .reading => some (.readSocket packet)
    | _ => none
  | .check =>
    match port.call with
    | .checking _ => some .checkSend
    | _ => none
  | .size maxDataLen =>
    match port.call with
    | .sizing payload =>
      if maxDataLen.any ((Outbound.datagram port.id payload).length ≤ ·) then none
      else some (.sendDatagram false)
    | _ => none
  | .fail =>
    match port.call, closed with
    | .waiting _, true => some (.sendDatagram false)
    | _, _ => none
  | .notify =>
    match port.call with
    | .notifying => some (.sendDatagram true)
    | _ => none
  | .endSend | .enter | .wake => none

/-- The send side of the stream is looked at where it is, in the tunnel. -/
def mayStep (tunnel : Tunnel) (port : Port) : Step → Bool
  | .endSend => tunnel.stream.sendErr.isSome
  | .check => port.sendErr == tunnel.stream.sendErr.isSome
  | _ => true

/-- The tunnel after a step of its call; none if the step cannot be taken. -/
def after (config : TrailerConfig) (proxyClosed closed : Bool) (tunnel : Tunnel) (port : Port)
    (step : Step) : Option Tunnel :=
  if mayStep tunnel port step then
    match moveOf closed port step with
    | none => some tunnel
    | some move => tunnel.move config proxyClosed move
  else none

namespace Joint

def start (maxSessions : ℤ) : Joint := ⟨.start maxSessions, [], []⟩

def setSide (joint : Joint) (c : ℕ) (side : SendSide) : Joint :=
  { joint with sides := joint.sides.set c side }

def call (config : TrailerConfig) (joint : Joint) (i : ℕ) (step : Step) : Option Joint := do
  let (c, p) ← joint.places[i]?
  let side ← joint.sides[c]?
  let port ← side.ports[p]?
  let tunnel ← joint.relay.tunnels[i]?
  let tunnel' ← after config joint.relay.proxyClosed side.closed tunnel port step
  some { joint.setSide c (side.act (.step p step)) with relay := joint.relay.setTunnel i tunnel' }

/-- One event. What would move one of the two models alone changes nothing. -/
def act (config : TrailerConfig) (joint : Joint) : Event → Joint
  | .connect => { joint with sides := joint.sides ++ [.start] }
  | .arrive c id source stream connClosed =>
    match joint.sides[c]?, (joint.relay.sessions.acquire source).2 with
    | some side, true =>
      -- A stream carries one request.
      if side.ports.any (·.id.value == id.value) then joint
      else
        { relay := joint.relay.act config (.arrive source stream connClosed)
          sides := joint.sides.set c (side.act (.serve id))
          places := joint.places ++ [(c, side.ports.length)] }
    | _, _ => joint
  | .relay event =>
    if isOwn event then { joint with relay := joint.relay.act config event } else joint
  | .call i step => (joint.call config i step).getD joint
  | .connection c event =>
    match joint.sides[c]?, isConnection event with
    | some side, true => joint.setSide c (side.act event)
    | _, _ => joint

def run (config : TrailerConfig) (joint : Joint) (events : List Event) : Joint :=
  events.foldl (act config) joint

end Joint

/-! ### One tunnel and its port -/

/-- The goroutine stands where the call stands. A call that is past the check of the send side is
`queueing` for the tunnel, wherever it is in `Add`. -/
inductive Stands : Outbound.Call → Receiver → Prop
  | idle : Stands .reading .idle
  | reading : Stands .reading .reading
  | checking (payload : Bytes) : Stands (.checking payload) (.sending payload)
  | sizing (payload : Bytes) : Stands (.sizing payload) .queueing
  | entering (payload : Bytes) : Stands (.entering payload) .queueing
  | waiting (payload : Bytes) : Stands (.waiting payload) .queueing
  | notifying : Stands .notifying .queueing
  | ending : Stands .ended .ending
  | done : Stands .ended .done

/-- The call has found the send side open and has not returned. -/
def isPastCheck : Outbound.Call → Bool
  | .sizing _ | .entering _ | .waiting _ | .notifying => true
  | .reading | .checking _ | .ended => false

theorem Stands.eq_queueing {call : Outbound.Call} {receiver : Receiver} (h : Stands call receiver)
    (hpast : isPastCheck call = true) : receiver = .queueing := by
  cases h <;> first | rfl | cases hpast

theorem stands_queueing {call : Outbound.Call} (hpast : isPastCheck call = true) :
    Stands call .queueing := by
  cases call with
  | sizing payload => exact .sizing payload
  | entering payload => exact .entering payload
  | waiting payload => exact .waiting payload
  | notifying => exact .notifying
  | _ => cases hpast

/-- The port of a send side and the tunnel of the relay are at the same place of the same loop, and
a send side that has ended for the port has ended for the tunnel. -/
structure Mirrors (port : Port) (tunnel : Tunnel) : Prop where
  stands : Stands port.call tunnel.receiver
  sendErr : port.sendErr = true → tunnel.stream.sendErr.isSome = true

/-- After a step of the call, its port and the goroutine are together again, and nothing else of the
tunnel has changed. -/
def Together (side : SendSide) (p : ℕ) (tunnel : Tunnel) (step : Step) (tunnel' : Tunnel) : Prop :=
  ∃ port', (side.act (.step p step)).ports = side.ports.set p port' ∧
    (∃ receiver, tunnel' = { tunnel with receiver := receiver }) ∧ Mirrors port' tunnel'

section Step

variable {config : TrailerConfig} {proxyClosed : Bool} {side : SendSide} {p : ℕ} {port : Port}
  {tunnel tunnel' : Tunnel} {s : Step} (h : Mirrors port tunnel)
  (hport : side.ports[p]? = some port)
include h hport

/-- Assumes: the call goes on, and so does the goroutine. -/
theorem Mirrors.together {call : Outbound.Call} {receiver : Receiver}
    (hports : (side.step p port s).ports = side.ports.set p { port with call := call })
    (hstands : Stands call receiver) :
    Together side p tunnel s { tunnel with receiver := receiver } :=
  ⟨{ port with call := call }, by simp only [SendSide.act, hport, hports], ⟨receiver, rfl⟩, hstands,
    h.sendErr⟩

/-- Assumes: the call goes on in `SendDatagram` of the connection, which the tunnel does not
notice. -/
theorem Mirrors.together_queueing {call : Outbound.Call} (hpast : isPastCheck port.call = true)
    (hports : (side.step p port s).ports = side.ports.set p { port with call := call })
    (hpast' : isPastCheck call = true) : Together side p tunnel s tunnel :=
  h.together hport hports (h.stands.eq_queueing hpast ▸ stands_queueing hpast')

/-- Assumes: the call is elsewhere, and the step does nothing. -/
theorem Mirrors.together_keep (hkeep : side.step p port s = side) :
    Together side p tunnel s tunnel := by
  refine ⟨port, ?_, ⟨tunnel.receiver, rfl⟩, h⟩
  obtain ⟨hp, rfl⟩ := List.getElem?_eq_some_iff.mp hport
  simp only [SendSide.act, hport, hkeep, List.set_getElem_self]

theorem Mirrors.readSocket {packet : Option Bytes}
    (hafter : after config proxyClosed side.closed tunnel port (.readSocket packet) =
      some tunnel') : Together side p tunnel (.readSocket packet) tunnel' := by
  simp only [after, mayStep, if_true] at hafter
  cases hcall : port.call with
  | reading =>
    simp only [moveOf, hcall, Tunnel.move] at hafter
    split at hafter
    · obtain rfl := Option.some.inj hafter
      exact h.together hport (by simp only [SendSide.step, hcall]; rfl) .ending
    · next payload _ =>
      split_ifs at hafter with hclosed hlong
      · obtain rfl := Option.some.inj hafter
        exact h.together_keep hport (by simp only [SendSide.step, hcall, if_pos hlong])
      · obtain rfl := Option.some.inj hafter
        exact h.together hport (by simp only [SendSide.step, hcall, if_neg hlong]; rfl)
          (.checking payload)
    · cases hafter
  | _ =>
    simp only [moveOf, hcall, Option.some.injEq] at hafter
    subst hafter
    exact h.together_keep hport (by simp only [SendSide.step, hcall])

theorem Mirrors.endSend
    (hafter : after config proxyClosed side.closed tunnel port .endSend = some tunnel') :
    Together side p tunnel .endSend tunnel' := by
  rw [after, Option.ite_none_right_eq_some] at hafter
  obtain ⟨hended, hsame⟩ := hafter
  obtain rfl := Option.some.inj hsame
  exact ⟨{ port with sendErr := true }, by simp only [SendSide.act, hport]; rfl,
    ⟨tunnel.receiver, rfl⟩, h.stands, fun _ ↦ hended⟩

theorem Mirrors.check
    (hafter : after config proxyClosed side.closed tunnel port .check = some tunnel') :
    Together side p tunnel .check tunnel' := by
  rw [after, Option.ite_none_right_eq_some] at hafter
  obtain ⟨hmay, hmove⟩ := hafter
  have hsame : port.sendErr = tunnel.stream.sendErr.isSome := beq_iff_eq.mp hmay
  cases hcall : port.call with
  | checking payload =>
    simp only [moveOf, hcall, Tunnel.move] at hmove
    split at hmove
    · obtain rfl := Option.some.inj hmove
      refine h.together hport (by simp only [SendSide.step, hcall]; rfl) ?_
      rw [← hsame]
      split_ifs
      · exact .ending
      · exact .sizing payload
    · cases hmove
  | _ =>
    simp only [moveOf, hcall, Option.some.injEq] at hmove
    subst hmove
    exact h.together_keep hport (by simp only [SendSide.step, hcall])

theorem Mirrors.size {maxDataLen : Option ℕ}
    (hafter : after config proxyClosed side.closed tunnel port (.size maxDataLen) =
      some tunnel') : Together side p tunnel (.size maxDataLen) tunnel' := by
  simp only [after, mayStep, if_true] at hafter
  cases hcall : port.call with
  | sizing payload =>
    have hpast : isPastCheck port.call = true := by rw [hcall]; rfl
    simp only [moveOf, hcall] at hafter
    by_cases hfits : maxDataLen.any ((Outbound.datagram port.id payload).length ≤ ·) = true
    · simp only [if_pos hfits, Option.some.injEq] at hafter
      subst hafter
      exact h.together_queueing hport hpast
        (by simp only [SendSide.step, hcall, if_pos hfits]; rfl) rfl
    · simp only [if_neg hfits, Tunnel.move, h.stands.eq_queueing hpast, Option.some.injEq] at hafter
      subst hafter
      exact h.together hport (by simp only [SendSide.step, hcall, if_neg hfits]; rfl) .ending
  | _ =>
    simp only [moveOf, hcall, Option.some.injEq] at hafter
    subst hafter
    exact h.together_keep hport (by simp only [SendSide.step, hcall])

theorem Mirrors.enter (hsound : side.Sound)
    (hafter : after config proxyClosed side.closed tunnel port .enter = some tunnel') :
    Together side p tunnel .enter tunnel' := by
  simp only [after, mayStep, moveOf, if_true, Option.some.injEq] at hafter
  subst hafter
  cases hcall : port.call with
  | entering payload =>
    have hpast : isPastCheck port.call = true := by rw [hcall]; rfl
    by_cases hroom : side.sendQueue.count < Outbound.maxDatagramSendQueueLen
    · obtain ⟨ring, hpush, -⟩ :=
        SendRing.pushBack_spec [] hsound.ring (Outbound.datagram port.id payload)
      exact h.together_queueing hport hpast
        (by simp only [SendSide.step, hcall, if_pos hroom, hpush]; rfl) rfl
    · exact h.together_queueing hport hpast
        (by simp only [SendSide.step, hcall, if_neg hroom]; rfl) rfl
  | _ => exact h.together_keep hport (by simp only [SendSide.step, hcall])

theorem Mirrors.wake
    (hafter : after config proxyClosed side.closed tunnel port .wake = some tunnel') :
    Together side p tunnel .wake tunnel' := by
  simp only [after, mayStep, moveOf, if_true, Option.some.injEq] at hafter
  subst hafter
  cases hcall : port.call with
  | waiting payload =>
    cases hsent : side.sent with
    | true =>
      exact h.together_queueing hport (by rw [hcall]; rfl)
        (by simp only [SendSide.step, hcall, hsent]; rfl) rfl
    | false => exact h.together_keep hport (by simp only [SendSide.step, hcall, hsent])
  | _ => exact h.together_keep hport (by simp only [SendSide.step, hcall])

theorem Mirrors.fail
    (hafter : after config proxyClosed side.closed tunnel port .fail = some tunnel') :
    Together side p tunnel .fail tunnel' := by
  simp only [after, mayStep, if_true] at hafter
  cases hcall : port.call with
  | waiting payload =>
    have hqueueing := h.stands.eq_queueing (by rw [hcall]; rfl)
    cases hclosed : side.closed with
    | true =>
      simp only [moveOf, hcall, hclosed, Tunnel.move, hqueueing, Option.some.injEq] at hafter
      subst hafter
      exact h.together hport (by simp only [SendSide.step, hcall, hclosed]; rfl) .ending
    | false =>
      simp only [moveOf, hcall, hclosed, Option.some.injEq] at hafter
      subst hafter
      exact h.together_keep hport (by simp only [SendSide.step, hcall, hclosed])
  | _ =>
    simp only [moveOf, hcall, Option.some.injEq] at hafter
    subst hafter
    exact h.together_keep hport (by simp only [SendSide.step, hcall])

theorem Mirrors.notify
    (hafter : after config proxyClosed side.closed tunnel port .notify = some tunnel') :
    Together side p tunnel .notify tunnel' := by
  simp only [after, mayStep, if_true] at hafter
  cases hcall : port.call with
  | notifying =>
    simp only [moveOf, hcall, Tunnel.move, h.stands.eq_queueing (by rw [hcall]; rfl),
      Option.some.injEq] at hafter
    subst hafter
    exact h.together hport (by simp only [SendSide.step, hcall]; rfl) .reading
  | _ =>
    simp only [moveOf, hcall, Option.some.injEq] at hafter
    subst hafter
    exact h.together_keep hport (by simp only [SendSide.step, hcall])

theorem Mirrors.step (hsound : side.Sound)
    (hafter : after config proxyClosed side.closed tunnel port s = some tunnel') :
    Together side p tunnel s tunnel' := by
  cases s with
  | readSocket packet => exact h.readSocket hport hafter
  | endSend => exact h.endSend hport hafter
  | check => exact h.check hport hafter
  | size maxDataLen => exact h.size hport hafter
  | enter => exact h.enter hport hsound hafter
  | wake => exact h.wake hport hafter
  | fail => exact h.fail hport hafter
  | notify => exact h.notify hport hafter

end Step

/-! ### What a step of the relay leaves to the calls -/

/-- The goroutine is where it was, or has been started or ended by the tunnel. -/
structure Kept (tunnel tunnel' : Tunnel) : Prop where
  receiver : tunnel'.receiver = tunnel.receiver ∨
    tunnel.receiver = .idle ∧ tunnel'.receiver = .reading ∨
    tunnel.receiver = .ending ∧ tunnel'.receiver = .done
  sendErr : tunnel.stream.sendErr.isSome = true → tunnel'.stream.sendErr.isSome = true

theorem Kept.refl (tunnel : Tunnel) : Kept tunnel tunnel := ⟨Or.inl rfl, id⟩

theorem Mirrors.kept {port : Port} {tunnel tunnel' : Tunnel} (h : Mirrors port tunnel)
    (hkept : Kept tunnel tunnel') : Mirrors port tunnel' := by
  refine ⟨?_, fun hended ↦ hkept.sendErr (h.sendErr hended)⟩
  have hstands := h.stands
  rcases hkept.receiver with hsame | ⟨hidle, hreading⟩ | ⟨hending, hdone⟩
  · rwa [hsame]
  · rw [hidle] at hstands
    rw [hreading]
    cases hcall : port.call with
    | reading => exact .reading
    | _ => rw [hcall] at hstands; cases hstands
  · rw [hending] at hstands
    rw [hdone]
    cases hcall : port.call with
    | ended => exact .done
    | _ => rw [hcall] at hstands; cases hstands

variable {config : TrailerConfig} {relay : Shutdown.Relay}

theorem receiver_of_move {proxyClosed : Bool} {tunnel tunnel' : Tunnel} {move : Move} (i : ℕ)
    (hstaffed : tunnel.Staffed) (hown : isOwn (.move i move) = true)
    (hmove : tunnel.move config proxyClosed move = some tunnel') :
    tunnel'.receiver = tunnel.receiver ∨
      tunnel.receiver = .idle ∧ tunnel'.receiver = .reading ∨
      tunnel.receiver = .ending ∧ tunnel'.receiver = .done := by
  cases move with
  | readSocket packet => cases hown
  | checkSend => cases hown
  | sendDatagram succeeds => cases hown
  | answer =>
    simp only [Tunnel.move] at hmove
    split at hmove
    · next hphase =>
      obtain rfl := Option.some.inj hmove
      simp only [Tunnel.Staffed, hphase] at hstaffed
      exact Or.inr (Or.inl ⟨hstaffed.2, rfl⟩)
    · cases hmove
  | endReceiving =>
    simp only [Tunnel.move] at hmove
    split at hmove
    · next hending =>
      obtain rfl := Option.some.inj hmove
      exact Or.inr (Or.inr ⟨hending, rfl⟩)
    · cases hmove
  | read byte error =>
    simp only [Tunnel.move] at hmove
    split at hmove
    · split_ifs at hmove
      obtain rfl := Option.some.inj hmove
      refine Or.inl ?_
      simp only [Tunnel.received]
      split
      · rfl
      · split <;> rfl
      · rfl
    · cases hmove
  | receiveDatagram now surroundings =>
    simp only [Tunnel.move] at hmove
    split at hmove
    · obtain rfl := Option.some.inj hmove
      exact Or.inl (tunnel.receiveDatagram_phase now surroundings).2
    · cases hmove
  | _ =>
    simp only [Tunnel.move] at hmove
    split at hmove <;> (try split_ifs at hmove) <;> cases hmove <;> exact Or.inl rfl

/-- All tunnels, one by one. -/
structure KeptAll (tunnels tunnels' : List Tunnel) : Prop where
  length : tunnels'.length = tunnels.length
  kept : ∀ {i : ℕ} {tunnel}, tunnels[i]? = some tunnel →
    ∃ tunnel', tunnels'[i]? = some tunnel' ∧ Kept tunnel tunnel'

theorem KeptAll.refl (tunnels : List Tunnel) : KeptAll tunnels tunnels :=
  ⟨rfl, fun hget ↦ ⟨_, hget, Kept.refl _⟩⟩

theorem keptAll_set {tunnels : List Tunnel} {j : ℕ} {old new : Tunnel}
    (hold : tunnels[j]? = some old) (hkept : Kept old new) :
    KeptAll tunnels (tunnels.set j new) := by
  refine ⟨List.length_set, fun {i tunnel} hget ↦ ?_⟩
  by_cases hij : j = i
  · subst hij
    rw [hold] at hget
    obtain rfl := Option.some.inj hget
    exact ⟨new, List.getElem?_set_self (List.getElem?_eq_some_iff.mp hold).1, hkept⟩
  · exact ⟨tunnel, by rw [List.getElem?_set_ne hij]; exact hget, Kept.refl tunnel⟩

theorem keptAll_outside (relay : Shutdown.Relay) (i : ℕ) (outside : Outside) :
    KeptAll relay.tunnels (relay.outside i outside).tunnels := by
  unfold Shutdown.Relay.outside
  split
  · exact KeptAll.refl _
  · next tunnel hget =>
    exact keptAll_set hget ⟨Or.inl (tunnel.outside_outline _ outside).2.2.1,
      (tunnel.onward_outside _ outside).sendErr⟩

theorem keptAll_move (hsound : relay.Sound) {i : ℕ} {move : Move}
    (hown : isOwn (.move i move) = true) :
    KeptAll relay.tunnels (relay.move config i move).tunnels := by
  unfold Shutdown.Relay.move
  split
  · exact KeptAll.refl _
  · next tunnel hget =>
    split
    · exact KeptAll.refl _
    · next tunnel' hmove =>
      have hstaffed := hsound.staffed tunnel (List.mem_of_getElem? hget)
      have hset := keptAll_set hget ⟨receiver_of_move i hstaffed hown hmove,
        (Tunnel.onward_move hmove).sendErr⟩
      split_ifs
      · have htunnels : (relay.account i tunnel move).tunnels = relay.tunnels := by
          cases move with
          | register =>
            simp only [Shutdown.Relay.account]
            split_ifs <;> rfl
          | _ => rfl
        rw [Shutdown.Relay.setTunnel, htunnels]
        exact hset
      · exact KeptAll.refl _

theorem keptAll_step (relay : Shutdown.Relay) (k choice : ℕ) (call : Shutdown.Call) :
    KeptAll relay.tunnels (relay.step k choice call).tunnels := by
  cases call with
  | cancelling i pending | closingStream i pending | closingConn i pending =>
    exact keptAll_outside relay i _
  | entering | locking | waiting | closingServer =>
    simp only [Shutdown.Relay.step]
    split_ifs <;> exact KeptAll.refl _
  | choosing pending =>
    simp only [Shutdown.Relay.step]
    split_ifs <;> exact KeptAll.refl _
  | _ => exact KeptAll.refl _

theorem keptAll_act (hsound : relay.Sound) {event : Shutdown.Event} (hown : isOwn event = true) :
    KeptAll relay.tunnels (relay.act config event).tunnels := by
  cases event with
  | arrive source stream connClosed => cases hown
  | move i move => exact keptAll_move hsound hown
  | delete i =>
    simp only [Shutdown.Relay.act, Shutdown.Relay.delete]
    split
    · exact KeptAll.refl _
    · split_ifs <;> exact KeptAll.refl _
  | datagram i data now surroundings => exact keptAll_outside relay i _
  | streamDone i => exact keptAll_outside relay i _
  | connectionCloses i => exact keptAll_outside relay i _
  | call => exact KeptAll.refl _
  | step k choice =>
    simp only [Shutdown.Relay.act]
    split
    · exact KeptAll.refl _
    · exact keptAll_step relay k choice _

/-! ### What every run keeps -/

theorem ports_of_isConnection (side : SendSide) {event : Outbound.Event}
    (hevent : isConnection event = true) : (side.act event).ports = side.ports := by
  cases event with
  | serve id => cases hevent
  | step i step => cases hevent
  | peek =>
    simp only [SendSide.act]
    split_ifs <;> rfl
  | pop fits =>
    simp only [SendSide.act]
    split
    · split <;> rfl
    · rfl
  | keep => rfl
  | close => rfl

/-- A step of a call is a step of the relay, or none. -/
theorem exists_run_setTunnel {i : ℕ} {tunnel tunnel' : Tunnel}
    (hget : relay.tunnels[i]? = some tunnel) {closed : Bool} {port : Port} {step : Step}
    (hafter : after config relay.proxyClosed closed tunnel port step = some tunnel') :
    ∃ events, relay.setTunnel i tunnel' = relay.run config events := by
  rw [after, Option.ite_none_right_eq_some] at hafter
  obtain ⟨-, hmove⟩ := hafter
  cases hnotice : moveOf closed port step with
  | none =>
    rw [hnotice] at hmove
    obtain rfl := Option.some.inj hmove
    obtain ⟨hi, rfl⟩ := List.getElem?_eq_some_iff.mp hget
    exact ⟨[], by rw [Shutdown.Relay.setTunnel, List.set_getElem_self]; rfl⟩
  | some move =>
    rw [hnotice] at hmove
    -- None of these steps takes the lock of the proxy or concerns its counters.
    have hfree : relay.mayMove i move = true ∧ relay.account i tunnel move = relay := by
      cases step <;> simp only [moveOf] at hnotice <;> (try split at hnotice) <;>
        (try split_ifs at hnotice) <;> cases hnotice <;>
        exact ⟨by simp [Shutdown.Relay.mayMove, Shutdown.needsProxy], rfl⟩
    refine ⟨[.move i move], ?_⟩
    change _ = relay.move config i move
    simp only [Shutdown.Relay.move, hget, hmove, hfree, if_true]

namespace Joint

variable {maxSessions : ℤ} {joint joint' : Joint}

/-- What a step of a call does. -/
theorem call_eq_some {i : ℕ} {step : Step} (h : joint.call config i step = some joint') :
    ∃ c p side port tunnel tunnel', joint.places[i]? = some (c, p) ∧
      joint.sides[c]? = some side ∧ side.ports[p]? = some port ∧
      joint.relay.tunnels[i]? = some tunnel ∧
      after config joint.relay.proxyClosed side.closed tunnel port step = some tunnel' ∧
      joint' = { joint.setSide c (side.act (.step p step)) with
        relay := joint.relay.setTunnel i tunnel' } := by
  simp only [Joint.call, Option.bind_eq_bind, Option.bind_eq_some_iff, Option.some.injEq] at h
  obtain ⟨⟨c, p⟩, hplace, side, hside, port, hport, tunnel, htunnel, tunnel', hafter, rfl⟩ := h
  exact ⟨c, p, side, port, tunnel, tunnel', hplace, hside, hport, htunnel, hafter, rfl⟩

/-- The goroutine of a tunnel stands where the call of a port stands. -/
def Linked (joint : Joint) (i c p : ℕ) : Prop :=
  ∃ side port tunnel, joint.sides[c]? = some side ∧ side.ports[p]? = some port ∧
    joint.relay.tunnels[i]? = some tunnel ∧ Mirrors port tunnel

/-- The relay and the send sides are in states that they can reach by themselves, and each tunnel
has a port of its own, where its goroutine stands. -/
structure Coupled (config : TrailerConfig) (maxSessions : ℤ) (joint : Joint) : Prop where
  relay : ∃ events, joint.relay = (Shutdown.Relay.start maxSessions).run config events
  sides : ∀ side ∈ joint.sides, ∃ events, side = SendSide.start.run events
  length : joint.places.length = joint.relay.tunnels.length
  nodup : joint.places.Nodup
  linked : ∀ {i c p : ℕ}, joint.places[i]? = some (c, p) → joint.Linked i c p
  owned : ∀ {c p : ℕ} {side : SendSide}, joint.sides[c]? = some side → p < side.ports.length →
    (c, p) ∈ joint.places

theorem coupled_start (config : TrailerConfig) (maxSessions : ℤ) :
    (start maxSessions).Coupled config maxSessions where
  relay := ⟨[], rfl⟩
  sides := by simp [start]
  length := rfl
  nodup := List.nodup_nil
  linked := by simp [start]
  owned := by simp [start]

theorem Coupled.sound (h : joint.Coupled config maxSessions) : joint.relay.Sound := by
  obtain ⟨events, hrun⟩ := h.relay
  rw [hrun]
  exact (Shutdown.Relay.sound_start maxSessions).run events

theorem Coupled.side_sound (h : joint.Coupled config maxSessions) {c : ℕ} {side : SendSide}
    (hside : joint.sides[c]? = some side) : side.Sound := by
  obtain ⟨events, rfl⟩ := h.sides side (List.mem_of_getElem? hside)
  exact SendSide.sound_start.run events

theorem Coupled.exists_runs_relay (h : joint.Coupled config maxSessions)
    {relay : Shutdown.Relay} (hrelay : ∃ events, relay = joint.relay.run config events) :
    ∃ events, relay = (Shutdown.Relay.start maxSessions).run config events := by
  obtain ⟨events, rfl⟩ := hrelay
  obtain ⟨before, hrun⟩ := h.relay
  exact ⟨before ++ events, by rw [hrun]; exact List.foldl_append.symm⟩

theorem Coupled.exists_runs_set (h : joint.Coupled config maxSessions) {c : ℕ} {side : SendSide}
    (hside : joint.sides[c]? = some side) (event : Outbound.Event) :
    ∀ side' ∈ joint.sides.set c (side.act event), ∃ events, side' = SendSide.start.run events := by
  refine forall_mem_set h.sides ?_
  obtain ⟨events, hrun⟩ := h.sides side (List.mem_of_getElem? hside)
  exact ⟨events ++ [event], by rw [hrun, SendSide.run, SendSide.run, List.foldl_append]; rfl⟩

/-- Assumes: the port is as it was. -/
theorem Linked.setSide {i c c' p : ℕ} (h : joint.Linked i c p) {side side' : SendSide}
    (hside : joint.sides[c']? = some side)
    (hsame : c' = c → ∀ port, side.ports[p]? = some port → side'.ports[p]? = some port) :
    (joint.setSide c' side').Linked i c p := by
  obtain ⟨mine, port, tunnel, hmine, hport, htunnel, hmirrors⟩ := h
  by_cases hc : c' = c
  · subst hc
    rw [hside] at hmine
    obtain rfl := Option.some.inj hmine
    exact ⟨side', port, tunnel, List.getElem?_set_self (List.getElem?_eq_some_iff.mp hside).1,
      hsame rfl port hport, htunnel, hmirrors⟩
  · exact ⟨mine, port, tunnel, (List.getElem?_set_ne hc).trans hmine, hport, htunnel, hmirrors⟩

theorem owned_set {c c' p n : ℕ} {side side' found : SendSide}
    (hlength : ∀ {c p : ℕ} {side : SendSide}, joint.sides[c]? = some side →
      p < side.ports.length → (c, p) ∈ joint.places)
    (hside : joint.sides[c']? = some side) (hn : side'.ports.length = n)
    (hfound : (joint.sides.set c' side')[c]? = some found) (hp : p < found.ports.length) :
    (c, p) ∈ joint.places ∨ c = c' ∧ side.ports.length ≤ p ∧ p < n := by
  rcases getElem?_set_cases hfound with ⟨rfl, rfl⟩ | ⟨-, hold⟩
  · by_cases hlt : p < side.ports.length
    · exact Or.inl (hlength hside hlt)
    · exact Or.inr ⟨rfl, by omega, by omega⟩
  · exact Or.inl (hlength hold hp)

theorem Coupled.connect (h : joint.Coupled config maxSessions) :
    (joint.act config .connect).Coupled config maxSessions where
  relay := h.relay
  sides := List.forall_mem_append.mpr ⟨h.sides, List.forall_mem_singleton.mpr ⟨[], rfl⟩⟩
  length := h.length
  nodup := h.nodup
  linked hplace := by
    obtain ⟨side, port, tunnel, hside, hrest⟩ := h.linked hplace
    exact ⟨side, port, tunnel,
      (List.getElem?_append_left (List.getElem?_eq_some_iff.mp hside).1).trans hside, hrest⟩
  owned hside hp := by
    rcases getElem?_snoc_cases hside with hold | ⟨-, rfl⟩
    · exact h.owned hold hp
    · simp [SendSide.start] at hp

theorem Coupled.relayStep (h : joint.Coupled config maxSessions) {event : Shutdown.Event}
    (hown : isOwn event = true) :
    Coupled config maxSessions { joint with relay := joint.relay.act config event } where
  relay := h.exists_runs_relay ⟨[event], rfl⟩
  sides := h.sides
  length := h.length.trans (keptAll_act h.sound hown).length.symm
  nodup := h.nodup
  linked hplace := by
    obtain ⟨side, port, tunnel, hside, hport, htunnel, hmirrors⟩ := h.linked hplace
    obtain ⟨tunnel', htunnel', hkept⟩ := (keptAll_act h.sound hown).kept htunnel
    exact ⟨side, port, tunnel', hside, hport, htunnel', hmirrors.kept hkept⟩
  owned := h.owned

theorem Coupled.connection (h : joint.Coupled config maxSessions) {c : ℕ} {side : SendSide}
    (hside : joint.sides[c]? = some side) {event : Outbound.Event}
    (hevent : isConnection event = true) :
    (joint.setSide c (side.act event)).Coupled config maxSessions where
  relay := h.relay
  sides := h.exists_runs_set hside event
  length := h.length
  nodup := h.nodup
  linked hplace := (h.linked hplace).setSide hside fun _ port hport ↦ by
    rw [ports_of_isConnection side hevent]
    exact hport
  owned hfound hp := by
    rcases owned_set h.owned hside rfl hfound hp with hmem | ⟨-, hle, hlt⟩
    · exact hmem
    · rw [ports_of_isConnection side hevent] at hlt
      omega

theorem Coupled.callStep (h : joint.Coupled config maxSessions) {i : ℕ} {step : Step}
    (hcall : joint.call config i step = some joint') : joint'.Coupled config maxSessions := by
  obtain ⟨c, p, side, port, tunnel, tunnel', hplace, hside, hport, htunnel, hafter, rfl⟩ :=
    call_eq_some hcall
  have hsame : ∀ {port' : Port}, side.ports[p]? = some port' → port' = port := fun hport' ↦
    Option.some.inj (hport'.symm.trans hport)
  have hmirrors : Mirrors port tunnel := by
    obtain ⟨side', port', known, hside', hport', hknown, hmirrors⟩ := h.linked hplace
    rw [hside] at hside'
    obtain rfl := Option.some.inj hside'
    rw [htunnel] at hknown
    obtain rfl := Option.some.inj hknown
    exact hsame hport' ▸ hmirrors
  obtain ⟨port', hports, -, hmirrors'⟩ := hmirrors.step hport (h.side_sound hside) hafter
  have hi : i < joint.relay.tunnels.length := (List.getElem?_eq_some_iff.mp htunnel).1
  have hp : p < side.ports.length := (List.getElem?_eq_some_iff.mp hport).1
  exact {
    relay := h.exists_runs_relay (exists_run_setTunnel htunnel hafter)
    sides := h.exists_runs_set hside _
    length := h.length.trans List.length_set.symm
    nodup := h.nodup
    linked := fun {j c' p'} (hplace' : joint.places[j]? = some (c', p')) ↦ by
      by_cases hij : i = j
      · subst hij
        rw [hplace] at hplace'
        obtain ⟨rfl, rfl⟩ := Prod.mk.inj (Option.some.inj hplace')
        refine ⟨_, port', tunnel', List.getElem?_set_self (List.getElem?_eq_some_iff.mp hside).1,
          ?_, List.getElem?_set_self hi, hmirrors'⟩
        rw [hports]
        exact List.getElem?_set_self hp
      · -- Another tunnel has another port.
        have hkeep : c = c' → ∀ other, side.ports[p']? = some other →
            (side.act (.step p step)).ports[p']? = some other := by
          rintro rfl other hother
          have hne : p ≠ p' := by
            rintro rfl
            exact hij ((List.getElem?_inj (List.getElem?_eq_some_iff.mp hplace).1 h.nodup).mp
              (hplace.trans hplace'.symm))
          rw [hports, List.getElem?_set_ne hne]
          exact hother
        obtain ⟨side', other, known, hside', hother, hknown, hrest⟩ :=
          (h.linked hplace').setSide hside hkeep
        exact ⟨side', other, known, hside', hother, (List.getElem?_set_ne hij).trans hknown, hrest⟩
    owned := fun hfound hlt ↦ by
      rcases owned_set h.owned hside (congrArg List.length hports) hfound hlt with
        hmem | ⟨-, hle, hlt'⟩
      · exact hmem
      · rw [List.length_set] at hlt'
        omega }

theorem tunnels_arrive {source : Text} (hgranted : (joint.relay.sessions.acquire source).2 = true)
    (stream : { stream : TrackedStream // stream.Ok }) (connClosed : Bool) :
    (joint.relay.act config (.arrive source stream connClosed)).tunnels =
      joint.relay.tunnels ++ [.new source stream.val connClosed] := by
  simp only [Shutdown.Relay.act]
  split
  · rfl
  · next hrefused =>
    rw [hrefused] at hgranted
    cases hgranted

theorem ports_serve {side : SendSide} {id : StreamId}
    (hfresh : side.ports.any (·.id.value == id.value) = false) :
    (side.act (.serve id)).ports = side.ports ++ [⟨id, false, .reading⟩] := by
  simp only [SendSide.act, hfresh]
  rfl

theorem Coupled.lt_of_place (h : joint.Coupled config maxSessions) {i c p : ℕ} {side : SendSide}
    (hplace : joint.places[i]? = some (c, p)) (hside : joint.sides[c]? = some side) :
    p < side.ports.length := by
  obtain ⟨side', port, -, hside', hport, -⟩ := h.linked hplace
  rw [hside] at hside'
  obtain rfl := Option.some.inj hside'
  exact (List.getElem?_eq_some_iff.mp hport).1

/-- Assumes: a session is granted, on a stream that carries no request yet. -/
theorem Coupled.arrive (h : joint.Coupled config maxSessions) {c : ℕ} {side : SendSide}
    (hside : joint.sides[c]? = some side) {id : StreamId} {source : Text}
    (hgranted : (joint.relay.sessions.acquire source).2 = true)
    (hfresh : side.ports.any (·.id.value == id.value) = false)
    (stream : { stream : TrackedStream // stream.Ok }) (connClosed : Bool) :
    Coupled config maxSessions
      { relay := joint.relay.act config (.arrive source stream connClosed)
        sides := joint.sides.set c (side.act (.serve id))
        places := joint.places ++ [(c, side.ports.length)] } := by
  have htunnels : (joint.relay.act config (.arrive source stream connClosed)).tunnels =
      joint.relay.tunnels ++ [.new source stream.val connClosed] :=
    tunnels_arrive hgranted stream connClosed
  have hports := ports_serve hfresh
  have hc : c < joint.sides.length := (List.getElem?_eq_some_iff.mp hside).1
  exact {
    relay := h.exists_runs_relay ⟨[.arrive source stream connClosed], rfl⟩
    sides := h.exists_runs_set hside _
    length := by simp [htunnels, h.length]
    nodup := by
      refine List.nodup_append.mpr ⟨h.nodup, List.nodup_singleton _, ?_⟩
      rintro place hmem _ hnew rfl
      obtain rfl := List.mem_singleton.mp hnew
      obtain ⟨i, hi⟩ := List.mem_iff_getElem?.mp hmem
      exact absurd (h.lt_of_place hi hside) (lt_irrefl _)
    linked := fun {i c' p} hplace ↦ by
      rcases getElem?_snoc_cases hplace with hold | ⟨rfl, hnew⟩
      · have hkeep : c = c' → ∀ other, side.ports[p]? = some other →
            (side.act (.serve id)).ports[p]? = some other := by
          intro _ other hother
          rw [hports]
          exact (List.getElem?_append_left (List.getElem?_eq_some_iff.mp hother).1).trans hother
        obtain ⟨side', port, tunnel, hside', hport, htunnel, hmirrors⟩ :=
          (h.linked hold).setSide hside hkeep
        refine ⟨side', port, tunnel, hside', hport, ?_, hmirrors⟩
        rw [htunnels]
        exact (List.getElem?_append_left (List.getElem?_eq_some_iff.mp htunnel).1).trans htunnel
      · obtain ⟨rfl, rfl⟩ := Prod.mk.inj hnew
        refine ⟨_, ⟨id, false, .reading⟩, .new source stream.val connClosed,
          List.getElem?_set_self hc, ?_, ?_, .idle, by simp⟩
        · rw [hports, List.getElem?_concat_length]
        · rw [htunnels, h.length, List.getElem?_concat_length]
    owned := fun {c' p found} hfound hp ↦ by
      rcases owned_set h.owned hside (congrArg List.length hports) hfound hp with
        hmem | ⟨rfl, hle, hlt⟩
      · exact List.mem_append_left _ hmem
      · rw [List.length_append, List.length_singleton] at hlt
        have hlast : p = side.ports.length := by omega
        rw [hlast]
        exact List.mem_append_right _ (List.mem_singleton_self _) }

theorem Coupled.act (h : joint.Coupled config maxSessions) (event : Event) :
    (joint.act config event).Coupled config maxSessions := by
  cases event with
  | connect => exact h.connect
  | arrive c id source stream connClosed =>
    simp only [Joint.act]
    split
    · next side hside hgranted =>
      split_ifs with hknown
      · exact h
      · exact h.arrive hside hgranted (Bool.not_eq_true _ ▸ hknown) stream connClosed
    · exact h
  | relay event =>
    simp only [Joint.act]
    split_ifs with hown
    · exact h.relayStep hown
    · exact h
  | call i step =>
    simp only [Joint.act]
    cases hcall : joint.call config i step with
    | none => exact h
    | some joint' => exact h.callStep hcall
  | connection c event =>
    simp only [Joint.act]
    split
    · next side hside hevent => exact h.connection hside hevent
    · exact h

theorem Coupled.run (h : joint.Coupled config maxSessions) (events : List Event) :
    (joint.run config events).Coupled config maxSessions := by
  induction events generalizing joint with
  | nil => exact h
  | cons event events ih => exact ih (h.act event)

/-- The two machines stay together over every run. -/
theorem coupled_run (config : TrailerConfig) (maxSessions : ℤ) (events : List Event) :
    ((start maxSessions).run config events).Coupled config maxSessions :=
  (coupled_start config maxSessions).run events

end Joint

end QortalRelay.Coupling
