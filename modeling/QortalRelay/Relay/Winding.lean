import QortalRelay.Relay.Delivery

/-!
# A tunnel that winds up

The goroutines of a tunnel run between the response and the wait of its handler
(`Tunnel.Staffed`), and what has ended on the stream and the socket of a tunnel stays ended
(`Tunnel.Onward`). Once the entry of the tunnel in the proxy is closed, its handler and
`proxyConnSend` can go on with steps that nothing holds up, up to the wait for `proxyConnReceive`
(`Tunnel.Winding.exists_follow_quiet`), also if a client has brought the capsule reader to a halt
with a frame that is not allowed. `proxyConnReceive` may stand in `SendDatagram`, where the entry
does not reach it: what it needs is said with the queue of its connection.
-/

set_option autoImplicit false
set_option relaxedAutoImplicit false

namespace QortalRelay

open Foundation Foundation.Encoding Foundation.Store Foundation.Trace Datagrams Http3 Admission

/-! ### A tunnel and its goroutines -/

namespace Tunnels.Tunnel

/-- The goroutines of a tunnel run while its handler is between the response and the wait. -/
def Staffed (tunnel : Tunnel) : Prop :=
  match tunnel.phase with
  | .dialing | .registering | .answering => tunnel.sender = .idle ∧ tunnel.receiver = .idle
  | .reading _ _ | .stopped | .closing | .waiting =>
    tunnel.sender ≠ .idle ∧ tunnel.receiver ≠ .idle
  | .leaving => tunnel.sender = .done ∧ tunnel.receiver = .done
  | .releasing | .returned =>
    tunnel.sender = .idle ∧ tunnel.receiver = .idle ∨
      tunnel.sender = .done ∧ tunnel.receiver = .done ∧ tunnel.socketClosed = true

/-- `proxyEntry.Close` has been called, or its work is done. -/
structure Shut (tunnel : Tunnel) : Prop where
  recvErr : tunnel.stream.recvErr.isSome = true
  sendErr : tunnel.stream.sendErr.isSome = true
  socketClosed : tunnel.socketClosed = true

variable {config : TrailerConfig} {proxyClosed : Bool} {tunnel tunnel' : Tunnel}

theorem staffed_new (source : Text) (stream : TrackedStream) (connClosed : Bool) :
    (new source stream connClosed).Staffed :=
  ⟨rfl, rfl⟩

theorem staffed_of_serving (hserving : tunnel.phase.isServing = true)
    (hsender : tunnel.sender ≠ .idle) (hreceiver : tunnel.receiver ≠ .idle) : tunnel.Staffed := by
  unfold Staffed
  cases hphase : tunnel.phase <;> simp_all [Phase.isServing]

/-- Assumes: a goroutine that is at work. -/
theorem Staffed.serving (h : tunnel.Staffed)
    (hwork : tunnel.sender ≠ .idle ∧ tunnel.sender ≠ .done ∨
      tunnel.receiver ≠ .idle ∧ tunnel.receiver ≠ .done) :
    tunnel.phase.isServing = true ∧ tunnel.sender ≠ .idle ∧ tunnel.receiver ≠ .idle := by
  unfold Staffed at h
  cases hphase : tunnel.phase <;> simp_all [Phase.isServing] <;> tauto

theorem sender_receiveDatagram_ne_idle (tunnel : Tunnel) (now : Time)
    (surroundings : Surroundings) : (tunnel.receiveDatagram now surroundings).sender ≠ .idle := by
  unfold Tunnel.receiveDatagram forward
  split
  · dsimp only
    split
    · simp
    · split_ifs <;> simp
  · dsimp only
    split_ifs <;> simp

theorem receiveDatagram_phase (tunnel : Tunnel) (now : Time) (surroundings : Surroundings) :
    (tunnel.receiveDatagram now surroundings).phase = tunnel.phase ∧
      (tunnel.receiveDatagram now surroundings).receiver = tunnel.receiver := by
  unfold Tunnel.receiveDatagram
  split <;> exact ⟨rfl, rfl⟩

theorem Staffed.move (h : tunnel.Staffed) {move : Move}
    (hmove : tunnel.move config proxyClosed move = some tunnel') : tunnel'.Staffed := by
  cases move with
  | read byte error =>
    simp only [Tunnel.move] at hmove
    split at hmove
    · next hphase =>
      split_ifs at hmove
      obtain rfl := Option.some.inj hmove
      simp only [Staffed, hphase] at h
      simp only [received]
      split
      · exact h
      · split <;> exact h
      · exact h
    · cases hmove
  | receiveDatagram now surroundings =>
    simp only [Tunnel.move] at hmove
    split at hmove
    · next hsender =>
      obtain rfl := Option.some.inj hmove
      obtain ⟨hserving, -, hreceiver⟩ := h.serving (Or.inl (by simp [hsender]))
      obtain ⟨hphase, hsame⟩ := tunnel.receiveDatagram_phase now surroundings
      exact staffed_of_serving (by rwa [hphase])
        (tunnel.sender_receiveDatagram_ne_idle now surroundings) (by rwa [hsame])
    · cases hmove
  | dial succeeds =>
    simp only [Tunnel.move] at hmove
    split at hmove
    · next hphase =>
      obtain rfl := Option.some.inj hmove
      simp only [Staffed, hphase] at h
      exact h
    · next hphase =>
      obtain rfl := Option.some.inj hmove
      simp only [Staffed, hphase] at h
      exact Or.inl h
    · cases hmove
  | register =>
    simp only [Tunnel.move] at hmove
    split at hmove
    · next hphase =>
      obtain rfl := Option.some.inj hmove
      simp only [Staffed, hphase] at h
      exact Or.inl h
    · next hphase =>
      obtain rfl := Option.some.inj hmove
      simp only [Staffed, hphase] at h
      exact h
    · cases hmove
  | answer =>
    simp only [Tunnel.move] at hmove
    split at hmove
    · obtain rfl := Option.some.inj hmove
      exact staffed_of_serving rfl (by simp) (by simp)
    · cases hmove
  | readFails error =>
    simp only [Tunnel.move] at hmove
    split at hmove
    · next hphase =>
      obtain rfl := Option.some.inj hmove
      simp only [Staffed, hphase] at h
      exact h
    · cases hmove
  | wait =>
    simp only [Tunnel.move] at hmove
    split at hmove
    · next hsender hreceiver =>
      obtain rfl := Option.some.inj hmove
      exact ⟨hsender, hreceiver⟩
    · cases hmove
  | leave =>
    simp only [Tunnel.move] at hmove
    split at hmove
    · next hphase =>
      obtain rfl := Option.some.inj hmove
      simp only [Staffed, hphase] at h
      exact Or.inr ⟨h.1, h.2, rfl⟩
    · cases hmove
  | closeStream | closeSocket | release =>
    simp only [Tunnel.move] at hmove
    split at hmove
    · next hphase =>
      obtain rfl := Option.some.inj hmove
      simp only [Staffed, hphase] at h
      exact h
    · cases hmove
  | wake =>
    simp only [Tunnel.move] at hmove
    split at hmove
    · next hsender _ =>
      obtain rfl := Option.some.inj hmove
      obtain ⟨hserving, -, hreceiver⟩ := h.serving (Or.inl (by simp [hsender]))
      exact staffed_of_serving hserving (by simp) hreceiver
    · cases hmove
  | write succeeds =>
    simp only [Tunnel.move] at hmove
    split at hmove
    · next hsender =>
      obtain ⟨hserving, -, hreceiver⟩ := h.serving (Or.inl (by simp [hsender]))
      split_ifs at hmove
      all_goals
        obtain rfl := Option.some.inj hmove
        exact staffed_of_serving hserving (by simp) hreceiver
    · cases hmove
  | endSending =>
    simp only [Tunnel.move] at hmove
    split at hmove
    · next hsender =>
      obtain rfl := Option.some.inj hmove
      obtain ⟨hserving, -, hreceiver⟩ := h.serving (Or.inl (by simp [hsender]))
      exact staffed_of_serving hserving (by simp) hreceiver
    · cases hmove
  | readSocket packet =>
    simp only [Tunnel.move] at hmove
    split at hmove
    · next hreceiver =>
      obtain rfl := Option.some.inj hmove
      obtain ⟨hserving, hsender, -⟩ := h.serving (Or.inr (by simp [hreceiver]))
      exact staffed_of_serving hserving hsender (by simp)
    · next hreceiver =>
      obtain ⟨hserving, hsender, -⟩ := h.serving (Or.inr (by simp [hreceiver]))
      split_ifs at hmove
      · obtain rfl := Option.some.inj hmove
        exact h
      · obtain rfl := Option.some.inj hmove
        exact staffed_of_serving hserving hsender (by simp)
    · cases hmove
  | checkSend | sendDatagram succeeds =>
    simp only [Tunnel.move] at hmove
    split at hmove
    · next hreceiver =>
      obtain ⟨hserving, hsender, -⟩ := h.serving (Or.inr (by simp [hreceiver]))
      obtain rfl := Option.some.inj hmove
      exact staffed_of_serving hserving hsender (by dsimp only; split_ifs <;> simp)
    · cases hmove
  | endReceiving =>
    simp only [Tunnel.move] at hmove
    split at hmove
    · next hreceiver =>
      obtain rfl := Option.some.inj hmove
      obtain ⟨hserving, hsender, -⟩ := h.serving (Or.inr (by simp [hreceiver]))
      exact staffed_of_serving hserving hsender (by simp)
    · cases hmove

/-- What has ended stays ended. -/
structure Onward (tunnel tunnel' : Tunnel) : Prop where
  recvErr : tunnel.stream.recvErr.isSome = true → tunnel'.stream.recvErr.isSome = true
  sendErr : tunnel.stream.sendErr.isSome = true → tunnel'.stream.sendErr.isSome = true
  socketClosed : tunnel.socketClosed = true → tunnel'.socketClosed = true

theorem Onward.refl (tunnel : Tunnel) : tunnel.Onward tunnel := ⟨id, id, id⟩

theorem Shut.onward (h : tunnel.Shut) (honward : tunnel.Onward tunnel') : tunnel'.Shut :=
  ⟨honward.recvErr h.recvErr, honward.sendErr h.sendErr, honward.socketClosed h.socketClosed⟩

end Tunnels.Tunnel

namespace Http3.TrackedStream

theorem isSome_sendErr_closeSend (stream : TrackedStream) (error : StreamError) :
    (stream.closeSend error).sendErr.isSome = true := by
  unfold closeSend
  split_ifs with hnone
  · rfl
  · exact Option.isSome_iff_ne_none.mpr hnone

@[simp] theorem sendErr_closeReceive (stream : TrackedStream) (error : StreamError) :
    (stream.closeReceive error).sendErr = stream.sendErr := by
  unfold closeReceive
  split_ifs <;> rfl

@[simp] theorem sendErr_enqueueDatagram (stream : TrackedStream) (data : Bytes) (now : Time)
    (surroundings : Surroundings) :
    (stream.enqueueDatagram data now surroundings).sendErr = stream.sendErr := by
  unfold enqueueDatagram
  split_ifs
  · split <;> rfl
  · rfl

end Http3.TrackedStream

namespace Tunnels.Tunnel

variable {config : TrailerConfig} {proxyClosed : Bool} {tunnel tunnel' : Tunnel}

theorem Effect.onward {stream : TrackedStream} {sender : Sender} {payload : Option Bytes}
    (h : tunnel.Effect stream sender payload) :
    (tunnel.stream.recvErr.isSome = true → stream.recvErr.isSome = true) ∧
      (tunnel.stream.sendErr.isSome = true → stream.sendErr.isSome = true) := by
  cases h with
  | closeSend error | finish error =>
    exact ⟨by simp, fun _ ↦ TrackedStream.isSome_sendErr_closeSend _ _⟩
  | closeReceive error =>
    exact ⟨fun _ ↦ TrackedStream.isSome_recvErr_closeReceive _ _, by simp⟩
  | receive now surroundings hsender =>
    unfold Tunnel.receiveDatagram
    split <;> exact ⟨id, id⟩
  | _ => exact ⟨id, id⟩

/-- What a step does to the socket and to the place of the tunnel in the proxy. -/
structure Passage (tunnel tunnel' : Tunnel) (move : Move) : Prop where
  socketClosed : tunnel.socketClosed = true → tunnel'.socketClosed = true
  registered : move ≠ .register → move ≠ .leave → tunnel'.registered = tunnel.registered
  leaving : move ≠ .leave → tunnel.phase = .leaving → tunnel'.phase = .leaving
  returned : tunnel.phase = .returned → tunnel'.phase = .returned

theorem passage_of_phase {move : Move} (hsocket : tunnel'.socketClosed = tunnel.socketClosed)
    (hphase : tunnel'.phase = tunnel.phase) : Passage tunnel tunnel' move :=
  ⟨by rw [hsocket]; exact id, fun _ _ ↦ by rw [registered, registered, hphase],
    fun _ hleaving ↦ hphase.trans hleaving, fun hreturned ↦ hphase.trans hreturned⟩

theorem passage_of_move {move : Move}
    (hmove : tunnel.move config proxyClosed move = some tunnel') :
    Passage tunnel tunnel' move := by
  cases move with
  | read byte error =>
    simp only [Tunnel.move] at hmove
    split at hmove
    · next hphase =>
      split_ifs at hmove
      obtain rfl := Option.some.inj hmove
      simp only [received]
      split
      · exact ⟨id, by simp [registered, hphase], by simp [hphase], by simp [hphase]⟩
      · split <;> exact ⟨id, by simp [registered, hphase], by simp [hphase], by simp [hphase]⟩
      · exact ⟨id, by simp [registered, hphase], by simp [hphase], by simp [hphase]⟩
    · cases hmove
  | receiveDatagram now surroundings =>
    simp only [Tunnel.move] at hmove
    split at hmove
    · obtain rfl := Option.some.inj hmove
      unfold Tunnel.receiveDatagram
      split <;> exact passage_of_phase rfl rfl
    · cases hmove
  | register =>
    simp only [Tunnel.move] at hmove
    split at hmove
    · next hphase =>
      obtain rfl := Option.some.inj hmove
      exact ⟨fun _ ↦ rfl, by simp, by simp [hphase], by simp [hphase]⟩
    · next hphase =>
      obtain rfl := Option.some.inj hmove
      exact ⟨id, by simp, by simp [hphase], by simp [hphase]⟩
    · cases hmove
  | leave =>
    simp only [Tunnel.move] at hmove
    split at hmove
    · next hphase =>
      obtain rfl := Option.some.inj hmove
      exact ⟨fun _ ↦ rfl, by simp, by simp, by simp [hphase]⟩
    · cases hmove
  | write succeeds =>
    simp only [Tunnel.move] at hmove
    split at hmove
    · split_ifs at hmove
      all_goals
        obtain rfl := Option.some.inj hmove
        exact passage_of_phase rfl rfl
    · cases hmove
  | readSocket packet =>
    simp only [Tunnel.move] at hmove
    split at hmove
    · obtain rfl := Option.some.inj hmove
      exact passage_of_phase rfl rfl
    · split_ifs at hmove
      all_goals
        obtain rfl := Option.some.inj hmove
        exact passage_of_phase rfl rfl
    · cases hmove
  | wake | endSending | checkSend | sendDatagram succeeds | endReceiving =>
    simp only [Tunnel.move] at hmove
    split at hmove
    · obtain rfl := Option.some.inj hmove
      exact passage_of_phase rfl rfl
    · cases hmove
  | dial succeeds =>
    simp only [Tunnel.move] at hmove
    split at hmove
    · next hphase =>
      obtain rfl := Option.some.inj hmove
      exact ⟨id, by simp [registered, hphase], by simp [hphase], by simp [hphase]⟩
    · next hphase =>
      obtain rfl := Option.some.inj hmove
      exact ⟨id, by simp [registered, hphase], by simp [hphase], by simp [hphase]⟩
    · cases hmove
  | wait =>
    simp only [Tunnel.move] at hmove
    split at hmove
    · next hphase _ _ =>
      obtain rfl := Option.some.inj hmove
      exact ⟨id, by simp [registered, hphase], by simp [hphase], by simp [hphase]⟩
    · cases hmove
  | closeSocket =>
    simp only [Tunnel.move] at hmove
    split at hmove
    · next hphase =>
      obtain rfl := Option.some.inj hmove
      exact ⟨fun _ ↦ rfl, by simp [registered, hphase], by simp [hphase], by simp [hphase]⟩
    · cases hmove
  | answer | readFails error | closeStream | release =>
    simp only [Tunnel.move] at hmove
    split at hmove
    · next hphase =>
      obtain rfl := Option.some.inj hmove
      exact ⟨id, by simp [registered, hphase], by simp [hphase], by simp [hphase]⟩
    · cases hmove

theorem move_register (hmove : tunnel.move config proxyClosed .register = some tunnel') :
    tunnel.phase = .registering ∧ tunnel'.registered = !proxyClosed := by
  simp only [Tunnel.move] at hmove
  split at hmove
  · next hphase =>
    obtain rfl := Option.some.inj hmove
    exact ⟨hphase, rfl⟩
  · next hphase =>
    obtain rfl := Option.some.inj hmove
    exact ⟨hphase, rfl⟩
  · cases hmove

theorem move_leave (hmove : tunnel.move config proxyClosed .leave = some tunnel') :
    tunnel.phase = .leaving ∧ tunnel'.registered = false := by
  simp only [Tunnel.move] at hmove
  split at hmove
  · next hphase =>
    obtain rfl := Option.some.inj hmove
    exact ⟨hphase, rfl⟩
  · cases hmove

theorem onward_move {move : Move} (hmove : tunnel.move config proxyClosed move = some tunnel') :
    tunnel.Onward tunnel' :=
  ⟨(effect_of_move hmove).onward.1, (effect_of_move hmove).onward.2,
    (passage_of_move hmove).socketClosed⟩

/-- The goroutines do not notice at once what comes from outside. -/
theorem outside_outline (proxyClosed : Bool) (tunnel : Tunnel) (outside : Outside) :
    (tunnel.outside proxyClosed outside).phase = tunnel.phase ∧
      (tunnel.outside proxyClosed outside).sender = tunnel.sender ∧
      (tunnel.outside proxyClosed outside).receiver = tunnel.receiver ∧
      (tunnel.socketClosed = true → (tunnel.outside proxyClosed outside).socketClosed = true) := by
  cases outside with
  | datagram | streamDone | connectionCloses => exact ⟨rfl, rfl, rfl, id⟩
  | entryCancelsRead | entryClosesStream | entryClosesSocket =>
    simp only [Tunnel.outside]
    split_ifs <;> simp

theorem registered_outside (proxyClosed : Bool) (tunnel : Tunnel) (outside : Outside) :
    (tunnel.outside proxyClosed outside).registered = tunnel.registered := by
  rw [registered, registered, (tunnel.outside_outline proxyClosed outside).1]

theorem Staffed.outside (h : tunnel.Staffed) (outside : Outside) :
    (tunnel.outside proxyClosed outside).Staffed := by
  obtain ⟨hphase, hsender, hreceiver, hsocket⟩ := tunnel.outside_outline proxyClosed outside
  unfold Staffed at h ⊢
  rw [hphase, hsender, hreceiver]
  cases hcase : tunnel.phase with
  | releasing | returned =>
    rw [hcase] at h
    exact h.imp_right fun hdone ↦ ⟨hdone.1, hdone.2.1, hsocket hdone.2.2⟩
  | _ =>
    rw [hcase] at h
    exact h

theorem onward_outside (proxyClosed : Bool) (tunnel : Tunnel) (outside : Outside) :
    tunnel.Onward (tunnel.outside proxyClosed outside) := by
  have hsocket := (tunnel.outside_outline proxyClosed outside).2.2.2
  by_cases hdatagram : ∃ data now surroundings, outside = .datagram data now surroundings
  · obtain ⟨data, now, surroundings, rfl⟩ := hdatagram
    exact ⟨by simp [Tunnel.outside], by simp [Tunnel.outside], id⟩
  · have heffect := tunnel.effect_of_outside proxyClosed fun data now surroundings heq ↦
      hdatagram ⟨data, now, surroundings, heq⟩
    exact ⟨heffect.onward.1, heffect.onward.2, hsocket⟩

theorem Attentive.outside (h : tunnel.Attentive) (outside : Outside) :
    (tunnel.outside proxyClosed outside).Attentive := by
  by_cases hdatagram : ∃ data now surroundings, outside = .datagram data now surroundings
  · obtain ⟨data, now, surroundings, rfl⟩ := hdatagram
    exact ⟨h.stream.enqueueDatagram data now surroundings,
      fun hsender ↦ (h.told hsender).enqueueDatagram h.stream data now surroundings⟩
  · obtain ⟨⟨hstream, htold⟩, -⟩ := h.effect (tunnel.effect_of_outside proxyClosed
      fun data now surroundings heq ↦ hdatagram ⟨data, now, surroundings, heq⟩)
    exact ⟨hstream, htold⟩

theorem Attentive.move (h : tunnel.Attentive) {move : Move}
    (hmove : tunnel.move config proxyClosed move = some tunnel') : tunnel'.Attentive := by
  obtain ⟨⟨hstream, htold⟩, -⟩ := h.effect (effect_of_move hmove)
  exact ⟨hstream, htold⟩

/-! ### A tunnel whose entry is closed -/

/-- A step that nothing holds up: what it waits for is there or has ended. The steps of
`proxyConnReceive` up to its end are left to the connection. -/
def forced (tunnel : Tunnel) : Move → Bool
  | .answer | .closeStream | .closeSocket | .wait | .receiveDatagram _ _ | .wake | .endSending
  | .endReceiving => true
  | .readFails _ => tunnel.stream.recvErr.isSome
  | .write succeeds => !succeeds && tunnel.socketClosed
  | .readSocket _ | .checkSend | .sendDatagram _ => false
  | .dial _ | .register | .read _ _ | .leave | .release => false

/-- A sequence of such steps of the goroutines of a tunnel, once the proxy is closed. -/
def follow (config : TrailerConfig) (tunnel : Tunnel) : List Move → Option Tunnel
  | [] => some tunnel
  | move :: moves =>
    if tunnel.forced move then (tunnel.move config true move).bind (follow config · moves)
    else none

theorem follow_cons {move : Move} {moves : List Move} (hforced : tunnel.forced move = true)
    (hmove : tunnel.move config true move = some tunnel') :
    tunnel.follow config (move :: moves) = tunnel'.follow config moves := by
  rw [follow, if_pos hforced, hmove, Option.bind_some]

theorem follow_append {first second : List Move} {tunnel'' : Tunnel}
    (hfirst : tunnel.follow config first = some tunnel')
    (hsecond : tunnel'.follow config second = some tunnel'') :
    tunnel.follow config (first ++ second) = some tunnel'' := by
  induction first generalizing tunnel with
  | nil =>
    obtain rfl := Option.some.inj hfirst
    exact hsecond
  | cons move moves ih =>
    rw [follow] at hfirst
    split_ifs at hfirst with hforced
    obtain ⟨middle, hmove, hmoves⟩ := Option.bind_eq_some_iff.mp hfirst
    rw [List.cons_append, follow_cons hforced hmove]
    exact ih hmoves

theorem follow_invariant (inv : Tunnel → Prop)
    (hstep : ∀ tunnel tunnel' move, tunnel.move config true move = some tunnel' → inv tunnel →
      inv tunnel')
    {moves : List Move} (hfollow : tunnel.follow config moves = some tunnel') (h : inv tunnel) :
    inv tunnel' := by
  induction moves generalizing tunnel with
  | nil =>
    obtain rfl := Option.some.inj hfollow
    exact h
  | cons move moves ih =>
    rw [follow] at hfollow
    split_ifs at hfollow
    obtain ⟨middle, hmove, hmoves⟩ := Option.bind_eq_some_iff.mp hfollow
    exact ih hmoves (hstep _ _ _ hmove h)

/-- Assumes: a tunnel in order whose receive side has ended. Nothing is left in its queue. -/
theorem Attentive.receiveDatagram_of_recvErr (h : tunnel.Attentive)
    (hended : tunnel.stream.recvErr.isSome = true) (now : Time) (surroundings : Surroundings) :
    (tunnel.receiveDatagram now surroundings).sender = .ending := by
  have hempty : tunnel.stream.queue.waiting = [] := by
    rw [Queue.waiting, h.stream.queue.contents_eq_nil (h.stream.closed.trans hended)]
    rfl
  have hsub := (Operation.pop now).waiting_sublist h.stream.queue surroundings
  rw [show (Operation.pop now).offered = none from rfl, Option.toList_none, List.append_nil,
    hempty, List.sublist_nil, List.append_eq_nil_iff] at hsub
  unfold Tunnel.receiveDatagram
  split
  · next heq =>
    rw [heq] at hsub
    exact absurd hsub.1 (by simp [poppedData])
  · exact if_pos hended

variable (config) in
/-- Assumes: the entry of the tunnel is closed. `proxyConnSend` comes to its end. -/
theorem Shut.exists_follow_sender (h : tunnel.Shut) (hattentive : tunnel.Attentive)
    (hsender : tunnel.sender ≠ .idle) :
    ∃ moves tunnel', tunnel.follow config moves = some tunnel' ∧ tunnel'.sender = .done ∧
      tunnel'.phase = tunnel.phase ∧ tunnel'.receiver = tunnel.receiver ∧ tunnel'.Shut := by
  have hending : ∀ {tunnel : Tunnel}, tunnel.Shut → tunnel.sender = .ending →
      tunnel.follow config [.endSending] =
          some { tunnel with stream := tunnel.stream.close, sender := .done } ∧
        Shut { tunnel with stream := tunnel.stream.close, sender := .done } := by
    intro tunnel hshut hsender
    have hmove : tunnel.move config true .endSending =
        some { tunnel with stream := tunnel.stream.close, sender := .done } := by
      simp only [Tunnel.move, hsender]
    exact ⟨follow_cons rfl hmove, hshut.onward (onward_move hmove)⟩
  have hreceiving : ∀ {tunnel : Tunnel}, tunnel.Shut → tunnel.Attentive →
      tunnel.sender = .receiving →
      ∃ moves tunnel', tunnel.follow config moves = some tunnel' ∧ tunnel'.sender = .done ∧
        tunnel'.phase = tunnel.phase ∧ tunnel'.receiver = tunnel.receiver ∧ tunnel'.Shut := by
    intro tunnel hshut hattentive hsender
    have hmove : tunnel.move config true (.receiveDatagram ⟨0, 0⟩ fun _ _ ↦ true) =
        some (tunnel.receiveDatagram ⟨0, 0⟩ fun _ _ ↦ true) := by
      simp only [Tunnel.move, hsender]
    obtain ⟨hphase, hreceiver⟩ := tunnel.receiveDatagram_phase ⟨0, 0⟩ fun _ _ ↦ true
    obtain ⟨hfollow, hdone⟩ := hending (hshut.onward (onward_move hmove))
      (hattentive.receiveDatagram_of_recvErr hshut.recvErr _ _)
    exact ⟨_, _, (follow_cons rfl hmove).trans hfollow, rfl, hphase, hreceiver, hdone⟩
  cases hcase : tunnel.sender with
  | idle => exact absurd hcase hsender
  | receiving => exact hreceiving h hattentive hcase
  | selecting =>
    -- The end of the receive side has been signalled.
    have hdata : tunnel.stream.hasData = true := by
      refine (hattentive.told hcase).resolve_right fun hidle ↦ ?_
      have hended := h.recvErr
      rw [hidle.2] at hended
      cases hended
    have hmove : tunnel.move config true .wake = some { tunnel with
        stream := { tunnel.stream with hasData := false }, sender := .receiving } := by
      simp only [Tunnel.move, hcase, hdata]
    obtain ⟨moves, tunnel', hfollow, hdone, hphase, hreceiver, hshut⟩ :=
      hreceiving (h.onward (onward_move hmove)) (hattentive.move hmove) rfl
    exact ⟨_, tunnel', (follow_cons rfl hmove).trans hfollow, hdone, hphase, hreceiver, hshut⟩
  | writing payload =>
    have hmove : tunnel.move config true (.write false) =
        some { tunnel with sender := .ending } := by
      simp [Tunnel.move, hcase]
    obtain ⟨hfollow, hdone⟩ := hending (h.onward (onward_move hmove)) rfl
    exact ⟨_, _, (follow_cons (by simp [forced, h.socketClosed]) hmove).trans hfollow, rfl, rfl,
      rfl, hdone⟩
  | ending =>
    obtain ⟨hfollow, hdone⟩ := hending h hcase
    exact ⟨_, _, hfollow, rfl, rfl, rfl, hdone⟩
  | done => exact ⟨[], tunnel, rfl, hcase, rfl, rfl, h⟩

/-- What the handler and the goroutines of a tunnel keep once its entry is closed. -/
structure Winding (tunnel : Tunnel) : Prop where
  shut : tunnel.Shut
  attentive : tunnel.Attentive
  staffed : tunnel.Staffed

theorem Winding.follow (h : tunnel.Winding) {moves : List Move}
    (hfollow : tunnel.follow config moves = some tunnel') : tunnel'.Winding :=
  follow_invariant Winding (fun _ _ _ hmove h ↦
    ⟨h.shut.onward (onward_move hmove), h.attentive.move hmove, h.staffed.move hmove⟩) hfollow h

/-- The handler comes to the wait for its goroutines. -/
theorem Winding.exists_follow_waiting (h : tunnel.Winding) (hregistered : tunnel.registered = true)
    (hphase : tunnel.phase ≠ .leaving) :
    ∃ moves tunnel', tunnel.follow config moves = some tunnel' ∧ tunnel'.phase = .waiting := by
  have hclosing : ∀ {tunnel : Tunnel}, tunnel.phase = .closing →
      ∃ moves tunnel', tunnel.follow config moves = some tunnel' ∧ tunnel'.phase = .waiting :=
    fun {tunnel} hphase ↦ ⟨[.closeSocket], { tunnel with socketClosed := true, phase := .waiting },
      follow_cons rfl (by simp only [Tunnel.move, hphase]), rfl⟩
  have hstopped : ∀ {tunnel : Tunnel}, tunnel.phase = .stopped →
      ∃ moves tunnel', tunnel.follow config moves = some tunnel' ∧ tunnel'.phase = .waiting := by
    intro tunnel hphase
    obtain ⟨moves, tunnel', hfollow, hwaiting⟩ := hclosing (show
      { tunnel with stream := tunnel.stream.close, phase := .closing }.phase = .closing from rfl)
    exact ⟨.closeStream :: moves, tunnel',
      (follow_cons rfl (by simp only [Tunnel.move, hphase])).trans hfollow, hwaiting⟩
  have hreading : ∀ {tunnel : Tunnel} {body capsule}, tunnel.phase = .reading body capsule →
      tunnel.Shut →
      ∃ moves tunnel', tunnel.follow config moves = some tunnel' ∧ tunnel'.phase = .waiting := by
    intro tunnel body capsule hphase hshut
    obtain ⟨moves, tunnel', hfollow, hwaiting⟩ := hstopped (show { tunnel with
      stream := tunnel.stream.read (some .broken), phase := .stopped }.phase = .stopped from rfl)
    exact ⟨.readFails .broken :: moves, tunnel',
      (follow_cons (show tunnel.forced (.readFails .broken) = true from hshut.recvErr)
        (by simp only [Tunnel.move, hphase])).trans hfollow, hwaiting⟩
  cases hcase : tunnel.phase with
  | answering =>
    have hmove : tunnel.move config true .answer = some { tunnel with
        phase := .reading .new (.type []), sender := .receiving, receiver := .reading } := by
      simp only [Tunnel.move, hcase]
    obtain ⟨moves, tunnel', hfollow, hwaiting⟩ :=
      hreading rfl (h.shut.onward (onward_move hmove))
    exact ⟨.answer :: moves, tunnel', (follow_cons rfl hmove).trans hfollow, hwaiting⟩
  | reading body capsule => exact hreading hcase h.shut
  | stopped => exact hstopped hcase
  | closing => exact hclosing hcase
  | waiting => exact ⟨[], tunnel, rfl, hcase⟩
  | leaving => exact absurd hcase hphase
  | dialing | registering | releasing | returned => simp [registered, hcase] at hregistered

variable (config) in
/-- The handler waits, and only `proxyConnReceive` may be at work, whatever the client does. -/
theorem Winding.exists_follow_quiet (h : tunnel.Winding) (hregistered : tunnel.registered = true)
    (hphase : tunnel.phase ≠ .leaving) :
    ∃ moves tunnel', tunnel.follow config moves = some tunnel' ∧ tunnel'.phase = .waiting ∧
      tunnel'.sender = .done := by
  obtain ⟨first, waiting, hfirst, hwaiting⟩ := h.exists_follow_waiting hregistered hphase
  have hstaffed := (h.follow hfirst).staffed
  simp only [Staffed, hwaiting] at hstaffed
  obtain ⟨second, quiet, hsecond, hsender, hsame, -, -⟩ :=
    (h.follow hfirst).shut.exists_follow_sender config (h.follow hfirst).attentive hstaffed.1
  exact ⟨first ++ second, quiet, follow_append hfirst hsecond, hsame.trans hwaiting, hsender⟩

variable (config) in
/-- Assumes: the handler waits, and both goroutines have come to their end. -/
theorem exists_follow_leaving (hphase : tunnel.phase = .waiting) (hsender : tunnel.sender = .done)
    (hreceiver : tunnel.receiver = .ending ∨ tunnel.receiver = .done) :
    ∃ moves tunnel', tunnel.follow config moves = some tunnel' ∧ tunnel'.phase = .leaving := by
  have hwait : ∀ {tunnel : Tunnel}, tunnel.phase = .waiting → tunnel.sender = .done →
      tunnel.receiver = .done →
      tunnel.follow config [.wait] = some { tunnel with phase := .leaving } :=
    fun hphase hsender hreceiver ↦
      follow_cons rfl (by simp only [Tunnel.move, hphase, hsender, hreceiver])
  rcases hreceiver with hending | hdone
  · have hmove : tunnel.move config true .endReceiving =
        some { tunnel with stream := tunnel.stream.close, receiver := .done } := by
      simp only [Tunnel.move, hending]
    have hlast := @hwait { tunnel with stream := tunnel.stream.close, receiver := .done } hphase
      hsender rfl
    exact ⟨[.endReceiving, .wait], _, (follow_cons rfl hmove).trans hlast, rfl⟩
  · exact ⟨[.wait], _, hwait hphase hsender hdone, rfl⟩

end Tunnels.Tunnel

end QortalRelay
