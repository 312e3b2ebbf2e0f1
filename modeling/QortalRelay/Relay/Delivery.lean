import QortalRelay.Relay.Tunnel

/-!
# Datagrams on their way through a stream and its tunnel

What an operation takes from a queue stood at its front, and what it puts there goes to the end
(`Operation.waiting_sublist`). Every step of a tunnel does one of a few things to its stream and its
sender (`Tunnel.effect_of_move`), and none of them adds to the payloads that are on their way to the
socket or changes their order (`Tunnel.Attentive.effect`). A sender that waits has been told of
whatever there is for it (`TrackedStream.Told`).
-/

set_option autoImplicit false
set_option relaxedAutoImplicit false

namespace QortalRelay

open Foundation Foundation.Encoding Datagrams Http3

/-! ### What waits in a queue -/

theorem filterMap_singleton {α β : Type} (f : α → Option β) (a : α) :
    [a].filterMap f = (f a).toList := by
  cases h : f a <;> simp [h]

namespace Datagrams

def Queue.waiting (queue : Queue) : List Bytes := queue.ring.contents.map Entry.data

/-- The data that an operation offers to the queue. -/
def Operation.offered : Operation → Option Bytes
  | .push data _ => some data
  | _ => none

theorem Departure.sublist_entries (departures : List Departure) :
    (departures.filterMap Departure.poppedData).Sublist
      (departures.map fun departure ↦ departure.entry.data) := by
  induction departures with
  | nil => exact List.Sublist.refl _
  | cons departure departures ih =>
    cases departure with
    | popped entry now burst => exact ih.cons_cons _
    | expired entry now => exact ih.cons _
    | discarded entry => exact ih.cons _

theorem accepted_sublist (operation : Operation) (result : Result) :
    ((acceptedEntry operation result).toList.map Entry.data).Sublist
      operation.offered.toList := by
  cases operation with
  | push data now =>
    cases result with
    | pushed accepted => cases accepted <;> simp [acceptedEntry, Operation.offered]
    | popped => simp [acceptedEntry]
    | done => simp [acceptedEntry]
  | _ => simp [acceptedEntry]

theorem poppedData_eq_none {result : Result}
    (h : ∀ data, result = .popped (some data) → False) : poppedData result = none := by
  match result with
  | .popped (some data) => exact (h data rfl).elim
  | .popped none | .pushed _ | .done => rfl

variable {small : Prop} {queue : Queue}

/-- Assumes: a sound queue. What an operation gives out comes from the front of the queue, and what
it takes in goes to the back. -/
theorem Operation.waiting_sublist (operation : Operation) (hsound : queue.Sound small)
    (surroundings : Surroundings) :
    ((poppedData (operation.perform surroundings queue).2).toList ++
        (operation.perform surroundings queue).1.waiting).Sublist
      (queue.waiting ++ operation.offered.toList) := by
  obtain ⟨granted, -, happly⟩ := operation.perform_spec hsound surroundings
  have hconserved := queue.view.entries_conserved_apply operation granted
  have hpopped := queue.view.poppedData_apply operation granted
  rw [happly] at hconserved hpopped
  have hdata : queue.waiting ++
      (acceptedEntry operation (operation.perform surroundings queue).2).toList.map Entry.data =
      (queue.view.departures operation).map (fun departure ↦ departure.entry.data) ++
        (operation.perform surroundings queue).1.waiting := by
    have hmap := congrArg (List.map Entry.data) hconserved
    rw [List.map_append, List.map_append, List.map_map] at hmap
    exact hmap
  have htaken := (Departure.sublist_entries (queue.view.departures operation)).append_right
    (operation.perform surroundings queue).1.waiting
  rw [hpopped]
  refine htaken.trans ?_
  rw [← hdata]
  exact (accepted_sublist operation _).append_left _

/-- Assumes: a sound queue. Where a pop finds nothing, nothing waits. -/
theorem waiting_eq_nil_of_pop (hsound : queue.Sound small) (now : Time)
    (surroundings : Surroundings)
    (hnone : poppedData ((Operation.pop now).perform surroundings queue).2 = none) :
    ((Operation.pop now).perform surroundings queue).1.waiting = [] := by
  obtain ⟨granted, -, happly⟩ := (Operation.pop now).perform_spec hsound surroundings
  obtain ⟨hview, hresult⟩ := Prod.mk.inj happly
  rw [← hresult] at hnone
  have hentries : (queue.view.pop now).1.entries = [] := by
    change (queue.view.pop now).2 = none at hnone
    cases hcase : (queue.view.expire now).entries with
    | nil => simp [Fifo.pop, hcase]
    | cons entry rest => simp [Fifo.pop, hcase] at hnone
  rw [hview] at hentries
  exact congrArg (List.map Entry.data) hentries

/-- Assumes: a sound queue. A push that is not accepted leaves an empty queue empty. -/
theorem waiting_eq_nil_of_push (hsound : queue.Sound small) (data : Bytes) (now : Time)
    (surroundings : Surroundings) (hempty : queue.waiting = [])
    (hrefused : ((Operation.push data now).perform surroundings queue).2 ≠ .pushed true) :
    ((Operation.push data now).perform surroundings queue).1.waiting = [] := by
  obtain ⟨granted, -, happly⟩ := (Operation.push data now).perform_spec hsound surroundings
  have hconserved := queue.view.entries_conserved_apply (.push data now) granted
  rw [happly] at hconserved
  have hnone : acceptedEntry (.push data now)
      ((Operation.push data now).perform surroundings queue).2 = none := by
    unfold acceptedEntry
    split
    · next hpushed => exact absurd hpushed hrefused
    · rfl
  rw [hnone, show queue.view.entries = [] from List.map_eq_nil_iff.mp hempty] at hconserved
  have hentries := (List.append_eq_nil_iff.mp hconserved.symm).2
  exact congrArg (List.map Entry.data) hentries

end Datagrams

/-! ### A stream and its tunnel -/

namespace Http3.TrackedStream

variable {stream : TrackedStream}

@[simp] theorem queue_closeSend (stream : TrackedStream) (error : StreamError) :
    (stream.closeSend error).queue = stream.queue := by
  unfold closeSend
  split_ifs <;> rfl

@[simp] theorem hasData_closeSend (stream : TrackedStream) (error : StreamError) :
    (stream.closeSend error).hasData = stream.hasData := by
  unfold closeSend
  split_ifs <;> rfl

theorem Ok.waiting_closeReceive (h : stream.Ok) (error : StreamError) :
    (stream.closeReceive error).queue.waiting.Sublist stream.queue.waiting := by
  unfold TrackedStream.closeReceive
  split_ifs
  · have hsub := Operation.close.waiting_sublist h.queue fun _ _ ↦ true
    rw [show Operation.close.offered = none from rfl, Option.toList_none, List.append_nil] at hsub
    exact (List.sublist_append_right _ _).trans hsub
  · exact List.Sublist.refl _

theorem Ok.waiting_enqueueDatagram (h : stream.Ok) (data : Bytes) (now : Time)
    (surroundings : Surroundings) :
    (stream.enqueueDatagram data now surroundings).queue.waiting.Sublist
      (stream.queue.waiting ++ [data]) := by
  have hsub := (Operation.push data now).waiting_sublist h.queue surroundings
  have hqueue : List.Sublist _ (stream.queue.waiting ++ [data]) :=
    (List.sublist_append_right _ _).trans hsub
  unfold TrackedStream.enqueueDatagram
  split_ifs
  · split
    · next queue heq => rwa [heq] at hqueue
    · next queue result _ heq => rwa [heq] at hqueue
  · exact List.sublist_append_left _ _

/-- Nothing waits for a receiver that has not been told, neither a datagram nor an error. -/
def Told (stream : TrackedStream) : Prop :=
  stream.hasData = true ∨ stream.queue.waiting = [] ∧ stream.recvErr = none

theorem Told.closeSend (h : stream.Told) (error : StreamError) :
    (stream.closeSend error).Told := by
  rwa [Told, hasData_closeSend, queue_closeSend, recvErr_closeSend]

theorem Told.closeReceive (h : stream.Told) (error : StreamError) :
    (stream.closeReceive error).Told := by
  unfold TrackedStream.closeReceive
  split_ifs
  · exact Or.inl rfl
  · exact h

theorem Told.enqueueDatagram (hok : stream.Ok) (h : stream.Told) (data : Bytes) (now : Time)
    (surroundings : Surroundings) : (stream.enqueueDatagram data now surroundings).Told := by
  unfold TrackedStream.enqueueDatagram
  split_ifs
  · split
    · exact Or.inl rfl
    · next queue result hrefused heq =>
      refine h.imp_right fun hidle ↦ ⟨?_, hidle.2⟩
      have hempty := waiting_eq_nil_of_push hok.queue data now surroundings hidle.1 (by
        rw [heq]
        exact fun hpushed ↦ hrefused hpushed)
      rwa [heq] at hempty
  · exact h

end Http3.TrackedStream

namespace Tunnels

/-- The payload that `proxyConnSend` writes for a datagram of its stream. -/
def payloadOf (data : Bytes) : Option Bytes :=
  match forward data with
  | .writing payload => some payload
  | _ => none

def Sender.payload? : Sender → Option Bytes
  | writing payload => some payload
  | _ => none

namespace Tunnel

/-- The payloads on their way to the socket: the one that is being written, and those that wait in
the queue of the stream. -/
def pending (tunnel : Tunnel) : List Bytes :=
  tunnel.sender.payload?.toList ++ tunnel.stream.queue.waiting.filterMap payloadOf

/-- What a step writes to the socket. -/
def wrote (tunnel : Tunnel) : Move → Option Bytes
  | .write true => tunnel.sender.payload?
  | _ => none

/-- What a step may do to the stream and the sender of its tunnel, with what it writes to the
socket. -/
inductive Effect (tunnel : Tunnel) : TrackedStream → Sender → Option Bytes → Prop
  | keep : Effect tunnel tunnel.stream tunnel.sender none
  | start : Effect tunnel tunnel.stream .receiving none
  | closeSend (error : StreamError) :
    Effect tunnel (tunnel.stream.closeSend error) tunnel.sender none
  | closeReceive (error : StreamError) :
    Effect tunnel (tunnel.stream.closeReceive error) tunnel.sender none
  | enableBurst :
    Effect tunnel { tunnel.stream with
      queue := (Operation.enableBurst.perform (fun _ _ ↦ true) tunnel.stream.queue).1 }
      tunnel.sender none
  | receive (now : Time) (surroundings : Surroundings) (hsender : tunnel.sender = .receiving) :
    Effect tunnel (tunnel.receiveDatagram now surroundings).stream
      (tunnel.receiveDatagram now surroundings).sender none
  | wake : Effect tunnel { tunnel.stream with hasData := false } .receiving none
  | write (payload : Bytes) (succeeds : Bool) (hsender : tunnel.sender = .writing payload) :
    Effect tunnel tunnel.stream (if succeeds then .receiving else .ending)
      (if succeeds then some payload else none)
  | finish (error : StreamError) :
    Effect tunnel (tunnel.stream.closeSend error) .done none

variable {config : TrailerConfig} {proxyClosed : Bool} {tunnel tunnel' : Tunnel}

theorem effect_read (error : Option ReadError) :
    tunnel.Effect (tunnel.stream.read error) tunnel.sender none := by
  cases error with
  | none => exact .keep
  | some error => exact .closeReceive _

theorem effect_of_move {move : Move}
    (hmove : tunnel.move config proxyClosed move = some tunnel') :
    tunnel.Effect tunnel'.stream tunnel'.sender (tunnel.wrote move) := by
  cases move with
  | dial succeeds =>
    simp only [Tunnel.move] at hmove
    split at hmove
    · obtain rfl := Option.some.inj hmove
      exact .enableBurst
    · obtain rfl := Option.some.inj hmove
      exact .keep
    · cases hmove
  | read byte error =>
    simp only [Tunnel.move] at hmove
    split at hmove
    · split_ifs at hmove
      obtain rfl := Option.some.inj hmove
      have hread := tunnel.effect_read error
      simp only [received]
      split
      · exact hread
      · split <;> exact hread
      · exact hread
    · cases hmove
  | write succeeds =>
    simp only [Tunnel.move] at hmove
    split at hmove
    · next payload hsender =>
      split_ifs at hmove
      all_goals
        obtain rfl := Option.some.inj hmove
        have hwrite := Effect.write payload succeeds hsender
        simp_all [wrote, Sender.payload?]
    · cases hmove
  | receiveDatagram now surroundings =>
    simp only [Tunnel.move] at hmove
    split at hmove
    · next hsender =>
      obtain rfl := Option.some.inj hmove
      exact .receive now surroundings hsender
    · cases hmove
  | readSocket packet =>
    simp only [Tunnel.move] at hmove
    split at hmove
    · obtain rfl := Option.some.inj hmove
      exact .keep
    · split_ifs at hmove
      all_goals
        obtain rfl := Option.some.inj hmove
        exact .keep
    · cases hmove
  | checkSend | sendDatagram succeeds =>
    simp only [Tunnel.move] at hmove
    split at hmove
    · obtain rfl := Option.some.inj hmove
      exact .keep
    · cases hmove
  | answer =>
    simp only [Tunnel.move] at hmove
    split at hmove
    · obtain rfl := Option.some.inj hmove
      exact .start
    · cases hmove
  | readFails error =>
    simp only [Tunnel.move] at hmove
    split at hmove
    · obtain rfl := Option.some.inj hmove
      exact .closeReceive _
    · cases hmove
  | wake =>
    simp only [Tunnel.move] at hmove
    split at hmove
    · obtain rfl := Option.some.inj hmove
      exact .wake
    · cases hmove
  | endSending =>
    simp only [Tunnel.move] at hmove
    split at hmove
    · obtain rfl := Option.some.inj hmove
      exact .finish _
    · cases hmove
  | closeStream | endReceiving =>
    simp only [Tunnel.move] at hmove
    split at hmove
    · obtain rfl := Option.some.inj hmove
      exact .closeSend _
    · cases hmove
  | register =>
    simp only [Tunnel.move] at hmove
    split at hmove
    · obtain rfl := Option.some.inj hmove
      exact .keep
    · obtain rfl := Option.some.inj hmove
      exact .keep
    · cases hmove
  | closeSocket | wait | leave | release =>
    simp only [Tunnel.move] at hmove
    split at hmove
    · obtain rfl := Option.some.inj hmove
      exact .keep
    · cases hmove

/-- What comes from outside, datagrams apart. -/
theorem effect_of_outside (proxyClosed : Bool) {outside : Outside}
    (hdatagram : ∀ data now surroundings, outside ≠ .datagram data now surroundings) :
    tunnel.Effect (tunnel.outside proxyClosed outside).stream
      (tunnel.outside proxyClosed outside).sender none := by
  cases outside with
  | datagram data now surroundings => exact absurd rfl (hdatagram data now surroundings)
  | streamDone => exact .closeSend _
  | connectionCloses => exact .keep
  | entryCancelsRead =>
    simp only [Tunnel.outside]
    split_ifs
    · exact .closeReceive _
    · exact .keep
  | entryClosesStream =>
    simp only [Tunnel.outside]
    split_ifs
    · exact .closeSend _
    · exact .keep
  | entryClosesSocket =>
    simp only [Tunnel.outside]
    split_ifs
    · exact .keep
    · exact .keep

/-- The queue of the stream is in order, and the sender does not wait in vain. -/
structure Attentive (tunnel : Tunnel) : Prop where
  stream : tunnel.stream.Ok
  told : tunnel.sender = .selecting → tunnel.stream.Told

theorem payload?_forward (data : Bytes) : (forward data).payload? = payloadOf data := by
  unfold payloadOf
  cases forward data <;> rfl

/-- `ReceiveDatagram` takes the first datagram of the queue, or leaves nothing there. -/
theorem Attentive.receiveDatagram (h : tunnel.Attentive) (now : Time)
    (surroundings : Surroundings) :
    (tunnel.receiveDatagram now surroundings).Attentive ∧
      (tunnel.receiveDatagram now surroundings).pending.Sublist
        (tunnel.stream.queue.waiting.filterMap payloadOf) := by
  have hsub := (Operation.pop now).waiting_sublist h.stream.queue surroundings
  rw [show (Operation.pop now).offered = none from rfl, Option.toList_none, List.append_nil] at hsub
  have hok := h.stream.perform (nofun : Operation.pop now ≠ .close) surroundings
    tunnel.stream.hasData
  unfold Tunnel.receiveDatagram
  split
  · next queue data heq =>
    rw [heq] at hsub hok
    refine ⟨⟨hok, fun hsender ↦ ?_⟩, ?_⟩
    · unfold forward at hsender
      split at hsender
      · cases hsender
      · split_ifs at hsender
    · have hpayloads := hsub.filterMap payloadOf
      rw [List.filterMap_append] at hpayloads
      simp only [pending, payload?_forward]
      rwa [show (poppedData (.popped (some data))).toList = [data] from rfl,
        filterMap_singleton] at hpayloads
  · next queue result hsome heq =>
    have hempty := waiting_eq_nil_of_pop h.stream.queue now surroundings (by
      rw [heq]
      exact poppedData_eq_none hsome)
    rw [heq] at hempty hok
    refine ⟨⟨hok, fun hsender ↦ Or.inr ⟨hempty, ?_⟩⟩, ?_⟩
    · dsimp only at hsender ⊢
      split_ifs at hsender with hended
      exact Option.not_isSome_iff_eq_none.mp hended
    · dsimp only [pending]
      rw [hempty]
      split_ifs <;> exact List.nil_sublist _

/-- Assumes: a tunnel in order. Nothing is added to what is on its way to the socket, and what is
written was the first of it. -/
theorem Attentive.effect (h : tunnel.Attentive) {stream : TrackedStream} {sender : Sender}
    {payload : Option Bytes} (heffect : tunnel.Effect stream sender payload) :
    (stream.Ok ∧ (sender = .selecting → stream.Told)) ∧
      (payload.toList ++ (sender.payload?.toList ++
        stream.queue.waiting.filterMap payloadOf)).Sublist tunnel.pending := by
  cases heffect with
  | keep => exact ⟨⟨h.stream, h.told⟩, List.Sublist.refl _⟩
  | start => exact ⟨⟨h.stream, nofun⟩, List.sublist_append_right _ _⟩
  | closeSend error =>
    refine ⟨⟨h.stream.closeSend error, fun hsender ↦ (h.told hsender).closeSend error⟩, ?_⟩
    rw [TrackedStream.queue_closeSend]
    exact List.Sublist.refl _
  | closeReceive error =>
    refine ⟨⟨h.stream.closeReceive error, fun hsender ↦ (h.told hsender).closeReceive error⟩, ?_⟩
    exact ((h.stream.waiting_closeReceive error).filterMap _).append_left _
  | enableBurst =>
    have hsub := Operation.enableBurst.waiting_sublist h.stream.queue fun _ _ ↦ true
    rw [show Operation.enableBurst.offered = none from rfl, Option.toList_none,
      List.append_nil] at hsub
    replace hsub := (List.sublist_append_right _ _).trans hsub
    refine ⟨⟨h.stream.perform (nofun : Operation.enableBurst ≠ .close) _ _,
      fun hsender ↦ (h.told hsender).imp_right fun hidle ↦ ?_⟩,
      (hsub.filterMap _).append_left _⟩
    rw [hidle.1] at hsub
    exact ⟨List.sublist_nil.mp hsub, hidle.2⟩
  | receive now surroundings hsender =>
    obtain ⟨hreceive, hsub⟩ := h.receiveDatagram now surroundings
    refine ⟨⟨hreceive.stream, hreceive.told⟩, hsub.trans ?_⟩
    exact List.sublist_append_right _ _
  | wake => exact ⟨⟨⟨h.stream.queue, h.stream.closed⟩, nofun⟩, List.sublist_append_right _ _⟩
  | write payload succeeds hsender =>
    refine ⟨⟨h.stream, fun hselecting ↦ ?_⟩, ?_⟩
    · cases succeeds <;> cases hselecting
    · rw [pending, hsender]
      cases succeeds with
      | true => exact List.Sublist.refl _
      | false => exact List.sublist_append_right _ _
  | finish error =>
    refine ⟨⟨h.stream.closeSend error, nofun⟩, ?_⟩
    rw [TrackedStream.queue_closeSend]
    exact List.sublist_append_right _ _

end Tunnel

end Tunnels

end QortalRelay
