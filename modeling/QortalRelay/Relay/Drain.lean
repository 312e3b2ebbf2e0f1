import QortalRelay.Relay.Coupling

/-!
# Closing the relay comes to an end

`Server.Close` waits twice: for the tunnels of the proxy, and for the handlers of the connections.
The entry of every tunnel has been closed before, which ends the reads and writes of its goroutines.
It does not end a call of `SendDatagram` that is past the check of its stream: such a call may wait
in `Add` for room in the queue of its connection, and only the packer of the connection or the end
of the connection lets it go, while the connections are closed after the wait. So from every state
that a run can reach each call of `Server.Close` can return if, connection by connection, the packer
goes on or the connection ends, whichever it is, and nothing else is needed of the clients. As long
as neither happens on a connection where a call is stuck, no call of `Server.Close` gets past its
wait (`close_can_return`).
-/

set_option autoImplicit false
set_option relaxedAutoImplicit false

namespace QortalRelay.Shutdown

open Foundation Foundation.Encoding Foundation.Trace Datagrams Http3 Admission Tunnels

variable {config : TrailerConfig} {relay relay' : Relay}

/-! ### Steps that nothing holds up -/

/-- The call has returned. -/
def Call.isOver : Call → Bool
  | refused | finished => true
  | _ => false

def Call.isAtWait : Call → Bool
  | waiting => true
  | _ => false

namespace Relay

/-- A step that nothing holds up, of the call or of a tunnel. Whether a dial succeeds is said for
each tunnel. -/
def forced (relay : Relay) (k : ℕ) (dials : ℕ → Bool) : Event → Bool
  | .move i move =>
    match move with
    | .leave | .register | .release => true
    | .dial succeeds => dials i == succeeds
    | move => (relay.tunnels[i]?).any (·.forced move)
  | .delete _ => true
  | .step j _ => j == k
  | _ => false

def forcedRun (config : TrailerConfig) (relay : Relay) (k : ℕ) (dials : ℕ → Bool) :
    List Event → Bool
  | [] => true
  | event :: events =>
    relay.forced k dials event && (relay.act config event).forcedRun config k dials events

/-- One state after another by such steps. -/
def Reaches (config : TrailerConfig) (k : ℕ) (dials : ℕ → Bool) (relay relay' : Relay) : Prop :=
  ∃ events, relay.forcedRun config k dials events = true ∧ relay.run config events = relay'

variable {k : ℕ} {dials : ℕ → Bool}

theorem Reaches.refl (relay : Relay) : Reaches config k dials relay relay := ⟨[], rfl, rfl⟩

theorem Reaches.cons {relay'' : Relay} {event : Event} (hforced : relay.forced k dials event = true)
    (hact : relay.act config event = relay') (h : Reaches config k dials relay' relay'') :
    Reaches config k dials relay relay'' := by
  obtain ⟨events, hevents, hrun⟩ := h
  subst hact
  exact ⟨event :: events, by rw [forcedRun, hforced, hevents]; rfl, hrun⟩

theorem Reaches.trans {relay'' : Relay} (h : Reaches config k dials relay relay')
    (h' : Reaches config k dials relay' relay'') : Reaches config k dials relay relay'' := by
  obtain ⟨events, hevents, rfl⟩ := h
  induction events generalizing relay with
  | nil => exact h'
  | cons event events ih =>
    obtain ⟨hforced, hrest⟩ := Bool.and_eq_true_iff.mp hevents
    exact Reaches.cons hforced rfl (ih hrest h')

theorem Reaches.sound (h : Reaches config k dials relay relay') (hsound : relay.Sound) :
    relay'.Sound := by
  obtain ⟨events, -, rfl⟩ := h
  exact hsound.run events

/-- Assumes: a closed proxy, and a step that the proxy does not count. -/
theorem act_move (hclosed : relay.proxyClosed = true) {i : ℕ} {tunnel tunnel' : Tunnel}
    {move : Move} (hget : relay.tunnels[i]? = some tunnel)
    (hmay : relay.mayMove i move = true ∧ relay.account i tunnel move = relay)
    (hmove : tunnel.move config true move = some tunnel') :
    relay.act config (.move i move) = relay.setTunnel i tunnel' := by
  simp only [Relay.act, Relay.move, hget, hclosed, hmove, hmay, if_true]

theorem mayMove_of_forced (hfree : relay.locked = false) {i : ℕ} {tunnel : Tunnel} {move : Move}
    (hforced : tunnel.forced move = true) :
    relay.mayMove i move = true ∧ relay.account i tunnel move = relay := by
  cases move with
  | leave | release | register => cases hforced
  | _ => exact ⟨by simp [mayMove, hfree], rfl⟩

@[simp] theorem setTunnel_setTunnel (relay : Relay) (i : ℕ) (tunnel tunnel' : Tunnel) :
    (relay.setTunnel i tunnel).setTunnel i tunnel' = relay.setTunnel i tunnel' := by
  simp only [Relay.setTunnel, List.set_set]

theorem reaches_setTunnel (hclosed : relay.proxyClosed = true) (hfree : relay.locked = false)
    {i : ℕ} {tunnel tunnel' : Tunnel} {moves : List Move} (hget : relay.tunnels[i]? = some tunnel)
    (hfollow : tunnel.follow config moves = some tunnel') :
    Reaches config k dials relay (relay.setTunnel i tunnel') := by
  have hi := (List.getElem?_eq_some_iff.mp hget).1
  induction moves generalizing relay tunnel with
  | nil =>
    obtain rfl := Option.some.inj hfollow
    obtain ⟨hi, rfl⟩ := List.getElem?_eq_some_iff.mp hget
    rw [Relay.setTunnel, List.set_getElem_self]
    exact Reaches.refl relay
  | cons move moves ih =>
    rw [Tunnel.follow] at hfollow
    split_ifs at hfollow with hforced
    obtain ⟨middle, hmove, hmoves⟩ := Option.bind_eq_some_iff.mp hfollow
    rw [← setTunnel_setTunnel relay i middle tunnel']
    refine Reaches.cons ?_ (act_move hclosed hget (mayMove_of_forced hfree hforced) hmove)
      (ih hclosed hfree (List.getElem?_set_self hi) hmoves (by simpa [Relay.setTunnel] using hi))
    cases move with
    | dial succeeds | leave | register | release => cases hforced
    | _ => simpa [forced, hget] using hforced

variable (config k dials) in
/-- A handler whose goroutines have ended goes. -/
theorem Sound.reaches_leave (h : relay.Sound) (hfree : relay.locked = false) {i : ℕ}
    {tunnel : Tunnel} (hget : relay.tunnels[i]? = some tunnel) (hphase : tunnel.phase = .leaving) :
    ∃ relay', Reaches config k dials relay relay' ∧ relay'.calls = relay.calls ∧
      flows relay'.tunnels + 1 = flows relay.tunnels := by
  have hdelete : relay.act config (.delete i) =
      { relay with closers := relay.closers.erase i } := by
    simp only [Relay.act, Relay.delete, hget, hphase, hfree, and_self, if_true]
  have hmove : tunnel.move config relay.proxyClosed .leave =
      some { tunnel with socketClosed := true, phase := .releasing } := by
    simp only [Tunnel.move, hphase]
  have hleave : Relay.act config { relay with closers := relay.closers.erase i } (.move i .leave) =
      { relay with
        closers := relay.closers.erase i, refCount := relay.refCount - 1
        tunnels := relay.tunnels.set i
          { tunnel with socketClosed := true, phase := .releasing } } := by
    have hmay : mayMove { relay with closers := relay.closers.erase i } i .leave = true := by
      simp [mayMove, h.nodup.mem_erase_iff]
    simp only [Relay.act, Relay.move, hget, hmove, hmay, if_true]
    rfl
  have hflows := flows_set hget { tunnel with socketClosed := true, phase := .releasing }
  refine ⟨_, Reaches.cons rfl hdelete (Reaches.cons rfl hleave (Reaches.refl _)), rfl, ?_⟩
  simpa [Tunnel.registered, hphase] using hflows

/-- Assumes: a call waits for the tunnels. -/
theorem Sound.unlocked (h : relay.Sound) {call : Call} (hk : relay.calls[k]? = some call)
    (hactive : call.active = 1) (hfree : call.holdsProxy = false) : relay.locked = false := by
  rw [locked, List.any_eq_false]
  intro other hmem hholds
  obtain ⟨j, hj⟩ := List.mem_iff_getElem?.mp hmem
  have hother : other.active = 1 := by
    cases other <;> first | rfl | cases hholds
  have hjk := h.eq_of_active hj hk hother hactive
  rw [hjk, hk] at hj
  obtain rfl := Option.some.inj hj
  rw [hfree] at hholds
  cases hholds

/-- The call comes to a place by steps that nothing holds up. -/
def Comes (config : TrailerConfig) (k : ℕ) (dials : ℕ → Bool) (goal : Call → Bool)
    (relay : Relay) : Prop :=
  ∃ relay' call, Reaches config k dials relay relay' ∧ relay'.calls[k]? = some call ∧
    goal call = true

variable {goal : Call → Bool}

theorem comes_refl {call : Call} (hk : relay.calls[k]? = some call) (hgoal : goal call = true) :
    Comes config k dials goal relay :=
  ⟨relay, call, Reaches.refl relay, hk, hgoal⟩

theorem Reaches.comes (h : Reaches config k dials relay relay')
    (hcomes : Comes config k dials goal relay') : Comes config k dials goal relay := by
  obtain ⟨last, call, hlast, hcall, hgoal⟩ := hcomes
  exact ⟨last, call, h.trans hlast, hcall, hgoal⟩

theorem reaches_step {call : Call} (hk : relay.calls[k]? = some call) (choice : ℕ) :
    Reaches config k dials relay (relay.step k choice call) := by
  have hact : relay.act config (.step k choice) = relay.step k choice call := by
    simp only [Relay.act, hk]
  exact Reaches.cons (by simp [forced]) hact (Reaches.refl _)

/-- Assumes: a step of the call takes it from one place to the next, and from there it goes on. -/
theorem comes_of_step {call new : Call} (hk : relay.calls[k]? = some call) (choice : ℕ)
    (hcalls : (relay.step k choice call).calls = relay.calls.set k new)
    (h : (relay.step k choice call).calls[k]? = some new →
      Comes config k dials goal (relay.step k choice call)) : Comes config k dials goal relay := by
  refine (reaches_step hk choice).comes (h ?_)
  rw [hcalls]
  exact List.getElem?_set_self (List.getElem?_eq_some_iff.mp hk).1

/-! ### After the tunnels -/

theorem comes_of_closingSocket (hk : relay.calls[k]? = some .closingSocket) :
    Comes config k dials Call.isOver relay :=
  comes_of_step hk 0 rfl fun hfinished ↦ comes_refl hfinished rfl

theorem comes_of_closingTickets (hk : relay.calls[k]? = some .closingTickets) :
    Comes config k dials Call.isOver relay :=
  comes_of_step hk 0 rfl comes_of_closingSocket

/-- The handler of a tunnel returns, and nothing else changes that the calls look at. -/
def Clears (config : TrailerConfig) (k : ℕ) (dials : ℕ → Bool) (relay : Relay) (i : ℕ) : Prop :=
  ∃ relay' tunnel', Reaches config k dials relay relay' ∧ relay'.calls = relay.calls ∧
    relay'.tunnels = relay.tunnels.set i tunnel' ∧ tunnel'.phase = .returned

section Clears

variable {i : ℕ} {tunnel : Tunnel}

/-- Assumes: a step that changes only the tunnel, after which its handler returns. -/
theorem clears_of_act {event : Event} {tunnel' : Tunnel}
    (hforced : relay.forced k dials event = true)
    (hact : relay.act config event = relay.setTunnel i tunnel')
    (h : Clears config k dials (relay.setTunnel i tunnel') i) : Clears config k dials relay i := by
  obtain ⟨relay', last, hreaches, hcalls, htunnels, hreturned⟩ := h
  refine ⟨relay', last, Reaches.cons hforced hact hreaches, hcalls, ?_, hreturned⟩
  rw [htunnels, Relay.setTunnel, List.set_set]

theorem clears_of_releasing (hfree : relay.locked = false)
    (hget : relay.tunnels[i]? = some tunnel) (hphase : tunnel.phase = .releasing) :
    Clears config k dials relay i := by
  have hact : relay.act config (.move i .release) =
      { relay.setTunnel i { tunnel with phase := .returned } with
        sessions := relay.sessions.release tunnel.source } := by
    simp only [Relay.act, Relay.move, hget, Tunnel.move, hphase, mayMove, hfree]
    rfl
  exact ⟨_, _, Reaches.cons rfl hact (Reaches.refl _), rfl, rfl, rfl⟩

/-- Assumes: a closed proxy, which takes no entry any more. -/
theorem clears_of_registering (hclosed : relay.proxyClosed = true) (hfree : relay.locked = false)
    (hget : relay.tunnels[i]? = some tunnel) (hphase : tunnel.phase = .registering) :
    Clears config k dials relay i := by
  have hact : relay.act config (.move i .register) =
      relay.setTunnel i { tunnel with phase := .releasing, socketClosed := true } := by
    simp only [Relay.act, Relay.move, hget, Tunnel.move, hphase, hclosed, mayMove, hfree, account]
    rfl
  exact clears_of_act rfl hact (clears_of_releasing hfree
    (List.getElem?_set_self (List.getElem?_eq_some_iff.mp hget).1) rfl)

/-- Assumes: a closed proxy. The dial fails, or the proxy takes no entry any more. -/
theorem clears_of_dialing (hclosed : relay.proxyClosed = true) (hfree : relay.locked = false)
    (hget : relay.tunnels[i]? = some tunnel) (hphase : tunnel.phase = .dialing) :
    Clears config k dials relay i := by
  have hi := (List.getElem?_eq_some_iff.mp hget).1
  have hmay (succeeds : Bool) : relay.mayMove i (.dial succeeds) = true ∧
      relay.account i tunnel (.dial succeeds) = relay := ⟨by simp [mayMove, hfree], rfl⟩
  have hforced : relay.forced k dials (.move i (.dial (dials i))) = true := by simp [forced]
  cases hdial : dials i with
  | true =>
    rw [hdial] at hforced
    obtain ⟨dialled, hmove, hregistering⟩ : ∃ dialled,
        tunnel.move config true (.dial true) = some dialled ∧ dialled.phase = .registering := by
      simp only [Tunnel.move, hphase]
      exact ⟨_, rfl, rfl⟩
    exact clears_of_act hforced (act_move hclosed hget (hmay true) hmove)
      (clears_of_registering hclosed hfree (List.getElem?_set_self hi) hregistering)
  | false =>
    rw [hdial] at hforced
    have hact : relay.act config (.move i (.dial false)) =
        relay.setTunnel i { tunnel with phase := .releasing } :=
      act_move hclosed hget (hmay false) (by simp only [Tunnel.move, hphase])
    exact clears_of_act hforced hact (clears_of_releasing hfree (List.getElem?_set_self hi) rfl)

/-- Assumes: a closed proxy. A handler that has no goroutines returns. -/
theorem clears_of_quiet (hclosed : relay.proxyClosed = true) (hfree : relay.locked = false)
    (hget : relay.tunnels[i]? = some tunnel) (hquiet : tunnel.registered = false) :
    Clears config k dials relay i := by
  cases hphase : tunnel.phase with
  | dialing => exact clears_of_dialing hclosed hfree hget hphase
  | registering => exact clears_of_registering hclosed hfree hget hphase
  | releasing => exact clears_of_releasing hfree hget hphase
  | returned =>
    refine ⟨relay, tunnel, Reaches.refl relay, rfl, ?_, hphase⟩
    obtain ⟨hi, rfl⟩ := List.getElem?_eq_some_iff.mp hget
    rw [List.set_getElem_self]
  | _ => simp [Tunnel.registered, hphase] at hquiet

end Clears

variable (config dials) in
/-- All handlers return while the call waits for them. -/
theorem Sound.reaches_all_returned (h : relay.Sound)
    (hk : relay.calls[k]? = some .closingServer) :
    ∃ relay', Reaches config k dials relay relay' ∧ relay'.calls = relay.calls ∧
      relay'.Returned := by
  induction hn : weight (fun tunnel : Tunnel ↦ if tunnel.phase = .returned then 0 else 1)
    relay.tunnels generalizing relay with
  | zero =>
    refine ⟨relay, Reaches.refl relay, rfl, fun tunnel hmem ↦ ?_⟩
    have hle := le_weight
      (f := fun tunnel : Tunnel ↦ if tunnel.phase = .returned then 0 else 1) hmem
    rw [hn] at hle
    by_contra hnot
    simp [hnot] at hle
  | succ n ih =>
    obtain ⟨tunnel, hmem, hne⟩ := exists_mem_of_weight_ne_zero (by
      rw [hn]
      exact Nat.succ_ne_zero n)
    have hphase : tunnel.phase ≠ .returned := fun hreturned ↦ hne (if_pos hreturned)
    obtain ⟨i, hget⟩ := List.mem_iff_getElem?.mp hmem
    have hfits := h.fits _ (List.mem_of_getElem? hk)
    have hclears : Clears config k dials relay i :=
      clears_of_quiet hfits.1 (h.unlocked hk rfl rfl) hget (hfits.2 tunnel hmem)
    obtain ⟨next, tunnel', hreaches, hcalls, htunnels, hreturned⟩ := hclears
    have hweight := weight_set (fun tunnel : Tunnel ↦ if tunnel.phase = .returned then 0 else 1)
      hget tunnel'
    rw [← htunnels, hn, if_neg hphase, if_pos hreturned] at hweight
    obtain ⟨last, hlast, hcalls', hall⟩ :=
      ih (hreaches.sound h) (by rw [hcalls]; exact hk) (Nat.succ.inj hweight)
    exact ⟨last, hreaches.trans hlast, hcalls'.trans hcalls, hall⟩

theorem Sound.comes_of_closingServer (h : relay.Sound)
    (hk : relay.calls[k]? = some .closingServer) : Comes config k dials Call.isOver relay := by
  obtain ⟨last, hlast, hcalls, hall⟩ := h.reaches_all_returned config dials hk
  refine hlast.comes (comes_of_step (by rw [hcalls]; exact hk) 0 ?_ comes_of_closingTickets)
  have hcond : (last.tunnels.all fun tunnel ↦ tunnel.phase = .returned) = true := by
    simpa [Returned] using hall
  simp only [Relay.step, hcond, if_true]
  rfl

theorem Sound.comes_of_clearing (h : relay.Sound) (hk : relay.calls[k]? = some .clearing) :
    Comes config k dials Call.isOver relay :=
  comes_of_step hk 0 rfl fun hserver ↦ (h.step hk 0).comes_of_closingServer hserver

variable (config dials) in
/-- Assumes: the call waits for the tunnels, and there are none. -/
theorem Sound.comes_of_waiting (h : relay.Sound) (hk : relay.calls[k]? = some .waiting)
    (hzero : relay.refCount = 0) : Comes config k dials Call.isOver relay := by
  refine comes_of_step hk 0 ?_ fun hclearing ↦ (h.step hk 0).comes_of_clearing hclearing
  simp only [Relay.step, hzero, if_true]
  rfl

/-! ### Before the tunnels -/

section Entry

variable {i : ℕ} {pending : List ℕ}
  (hnext : ∀ {relay : Relay}, relay.Sound → relay.calls[k]? = some (.choosing pending) →
    Comes config k dials goal relay)
include hnext

theorem Sound.comes_of_closingConn (h : relay.Sound)
    (hk : relay.calls[k]? = some (.closingConn i pending)) : Comes config k dials goal relay :=
  comes_of_step hk 0 (by simp only [Relay.step, Relay.setCall, calls_outside])
    fun hchoosing ↦ hnext (h.step hk 0) hchoosing

theorem Sound.comes_of_closingStream (h : relay.Sound)
    (hk : relay.calls[k]? = some (.closingStream i pending)) : Comes config k dials goal relay := by
  have hcalls : (relay.step k 0 (.closingStream i pending)).calls =
      relay.calls.set k (.closingConn i pending) := by
    simp only [Relay.step, Relay.setCall, calls_outside]
  exact comes_of_step hk 0 hcalls fun hconn ↦ (h.step hk 0).comes_of_closingConn hnext hconn

theorem Sound.comes_of_cancelling (h : relay.Sound)
    (hk : relay.calls[k]? = some (.cancelling i pending)) : Comes config k dials goal relay := by
  have hcalls : (relay.step k 0 (.cancelling i pending)).calls =
      relay.calls.set k (.closingStream i pending) := by
    simp only [Relay.step, Relay.setCall, calls_outside]
  exact comes_of_step hk 0 hcalls fun hstream ↦
    (h.step hk 0).comes_of_closingStream hnext hstream

end Entry

/-- The entries are closed one after the other. -/
theorem Sound.comes_of_choosing (h : relay.Sound) {pending : List ℕ}
    (hk : relay.calls[k]? = some (.choosing pending)) :
    Comes config k dials Call.isAtWait relay := by
  induction hn : pending.length generalizing relay pending with
  | zero =>
    obtain rfl := List.length_eq_zero_iff.mp hn
    exact comes_of_step hk 0 rfl fun hwaiting ↦ comes_refl hwaiting rfl
  | succ n ih =>
    obtain ⟨i, rest, rfl⟩ := List.exists_cons_of_length_eq_add_one hn
    have hcalls : (relay.step k i (.choosing (i :: rest))).calls =
        relay.calls.set k (.cancelling i rest) := by
      simp [Relay.step, Relay.setCall]
    refine comes_of_step hk i hcalls fun hcancelling ↦ ?_
    exact (h.step hk i).comes_of_cancelling (fun hsound hchoosing ↦
      ih hsound hchoosing (Nat.succ.inj hn)) hcancelling

theorem Sound.comes_of_locking (h : relay.Sound) (hk : relay.calls[k]? = some .locking) :
    Comes config k dials Call.isAtWait relay := by
  have hfree := h.unlocked hk rfl rfl
  refine comes_of_step hk 0 (by simp only [Relay.step, hfree]; rfl) fun hchoosing ↦ ?_
  exact (h.step hk 0).comes_of_choosing hchoosing

variable (config dials) in
/-- The call comes to the wait for the tunnels, unless it is past it or was refused. -/
theorem Sound.comes (h : relay.Sound) {call : Call} (hk : relay.calls[k]? = some call) :
    Comes config k dials Call.isAtWait relay ∨ Comes config k dials Call.isOver relay := by
  cases call with
  | entering =>
    by_cases hclosed : relay.sessions.closed = true
    · exact Or.inr (comes_of_step hk 0 (by simp only [Relay.step, hclosed]; rfl) fun hrefused ↦
        comes_refl hrefused rfl)
    · refine Or.inl (comes_of_step hk 0 (by simp only [Relay.step, hclosed]; rfl) fun hlocking ↦ ?_)
      exact (h.step hk 0).comes_of_locking hlocking
  | refused | finished => exact Or.inr (comes_refl hk rfl)
  | locking => exact Or.inl (h.comes_of_locking hk)
  | choosing pending => exact Or.inl (h.comes_of_choosing hk)
  | cancelling i pending => exact Or.inl (h.comes_of_cancelling (fun h ↦ h.comes_of_choosing) hk)
  | closingStream i pending =>
    exact Or.inl (h.comes_of_closingStream (fun h ↦ h.comes_of_choosing) hk)
  | closingConn i pending => exact Or.inl (h.comes_of_closingConn (fun h ↦ h.comes_of_choosing) hk)
  | waiting => exact Or.inl (comes_refl hk rfl)
  | clearing => exact Or.inr (h.comes_of_clearing hk)
  | closingServer => exact Or.inr (h.comes_of_closingServer hk)
  | closingTickets => exact Or.inr (comes_of_closingTickets hk)
  | closingSocket => exact Or.inr (comes_of_closingSocket hk)

end Relay

end QortalRelay.Shutdown

/-! ### With the connections -/

namespace QortalRelay.Coupling

open Foundation Foundation.Encoding Foundation.Trace Datagrams Http3 Admission Tunnels
open Outbound (SendSide Port Step StreamId)

/-- What the steps that nothing holds up depend on: of each connection, whether its packer goes on
or it ends, and the size of the datagrams that it allows, if it allows any; of each tunnel, whether
its dial succeeds. -/
structure Links where
  packs : ℕ → Bool
  maxDataLen : ℕ → Option ℕ
  dials : ℕ → Bool

namespace Joint

/-- A step that nothing holds up, of the call, of a tunnel, of a `proxyConnReceive` or of a
connection. -/
def forced (joint : Joint) (k : ℕ) (links : Links) : Event → Bool
  | .relay event => joint.relay.forced k links.dials event
  | .call i (.readSocket packet) =>
    packet.isNone && (joint.relay.tunnels[i]?).any (·.socketClosed)
  | .call i (.size maxDataLen) =>
    (joint.places[i]?).any fun place ↦ links.maxDataLen place.1 == maxDataLen
  | .call _ _ => true
  | .connection c .peek | .connection c (.pop _) => links.packs c
  | .connection c .close => !links.packs c
  | _ => false

def forcedRun (config : TrailerConfig) (joint : Joint) (k : ℕ) (links : Links) :
    List Event → Bool
  | [] => true
  | event :: events =>
    joint.forced k links event && (joint.act config event).forcedRun config k links events

/-- Forced events lead from one state to the other. -/
def Reaches (config : TrailerConfig) (k : ℕ) (links : Links) (joint joint' : Joint) : Prop :=
  ∃ events, joint.forcedRun config k links events = true ∧ joint.run config events = joint'

variable {config : TrailerConfig} {maxSessions : ℤ} {joint joint' : Joint} {k : ℕ}
  {links : Links}

theorem Reaches.refl (joint : Joint) : Reaches config k links joint joint := ⟨[], rfl, rfl⟩

theorem Reaches.cons {joint'' : Joint} {event : Event}
    (hforced : joint.forced k links event = true) (hact : joint.act config event = joint')
    (h : Reaches config k links joint' joint'') : Reaches config k links joint joint'' := by
  obtain ⟨events, hevents, hrun⟩ := h
  subst hact
  exact ⟨event :: events, by rw [forcedRun, hforced, hevents]; rfl, hrun⟩

theorem Reaches.one {event : Event} (hforced : joint.forced k links event = true)
    (hact : joint.act config event = joint') : Reaches config k links joint joint' :=
  Reaches.cons hforced hact (Reaches.refl joint')

theorem Reaches.trans {joint'' : Joint} (h : Reaches config k links joint joint')
    (h' : Reaches config k links joint' joint'') : Reaches config k links joint joint'' := by
  obtain ⟨events, hevents, rfl⟩ := h
  induction events generalizing joint with
  | nil => exact h'
  | cons event events ih =>
    obtain ⟨hforced, hrest⟩ := Bool.and_eq_true_iff.mp hevents
    exact Reaches.cons hforced rfl (ih hrest h')

theorem Reaches.coupled (h : Reaches config k links joint joint')
    (hcoupled : joint.Coupled config maxSessions) : joint'.Coupled config maxSessions := by
  obtain ⟨events, -, rfl⟩ := h
  exact hcoupled.run events

theorem isOwn_of_forced {relay : Shutdown.Relay} {event : Shutdown.Event}
    (hforced : relay.forced k links.dials event = true) : isOwn event = true := by
  cases event with
  | move i move =>
    cases move with
    | readSocket packet | checkSend | sendDatagram succeeds =>
      simp [Shutdown.Relay.forced, Tunnel.forced] at hforced
    | _ => rfl
  | arrive source stream connClosed => cases hforced
  | _ => rfl

/-- What the relay can do by itself. -/
theorem reaches_relay {relay' : Shutdown.Relay}
    (h : Shutdown.Relay.Reaches config k links.dials joint.relay relay') :
    Reaches config k links joint { joint with relay := relay' } := by
  obtain ⟨events, hforced, rfl⟩ := h
  induction events generalizing joint with
  | nil => exact Reaches.refl joint
  | cons event events ih =>
    obtain ⟨hevent, hrest⟩ := Bool.and_eq_true_iff.mp hforced
    have hact : joint.act config (.relay event) =
        { joint with relay := joint.relay.act config event } := if_pos (isOwn_of_forced hevent)
    exact Reaches.cons (show joint.forced k links (.relay event) = true from hevent) hact
      (@ih { joint with relay := joint.relay.act config event } hrest)

/-! ### A call at its port -/

/-- The tunnel, and the port of its call. -/
structure Posted (joint : Joint) (i c p : ℕ) (side : SendSide) (port : Port) (tunnel : Tunnel) :
    Prop where
  placeAt : joint.places[i]? = some (c, p)
  sideAt : joint.sides[c]? = some side
  portAt : side.ports[p]? = some port
  tunnelAt : joint.relay.tunnels[i]? = some tunnel

theorem Coupled.exists_posted (h : joint.Coupled config maxSessions) {i : ℕ} {tunnel : Tunnel}
    (hget : joint.relay.tunnels[i]? = some tunnel) :
    ∃ c p side port, joint.Posted i c p side port tunnel ∧ Mirrors port tunnel := by
  have hi : i < joint.places.length := by
    rw [h.length]
    exact (List.getElem?_eq_some_iff.mp hget).1
  have hplace : joint.places[i]? = some joint.places[i] := List.getElem?_eq_getElem hi
  obtain ⟨side, port, known, hside, hport, hknown, hmirrors⟩ := h.linked hplace
  rw [hget] at hknown
  obtain rfl := Option.some.inj hknown
  exact ⟨_, _, side, port, ⟨hplace, hside, hport, hget⟩, hmirrors⟩

variable {i c p : ℕ} {side side' : SendSide} {port port' : Port} {tunnel tunnel' : Tunnel}

theorem Posted.setSide (h : joint.Posted i c p side port tunnel)
    (hport : side'.ports[p]? = some port') :
    (joint.setSide c side').Posted i c p side' port' tunnel :=
  ⟨h.placeAt, List.getElem?_set_self (List.getElem?_eq_some_iff.mp h.sideAt).1, hport, h.tunnelAt⟩

/-- Assumes: a step of the call that can be taken, also where the socket is closed. -/
theorem Posted.reaches_call (h : joint.Posted i c p side port tunnel) {step : Step}
    (hforced : joint.forced k links (.call i step) = true)
    (hafter : after config joint.relay.proxyClosed side.closed tunnel port step = some tunnel') :
    Reaches config k links joint
      { joint.setSide c (side.act (.step p step)) with
        relay := joint.relay.setTunnel i tunnel' } := by
  refine Reaches.one hforced ?_
  simp only [Joint.act, Joint.call, h.placeAt, h.sideAt, h.portAt, h.tunnelAt, hafter,
    Option.bind_eq_bind, Option.bind_some, Option.getD_some]

theorem Posted.call (h : joint.Posted i c p side port tunnel) {step : Step}
    (hport : (side.act (.step p step)).ports[p]? = some port') (tunnel' : Tunnel) :
    Posted { joint.setSide c (side.act (.step p step)) with
      relay := joint.relay.setTunnel i tunnel' } i c p (side.act (.step p step)) port' tunnel' :=
  ⟨h.placeAt, List.getElem?_set_self (List.getElem?_eq_some_iff.mp h.sideAt).1, hport,
    List.getElem?_set_self (List.getElem?_eq_some_iff.mp h.tunnelAt).1⟩

theorem Posted.setTunnel_self (h : joint.Posted i c p side port tunnel) :
    joint.relay.setTunnel i tunnel = joint.relay := by
  obtain ⟨hi, rfl⟩ := List.getElem?_eq_some_iff.mp h.tunnelAt
  rw [Shutdown.Relay.setTunnel, List.set_getElem_self]

/-- Assumes: a step of the call that the tunnel does not notice. -/
theorem Posted.reaches_setSide (h : joint.Posted i c p side port tunnel) {step : Step}
    (hforced : joint.forced k links (.call i step) = true)
    (hafter : after config joint.relay.proxyClosed side.closed tunnel port step = some tunnel) :
    Reaches config k links joint (joint.setSide c (side.act (.step p step))) := by
  have hreaches := h.reaches_call hforced hafter
  rw [h.setTunnel_self] at hreaches
  exact hreaches

/-- The goroutine of the tunnel comes to its end, and nothing else of the relay changes. -/
def Ends (config : TrailerConfig) (k : ℕ) (links : Links) (joint : Joint) (i : ℕ)
    (tunnel : Tunnel) : Prop :=
  ∃ joint' receiver, Reaches config k links joint joint' ∧
    joint'.relay = joint.relay.setTunnel i { tunnel with receiver := receiver } ∧
    (receiver = .ending ∨ receiver = .done)

theorem Reaches.ends (h : Reaches config k links joint joint') {receiver : Receiver}
    (hrelay : joint'.relay = joint.relay.setTunnel i { tunnel with receiver := receiver })
    (hends : Ends config k links joint' i { tunnel with receiver := receiver }) :
    Ends config k links joint i tunnel := by
  obtain ⟨last, final, hlast, hrelay', hfinal⟩ := hends
  refine ⟨last, final, h.trans hlast, ?_, hfinal⟩
  rw [hrelay', hrelay, Shutdown.Relay.setTunnel_setTunnel]

section Ends

variable (h : joint.Posted i c p side port tunnel)
include h

theorem Posted.ends_of_ended (hcall : port.call = .ended) (hmirrors : Mirrors port tunnel) :
    Ends config k links joint i tunnel := by
  refine ⟨joint, tunnel.receiver, Reaches.refl joint, h.setTunnel_self.symm, ?_⟩
  have hstands := hmirrors.stands
  rw [hcall] at hstands
  generalize tunnel.receiver = receiver at hstands
  cases hstands with
  | ending => exact Or.inl rfl
  | done => exact Or.inr rfl

/-- Assumes: a closed socket. -/
theorem Posted.ends_of_reading (hclosed : tunnel.socketClosed = true)
    (hcall : port.call = .reading) (hreceiver : tunnel.receiver = .reading) :
    Ends config k links joint i tunnel := by
  have hforced : joint.forced k links (.call i (.readSocket none)) = true := by
    simp [forced, h.tunnelAt, hclosed]
  refine ⟨_, .ending, h.reaches_call hforced ?_, rfl, Or.inl rfl⟩
  simp only [after, mayStep, moveOf, hcall, Tunnel.move, hreceiver, if_true]

/-- Assumes: the send side of the stream has ended. -/
theorem Posted.ends_of_checking (hended : tunnel.stream.sendErr.isSome = true) {payload : Bytes}
    (hcall : port.call = .checking payload) (hreceiver : tunnel.receiver = .sending payload) :
    Ends config k links joint i tunnel := by
  have hport : (side.act (.step p .endSend)).ports[p]? = some { port with sendErr := true } := by
    simp only [SendSide.act, SendSide.step, h.portAt]
    exact List.getElem?_set_self (List.getElem?_eq_some_iff.mp h.portAt).1
  have hfirst : Reaches config k links joint (joint.setSide c (side.act (.step p .endSend))) :=
    h.reaches_setSide rfl (by simp only [after, mayStep, moveOf, hended, if_true])
  have hforced : (joint.setSide c (side.act (.step p .endSend))).forced k links
      (.call i .check) = true := rfl
  refine ⟨_, .ending, hfirst.trans ((h.setSide hport).reaches_call hforced ?_), rfl, Or.inl rfl⟩
  simp only [after, mayStep, moveOf, hcall, hended, beq_self_eq_true, if_true, Tunnel.move,
    hreceiver]

/-- Assumes: a closed socket. The call returns, and the next read of the socket fails. -/
theorem Posted.ends_of_notifying (hclosed : tunnel.socketClosed = true)
    (hcall : port.call = .notifying) (hreceiver : tunnel.receiver = .queueing) :
    Ends config k links joint i tunnel := by
  have hafter : after config joint.relay.proxyClosed side.closed tunnel port .notify =
      some { tunnel with receiver := .reading } := by
    simp only [after, mayStep, moveOf, hcall, Tunnel.move, hreceiver, if_true]
  have hport : (side.act (.step p .notify)).ports[p]? = some { port with call := .reading } := by
    simp only [SendSide.act, SendSide.step, h.portAt, hcall]
    exact List.getElem?_set_self (List.getElem?_eq_some_iff.mp h.portAt).1
  exact (h.reaches_call rfl hafter).ends rfl
    ((h.call hport { tunnel with receiver := .reading }).ends_of_reading hclosed rfl rfl)

/-- Assumes: a call that waits while the connection ends. -/
theorem Posted.ends_of_closed (hclosed : side.closed = true) {payload : Bytes}
    (hcall : port.call = .waiting payload) (hreceiver : tunnel.receiver = .queueing) :
    Ends config k links joint i tunnel := by
  have hforced : joint.forced k links (.call i .fail) = true := rfl
  refine ⟨_, .ending, h.reaches_call hforced ?_, rfl, Or.inl rfl⟩
  simp only [after, mayStep, moveOf, hcall, hclosed, Tunnel.move, hreceiver, if_true]
  rfl

end Ends

/-- Assumes: a step of the packer or of a call in `Add`, where the packer goes on. -/
theorem Coupled.reaches_queueStep (h : joint.Coupled config maxSessions)
    (hside : joint.sides[c]? = some side) (hpacks : links.packs c = true) {event : Outbound.Event}
    (hevent : event.isQueueStep = true) :
    Reaches config k links joint (joint.setSide c (side.act event)) := by
  cases event with
  | peek =>
    exact Reaches.one (show joint.forced k links (.connection c .peek) = true from hpacks)
      (by simp only [Joint.act, hside, isConnection])
  | pop fits =>
    exact Reaches.one (show joint.forced k links (.connection c (.pop fits)) = true from hpacks)
      (by simp only [Joint.act, hside, isConnection])
  | step j step =>
    cases hport : side.ports[j]? with
    | none =>
      have hself : joint.setSide c (side.act (.step j step)) = joint := by
        obtain ⟨hc, rfl⟩ := List.getElem?_eq_some_iff.mp hside
        simp only [SendSide.act, hport, setSide, List.set_getElem_self]
      rw [hself]
      exact Reaches.refl joint
    | some port =>
      -- The port belongs to a tunnel, whose call takes the step.
      obtain ⟨i, hplace⟩ := List.mem_iff_getElem?.mp
        (h.owned hside (List.getElem?_eq_some_iff.mp hport).1)
      obtain ⟨-, -, tunnel, -, -, htunnel, -⟩ := h.linked hplace
      have hposted : joint.Posted i c j side port tunnel := ⟨hplace, hside, hport, htunnel⟩
      cases step with
      | enter | wake => exact hposted.reaches_setSide rfl rfl
      | _ => cases hevent
  | _ => cases hevent

theorem Coupled.reaches_queue (h : joint.Coupled config maxSessions)
    (hside : joint.sides[c]? = some side) (hpacks : links.packs c = true)
    {events : List Outbound.Event}
    (hevents : events.all Outbound.Event.isQueueStep = true) :
    Reaches config k links joint (joint.setSide c (side.run events)) := by
  induction events generalizing joint side with
  | nil =>
    obtain ⟨hc, rfl⟩ := List.getElem?_eq_some_iff.mp hside
    change Reaches config k links joint (joint.setSide c joint.sides[c])
    rw [setSide, List.set_getElem_self]
    exact Reaches.refl joint
  | cons event events ih =>
    rw [List.all_cons, Bool.and_eq_true] at hevents
    have hfirst : Reaches config k links joint (joint.setSide c (side.act event)) :=
      h.reaches_queueStep hside hpacks hevents.1
    have hrest := ih (hfirst.coupled h)
      (List.getElem?_set_self (List.getElem?_eq_some_iff.mp hside).1) hevents.2
    rw [setSide, setSide, List.set_set] at hrest
    exact hfirst.trans hrest

/-- What a call that waits in `Add` needs: that the packer goes on, or that the connection ends.
Assumes: a closed socket. -/
theorem Coupled.ends_of_waiting (h : joint.Coupled config maxSessions)
    (hposted : joint.Posted i c p side port tunnel) (hsocket : tunnel.socketClosed = true)
    {payload : Bytes} (hcall : port.call = .waiting payload)
    (hreceiver : tunnel.receiver = .queueing) : Ends config k links joint i tunnel := by
  cases hclosed : side.closed with
  | true => exact hposted.ends_of_closed hclosed hcall hreceiver
  | false =>
    cases hpacks : links.packs c with
    | true =>
      obtain ⟨more, -, hmore, hport, -⟩ :=
        (h.side_sound hposted.sideAt).exists_run_notifying hclosed hposted.portAt hcall
      exact (h.reaches_queue hposted.sideAt hpacks hmore).ends hposted.setTunnel_self.symm
        ((hposted.setSide hport).ends_of_notifying hsocket rfl hreceiver)
    | false =>
      have hact : joint.act config (.connection c .close) =
          joint.setSide c (side.act .close) := by
        simp only [Joint.act, hposted.sideAt, isConnection]
      have hend : Reaches config k links joint (joint.setSide c (side.act .close)) :=
        Reaches.one (show joint.forced k links (.connection c .close) = true by
          simp [forced, hpacks]) hact
      have hport : (side.act .close).ports[p]? = some port := hposted.portAt
      exact hend.ends hposted.setTunnel_self.symm
        ((hposted.setSide hport).ends_of_closed rfl hcall hreceiver)

/-- Assumes: a closed socket. The call queues its frame, or begins to wait. -/
theorem Coupled.ends_of_entering (h : joint.Coupled config maxSessions)
    (hposted : joint.Posted i c p side port tunnel) (hsocket : tunnel.socketClosed = true)
    {payload : Bytes} (hcall : port.call = .entering payload)
    (hreceiver : tunnel.receiver = .queueing) : Ends config k links joint i tunnel := by
  have hfirst : Reaches config k links joint (joint.setSide c (side.act (.step p .enter))) :=
    hposted.reaches_setSide rfl rfl
  rcases (h.side_sound hposted.sideAt).ports_enter hposted.portAt hcall with hport | hport
  · exact hfirst.ends hposted.setTunnel_self.symm
      ((hposted.setSide hport).ends_of_notifying hsocket rfl hreceiver)
  · exact hfirst.ends hposted.setTunnel_self.symm
      ((hfirst.coupled h).ends_of_waiting (hposted.setSide hport) hsocket rfl hreceiver)

/-- Assumes: a closed socket. The connection finds the datagram too large, or the call comes to
`Add`. -/
theorem Coupled.ends_of_sizing (h : joint.Coupled config maxSessions)
    (hposted : joint.Posted i c p side port tunnel) (hsocket : tunnel.socketClosed = true)
    {payload : Bytes} (hcall : port.call = .sizing payload)
    (hreceiver : tunnel.receiver = .queueing) : Ends config k links joint i tunnel := by
  have hforced : joint.forced k links (.call i (.size (links.maxDataLen c))) = true := by
    simp [forced, hposted.placeAt]
  cases hfits : (links.maxDataLen c).any ((Outbound.datagram port.id payload).length ≤ ·) with
  | true =>
    have hport : (side.act (.step p (.size (links.maxDataLen c)))).ports[p]? =
        some { port with call := .entering payload } := by
      simp only [SendSide.act, SendSide.step, hposted.portAt, hcall, hfits, if_true]
      exact List.getElem?_set_self (List.getElem?_eq_some_iff.mp hposted.portAt).1
    have hfirst : Reaches config k links joint
        (joint.setSide c (side.act (.step p (.size (links.maxDataLen c))))) :=
      hposted.reaches_setSide hforced (by simp only [after, mayStep, moveOf, hcall, hfits, if_true])
    exact hfirst.ends hposted.setTunnel_self.symm
      ((hfirst.coupled h).ends_of_entering (hposted.setSide hport) hsocket rfl hreceiver)
  | false =>
    refine ⟨_, .ending, hposted.reaches_call hforced ?_, rfl, Or.inl rfl⟩
    simp [after, mayStep, moveOf, hcall, hfits, Tunnel.move, hreceiver]

/-- Assumes: the entry of the tunnel is closed. `proxyConnReceive` comes to its end. -/
theorem Coupled.ends (h : joint.Coupled config maxSessions)
    (hget : joint.relay.tunnels[i]? = some tunnel) (hshut : tunnel.Shut)
    (hidle : tunnel.receiver ≠ .idle) : Ends config k links joint i tunnel := by
  obtain ⟨c, p, side, port, hposted, hmirrors⟩ := h.exists_posted hget
  have hqueueing := hmirrors.stands.eq_queueing
  have hstands := hmirrors.stands
  cases hcall : port.call with
  | reading =>
    refine hposted.ends_of_reading hshut.socketClosed hcall ?_
    rw [hcall] at hstands
    generalize tunnel.receiver = receiver at hstands hidle
    cases hstands with
    | idle => exact absurd rfl hidle
    | reading => rfl
  | checking payload =>
    refine hposted.ends_of_checking hshut.sendErr hcall ?_
    rw [hcall] at hstands
    generalize tunnel.receiver = receiver at hstands
    cases hstands
    rfl
  | sizing payload =>
    exact h.ends_of_sizing hposted hshut.socketClosed hcall (hqueueing (by rw [hcall]; rfl))
  | entering payload =>
    exact h.ends_of_entering hposted hshut.socketClosed hcall (hqueueing (by rw [hcall]; rfl))
  | waiting payload =>
    exact h.ends_of_waiting hposted hshut.socketClosed hcall (hqueueing (by rw [hcall]; rfl))
  | notifying =>
    exact hposted.ends_of_notifying hshut.socketClosed hcall (hqueueing (by rw [hcall]; rfl))
  | ended => exact hposted.ends_of_ended hcall hmirrors

variable (links) in
/-- Assumes: a call waits for the tunnels, and the tunnel is one of them. Its handler comes to its
exit. -/
theorem Coupled.reaches_leaving (h : joint.Coupled config maxSessions)
    (hk : joint.relay.calls[k]? = some .waiting) (hget : joint.relay.tunnels[i]? = some tunnel)
    (hregistered : tunnel.registered = true) :
    ∃ joint' tunnel', Reaches config k links joint joint' ∧
      joint'.relay = joint.relay.setTunnel i tunnel' ∧ tunnel'.phase = .leaving := by
  have hsound := h.sound
  have hmem := List.mem_of_getElem? hget
  have hi := (List.getElem?_eq_some_iff.mp hget).1
  have hfits := hsound.fits _ (List.mem_of_getElem? hk)
  have hfree := hsound.unlocked hk rfl rfl
  by_cases hleaving : tunnel.phase = .leaving
  · obtain ⟨c, p, side, port, hposted, -⟩ := h.exists_posted hget
    exact ⟨joint, tunnel, Reaches.refl joint, hposted.setTunnel_self.symm, hleaving⟩
  have hwinding : tunnel.Winding :=
    ⟨hfits.2 i ((hsound.complete i tunnel hget hregistered).resolve_right hleaving)
      List.not_mem_nil tunnel hget, hsound.attentive tunnel hmem, hsound.staffed tunnel hmem⟩
  -- The handler and `proxyConnSend` first, then `proxyConnReceive`, then the handler again.
  obtain ⟨moves, quiet, hfollow, hphase, hsender⟩ :=
    hwinding.exists_follow_quiet config hregistered hleaving
  have hquiet : Reaches config k links joint
      { joint with relay := joint.relay.setTunnel i quiet } :=
    reaches_relay (Shutdown.Relay.reaches_setTunnel hfits.1 hfree hget hfollow)
  have hidle : quiet.receiver ≠ .idle := by
    have hstaffed := (hwinding.follow hfollow).staffed
    simp only [Tunnel.Staffed, hphase] at hstaffed
    exact hstaffed.2
  obtain ⟨ended, receiver, hended, hrelay, hreceiver⟩ :=
    (hquiet.coupled h).ends (List.getElem?_set_self hi) (hwinding.follow hfollow).shut hidle
  have hrelay' : ended.relay =
      joint.relay.setTunnel i { quiet with receiver := receiver } := by
    rw [hrelay, Shutdown.Relay.setTunnel_setTunnel]
  obtain ⟨moves', gone, hfollow', hgone⟩ :=
    @Tunnel.exists_follow_leaving config { quiet with receiver := receiver } hphase hsender
      hreceiver
  have hexit : Shutdown.Relay.Reaches config k links.dials ended.relay
      (ended.relay.setTunnel i gone) := by
    refine Shutdown.Relay.reaches_setTunnel ?_ ?_ ?_ hfollow'
    · rw [hrelay']
      exact hfits.1
    · rw [hrelay']
      exact hfree
    · rw [hrelay']
      exact List.getElem?_set_self hi
  refine ⟨_, gone, (hquiet.trans hended).trans (reaches_relay hexit), ?_, hgone⟩
  change ended.relay.setTunnel i gone = _
  rw [hrelay', Shutdown.Relay.setTunnel_setTunnel]

variable (links) in
/-- All tunnels come to their end while the call waits. -/
theorem Coupled.reaches_refCount_zero (h : joint.Coupled config maxSessions)
    (hk : joint.relay.calls[k]? = some .waiting) :
    ∃ joint', Reaches config k links joint joint' ∧ joint'.relay.calls = joint.relay.calls ∧
      joint'.relay.refCount = 0 := by
  induction hn : Shutdown.Relay.flows joint.relay.tunnels generalizing joint with
  | zero =>
    refine ⟨joint, Reaches.refl joint, rfl, ?_⟩
    rw [h.sound.refCount, hn]
    rfl
  | succ n ih =>
    obtain ⟨tunnel, hmem, hne⟩ := exists_mem_of_weight_ne_zero (by
      rw [← Shutdown.Relay.flows, hn]
      exact Nat.succ_ne_zero n)
    have hregistered : tunnel.registered = true := by
      by_contra hnot
      exact hne (if_neg hnot)
    obtain ⟨i, hget⟩ := List.mem_iff_getElem?.mp hmem
    obtain ⟨exit, tunnel', hexit, hrelay, hphase⟩ := h.reaches_leaving links hk hget hregistered
    have hfree : exit.relay.locked = false := by
      rw [hrelay]
      exact h.sound.unlocked hk rfl rfl
    have hget' : exit.relay.tunnels[i]? = some tunnel' := by
      rw [hrelay]
      exact List.getElem?_set_self (List.getElem?_eq_some_iff.mp hget).1
    obtain ⟨gone, hgone, hcalls, hflows⟩ :=
      (hexit.coupled h).sound.reaches_leave config k links.dials hfree hget' hphase
    have hleft := hexit.trans (reaches_relay hgone)
    have hrest : Shutdown.Relay.flows gone.tunnels = n := by
      have hsame := Shutdown.Relay.flows_set hget tunnel'
      have hleaving : tunnel'.registered = true := by rw [Tunnel.registered, hphase]
      rw [hregistered, hleaving, Nat.add_right_cancel_iff] at hsame
      rw [hrelay] at hflows
      change _ + 1 = Shutdown.Relay.flows (joint.relay.tunnels.set i tunnel') at hflows
      omega
    have hcalls' : gone.calls = joint.relay.calls := hcalls.trans (by rw [hrelay]; rfl)
    obtain ⟨last, hlast, hsame, hzero⟩ :=
      ih (hleft.coupled h) (by rw [hcalls']; exact hk) hrest
    exact ⟨last, hleft.trans hlast, hsame.trans hcalls', hzero⟩

variable (links) in
/-- Every call returns. -/
theorem Coupled.returns (h : joint.Coupled config maxSessions) {call : Shutdown.Call}
    (hk : joint.relay.calls[k]? = some call) :
    ∃ joint' last, Reaches config k links joint joint' ∧
      joint'.relay.calls[k]? = some last ∧ last.isOver = true := by
  rcases h.sound.comes config links.dials hk with
    ⟨relay, last, hreaches, hlast, hwait⟩ | ⟨relay, last, hreaches, hlast, hover⟩
  · have hwaiting : last = .waiting := by
      cases last with
      | waiting => rfl
      | _ => cases hwait
    rw [hwaiting] at hlast
    have hfirst : Reaches config k links joint { joint with relay := relay } :=
      reaches_relay hreaches
    obtain ⟨quiet, hquiet, hcalls, hzero⟩ :=
      (hfirst.coupled h).reaches_refCount_zero links hlast
    obtain ⟨relay', last', hreaches', hlast', hover⟩ :=
      ((hfirst.trans hquiet).coupled h).sound.comes_of_waiting config links.dials
        (by rw [hcalls]; exact hlast) hzero
    exact ⟨_, last', (hfirst.trans hquiet).trans (reaches_relay hreaches'), hlast', hover⟩
  · exact ⟨_, last, reaches_relay hreaches, hlast, hover⟩

/-! ### A call that is stuck -/

/-- A call waits in `Add` on an open connection, without a token. -/
def Stuck (joint : Joint) (c p : ℕ) : Prop :=
  ∃ side, joint.sides[c]? = some side ∧ side.Stuck p

end Joint

/-- A frame is taken from the queue of the connection, or the connection ends. -/
def Event.frees (c : ℕ) : Event → Bool
  | .connection c' (.pop _) | .connection c' .close => c' == c
  | _ => false

namespace Joint

variable {config : TrailerConfig} {maxSessions : ℤ} {joint : Joint} {c p : ℕ}

theorem Stuck.setSide (h : joint.Stuck c p) {c' : ℕ} {side side' : SendSide}
    (hside : joint.sides[c']? = some side) (hstuck : c' = c → side.Stuck p → side'.Stuck p) :
    (joint.setSide c' side').Stuck c p := by
  obtain ⟨mine, hmine, hwaits⟩ := h
  by_cases hc : c' = c
  · subst hc
    rw [hside] at hmine
    obtain rfl := Option.some.inj hmine
    exact ⟨side', List.getElem?_set_self (List.getElem?_eq_some_iff.mp hside).1,
      hstuck rfl hwaits⟩
  · exact ⟨mine, (List.getElem?_set_ne hc).trans hmine, hwaits⟩

/-- Nothing else helps. -/
theorem Stuck.act (h : joint.Stuck c p) {event : Event} (hevent : event.frees c = false) :
    (joint.act config event).Stuck c p := by
  cases event with
  | connect =>
    obtain ⟨side, hside, hwaits⟩ := h
    exact ⟨side, (List.getElem?_append_left (List.getElem?_eq_some_iff.mp hside).1).trans hside,
      hwaits⟩
  | arrive c' id source stream connClosed =>
    simp only [Joint.act]
    split
    · next side hside _ =>
      split_ifs with hknown
      · exact h
      · refine h.setSide hside fun _ hwaits ↦ ?_
        obtain ⟨hsent, hclosed, port, payload, hport, hcall⟩ := hwaits
        simp only [SendSide.act, hknown]
        exact ⟨hsent, hclosed, port, payload,
          (List.getElem?_append_left (List.getElem?_eq_some_iff.mp hport).1).trans hport, hcall⟩
    · exact h
  | relay event =>
    simp only [Joint.act]
    split_ifs
    · exact h
    · exact h
  | call i step =>
    simp only [Joint.act]
    cases hcall : joint.call config i step with
    | none => exact h
    | some joint' =>
      obtain ⟨c', p', side, port, tunnel, tunnel', -, hside, -, -, -, rfl⟩ := call_eq_some hcall
      exact h.setSide hside fun _ hwaits ↦ hwaits.step p' step
  | connection c' event =>
    simp only [Joint.act]
    split
    · next side hside hconnection =>
      refine h.setSide hside ?_
      rintro rfl ⟨hsent, hclosed, hwaits⟩
      cases event with
      | peek =>
        simp only [SendSide.act, hclosed]
        exact ⟨hsent, rfl, hwaits⟩
      | pop fits => simp [Event.frees] at hevent
      | keep => exact ⟨hsent, hclosed, hwaits⟩
      | close => simp [Event.frees] at hevent
      | _ => cases hconnection
    · exact h

theorem Stuck.run (h : joint.Stuck c p) {events : List Event}
    (hevents : ∀ event ∈ events, event.frees c = false) :
    (joint.run config events).Stuck c p := by
  induction events generalizing joint with
  | nil => exact h
  | cons event events ih =>
    obtain ⟨hevent, hrest⟩ := List.forall_mem_cons.mp hevents
    exact ih (h.act hevent) hrest

/-- The tunnel of the call is waited for. -/
theorem Coupled.not_isPastWait (h : joint.Coupled config maxSessions) (hstuck : joint.Stuck c p)
    {call : Shutdown.Call} (hcall : call ∈ joint.relay.calls) : call.isPastWait = false := by
  obtain ⟨side, hside, -, -, port, payload, hport, hwaiting⟩ := hstuck
  obtain ⟨i, hplace⟩ := List.mem_iff_getElem?.mp
    (h.owned hside (List.getElem?_eq_some_iff.mp hport).1)
  obtain ⟨side', port', tunnel, hside', hport', htunnel, hmirrors⟩ := h.linked hplace
  rw [hside] at hside'
  obtain rfl := Option.some.inj hside'
  rw [hport] at hport'
  obtain rfl := Option.some.inj hport'
  have hmem := List.mem_of_getElem? htunnel
  have hqueueing := hmirrors.stands.eq_queueing (by rw [hwaiting]; rfl)
  have hserving := ((h.sound.staffed tunnel hmem).serving (Or.inr (by simp [hqueueing]))).1
  by_contra hpast
  have hregistered := h.sound.quiet_of_isPastWait hcall (by simpa using hpast) tunnel hmem
  cases hphase : tunnel.phase <;> simp_all [Phase.isServing, Tunnel.registered]

end Joint

/-! ### Results -/

/-- In every state that a run can reach, whatever the requests, the connections and the calls of
`Server.Close`: every call can return by its own steps and steps of the tunnels that nothing holds
up, if for each connection either its packer goes on or the connection ends. It does not matter
which, nor which datagrams the connections allow and which dials succeed. This is needed: as long as
a call of `SendDatagram` waits for room in the queue of an open connection, without a token, and no
frame is taken from that queue and the connection does not end, no call of `Server.Close` gets past
its wait for the tunnels. -/
theorem close_can_return (config : TrailerConfig) (maxSessions : ℤ) (events : List Event) :
    let joint := (Joint.start maxSessions).run config events
    (∀ (k : ℕ) (call : Shutdown.Call) (links : Links), joint.relay.calls[k]? = some call →
      ∃ more last, joint.forcedRun config k links more = true ∧
        (joint.run config more).relay.calls[k]? = some last ∧ last.isOver = true) ∧
    ∀ (c p : ℕ) (more : List Event), joint.Stuck c p → (∀ event ∈ more, event.frees c = false) →
      ∀ call ∈ (joint.run config more).relay.calls, call.isPastWait = false := by
  intro joint
  have hcoupled : joint.Coupled config maxSessions := Joint.coupled_run config maxSessions events
  refine ⟨fun k call links hk ↦ ?_, fun c p more hstuck hmore call hcall ↦ ?_⟩
  · obtain ⟨joint', last, ⟨more, hforced, rfl⟩, hlast, hover⟩ := hcoupled.returns links hk
    exact ⟨more, last, hforced, hlast, hover⟩
  · exact (hcoupled.run more).not_isPastWait (hstuck.run hmore) hcall

/-- The target of a tunnel sends 33 packets that the connection does not carry away, and then the
relay is to be closed. -/
def closeOfFull : List Event :=
  [.connect, .arrive 0 ⟨0, rfl, by decide⟩ ['a'] ⟨.new, TrackedStream.ok_new⟩ false] ++
    [.dial true, .register, .answer].map (fun move ↦ .relay (.move 0 move)) ++
    (List.replicate 33 [.readSocket (some [7]), .check, .size (some 1200), .enter,
      .notify]).flatten.map (.call 0) ++
    .relay .call :: List.replicate 7 (.relay (.step 0 0))

theorem close_can_return_full_queue :
    let joint := (Joint.start 0).run noTrailers closeOfFull
    joint.relay.calls[0]? = some .waiting ∧
    (∀ links : Links, ∃ more last, joint.forcedRun noTrailers 0 links more = true ∧
      (joint.run noTrailers more).relay.calls[0]? = some last ∧ last.isOver = true) ∧
    ∀ more : List Event, (∀ event ∈ more, event.frees 0 = false) →
      ∀ call ∈ (joint.run noTrailers more).relay.calls, call.isPastWait = false := by
  intro joint
  have hcall : joint.relay.calls[0]? = some .waiting := by decide +kernel
  have hport : (joint.sides[0]?).bind (fun side ↦ if side.sent || side.closed then none
      else side.ports[0]?) = some ⟨⟨0, rfl, by decide⟩, false, .waiting [7]⟩ := by
    decide +kernel
  have hstuck : joint.Stuck 0 0 := by
    obtain ⟨side, hside, hport⟩ := Option.bind_eq_some_iff.mp hport
    split_ifs at hport with hnone
    rw [Bool.or_eq_true, not_or, Bool.not_eq_true, Bool.not_eq_true] at hnone
    exact ⟨side, hside, hnone.1, hnone.2, _, _, hport, rfl⟩
  obtain ⟨hreturns, hwaits⟩ := close_can_return noTrailers 0 closeOfFull
  exact ⟨hcall, fun links ↦ hreturns 0 .waiting links hcall,
    fun more hmore ↦ hwaits 0 0 more hstuck hmore⟩

end QortalRelay.Coupling
