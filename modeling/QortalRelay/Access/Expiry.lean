import QortalRelay.Access.Authorization
import QortalRelay.Foundation.Trace

/-!
# The expiry of a connection

One connection of a relay in groups mode, from the moment it is admitted: its authorization, the
timer that will close it, and any number of calls of `authorize` on it. A call runs under the lock
of the connection; a timer that fires runs `expire`, which takes no lock. `expire` loads the
generation of the timers and closes the connection if it is the one the timer was armed with, and
the other calls may take steps in between.

Whenever the lock is free, the current timer is set for the deadline of the authorization and has
not been stopped, unless the connection is closed (`Session.Armed`); a call that is refused leaves
the grant as it found it, and there are never more than eight redeem calls without a success
(`deadline_armed`).
-/

set_option autoImplicit false
set_option relaxedAutoImplicit false

namespace QortalRelay.Access

open Foundation.Encoding Foundation.Trace

/-! ### The machine -/

/-- A timer as `time.AfterFunc` made it: the generation its callback compares, and when it is due.
-/
structure Timer where
  generation : ℕ
  setFor : Time
  stopped : Bool
deriving DecidableEq

/-- Where a call of `expire` stands. -/
inductive ExpirePc
  | loading
  | closing
  | ended
deriving DecidableEq

/-- A call of `expire`, by a timer that has fired. -/
structure Callback where
  generation : ℕ
  pc : ExpirePc
deriving DecidableEq

/-- What a request that is refused must leave alone. -/
structure Grant where
  authorizedUntil : Option Time
  address : Text
  timer : ℕ
  generation : ℕ
deriving DecidableEq

/-- Where a call of `authorize` stands. -/
inductive AuthorizePc
  | waiting (headers : Headers)
  | locked (headers : Headers)
  | redeeming
  /-- The ticket is redeemed; the address and the deadline are set. -/
  | granted (deadline : Time)
  /-- The generation has been incremented, and the attempts are set to zero. -/
  | counted (deadline : Time) (generation : ℕ)
  | stopped (deadline : Time) (generation : ℕ)
  | armed
  | returned (admitted : Bool)
deriving DecidableEq

/-- A call of `authorize` under way, at its place in the code. -/
structure AuthorizeCall where
  pc : AuthorizePc
  /-- The generation when the call began, and the grant when it took the lock and when it freed it;
  read by nothing. -/
  since : ℕ
  entry : Option Grant
  exit : Option Grant
deriving DecidableEq

/-- An entry of the log of a session, which no step reads. -/
inductive SessionEvent
  | began (call : ℕ)
  | armed (generation : ℕ)
  /-- The call asks the ticket authority. -/
  | reached (call : ℕ)
  | redeemed (call : ℕ)
  /-- A call that has redeemed a ticket returns success. -/
  | succeeded (call : ℕ)
  /-- The connection is closed because its authorization has expired. -/
  | expired (generation : ℕ)
deriving DecidableEq

/-- A connection with its authorization, its timers, the callbacks they started, and its calls. -/
structure Session where
  accepted : Time
  clock : Time
  auth : Authorization
  generation : ℕ
  /-- The timer of the connection, among those that were ever armed. -/
  timer : ℕ
  timers : List Timer
  callbacks : List Callback
  lock : Option ℕ
  calls : List AuthorizeCall
  closed : Bool
  /-- Read by nothing. -/
  log : List SessionEvent

/-- The connection when it has been admitted. -/
def Session.start (accepted : Time) : Session where
  accepted := accepted
  clock := accepted
  auth := .fresh
  generation := 1
  timer := 0
  timers := [⟨1, accepted.add (15 * Time.second), false⟩]
  callbacks := []
  lock := none
  calls := []
  closed := false
  log := [.armed 1]

namespace Session

def grant (session : Session) : Grant :=
  ⟨session.auth.authorizedUntil, session.auth.address, session.timer, session.generation⟩

/-- The session after its timer has been stopped. -/
def stopped (session : Session) : Session :=
  { session with
    timers := session.timers.modify session.timer fun timer ↦ { timer with stopped := true } }

/-- The session with a call that has moved. -/
def moved (session : Session) (i : ℕ) (call : AuthorizeCall) (pc : AuthorizePc) : Session :=
  { session with calls := session.calls.set i { call with pc := pc } }

/-- The session after a call has returned and freed the lock. -/
def left (session : Session) (i : ℕ) (call : AuthorizeCall) (admitted : Bool) : Session :=
  { session with
    lock := none
    calls := session.calls.set i
      { call with pc := .returned admitted, exit := some session.grant } }

def record (session : Session) (event : SessionEvent) : Session :=
  { session with log := session.log ++ [event] }

/-- The session after the decision of a call on its headers. -/
def judged (session : Session) (headers : Headers) : Session :=
  { session with auth := (session.auth.decide session.clock headers).1 }

/-- The session with the grant of a ticket that has been redeemed. -/
def granted (session : Session) (id : Text) (deadline : Time) : Session :=
  { session with
    auth := { session.auth with
      address := ticketAddress id, authorizedUntil := some deadline } }

def counted (session : Session) : Session :=
  { session with
    generation := session.generation + 1
    auth := { session.auth with attempts := 0 } }

def armed (session : Session) (generation : ℕ) (deadline : Time) : Session :=
  { session with
    timers := session.timers ++ [⟨generation, deadline, false⟩]
    timer := session.timers.length }

/-- The session with a call that has begun. -/
def joined (session : Session) (headers : Headers) : Session :=
  { session with
    calls := session.calls ++ [⟨.waiting headers, session.generation, none, none⟩] }

/-- One move of a call. -/
inductive CallMove (session : Session) (i : ℕ) (call : AuthorizeCall) : Session → Prop
  | acquire (headers : Headers) (hpc : call.pc = .waiting headers) (hfree : session.lock = none) :
      CallMove session i call
        { session with
          lock := some i
          calls := session.calls.set i
            { call with pc := .locked headers, entry := some session.grant } }
  | allow (headers : Headers) (address : Text) (expires : Option ℤ)
      (hpc : call.pc = .locked headers)
      (hdecision : (session.auth.decide session.clock headers).2 = .admitted address expires) :
      CallMove session i call ((session.judged headers).left i call true)
  | refuse (headers : Headers) (status : ℕ) (code : Tickets.ErrorCode)
      (hpc : call.pc = .locked headers)
      (hdecision : (session.auth.decide session.clock headers).2 = .refused status code) :
      CallMove session i call ((session.judged headers).left i call false)
  | reach (headers : Headers) (hpc : call.pc = .locked headers)
      (hdecision : (session.auth.decide session.clock headers).2 = .redeeming) :
      CallMove session i call
        (((session.judged headers).moved i call .redeeming).record (.reached i))
  | reject (hpc : call.pc = .redeeming) : CallMove session i call (session.left i call false)
  | redeem (id : Text) (deadline : Time) (hpc : call.pc = .redeeming) :
      CallMove session i call
        (((session.granted id deadline).moved i call (.granted deadline)).record (.redeemed i))
  | count (deadline : Time) (hpc : call.pc = .granted deadline) :
      CallMove session i call
        (session.counted.moved i call (.counted deadline (session.generation + 1)))
  | stop (deadline : Time) (generation : ℕ) (hpc : call.pc = .counted deadline generation) :
      CallMove session i call
        (session.stopped.moved i call (.stopped deadline generation))
  | arm (deadline : Time) (generation : ℕ) (hpc : call.pc = .stopped deadline generation) :
      CallMove session i call
        (((session.armed generation deadline).moved i call .armed).record (.armed generation))
  | finish (hpc : call.pc = .armed) :
      CallMove session i call ((session.left i call true).record (.succeeded i))

/-- One step of a session: the clock goes on, a call of `authorize` begins or moves, a timer fires,
its callback moves, or the connection ends. -/
inductive Step (session : Session) : Session → Prop
  | tick (reading : Time) (hmono : session.clock.mono ≤ reading.mono) :
      Step session { session with clock := reading }
  | begin (headers : Headers) :
      Step session
        ((session.joined headers).record (.began session.calls.length))
  | call (i : ℕ) (call : AuthorizeCall) (after : Session)
      (hcall : session.calls[i]? = some call) (hmove : CallMove session i call after) :
      Step session after
  -- A timer fires once.
  | fire (timer : Timer) (htimer : timer ∈ session.timers) (hstopped : timer.stopped = false)
      (hdue : timer.setFor.mono ≤ session.clock.mono)
      (honce : ∀ callback ∈ session.callbacks, callback.generation ≠ timer.generation) :
      Step session
        { session with callbacks := session.callbacks ++ [⟨timer.generation, .loading⟩] }
  | load (k : ℕ) (callback : Callback) (hcallback : session.callbacks[k]? = some callback)
      (hpc : callback.pc = .loading) :
      Step session
        { session with
          callbacks := session.callbacks.set k
            { callback with
              pc := if session.generation = callback.generation then .closing else .ended } }
  -- A connection is closed for the first reason that is given.
  | expire (k : ℕ) (callback : Callback) (hcallback : session.callbacks[k]? = some callback)
      (hpc : callback.pc = .closing) :
      Step session
        { session with
          callbacks := session.callbacks.set k { callback with pc := .ended }
          closed := true
          log := if session.closed then session.log
            else session.log ++ [.expired callback.generation] }
  /-- The connection ends for another reason. -/
  | close : Step session { session with closed := true }
  /-- What is left to do for a connection that has ended. -/
  | cleanup (hclosed : session.closed = true) (hfree : session.lock = none) :
      Step session session.stopped

end Session

/-! ### What the decision on the headers does -/

theorem Authorization.decide_redeeming {auth : Authorization} {now : Time} {headers : Headers}
    (h : (auth.decide now headers).2 = .redeeming) :
    (auth.decide now headers).1.attempts = auth.attempts + 1 ∧ auth.attempts + 1 ≤ 8 := by
  unfold Authorization.decide at h ⊢
  split_ifs at h ⊢ with hproof hstanding hticket hattempts
  exact ⟨rfl, not_lt.mp hattempts⟩

theorem Authorization.attempts_le_decide (auth : Authorization) (now : Time) (headers : Headers) :
    auth.attempts ≤ (auth.decide now headers).1.attempts := by
  unfold Authorization.decide
  split_ifs <;> simp

/-! ### The redeem calls without a success -/

def SessionEvent.isReached : SessionEvent → Bool
  | .reached _ => true
  | _ => false

def SessionEvent.isRedeemed : SessionEvent → Bool
  | .redeemed _ => true
  | _ => false

/-- The redeem calls since the last success. -/
def unredeemed (log : List SessionEvent) : ℕ :=
  log.foldl (fun count event ↦
    if event.isRedeemed then 0 else if event.isReached then count + 1 else count) 0

theorem unredeemed_snoc (log : List SessionEvent) (event : SessionEvent) :
    unredeemed (log ++ [event]) =
      if event.isRedeemed then 0
      else if event.isReached then unredeemed log + 1 else unredeemed log := by
  simp [unredeemed]

theorem unredeemed_pass (log : List SessionEvent) {event : SessionEvent}
    (hreached : event.isReached = false) (hredeemed : event.isRedeemed = false) :
    unredeemed (log ++ [event]) = unredeemed log := by
  rw [unredeemed_snoc, hreached, hredeemed]
  rfl

/-- A stretch without a success counts in full. -/
theorem countP_le_unredeemed (before between : List SessionEvent)
    (hnone : ∀ event ∈ between, event.isRedeemed = false) :
    between.countP SessionEvent.isReached ≤ unredeemed (before ++ between) := by
  induction between using List.reverseRecOn with
  | nil => simp
  | append_singleton init last ih =>
    have hinit := ih fun event hevent ↦ hnone event (List.mem_append_left _ hevent)
    have hlast : last.isRedeemed = false := hnone last (by simp)
    rw [← List.append_assoc, unredeemed_snoc, hlast, List.countP_append, List.countP_singleton]
    cases last.isReached with
    | false => simpa using hinit
    | true => simpa using hinit

namespace Session

/-- The redeem calls are held to eight without a success, by the count of the attempts. -/
structure Budget (session : Session) : Prop where
  unredeemed_le : unredeemed session.log ≤ session.auth.attempts
  within : ∀ before, before <+: session.log → unredeemed before ≤ 8

variable {session session' : Session}

theorem Budget.snoc (h : session.Budget) {event : SessionEvent}
    (hlog : session'.log = session.log ++ [event])
    (hattempts : unredeemed session'.log ≤ session'.auth.attempts)
    (height : unredeemed session'.log ≤ 8) : session'.Budget where
  unredeemed_le := hattempts
  within before hbefore := by
    rw [hlog] at hbefore height
    rcases List.prefix_concat_iff.mp hbefore with rfl | hbefore
    · exact height
    · exact h.within before hbefore

/-- An event that is no part of the budget. -/
theorem Budget.pass (h : session.Budget) {event : SessionEvent}
    (hreached : event.isReached = false) (hredeemed : event.isRedeemed = false)
    (hlog : session'.log = session.log ++ [event])
    (hattempts : session.auth.attempts ≤ session'.auth.attempts) : session'.Budget := by
  have hsame : unredeemed session'.log = unredeemed session.log := by
    rw [hlog, unredeemed_pass session.log hreached hredeemed]
  refine h.snoc hlog (hsame ▸ h.unredeemed_le.trans hattempts) ?_
  rw [hsame]
  exact h.within _ List.prefix_rfl

theorem Budget.congr (h : session.Budget) (hlog : session'.log = session.log)
    (hattempts : session.auth.attempts ≤ session'.auth.attempts) : session'.Budget where
  unredeemed_le := hlog ▸ h.unredeemed_le.trans hattempts
  within before hbefore := h.within before (hlog ▸ hbefore)

/-! ### The armed deadline -/

/-- The deadline of the connection: that of its grant, or fifteen seconds after it was accepted. -/
def deadline (session : Session) : Time :=
  session.auth.authorizedUntil.getD (session.accepted.add (15 * Time.second))

/-- Unless the connection is closed, its timer has not been stopped, is of the current generation
and is set for the deadline. -/
def Armed (session : Session) : Prop :=
  session.closed = true ∨ ∃ timer, session.timers[session.timer]? = some timer ∧
    timer.stopped = false ∧ timer.generation = session.generation ∧
      timer.setFor = session.deadline

end Session

/-- The call is between taking and freeing the lock. -/
def AuthorizeCall.holds (call : AuthorizeCall) : Bool :=
  match call.pc with
  | .waiting _ | .returned _ => false
  | _ => true

/-- What is known of a call at its place in the code. -/
def AuthorizeCall.Ok (session : Session) (call : AuthorizeCall) : Prop :=
  match call.pc with
  | .waiting _ => True
  | .locked _ | .redeeming => session.Armed ∧ call.entry = some session.grant
  | .granted deadline =>
    session.auth.authorizedUntil = some deadline ∧ unredeemed session.log = 0
  | .counted deadline generation | .stopped deadline generation =>
    session.auth.authorizedUntil = some deadline ∧ generation = session.generation
  | .armed => session.Armed
  | .returned admitted =>
    admitted = false → ∃ grant, call.entry = some grant ∧ call.exit = some grant

namespace Session

/-- Holds in every reachable state: one call at most is under the lock, and whenever the lock is
free the timer of the connection is armed for its deadline. -/
structure Ok (session : Session) : Prop where
  lock : Guarded AuthorizeCall.holds session.calls session.lock
  free : session.lock = none → session.Armed
  calls : ∀ (i : ℕ) (call : AuthorizeCall), session.calls[i]? = some call → call.Ok session
  budget : session.Budget

/-- The step leaves the grant and the timers alone. -/
structure Keeps (session session' : Session) : Prop where
  accepted : session'.accepted = session.accepted
  authorizedUntil : session'.auth.authorizedUntil = session.auth.authorizedUntil
  address : session'.auth.address = session.auth.address
  generation : session'.generation = session.generation
  timer : session'.timer = session.timer
  timers : session'.timers = session.timers
  closed : session.closed = true → session'.closed = true

variable {session session' : Session} {call : AuthorizeCall} {i : ℕ}

theorem Armed.keeps (h : session.Armed) (hkeeps : session.Keeps session') : session'.Armed := by
  rcases h with hclosed | ⟨timer, htimer, hstopped, hgeneration, hset⟩
  · exact Or.inl (hkeeps.closed hclosed)
  · refine Or.inr ⟨timer, ?_, hstopped, hgeneration.trans hkeeps.generation.symm, ?_⟩
    · rw [hkeeps.timers, hkeeps.timer, htimer]
    · rw [hset, deadline, deadline, hkeeps.authorizedUntil, hkeeps.accepted]

theorem Keeps.grant_eq (hkeeps : session.Keeps session') : session'.grant = session.grant := by
  rw [grant, grant, hkeeps.authorizedUntil, hkeeps.address, hkeeps.timer, hkeeps.generation]

end Session

section Calls

variable {session session' : Session} {call : AuthorizeCall} {i : ℕ}

theorem AuthorizeCall.Ok.keeps (h : call.Ok session) (hkeeps : session.Keeps session')
    (hunredeemed : unredeemed session'.log = unredeemed session.log) : call.Ok session' := by
  unfold AuthorizeCall.Ok at h ⊢
  cases hpc : call.pc with
  | waiting => trivial
  | locked | redeeming =>
    simp only [hpc] at h
    exact ⟨h.1.keeps hkeeps, by rw [h.2, hkeeps.grant_eq]⟩
  | granted deadline =>
    simp only [hpc] at h
    exact ⟨by rw [hkeeps.authorizedUntil, h.1], by rw [hunredeemed, h.2]⟩
  | counted deadline generation | stopped deadline generation =>
    simp only [hpc] at h
    exact ⟨by rw [hkeeps.authorizedUntil, h.1], by rw [hkeeps.generation, h.2]⟩
  | armed =>
    simp only [hpc] at h
    exact h.keeps hkeeps
  | returned admitted =>
    simp only [hpc] at h
    exact h

/-- What is known of a call outside the lock does not depend on the session. -/
theorem AuthorizeCall.Ok.outside (h : call.Ok session) (hholds : call.holds = false) :
    call.Ok session' := by
  unfold AuthorizeCall.Ok at h ⊢
  unfold AuthorizeCall.holds at hholds
  cases hpc : call.pc with
  | waiting => trivial
  | returned admitted =>
    simp only [hpc] at h
    exact h
  | locked | redeeming | granted | counted | stopped | armed =>
    simp only [hpc] at hholds
    cases hholds

namespace Session

/-- A step that leaves the calls, the lock, the grant and the timers alone. -/
theorem Ok.keeps (h : session.Ok) (hkeeps : session.Keeps session')
    (hunredeemed : unredeemed session'.log = unredeemed session.log)
    (hcalls : session'.calls = session.calls) (hlock : session'.lock = session.lock)
    (hbudget : session'.Budget) : session'.Ok where
  lock := by rw [hcalls, hlock]; exact h.lock
  free hfree := (h.free (hlock ▸ hfree)).keeps hkeeps
  calls j other hother := (h.calls j other (hcalls ▸ hother)).keeps hkeeps hunredeemed
  budget := hbudget

/-- Assumes: a call has moved, with the lock or taking it. -/
theorem Ok.move (h : session.Ok) (hcall : session.calls[i]? = some call)
    {call' : AuthorizeCall} (hcalls : session'.calls = session.calls.set i call')
    (hlock : call'.holds = call.holds ∧ session'.lock = session.lock ∨
      session.lock = none ∧ session'.lock = some i ∧ call'.holds = true ∨
      call.holds = true ∧ call'.holds = false ∧ session'.lock = none)
    (halone : call.holds = true ∨ session.lock = none)
    (hfree : session'.lock = none → session'.Armed) (hok : call'.Ok session')
    (hbudget : session'.Budget) : session'.Ok where
  lock := by rw [hcalls]; exact h.lock.set hcall hlock
  free := hfree
  calls j other hother := by
    rw [hcalls] at hother
    rcases getElem?_set_cases hother with ⟨-, rfl⟩ | ⟨hj, hold⟩
    · exact hok
    · refine (h.calls j other hold).outside ?_
      -- Another call that holds the lock would be this one.
      rw [Bool.eq_false_iff]
      intro hholds
      have hown := h.lock.eq_some hold hholds
      rcases halone with hmine | hnone
      · rw [h.lock.eq_some hcall hmine] at hown
        exact hj (Option.some.inj hown).symm
      · rw [hnone] at hown
        cases hown
  budget := hbudget

theorem Keeps.judged (session : Session) (headers : Headers) :
    session.Keeps (session.judged headers) where
  accepted := rfl
  authorizedUntil := (session.auth.decide_keeps session.clock headers).1
  address := (session.auth.decide_keeps session.clock headers).2
  generation := rfl
  timer := rfl
  timers := rfl
  closed h := h

/-- A call that holds the lock moves on with it. -/
theorem Ok.step (h : session.Ok) (hcall : session.calls[i]? = some call)
    (hholds : call.holds = true)
    {call' : AuthorizeCall} (hholds' : call'.holds = true)
    (hcalls : session'.calls = session.calls.set i call') (hlock : session'.lock = session.lock)
    (hok : call'.Ok session') (hbudget : session'.Budget) : session'.Ok := by
  refine h.move hcall hcalls (Or.inl ⟨hholds'.trans hholds.symm, hlock⟩) (Or.inl hholds) ?_ hok
    hbudget
  intro hfree
  rw [hlock, h.lock.eq_some hcall hholds] at hfree
  cases hfree

/-- A call returns with the connection armed. -/
theorem Ok.leave (h : session.Ok) (hcall : session.calls[i]? = some call)
    (hholds : call.holds = true) {call' : AuthorizeCall} (hholds' : call'.holds = false)
    (hcalls : session'.calls = session.calls.set i call') (hlock : session'.lock = none)
    (harmed : session'.Armed) (hok : call'.Ok session') (hbudget : session'.Budget) :
    session'.Ok :=
  h.move hcall hcalls (Or.inr (Or.inr ⟨hholds, hholds', hlock⟩)) (Or.inl hholds) (fun _ ↦ harmed)
    hok hbudget

/-- Every move of a call keeps the session in order. -/
theorem CallMove.ok (hmove : CallMove session i call session') (h : session.Ok)
    (hcall : session.calls[i]? = some call) : session'.Ok := by
  have hok := h.calls i call hcall
  unfold AuthorizeCall.Ok at hok
  have hjudged (harmed : session.Armed) (headers : Headers) : (session.judged headers).Armed :=
    harmed.keeps (Keeps.judged session headers)
  cases hmove with
  | acquire headers hpc hfree =>
    exact h.move hcall rfl (Or.inr (Or.inl ⟨hfree, rfl, rfl⟩)) (Or.inr hfree) (by simp)
      ⟨h.free hfree, rfl⟩ (h.budget.congr rfl le_rfl)
  | allow headers address expires hpc =>
    simp only [hpc] at hok
    refine h.leave hcall (by simp [AuthorizeCall.holds, hpc]) rfl rfl rfl ?_ ?_ ?_
    · exact hjudged hok.1 headers
    · simp [AuthorizeCall.Ok]
    · exact h.budget.congr rfl (session.auth.attempts_le_decide session.clock headers)
  | refuse headers status code hpc =>
    simp only [hpc] at hok
    refine h.leave hcall (by simp [AuthorizeCall.holds, hpc]) rfl rfl rfl ?_ ?_ ?_
    · exact hjudged hok.1 headers
    · exact fun _ ↦ ⟨session.grant, hok.2, congrArg some (Keeps.judged session headers).grant_eq⟩
    · exact h.budget.congr rfl (session.auth.attempts_le_decide session.clock headers)
  | reach headers hpc hdecision =>
    simp only [hpc] at hok
    obtain ⟨hattempts, height⟩ := Authorization.decide_redeeming hdecision
    have hunredeemed := h.budget.unredeemed_le
    have hlog : unredeemed (session.log ++ [.reached i]) = unredeemed session.log + 1 :=
      unredeemed_snoc session.log (.reached i)
    refine h.step hcall (by simp [AuthorizeCall.holds, hpc]) rfl rfl rfl ⟨?_, ?_⟩ ?_
    · exact hjudged hok.1 headers
    · exact hok.2.trans (congrArg some (Keeps.judged session headers).grant_eq.symm)
    · refine h.budget.snoc rfl ?_ ?_
      · exact hlog.trans_le ((Nat.succ_le_succ hunredeemed).trans hattempts.ge)
      · exact hlog.trans_le ((Nat.succ_le_succ hunredeemed).trans height)
  | reject hpc =>
    simp only [hpc] at hok
    refine h.leave hcall (by simp [AuthorizeCall.holds, hpc]) rfl rfl rfl hok.1 ?_
      (h.budget.congr rfl le_rfl)
    exact fun _ ↦ ⟨session.grant, hok.2, rfl⟩
  | redeem id deadline hpc =>
    have hlog : unredeemed (session.log ++ [.redeemed i]) = 0 :=
      unredeemed_snoc session.log (.redeemed i)
    refine h.step hcall (by simp [AuthorizeCall.holds, hpc]) rfl rfl rfl ⟨rfl, hlog⟩ ?_
    exact h.budget.snoc rfl (hlog.trans_le (Nat.zero_le _)) (hlog.trans_le (Nat.zero_le _))
  | count deadline hpc =>
    simp only [hpc] at hok
    refine h.step hcall (by simp [AuthorizeCall.holds, hpc]) rfl rfl rfl ⟨hok.1, rfl⟩ ?_
    exact ⟨hok.2.le, h.budget.within⟩
  | stop deadline generation hpc =>
    simp only [hpc] at hok
    exact h.step hcall (by simp [AuthorizeCall.holds, hpc]) rfl rfl rfl ⟨hok.1, hok.2⟩
      (h.budget.congr rfl le_rfl)
  | arm deadline generation hpc =>
    simp only [hpc] at hok
    refine h.step hcall (by simp [AuthorizeCall.holds, hpc]) rfl rfl rfl (Or.inr ?_)
      (h.budget.pass rfl rfl rfl le_rfl)
    refine ⟨⟨generation, deadline, false⟩, ?_, rfl, hok.2, ?_⟩
    · exact List.getElem?_concat_length
    · have hset : session.deadline = deadline := by rw [Session.deadline, hok.1]; rfl
      exact hset.symm
  | finish hpc =>
    simp only [hpc] at hok
    refine h.leave hcall (by simp [AuthorizeCall.holds, hpc]) rfl rfl rfl hok ?_
      (h.budget.pass rfl rfl rfl le_rfl)
    simp [AuthorizeCall.Ok]

/-- Every step keeps the session in order. -/
theorem Step.ok (hstep : Step session session') (h : session.Ok) : session'.Ok := by
  cases hstep with
  | tick | fire | load =>
    exact h.keeps ⟨rfl, rfl, rfl, rfl, rfl, rfl, id⟩ rfl rfl rfl (h.budget.congr rfl le_rfl)
  | close =>
    exact h.keeps ⟨rfl, rfl, rfl, rfl, rfl, rfl, fun _ ↦ rfl⟩ rfl rfl rfl
      (h.budget.congr rfl le_rfl)
  | begin headers =>
    refine ⟨h.lock.append rfl, h.free, ?_, h.budget.pass rfl rfl rfl le_rfl⟩
    intro j other hother
    rcases getElem?_snoc_cases hother with hold | ⟨-, rfl⟩
    · exact (h.calls j other hold).keeps ⟨rfl, rfl, rfl, rfl, rfl, rfl, id⟩
        (unredeemed_pass session.log rfl rfl)
    · trivial
  | call i call _ hcall hmove => exact hmove.ok h hcall
  | expire k callback =>
    by_cases hclosed : session.closed = true
    · simp only [hclosed, if_true]
      exact h.keeps ⟨rfl, rfl, rfl, rfl, rfl, rfl, fun _ ↦ rfl⟩ rfl rfl rfl
        (h.budget.congr rfl le_rfl)
    · simp only [hclosed]
      exact h.keeps ⟨rfl, rfl, rfl, rfl, rfl, rfl, fun _ ↦ rfl⟩
        (unredeemed_pass session.log rfl rfl) rfl rfl (h.budget.pass rfl rfl rfl le_rfl)
  | cleanup hclosed hfree =>
    refine ⟨h.lock, fun _ ↦ Or.inl hclosed, ?_, h.budget.congr rfl le_rfl⟩
    intro j other hother
    refine (h.calls j other hother).outside ?_
    rw [Bool.eq_false_iff]
    intro hholds
    rw [h.lock.eq_some hother hholds] at hfree
    cases hfree

theorem ok_start (accepted : Time) : (start accepted).Ok where
  lock i := by simp [start]
  free _ := Or.inr ⟨_, rfl, rfl, rfl, rfl⟩
  calls i call hcall := by simp [start] at hcall
  budget := by
    refine ⟨by simp [start, unredeemed, SessionEvent.isReached, SessionEvent.isRedeemed], ?_⟩
    intro before hbefore
    rcases List.prefix_concat_iff.mp (show before <+: [] ++ [.armed 1] from hbefore) with rfl | hnil
    · decide
    · rw [List.prefix_nil.mp hnil]
      decide

theorem ok_of_run {accepted : Time}
    (hrun : Run Step (fun _ _ ↦ True) (start accepted) session) : session.Ok :=
  hrun.invariant Ok (fun _ _ h hstep _ ↦ hstep.ok h) (ok_start accepted)

/-- Whenever no call holds the lock, the timer of the connection has not been stopped, is of the
current generation and is set for the deadline, unless the connection is closed. A call that is
refused leaves the grant, the timer and the generation as it found them. And no more than eight
calls reach the ticket authority without a success between them. -/
theorem deadline_armed {accepted : Time}
    (hrun : Run Step (fun _ _ ↦ True) (start accepted) session) :
    (session.lock = none → session.Armed) ∧
    (∀ call ∈ session.calls, call.pc = .returned false →
      ∃ grant, call.entry = some grant ∧ call.exit = some grant) ∧
    (∀ before between after, session.log = before ++ between ++ after →
      (∀ event ∈ between, event.isRedeemed = false) →
        between.countP SessionEvent.isReached ≤ 8) := by
  have hok := ok_of_run hrun
  refine ⟨hok.free, ?_, ?_⟩
  · intro call hcall hpc
    obtain ⟨i, hi⟩ := List.getElem?_of_mem hcall
    have hreturned := hok.calls i call hi
    unfold AuthorizeCall.Ok at hreturned
    simp only [hpc] at hreturned
    exact hreturned trivial
  · intro before between after hlog hnone
    exact (countP_le_unredeemed before between hnone).trans
      (hok.budget.within _ ⟨after, hlog.symm⟩)

/-- A request with a ticket. -/
def sampleHeaders : Headers := ⟨[], [], [1]⟩

/-- A ticket that is not accepted leaves the connection with its first deadline. -/
theorem deadline_armed_sample : ∃ session : Session,
    Run Step (fun _ _ ↦ True) (start ⟨0, 0⟩) session ∧
      session.log = [.armed 1, .began 0, .reached 0] ∧ session.lock = none ∧ session.Armed := by
  have h1 : Run Step (fun _ _ ↦ True) (start ⟨0, 0⟩) _ :=
    (Run.refl _).snoc (.begin sampleHeaders) trivial
  have h2 := h1.snoc (.call 0 _ _ rfl (.acquire sampleHeaders rfl rfl)) trivial
  have h3 := h2.snoc (.call 0 _ _ rfl (.reach sampleHeaders rfl (by decide))) trivial
  have h4 := h3.snoc (.call 0 _ _ rfl (.reject rfl)) trivial
  exact ⟨_, h4, rfl, rfl, (deadline_armed h4).1 rfl⟩

end Session

end Calls

end QortalRelay.Access
