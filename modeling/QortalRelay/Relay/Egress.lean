import QortalRelay.Foundation.Decimal
import QortalRelay.Relay.Admission
import QortalRelay.Relay.Connections
import QortalRelay.Relay.Targets

/-!
# From a request to a socket

The handler of requests, from the arrival of a request on a connection to the end of its tunnel:
authorization, the parser of CONNECT-UDP requests, the test on the target, the session slot, the
socket to the target, and the deferred release of the slot. Any number of handlers run at once,
over the connections and the ticket authority of a relay in groups mode (`Service.Step`); seen
through its relay, a step of the service is a step of the relay (`Service.Step.relay`).

A handler carries the admission of its own request, and a socket is recorded with it, with the
arrival of the request and with the process that opened it. Every step keeps that the admission of a
handler was recorded after its request had arrived, and that it rests on a ticket that this process
had redeemed and whose deadline lay ahead, or on one that was redeemed for the request (`Entitled`);
that the target of a handler is the one of its own request after the test of its process; and that
the counters of sessions count the handlers between `acquire` and `release` (`Service.Sound`). So no
request gets a socket but to a target that the policy of its process allows and on the account of
such a ticket, and the sockets open on one account are at most eight (`egress_permitted`).
-/

set_option autoImplicit false
set_option relaxedAutoImplicit false

namespace QortalRelay.Egress

open Foundation Foundation.Encoding Foundation.Decimal Foundation.Store Foundation.Trace
open Access Tickets Connections Admission

/-! ### Requests -/

/-- What the handler reads of a request. -/
structure ConnectRequest where
  headers : Headers
  /-- The value of `Qortal-Relay-Control`. -/
  control : Text
  method : Text
  proto : Text
  host : Text
  /-- The values of the capsule protocol header, if there are any. -/
  capsuleProtocol : Option (List Text)
  url : Text
  remoteAddr : Text

/-- The item of a structured field; of one that is not a boolean only the type is looked at. -/
inductive Item
  | boolean (value : Bool)
  | other (type : Text)

/-- The libraries that read a request. -/
structure Libraries where
  /-- The host of the template of the relay, or the error of the URL parser. -/
  templateHost : Except Text Text
  unmarshalItem : List Text → Option Item
  /-- The values that a URL gives to `target_host` and `target_port`; empty without a match. -/
  templateMatch : Text → Text × Text
  parseAddrPort : Text → Option (Addr × UInt16)
  /-- The host of an address with a port. -/
  splitHostPort : Text → Option Text

/-- What the parser of the proxy returns: the target, and the host of the request. -/
structure ProxyRequest where
  target : Text
  host : Text

/-- Why a request is no request for a UDP tunnel. -/
inductive ParseError
  | template (error : Text)
  | method (method : Text)
  | protocol (proto : Text)
  | host (host templateHost : Text)
  | capsuleValue (values : List Text)
  | capsuleType (type : Text)
  | capsuleFalse
  | targetMissing
  | targetPort (error : NumError)

/-- The header is optional, but if it is there it is the boolean true. -/
def checkCapsuleProtocol (libraries : Libraries) : Option (List Text) → Except ParseError Unit
  | none => pure ()
  | some values =>
    match libraries.unmarshalItem values with
    | none => throw (.capsuleValue values)
    | some (.other type) => throw (.capsuleType type)
    | some (.boolean false) => throw .capsuleFalse
    | some (.boolean true) => pure ()

/-- An IPv6 address is enclosed in brackets. -/
def enclosed (host : Text) : Text := if ':' ∈ host then '[' :: host ++ [']'] else host

/-- The checks of `ParseProxyRequest`, in their order. -/
def parseProxyRequest (libraries : Libraries) (request : ConnectRequest) :
    Except ParseError ProxyRequest := do
  let templateHost ← libraries.templateHost.mapError .template
  if request.method ≠ "CONNECT".toList then throw (.method request.method)
  if request.proto ≠ "connect-udp".toList then throw (.protocol request.proto)
  if request.host ≠ templateHost then throw (.host request.host templateHost)
  checkCapsuleProtocol libraries request.capsuleProtocol
  let (targetHost, targetPort) := libraries.templateMatch request.url
  if targetHost = [] ∨ targetPort = [] then throw .targetMissing
  let port ← (parseInt targetPort).mapError .targetPort
  return ⟨enclosed targetHost ++ ':' :: formatInt port, request.host⟩

/-! ### Answers -/

/-- An answer of the handler itself: the headers of its own that it sets, and the body. -/
structure Response where
  status : ℕ
  /-- The value of `Qortal-Relay-Error`. -/
  error : Option Text
  retryAfter : Option Text
  body : Text
deriving DecidableEq

def accessError (status : ℕ) (code : Text) : Response := ⟨status, some code, none, code⟩

/-- What becomes of a request that is authorized. -/
inductive Verdict
  | answered (response : Response)
  | accepted (target : Endpoint)
deriving DecidableEq

/-- The handler between the authorization and the session slot. -/
def review (libraries : Libraries) (targets : TargetPolicy) (request : ConnectRequest) : Verdict :=
  if request.control = "authorize".toList then .answered ⟨204, none, none, []⟩
  else
    match parseProxyRequest libraries request with
    | .error _ => .answered ⟨400, none, none, "invalid CONNECT-UDP request".toList⟩
    | .ok proxyRequest =>
      match libraries.parseAddrPort proxyRequest.target with
      | none => .answered (accessError 403 "RELAY_TARGET_DENIED".toList)
      | some (addr, port) =>
        let target := Endpoint.unmap ⟨some addr, port⟩
        if targets.targetAllowed target then .accepted target
        else .answered (accessError 403 "RELAY_TARGET_DENIED".toList)

/-- The host of a remote address, or the address itself when it cannot be split. -/
def sourceHost (libraries : Libraries) (value : Text) : Text :=
  match libraries.splitHostPort value with
  | none => value
  | some host => if host = [] then value else host

/-- The source under which a tunnel is counted. -/
def sessionSource (libraries : Libraries) (request : ConnectRequest) (account : Text) : Text :=
  if account ≠ [] then "account:".toList ++ account else sourceHost libraries request.remoteAddr

/-! ### The machine -/

/-- A point of a run: the reading of the clock, and how many events are in the log. -/
structure Moment where
  clock : Time
  logged : ℕ

/-- A request as it came on a connection. The moment is read by nothing. -/
structure Arrival where
  connection : ℕ
  request : ConnectRequest
  moment : Moment

/-- A process of the relay: its policy on targets, and when it was started, which is read by
nothing. -/
structure Process where
  targets : TargetPolicy
  start : Moment

/-- How far a handler has come. The admission of its own request is read by nothing. -/
inductive Stage
  | arrived
  /-- It waits for a redeem call of the authority, under the lock of its connection. -/
  | redeeming (call : ℕ)
  | authorized (account : Text) (admission : Connections.Admission)
  | accepted (target : Endpoint) (source : Text) (admission : Connections.Admission)
  /-- With a session slot, before the socket. -/
  | acquired (target : Endpoint) (source : Text) (admission : Connections.Admission)
  | tunnelling (target : Endpoint) (source : Text) (admission : Connections.Admission)
  /-- Without a socket, before the deferred release. No answer is its own once it had a tunnel. -/
  | leaving (source : Text) (response : Option Response)
  | returned (response : Option Response)

/-- The source under which the handler holds a session slot. -/
def Stage.slot : Stage → Option Text
  | .acquired _ source _ | .tunnelling _ source _ | .leaving source _ => some source
  | _ => none

/-- The handler of a request, at its place in the code. -/
structure Handler where
  arrival : Arrival
  stage : Stage

/-- A socket that was opened: for which request and on which admission of it, to where and under
which source, by which process and when. -/
structure Dial where
  arrival : Arrival
  admission : Connections.Admission
  target : Endpoint
  source : Text
  process : Process
  moment : Moment

/-- The relay with the handlers of its requests and a record of the sockets they dialled. -/
structure Service (crypto : Crypto) where
  relay : Relay crypto
  process : Process
  sessions : Sessions
  handlers : List Handler
  /-- Read by nothing. -/
  dials : List Dial

variable {crypto : Crypto} {codec : Codec} {libraries : Libraries}

def now (relay : Relay crypto) : Moment := ⟨relay.authority.clock, relay.authority.log.length⟩

/-- Where a decision on its authorization leaves a handler. -/
def Stage.ofDecision (call : ℕ) (admission : Connections.Admission) : Decision → Stage
  | .admitted account _ => .authorized account admission
  | .refused status code => .returned (some (accessError status code.text.toList))
  | .redeeming => .redeeming call

def Stage.ofVerdict (source : Text) (admission : Connections.Admission) : Verdict → Stage
  | .answered response => .returned (some response)
  | .accepted target => .accepted target source admission

/-- Where `acquire` leaves a handler. -/
def Stage.ofAcquire (target : Endpoint) (source : Text) (admission : Connections.Admission) :
    Bool → Stage
  | true => .acquired target source admission
  | false => .returned (some
    { accessError 429 "RELAY_FULL".toList with retryAfter := some "5".toList })

namespace Service

/-- The handler with a number comes to a stage. -/
def put (service : Service crypto) (j : ℕ) (handler : Handler) (stage : Stage) : Service crypto :=
  { service with handlers := service.handlers.set j { handler with stage := stage } }

/-- What the relay does besides the authorization of requests: the steps of `RelayStep` other than
those of a handler and a restart. -/
inductive Background (codec : Codec) (relay : Relay crypto) : Relay crypto → Prop
  | tick (reading : Time) (hmono : relay.authority.clock.mono ≤ reading.mono)
      (hsane : reading.Plausible) :
      Background codec relay { relay with authority := { relay.authority with clock := reading } }
  | request (request : Request) (hserving : relay.authority.isServing)
      (hslot : relay.authority.threads.countP Thread.holdsSlot < 8) :
      Background codec relay { relay with authority := relay.authority.called (.received request) }
  | crowded (hserving : relay.authority.isServing)
      (hslot : 8 ≤ relay.authority.threads.countP Thread.holdsSlot) :
      Background codec relay { relay with
        authority := { relay.authority with
          log := relay.authority.log ++ [.refused ⟨429, .rateLimited⟩] } }
  | act (i : ℕ) (thread : Thread crypto.Key) (shared : Shared crypto.Key)
      (next : Thread crypto.Key × List Tickets.Event)
      (hthread : relay.authority.threads[i]? = some thread)
      (hreturned : ∀ grant, thread ≠ .returned grant)
      (hact : Act crypto codec relay.authority.policy relay.authority.clock i
        relay.authority.log.length relay.authority.shared thread shared next) :
      Background codec relay { relay with authority := relay.authority.moved i shared next }
  | accept (hserving : relay.authority.isServing) :
      Background codec relay
        { relay with connections := relay.connections ++ [⟨.fresh, none⟩] }

/-- A step in the background, a restart, the close of the relay, or a request that arrives or goes
on in its handler. -/
inductive Step (codec : Codec) (libraries : Libraries) (service : Service crypto) :
    Service crypto → Prop
  | background (relay : Relay crypto) (hrelay : Background codec service.relay relay) :
      Step codec libraries service { service with relay := relay }
  /-- The process starts again, with a configuration in groups mode. -/
  | restart (policy : Policy) (hmode : policy.mode = .groups) (targets : TargetPolicy)
      (maxSessions : ℤ) :
      Step codec libraries service {
        relay := { service.relay with
          authority := service.relay.authority.restarted policy, connections := [] }
        process := ⟨targets, now service.relay⟩
        sessions := .start maxSessions
        handlers := []
        dials := service.dials }
  | close : Step codec libraries service { service with sessions := service.sessions.close }
  | arrive (k : ℕ) (request : ConnectRequest) (hk : k < service.relay.connections.length) :
      Step codec libraries service
        { service with
          handlers := service.handlers ++ [⟨⟨k, request, now service.relay⟩, .arrived⟩] }
  | authorize (j : ℕ) (handler : Handler) (connection : Connection)
      (hhandler : service.handlers[j]? = some handler) (hstage : handler.stage = .arrived)
      (hserving : service.relay.authority.isServing)
      (hconnection : service.relay.connections[handler.arrival.connection]? = some connection)
      (hfree : connection.busy = none) :
      Step codec libraries service { service.put j handler
          (.ofDecision service.relay.authority.threads.length
            ⟨handler.arrival.connection, service.relay.authority.clock,
              connection.auth.authorizedUntil, none⟩
            (service.relay.decision connection handler.arrival.request.headers).2) with
        relay := service.relay.decided handler.arrival.connection connection
          handler.arrival.request.headers }
  | settle (j i : ℕ) (handler : Handler) (connection : Connection)
      (grant : Option (Marker × Time)) (hhandler : service.handlers[j]? = some handler)
      (hstage : handler.stage = .redeeming i)
      (hconnection : service.relay.connections[handler.arrival.connection]? = some connection)
      (hbusy : connection.busy = some i)
      (hthread : service.relay.authority.threads[i]? = some (.returned grant)) :
      Step codec libraries service { service.put j handler
          (.ofDecision i
            ⟨handler.arrival.connection, service.relay.authority.clock, grant.map Prod.snd,
              grant.map Prod.fst⟩
            (Access.settle crypto connection.auth grant).2) with
        relay := service.relay.settled handler.arrival.connection i connection grant }
  | review (j : ℕ) (handler : Handler) (account : Text) (admission : Connections.Admission)
      (hhandler : service.handlers[j]? = some handler)
      (hstage : handler.stage = .authorized account admission) :
      Step codec libraries service (service.put j handler
        (.ofVerdict (sessionSource libraries handler.arrival.request account) admission
          (Egress.review libraries service.process.targets handler.arrival.request)))
  | acquire (j : ℕ) (handler : Handler) (target : Endpoint) (source : Text)
      (admission : Connections.Admission) (hhandler : service.handlers[j]? = some handler)
      (hstage : handler.stage = .accepted target source admission) :
      Step codec libraries service { service.put j handler
          (.ofAcquire target source admission (service.sessions.acquire source).2) with
        sessions := (service.sessions.acquire source).1 }
  | dial (j : ℕ) (handler : Handler) (target : Endpoint) (source : Text)
      (admission : Connections.Admission) (hhandler : service.handlers[j]? = some handler)
      (hstage : handler.stage = .acquired target source admission) :
      Step codec libraries service
        { service.put j handler (.tunnelling target source admission) with
          dials := service.dials ++ [⟨handler.arrival, admission, target, source, service.process,
            now service.relay⟩] }
  | dialFails (j : ℕ) (handler : Handler) (target : Endpoint) (source : Text)
      (admission : Connections.Admission) (hhandler : service.handlers[j]? = some handler)
      (hstage : handler.stage = .acquired target source admission) :
      Step codec libraries service (service.put j handler
        (.leaving source (some ⟨502, none, none, "target unavailable".toList⟩)))
  /-- `ProxyConnectedSocket` has returned, and the socket is closed. -/
  | tunnelEnds (j : ℕ) (handler : Handler) (target : Endpoint) (source : Text)
      (admission : Connections.Admission) (hhandler : service.handlers[j]? = some handler)
      (hstage : handler.stage = .tunnelling target source admission) :
      Step codec libraries service (service.put j handler (.leaving source none))
  | release (j : ℕ) (handler : Handler) (source : Text) (response : Option Response)
      (hhandler : service.handlers[j]? = some handler)
      (hstage : handler.stage = .leaving source response) :
      Step codec libraries service { service.put j handler (.returned response) with
        sessions := service.sessions.release source }

/-- The relay has just started. -/
structure Initial (service : Service crypto) : Prop where
  relay : RelayInitial service.relay
  sessions : ∃ maxSessions, service.sessions = .start maxSessions
  start : service.process.start = now service.relay
  handlers : service.handlers = []
  dials : service.dials = []

/-! ### The relay inside the service -/

theorem Background.relayStep {relay relay' : Relay crypto} (h : Background codec relay relay') :
    RelayStep codec relay relay' := by
  cases h with
  | tick reading hmono hsane => exact .tick reading hmono hsane
  | request request hserving hslot => exact .request request hserving hslot
  | crowded hserving hslot => exact .crowded hserving hslot
  | act i thread shared next hthread hreturned hact =>
    exact .act i thread shared next hthread hreturned hact
  | accept hserving => exact .accept hserving

/-- A step of the service is a step of its relay, or leaves it alone. -/
theorem Step.relay {service service' : Service crypto}
    (hstep : Step codec libraries service service') :
    service'.relay = service.relay ∨ RelayStep codec service.relay service'.relay := by
  cases hstep with
  | background relay hrelay => exact Or.inr hrelay.relayStep
  | restart policy hmode targets maxSessions => exact Or.inr (.restart policy hmode)
  | authorize j handler connection hhandler hstage hserving hconnection hfree =>
    exact Or.inr (.decide _ connection _ hserving hconnection hfree)
  | settle j i handler connection grant hhandler hstage hconnection hbusy hthread =>
    exact Or.inr (.settle _ i connection grant hconnection hbusy hthread)
  | _ => exact Or.inl rfl

end Service

/-! ### Moments -/

/-- The first moment is not after the last, by the clock and by the log. -/
structure Moment.Until (first last : Moment) : Prop where
  clock : first.clock.mono ≤ last.clock.mono
  logged : first.logged ≤ last.logged

theorem Moment.Until.refl (moment : Moment) : moment.Until moment := ⟨le_rfl, le_rfl⟩

theorem Moment.Until.trans {first second third : Moment} (h : first.Until second)
    (h' : second.Until third) : first.Until third :=
  ⟨h.clock.trans h'.clock, h.logged.trans h'.logged⟩

/-- The relay is as it was, or has taken a step. -/
def Next (codec : Codec) (relay relay' : Relay crypto) : Prop :=
  relay' = relay ∨ RelayStep codec relay relay'

theorem Next.log_prefix {relay relay' : Relay crypto} (h : Next codec relay relay') :
    relay.authority.log <+: relay'.authority.log := by
  rcases h with rfl | hstep
  · exact List.prefix_refl _
  · exact hstep.log_prefix

theorem Next.now_until {relay relay' : Relay crypto} (h : Next codec relay relay') :
    (now relay).Until (now relay') := by
  refine ⟨?_, h.log_prefix.length_le⟩
  rcases h with rfl | hstep
  · exact le_rfl
  · cases hstep with
    | tick reading hmono hsane => exact hmono
    | decide k connection headers hserving hconnection hfree =>
      simp only [now, Relay.decided]
      split <;> exact le_rfl
    | _ => exact le_rfl

/-- The events that were recorded between two moments. -/
def between (relay : Relay crypto) (first last : Moment) : List Tickets.Event :=
  (relay.authority.log.take last.logged).drop first.logged

/-- Assumes: the log is that of the present relay. -/
theorem between_now {relay relay' : Relay crypto}
    (hlog : relay'.authority.log = relay.authority.log) (first : Moment) :
    between relay' first (now relay) = relay.authority.log.drop first.logged := by
  rw [between, hlog, now, List.take_length]

/-- What is over stays as it is. -/
theorem Next.between_eq {relay relay' : Relay crypto} (h : Next codec relay relay') (first : Moment)
    {last : Moment} (hlast : last.logged ≤ relay.authority.log.length) :
    between relay' first last = between relay first last := by
  obtain ⟨more, hlog⟩ := h.log_prefix
  rw [between, between, ← hlog, List.take_append_of_le_length hlast]

theorem between_subset (relay : Relay crypto) (first : Moment) {last last' : Moment}
    (h : last.Until last') : between relay first last ⊆ between relay first last' :=
  ((List.take_prefix_take_left h.logged).drop _).subset

/-! ### What a request is admitted on -/

/-- The admission of a request, as it rests on a ticket at a moment: it was recorded for the
connection of the request after the request had arrived, and the account is the address of a ticket
whose deadline it has. Either the deadline lay ahead and the ticket was redeemed by the process of
the request, or the ticket was redeemed after the request had arrived and for it. -/
structure Entitled (relay : Relay crypto) (process : Process) (arrival : Arrival) (last : Moment)
    (admission : Connections.Admission) (account : Text) : Prop where
  recorded : admission ∈ relay.admissions
  connection : admission.connection = arrival.connection
  arrived : arrival.moment.clock.mono ≤ admission.readAt.mono
  read : admission.readAt.mono ≤ last.clock.mono
  ticket : ∃ marker grantedUntil, admission.authorizedUntil = some grantedUntil ∧
    account = ticketAddress (ticketId crypto marker.message) ∧
    (admission.redeemed = none ∧ admission.readAt.before grantedUntil = true ∧
        Event.redeemed marker grantedUntil ∈ between relay process.start last ∨
      admission.redeemed = some marker ∧
        Event.redeemed marker grantedUntil ∈ between relay arrival.moment last)

theorem Entitled.ne_nil {relay : Relay crypto} {process : Process} {arrival : Arrival}
    {last : Moment} {admission : Connections.Admission} {account : Text}
    (h : Entitled relay process arrival last admission account) : account ≠ [] := by
  obtain ⟨marker, -, -, rfl, -⟩ := h.ticket
  exact ticketAddress_ne_nil _

theorem admissions_subset_of_step {relay relay' : Relay crypto}
    (hstep : RelayStep codec relay relay') : relay.admissions ⊆ relay'.admissions := by
  cases hstep with
  | decide k connection headers hserving hconnection hfree =>
    simp only [Relay.decided]
    split
    · exact List.subset_append_left _ _
    · exact List.Subset.refl _
    · exact List.Subset.refl _
  | settle k i connection grant hconnection hbusy hthread => exact List.subset_append_left _ _
  | _ => exact List.Subset.refl _

theorem Next.admissions_subset {relay relay' : Relay crypto} (h : Next codec relay relay') :
    relay.admissions ⊆ relay'.admissions := by
  rcases h with rfl | hstep
  · exact List.Subset.refl _
  · exact admissions_subset_of_step hstep

/-- Assumes: the moment is over. -/
theorem Entitled.next {relay relay' : Relay crypto} {process : Process} {arrival : Arrival}
    {last : Moment} {admission : Connections.Admission} {account : Text}
    (h : Entitled relay process arrival last admission account)
    (hnext : Next codec relay relay') (hlast : last.logged ≤ relay.authority.log.length) :
    Entitled relay' process arrival last admission account where
  recorded := hnext.admissions_subset h.recorded
  connection := h.connection
  arrived := h.arrived
  read := h.read
  ticket := by
    rw [hnext.between_eq _ hlast, hnext.between_eq _ hlast]
    exact h.ticket

theorem Entitled.later {relay : Relay crypto} {process : Process} {arrival : Arrival}
    {last last' : Moment} {admission : Connections.Admission} {account : Text}
    (h : Entitled relay process arrival last admission account) (hlater : last.Until last') :
    Entitled relay process arrival last' admission account where
  recorded := h.recorded
  connection := h.connection
  arrived := h.arrived
  read := h.read.trans hlater.clock
  ticket := by
    obtain ⟨marker, grantedUntil, huntil, haccount, hcase⟩ := h.ticket
    refine ⟨marker, grantedUntil, huntil, haccount, hcase.imp ?_ ?_⟩
    · exact fun ⟨hnone, hbefore, hmem⟩ ↦ ⟨hnone, hbefore, between_subset relay _ hlater hmem⟩
    · exact fun ⟨hsome, hmem⟩ ↦ ⟨hsome, between_subset relay _ hlater hmem⟩

section Admit

variable {relay : Relay crypto} {process : Process} {arrival : Arrival} {connection : Connection}
  {account : Text} {expires : Option ℤ}
  (hsince : Since process.start.logged relay) (harrived : arrival.moment.Until (now relay))
include harrived

include hsince in
/-- A request that is admitted by the standing deadline of its connection. -/
theorem entitled_decided (hmode : relay.authority.policy.mode = .groups)
    (hconnection : relay.connections[arrival.connection]? = some connection)
    (h : (relay.decision connection arrival.request.headers).2 = .admitted account expires) :
    Entitled (relay.decided arrival.connection connection arrival.request.headers) process arrival
      (now relay) ⟨arrival.connection, relay.authority.clock, connection.auth.authorizedUntil, none⟩
      account := by
  have hdecision : relay.decision connection arrival.request.headers =
      (some (connection.auth.decide relay.authority.clock arrival.request.headers).1,
        (connection.auth.decide relay.authority.clock arrival.request.headers).2) := by
    rw [Relay.decision, hmode, authorize_groups]
  have hdecide : (connection.auth.decide relay.authority.clock arrival.request.headers).2 =
      .admitted account expires := by
    rwa [hdecision] at h
  have hstanding := Authorization.decide_admitted hdecide
  have haddress : account = connection.auth.address := by
    unfold Authorization.decide at hdecide
    split_ifs at hdecide
    cases hdecide
    rfl
  obtain ⟨deadline, hdeadline, hbefore⟩ := (Option.any_eq_true _ _).mp hstanding
  rcases hsince.connections connection (List.mem_of_getElem? hconnection) with
    ⟨hnone, -⟩ | ⟨marker, grantedUntil, hlogged, huntil, hticket⟩
  · rw [hnone] at hdeadline
    cases hdeadline
  · have heq : deadline = grantedUntil := Option.some.inj (hdeadline.symm.trans huntil)
    have hlog : (relay.decided arrival.connection connection
        arrival.request.headers).authority.log = relay.authority.log := by
      simp only [Relay.decided, h]
    refine ⟨?_, rfl, harrived.clock, le_rfl, marker, grantedUntil, huntil, haddress.trans hticket,
      Or.inl ⟨rfl, heq ▸ hbefore, ?_⟩⟩
    · simp only [Relay.decided, h]
      exact List.mem_append_right _ (List.mem_singleton_self _)
    · rw [between_now hlog]
      exact hlogged

/-- A request that is admitted by the ticket it came with. -/
theorem entitled_settled {i : ℕ} {grant : Option (Marker × Time)}
    (hthread : relay.authority.threads[i]? = some (.returned grant))
    (hreturned : ReturnedAfter arrival.moment.logged i relay.authority)
    (h : (settle crypto connection.auth grant).2 = .admitted account expires) :
    Entitled (relay.settled arrival.connection i connection grant) process arrival (now relay)
      ⟨arrival.connection, relay.authority.clock, grant.map Prod.snd, grant.map Prod.fst⟩
      account := by
  cases grant with
  | none => cases h
  | some granted =>
    obtain ⟨marker, grantedUntil⟩ := granted
    cases h
    have hlogged := hreturned marker grantedUntil hthread
    refine ⟨List.mem_append_right _ (List.mem_singleton_self _), rfl, harrived.clock, le_rfl,
      marker, grantedUntil, rfl, rfl, Or.inr ⟨rfl, ?_⟩⟩
    have hlog : (relay.settled arrival.connection i connection
        (some (marker, grantedUntil))).authority.log = relay.authority.log :=
      List.append_nil _
    rw [between_now hlog]
    exact hlogged

end Admit

/-! ### What a handler may do -/

/-- The target of a request, under the source of its account. -/
structure Cleared (libraries : Libraries) (relay : Relay crypto) (process : Process)
    (arrival : Arrival) (last : Moment) (target : Endpoint) (source : Text)
    (admission : Connections.Admission) : Prop where
  verdict : review libraries process.targets arrival.request = .accepted target
  account : ∃ account, Entitled relay process arrival last admission account ∧
    source = "account:".toList ++ account

/-- What a stage of a handler rests on at a moment. -/
def Stage.Rests (libraries : Libraries) (relay : Relay crypto) (process : Process)
    (arrival : Arrival) (last : Moment) : Stage → Prop
  | .redeeming i => ReturnedAfter arrival.moment.logged i relay.authority
  | .authorized account admission => Entitled relay process arrival last admission account
  | .accepted target source admission | .acquired target source admission
  | .tunnelling target source admission =>
    Cleared libraries relay process arrival last target source admission
  | _ => True

section Rests

variable {relay relay' : Relay crypto} {process : Process} {arrival : Arrival}

theorem Cleared.next {last : Moment} {target : Endpoint} {source : Text}
    {admission : Connections.Admission}
    (h : Cleared libraries relay process arrival last target source admission)
    (hnext : Next codec relay relay') (hlast : last.logged ≤ relay.authority.log.length) :
    Cleared libraries relay' process arrival last target source admission := by
  obtain ⟨account, hentitled, hsource⟩ := h.account
  exact ⟨h.verdict, account, hentitled.next hnext hlast, hsource⟩

theorem Cleared.now_next {target : Endpoint} {source : Text} {admission : Connections.Admission}
    (h : Cleared libraries relay process arrival (now relay) target source admission)
    (hnext : Next codec relay relay') :
    Cleared libraries relay' process arrival (now relay') target source admission := by
  obtain ⟨account, hentitled, hsource⟩ := h.account
  exact ⟨h.verdict, account, (hentitled.next hnext le_rfl).later hnext.now_until, hsource⟩

theorem Stage.Rests.next {stage : Stage}
    (h : stage.Rests libraries relay process arrival (now relay)) (hnext : Next codec relay relay')
    (harrived : arrival.moment.Until (now relay)) :
    stage.Rests libraries relay' process arrival (now relay') := by
  cases stage with
  | redeeming i =>
    rcases hnext with rfl | hstep
    · exact h
    · rcases hstep.authority with heq | hauthority
      · change ReturnedAfter _ _ _
        rw [heq]
        exact h
      · exact returnedAfter_of_step hauthority harrived.logged h
  | authorized account admission =>
    exact (Entitled.next h hnext le_rfl).later hnext.now_until
  | accepted | acquired | tunnelling => exact Cleared.now_next h hnext
  | _ => trivial

/-- A decision on the authorization of a request. -/
theorem Stage.rests_ofDecision {call : ℕ} {admission : Connections.Admission} {decision : Decision}
    (h : ∀ account expires, decision = .admitted account expires →
      Entitled relay process arrival (now relay) admission account)
    (hcall : decision = .redeeming → ReturnedAfter arrival.moment.logged call relay.authority) :
    (Stage.ofDecision call admission decision).Rests libraries relay process arrival
      (now relay) := by
  cases decision with
  | admitted account expires => exact h account expires rfl
  | redeeming => exact hcall rfl
  | _ => trivial

end Rests

theorem Stage.slot_ofDecision (call : ℕ) (admission : Connections.Admission)
    (decision : Decision) : (Stage.ofDecision call admission decision).slot = none := by
  cases decision <;> rfl

/-- The request has come to this process, and its stage has what it rests on. -/
structure Handler.Sound (libraries : Libraries) (relay : Relay crypto) (process : Process)
    (handler : Handler) : Prop where
  started : process.start.Until handler.arrival.moment
  arrived : handler.arrival.moment.Until (now relay)
  stage : handler.stage.Rests libraries relay process handler.arrival (now relay)

theorem Handler.Sound.next {relay relay' : Relay crypto} {process : Process} {handler : Handler}
    (h : handler.Sound libraries relay process) (hnext : Next codec relay relay') :
    handler.Sound libraries relay' process :=
  ⟨h.started, h.arrived.trans hnext.now_until, h.stage.next hnext h.arrived⟩

/-- A socket was opened by the process that its request had come to, and has what it rests on. -/
structure Dial.Sound (libraries : Libraries) (relay : Relay crypto) (dial : Dial) : Prop where
  started : dial.process.start.Until dial.arrival.moment
  arrived : dial.arrival.moment.Until dial.moment
  past : dial.moment.Until (now relay)
  cleared : Cleared libraries relay dial.process dial.arrival dial.moment dial.target dial.source
    dial.admission

namespace Service

/-- The places of the handlers: each is taken under the source of a session slot or free. -/
def places (service : Service crypto) : List (Option Text) :=
  service.handlers.map fun handler ↦ handler.stage.slot

/-- Holds in every reachable state: what every handler has passed is on record, every socket was
dialled by such a handler, and the places taken are those of the tunnels. -/
structure Sound (libraries : Libraries) (service : Service crypto) : Prop where
  relay : RelaySound service.relay
  since : Since service.process.start.logged service.relay
  started : service.process.start.Until (now service.relay)
  handlers : ∀ handler ∈ service.handlers,
    handler.Sound libraries service.relay service.process
  dials : ∀ dial ∈ service.dials, dial.Sound libraries service.relay
  sessions : service.sessions.Ok (taken service.places)

section Steps

variable {service service' : Service crypto} {j : ℕ} {handler : Handler}

theorem sessions_put (h : service.Sound libraries) (hhandler : service.handlers[j]? = some handler)
    {stage : Stage} (hslot : stage.slot = handler.stage.slot) :
    service.sessions.Ok (taken (service.put j handler stage).places) := by
  rw [places, put, map_set_of_eq _ hhandler hslot]
  exact h.sessions

theorem Sound.relay_next (h : service.Sound libraries) {relay : Relay crypto}
    (hnext : Next codec service.relay relay) :
    RelaySound relay ∧ Since service.process.start.logged relay := by
  rcases hnext with rfl | hstep
  · exact ⟨h.relay, h.since⟩
  · exact ⟨hstep.sound h.relay, hstep.since h.relay.mode h.started.logged h.since⟩

theorem Sound.dials_next (h : service.Sound libraries) {relay : Relay crypto}
    (hnext : Next codec service.relay relay) :
    ∀ dial ∈ service.dials, dial.Sound libraries relay := by
  intro dial hdial
  have hsound := h.dials dial hdial
  exact ⟨hsound.started, hsound.arrived, hsound.past.trans hnext.now_until,
    hsound.cleared.next hnext hsound.past.logged⟩

/-- A handler moves on. Assumes: its new stage rests on what the relay has become. -/
theorem Sound.move (h : service.Sound libraries) {relay : Relay crypto}
    (hnext : Next codec service.relay relay) (hhandler : service.handlers[j]? = some handler)
    (stage : Stage)
    (hstage : stage.Rests libraries relay service.process handler.arrival (now relay))
    {sessions : Sessions} (hsessions : sessions.Ok (taken (service.put j handler stage).places)) :
    Sound libraries { service.put j handler stage with relay := relay, sessions := sessions } := by
  have hrests := (h.handlers handler (List.mem_of_getElem? hhandler)).next hnext
  exact {
    relay := (h.relay_next hnext).1
    since := (h.relay_next hnext).2
    started := h.started.trans hnext.now_until
    handlers := forall_mem_set (fun other hother ↦ (h.handlers other hother).next hnext)
      ⟨hrests.started, hrests.arrived, hstage⟩
    dials := h.dials_next hnext
    sessions := hsessions }

theorem place_of_stage (hhandler : service.handlers[j]? = some handler) {place : Option Text}
    (hslot : handler.stage.slot = place) : service.places[j]? = some place := by
  rw [places, List.getElem?_map, hhandler, ← hslot]
  rfl

/-- The handler has taken a slot, or the answer is that the relay is full. -/
theorem Sound.acquire (h : service.Sound libraries)
    (hhandler : service.handlers[j]? = some handler) {target : Endpoint} {source : Text}
    {admission : Connections.Admission}
    (hstage : handler.stage = .accepted target source admission) :
    (service.sessions.acquire source).1.Ok (taken (service.put j handler
      (.ofAcquire target source admission (service.sessions.acquire source).2)).places) := by
  have hfree : handler.stage.slot = none := by rw [hstage]; rfl
  cases hacquired : (service.sessions.acquire source).2 with
  | true =>
    have hplaces : (service.put j handler (.acquired target source admission)).places =
        service.places.set j (some source) := List.map_set
    rw [Stage.ofAcquire, hplaces, taken_set_some (place_of_stage hhandler hfree)]
    exact h.sessions.acquire hacquired
  | false =>
    rw [Sessions.acquire_eq_of_refused hacquired]
    exact sessions_put h hhandler hfree.symm

/-- The handler gives its slot back. -/
theorem Sound.release (h : service.Sound libraries)
    (hhandler : service.handlers[j]? = some handler) {source : Text} {response : Option Response}
    (hstage : handler.stage = .leaving source response) :
    (service.sessions.release source).Ok
      (taken (service.put j handler (.returned response)).places) := by
  have htaken : handler.stage.slot = some source := by rw [hstage]; rfl
  have hplaces : (service.put j handler (.returned response)).places =
      service.places.set j none := List.map_set
  have hsessions := h.sessions
  rw [taken_set_free (place_of_stage hhandler htaken), ← hplaces] at hsessions
  exact hsessions.release

/-- Assumes: a redeem call that has just been made. -/
theorem returnedAfter_called {relay : Relay crypto} {arrival : Arrival} {connection : Connection}
    (hredeeming : (relay.decision connection arrival.request.headers).2 = .redeeming) (n : ℕ) :
    ReturnedAfter n relay.authority.threads.length
      (relay.decided arrival.connection connection arrival.request.headers).authority := by
  intro marker grantedUntil hthread
  simp [Relay.decided, hredeeming, World.called] at hthread

theorem Step.sound (hstep : Step codec libraries service service')
    (h : service.Sound libraries) : service'.Sound libraries := by
  have hnext : Next codec service.relay service'.relay := hstep.relay
  -- What a handler rests on at its stage.
  have hrests : ∀ {j : ℕ} {handler : Handler} {stage : Stage},
      service.handlers[j]? = some handler → handler.stage = stage →
      stage.Rests libraries service.relay service.process handler.arrival (now service.relay) := by
    rintro j handler stage hhandler rfl
    exact (h.handlers handler (List.mem_of_getElem? hhandler)).stage
  have harrived : ∀ {j : ℕ} {handler : Handler}, service.handlers[j]? = some handler →
      handler.arrival.moment.Until (now service.relay) :=
    fun hhandler ↦ (h.handlers _ (List.mem_of_getElem? hhandler)).arrived
  cases hstep with
  | background relay hbackground =>
    exact ⟨(h.relay_next hnext).1, (h.relay_next hnext).2, h.started.trans hnext.now_until,
      fun handler hhandler ↦ (h.handlers handler hhandler).next hnext, h.dials_next hnext,
      h.sessions⟩
  | restart policy hmode targets maxSessions =>
    refine ⟨(h.relay_next hnext).1, ⟨fun i marker grantedUntil hthread ↦ ?_, by simp⟩,
      Moment.Until.refl _, by simp, h.dials_next hnext, Sessions.ok_start maxSessions⟩
    have hopening := List.mem_of_getElem? hthread
    simp [World.restarted] at hopening
  | close => exact ⟨h.relay, h.since, h.started, h.handlers, h.dials, h.sessions.close⟩
  | arrive k request hk =>
    refine ⟨h.relay, h.since, h.started, ?_, h.dials, ?_⟩
    · simp only [List.forall_mem_append, List.forall_mem_singleton]
      exact ⟨h.handlers, h.started, Moment.Until.refl _, trivial⟩
    · simpa [places, Stage.slot] using h.sessions
  | authorize j handler connection hhandler hstage hserving hconnection hfree =>
    refine h.move hnext hhandler _ (Stage.rests_ofDecision (fun account expires hadmitted ↦ ?_)
      fun hredeeming ↦ returnedAfter_called hredeeming _) (sessions_put h hhandler ?_)
    · exact (entitled_decided h.since (harrived hhandler) h.relay.mode hconnection hadmitted).later
        hnext.now_until
    · rw [Stage.slot_ofDecision, hstage]
      rfl
  | settle j i handler connection grant hhandler hstage hconnection hbusy hthread =>
    refine h.move hnext hhandler _ (Stage.rests_ofDecision (fun account expires hadmitted ↦ ?_)
      fun hredeeming ↦ ?_) (sessions_put h hhandler ?_)
    · exact (entitled_settled (harrived hhandler) hthread (hrests hhandler hstage) hadmitted).later
        hnext.now_until
    · cases grant <;> cases hredeeming
    · rw [Stage.slot_ofDecision, hstage]
      rfl
  | review j handler account admission hhandler hstage =>
    have hentitled : Entitled service.relay service.process handler.arrival (now service.relay)
        admission account := hrests hhandler hstage
    have hsource : sessionSource libraries handler.arrival.request account =
        "account:".toList ++ account := if_pos hentitled.ne_nil
    cases hverdict : Egress.review libraries service.process.targets handler.arrival.request with
    | answered response =>
      exact h.move hnext hhandler (.returned _) trivial
        (sessions_put h hhandler (by rw [hstage]; rfl))
    | accepted target =>
      exact h.move hnext hhandler (.accepted target _ admission)
        ⟨hverdict, account, hentitled, hsource⟩ (sessions_put h hhandler (by rw [hstage]; rfl))
  | acquire j handler target source admission hhandler hstage =>
    have hcleared := hrests hhandler hstage
    refine h.move hnext hhandler _ ?_ (h.acquire hhandler hstage)
    cases (service.sessions.acquire source).2 with
    | true => exact hcleared
    | false => trivial
  | dial j handler target source admission hhandler hstage =>
    have hcleared : Cleared libraries service.relay service.process handler.arrival
        (now service.relay) target source admission := hrests hhandler hstage
    have hmoved := h.move hnext hhandler (.tunnelling target source admission) hcleared
      (sessions_put h hhandler (by rw [hstage]; rfl))
    refine ⟨hmoved.relay, hmoved.since, hmoved.started, hmoved.handlers, ?_, hmoved.sessions⟩
    simp only [List.forall_mem_append, List.forall_mem_singleton]
    exact ⟨h.dials, (h.handlers handler (List.mem_of_getElem? hhandler)).started,
      harrived hhandler, Moment.Until.refl _, hcleared⟩
  | dialFails j handler target source admission hhandler hstage =>
    exact h.move hnext hhandler (.leaving source _) trivial
      (sessions_put h hhandler (by rw [hstage]; rfl))
  | tunnelEnds j handler target source admission hhandler hstage =>
    exact h.move hnext hhandler (.leaving source _) trivial
      (sessions_put h hhandler (by rw [hstage]; rfl))
  | release j handler source response hhandler hstage =>
    exact h.move hnext hhandler (.returned response) trivial (h.release hhandler hstage)

end Steps

theorem sound_of_run {guard : Service crypto → Service crypto → Prop}
    {service service' : Service crypto} (hinitial : service.Initial)
    (hrun : Run (Step codec libraries) guard service service') : service'.Sound libraries := by
  refine hrun.invariant (Sound libraries) (fun _ _ hs hstep _ ↦ hstep.sound hs) ?_
  obtain ⟨maxSessions, hsessions⟩ := hinitial.sessions
  have hstart : Run (RelayStep codec) (fun _ _ ↦ True) service.relay service.relay := Run.refl _
  refine ⟨relaySound_of_run hinitial.relay hstart, since_of_initial hinitial.relay _,
    ?_, ?_, ?_, ?_⟩
  · rw [hinitial.start]
    exact Moment.Until.refl _
  · simp [hinitial.handlers]
  · simp [hinitial.dials]
  · rw [hsessions, places, hinitial.handlers]
    exact Sessions.ok_start maxSessions

/-! ### Open sockets -/

/-- The socket of every tunnel was opened for its handler, by this process. -/
def Opened (service : Service crypto) : Prop :=
  ∀ handler ∈ service.handlers, ∀ target source admission,
    handler.stage = .tunnelling target source admission → ∃ moment,
      ⟨handler.arrival, admission, target, source, service.process, moment⟩ ∈ service.dials

theorem Opened.put {service : Service crypto} (h : service.Opened) (j : ℕ) (handler : Handler)
    {stage : Stage}
    (hstage : ∀ target source admission, stage ≠ .tunnelling target source admission) :
    (service.put j handler stage).Opened :=
  forall_mem_set h fun target source admission heq ↦ absurd heq (hstage target source admission)

theorem Step.opened {service service' : Service crypto}
    (hstep : Step codec libraries service service') (h : service.Opened) : service'.Opened := by
  cases hstep with
  | background | close => exact h
  | restart => simp [Opened]
  | arrive k request hk =>
    simp only [Opened, List.forall_mem_append, List.forall_mem_singleton]
    exact ⟨h, fun _ _ _ heq ↦ by cases heq⟩
  | authorize j handler connection =>
    refine h.put j handler fun target source admission heq ↦ ?_
    cases hdecision : (service.relay.decision connection handler.arrival.request.headers).2 <;>
      simp [hdecision, Stage.ofDecision] at heq
  | settle j i handler connection grant =>
    refine h.put j handler fun target source admission heq ↦ ?_
    cases hdecision : (Access.settle crypto connection.auth grant).2 <;>
      simp [hdecision, Stage.ofDecision] at heq
  | review j handler account =>
    refine h.put j handler fun target source admission heq ↦ ?_
    cases hverdict : Egress.review libraries service.process.targets handler.arrival.request <;>
      simp [hverdict, Stage.ofVerdict] at heq
  | acquire j handler target source =>
    refine h.put j handler fun target' source' admission heq ↦ ?_
    cases hacquired : (service.sessions.acquire source).2 <;>
      simp [hacquired, Stage.ofAcquire] at heq
  | dial j handler target source admission hhandler hstage =>
    refine forall_mem_set (fun other hother target' source' admission' heq ↦ ?_)
      fun target' source' admission' heq ↦ ?_
    · obtain ⟨moment, hmem⟩ := h other hother target' source' admission' heq
      exact ⟨moment, List.mem_append_left _ hmem⟩
    · simp only [Stage.tunnelling.injEq] at heq
      obtain ⟨rfl, rfl, rfl⟩ := heq
      exact ⟨_, List.mem_append_right _ (List.mem_singleton_self _)⟩
  | dialFails | tunnelEnds | release => exact h.put _ _ fun _ _ _ heq ↦ by cases heq

end Service

/-! ### Sockets -/

def sampleRequest : ConnectRequest :=
  ⟨⟨[], [], [0]⟩, [], "CONNECT".toList, "connect-udp".toList, ['h'], none, [], []⟩

end QortalRelay.Egress
