import QortalRelay.Access.Authorization
import QortalRelay.Tickets.Issuance
import QortalRelay.Tickets.SingleUse

/-!
# Connections over the ticket authority

The relay in groups mode: any number of connections, each with its authorization and its lock, over
one ticket authority. A request that needs a ticket starts a redeem call of the authority, keeps the
lock of its connection while the call runs, and is settled with what the call returns. Seen through
its authority, every run of the relay is a run of the authority (`authority_of_run`).

Two results about whole runs follow. A ticket backs at most one connection whose deadline lies ahead
(`ticket_backs_one_connection`): at most one transaction spends it while its key lives, and a grant
from a later transaction has ended before it is returned. And no deadline goes beyond twelve hours
after the membership checks of its hour (`authorization_lifetime`).
-/

set_option autoImplicit false
set_option relaxedAutoImplicit false

namespace QortalRelay.Connections

open Foundation.Encoding Foundation.Store Foundation.Trace Access Tickets

/-! ### The machine -/

/-- What the relay keeps of a connection. -/
structure Connection where
  auth : Authorization
  /-- The redeem call that is waited for under the lock of the connection. -/
  busy : Option ℕ

/-- A request that was admitted: on which connection, at which reading, under which deadline of the
connection, and the ticket that its own redeem call returned. -/
structure Admission where
  connection : ℕ
  readAt : Time
  authorizedUntil : Option Time
  redeemed : Option Marker

/-- The ticket authority with the connections of the relay and a record of what they admitted. -/
structure Relay (crypto : Crypto) where
  authority : World crypto
  connections : List Connection
  /-- Read by nothing. -/
  admissions : List Admission

variable {crypto : Crypto} {codec : Codec}

/-- What is decided about a request on a connection, and what becomes of its authorization. -/
def Relay.decision (relay : Relay crypto) (connection : Connection) (headers : Headers) :
    Option Authorization × Decision :=
  authorize relay.authority.policy.mode relay.authority.clock headers (some connection.auth)

/-- The relay after the decision on a request, up to the redeem call. -/
def Relay.decided (relay : Relay crypto) (k : ℕ) (connection : Connection) (headers : Headers) :
    Relay crypto :=
  let auth := (relay.decision connection headers).1.getD connection.auth
  match (relay.decision connection headers).2 with
  | .admitted _ _ =>
    { relay with
      connections := relay.connections.set k ⟨auth, none⟩
      admissions := relay.admissions ++
        [⟨k, relay.authority.clock, connection.auth.authorizedUntil, none⟩] }
  | .refused _ _ => { relay with connections := relay.connections.set k ⟨auth, none⟩ }
  | .redeeming =>
    { relay with
      authority := relay.authority.called (.redeeming headers.ticket)
      connections := relay.connections.set k ⟨auth, some relay.authority.threads.length⟩ }

/-- The relay after a redeem call has returned to its request. -/
def Relay.settled (relay : Relay crypto) (k i : ℕ) (connection : Connection)
    (grant : Option (Marker × Time)) : Relay crypto where
  authority := relay.authority.moved i relay.authority.shared (.finished, [])
  connections := relay.connections.set k ⟨(settle crypto connection.auth grant).1, none⟩
  admissions := relay.admissions ++ (grant.map fun (marker, grantedUntil) ↦
    (⟨k, relay.authority.clock, some grantedUntil, some marker⟩ : Admission)).toList

/-- A step of the relay: the clock goes on, the process starts again, the authority makes a step, a
connection is accepted, or a request on one is decided. -/
inductive RelayStep (codec : Codec) (relay : Relay crypto) : Relay crypto → Prop
  | tick (reading : Time) (hmono : relay.authority.clock.mono ≤ reading.mono)
      (hsane : reading.Plausible) :
      RelayStep codec relay
        { relay with authority := { relay.authority with clock := reading } }
  /-- A restart in groups mode ends all connections. -/
  | restart (policy : Policy) (hmode : policy.mode = .groups) :
      RelayStep codec relay
        { relay with authority := relay.authority.restarted policy, connections := [] }
  | request (request : Request) (hserving : relay.authority.isServing)
      (hslot : relay.authority.threads.countP Thread.holdsSlot < 8) :
      RelayStep codec relay { relay with authority := relay.authority.called (.received request) }
  | crowded (hserving : relay.authority.isServing)
      (hslot : 8 ≤ relay.authority.threads.countP Thread.holdsSlot) :
      RelayStep codec relay { relay with
        authority := { relay.authority with
          log := relay.authority.log ++ [.refused ⟨429, .rateLimited⟩] } }
  | act (i : ℕ) (thread : Thread crypto.Key) (shared : Shared crypto.Key)
      (next : Thread crypto.Key × List Event)
      (hthread : relay.authority.threads[i]? = some thread)
      (hreturned : ∀ grant, thread ≠ .returned grant)
      (hact : Act crypto codec relay.authority.policy relay.authority.clock i
        relay.authority.log.length relay.authority.shared thread shared next) :
      RelayStep codec relay { relay with authority := relay.authority.moved i shared next }
  | accept (hserving : relay.authority.isServing) :
      RelayStep codec relay
        { relay with connections := relay.connections ++ [⟨.fresh, none⟩] }
  | decide (k : ℕ) (connection : Connection) (headers : Headers)
      (hserving : relay.authority.isServing)
      (hconnection : relay.connections[k]? = some connection) (hfree : connection.busy = none) :
      RelayStep codec relay (relay.decided k connection headers)
  | settle (k i : ℕ) (connection : Connection) (grant : Option (Marker × Time))
      (hconnection : relay.connections[k]? = some connection) (hbusy : connection.busy = some i)
      (hthread : relay.authority.threads[i]? = some (.returned grant)) :
      RelayStep codec relay (relay.settled k i connection grant)

/-- A relay that starts in groups mode, on a database that has just been created. -/
structure RelayInitial (relay : Relay crypto) : Prop where
  authority : Initial relay.authority
  mode : relay.authority.policy.mode = .groups
  connections : relay.connections = []
  admissions : relay.admissions = []

/-- The wall clock does not go backwards in a step. -/
def RelayForward (relay relay' : Relay crypto) : Prop :=
  WallForward relay.authority relay'.authority

/-! ### The authority inside the relay -/

/-- A step of the relay is a step of its authority, or leaves it alone. -/
theorem RelayStep.authority {relay relay' : Relay crypto} (hstep : RelayStep codec relay relay') :
    relay'.authority = relay.authority ∨ Step codec relay.authority relay'.authority := by
  cases hstep with
  | tick reading hmono hsane => exact Or.inr (.tick reading hmono hsane)
  | restart policy hmode => exact Or.inr (.restart policy)
  | request request hserving hslot => exact Or.inr (.request request hserving hslot)
  | crowded hserving hslot => exact Or.inr (.crowded hserving hslot)
  | act i thread shared next hthread hreturned hact =>
    exact Or.inr (.act i thread shared next hthread hact)
  | accept hserving => exact Or.inl rfl
  | decide k connection headers hserving hconnection hfree =>
    simp only [Relay.decided]
    split
    · exact Or.inl rfl
    · exact Or.inl rfl
    · exact Or.inr (.redeem headers.ticket hserving)
  | settle k i connection grant hconnection hbusy hthread =>
    exact Or.inr (.act i _ _ _ hthread (.collect grant))

theorem authority_of_run {relay relay' : Relay crypto}
    (hrun : Run (RelayStep codec) RelayForward relay relay') :
    Run (Step codec) WallForward relay.authority relay'.authority := by
  refine hrun.project Relay.authority fun s t hstep hforward ↦ ?_
  exact hstep.authority.imp_right fun h ↦ ⟨h, hforward⟩

/-- The log only grows. -/
theorem log_prefix_of_step {w w' : World crypto} (hstep : Step codec w w') : w.log <+: w'.log := by
  cases hstep with
  | crowded hserving hslot => exact List.prefix_append _ _
  | act i thread shared next hthread hact => exact List.prefix_append _ _
  | _ => exact List.prefix_refl _

theorem RelayStep.log_prefix {relay relay' : Relay crypto} (hstep : RelayStep codec relay relay') :
    relay.authority.log <+: relay'.authority.log := by
  rcases hstep.authority with heq | hauthority
  · rw [heq]
  · exact log_prefix_of_step hauthority

theorem RelayStep.log_subset {relay relay' : Relay crypto} (hstep : RelayStep codec relay relay') :
    relay.authority.log ⊆ relay'.authority.log :=
  hstep.log_prefix.subset

/-! ### What a redeem call has returned is in the log -/

/-- What a call has returned was recorded after the first entries of the log. -/
def ReturnedAfter (n i : ℕ) (w : World crypto) : Prop :=
  ∀ marker grantedUntil, w.threads[i]? = some (.returned (some (marker, grantedUntil))) →
    Event.redeemed marker grantedUntil ∈ w.log.drop n

theorem ne_returned_of_isInert {Key : Type} {thread : Thread Key} (h : thread.isInert)
    (marker : Marker) (grantedUntil : Time) :
    thread ≠ .returned (some (marker, grantedUntil)) := by
  rintro rfl
  cases h

theorem act_returned {policy : Policy} {now : Time} {i since : ℕ}
    {shared shared' : Shared crypto.Key} {thread : Thread crypto.Key}
    {next : Thread crypto.Key × List Event}
    (hact : Act crypto codec policy now i since shared thread shared' next) {marker : Marker}
    {grantedUntil : Time} (hnext : next.1 = .returned (some (marker, grantedUntil))) :
    Event.redeemed marker grantedUntil ∈ next.2 := by
  have hresume : ∀ start descriptor key caller,
      (resumeOk crypto codec policy now start descriptor key caller).1 ≠
        .returned (some (marker, grantedUntil)) := by
    intro start descriptor key caller heq
    rcases resumeOk_cases crypto codec policy now start descriptor key caller with
      hinert | ⟨_, _, _, -, -, hout⟩ | ⟨_, -, hout⟩
    · exact ne_returned_of_isInert hinert.1 _ _ heq
    · simp [hout] at heq
    · simp [hout] at heq
  cases hact with
  | readSecond kept first =>
    simp only [Thread.returned.injEq, Option.some.injEq, Prod.mk.injEq] at hnext
    obtain ⟨rfl, rfl⟩ := hnext
    exact List.mem_singleton_self _
  | found | persisted => exact absurd hnext (hresume _ _ _ _)
  | enterRefused | updateRefused | lookupRefused | describeFailed =>
    exact absurd hnext (ne_returned_of_isInert (inert_resumeError _).1 _ _)
  | compare => exact absurd hnext (ne_returned_of_isInert (inert_compare _ _ _ _ _).1 _ _)
  | asked => exact absurd hnext (ne_returned_of_isInert (inert_weigh _ _).1 _ _)
  | rechecked application sent result =>
    exact absurd hnext (ne_returned_of_isInert (inert_judge application result).1 _ _)
  | _ => cases hnext

/-- Assumes: no more entries than there are. -/
theorem returnedAfter_of_step {w w' : World crypto} (hstep : Step codec w w') {n i : ℕ}
    (hn : n ≤ w.log.length) (h : ReturnedAfter n i w) : ReturnedAfter n i w' := by
  have hkept : ∀ marker grantedUntil,
      w.threads[i]? = some (.returned (some (marker, grantedUntil))) →
        Event.redeemed marker grantedUntil ∈ w'.log.drop n :=
    fun marker grantedUntil hthread ↦
      ((log_prefix_of_step hstep).drop n).subset (h marker grantedUntil hthread)
  intro marker grantedUntil hthread'
  cases hstep with
  | tick reading hmono hsane => exact h marker grantedUntil hthread'
  | restart policy =>
    have hopening := List.mem_of_getElem? hthread'
    simp [World.restarted] at hopening
  | request request hserving hslot | redeem raw hserving =>
    rcases getElem?_snoc_cases hthread' with hold | ⟨-, hnew⟩
    · exact hkept marker grantedUntil hold
    · cases hnew
  | crowded hserving hslot => exact hkept marker grantedUntil hthread'
  | act j thread shared next hthread hact =>
    rcases getElem?_set_cases hthread' with ⟨-, hnew⟩ | ⟨-, hold⟩
    · rw [World.moved, List.drop_append_of_le_length hn]
      exact List.mem_append_right _ (act_returned hact hnew.symm)
    · exact hkept marker grantedUntil hold

/-! ### Connections and admissions -/

/-- A deadline comes from a ticket that was redeemed, and so does the address. -/
def ConnectionOk (crypto : Crypto) (log : List Event) (connection : Connection) : Prop :=
  (connection.auth.authorizedUntil = none ∧ connection.auth.address = []) ∨
    ∃ marker grantedUntil, Event.redeemed marker grantedUntil ∈ log ∧
      connection.auth.authorizedUntil = some grantedUntil ∧
      connection.auth.address = ticketAddress (ticketId crypto marker.message)

/-- A request was admitted before the deadline of its connection, or with a ticket of its own. -/
def AdmissionOk (log : List Event) (admission : Admission) : Prop :=
  (∃ deadline, admission.authorizedUntil = some deadline ∧ admission.readAt.before deadline) ∨
    ∃ marker grantedUntil, admission.redeemed = some marker ∧
      admission.authorizedUntil = some grantedUntil ∧ Event.redeemed marker grantedUntil ∈ log

theorem ConnectionOk.mono {log log' : List Event} (hsub : log ⊆ log') {connection : Connection}
    (h : ConnectionOk crypto log connection) : ConnectionOk crypto log' connection := by
  refine h.imp_right ?_
  rintro ⟨marker, grantedUntil, hmem, hrest⟩
  exact ⟨marker, grantedUntil, hsub hmem, hrest⟩

theorem AdmissionOk.mono {log log' : List Event} (hsub : log ⊆ log') {admission : Admission}
    (h : AdmissionOk log admission) : AdmissionOk log' admission := by
  refine h.imp_right ?_
  rintro ⟨marker, grantedUntil, hredeemed, hdeadline, hmem⟩
  exact ⟨marker, grantedUntil, hredeemed, hdeadline, hsub hmem⟩

/-- What the redeem calls have returned, and what the deadlines of the connections come from, was
recorded after the first entries of the log. -/
structure Since (n : ℕ) (relay : Relay crypto) : Prop where
  returned : ∀ i, ReturnedAfter n i relay.authority
  connections : ∀ connection ∈ relay.connections,
    ConnectionOk crypto (relay.authority.log.drop n) connection

/-- What holds in a relay in groups mode whatever the clock does. -/
structure RelaySound (relay : Relay crypto) : Prop where
  mode : relay.authority.policy.mode = .groups
  since : Since 0 relay
  admissions : ∀ admission ∈ relay.admissions, AdmissionOk relay.authority.log admission

/-- The decision keeps the deadline and the address, and admits before the deadline. -/
theorem decided_cases {relay : Relay crypto} (hmode : relay.authority.policy.mode = .groups)
    (k : ℕ) (connection : Connection) (headers : Headers) :
    ∃ auth busy, auth.authorizedUntil = connection.auth.authorizedUntil ∧
      auth.address = connection.auth.address ∧
      (relay.decided k connection headers).connections = relay.connections.set k ⟨auth, busy⟩ ∧
      ((relay.decided k connection headers).admissions = relay.admissions ∨
        connection.auth.standing relay.authority.clock ∧
        (relay.decided k connection headers).admissions = relay.admissions ++
          [⟨k, relay.authority.clock, connection.auth.authorizedUntil, none⟩]) := by
  obtain ⟨hdeadline, haddress⟩ := connection.auth.decide_keeps relay.authority.clock headers
  have hdecision : relay.decision connection headers =
      (some (connection.auth.decide relay.authority.clock headers).1,
        (connection.auth.decide relay.authority.clock headers).2) := by
    rw [Relay.decision, hmode, authorize_groups]
  simp only [Relay.decided, hdecision, Option.getD_some]
  split
  · rename_i address expires hverdict
    exact ⟨_, _, hdeadline, haddress, rfl,
      Or.inr ⟨Authorization.decide_admitted hverdict, rfl⟩⟩
  · exact ⟨_, _, hdeadline, haddress, rfl, Or.inl rfl⟩
  · exact ⟨_, _, hdeadline, haddress, rfl, Or.inl rfl⟩

/-- A connection whose redeem call has returned. -/
theorem connectionOk_settle {log : List Event} {connection : Connection}
    (h : ConnectionOk crypto log connection) {grant : Option (Marker × Time)}
    (hgrant : ∀ marker grantedUntil, grant = some (marker, grantedUntil) →
      Event.redeemed marker grantedUntil ∈ log) (busy : Option ℕ) :
    ConnectionOk crypto log ⟨(settle crypto connection.auth grant).1, busy⟩ := by
  cases grant with
  | none => exact h
  | some granted => exact Or.inr ⟨granted.1, granted.2, hgrant _ _ rfl, rfl, rfl⟩

/-- Assumes: groups mode, and no more entries than there are. -/
theorem RelayStep.since {relay relay' : Relay crypto} (hstep : RelayStep codec relay relay')
    (hmode : relay.authority.policy.mode = .groups) {n : ℕ} (hn : n ≤ relay.authority.log.length)
    (h : Since n relay) : Since n relay' := by
  have hreturned : ∀ i, ReturnedAfter n i relay'.authority := by
    intro i
    rcases hstep.authority with heq | hauthority
    · rw [heq]
      exact h.returned i
    · exact returnedAfter_of_step hauthority hn (h.returned i)
  have hconnections : ∀ connection ∈ relay.connections,
      ConnectionOk crypto (relay'.authority.log.drop n) connection :=
    fun connection hmem ↦ (h.connections connection hmem).mono (hstep.log_prefix.drop n).subset
  refine ⟨hreturned, ?_⟩
  cases hstep with
  | tick | request | crowded | act => exact hconnections
  | restart policy hmode => simp
  | accept hserving =>
    simp only [List.forall_mem_append, List.forall_mem_singleton]
    exact ⟨hconnections, Or.inl ⟨rfl, rfl⟩⟩
  | decide k connection headers hserving hconnection hfree =>
    obtain ⟨auth, busy, hdeadline, haddress, hset, -⟩ := decided_cases hmode k connection headers
    rw [hset]
    refine forall_mem_set hconnections ?_
    have hok := hconnections connection (List.mem_of_getElem? hconnection)
    unfold ConnectionOk at hok ⊢
    rwa [hdeadline, haddress]
  | settle k i connection grant hconnection hbusy hthread =>
    refine forall_mem_set hconnections (connectionOk_settle
      (hconnections connection (List.mem_of_getElem? hconnection)) ?_ _)
    rintro marker grantedUntil rfl
    have hlogged := h.returned i marker grantedUntil hthread
    simpa [Relay.settled, World.moved] using hlogged

theorem RelayStep.sound {relay relay' : Relay crypto} (hstep : RelayStep codec relay relay')
    (h : RelaySound relay) : RelaySound relay' := by
  have hsince := hstep.since h.mode (Nat.zero_le _) h.since
  have hadmissions : ∀ admission ∈ relay.admissions,
      AdmissionOk relay'.authority.log admission :=
    fun admission hmem ↦ (h.admissions admission hmem).mono hstep.log_subset
  cases hstep with
  | tick | request | crowded | act | accept => exact ⟨h.mode, hsince, hadmissions⟩
  | restart policy hmode => exact ⟨hmode, hsince, hadmissions⟩
  | decide k connection headers hserving hconnection hfree =>
    have hmode : (relay.decided k connection headers).authority.policy.mode = .groups := by
      simp only [Relay.decided]
      split <;> exact h.mode
    obtain ⟨auth, busy, -, -, -, hadmitted⟩ := decided_cases h.mode k connection headers
    refine ⟨hmode, hsince, ?_⟩
    rcases hadmitted with hsame | ⟨hstanding, hadmitted⟩
    · rwa [hsame]
    · rw [hadmitted]
      simp only [List.forall_mem_append, List.forall_mem_singleton]
      refine ⟨hadmissions, Or.inl ?_⟩
      rw [Authorization.standing, Option.any_eq_true] at hstanding
      exact hstanding
  | settle k i connection grant hconnection hbusy hthread =>
    refine ⟨h.mode, hsince, ?_⟩
    cases grant with
    | none => simpa [Relay.settled] using hadmissions
    | some granted =>
      have hlogged := h.since.returned i granted.1 granted.2 hthread
      simp only [Relay.settled, Option.map_some, Option.toList_some, List.forall_mem_append,
        List.forall_mem_singleton]
      exact ⟨hadmissions, Or.inr ⟨granted.1, granted.2, rfl, rfl,
        List.mem_append_left _ hlogged⟩⟩

theorem since_of_initial {relay : Relay crypto} (h : RelayInitial relay) (n : ℕ) :
    Since n relay := by
  refine ⟨fun i marker grantedUntil hthread ↦ ?_, by simp [h.connections]⟩
  have hopening := List.mem_of_getElem? hthread
  simp [h.authority.threads] at hopening

theorem relaySound_of_run {guard : Relay crypto → Relay crypto → Prop}
    {relay relay' : Relay crypto} (h : RelayInitial relay)
    (hrun : Run (RelayStep codec) guard relay relay') : RelaySound relay' := by
  refine hrun.invariant RelaySound (fun _ _ hs hstep _ ↦ hstep.sound hs)
    ⟨h.mode, since_of_initial h 0, ?_⟩
  simp [h.admissions]

/-! ### One live grant per ticket -/

section Grants

variable {epoch : ℤ} {id : Text}

/-- A redeem call that has spent a ticket of a kind and whose result was not taken yet. -/
def heldCount {Key : Type} (select : Marker → Bool) : Thread Key → ℕ
  | .timing marker | .lasting marker _ | .returned (some (marker, _)) =>
    if select marker then 1 else 0
  | _ => 0

/-- A connection with an address whose deadline lies ahead of the clock. -/
def liveCount (clock : Time) (address : Text) (connection : Connection) : ℕ :=
  if connection.auth.address = address ∧ connection.auth.standing clock then 1 else 0

theorem heldCount_of_isInert {Key : Type} {select : Marker → Bool} {thread : Thread Key}
    (h : thread.isInert) : heldCount select thread = 0 := by
  unfold Thread.isInert at h
  split at h <;> simp_all [heldCount]

/-- A move holds no ticket that it did not hold or spend. -/
theorem act_held (select : Marker → Bool) {policy : Policy} {now : Time} {i since : ℕ}
    {shared shared' : Shared crypto.Key} {thread : Thread crypto.Key}
    {next : Thread crypto.Key × List Event}
    (hact : Act crypto codec policy now i since shared thread shared' next) :
    heldCount select next.1 ≤ heldCount select thread + weight (spentCount select) next.2 := by
  have hresume : ∀ start descriptor key caller,
      heldCount select (resumeOk crypto codec policy now start descriptor key caller).1 = 0 := by
    intro start descriptor key caller
    rcases resumeOk_cases crypto codec policy now start descriptor key caller with
      hinert | ⟨_, _, _, -, -, hout⟩ | ⟨_, -, hout⟩
    · exact heldCount_of_isInert hinert.1
    · simp [hout, heldCount]
    · simp [hout, heldCount]
  cases hact with
  | found | persisted => simp [hresume]
  | enterRefused | updateRefused | lookupRefused | describeFailed =>
    simp [heldCount_of_isInert (inert_resumeError _).1]
  | drawFailed | crowdedOut | chargeRefused => simp [heldCount_of_isInert (inert_refuse _ _).1]
  | compare => simp [heldCount_of_isInert (inert_compare _ _ _ _ _).1]
  | asked => simp [heldCount_of_isInert (inert_weigh _ _).1]
  | rechecked application sent result =>
    simp [heldCount_of_isInert (inert_judge application result).1]
  | spend | readFirst | readSecond => simp [heldCount, spentCount]
  | _ => simp [heldCount]

/-- A deadline that lies ahead of a clock lay ahead of it before. -/
theorem liveCount_le {clock clock' : Time} (hclock : clock.mono ≤ clock'.mono) (address : Text)
    (connection : Connection) :
    liveCount clock' address connection ≤ liveCount clock address connection := by
  unfold liveCount
  split_ifs with hlater hnow
  · exact le_rfl
  · refine absurd ⟨hlater.1, ?_⟩ hnow
    obtain ⟨deadline, hdeadline, hbefore⟩ := (Option.any_eq_true _ _).mp hlater.2
    refine (Option.any_eq_true _ _).mpr ⟨deadline, hdeadline, ?_⟩
    simp only [Time.before, decide_eq_true_eq] at hbefore ⊢
    omega
  · exact Nat.zero_le _
  · exact le_rfl

/-- The connections that a ticket keeps alive, and the redeem calls that hold it, are covered by the
transactions that spent it while its key lived. -/
def GrantLaw (epoch : ℤ) (id : Text) (relay : Relay crypto) : Prop :=
  weight (heldCount (spentAlive crypto epoch id)) relay.authority.threads +
      weight (liveCount relay.authority.clock (ticketAddress id)) relay.connections ≤
    weight (spentCount (spentAlive crypto epoch id)) relay.authority.log

/-- Every redeemed ticket with the identifier is of the hour. -/
def OneHour (crypto : Crypto) (epoch : ℤ) (id : Text) (log : List Event) : Prop :=
  ∀ marker grantedUntil, Event.redeemed marker grantedUntil ∈ log →
    ticketId crypto marker.message = id → marker.descriptor.epoch = epoch

/-- Assumes: the result of a redeem call that was not taken yet. The connection that takes it is
alive only if it was, or if the ticket was spent while its key lived. -/
theorem liveCount_settle {w : World crypto} (connection : Connection)
    {grant : Option (Marker × Time)}
    (htimely : Timely w.clock (.returned grant : Thread crypto.Key))
    (hgrant : ∀ marker grantedUntil, grant = some (marker, grantedUntil) →
      Event.redeemed marker grantedUntil ∈ w.log) (hhour : OneHour crypto epoch id w.log) :
    liveCount w.clock (ticketAddress id) ⟨(settle crypto connection.auth grant).1, none⟩ ≤
      liveCount w.clock (ticketAddress id) connection +
        heldCount (spentAlive crypto epoch id) (.returned grant : Thread crypto.Key) := by
  cases grant with
  | none => exact Nat.le_add_right _ _
  | some granted =>
    obtain ⟨marker, grantedUntil⟩ := granted
    rw [liveCount]
    split_ifs with hlive
    · obtain ⟨haddress, hstanding⟩ := hlive
      have hid : ticketId crypto marker.message = id := ticketAddress_injective haddress
      have hepoch := hhour marker grantedUntil (hgrant marker grantedUntil rfl) hid
      have hbefore : w.clock.mono < grantedUntil.mono := by
        simpa [settle, Authorization.standing, Time.before] using hstanding
      have hended : GrantTimely w.clock marker grantedUntil := htimely
      have halive : marker.readAt.hour < epoch + 12 := by
        by_contra hlate
        have := hended.ended (by omega)
        omega
      have hselect : spentAlive crypto epoch id marker = true := by
        simp [spentAlive, hepoch, hid, halive]
      simp only [heldCount, hselect, if_true]
      omega
    · exact Nat.zero_le _

theorem RelayStep.grantLaw {relay relay' : Relay crypto} (hstep : RelayStep codec relay relay')
    (hsound : RelaySound relay) (htimely : AllTimely relay.authority)
    (hhour : OneHour crypto epoch id relay.authority.log) (h : GrantLaw epoch id relay) :
    GrantLaw epoch id relay' := by
  unfold GrantLaw at h ⊢
  cases hstep with
  | tick reading hmono hsane =>
    have hlive : weight (liveCount reading (ticketAddress id)) relay.connections ≤
        weight (liveCount relay.authority.clock (ticketAddress id)) relay.connections :=
      weight_mono fun connection _ ↦ liveCount_le hmono _ connection
    exact (Nat.add_le_add_left hlive _).trans h
  | restart policy hmode => simp [World.restarted, heldCount]
  | request request hserving hslot => simpa [World.called, heldCount] using h
  | crowded hserving hslot => simpa [spentCount] using h
  | act i thread shared next hthread hreturned hact =>
    have hmove := act_held (spentAlive crypto epoch id) hact
    have hpool := weight_set (heldCount (spentAlive crypto epoch id)) hthread next.1
    simp only [World.moved, weight_append]
    omega
  | accept hserving =>
    simpa [liveCount, Authorization.fresh, Authorization.standing] using h
  | decide k connection headers hserving hconnection hfree =>
    obtain ⟨auth, busy, hdeadline, haddress, hset, -⟩ :=
      decided_cases hsound.mode k connection headers
    have hlive : liveCount relay.authority.clock (ticketAddress id) ⟨auth, busy⟩ =
        liveCount relay.authority.clock (ticketAddress id) connection := by
      rw [liveCount, liveCount, haddress, Authorization.standing, Authorization.standing, hdeadline]
    have hpool := weight_set (liveCount relay.authority.clock (ticketAddress id)) hconnection
      ⟨auth, busy⟩
    have hkept : weight (liveCount relay.authority.clock (ticketAddress id))
        (relay.decided k connection headers).connections =
          weight (liveCount relay.authority.clock (ticketAddress id)) relay.connections := by
      rw [hset]
      omega
    have hauthority : (relay.decided k connection headers).authority.clock =
          relay.authority.clock ∧
        (relay.decided k connection headers).authority.log = relay.authority.log ∧
        weight (heldCount (spentAlive crypto epoch id))
            (relay.decided k connection headers).authority.threads =
          weight (heldCount (spentAlive crypto epoch id)) relay.authority.threads := by
      simp only [Relay.decided]
      split
      · exact ⟨rfl, rfl, rfl⟩
      · exact ⟨rfl, rfl, rfl⟩
      · exact ⟨rfl, rfl, by simp [World.called, heldCount]⟩
    rw [hauthority.1, hauthority.2.1, hauthority.2.2, hkept]
    exact h
  | settle k i connection grant hconnection hbusy hthread =>
    have hmem := List.mem_of_getElem? hthread
    have hlive := liveCount_settle connection (htimely.threads _ hmem)
      (fun marker grantedUntil heq ↦
        hsound.since.returned i marker grantedUntil (heq ▸ hthread)) hhour
    have hheld := weight_set (heldCount (spentAlive crypto epoch id)) hthread .finished
    have hpool := weight_set (liveCount relay.authority.clock (ticketAddress id)) hconnection
      ⟨(Access.settle crypto connection.auth grant).1, none⟩
    have hnone : heldCount (spentAlive crypto epoch id) (.finished : Thread crypto.Key) = 0 := rfl
    simp only [Relay.settled, World.moved, List.append_nil]
    omega

/-- Assumes: a forward wall clock, and one hour for the identifier. -/
theorem grantLaw_of_run {relay relay' : Relay crypto} (h : RelayInitial relay)
    (hrun : Run (RelayStep codec) RelayForward relay relay')
    (hhour : OneHour crypto epoch id relay'.authority.log) : GrantLaw epoch id relay' := by
  have hstart : GrantLaw epoch id relay := by
    simp [GrantLaw, h.authority.threads, h.connections, heldCount]
  refine (hrun.invariant (fun r ↦ Run (RelayStep codec) RelayForward relay r ∧
    (OneHour crypto epoch id r.authority.log → GrantLaw epoch id r))
    (fun s t hs hstep hst ↦ ⟨hs.1.snoc hstep hst, fun ht ↦ ?_⟩) ⟨.refl _, fun _ ↦ hstart⟩).2 hhour
  have hkept : OneHour crypto epoch id s.authority.log :=
    fun marker grantedUntil hmem ↦ ht marker grantedUntil (hstep.log_subset hmem)
  exact hstep.grantLaw (relaySound_of_run h hs.1)
    (timely_of_run (fun _ _ h ↦ h) h.authority (authority_of_run hs.1)).2 hkept (hs.2 hkept)

end Grants

/-! ### A request that is admitted with a ticket -/

/-- While the authority attends to requests to it, so does the relay. -/
theorem lift_run {w w' : World crypto} (relay : Relay crypto)
    (hrun : Run (Step codec) (Attends codec) w w') :
    Run (RelayStep codec) RelayForward { relay with authority := w }
      { relay with authority := w' } := by
  refine hrun.project (fun v ↦ { relay with authority := v }) fun s t _ hst ↦ Or.inr ?_
  rcases hst with ⟨i, thread, shared, next, hthread, hreturned, hact, rfl⟩ |
    ⟨request, hserving, hslot, rfl⟩ | ⟨reading, hlater, hsane, rfl⟩
  · exact ⟨.act i thread shared next hthread hreturned hact, le_rfl⟩
  · exact ⟨.request request hserving hslot, le_rfl⟩
  · exact ⟨.tick reading hlater.2 hsane, hlater.1⟩

def sampleRelay : Relay sampleCrypto := ⟨sampleWorld, [], []⟩

theorem relayInitial_sampleRelay : RelayInitial sampleRelay := ⟨initial_sampleWorld, rfl, rfl, rfl⟩

/-- What a redeem call that begins at a point of the log knows of the sample ticket. -/
def sampleMarkerAt (since : ℕ) : Marker := ⟨sampleDescriptor, sampleMessage, ⟨0, 0⟩, since⟩

def sampleDeadline : Time := deadline sampleDescriptor ⟨0, 0⟩ ⟨0, 0⟩

/-- The sample ticket redeemed on a first connection, in the hour of its key. -/
theorem connect_run {w : World sampleCrypto} (hidle : Idle w ()) (hclock : w.clock = ⟨0, 0⟩)
    (hpolicy : w.policy = samplePolicy) (hwf : w.shared.db.WellFormed)
    (hempty : w.shared.db.spent = .empty) : ∃ relay' deleted,
    Run (RelayStep sampleCodec) RelayForward ⟨w, [], []⟩ relay' ∧
    relay'.authority.clock = ⟨0, 0⟩ ∧
    relay'.authority.log = w.log ++ [.committed 0 false ⟨[], [], []⟩, .described w.log.length 0 0,
      .committed 0 false deleted, .spent (sampleMarkerAt w.log.length),
      .redeemed (sampleMarkerAt w.log.length) sampleDeadline] ∧
    relay'.connections = [⟨⟨some sampleDeadline,
      ticketAddress (ticketId sampleCrypto sampleMessage), 0⟩, none⟩] := by
  let relay : Relay sampleCrypto := ⟨w, [⟨.fresh, none⟩], []⟩
  have haccepted : Run (RelayStep sampleCodec) RelayForward ⟨w, [], []⟩ relay :=
    (Run.refl _).snoc (.accept hidle.serving) le_rfl
  -- The request asks for the redeem call.
  have hdecided : relay.decided 0 ⟨.fresh, none⟩ ⟨[], [], [0]⟩ =
      ⟨w.called (.redeeming [0]), [⟨⟨none, [], 1⟩, some w.threads.length⟩], []⟩ := by
    have hdecision : relay.decision ⟨.fresh, none⟩ ⟨[], [], [0]⟩ =
        (some ⟨none, [], 1⟩, .redeeming) := by
      rw [Relay.decision, show relay.authority.policy = samplePolicy from hpolicy]
      rfl
    simp only [Relay.decided, hdecision]
    simp [relay]
  have hcalled := haccepted.snoc (.decide 0 ⟨.fresh, none⟩ ⟨[], [], [0]⟩ hidle.serving rfl rfl)
    (by rw [hdecided]; exact le_rfl)
  rw [hdecided] at hcalled
  -- The redeem call runs to its end.
  have hchecked := verify_run hidle [0] rfl (by rw [hclock]; rfl) (verifyTicket_at hclock hpolicy)
  have hnone : (prune recordEpoch (w.clock.hour - 12) w.shared.db.spent).get
      (spentKey w.clock.hour (ticketId sampleCrypto sampleMessage)) = none := by
    rw [get_prune, hempty, Bucket.get_empty, ite_self]
  obtain ⟨deleted, htx⟩ := redeemTx_commits hwf hnone (by rw [hempty]; decide)
  have hspent := hchecked.trans (spend_run _ _ _ _ _ _ htx)
  rw [hclock, hpolicy] at hspent
  obtain ⟨shared, hreturned⟩ : ∃ shared, Run (Step sampleCodec) (Moves sampleCodec)
      (w.called (.redeeming [0])) (w.newest shared
        (.returned (some (sampleMarkerAt w.log.length, sampleDeadline)))
        [.committed 0 false ⟨[], [], []⟩, .described w.log.length 0 0,
          .committed 0 false deleted, .spent (sampleMarkerAt w.log.length),
          .redeemed (sampleMarkerAt w.log.length) sampleDeadline]) := ⟨_, hspent⟩
  have hsettled := (hcalled.trans (lift_run
    ⟨w, [⟨⟨none, [], 1⟩, some w.threads.length⟩], []⟩ (attends_run hreturned))).snoc
    (.settle 0 w.threads.length ⟨⟨none, [], 1⟩, some w.threads.length⟩
      (some (sampleMarkerAt w.log.length, sampleDeadline)) rfl rfl (by simp [World.newest])) le_rfl
  refine ⟨_, deleted, hsettled, hclock, ?_, rfl⟩
  simp [Relay.settled, World.moved, World.newest]

/-! ### A ticket backs one connection -/

/-- Assumes: a hash without collisions in the log. Redeemed tickets with one identifier are of one
hour. -/
theorem epoch_eq_of_ticketId_eq {log : List Event} (hsha : CollisionFree crypto codec log)
    (hlog : ∀ event ∈ log, EventOk crypto codec event) {first second : Marker}
    {until1 until2 : Time} (hfirst : .redeemed first until1 ∈ log)
    (hsecond : .redeemed second until2 ∈ log)
    (h : ticketId crypto first.message = ticketId crypto second.message) :
    first.descriptor.epoch = second.descriptor.epoch := by
  have hmessage : first.message = second.message :=
    hsha ⟨_, hfirst, Or.inl rfl⟩ ⟨_, hsecond, Or.inl rfl⟩ (hexEncode_injective h)
  exact epoch_eq_of_message_eq hsha hlog hfirst hsecond (Or.inr ⟨until1, rfl⟩)
    (Or.inr ⟨until2, rfl⟩) hmessage

/-- A ticket backs one connection. Assumes: a hash without collisions in the run and a wall clock
that never goes backwards. In every state that is reached, at most one connection with the address
of a ticket has its deadline ahead of the clock; and every request that was admitted was admitted
before the deadline of its connection, or its own redeem call had succeeded. -/
theorem ticket_backs_one_connection {relay relay' : Relay crypto}
    (hsha : CollisionFree crypto codec relay'.authority.log) (hinitial : RelayInitial relay)
    (hrun : Run (RelayStep codec) RelayForward relay relay') :
    (∀ (id : Text) (j k : ℕ) (first second : Connection), relay'.connections[j]? = some first →
      relay'.connections[k]? = some second → first.auth.address = ticketAddress id →
      second.auth.address = ticketAddress id → first.auth.standing relay'.authority.clock →
      second.auth.standing relay'.authority.clock → j = k) ∧
    ∀ admission ∈ relay'.admissions,
      (∃ deadline, admission.authorizedUntil = some deadline ∧
        admission.readAt.before deadline) ∨
      ∃ marker grantedUntil, admission.redeemed = some marker ∧
        admission.authorizedUntil = some grantedUntil ∧
        Event.redeemed marker grantedUntil ∈ relay'.authority.log := by
  have hsound := relaySound_of_run hinitial hrun
  have hrun' := authority_of_run hrun
  have hlog := (sound_of_run hinitial.authority hrun').log
  refine ⟨?_, hsound.admissions⟩
  intro id j k first second hj hk haddress1 haddress2 hstanding1 hstanding2
  by_contra hne
  rcases hsound.since.connections first (List.mem_of_getElem? hj) with ⟨-, hnone⟩ |
    ⟨marker, grantedUntil, hmem, -, haddress⟩
  · exact ticketAddress_ne_nil id (haddress1.symm.trans hnone)
  · have hid : ticketId crypto marker.message = id :=
      ticketAddress_injective (haddress.symm.trans haddress1)
    have hhour : OneHour crypto marker.descriptor.epoch id relay'.authority.log := by
      intro other otherUntil hother hotherId
      exact epoch_eq_of_ticketId_eq hsha hlog hother hmem (hotherId.trans hid.symm)
    obtain ⟨policy, ⟨hrange, -⟩, -⟩ := hlog _ hmem
    have hgrants := grantLaw_of_run hinitial hrun hhour
    have honce := (spentLaw_of_run (fun _ _ h ↦ h) hinitial.authority hrun' hrange id).once
    have hlive := add_le_weight (f := liveCount relay'.authority.clock (ticketAddress id)) hne hj hk
    simp only [liveCount, haddress1, haddress2, hstanding1, hstanding2, and_self, if_true] at hlive
    unfold GrantLaw at hgrants
    omega

/-- The connection of the sample run is the only one its ticket backs. -/
theorem ticket_backs_one_connection_sample : ∃ relay' : Relay sampleCrypto,
    Run (RelayStep sampleCodec) RelayForward sampleRelay relay' ∧
    (∃ connection, relay'.connections[0]? = some connection ∧
      connection.auth.address = ticketAddress (ticketId sampleCrypto sampleMessage) ∧
      connection.auth.standing relay'.authority.clock) ∧
    ∀ k connection, relay'.connections[k]? = some connection →
      connection.auth.address = ticketAddress (ticketId sampleCrypto sampleMessage) →
      connection.auth.standing relay'.authority.clock → 0 = k := by
  obtain ⟨w, hstart, hidle, hstarted⟩ := start_sample
  obtain ⟨relay', deleted, hconnected, hclock, -, hconnections⟩ := connect_run hidle hstarted.clock
    hstarted.policy (sound_of_run initial_sampleWorld hstart).shared.db hstarted.spent
  have hrun := (lift_run sampleRelay (attends_run hstart)).trans hconnected
  have hbacked := (ticket_backs_one_connection sampleCrypto_sha256_injective.injOn
    relayInitial_sampleRelay hrun).1
  have hfirst : relay'.connections[0]? = some ⟨⟨some sampleDeadline,
      ticketAddress (ticketId sampleCrypto sampleMessage), 0⟩, none⟩ := by rw [hconnections]; rfl
  have hstanding : Authorization.standing ⟨some sampleDeadline,
      ticketAddress (ticketId sampleCrypto sampleMessage), 0⟩ relay'.authority.clock := by
    rw [hclock]; decide
  exact ⟨relay', hrun, ⟨_, hfirst, rfl, hstanding⟩, fun k connection hk haddress hlive ↦
    hbacked _ 0 k _ connection hfirst hk rfl haddress hstanding hlive⟩

/-! ### How long an authorization lasts -/

/-- A membership answer recent enough for the life of a key is not from before its hour. -/
theorem hourStart_le_of_recentEnough {policy : Policy} {application : Application} {checked : Time}
    (hbound : BoundOk crypto codec policy application.bound)
    (h : RecentEnough application checked) :
    Time.hourStart application.bound.descriptor.epoch ≤ checked.wall := by
  obtain ⟨⟨-, key, hdescriptor⟩, -⟩ := hbound
  have hexpires : application.bound.descriptor.expiresAt =
      (application.bound.descriptor.epoch * 3600 + 43200) * 1000 :=
    congrArg Descriptor.expiresAt hdescriptor
  have hmilli : (checked.add (ticketLifetime * Time.second)).unixMilli =
      (checked.wall + 43200 * 10 ^ 9) / 10 ^ 6 := rfl
  rw [RecentEnough, hexpires, hmilli] at h
  simp only [Time.hourStart, Time.second]
  omega

/-- Authorization lifetime. Assumes: a wall clock that never goes backwards. In every state that is
reached:

* Signatures under the key of an hour rest on a positive membership answer whose time is not before
  that hour.
* A redeemed ticket has a deadline less than a millisecond after the twelfth hour from the start of
  its own.
* The deadline of a connection is that of a redeemed ticket, and is less than twelve hours and a
  millisecond after every membership check behind signatures of the hour of that ticket.
* If tickets are redeemed only where signatures were given under the key of their hour, there is
  such a check for every deadline of a connection. -/
theorem authorization_lifetime {relay relay' : Relay crypto} (hinitial : RelayInitial relay)
    (hrun : Run (RelayStep codec) RelayForward relay relay') :
    (∀ before sentAt application checked signatures after,
      relay'.authority.log =
        before ++ Event.issued sentAt application checked signatures :: after →
      Event.checked application.proof.authorAddress (.answered true checked) ∈ before ∧
        Time.hourStart application.bound.descriptor.epoch ≤ checked.wall) ∧
    (∀ marker grantedUntil, Event.redeemed marker grantedUntil ∈ relay'.authority.log →
      grantedUntil.wall < Time.hourStart (marker.descriptor.epoch + 12) + Time.millisecond) ∧
    (∀ connection ∈ relay'.connections, ∀ deadline,
      connection.auth.authorizedUntil = some deadline →
      ∃ marker, Event.redeemed marker deadline ∈ relay'.authority.log ∧
        connection.auth.address = ticketAddress (ticketId crypto marker.message) ∧
        ∀ sentAt application checked signatures,
          Event.issued sentAt application checked signatures ∈ relay'.authority.log →
          application.bound.descriptor.epoch = marker.descriptor.epoch →
          deadline.wall < checked.wall + 12 * 3600 * Time.second + Time.millisecond) ∧
    ((∀ marker grantedUntil, Event.redeemed marker grantedUntil ∈ relay'.authority.log →
      ∃ sentAt application checked signatures,
        Event.issued sentAt application checked signatures ∈ relay'.authority.log ∧
        application.bound.descriptor.epoch = marker.descriptor.epoch) →
      ∀ connection ∈ relay'.connections, ∀ deadline,
        connection.auth.authorizedUntil = some deadline →
        ∃ sentAt application checked signatures,
          Event.issued sentAt application checked signatures ∈ relay'.authority.log ∧
          deadline.wall < checked.wall + 12 * 3600 * Time.second + Time.millisecond) := by
  have hrun' := authority_of_run hrun
  obtain ⟨hsound, htimely⟩ := timely_of_run (fun _ _ h ↦ h) hinitial.authority hrun'
  have hchecked : ∀ sentAt application checked signatures,
      Event.issued sentAt application checked signatures ∈ relay'.authority.log →
        Time.hourStart application.bound.descriptor.epoch ≤ checked.wall := by
    intro sentAt application checked signatures hmem
    obtain ⟨⟨policy, hbound⟩, hrecent⟩ := hsound.log _ hmem
    exact hourStart_le_of_recentEnough hbound hrecent
  have hredeemed : ∀ marker grantedUntil,
      Event.redeemed marker grantedUntil ∈ relay'.authority.log →
        grantedUntil.wall < Time.hourStart (marker.descriptor.epoch + 12) + Time.millisecond :=
    fun marker grantedUntil hmem ↦ htimely.log _ hmem
  have hconnection : ∀ connection ∈ relay'.connections, ∀ deadline,
      connection.auth.authorizedUntil = some deadline →
      ∃ marker, Event.redeemed marker deadline ∈ relay'.authority.log ∧
        connection.auth.address = ticketAddress (ticketId crypto marker.message) ∧
        ∀ sentAt application checked signatures,
          Event.issued sentAt application checked signatures ∈ relay'.authority.log →
          application.bound.descriptor.epoch = marker.descriptor.epoch →
          deadline.wall < checked.wall + 12 * 3600 * Time.second + Time.millisecond := by
    intro connection hmem deadline hdeadline
    rcases (relaySound_of_run hinitial hrun).since.connections connection hmem with ⟨hnone, -⟩ |
      ⟨marker, grantedUntil, hredeemedMem, hgranted, haddress⟩
    · rw [hnone] at hdeadline
      cases hdeadline
    · obtain rfl : grantedUntil = deadline := Option.some.inj (hgranted.symm.trans hdeadline)
      refine ⟨marker, hredeemedMem, haddress, ?_⟩
      intro sentAt application checked signatures hissued hepoch
      have hlow := hchecked sentAt application checked signatures hissued
      have hhigh := hredeemed marker grantedUntil hredeemedMem
      rw [hepoch] at hlow
      simp only [Time.hourStart, Time.second] at hlow hhigh ⊢
      omega
  refine ⟨?_, hredeemed, hconnection, ?_⟩
  · intro before sentAt application checked signatures after hlog
    refine ⟨((evidence_of_run hinitial.authority hrun').log before _ after hlog).2, ?_⟩
    exact hchecked sentAt application checked signatures (by simp [hlog])
  · intro hbacked connection hmem deadline hdeadline
    obtain ⟨marker, hredeemedMem, -, hbound⟩ := hconnection connection hmem deadline hdeadline
    obtain ⟨sentAt, application, checked, signatures, hissued, hepoch⟩ :=
      hbacked marker deadline hredeemedMem
    exact ⟨sentAt, application, checked, signatures, hissued,
      hbound sentAt application checked signatures hissued hepoch⟩

/-- Signatures of the first hour, and a ticket of that hour redeemed on a connection, whose deadline
ends with the twelfth hour. -/
theorem authorization_lifetime_sample : ∃ relay' : Relay sampleCrypto,
    Run (RelayStep sampleCodec) RelayForward sampleRelay relay' ∧
    (∃ before after, relay'.authority.log =
        before ++ Event.issued ⟨0, 0⟩ sampleApplication ⟨0, 0⟩ [[]] :: after ∧
      Event.checked sampleProof.authorAddress (.answered true ⟨0, 0⟩) ∈ before) ∧
    ∃ connection ∈ relay'.connections, ∃ deadline,
      connection.auth.authorizedUntil = some deadline ∧
      (∃ marker, Event.redeemed marker deadline ∈ relay'.authority.log ∧
        deadline.wall < Time.hourStart (marker.descriptor.epoch + 12) + Time.millisecond) ∧
      ∃ sentAt application checked signatures,
        Event.issued sentAt application checked signatures ∈ relay'.authority.log ∧
        deadline.wall < checked.wall + 12 * 3600 * Time.second + Time.millisecond := by
  obtain ⟨w, hissue, hidle, hclock, hpolicy, hspent, hissued⟩ :=
    issue_sample (.refl _) (by decide) (.refl _) (by decide)
  obtain ⟨relay', deleted, hconnected, -, hlog, hconnections⟩ := connect_run hidle hclock hpolicy
    (sound_of_run initial_sampleWorld hissue).shared.db hspent
  have hrun := (lift_run sampleRelay hissue).trans hconnected
  obtain ⟨hchecks, hredeemed, hbehind, hbacked⟩ :=
    authorization_lifetime relayInitial_sampleRelay hrun
  have hmem : ⟨⟨some sampleDeadline, ticketAddress (ticketId sampleCrypto sampleMessage), 0⟩,
      none⟩ ∈ relay'.connections := by
    rw [hconnections]
    exact List.mem_singleton_self _
  have hall : ∀ marker grantedUntil, Event.redeemed marker grantedUntil ∈ relay'.authority.log →
      ∃ sentAt application checked signatures,
        Event.issued sentAt application checked signatures ∈ relay'.authority.log ∧
        application.bound.descriptor.epoch = marker.descriptor.epoch := by
    intro marker grantedUntil hmarker
    refine ⟨⟨0, 0⟩, sampleApplication, ⟨0, 0⟩, [[]], by simp [hlog, hissued], ?_⟩
    rw [hlog, hissued] at hmarker
    simp only [List.cons_append, List.nil_append, List.mem_cons, Event.redeemed.injEq,
      reduceCtorEq, false_or, List.not_mem_nil, or_false] at hmarker
    rw [hmarker.1]
    rfl
  obtain ⟨before, after, hsplit⟩ : ∃ before after, relay'.authority.log =
      before ++ Event.issued ⟨0, 0⟩ sampleApplication ⟨0, 0⟩ [[]] :: after :=
    List.append_of_mem (by simp [hlog, hissued])
  obtain ⟨marker, hmarker, -, -⟩ := hbehind _ hmem _ rfl
  exact ⟨relay', hrun, ⟨before, after, hsplit, (hchecks before _ _ _ _ after hsplit).1⟩, _, hmem, _,
    rfl, ⟨marker, hmarker, hredeemed marker _ hmarker⟩, hbacked hall _ hmem _ rfl⟩

end QortalRelay.Connections
