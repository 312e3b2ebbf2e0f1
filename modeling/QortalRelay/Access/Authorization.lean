import QortalRelay.Tickets.Authority

/-!
# The authorization of a connection

A connection carries the deadline and the address of the ticket it was last admitted with, and the
number of tickets tried since. `authorize` decides on a request: by the standing deadline, or by
redeeming the ticket that comes with the request, in which case it goes on with the result of the
redeem call (`settle`). Both run under the lock of the connection.
-/

set_option autoImplicit false
set_option relaxedAutoImplicit false

namespace QortalRelay.Access

open Foundation.Encoding Tickets

/-- The headers of a request that decide on its admission. -/
structure Headers where
  proof : Text
  renew : Text
  ticket : Bytes
deriving DecidableEq, Repr

/-- The deadline is missing as long as it is the zero time, which no reading precedes. -/
structure Authorization where
  authorizedUntil : Option Time
  address : Text
  attempts : ℕ
deriving DecidableEq, Repr

def Authorization.fresh : Authorization := ⟨none, [], 0⟩

/-- The deadline lies ahead of a reading. -/
def Authorization.standing (auth : Authorization) (now : Time) : Bool :=
  auth.authorizedUntil.any fun deadline ↦ now.before deadline

/-- What the connection does with a request: `admitted` passes it on, `redeeming` waits for the
answer of the ticket authority. -/
inductive Decision
  /-- With the value of the expiry header. -/
  | admitted (address : Text) (expires : Option ℤ)
  | refused (status : ℕ) (code : ErrorCode)
  /-- The request is decided by its ticket. -/
  | redeeming
deriving DecidableEq, Repr

/-- The decision under the lock of the connection, up to the redeem call. -/
def Authorization.decide (auth : Authorization) (now : Time) (headers : Headers) :
    Authorization × Decision :=
  if headers.proof ≠ [] then (auth, .refused 403 .proofInvalid)
  else if auth.standing now ∧ headers.renew ≠ ['1'] then
    (auth, .admitted auth.address (auth.authorizedUntil.map Time.unixMilli))
  else if headers.ticket = [] then (auth, .refused 401 .authRequired)
  else if 8 < auth.attempts + 1 then
    ({ auth with attempts := auth.attempts + 1 }, .refused 429 .rateLimited)
  else ({ auth with attempts := auth.attempts + 1 }, .redeeming)

/-- The decision on a request up to the redeem call. A connection that was refused for capacity has
no authorization. -/
def authorize (mode : Mode) (now : Time) (headers : Headers) (held : Option Authorization) :
    Option Authorization × Decision :=
  if mode = .everyone then (held, .admitted [] none)
  else
    match held with
    | none => (none, .refused 503 .authUnavailable)
    | some auth => ((auth.decide now headers).1, (auth.decide now headers).2)

/-- The address of everything that is done with a ticket. -/
def ticketAddress (id : Text) : Text := "ticket:".toList ++ id

/-- The decision on a request once its redeem call has returned. -/
def settle (crypto : Crypto) (auth : Authorization) :
    Option (Marker × Time) → Authorization × Decision
  | none => (auth, .refused 403 .proofInvalid)
  | some (marker, grantedUntil) =>
    (⟨some grantedUntil, ticketAddress (ticketId crypto marker.message), 0⟩,
      .admitted (ticketAddress (ticketId crypto marker.message)) (some grantedUntil.unixMilli))

theorem ticketAddress_injective : Function.Injective ticketAddress := by
  intro first second h
  unfold ticketAddress at h
  rwa [List.append_right_inj] at h

theorem ticketAddress_ne_nil (id : Text) : ticketAddress id ≠ [] := by
  intro h
  exact absurd (List.append_eq_nil_iff.mp h).1 (by decide)

/-- A request is admitted without a redeem call only before the deadline. -/
theorem Authorization.decide_admitted {auth : Authorization} {now : Time} {headers : Headers}
    {address : Text} {expires : Option ℤ}
    (h : (auth.decide now headers).2 = .admitted address expires) : auth.standing now := by
  unfold Authorization.decide at h
  split_ifs at h with hproof hstanding hticket hattempts
  exact hstanding.1

/-- Until a redeem call has returned, the deadline and the address stay. -/
theorem Authorization.decide_keeps (auth : Authorization) (now : Time) (headers : Headers) :
    (auth.decide now headers).1.authorizedUntil = auth.authorizedUntil ∧
      (auth.decide now headers).1.address = auth.address := by
  unfold Authorization.decide
  split_ifs <;> exact ⟨rfl, rfl⟩

/-- In groups mode every request is decided under the lock of its connection. -/
theorem authorize_groups (now : Time) (headers : Headers) (auth : Authorization) :
    authorize .groups now headers (some auth) =
      (some (auth.decide now headers).1, (auth.decide now headers).2) := rfl

end QortalRelay.Access
