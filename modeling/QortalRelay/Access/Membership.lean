import QortalRelay.Clock
import QortalRelay.Foundation.Encoding
import QortalRelay.Foundation.Store
import Mathlib.Data.List.Lex
import Mathlib.Data.Char

/-!
# Membership lookups

Whether an account belongs to an allowed group is asked at remote servers, and the answer is cached
for thirty seconds. One lookup per account runs at a time: a caller that finds one pending waits for
it and then looks again. The remote exchange itself is a component that may send a request at any
moment, and whose positive answer carries the time at which the answered request was sent.
-/

set_option autoImplicit false
set_option relaxedAutoImplicit false

namespace QortalRelay.Access

open Foundation.Encoding Foundation.Store

/-- Why a lookup gives no answer. -/
inductive LookupError
  /-- The caller's own request was cancelled. -/
  | context
  | capacity
  | unavailable
deriving DecidableEq, Repr

/-- The result of a lookup: an answer carries the time that it counts from. -/
inductive MembershipResult
  | failed (error : LookupError)
  | answered (member : Bool) (checked : Time)
deriving DecidableEq, Repr

/-! ### The exchange with the group servers -/

/-- One move of a lookup over all allowed groups, from the sending times of the requests made so
far: another request, a positive answer to one of them, or the end without a positive answer. -/
inductive CheckGroups (now : Time) (sent : List Time) : List Time ⊕ MembershipResult → Prop
  | send : CheckGroups now sent (.inl (now :: sent))
  | positive (started : Time) (hsent : started ∈ sent) :
      CheckGroups now sent (.inr (.answered true started))
  | negative : CheckGroups now sent (.inr (.answered false now))
  | unresolved (error : LookupError) : CheckGroups now sent (.inr (.failed error))

/-! ### The cache and the pending lookups -/

/-- The shared state of all membership calls. A pending lookup is known by the number of the
channel that is closed when it ends. -/
structure Members where
  cache : Bucket Text MembershipResult
  pending : Bucket Text ℕ
  channels : ℕ

def Members.fresh : Members := ⟨.empty, .empty, 0⟩

/-- Younger than thirty seconds. Failures are never cached. -/
def MembershipResult.isFresh (now : Time) : MembershipResult → Bool
  | .failed _ => false
  | .answered _ checked => decide (now.sub checked < 30 * Time.second)

/-- The cached answer a caller may use. -/
def Members.cached (members : Members) (now : Time) (address : Text) : Option MembershipResult :=
  (members.cache.get address).filter (·.isFresh now)

/-- The cache without the answers older than thirty seconds. -/
def dropStale (now : Time) (cache : Bucket Text MembershipResult) : Bucket Text MembershipResult :=
  cache.deleteAll (cache.keys.filter fun key ↦ !((cache.get key).all (·.isFresh now)))

/-- Room for one more answer: when the cache is full, the stale answers go, and if that is not
enough one more. -/
def evict (now : Time) (victim : Text) (cache : Bucket Text MembershipResult) :
    Bucket Text MembershipResult :=
  if 4096 ≤ cache.keyN then
    if 4096 ≤ (dropStale now cache).keyN then (dropStale now cache).deleteAll [victim]
    else dropStale now cache
  else cache

/-- Where a membership call stands. -/
inductive LookupPc
  | look
  | waiting (channel : ℕ)
  | checking (sent : List Time)
  | storing (result : MembershipResult)
deriving DecidableEq, Repr

/-- One move of a membership call for an address: it goes on, or it returns a result. -/
inductive Lookup (now : Time) (address : Text) (members : Members) :
    LookupPc → Members → LookupPc ⊕ MembershipResult → Prop
  | hit (result : MembershipResult) (hcached : members.cached now address = some result) :
      Lookup now address members .look members (.inr result)
  | join (channel : ℕ) (hcached : members.cached now address = none)
      (hpending : members.pending.get address = some channel) :
      Lookup now address members .look members (.inl (.waiting channel))
  | crowded (hcached : members.cached now address = none)
      (hpending : members.pending.get address = none) (hfull : 128 ≤ members.pending.keyN) :
      Lookup now address members .look members (.inr (.failed .capacity))
  | start (hcached : members.cached now address = none)
      (hpending : members.pending.get address = none) (hroom : members.pending.keyN < 128) :
      Lookup now address members .look
        { members with
          pending := members.pending.put address members.channels
          channels := members.channels + 1 } (.inl (.checking []))
  | wake (channel : ℕ) (hclosed : members.pending.get address ≠ some channel) :
      Lookup now address members (.waiting channel) members (.inl .look)
  | cancelled (channel : ℕ) :
      Lookup now address members (.waiting channel) members (.inr (.failed .context))
  | send (sent sent' : List Time) (hcheck : CheckGroups now sent (.inl sent')) :
      Lookup now address members (.checking sent) members (.inl (.checking sent'))
  | answer (sent : List Time) (result : MembershipResult)
      (hcheck : CheckGroups now sent (.inr result)) :
      Lookup now address members (.checking sent) members (.inl (.storing result))
  | forget (error : LookupError) :
      Lookup now address members (.storing (.failed error))
        { members with pending := members.pending.deleteAll [address] } (.inr (.failed error))
  | store (member : Bool) (checked : Time) (victim : Text)
      (hvictim : 4096 ≤ (dropStale now members.cache).keyN →
        victim ∈ (dropStale now members.cache).keys) :
      Lookup now address members (.storing (.answered member checked))
        { members with
          cache := (evict now victim members.cache).put address (.answered member checked)
          pending := members.pending.deleteAll [address] }
        (.inr (.answered member checked))

/-! ### Where answers come from -/

theorem get_of_get_evict {now : Time} {victim address : Text}
    {cache : Bucket Text MembershipResult} {result : MembershipResult}
    (h : (evict now victim cache).get address = some result) :
    cache.get address = some result := by
  unfold evict at h
  split_ifs at h
  · exact Bucket.get_of_get_deleteAll (Bucket.get_of_get_deleteAll h)
  · exact Bucket.get_of_get_deleteAll h
  · exact h

section Lookups

variable {now : Time} {address : Text} {members members' : Members} {pc : LookupPc}
  {next : LookupPc ⊕ MembershipResult}

/-- An answer in the cache was there before the move, or is the one the call has just stored. -/
theorem Lookup.cache_cases (h : Lookup now address members pc members' next) {other : Text}
    {result : MembershipResult} (hget : members'.cache.get other = some result) :
    members.cache.get other = some result ∨ other = address ∧ pc = .storing result := by
  cases h with
  | store member checked victim hvictim =>
    rw [Bucket.get_put] at hget
    split_ifs at hget with hsame
    · obtain rfl := Option.some.inj hget
      exact Or.inr ⟨hsame, rfl⟩
    · exact Or.inl (get_of_get_evict hget)
  | _ => exact Or.inl hget

/-- A call returns a cached answer, the one it has just stored, or a failure. -/
theorem Lookup.result_cases {member : Bool} {checked : Time}
    (h : Lookup now address members pc members' (.inr (.answered member checked))) :
    members.cache.get address = some (.answered member checked) ∨
      pc = .storing (.answered member checked) := by
  cases h with
  | hit result hcached =>
    rw [Members.cached, Option.filter_eq_some_iff] at hcached
    exact Or.inl hcached.1
  | store => exact Or.inr rfl

end Lookups

end QortalRelay.Access
