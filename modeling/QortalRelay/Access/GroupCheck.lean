import QortalRelay.Access.Membership
import QortalRelay.Foundation.Trace

/-!
# Asking the group servers

A check of an account asks for each allowed group whether the account is a member, in one thread per
group of which four run at a time. A thread takes the servers that have not failed in the last five
seconds, in their configured order, or all of them when every one has; it asks one after the other,
with sixteen requests of the whole policy at a time, until one gives a valid answer. The check takes
the results in the order in which they arrive and returns with the first positive one, or when it
has them all. Any number of checks runs at once, and all share the record of failures and the
request slots.

What a thread returns does not depend on how the steps interleave: it is the answer of the first
server that gave a valid one (`GroupLookup.Decided`), by an invariant of each place in its code
(`GroupLookup.Ok`).
-/

set_option autoImplicit false
set_option relaxedAutoImplicit false

namespace QortalRelay.Access

open Foundation Encoding Trace

/-! ### Replies of a server -/

/-- A row of a reply, in which the membership may be missing. -/
structure Row where
  address : Text
  isMember : Option Bool
deriving DecidableEq

/-- How a request to a Core server ends; `broken` when the body could not be read to its end. -/
inductive CoreReply
  /-- No request could be made of the URL. -/
  | noRequest
  | failed
  | response (status : ℕ) (body : Bytes) (broken : Bool)
deriving DecidableEq

/-- The answer of a reply that is read whole, is not too long, and has one row, which names the
account and says whether it is a member. -/
def CoreReply.answer (unmarshal : Bytes → Option (List Row)) (address : Text) :
    CoreReply → Option Bool
  | .noRequest | .failed => none
  | .response status body broken =>
    let raw := body.take 8193
    if broken ∨ 8192 < raw.length ∨ status ≠ 200 then none
    else
      match unmarshal raw with
      | some [row] => if row.address = address then row.isMember else none
      | _ => none

/-- The replies that are valid: status 200, read whole, at most 8192 bytes, and in them a single row
with the address of the account and a membership that is not missing. -/
theorem CoreReply.answer_eq_some_iff {unmarshal : Bytes → Option (List Row)} {address : Text}
    {reply : CoreReply} {member : Bool} :
    reply.answer unmarshal address = some member ↔
      ∃ body, reply = .response 200 body false ∧ body.length ≤ 8192 ∧
        unmarshal body = some [⟨address, some member⟩] := by
  constructor
  · intro h
    cases reply with
    | noRequest | failed => cases h
    | response status body broken =>
      simp only [answer] at h
      split_ifs at h with hrefused
      simp only [not_or, Bool.not_eq_true, not_lt, ne_eq, not_not, List.length_take] at hrefused
      obtain ⟨hwhole, hshort, hstatus⟩ := hrefused
      have hlength : body.length ≤ 8192 := by omega
      rw [List.take_of_length_le (by omega)] at h
      refine ⟨body, by rw [hwhole, hstatus], hlength, ?_⟩
      split at h
      · next row hrow =>
        split_ifs at h with haddress
        obtain ⟨rowAddress, isMember⟩ := row
        rw [hrow, ← haddress, ← h]
      · cases h
  · rintro ⟨body, rfl, hlength, hrow⟩
    simp [answer, List.take_of_length_le (show body.length ≤ 8193 by omega), hrow,
      show ¬8192 < body.length by omega]

/-! ### The lookup of one group -/

/-- What the lookups of a relay read of its configuration, with the JSON decoder of member lists. -/
structure GroupPolicy where
  coreUrlBases : List Text
  allowedGroupIds : List Int32
  unmarshal : Bytes → Option (List Row)

/-- What all lookups share: when a server that failed may be asked again, and the slots taken. -/
structure Cores where
  failures : Text → Option Time
  slots : ℕ

def Cores.fresh : Cores := ⟨fun _ ↦ none, 0⟩

/-- The failures at the moment the servers are chosen, with a reading of the clock for each. -/
structure Snapshot where
  failures : Text → Option Time
  readings : List Time

def Snapshot.demoted (snapshot : Snapshot) (base : Text) (reading : Time) : Bool :=
  (snapshot.failures base).any fun until_ ↦ reading.before until_

/-- The servers that are not demoted, in their configured order. -/
def Snapshot.healthy (snapshot : Snapshot) (policy : GroupPolicy) : List Text :=
  ((policy.coreUrlBases.zip snapshot.readings).filter
    fun pair ↦ !snapshot.demoted pair.1 pair.2).map Prod.fst

/-- The servers to ask; all of them when every one is demoted. -/
def Snapshot.bases (snapshot : Snapshot) (policy : GroupPolicy) : List Text :=
  if snapshot.healthy policy = [] then policy.coreUrlBases else snapshot.healthy policy

/-- Where a lookup is: waiting for one of the four places of its check, at the semaphore of the
relay, at a server, or gone. -/
inductive GroupPc
  | waiting
  | entered
  | slot (rest : List Text)
  | asking (base : Text) (rest : List Text) (started : Time)
  | replied (reply : CoreReply) (base : Text) (rest : List Text) (started : Time)
  | demoting (base : Text) (rest : List Text)
  | leaving
  | gone

/-- A call of `checkGroup` for one group of the policy. -/
structure GroupLookup where
  group : Int32
  snapshot : Option Snapshot
  /-- The servers that have replied, with their replies. -/
  tried : List (Text × CoreReply)
  result : Option MembershipResult
  pc : GroupPc

def GroupLookup.start (group : Int32) : GroupLookup := ⟨group, none, [], none, .waiting⟩

/-- It holds one of the four places of its check. -/
def GroupLookup.inside (lookup : GroupLookup) : Bool :=
  match lookup.pc with
  | .waiting | .gone => false
  | _ => true

/-- The servers the lookup has chosen. -/
def GroupLookup.bases (lookup : GroupLookup) (policy : GroupPolicy) : List Text :=
  lookup.snapshot.elim [] (·.bases policy)

/-- What a move of a lookup shows to its check. -/
inductive Signal
  | silent
  | sent (started : Time)
  | returned (result : MembershipResult)

def Signal.times : Signal → List Time
  | .sent started => [started]
  | _ => []

def Signal.results : Signal → List MembershipResult
  | .returned result => [result]
  | _ => []

/-- The failures after `coreFailed`. -/
def Cores.demote (cores : Cores) (base : Text) (now : Time) : Cores :=
  { cores with
    failures := fun other ↦
      if other = base then some (now.add (5 * Time.second)) else cores.failures other }

section Moves

variable (policy : GroupPolicy) (address : Text) (now : Time) (done room : Bool) (cores : Cores)
  (lookup : GroupLookup)

/-- One move of a lookup for an address, with the moment, whether the context of the check is done
and whether one of its places is free. -/
inductive GroupMove : Cores → GroupLookup → Signal → Prop
  | enter (hpc : lookup.pc = .waiting) (hroom : room = true) :
      GroupMove cores { lookup with pc := .entered } .silent
  | turnAway (hpc : lookup.pc = .waiting) (hdone : done = true) :
      GroupMove cores { lookup with result := some (.failed .context), pc := .gone }
        (.returned (.failed .context))
  | choose (readings : List Time) (hpc : lookup.pc = .entered)
      (hreadings : readings.length = policy.coreUrlBases.length) :
      GroupMove cores
        { lookup with
          snapshot := some ⟨cores.failures, readings⟩
          pc := .slot (Snapshot.bases ⟨cores.failures, readings⟩ policy) } .silent
  | ask (base : Text) (rest : List Text) (hpc : lookup.pc = .slot (base :: rest))
      (hslot : cores.slots < 16) :
      GroupMove { cores with slots := cores.slots + 1 }
        { lookup with pc := .asking base rest now } (.sent now)
  | expire (base : Text) (rest : List Text) (hpc : lookup.pc = .slot (base :: rest))
      (hdone : done = true) :
      GroupMove cores { lookup with result := some (.failed .context), pc := .leaving }
        (.returned (.failed .context))
  | exhaust (hpc : lookup.pc = .slot []) :
      GroupMove cores { lookup with result := some (.failed .unavailable), pc := .leaving }
        (.returned (.failed .unavailable))
  | receive (base : Text) (rest : List Text) (started : Time) (reply : CoreReply)
      (hpc : lookup.pc = .asking base rest started) :
      GroupMove { cores with slots := cores.slots - 1 }
        { lookup with
          tried := lookup.tried ++ [(base, reply)]
          pc := .replied reply base rest started } .silent
  | accept (reply : CoreReply) (base : Text) (rest : List Text) (started : Time) (member : Bool)
      (hpc : lookup.pc = .replied reply base rest started)
      (hanswer : reply.answer policy.unmarshal address = some member) :
      GroupMove cores { lookup with result := some (.answered member started), pc := .leaving }
        (.returned (.answered member started))
  -- A request that fails when the context is done says nothing about the server.
  | excuse (base : Text) (rest : List Text) (started : Time)
      (hpc : lookup.pc = .replied .failed base rest started) (hdone : done = true) :
      GroupMove cores { lookup with pc := .slot rest } .silent
  | reject (reply : CoreReply) (base : Text) (rest : List Text) (started : Time)
      (hpc : lookup.pc = .replied reply base rest started)
      (hanswer : reply.answer policy.unmarshal address = none)
      (hdone : reply = .failed → done = false) :
      GroupMove cores { lookup with pc := .demoting base rest } .silent
  | demote (base : Text) (rest : List Text) (hpc : lookup.pc = .demoting base rest) :
      GroupMove (cores.demote base now) { lookup with pc := .slot rest } .silent
  | leave (hpc : lookup.pc = .leaving) : GroupMove cores { lookup with pc := .gone } .silent

end Moves

/-! ### The check of all groups -/

/-- A call of `checkGroups`: it starts a lookup for each group and reads their results from a
channel. -/
structure Check where
  address : Text
  /-- The context is done: the caller's, the six seconds, or the check has returned. -/
  done : Bool
  /-- When the requests of the check were sent. -/
  sent : List Time
  lookups : List GroupLookup
  /-- The results that have not been taken yet. -/
  channel : List MembershipResult
  unread : ℕ
  unresolved : Option LookupError
  result : Option MembershipResult

def Check.start (policy : GroupPolicy) (address : Text) : Check where
  address := address
  done := false
  sent := []
  lookups := policy.allowedGroupIds.map GroupLookup.start
  channel := []
  unread := policy.allowedGroupIds.length
  unresolved := none
  result := none

/-- One of the four places is free. -/
def Check.room (check : Check) : Bool := (check.lookups.filter GroupLookup.inside).length < 4

/-- The check with a lookup that has moved. -/
def Check.moved (check : Check) (i : ℕ) (lookup : GroupLookup) (signal : Signal) : Check :=
  { check with
    lookups := check.lookups.set i lookup
    sent := signal.times ++ check.sent
    channel := check.channel ++ signal.results }

/-- The check takes a result from the channel. -/
def Check.take (check : Check) (result : MembershipResult) (rest : List MembershipResult) : Check :=
  match result with
  | .failed error =>
    { check with channel := rest, unread := check.unread - 1, unresolved := some error }
  | .answered true checked =>
    { check with
      channel := rest, unread := check.unread - 1, done := true
      result := some (.answered true checked) }
  | .answered false _ => { check with channel := rest, unread := check.unread - 1 }

/-- The check has taken all results. -/
def Check.finish (check : Check) (now : Time) : Check :=
  { check with
    done := true
    result := some (check.unresolved.elim (.answered false now) .failed) }

/-- One move of a check: of one of its lookups, or of the caller that takes the results. -/
inductive CheckMove (policy : GroupPolicy) (now : Time) (cores : Cores) (check : Check) :
    Cores → Check → Prop
  | lookup (i : ℕ) (before after : GroupLookup) (signal : Signal) (cores' : Cores)
      (hbefore : check.lookups[i]? = some before)
      (hmove : GroupMove policy check.address now check.done check.room cores before cores' after
        signal) :
      CheckMove policy now cores check cores' (check.moved i after signal)
  | take (result : MembershipResult) (rest : List MembershipResult) (hresult : check.result = none)
      (hunread : 0 < check.unread) (hchannel : check.channel = result :: rest) :
      CheckMove policy now cores check cores (check.take result rest)
  | finish (hresult : check.result = none) (hunread : check.unread = 0) :
      CheckMove policy now cores check cores (check.finish now)

/-! ### All checks of a policy -/

/-- The failures and the semaphore that all checks share, with the checks that were started. -/
structure Checks where
  cores : Cores
  checks : List Check

def Checks.initial : Checks := ⟨Cores.fresh, []⟩

/-- One check takes one step at some reading of the clock. -/
inductive Checks.Move (policy : GroupPolicy) (state : Checks) : Checks → Prop
  | mk (now : Time) (i : ℕ) (check check' : Check) (cores' : Cores)
      (hcheck : state.checks[i]? = some check)
      (hmove : CheckMove policy now state.cores check cores' check') :
      Checks.Move policy state ⟨cores', state.checks.set i check'⟩

/-- What happens: a check is started, its context ends, or it moves. -/
inductive Checks.Step (policy : GroupPolicy) (state : Checks) : Checks → Prop
  | start (address : Text) :
      Checks.Step policy state
        { state with checks := state.checks ++ [Check.start policy address] }
  | cancel (i : ℕ) (check : Check) (hcheck : state.checks[i]? = some check) :
      Checks.Step policy state
        { state with checks := state.checks.set i { check with done := true } }
  | move (after : Checks) (hmove : Checks.Move policy state after) : Checks.Step policy state after

/-! ### The result of one lookup -/

section Lookup

variable {policy : GroupPolicy} {address : Text} {lookup : GroupLookup}

/-- The reply has no valid answer about the account. -/
def CoreReply.Invalid (policy : GroupPolicy) (address : Text) (reply : CoreReply) : Prop :=
  reply.answer policy.unmarshal address = none

/-- The result is the answer of the first server, in the order in which they were chosen, whose
reply is valid; no other server is asked after it, and without one the lookup fails. -/
structure GroupLookup.Decided (policy : GroupPolicy) (address : Text) (lookup : GroupLookup)
    (result : MembershipResult) : Prop where
  order : lookup.tried.map Prod.fst <+: lookup.bases policy
  answered : ∀ member, (∃ started, result = .answered member started) ↔
    ∃ earlier base reply, lookup.tried = earlier ++ [(base, reply)] ∧
      (∀ pair ∈ earlier, pair.2.Invalid policy address) ∧
      reply.answer policy.unmarshal address = some member
  failed : (∃ error, result = .failed error) ↔
    ∀ pair ∈ lookup.tried, pair.2.Invalid policy address

/-- The servers judged so far have sent no valid reply, and the rest is to be judged. -/
structure GroupLookup.Running (policy : GroupPolicy) (address : Text) (lookup : GroupLookup)
    (judged : List (Text × CoreReply)) (rest : List Text) : Prop where
  order : judged.map Prod.fst ++ rest = lookup.bases policy
  invalid : ∀ pair ∈ judged, pair.2.Invalid policy address
  result : lookup.result = none

/-- The lookup is in order at its place in the code; the requests it knows of are among those that
the check has sent. -/
def GroupLookup.Ok (policy : GroupPolicy) (address : Text) (sent : List Time)
    (lookup : GroupLookup) : Prop :=
  match lookup.pc with
  | .waiting | .entered => lookup.snapshot = none ∧ lookup.Running policy address lookup.tried []
  | .slot rest | .demoting _ rest => lookup.Running policy address lookup.tried rest
  | .asking base rest started =>
    lookup.Running policy address lookup.tried (base :: rest) ∧ started ∈ sent
  | .replied reply base rest started =>
    (∃ earlier, lookup.tried = earlier ++ [(base, reply)] ∧
      lookup.Running policy address earlier (base :: rest)) ∧
    started ∈ sent
  | .leaving | .gone =>
    ∃ result, lookup.result = some result ∧ lookup.Decided policy address result ∧
      ∀ member started, result = .answered member started → started ∈ sent

theorem GroupLookup.ok_start (policy : GroupPolicy) (address : Text) (sent : List Time)
    (group : Int32) : (GroupLookup.start group).Ok policy address sent := by
  refine ⟨rfl, rfl, ?_, rfl⟩
  intro pair hpair
  cases hpair

theorem GroupLookup.Ok.mono {sent sent' : List Time} (h : lookup.Ok policy address sent)
    (hsent : sent ⊆ sent') : lookup.Ok policy address sent' := by
  unfold GroupLookup.Ok at h ⊢
  cases hpc : lookup.pc with
  | waiting | entered | slot | demoting => simpa only [hpc] using h
  | asking base rest started =>
    simp only [hpc] at h ⊢
    exact ⟨h.1, hsent h.2⟩
  | replied reply base rest started =>
    simp only [hpc] at h ⊢
    exact ⟨h.1, hsent h.2⟩
  | leaving | gone =>
    simp only [hpc] at h ⊢
    obtain ⟨result, hresult, hdecided, htimes⟩ := h
    exact ⟨result, hresult, hdecided, fun member started heq ↦ hsent (htimes member started heq)⟩

/-- What is known of a lookup that has a result. -/
theorem GroupLookup.Ok.of_result {sent : List Time} (h : lookup.Ok policy address sent)
    {result : MembershipResult} (hresult : lookup.result = some result) :
    lookup.Decided policy address result ∧
      ∀ member started, result = .answered member started → started ∈ sent := by
  unfold GroupLookup.Ok at h
  cases hpc : lookup.pc with
  | waiting | entered =>
    simp only [hpc] at h
    rw [h.2.result] at hresult
    cases hresult
  | slot | demoting =>
    simp only [hpc] at h
    rw [h.result] at hresult
    cases hresult
  | asking =>
    simp only [hpc] at h
    rw [h.1.result] at hresult
    cases hresult
  | replied =>
    simp only [hpc] at h
    obtain ⟨⟨earlier, -, hrunning⟩, -⟩ := h
    rw [hrunning.result] at hresult
    cases hresult
  | leaving | gone =>
    simp only [hpc] at h
    obtain ⟨found, hfound, hdecided, htimes⟩ := h
    rw [hfound] at hresult
    obtain rfl := Option.some.inj hresult
    exact ⟨hdecided, htimes⟩

/-- A lookup that stops before a valid reply fails. -/
theorem GroupLookup.Running.decided_failed {rest : List Text}
    (h : lookup.Running policy address lookup.tried rest) (error : LookupError) (pc : GroupPc) :
    GroupLookup.Decided policy address { lookup with result := some (.failed error), pc := pc }
      (.failed error) where
  order := ⟨rest, h.order⟩
  answered member := by
    constructor
    · rintro ⟨started, heq⟩
      cases heq
    · rintro ⟨earlier, base, reply, htried, -, hanswer⟩
      have hinvalid := h.invalid (base, reply) (by rw [htried]; simp)
      rw [CoreReply.Invalid, hanswer] at hinvalid
      cases hinvalid
  failed := ⟨fun _ ↦ h.invalid, fun _ ↦ ⟨error, rfl⟩⟩

variable {earlier : List (Text × CoreReply)} {reply : CoreReply} {base : Text} {rest : List Text}

/-- A lookup stops with the first valid reply. -/
theorem GroupLookup.Running.decided_answered
    (h : lookup.Running policy address earlier (base :: rest))
    (htried : lookup.tried = earlier ++ [(base, reply)]) {member : Bool}
    (hanswer : reply.answer policy.unmarshal address = some member) (started : Time)
    (pc : GroupPc) :
    GroupLookup.Decided policy address
      { lookup with result := some (.answered member started), pc := pc }
      (.answered member started) where
  order := by
    refine ⟨rest, Eq.trans ?_ h.order⟩
    simp [htried]
  answered other := by
    constructor
    · rintro ⟨_, heq⟩
      cases heq
      exact ⟨earlier, base, reply, htried, h.invalid, hanswer⟩
    · rintro ⟨earlier', base', reply', htried', -, hanswer'⟩
      -- The server that has answered is the last one that was asked.
      obtain ⟨-, hlast⟩ := List.append_inj' (htried.symm.trans htried') rfl
      cases hlast
      rw [hanswer] at hanswer'
      obtain rfl := Option.some.inj hanswer'
      exact ⟨started, rfl⟩
  failed := by
    constructor
    · rintro ⟨error, heq⟩
      cases heq
    · intro hinvalid
      have hnone : reply.Invalid policy address :=
        hinvalid (base, reply) (by rw [htried]; simp)
      rw [CoreReply.Invalid, hanswer] at hnone
      cases hnone

/-- After an invalid reply the lookup goes on with the next server. -/
theorem GroupLookup.Running.next
    (h : lookup.Running policy address earlier (base :: rest))
    (htried : lookup.tried = earlier ++ [(base, reply)]) (hinvalid : reply.Invalid policy address)
    (pc : GroupPc) :
    GroupLookup.Running policy address { lookup with pc := pc } lookup.tried rest where
  order := by
    refine Eq.trans ?_ h.order
    simp [htried]
  invalid := by
    simp only [htried, List.mem_append, List.mem_singleton]
    rintro pair (hpair | rfl)
    · exact h.invalid pair hpair
    · exact hinvalid
  result := h.result

/-- Every move of a lookup keeps it in order. -/
theorem GroupMove.ok {now : Time} {done room : Bool} {cores cores' : Cores} {after : GroupLookup}
    {signal : Signal}
    (hmove : GroupMove policy address now done room cores lookup cores' after signal)
    {sent : List Time} (h : lookup.Ok policy address sent) :
    after.Ok policy address (signal.times ++ sent) := by
  unfold GroupLookup.Ok at h
  cases hmove with
  | enter hpc =>
    simp only [hpc] at h
    exact ⟨h.1, h.2.order, h.2.invalid, h.2.result⟩
  | turnAway hpc =>
    simp only [hpc] at h
    exact ⟨_, rfl, h.2.decided_failed _ _, fun _ _ heq ↦ by cases heq⟩
  | choose readings hpc =>
    simp only [hpc] at h
    have hnil : lookup.tried = [] := by
      have horder := h.2.order
      rw [GroupLookup.bases, h.1] at horder
      simpa using horder
    exact ⟨by simp [hnil, GroupLookup.bases], h.2.invalid, h.2.result⟩
  | ask base rest hpc =>
    simp only [hpc] at h
    exact ⟨⟨h.order, h.invalid, h.result⟩, List.mem_cons_self⟩
  | expire base rest hpc =>
    simp only [hpc] at h
    exact ⟨_, rfl, h.decided_failed _ _, fun _ _ heq ↦ by cases heq⟩
  | exhaust hpc =>
    simp only [hpc] at h
    exact ⟨_, rfl, h.decided_failed _ _, fun _ _ heq ↦ by cases heq⟩
  | receive base rest started reply hpc =>
    simp only [hpc] at h
    exact ⟨⟨lookup.tried, rfl, h.1.order, h.1.invalid, h.1.result⟩, h.2⟩
  | accept reply base rest started member hpc hanswer =>
    simp only [hpc] at h
    obtain ⟨⟨earlier, htried, hrunning⟩, hstarted⟩ := h
    refine ⟨_, rfl, hrunning.decided_answered htried hanswer started _, ?_⟩
    intro _ _ heq
    cases heq
    exact hstarted
  | excuse base rest started hpc =>
    simp only [hpc] at h
    obtain ⟨⟨earlier, htried, hrunning⟩, -⟩ := h
    exact hrunning.next htried rfl _
  | reject reply base rest started hpc hanswer =>
    simp only [hpc] at h
    obtain ⟨⟨earlier, htried, hrunning⟩, -⟩ := h
    exact hrunning.next htried hanswer _
  | demote base rest hpc =>
    simp only [hpc] at h
    exact ⟨h.order, h.invalid, h.result⟩
  | leave hpc =>
    simp only [hpc] at h
    obtain ⟨result, hresult, hdecided, htimes⟩ := h
    exact ⟨result, hresult, ⟨hdecided.order, hdecided.answered, hdecided.failed⟩, htimes⟩

/-- A lookup returns once: its result is set by the move that shows it to the check. -/
theorem GroupMove.result {now : Time} {done room : Bool} {cores cores' : Cores}
    {after : GroupLookup} {signal : Signal}
    (hmove : GroupMove policy address now done room cores lookup cores' after signal)
    {sent : List Time} (h : lookup.Ok policy address sent) :
    signal.results = [] ∧ after.result = lookup.result ∨
      ∃ result, signal.results = [result] ∧ lookup.result = none ∧ after.result = some result := by
  unfold GroupLookup.Ok at h
  cases hmove with
  | enter | choose | ask | receive | excuse | reject | demote | leave => exact Or.inl ⟨rfl, rfl⟩
  | turnAway hpc =>
    simp only [hpc] at h
    exact Or.inr ⟨_, rfl, h.2.result, rfl⟩
  | expire base rest hpc =>
    simp only [hpc] at h
    exact Or.inr ⟨_, rfl, h.result, rfl⟩
  | exhaust hpc =>
    simp only [hpc] at h
    exact Or.inr ⟨_, rfl, h.result, rfl⟩
  | accept reply base rest started member hpc =>
    simp only [hpc] at h
    obtain ⟨⟨earlier, -, hrunning⟩, -⟩ := h
    exact Or.inr ⟨_, rfl, hrunning.result, rfl⟩

theorem GroupMove.group_eq {now : Time} {done room : Bool} {cores cores' : Cores}
    {after : GroupLookup} {signal : Signal}
    (hmove : GroupMove policy address now done room cores lookup cores' after signal) :
    after.group = lookup.group := by
  cases hmove <;> rfl

end Lookup

end QortalRelay.Access
