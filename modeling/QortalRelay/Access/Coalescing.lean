import QortalRelay.Access.Membership
import QortalRelay.Foundation.Trace

/-!
# Coalesced membership calls

Any number of membership calls runs at once over the shared cache and the pending lookups, each with
a context that may end at any moment. A call is in flight from the moment its address is pending
until it is removed; the pending addresses are exactly those of the calls in flight
(`MemberCalls.Ok`), so no address has two and there are no more than 128. A call returns a fresh
answer of the cache or the result of a lookup it ran itself; it never waits for another's result but
looks again (`membership_coalesced`).
-/

set_option autoImplicit false
set_option relaxedAutoImplicit false

namespace QortalRelay.Access

open Foundation Encoding Store Trace

/-! ### Calls -/

/-- Where a call stands; after it has returned, its result. -/
abbrev CallState := LookupPc ⊕ MembershipResult

/-- The call has marked its address as pending. -/
def inFlight : CallState → Bool
  | .inl (.checking _) | .inl (.storing _) => true
  | _ => false

/-- A call of `membership` under way. -/
structure MemberCall where
  address : Text
  /-- The context of the caller is done. -/
  done : Bool
  /-- The results of the lookups that the call ran itself. -/
  ran : List MembershipResult
  state : CallState

def MemberCall.start (address : Text) : MemberCall := ⟨address, false, [], .inl .look⟩

/-- The address of a call in flight. -/
def MemberCall.flight (call : MemberCall) : Option Text :=
  if inFlight call.state then some call.address else none

def MemberCall.proceed (call : MemberCall) (next : CallState) : MemberCall :=
  match next with
  | .inl (.storing result) => { call with ran := result :: call.ran, state := next }
  | _ => { call with state := next }

/-- One move of a call. It gives up waiting only when its own context is done. -/
inductive MemberCall.Move (now : Time) (members : Members) (call : MemberCall) :
    Members → CallState → Prop
  | mk (pc : LookupPc) (members' : Members) (next : CallState) (hpc : call.state = .inl pc)
      (hcontext : ∀ channel result, pc = .waiting channel → next = .inr result → call.done = true)
      (hlookup : Lookup now call.address members pc members' next) :
      MemberCall.Move now members call members' next

/-- The cache and the table of pending lookups, with all calls that were made on them. -/
structure MemberCalls where
  members : Members
  calls : List MemberCall

def MemberCalls.initial : MemberCalls := ⟨Members.fresh, []⟩

/-- A call begins, its context is done, or it makes one atomic step. -/
inductive MemberCalls.Step (state : MemberCalls) : MemberCalls → Prop
  | call (address : Text) :
      MemberCalls.Step state { state with calls := state.calls ++ [MemberCall.start address] }
  | cancel (i : ℕ) (call : MemberCall) (hcall : state.calls[i]? = some call) :
      MemberCalls.Step state { state with calls := state.calls.set i { call with done := true } }
  | move (now : Time) (i : ℕ) (call : MemberCall) (members' : Members) (next : CallState)
      (hcall : state.calls[i]? = some call)
      (hmove : MemberCall.Move now state.members call members' next) :
      MemberCalls.Step state ⟨members', state.calls.set i (call.proceed next)⟩

@[simp] theorem MemberCall.address_proceed (call : MemberCall) (next : CallState) :
    (call.proceed next).address = call.address := by
  unfold MemberCall.proceed
  split <;> rfl

@[simp] theorem MemberCall.state_proceed (call : MemberCall) (next : CallState) :
    (call.proceed next).state = next := by
  unfold MemberCall.proceed
  split <;> rfl

theorem MemberCall.toList_flight (call : MemberCall) :
    call.flight.toList = if inFlight call.state then [call.address] else [] := by
  unfold MemberCall.flight
  split_ifs <;> rfl

/-! ### The cache -/

section Cache

variable {now : Time} {address : Text} {members members' : Members} {pc : LookupPc}
  {next : CallState}

/-- A full cache has room again. -/
theorem keyN_evict_lt {victim : Text} {cache : Bucket Text MembershipResult}
    (hsize : cache.keyN ≤ 4096)
    (hvictim : 4096 ≤ (dropStale now cache).keyN → victim ∈ (dropStale now cache).keys) :
    (evict now victim cache).keyN < 4096 := by
  have hdrop : (dropStale now cache).keyN ≤ cache.keyN := Bucket.keyN_deleteAll_le _ _
  unfold evict
  split_ifs with hfull hstill
  · have hone := Bucket.keyN_deleteAll_singleton (hvictim hstill)
    omega
  · exact not_le.mp hstill
  · exact not_le.mp hfull

theorem Lookup.keyN_cache_le (h : Lookup now address members pc members' next)
    (hsize : members.cache.keyN ≤ 4096) : members'.cache.keyN ≤ 4096 := by
  cases h with
  | store member checked victim hvictim =>
    exact (Bucket.keyN_put_le _ _ _).trans (keyN_evict_lt hsize hvictim)
  | _ => exact hsize

/-- A failure is not cached. -/
theorem Lookup.answered_of_cached (h : Lookup now address members pc members' next)
    (hcache : ∀ other result, members.cache.get other = some result →
      ∃ member checked, result = .answered member checked) {other : Text}
    {result : MembershipResult} (hget : members'.cache.get other = some result) :
    ∃ member checked, result = .answered member checked := by
  cases h with
  | store member checked victim hvictim =>
    rw [Bucket.get_put] at hget
    split_ifs at hget
    · exact ⟨member, checked, (Option.some.inj hget).symm⟩
    · exact hcache other result (get_of_get_evict hget)
  | _ => exact hcache other result hget

/-! ### The pending lookups -/

theorem Lookup.keyN_pending_le (h : Lookup now address members pc members' next)
    (hsize : members.pending.keyN ≤ 128) : members'.pending.keyN ≤ 128 := by
  cases h with
  | start hcached hpending hroom => exact (Bucket.keyN_put_le _ _ _).trans hroom
  | forget | store => exact (Bucket.keyN_deleteAll_le _ _).trans hsize
  | _ => exact hsize

/-- Assumes: the address of a call in flight is pending. It is pending after a move exactly if the
call is then in flight; the other pending addresses stay. -/
theorem Lookup.perm_pending (h : Lookup now address members pc members' next)
    (hpending : inFlight (.inl pc) = true → address ∈ members.pending.keys) :
    (members'.pending.keys ++ if inFlight (.inl pc) then [address] else []).Perm
      (members.pending.keys ++ if inFlight next then [address] else []) := by
  cases h with
  | start hcached hnone hroom =>
    simpa [inFlight] using
      (Bucket.perm_keys_put hnone members.channels).trans (List.perm_append_singleton _ _).symm
  | forget | store =>
    simpa [inFlight] using
      (List.perm_append_singleton _ _).trans (Bucket.perm_keys_deleteAll (hpending rfl)).symm
  | hit | join | crowded | wake | cancelled | send | answer => exact List.Perm.refl _

end Cache

/-! ### Runs -/

/-- The table of pending lookups has one entry for each call that runs a lookup, both tables keep
their bounds, and only answers are cached. -/
structure MemberCalls.Ok (state : MemberCalls) : Prop where
  flights : (state.calls.filterMap MemberCall.flight).Perm state.members.pending.keys
  pending : state.members.pending.keyN ≤ 128
  cache : state.members.cache.keyN ≤ 4096
  answers : ∀ address result, state.members.cache.get address = some result →
    ∃ member checked, result = .answered member checked
  ran : ∀ call ∈ state.calls, ∀ result, call.state = .inl (.storing result) → result ∈ call.ran

section Runs

variable {state state' : MemberCalls}

theorem MemberCalls.ok_initial : MemberCalls.initial.Ok where
  flights := List.Perm.refl _
  pending := Nat.zero_le _
  cache := Nat.zero_le _
  answers address result hget := by simp [MemberCalls.initial, Members.fresh] at hget
  ran := List.forall_mem_nil _

theorem MemberCalls.Ok.move (h : state.Ok) {now : Time} {i : ℕ} {call : MemberCall}
    {members' : Members} {next : CallState} (hcall : state.calls[i]? = some call)
    (hmove : MemberCall.Move now state.members call members' next) :
    MemberCalls.Ok ⟨members', state.calls.set i (call.proceed next)⟩ := by
  have hmem := List.mem_of_getElem? hcall
  cases hmove with
  | mk pc members' next hpc hcontext hlookup =>
    refine ⟨?_, hlookup.keyN_pending_le h.pending, hlookup.keyN_cache_le h.cache,
      fun _ _ ↦ hlookup.answered_of_cached h.answers, ?_⟩
    · have hset := perm_filterMap_set MemberCall.flight hcall (call.proceed next)
      have hkeys := hlookup.perm_pending fun hfly ↦
        h.flights.mem_iff.mp (List.mem_filterMap.mpr
          ⟨call, hmem, by rw [MemberCall.flight, hpc, if_pos hfly]⟩)
      simp only [MemberCall.toList_flight, MemberCall.state_proceed, MemberCall.address_proceed,
        hpc] at hset
      exact (List.perm_append_right_iff _).mp
        (hset.trans ((h.flights.append_right _).trans hkeys.symm))
    · refine forall_mem_set h.ran fun result hstoring ↦ ?_
      rw [MemberCall.state_proceed] at hstoring
      subst hstoring
      exact List.mem_cons_self

theorem MemberCalls.Ok.step (h : state.Ok) (hstep : MemberCalls.Step state state') :
    state'.Ok := by
  cases hstep with
  | call address =>
    refine ⟨?_, h.pending, h.cache, h.answers, ?_⟩
    · simpa [MemberCall.flight, MemberCall.start, inFlight] using h.flights
    · intro call hcall result hstoring
      rcases List.mem_append.mp hcall with hold | hnew
      · exact h.ran call hold result hstoring
      · obtain rfl := List.mem_singleton.mp hnew
        cases hstoring
  | cancel i call hcall =>
    have hmem := List.mem_of_getElem? hcall
    refine ⟨?_, h.pending, h.cache, h.answers, forall_mem_set h.ran (h.ran call hmem)⟩
    have hset := perm_filterMap_set MemberCall.flight hcall { call with done := true }
    exact ((List.perm_append_right_iff _).mp hset).trans h.flights
  | move now i call members' next hcall hmove => exact h.move hcall hmove

/-- However the calls interleave: no address has two lookups in flight and there are at most 128;
the cache has at most 4096 entries, all of them answers; and a call that returns has an answer of
its own lookup or a fresh one of the cache, or it fails because its own context is done, because 128
lookups are pending, or as its own lookup did. -/
theorem membership_coalesced
    (hrun : Run MemberCalls.Step (fun _ _ ↦ True) MemberCalls.initial state) :
    ((state.calls.filterMap MemberCall.flight).Nodup ∧
      (state.calls.filterMap MemberCall.flight).length ≤ 128) ∧
    (state.members.cache.keyN ≤ 4096 ∧
      ∀ address error, state.members.cache.get address ≠ some (.failed error)) ∧
    ∀ call ∈ state.calls, ∀ now members',
      (∀ member checked,
        MemberCall.Move now state.members call members' (.inr (.answered member checked)) →
          .answered member checked ∈ call.ran ∨
            state.members.cache.get call.address = some (.answered member checked) ∧
              now.sub checked < 30 * Time.second) ∧
      ∀ error, MemberCall.Move now state.members call members' (.inr (.failed error)) →
        error = .context ∧ call.done = true ∨
          error = .capacity ∧ 128 ≤ state.members.pending.keyN ∨ .failed error ∈ call.ran := by
  have hok : state.Ok :=
    Run.invariant MemberCalls.Ok (fun _ _ h hstep _ ↦ h.step hstep) hrun MemberCalls.ok_initial
  refine ⟨⟨?_, ?_⟩, ⟨hok.cache, ?_⟩, ?_⟩
  · exact hok.flights.nodup_iff.mpr (Bucket.nodup_keys _)
  · rw [hok.flights.length_eq, Bucket.length_keys]
    exact hok.pending
  · intro address error hget
    obtain ⟨member, checked, heq⟩ := hok.answers address _ hget
    cases heq
  · intro call hcall now members'
    constructor
    · rintro member checked ⟨pc, _, _, hpc, hcontext, hlookup⟩
      cases hlookup with
      | hit result hcached =>
        rw [Members.cached, Option.filter_eq_some_iff] at hcached
        exact Or.inr ⟨hcached.1, of_decide_eq_true hcached.2⟩
      | store => exact Or.inl (hok.ran call hcall _ hpc)
    · rintro error ⟨pc, _, _, hpc, hcontext, hlookup⟩
      cases hlookup with
      | hit result hcached =>
        rw [Members.cached, Option.filter_eq_some_iff] at hcached
        obtain ⟨-, hfresh⟩ := hcached
        cases hfresh
      | crowded hcached hpending hfull => exact Or.inr (Or.inl ⟨rfl, hfull⟩)
      | cancelled channel => exact Or.inl ⟨rfl, hcontext channel _ rfl rfl⟩
      | forget => exact Or.inr (Or.inr (hok.ran call hcall _ hpc))

end Runs

/-- One caller looks an account up while another one waits for it and then finds the answer. -/
theorem exists_sample_calls : ∃ state,
    Run MemberCalls.Step (fun _ _ ↦ True) MemberCalls.initial state ∧
      ∃ call ∈ state.calls, call.ran = [] ∧
        MemberCall.Move ⟨1, 1⟩ state.members call state.members
          (.inr (.answered true ⟨0, 0⟩)) := by
  have hmove {state : MemberCalls} (hrun : Run MemberCalls.Step (fun _ _ ↦ True)
      MemberCalls.initial state) (i : ℕ) {call : MemberCall} (hcall : state.calls[i]? = some call)
      {pc : LookupPc} {members' : Members} {next : LookupPc} (hpc : call.state = .inl pc)
      (hlookup : Lookup ⟨0, 0⟩ call.address state.members pc members' (.inl next)) :
      Run MemberCalls.Step (fun _ _ ↦ True) MemberCalls.initial
        ⟨members', state.calls.set i (call.proceed (.inl next))⟩ :=
    hrun.snoc (.move ⟨0, 0⟩ i call members' (.inl next) hcall
      (.mk pc members' _ hpc (fun _ _ _ heq ↦ by cases heq) hlookup)) trivial
  have h0 := ((Run.refl MemberCalls.initial).snoc (.call "a".toList) trivial :
    Run MemberCalls.Step (fun _ _ ↦ True) MemberCalls.initial _)
  have h1 := h0.snoc (.call "a".toList) trivial
  have h2 := hmove h1 0 rfl rfl (.start rfl rfl (by decide))
  have h3 := hmove h2 1 rfl rfl (.join 0 rfl rfl)
  have h4 := hmove h3 0 rfl rfl (.send [] [⟨0, 0⟩] .send)
  have h5 := hmove h4 0 rfl rfl (.answer _ (.answered true ⟨0, 0⟩) (.positive _ (by simp)))
  have h6 := h5.snoc (.move ⟨0, 0⟩ 0 _ _ (.inr (.answered true ⟨0, 0⟩)) rfl
    (.mk _ _ _ rfl (fun _ _ heq ↦ by cases heq)
      (.store true ⟨0, 0⟩ [] (by decide)))) trivial
  have h7 := hmove h6 1 rfl rfl (.wake 0 (by decide))
  exact ⟨_, h7, _, List.mem_of_getElem? (i := 1) rfl, rfl,
    .mk .look _ _ rfl (fun _ _ heq ↦ by cases heq) (.hit _ rfl)⟩

theorem membership_coalesced_sample : ∃ state,
    Run MemberCalls.Step (fun _ _ ↦ True) MemberCalls.initial state ∧
      ∃ call ∈ state.calls, call.ran = [] ∧
        state.members.cache.get call.address = some (.answered true ⟨0, 0⟩) := by
  obtain ⟨state, hrun, call, hcall, hran, hmove⟩ := exists_sample_calls
  obtain ⟨hanswered, -⟩ := (membership_coalesced hrun).2.2 call hcall ⟨1, 1⟩ state.members
  rcases hanswered true ⟨0, 0⟩ hmove with hown | ⟨hcached, -⟩
  · simp [hran] at hown
  · exact ⟨state, hrun, call, hcall, hran, hcached⟩

end QortalRelay.Access
