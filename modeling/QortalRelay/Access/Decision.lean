import QortalRelay.Access.GroupCheck

/-!
# The decision about an account

What a check of an account returns is determined by the results of its lookups, in whatever order
they arrive (`Check.Decided`). The invariant is a tally: every result of a lookup has been taken or
is in the channel (`Check.Tallied`). Seen from outside, a check is a `CheckGroups` exchange
(`CheckMove.refines`). A check always returns: every move lowers a rank, and a check that waits has
a lookup that can move or waits for a slot whose holder can (`Checks.Ok.exists_move`).
-/

set_option autoImplicit false
set_option relaxedAutoImplicit false

namespace QortalRelay.Access

open Foundation Encoding Trace

/-! ### The result of a check -/

section Check

variable {policy : GroupPolicy} {check : Check}

/-- The result is determined by those of the lookups: a positive one makes the account a member,
only negative ones make it none, and otherwise the check fails. -/
structure Check.Decided (check : Check) (result : MembershipResult) : Prop where
  member : (∃ checked, result = .answered true checked) ↔
    ∃ lookup ∈ check.lookups, ∃ started, lookup.result = some (.answered true started)
  failed : (∃ error, result = .failed error) ↔
    (∀ lookup ∈ check.lookups, ∀ started, lookup.result ≠ some (.answered true started)) ∧
      ∃ lookup ∈ check.lookups, ∃ error, lookup.result = some (.failed error)
  nonMember : (∃ checked, result = .answered false checked) ↔
    ∀ lookup ∈ check.lookups, ∃ started, lookup.result = some (.answered false started)

/-- The result a check returns when it has taken some results and has to take so many more. -/
inductive Concluded (unread : ℕ) (taken : List MembershipResult) : MembershipResult → Prop
  | positive (started : Time) (htaken : .answered true started ∈ taken) :
      Concluded unread taken (.answered true started)
  | unresolved (error : LookupError) (hunread : unread = 0)
      (hpositive : ∀ started, .answered true started ∉ taken)
      (hfailed : ∃ error, .failed error ∈ taken) : Concluded unread taken (.failed error)
  | negative (checked : Time) (hunread : unread = 0)
      (hpositive : ∀ started, .answered true started ∉ taken)
      (hfailed : ∀ error, .failed error ∉ taken) : Concluded unread taken (.answered false checked)

/-- The results of the lookups have been taken or are in the channel. -/
structure Check.Tallied (check : Check) (taken : List MembershipResult) : Prop where
  arrived : (taken ++ check.channel).Perm (check.lookups.filterMap (·.result))
  unread : check.unread + taken.length = check.lookups.length
  unresolved : check.unresolved.isSome = true ↔ ∃ error, .failed error ∈ taken
  running : check.result = none → ∀ started, .answered true started ∉ taken
  concluded : ∀ result, check.result = some result → Concluded check.unread taken result

/-- Holds of every check in a reachable state: a lookup for each group of the policy in its order,
each with an account of the servers it tried, and the results taken so far add up. -/
structure Check.Ok (policy : GroupPolicy) (check : Check) : Prop where
  groups : check.lookups.map (·.group) = policy.allowedGroupIds
  lookups : ∀ lookup ∈ check.lookups, lookup.Ok policy check.address check.sent
  tallied : ∃ taken, check.Tallied taken

variable {taken : List MembershipResult}

theorem Check.Tallied.exists_lookup (h : check.Tallied taken) {result : MembershipResult}
    (hresult : result ∈ taken ++ check.channel) :
    ∃ lookup ∈ check.lookups, lookup.result = some result :=
  List.mem_filterMap.mp (h.arrived.mem_iff.mp hresult)

/-- When the check has taken all results, every lookup has returned one of them. -/
theorem Check.Tallied.exists_result (h : check.Tallied taken) (hunread : check.unread = 0)
    {lookup : GroupLookup} (hlookup : lookup ∈ check.lookups) :
    ∃ result ∈ taken, lookup.result = some result := by
  have harrived := h.arrived.length_eq
  have htaken := h.unread
  have hreturned := List.length_filterMap_le (fun lookup : GroupLookup ↦ lookup.result)
    check.lookups
  rw [List.length_append] at harrived
  have hchannel : check.channel = [] := List.length_eq_zero_iff.mp (by omega)
  have hall := List.filterMap_length_eq_length.mp (by omega :
    (check.lookups.filterMap (·.result)).length = check.lookups.length)
  obtain ⟨result, hresult⟩ := Option.isSome_iff_exists.mp (hall lookup hlookup)
  refine ⟨result, ?_, hresult⟩
  have hmem := h.arrived.mem_iff.mpr (List.mem_filterMap.mpr ⟨lookup, hlookup, hresult⟩)
  rwa [hchannel, List.append_nil] at hmem

theorem Check.Tallied.decided (h : check.Tallied taken) {result : MembershipResult}
    (hresult : Concluded check.unread taken result) : check.Decided result := by
  cases hresult with
  | positive started htaken =>
    obtain ⟨lookup, hlookup, hpositive⟩ := h.exists_lookup (List.mem_append_left _ htaken)
    refine ⟨iff_of_true ⟨started, rfl⟩ ⟨lookup, hlookup, started, hpositive⟩,
      iff_of_false (by simp) ?_, iff_of_false (by simp) ?_⟩
    · rintro ⟨hnone, -⟩
      exact hnone lookup hlookup started hpositive
    · intro hall
      obtain ⟨checked, hnegative⟩ := hall lookup hlookup
      simp [hpositive] at hnegative
  | unresolved error hunread hpositive hfailed =>
    have hnone : ∀ lookup ∈ check.lookups, ∀ started,
        lookup.result ≠ some (.answered true started) := by
      intro lookup hlookup started heq
      obtain ⟨result, htaken, hresult⟩ := h.exists_result hunread hlookup
      obtain rfl := Option.some.inj (hresult.symm.trans heq)
      exact hpositive started htaken
    obtain ⟨found, htaken⟩ := hfailed
    obtain ⟨lookup, hlookup, hfound⟩ := h.exists_lookup (List.mem_append_left _ htaken)
    refine ⟨iff_of_false (by simp) ?_,
      iff_of_true ⟨error, rfl⟩ ⟨hnone, lookup, hlookup, found, hfound⟩,
      iff_of_false (by simp) ?_⟩
    · rintro ⟨other, hother, started, heq⟩
      exact hnone other hother started heq
    · intro hall
      obtain ⟨checked, hnegative⟩ := hall lookup hlookup
      simp [hfound] at hnegative
  | negative checked hunread hpositive hfailed =>
    have hall : ∀ lookup ∈ check.lookups, ∃ started,
        lookup.result = some (.answered false started) := by
      intro lookup hlookup
      obtain ⟨result, htaken, hresult⟩ := h.exists_result hunread hlookup
      rcases result with error | ⟨_ | _, started⟩
      · exact absurd htaken (hfailed error)
      · exact ⟨started, hresult⟩
      · exact absurd htaken (hpositive started)
    refine ⟨iff_of_false (by simp) ?_, iff_of_false (by simp) ?_,
      iff_of_true ⟨checked, rfl⟩ hall⟩
    · rintro ⟨lookup, hlookup, started, heq⟩
      obtain ⟨_, hnegative⟩ := hall lookup hlookup
      simp [heq] at hnegative
    · rintro ⟨-, lookup, hlookup, error, heq⟩
      obtain ⟨_, hnegative⟩ := hall lookup hlookup
      simp [heq] at hnegative

theorem Check.ok_start (policy : GroupPolicy) (address : Text) :
    (Check.start policy address).Ok policy where
  groups := by
    simp [Check.start, GroupLookup.start, Function.comp_def]
  lookups := by
    intro lookup hlookup
    obtain ⟨group, -, rfl⟩ := List.mem_map.mp hlookup
    exact GroupLookup.ok_start policy address [] group
  tallied := by
    refine ⟨[], ?_, by simp [Check.start], by simp [Check.start], by simp, by simp [Check.start]⟩
    simp [Check.start, GroupLookup.start, List.filterMap_map, Function.comp_def]

/-- A lookup that moves puts its result, if it has one now, in the channel. -/
theorem Check.Tallied.moved (h : check.Tallied taken) {i : ℕ} {before after : GroupLookup}
    {signal : Signal} (hbefore : check.lookups[i]? = some before)
    (hresult : signal.results = [] ∧ after.result = before.result ∨
      ∃ result, signal.results = [result] ∧ before.result = none ∧ after.result = some result) :
    (check.moved i after signal).Tallied taken where
  arrived := by
    have hset := perm_filterMap_set (fun lookup : GroupLookup ↦ lookup.result) hbefore after
    rcases hresult with ⟨hnil, heq⟩ | ⟨result, hone, hnone, hsome⟩
    · rw [heq, List.perm_append_right_iff] at hset
      simpa [Check.moved, hnil] using h.arrived.trans hset.symm
    · rw [hnone, hsome, Option.toList_none, List.append_nil] at hset
      refine List.Perm.trans ?_ hset.symm
      simpa [Check.moved, hone] using h.arrived.append_right [result]
  unread := by simpa [Check.moved] using h.unread
  unresolved := h.unresolved
  running := h.running
  concluded := h.concluded

/-- Taking a result from the channel keeps the tally. -/
theorem Check.Tallied.take (h : check.Tallied taken) {result : MembershipResult}
    {rest : List MembershipResult} (hresult : check.result = none) (hunread : 0 < check.unread)
    (hchannel : check.channel = result :: rest) :
    (check.take result rest).Tallied (taken ++ [result]) := by
  have harrived : (taken ++ [result] ++ rest).Perm (check.lookups.filterMap (·.result)) := by
    simpa [hchannel] using h.arrived
  have hcount : check.unread - 1 + (taken ++ [result]).length = check.lookups.length := by
    have := h.unread
    simp only [List.length_append, List.length_singleton]
    omega
  have hrunning := h.running hresult
  rcases result with error | ⟨_ | _, started⟩
  · refine ⟨harrived, hcount, ?_, ?_, ?_⟩
    · exact ⟨fun _ ↦ ⟨error, by simp⟩, fun _ ↦ rfl⟩
    · intro _ started
      simpa using hrunning started
    · intro result hfound
      simp [Check.take, hresult] at hfound
  · refine ⟨harrived, hcount, ?_, ?_, ?_⟩
    · simpa [Check.take] using h.unresolved
    · intro _ started
      simpa using hrunning started
    · intro result hfound
      simp [Check.take, hresult] at hfound
  · refine ⟨harrived, hcount, ?_, ?_, ?_⟩
    · simpa [Check.take] using h.unresolved
    · intro hnone
      simp [Check.take] at hnone
    · intro result hfound
      obtain rfl := Option.some.inj hfound
      exact .positive started (by simp)

/-- The check that has taken everything returns. -/
theorem Check.Tallied.finish (h : check.Tallied taken) (hresult : check.result = none)
    (hunread : check.unread = 0) (now : Time) : (check.finish now).Tallied taken where
  arrived := h.arrived
  unread := h.unread
  unresolved := h.unresolved
  running := by
    intro hnone
    simp [Check.finish] at hnone
  concluded := by
    intro result hfound
    obtain rfl := Option.some.inj hfound
    have hfailed := h.unresolved
    cases hunresolved : check.unresolved with
    | none =>
      rw [hunresolved] at hfailed
      simp only [Option.isSome_none, Bool.false_eq_true, false_iff, not_exists] at hfailed
      exact .negative now hunread (h.running hresult) hfailed
    | some error =>
      rw [hunresolved] at hfailed
      exact .unresolved error hunread (h.running hresult) (hfailed.mp rfl)

theorem Check.Ok.moved (h : check.Ok policy) {i : ℕ} {before after : GroupLookup} {signal : Signal}
    {now : Time} {cores cores' : Cores} (hbefore : check.lookups[i]? = some before)
    (hmove : GroupMove policy check.address now check.done check.room cores before cores' after
      signal) : (check.moved i after signal).Ok policy where
  groups := by
    have hi : i < check.lookups.length := (List.getElem?_eq_some_iff.mp hbefore).1
    have hgroup : (check.lookups.map (·.group))[i]? = some after.group := by
      simp [hbefore, hmove.group_eq]
    rw [← h.groups]
    simp only [Check.moved, List.map_set]
    exact List.ext_getElem? fun j ↦ by
      by_cases hij : i = j
      · subst hij
        rw [List.getElem?_set_self (by simpa using hi), hgroup]
      · rw [List.getElem?_set_ne hij]
  lookups := by
    have hold := h.lookups before (List.mem_of_getElem? hbefore)
    refine forall_mem_set (fun lookup hlookup ↦ ?_) (hmove.ok hold)
    exact (h.lookups lookup hlookup).mono (List.subset_append_right _ _)
  tallied := by
    obtain ⟨taken, htallied⟩ := h.tallied
    have hold := h.lookups before (List.mem_of_getElem? hbefore)
    exact ⟨taken, htallied.moved hbefore (hmove.result hold)⟩

theorem Check.Ok.cancel (h : check.Ok policy) : Check.Ok policy { check with done := true } := by
  obtain ⟨taken, htallied⟩ := h.tallied
  exact ⟨h.groups, h.lookups, taken, htallied.arrived, htallied.unread, htallied.unresolved,
    htallied.running, htallied.concluded⟩

theorem CheckMove.ok {now : Time} {cores cores' : Cores} {check' : Check}
    (hmove : CheckMove policy now cores check cores' check') (h : check.Ok policy) :
    check'.Ok policy := by
  obtain ⟨taken, htallied⟩ := h.tallied
  cases hmove with
  | lookup i before after signal cores' hbefore hmove => exact h.moved hbefore hmove
  | take result rest hresult hunread hchannel =>
    have htake := htallied.take hresult hunread hchannel
    rcases result with error | ⟨_ | _, started⟩ <;> exact ⟨h.groups, h.lookups, _, htake⟩
  | finish hresult hunread =>
    exact ⟨h.groups, h.lookups, taken, htallied.finish hresult hunread now⟩

/-- Seen from outside, a check that has not returned sends requests and returns as `CheckGroups`
says. -/
theorem CheckMove.refines {now : Time} {cores cores' : Cores} {check' : Check}
    (hmove : CheckMove policy now cores check cores' check') (h : check.Ok policy)
    (hrunning : check.result = none) :
    check'.result = none ∧ check'.sent = check.sent ∨
      check'.result = none ∧ CheckGroups now check.sent (.inl check'.sent) ∨
      ∃ result, check'.result = some result ∧ check'.sent = check.sent ∧
        CheckGroups now check.sent (.inr result) := by
  obtain ⟨taken, htallied⟩ := h.tallied
  cases hmove with
  | lookup i before after signal cores' hbefore hmove =>
    cases hmove with
    | ask => exact Or.inr (Or.inl ⟨hrunning, CheckGroups.send⟩)
    | _ => exact Or.inl ⟨hrunning, rfl⟩
  | take result rest hresult hunread hchannel =>
    rcases result with error | ⟨_ | _, started⟩
    · exact Or.inl ⟨hrunning, rfl⟩
    · exact Or.inl ⟨hrunning, rfl⟩
    · obtain ⟨lookup, hlookup, hpositive⟩ := htallied.exists_lookup
        (List.mem_append_right taken (hchannel ▸ List.mem_cons_self))
      obtain ⟨-, htimes⟩ := (h.lookups lookup hlookup).of_result hpositive
      exact Or.inr (Or.inr ⟨_, rfl, rfl, .positive started (htimes true started rfl)⟩)
  | finish hresult hunread =>
    refine Or.inr (Or.inr ⟨_, rfl, rfl, ?_⟩)
    cases check.unresolved with
    | none => exact .negative
    | some error => exact .unresolved error

end Check

/-! ### Progress -/

/-- No lookup makes more moves than this, when there are so many servers. -/
def GroupPc.rank (servers : ℕ) : GroupPc → ℕ
  | .waiting => 4 * servers + 4
  | .entered => 4 * servers + 3
  | .slot rest => 4 * rest.length + 2
  | .asking _ rest _ => 4 * rest.length + 5
  | .replied _ _ rest _ => 4 * rest.length + 4
  | .demoting _ rest => 4 * rest.length + 3
  | .leaving => 1
  | .gone => 0

/-- Whether it holds one of the sixteen slots, as a number. -/
def GroupPc.held : GroupPc → ℕ
  | .asking _ _ _ => 1
  | _ => 0

/-- Falls with every move of the check. -/
def Check.rank (policy : GroupPolicy) (check : Check) : ℕ :=
  weight (fun lookup ↦ lookup.pc.rank policy.coreUrlBases.length) check.lookups + check.unread +
    check.result.isNone.toNat

def Check.held (check : Check) : ℕ := weight (fun lookup ↦ lookup.pc.held) check.lookups

def Checks.rank (policy : GroupPolicy) (state : Checks) : ℕ :=
  weight (Check.rank policy) state.checks

section Progress

variable {policy : GroupPolicy} {address : Text} {now : Time} {done room : Bool}
  {cores cores' : Cores} {lookup after : GroupLookup} {signal : Signal} {check check' : Check}
  {state state' : Checks}

theorem Snapshot.length_bases_le (snapshot : Snapshot) (policy : GroupPolicy) :
    (snapshot.bases policy).length ≤ policy.coreUrlBases.length := by
  unfold Snapshot.bases
  split_ifs
  · exact le_rfl
  · rw [Snapshot.healthy, List.length_map]
    refine (List.length_filter_le _ _).trans ?_
    rw [List.length_zip]
    exact min_le_left _ _

theorem GroupMove.rank_lt
    (hmove : GroupMove policy address now done room cores lookup cores' after signal) :
    after.pc.rank policy.coreUrlBases.length < lookup.pc.rank policy.coreUrlBases.length := by
  cases hmove with
  | choose readings hpc =>
    have hlength := Snapshot.length_bases_le ⟨cores.failures, readings⟩ policy
    simp only [hpc, GroupPc.rank]
    omega
  | enter hpc | turnAway hpc | ask _ _ hpc | expire _ _ hpc | exhaust hpc | receive _ _ _ _ hpc
  | accept _ _ _ _ _ hpc | excuse _ _ _ hpc | reject _ _ _ _ hpc | demote _ _ hpc | leave hpc =>
    simp only [hpc, GroupPc.rank, List.length_cons]
    omega

/-- Slots are taken and given back by the lookup that holds them. -/
theorem GroupMove.held_eq
    (hmove : GroupMove policy address now done room cores lookup cores' after signal)
    (hheld : lookup.pc.held ≤ cores.slots) :
    cores'.slots + lookup.pc.held = cores.slots + after.pc.held := by
  cases hmove with
  | ask _ _ hpc => simp [hpc, GroupPc.held]
  | receive _ _ _ _ hpc =>
    simp only [hpc, GroupPc.held] at hheld ⊢
    omega
  | enter hpc | turnAway hpc | choose _ hpc | expire _ _ hpc | exhaust hpc
  | accept _ _ _ _ _ hpc | excuse _ _ _ hpc | reject _ _ _ _ hpc | demote _ _ hpc | leave hpc =>
    simp [hpc, GroupPc.held, Cores.demote]

/-- Assumes: a lookup that has not gone, has a place or can take one, and has a slot or can take
one. It can move. -/
theorem GroupLookup.exists_move (hpc : lookup.pc ≠ .gone)
    (hroom : lookup.pc = .waiting → room = true)
    (hslot : ∀ base rest, lookup.pc = .slot (base :: rest) → cores.slots < 16) :
    ∃ cores' after signal, GroupMove policy address now done room cores lookup cores' after
      signal := by
  cases h : lookup.pc with
  | waiting => exact ⟨_, _, _, .enter h (hroom h)⟩
  | entered => exact ⟨_, _, _, .choose (List.replicate _ now) h List.length_replicate⟩
  | slot rest =>
    cases rest with
    | nil => exact ⟨_, _, _, .exhaust h⟩
    | cons base rest => exact ⟨_, _, _, .ask base rest h (hslot base rest h)⟩
  | asking base rest started => exact ⟨_, _, _, .receive base rest started .failed h⟩
  | replied reply base rest started =>
    cases hanswer : reply.answer policy.unmarshal address with
    | some member => exact ⟨_, _, _, .accept reply base rest started member h hanswer⟩
    | none =>
      by_cases hexcused : reply = .failed ∧ done = true
      · obtain ⟨rfl, hdone⟩ := hexcused
        exact ⟨_, _, _, .excuse base rest started h hdone⟩
      · refine ⟨_, _, _, .reject reply base rest started h hanswer fun hfailed ↦ ?_⟩
        exact Bool.eq_false_iff.mpr fun hdone ↦ hexcused ⟨hfailed, hdone⟩
  | demoting base rest => exact ⟨_, _, _, .demote base rest h⟩
  | leaving => exact ⟨_, _, _, .leave h⟩
  | gone => exact absurd h hpc

theorem CheckMove.rank_lt (hmove : CheckMove policy now cores check cores' check') :
    check'.rank policy < check.rank policy := by
  cases hmove with
  | lookup i before after signal cores' hbefore hmove =>
    have hset := weight_set (fun lookup : GroupLookup ↦
      lookup.pc.rank policy.coreUrlBases.length) hbefore after
    have hlt := hmove.rank_lt
    simp only [Check.rank, Check.moved]
    omega
  | take result rest hresult hunread hchannel =>
    rcases result with error | ⟨_ | _, started⟩
    all_goals
      simp only [Check.rank, Check.take, hresult, Option.isNone_none, Option.isNone_some,
        Bool.toNat_true, Bool.toNat_false]
      omega
  | finish hresult hunread =>
    simp only [Check.rank, Check.finish, hresult, Option.isNone_none, Option.isNone_some,
      Bool.toNat_true, Bool.toNat_false]
    omega

theorem CheckMove.held_eq (hmove : CheckMove policy now cores check cores' check')
    (hheld : check.held ≤ cores.slots) :
    cores'.slots + check.held = cores.slots + check'.held := by
  cases hmove with
  | lookup i before after signal cores' hbefore hmove =>
    have hset := weight_set (fun lookup : GroupLookup ↦ lookup.pc.held) hbefore after
    have hle : before.pc.held ≤ check.held :=
      le_weight (f := fun lookup : GroupLookup ↦ lookup.pc.held) (List.mem_of_getElem? hbefore)
    have hslots := hmove.held_eq (hle.trans hheld)
    simp only [Check.held, Check.moved] at hle hheld ⊢
    omega
  | take result rest hresult hunread hchannel =>
    rcases result with error | ⟨_ | _, started⟩ <;> rfl
  | finish => rfl

/-- A check that waits for a result has a lookup that is not done and does not wait for a place. -/
theorem Check.Ok.exists_ready (h : check.Ok policy) (hunread : 0 < check.unread)
    (hchannel : check.channel = []) :
    ∃ lookup ∈ check.lookups, lookup.pc ≠ .gone ∧
      (lookup.pc = .waiting → check.room = true) := by
  obtain ⟨taken, htallied⟩ := h.tallied
  have hfewer : (check.lookups.filterMap (·.result)).length < check.lookups.length := by
    have harrived := htallied.arrived.length_eq
    have htaken := htallied.unread
    rw [hchannel, List.append_nil] at harrived
    omega
  obtain ⟨lookup, hlookup, hnone⟩ := List.length_filterMap_lt_length_iff_exists.mp hfewer
  by_cases hwaits : lookup.pc = .waiting ∧ check.room = false
  · -- All four places are taken, by lookups that are neither waiting nor gone.
    have hroom := hwaits.2
    rw [Check.room, decide_eq_false_iff_not, not_lt] at hroom
    obtain ⟨other, hother⟩ := List.exists_mem_of_length_pos (by omega :
      0 < (check.lookups.filter GroupLookup.inside).length)
    obtain ⟨hmem, hinside⟩ := List.mem_filter.mp hother
    refine ⟨other, hmem, ?_, ?_⟩
    · intro hpc
      simp [GroupLookup.inside, hpc] at hinside
    · intro hpc
      simp [GroupLookup.inside, hpc] at hinside
  · refine ⟨lookup, hlookup, ?_, ?_⟩
    · intro hpc
      have hgone := h.lookups lookup hlookup
      simp only [GroupLookup.Ok, hpc] at hgone
      obtain ⟨result, hsome, -⟩ := hgone
      rw [hnone] at hsome
      cases hsome
    · intro hpc
      exact Bool.not_eq_false _ |>.mp fun hroom ↦ hwaits ⟨hpc, hroom⟩

end Progress

/-! ### Runs -/

/-- Every check is in order, and the slots are held by the lookups that wait for a reply. -/
structure Checks.Ok (policy : GroupPolicy) (state : Checks) : Prop where
  checks : ∀ check ∈ state.checks, check.Ok policy
  slots : state.cores.slots = weight Check.held state.checks

section Runs

variable {policy : GroupPolicy} {state state' : Checks}

theorem Checks.Ok.move (h : state.Ok policy) (hmove : Checks.Move policy state state') :
    state'.Ok policy := by
  cases hmove with
  | mk now i check check' cores' hcheck hmove =>
    have hmem := List.mem_of_getElem? hcheck
    refine ⟨forall_mem_set h.checks (hmove.ok (h.checks check hmem)), ?_⟩
    have hset := weight_set Check.held hcheck check'
    have hheld := hmove.held_eq (h.slots ▸ le_weight hmem)
    have hslots := h.slots
    simp only
    omega

theorem Checks.ok_of_run (hrun : Run (Checks.Step policy) (fun _ _ ↦ True) Checks.initial state) :
    state.Ok policy := by
  refine Run.invariant (Checks.Ok policy) ?_ hrun ⟨List.forall_mem_nil _, rfl⟩
  intro before after h hstep _
  cases hstep with
  | start address =>
    constructor
    · intro check hcheck
      rcases List.mem_append.mp hcheck with hold | hnew
      · exact h.checks check hold
      · obtain rfl := List.mem_singleton.mp hnew
        exact Check.ok_start policy address
    · have hheld : (Check.start policy address).held = 0 :=
        weight_eq_zero fun lookup hlookup ↦ by
          obtain ⟨group, -, rfl⟩ := List.mem_map.mp hlookup
          rfl
      simp [h.slots, hheld]
  | cancel i check hcheck =>
    have hmem := List.mem_of_getElem? hcheck
    refine ⟨forall_mem_set h.checks (h.checks check hmem).cancel, ?_⟩
    have hset := weight_set Check.held hcheck { check with done := true }
    have hsame : Check.held { check with done := true } = check.held := rfl
    rw [hsame, Nat.add_right_cancel_iff] at hset
    exact h.slots.trans hset.symm
  | move _ hmove => exact h.move hmove

theorem Checks.Move.rank_lt (hmove : Checks.Move policy state state') :
    state'.rank policy < state.rank policy := by
  cases hmove with
  | mk now i check check' cores' hcheck hmove =>
    have hset := weight_set (Check.rank policy) hcheck check'
    have hlt := hmove.rank_lt
    simp only [Checks.rank]
    omega

/-- A lookup that has not gone and does not wait for a place moves, or a slot it waits for is given
back. -/
theorem Checks.Ok.exists_move_of_ready (h : state.Ok policy) {check : Check}
    (hcheck : check ∈ state.checks) {lookup : GroupLookup} (hlookup : lookup ∈ check.lookups)
    (hpc : lookup.pc ≠ .gone) (hroom : lookup.pc = .waiting → check.room = true) :
    ∃ after, Checks.Move policy state after := by
  have hmove : ∀ check ∈ state.checks, ∀ lookup ∈ check.lookups, lookup.pc ≠ .gone →
      (lookup.pc = .waiting → check.room = true) →
      (∀ base rest, lookup.pc = .slot (base :: rest) → state.cores.slots < 16) →
      ∃ after, Checks.Move policy state after := by
    intro check hcheck lookup hlookup hpc hroom hslot
    obtain ⟨i, hi⟩ := List.mem_iff_getElem?.mp hcheck
    obtain ⟨j, hj⟩ := List.mem_iff_getElem?.mp hlookup
    have hexists : ∃ cores' after signal, GroupMove policy check.address ⟨0, 0⟩ check.done
        check.room state.cores lookup cores' after signal :=
      GroupLookup.exists_move hpc hroom hslot
    obtain ⟨cores', after, signal, hmove⟩ := hexists
    exact ⟨_, .mk ⟨0, 0⟩ i check _ cores' hi (.lookup j lookup after signal cores' hj hmove)⟩
  by_cases hslots : state.cores.slots < 16
  · exact hmove check hcheck lookup hlookup hpc hroom fun _ _ _ ↦ hslots
  · -- One of the lookups that hold the slots is waiting for a reply.
    have hheld : weight Check.held state.checks ≠ 0 := by
      have := h.slots
      omega
    obtain ⟨other, hother, hholds⟩ := exists_mem_of_weight_ne_zero hheld
    obtain ⟨asking, hasking, hasks⟩ := exists_mem_of_weight_ne_zero hholds
    refine hmove other hother asking hasking ?_ ?_ ?_
    · intro hgone
      exact hasks (by simp [hgone, GroupPc.held])
    · intro hwaiting
      exact absurd (by simp [hwaiting, GroupPc.held]) hasks
    · intro base rest hslot
      exact absurd (by simp [hslot, GroupPc.held]) hasks

/-- As long as a check has not returned, there is a move. -/
theorem Checks.Ok.exists_move (h : state.Ok policy) {check : Check}
    (hcheck : check ∈ state.checks) (hresult : check.result = none) :
    ∃ after, Checks.Move policy state after := by
  obtain ⟨i, hi⟩ := List.mem_iff_getElem?.mp hcheck
  rcases Nat.eq_zero_or_pos check.unread with hunread | hunread
  · exact ⟨_, .mk ⟨0, 0⟩ i check _ _ hi (.finish hresult hunread)⟩
  · cases hchannel : check.channel with
    | cons result rest =>
      exact ⟨_, .mk ⟨0, 0⟩ i check _ _ hi (.take result rest hresult hunread hchannel)⟩
    | nil =>
      obtain ⟨lookup, hlookup, hpc, hroom⟩ :=
        (h.checks check hcheck).exists_ready hunread hchannel
      exact h.exists_move_of_ready hcheck hlookup hpc hroom

end Runs

/-- One group and two servers, one byte of whose replies says that the account `a` is a member. -/
def sampleGroups : GroupPolicy where
  coreUrlBases := ["b".toList, "c".toList]
  allowedGroupIds := [1]
  unmarshal raw := if raw = [1] then some [⟨"a".toList, some true⟩] else none

/-- The first server fails and is demoted, the second one answers. -/
theorem exists_sample_run : ∃ state,
    Run (Checks.Step sampleGroups) (fun _ _ ↦ True) Checks.initial state ∧
      ∃ check ∈ state.checks, check.result = some (.answered true ⟨2, 2⟩) := by
  have hmove {state : Checks} (hrun : Run (Checks.Step sampleGroups) (fun _ _ ↦ True)
      Checks.initial state) {check : Check} (hcheck : state.checks = [check]) (now : Time)
      {cores' : Cores} {check' : Check}
      (hmove : CheckMove sampleGroups now state.cores check cores' check') :
      Run (Checks.Step sampleGroups) (fun _ _ ↦ True) Checks.initial ⟨cores', [check']⟩ := by
    have hstep := Checks.Move.mk now 0 check check' cores' (by simp [hcheck]) hmove
    rw [hcheck] at hstep
    exact hrun.snoc (.move _ hstep) trivial
  have h0 : Run (Checks.Step sampleGroups) (fun _ _ ↦ True) Checks.initial
      ⟨Cores.fresh, [Check.start sampleGroups "a".toList]⟩ :=
    (Run.refl _).snoc (.start "a".toList) trivial
  have h1 := hmove h0 rfl ⟨0, 0⟩ (.lookup 0 _ _ _ _ rfl (.enter rfl rfl))
  have h2 := hmove h1 rfl ⟨0, 0⟩ (.lookup 0 _ _ _ _ rfl (.choose [⟨0, 0⟩, ⟨0, 0⟩] rfl rfl))
  have h3 := hmove h2 rfl ⟨1, 1⟩ (.lookup 0 _ _ _ _ rfl (.ask _ _ rfl (by decide)))
  have h4 := hmove h3 rfl ⟨1, 1⟩
    (.lookup 0 _ _ _ _ rfl (.receive _ _ _ (.response 500 [] false) rfl))
  have h5 := hmove h4 rfl ⟨1, 1⟩ (.lookup 0 _ _ _ _ rfl (.reject _ _ _ _ rfl rfl (by decide)))
  have h6 := hmove h5 rfl ⟨1, 1⟩ (.lookup 0 _ _ _ _ rfl (.demote _ _ rfl))
  have h7 := hmove h6 rfl ⟨2, 2⟩ (.lookup 0 _ _ _ _ rfl (.ask _ _ rfl (by decide)))
  have h8 := hmove h7 rfl ⟨2, 2⟩
    (.lookup 0 _ _ _ _ rfl (.receive _ _ _ (.response 200 [1] false) rfl))
  have h9 := hmove h8 rfl ⟨2, 2⟩ (.lookup 0 _ _ _ _ rfl (.accept _ _ _ _ true rfl rfl))
  have h10 := hmove h9 rfl ⟨2, 2⟩ (.take (.answered true ⟨2, 2⟩) [] rfl (by decide) rfl)
  exact ⟨_, h10, _, List.mem_singleton_self _, rfl⟩

end QortalRelay.Access
