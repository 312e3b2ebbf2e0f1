import QortalRelay.Access.GroupCheck

/-!
# Which servers are demoted

The checks of accounts with a record of the replies that were received and of the demotions they led
to. A request that fails once the context of its check is done is no reason to demote the server,
and the code looks at the context before it does. It does not look when the body of a reply breaks
off, and a body breaks off too when the context is done. So a check that has found a group of the
account can demote a server that was about to answer for another group (`demotes_healthy`). That is
the only way: as long as no reply other than a failed request is spoiled by the context, a server is
demoted for a failure of its own (`demotions_warranted`).
-/

set_option autoImplicit false
set_option relaxedAutoImplicit false

namespace QortalRelay.Access

open Foundation Encoding Trace

/-! ### The record -/

/-- What a lookup does that says something about a server: it takes its reply, or counts it as
failed. -/
inductive Happening
  /-- A reply is received, with whether the context was done by then. -/
  | received (base : Text) (reply : CoreReply) (done : Bool)
  | demoted (base : Text)
deriving DecidableEq

/-- What happened in a lookup of a check for an account. -/
structure Record where
  check : ℕ
  lookup : ℕ
  address : Text
  what : Happening
deriving DecidableEq

/-- What a move of a lookup adds to the record. -/
def GroupPc.happened (done : Bool) : GroupPc → GroupPc → Option Happening
  | .asking base _ _, .replied reply _ _ _ => some (.received base reply done)
  | .demoting base _, .slot _ => some (.demoted base)
  | _, _ => none

/-- The checks with a record of what happened to the servers, which no step reads. -/
structure Watched where
  checks : Checks
  log : List Record

def Watched.initial : Watched := ⟨Checks.initial, []⟩

/-- The state with a check that has changed. -/
def Checks.put (state : Checks) (i : ℕ) (cores : Cores) (check : Check) : Checks :=
  ⟨cores, state.checks.set i check⟩

/-- What lookup `j` of check `i` adds to the record when it moves from one state to another. -/
def Watched.records (i j : ℕ) (check : Check) (before after : GroupLookup) : List Record :=
  ((before.pc.happened check.done after.pc).map (Record.mk i j check.address)).toList

/-- The steps of the checks, with the record. -/
inductive Watched.Step (policy : GroupPolicy) (state : Watched) : Watched → Prop
  | start (address : Text) :
      Watched.Step policy state
        ⟨{ state.checks with checks := state.checks.checks ++ [Check.start policy address] },
          state.log⟩
  | cancel (i : ℕ) (check : Check) (hcheck : state.checks.checks[i]? = some check) :
      Watched.Step policy state
        ⟨state.checks.put i state.checks.cores { check with done := true }, state.log⟩
  | lookup (now : Time) (i j : ℕ) (check : Check) (before after : GroupLookup) (signal : Signal)
      (cores' : Cores) (hcheck : state.checks.checks[i]? = some check)
      (hbefore : check.lookups[j]? = some before)
      (hmove : GroupMove policy check.address now check.done check.room state.checks.cores before
        cores' after signal) :
      Watched.Step policy state
        ⟨state.checks.put i cores' (check.moved j after signal),
          state.log ++ Watched.records i j check before after⟩
  | take (i : ℕ) (check : Check) (result : MembershipResult) (rest : List MembershipResult)
      (hcheck : state.checks.checks[i]? = some check) (hresult : check.result = none)
      (hunread : 0 < check.unread) (hchannel : check.channel = result :: rest) :
      Watched.Step policy state
        ⟨state.checks.put i state.checks.cores (check.take result rest), state.log⟩
  | finish (now : Time) (i : ℕ) (check : Check) (hcheck : state.checks.checks[i]? = some check)
      (hresult : check.result = none) (hunread : check.unread = 0) :
      Watched.Step policy state
        ⟨state.checks.put i state.checks.cores (check.finish now), state.log⟩

section Watching

variable {policy : GroupPolicy} {state state' : Watched}

/-- The record changes nothing. -/
theorem Watched.Step.checks_step (hstep : Watched.Step policy state state') :
    Checks.Step policy state.checks state'.checks := by
  cases hstep with
  | start address => exact .start address
  | cancel i check hcheck => exact .cancel i check hcheck
  | lookup now i j check before after signal cores' hcheck hbefore hmove =>
    exact .move _ (.mk now i check _ cores' hcheck
      (.lookup j before after signal cores' hbefore hmove))
  | take i check result rest hcheck hresult hunread hchannel =>
    exact .move _ (.mk ⟨0, 0⟩ i check _ _ hcheck (.take result rest hresult hunread hchannel))
  | finish now i check hcheck hresult hunread =>
    exact .move _ (.mk now i check _ _ hcheck (.finish hresult hunread))

/-- Every step can be recorded. -/
theorem Watched.exists_step (state : Watched) {checks : Checks}
    (hstep : Checks.Step policy state.checks checks) :
    ∃ log, Watched.Step policy state ⟨checks, log⟩ := by
  cases hstep with
  | start address => exact ⟨_, .start address⟩
  | cancel i check hcheck => exact ⟨_, .cancel i check hcheck⟩
  | move after hmove =>
    obtain ⟨now, i, check, check', cores', hcheck, hmove⟩ := hmove
    cases hmove with
    | lookup j before after signal _ hbefore hmove =>
      exact ⟨_, .lookup now i j check before after signal cores' hcheck hbefore hmove⟩
    | take result rest hresult hunread hchannel =>
      exact ⟨_, .take i check result rest hcheck hresult hunread hchannel⟩
    | finish hresult hunread => exact ⟨_, .finish now i check hcheck hresult hunread⟩

/-- The checks run the same with a record. -/
theorem Watched.run_iff {checks : Checks} :
    Run (Checks.Step policy) (fun _ _ ↦ True) Checks.initial checks ↔
      ∃ log, Run (Watched.Step policy) (fun _ _ ↦ True) Watched.initial ⟨checks, log⟩ := by
  constructor
  · intro hrun
    induction hrun with
    | refl => exact ⟨[], Run.refl _⟩
    | tail _ hlast ih =>
      obtain ⟨log, hrun⟩ := ih
      obtain ⟨log', hstep⟩ := Watched.exists_step ⟨_, log⟩ hlast.1
      exact ⟨log', hrun.snoc hstep trivial⟩
  · rintro ⟨log, hrun⟩
    exact hrun.project Watched.checks fun _ _ hstep _ ↦ Or.inr ⟨hstep.checks_step, trivial⟩

end Watching

/-! ### Warranted demotions -/

/-- What was recorded last of a lookup. -/
def lastOf (log : List Record) (i j : ℕ) : Option Happening :=
  ((log.filter fun record ↦ record.check = i ∧ record.lookup = j).getLast?).map Record.what

/-- A server is demoted for the last reply its lookup has received: the reply is that server's, it
is not valid, and the context was not done. -/
def Warranted (policy : GroupPolicy) (log : List Record) (record : Record) : Prop :=
  ∀ base, record.what = .demoted base → ∃ reply : CoreReply,
    lastOf log record.check record.lookup = some (.received base reply false) ∧
      reply.Invalid policy record.address

/-- The context spoils no reply other than a failed request. -/
def Record.Unspoiled (policy : GroupPolicy) (record : Record) : Prop :=
  ∀ base reply, record.what = .received base reply true →
    reply = .failed ∨ ¬reply.Invalid policy record.address

/-- A step that records only what is unspoiled. -/
def Watched.Unspoiled (policy : GroupPolicy) (state state' : Watched) : Prop :=
  ∀ record, state'.log = state.log ++ [record] → record.Unspoiled policy

/-- What the last record of a lookup says at its place in the code. -/
def GroupPc.Explained (policy : GroupPolicy) (address : Text) (done : Bool)
    (last : Option Happening) : GroupPc → Prop
  | .replied reply base _ _ => ∃ late, last = some (.received base reply late) ∧
      (late = true → done = true ∧ (reply = .failed ∨ ¬reply.Invalid policy address))
  | .demoting base _ => ∃ reply : CoreReply,
      last = some (.received base reply false) ∧ reply.Invalid policy address
  | _ => True

/-- Holds in every reachable state: a lookup about to count a server as failed has its reply on
record, and a server that is counted as failed has been demoted by some lookup. -/
structure Watched.Ok (policy : GroupPolicy) (state : Watched) : Prop where
  explained : ∀ (i : ℕ) (check : Check), state.checks.checks[i]? = some check →
    ∀ (j : ℕ) (lookup : GroupLookup), check.lookups[j]? = some lookup →
      lookup.pc.Explained policy check.address check.done (lastOf state.log i j)
  justified : Justified (Warranted policy) state.log
  failures : ∀ base, state.checks.cores.failures base ≠ none →
    ∃ record ∈ state.log, record.what = .demoted base

/-! ### Moves of a lookup -/

section Moves

variable {policy : GroupPolicy} {address : Text} {now : Time} {done room : Bool}
  {cores cores' : Cores} {before after : GroupLookup} {signal : Signal} {last : Option Happening}

theorem GroupPc.Explained.mono {pc : GroupPc} (h : pc.Explained policy address done last)
    {done' : Bool} (hdone : done = true → done' = true) :
    pc.Explained policy address done' last := by
  cases pc with
  | replied reply base rest started =>
    obtain ⟨late, hlast, hlate⟩ := h
    exact ⟨late, hlast, fun h ↦ ⟨hdone (hlate h).1, (hlate h).2⟩⟩
  | demoting base rest => exact h
  | waiting | entered | slot | asking | leaving | gone => trivial

/-- Assumes: a reply that is received now is unspoiled. -/
theorem GroupMove.explained
    (hmove : GroupMove policy address now done room cores before cores' after signal)
    (h : before.pc.Explained policy address done last)
    (hunspoiled : ∀ base reply,
      before.pc.happened done after.pc = some (.received base reply true) →
        reply = .failed ∨ ¬reply.Invalid policy address) :
    after.pc.Explained policy address done ((before.pc.happened done after.pc).or last) := by
  cases hmove with
  | enter | turnAway | choose | ask | expire | exhaust | accept | excuse | demote | leave => trivial
  | receive base rest started reply hpc =>
    have hhappened : before.pc.happened done (.replied reply base rest started) =
        some (.received base reply done) := by
      rw [hpc]
      rfl
    rw [hhappened] at hunspoiled ⊢
    exact ⟨done, rfl, fun hdone ↦ ⟨hdone, hunspoiled base reply (by rw [hdone])⟩⟩
  | reject reply base rest started hpc hanswer hdone =>
    rw [hpc] at h ⊢
    obtain ⟨late, hlast, hlate⟩ := h
    refine ⟨reply, ?_, hanswer⟩
    cases late with
    | false => exact hlast
    | true =>
      -- The context was done when the reply came, so the reply is a failed request that is excused.
      obtain ⟨hnow, hfailed | hvalid⟩ := hlate rfl
      · rw [hdone hfailed] at hnow
        cases hnow
      · exact absurd hanswer hvalid

theorem GroupMove.warranted
    (hmove : GroupMove policy address now done room cores before cores' after signal)
    (h : before.pc.Explained policy address done last) {base : Text}
    (hdemoted : before.pc.happened done after.pc = some (.demoted base)) :
    ∃ reply : CoreReply,
      last = some (.received base reply false) ∧ reply.Invalid policy address := by
  cases hmove with
  | demote found rest hpc =>
    rw [hpc] at h hdemoted
    obtain rfl : found = base := by simpa [GroupPc.happened] using hdemoted
    exact h
  | enter hpc | turnAway hpc | choose _ hpc | ask _ _ hpc | expire _ _ hpc | exhaust hpc
  | receive _ _ _ _ hpc | accept _ _ _ _ _ hpc | excuse _ _ _ hpc | reject _ _ _ _ hpc
  | leave hpc =>
    rw [hpc] at hdemoted
    simp [GroupPc.happened] at hdemoted

/-- Only a demotion changes the failures, and only those of its server. -/
theorem GroupMove.failures_eq
    (hmove : GroupMove policy address now done room cores before cores' after signal) {base : Text}
    (hne : cores'.failures base ≠ cores.failures base) :
    before.pc.happened done after.pc = some (.demoted base) := by
  cases hmove with
  | demote found rest hpc =>
    rw [hpc]
    have heq : base = found := by
      by_contra hother
      exact hne (if_neg hother)
    rw [heq]
    rfl
  | enter | turnAway | choose | ask | expire | exhaust | receive | accept | excuse | reject
  | leave => exact absurd rfl hne

end Moves

/-! ### Runs -/

section Runs

variable {policy : GroupPolicy} {state state' : Watched}

theorem lastOf_records (log : List Record) (i j : ℕ) (check : Check) (before after : GroupLookup) :
    lastOf (log ++ Watched.records i j check before after) i j =
      (before.pc.happened check.done after.pc).or (lastOf log i j) := by
  unfold Watched.records
  cases before.pc.happened check.done after.pc with
  | none => simp
  | some what => simp [lastOf]

theorem lastOf_records_of_ne (log : List Record) {i j i' j' : ℕ} (check : Check)
    (before after : GroupLookup) (hne : i' ≠ i ∨ j' ≠ j) :
    lastOf (log ++ Watched.records i j check before after) i' j' = lastOf log i' j' := by
  unfold Watched.records
  cases before.pc.happened check.done after.pc with
  | none => simp
  | some what =>
    have hother : ¬(i = i' ∧ j = j') := by
      rintro ⟨rfl, rfl⟩
      simp at hne
    simp [lastOf, hother]

/-- A check whose lookups are left as they are. -/
theorem Watched.Ok.put (h : state.Ok policy) {i : ℕ} {check check' : Check}
    (hcheck : state.checks.checks[i]? = some check) (haddress : check'.address = check.address)
    (hlookups : check'.lookups = check.lookups) (hdone : check.done = true → check'.done = true) :
    Watched.Ok policy ⟨state.checks.put i state.checks.cores check', state.log⟩ where
  explained k found hfound j lookup hlookup := by
    rcases getElem?_set_cases hfound with ⟨rfl, rfl⟩ | ⟨-, hold⟩
    · rw [hlookups] at hlookup
      rw [haddress]
      exact (h.explained k check hcheck j lookup hlookup).mono hdone
    · exact h.explained k found hold j lookup hlookup
  justified := h.justified
  failures := h.failures

theorem Check.done_take {check : Check} (result : MembershipResult) (rest : List MembershipResult)
    (h : check.done = true) : (check.take result rest).done = true := by
  unfold Check.take
  split <;> simp [h]

theorem Check.lookups_take {check : Check} (result : MembershipResult)
    (rest : List MembershipResult) : (check.take result rest).lookups = check.lookups := by
  unfold Check.take
  split <;> rfl

theorem Check.address_take {check : Check} (result : MembershipResult)
    (rest : List MembershipResult) : (check.take result rest).address = check.address := by
  unfold Check.take
  split <;> rfl

theorem Watched.unspoiled_move {i j : ℕ} {check : Check} {before after : GroupLookup}
    {checks : Checks} (h : Watched.Unspoiled policy state
      ⟨checks, state.log ++ Watched.records i j check before after⟩) (base : Text)
    (reply : CoreReply)
    (hhappened : before.pc.happened check.done after.pc = some (.received base reply true)) :
    reply = .failed ∨ ¬reply.Invalid policy check.address :=
  h ⟨i, j, check.address, .received base reply true⟩ (by simp [Watched.records, hhappened]) base
    reply rfl

/-- Every unspoiled step keeps the record explained and its demotions warranted. -/
theorem Watched.Ok.step (h : state.Ok policy) (hstep : Watched.Step policy state state')
    (hunspoiled : Watched.Unspoiled policy state state') : state'.Ok policy := by
  cases hstep with
  | start address =>
    refine ⟨?_, h.justified, h.failures⟩
    intro i check hcheck j lookup hlookup
    rcases getElem?_snoc_cases hcheck with hold | ⟨-, rfl⟩
    · exact h.explained i check hold j lookup hlookup
    · obtain ⟨group, -, rfl⟩ := List.mem_map.mp (List.mem_of_getElem? hlookup)
      trivial
  | cancel i check hcheck => exact h.put hcheck rfl rfl fun _ ↦ rfl
  | take i check result rest hcheck =>
    exact h.put hcheck (Check.address_take _ _) (Check.lookups_take _ _) (Check.done_take _ _)
  | finish now i check hcheck => exact h.put hcheck rfl rfl fun _ ↦ rfl
  | lookup now i j check before after signal cores' hcheck hbefore hmove =>
    have hold := h.explained i check hcheck j before hbefore
    refine ⟨?_, ?_, ?_⟩
    · intro k found hfound l lookup hlookup
      rcases getElem?_set_cases hfound with ⟨rfl, rfl⟩ | ⟨hk, hother⟩
      · rcases getElem?_set_cases hlookup with ⟨rfl, rfl⟩ | ⟨hl, hother⟩
        · rw [lastOf_records]
          exact hmove.explained hold (Watched.unspoiled_move hunspoiled)
        · rw [lastOf_records_of_ne _ _ _ _ (Or.inr hl)]
          exact h.explained k check hcheck l lookup hother
      · rw [lastOf_records_of_ne _ _ _ _ (Or.inl hk)]
        exact h.explained k found hother l lookup hlookup
    · cases hhappened : before.pc.happened check.done after.pc with
      | none => simpa [Watched.records, hhappened] using h.justified
      | some what =>
        simp only [Watched.records, hhappened, Option.map_some, Option.toList_some]
        refine h.justified.snoc fun base hwhat ↦ ?_
        obtain rfl : what = .demoted base := hwhat
        exact hmove.warranted hold hhappened
    · intro base hbase
      by_cases hsame : cores'.failures base = state.checks.cores.failures base
      · obtain ⟨record, hrecord, hwhat⟩ := h.failures base (hsame ▸ hbase)
        exact ⟨record, List.mem_append_left _ hrecord, hwhat⟩
      · refine ⟨⟨i, j, check.address, .demoted base⟩, List.mem_append_right _ ?_, rfl⟩
        simp [Watched.records, hmove.failures_eq hsame]

theorem Watched.ok_initial : Watched.initial.Ok policy where
  explained i check hcheck := by simp [Watched.initial, Checks.initial] at hcheck
  justified := justified_nil
  failures base hbase := absurd rfl hbase

/-- A step that changes when a server may be asked again records that it demotes this server. -/
theorem Watched.Step.demoted (hstep : Watched.Step policy state state') {base : Text}
    (hne : state'.checks.cores.failures base ≠ state.checks.cores.failures base) :
    ∃ i j address, state'.log = state.log ++ [⟨i, j, address, .demoted base⟩] := by
  cases hstep with
  | start | cancel | take | finish => exact absurd rfl hne
  | lookup now i j check before after signal cores' hcheck hbefore hmove =>
    refine ⟨i, j, check.address, ?_⟩
    simp [Watched.records, hmove.failures_eq hne]

/-- Each demotion of a server is for the last reply that its lookup has received, which was that
server's, not valid, and came before the context was done; and nothing but a demotion changes when a
server may be asked again. Assumes: a run in which the end of a context spoils no reply other than a
failed request. -/
theorem demotions_warranted
    (hrun : Run (Watched.Step policy) (Watched.Unspoiled policy) Watched.initial state) :
    Justified (Warranted policy) state.log ∧
      (∀ base, state.checks.cores.failures base ≠ none →
        ∃ record ∈ state.log, record.what = .demoted base) ∧
      ∀ state', Watched.Step policy state state' → ∀ base,
        state'.checks.cores.failures base ≠ state.checks.cores.failures base →
          ∃ i j address, state'.log = state.log ++ [⟨i, j, address, .demoted base⟩] := by
  have hok := hrun.invariant (Watched.Ok policy) (fun _ _ h hstep hguard ↦ h.step hstep hguard)
    Watched.ok_initial
  exact ⟨hok.justified, hok.failures, fun _ hstep _ hne ↦ hstep.demoted hne⟩

/-- While the context is not done, nothing is spoiled. -/
theorem Watched.unspoiled_of_open {i j : ℕ} {check : Check} {before after : GroupLookup}
    (hopen : check.done = false) (checks : Checks) :
    Watched.Unspoiled policy state
      ⟨checks, state.log ++ Watched.records i j check before after⟩ := by
  intro record hrecord base reply hwhat
  have hrecords := List.append_cancel_left hrecord
  cases hhappened : before.pc.happened check.done after.pc with
  | none => simp [Watched.records, hhappened] at hrecords
  | some what =>
    obtain rfl : ⟨i, j, check.address, what⟩ = record := by
      simpa [Watched.records, hhappened] using hrecords
    obtain rfl : what = .received base reply true := hwhat
    rw [hopen] at hhappened
    unfold GroupPc.happened at hhappened
    split at hhappened <;> simp at hhappened

end Runs

/-! ### A cancelled reply -/

/-- Two groups and two servers, one byte of whose replies says that the account `a` is a member. -/
def sampleRace : GroupPolicy where
  coreUrlBases := ["b".toList, "c".toList]
  allowedGroupIds := [1, 2]
  unmarshal raw := if raw = [1] then some [⟨"a".toList, some true⟩] else none

section Sample

/-- A lookup of the only check moves. -/
theorem sampleRace_lookup {guard : Watched → Watched → Prop} {state : Watched}
    (hrun : Run (Watched.Step sampleRace) guard Watched.initial state) {check : Check}
    (hcheck : state.checks.checks = [check]) (now : Time) (j : ℕ) {before after : GroupLookup}
    {signal : Signal} {cores' : Cores} (hbefore : check.lookups[j]? = some before)
    (hmove : GroupMove sampleRace check.address now check.done check.room state.checks.cores before
      cores' after signal)
    (hguard : guard state ⟨⟨cores', [check.moved j after signal]⟩,
      state.log ++ Watched.records 0 j check before after⟩) :
    Run (Watched.Step sampleRace) guard Watched.initial
      ⟨⟨cores', [check.moved j after signal]⟩,
        state.log ++ Watched.records 0 j check before after⟩ := by
  have hstep := Watched.Step.lookup now 0 j check before after signal cores' (by simp [hcheck])
    hbefore hmove
  rw [Checks.put, hcheck] at hstep
  exact hrun.snoc hstep hguard

/-- The record of a check that returns while a reply for the second group is under way. -/
def raceLog : List Record :=
  [⟨0, 0, "a".toList, .received "b".toList (.response 200 [1] false) false⟩,
    ⟨0, 1, "a".toList, .received "b".toList (.response 200 [] true) true⟩,
    ⟨0, 1, "a".toList, .demoted "b".toList⟩]

theorem raceLog_unjustified : ¬Justified (Warranted sampleRace) raceLog := by
  intro hjustified
  obtain ⟨reply, hlast, -⟩ := hjustified (raceLog.take 2) _ [] rfl "b".toList rfl
  have hlate : lastOf (raceLog.take 2) 0 1 =
      some (.received "b".toList (.response 200 [] true) true) := by
    decide
  simp [hlate] at hlast

/-- The first server answers for the second group only after the check has returned with the answer
for the first group, and breaks off. -/
theorem demotes_healthy : ∃ state,
    Run (Watched.Step sampleRace) (fun _ _ ↦ True) Watched.initial state ∧
      (∃ check ∈ state.checks.checks, check.result = some (.answered true ⟨1, 1⟩)) ∧
      state.log = raceLog ∧ state.checks.cores.failures "b".toList ≠ none ∧
      ¬Justified (Warranted sampleRace) state.log := by
  have h0 : Run (Watched.Step sampleRace) (fun _ _ ↦ True) Watched.initial
      ⟨⟨Cores.fresh, [Check.start sampleRace "a".toList]⟩, []⟩ :=
    (Run.refl _).snoc (.start "a".toList) trivial
  have h1 := sampleRace_lookup h0 rfl ⟨0, 0⟩ 0 rfl (.enter rfl rfl) trivial
  have h2 := sampleRace_lookup h1 rfl ⟨0, 0⟩ 0 rfl (.choose [⟨0, 0⟩, ⟨0, 0⟩] rfl rfl) trivial
  have h3 := sampleRace_lookup h2 rfl ⟨1, 1⟩ 0 rfl (.ask _ _ rfl (by decide)) trivial
  have h4 := sampleRace_lookup h3 rfl ⟨1, 1⟩ 1 rfl (.enter rfl rfl) trivial
  have h5 := sampleRace_lookup h4 rfl ⟨1, 1⟩ 1 rfl (.choose [⟨0, 0⟩, ⟨0, 0⟩] rfl rfl) trivial
  have h6 := sampleRace_lookup h5 rfl ⟨1, 1⟩ 1 rfl (.ask _ _ rfl (by decide)) trivial
  have h7 := sampleRace_lookup h6 rfl ⟨2, 2⟩ 0 rfl
    (.receive _ _ _ (.response 200 [1] false) rfl) trivial
  have h8 := sampleRace_lookup h7 rfl ⟨2, 2⟩ 0 rfl (.accept _ _ _ _ true rfl rfl) trivial
  have h9 := h8.snoc (.take 0 _ (.answered true ⟨1, 1⟩) [] rfl rfl (by decide) rfl) trivial
  have h10 := sampleRace_lookup h9 rfl ⟨2, 2⟩ 1 rfl
    (.receive _ _ _ (.response 200 [] true) rfl) trivial
  have h11 := sampleRace_lookup h10 rfl ⟨2, 2⟩ 1 rfl
    (.reject _ _ _ _ rfl rfl (by decide)) trivial
  have h12 := sampleRace_lookup h11 rfl ⟨2, 2⟩ 1 rfl (.demote _ _ rfl) trivial
  exact ⟨_, h12, ⟨_, List.mem_singleton_self _, rfl⟩, rfl, by decide, raceLog_unjustified⟩

/-- The first server replies with an error and is demoted. -/
theorem demotions_warranted_sample : ∃ state,
    Run (Watched.Step sampleRace) (Watched.Unspoiled sampleRace) Watched.initial state ∧
      state.checks.cores.failures "b".toList ≠ none ∧
      Justified (Warranted sampleRace) state.log := by
  have h0 : Run (Watched.Step sampleRace) (Watched.Unspoiled sampleRace) Watched.initial
      ⟨⟨Cores.fresh, [Check.start sampleRace "a".toList]⟩, []⟩ :=
    (Run.refl _).snoc (.start "a".toList) fun _ h ↦ by cases h
  have h1 := sampleRace_lookup h0 rfl ⟨0, 0⟩ 0 rfl (.enter rfl rfl)
    (Watched.unspoiled_of_open rfl _)
  have h2 := sampleRace_lookup h1 rfl ⟨0, 0⟩ 0 rfl (.choose [⟨0, 0⟩, ⟨0, 0⟩] rfl rfl)
    (Watched.unspoiled_of_open rfl _)
  have h3 := sampleRace_lookup h2 rfl ⟨1, 1⟩ 0 rfl (.ask _ _ rfl (by decide))
    (Watched.unspoiled_of_open rfl _)
  have h4 := sampleRace_lookup h3 rfl ⟨1, 1⟩ 0 rfl
    (.receive _ _ _ (.response 500 [] false) rfl) (Watched.unspoiled_of_open rfl _)
  have h5 := sampleRace_lookup h4 rfl ⟨1, 1⟩ 0 rfl (.reject _ _ _ _ rfl rfl (by decide))
    (Watched.unspoiled_of_open rfl _)
  have h6 := sampleRace_lookup h5 rfl ⟨1, 1⟩ 0 rfl (.demote _ _ rfl)
    (Watched.unspoiled_of_open rfl _)
  exact ⟨_, h6, by decide, (demotions_warranted h6).1⟩

end Sample

end QortalRelay.Access
