import QortalRelay.Tickets.Calls

/-!
# What stands behind issued signatures

An issue request is answered with signatures after a chain of separately locked steps: its
challenge is taken out of the table, the comparisons and the account proof are checked, the
membership of the account is looked up, the account is charged, and the key is fetched again. Each
step leaves evidence in the log or in the thread (`Evidence`), so every answer with signatures is
preceded by the answer to a challenge request with the same nonce, the same key and the same blinded
values, by a proof the account has signed over that answer, and by a positive membership answer.

A challenge is taken out of the table before it is compared, so no nonce passes the challenge check
more often than it was handed out (`NonceLaw`).
-/

set_option autoImplicit false
set_option relaxedAutoImplicit false

namespace QortalRelay.Tickets

open Foundation.Decimal Foundation.Encoding Foundation.Store Foundation.Trace Access

/-! ### Evidence -/

section Evidence

variable (crypto : Crypto) (policy : Policy)

/-- The challenge was handed out under the nonce. -/
def HandedOut (log : List Event) (nonce : Text) (challenge : Challenge) : Prop :=
  ∃ bound created,
    Event.challenged bound created (challengeAnswer crypto policy bound nonce created) ∈ log ∧
      challenge = bound.challenge crypto created

/-- What an issue request shows that passes the challenge check at a reading: the answer its proof
repeats, to a challenge request for the same hour and the same binding, at most a minute old. -/
def Admission (log : List Event) (readAt : Time) (application : Application) : Prop :=
  ∃ bound created, Event.challenged bound created application.proof.answer ∈ log ∧
    bound.descriptor.epoch = application.bound.descriptor.epoch ∧
    bound.binding crypto = application.bound.binding crypto ∧
    readAt.mono ≤ created.mono + Time.minute

/-- The request got past the challenge check and its proof is signed. -/
def Passed (log : List Event) (application : Application) : Prop :=
  (∃ readAt, Event.admitted readAt application ∈ log) ∧ application.proof.signed crypto

/-- A positive answer for the account of the request. -/
def Checked (log : List Event) (application : Application) (checked : Time) : Prop :=
  Event.checked application.proof.authorAddress (.answered true checked) ∈ log

/-- What the record says of a call that has passed a check. -/
def ThreadEvidence (log : List Event) : Thread crypto.Key → Prop
  | .comparing application (some challenge) =>
    HandedOut crypto policy log application.proof.nonce challenge
  | .asking application (.storing result) =>
    Passed crypto log application ∧ Event.checked application.proof.authorAddress result ∈ log
  | .asking application _ | .rechecking application _ => Passed crypto log application
  | .charging application checked | .describing _ _ (.sign application checked) _ =>
    Passed crypto log application ∧ Checked log application checked
  | _ => True

/-- What an entry rests on. -/
def EventEvidence (log : List Event) : Event → Prop
  | .admitted readAt application => Admission crypto log readAt application
  | .issued _ application checked _ =>
    Passed crypto log application ∧ Checked log application checked
  | _ => True

/-- Every challenge that is kept was handed out, and every cached answer was given by a check. -/
structure SharedEvidence (log : List Event) (shared : Shared crypto.Key) : Prop where
  challenges : ∀ nonce challenge, shared.challenges.get nonce = some challenge →
    HandedOut crypto policy log nonce challenge
  cache : ∀ address result, shared.members.cache.get address = some result →
    Event.checked address result ∈ log

/-- Holds in every reachable state: what the shared tables, the calls and the record rest on is on
record. -/
structure Evidence (w : World crypto) : Prop where
  shared : SharedEvidence crypto w.policy w.log w.shared
  threads : ∀ thread ∈ w.threads, ThreadEvidence crypto w.policy w.log thread
  log : Justified (EventEvidence crypto) w.log

variable {crypto policy} {log log' : List Event}

theorem HandedOut.mono (hsub : log ⊆ log') {nonce : Text} {challenge : Challenge}
    (h : HandedOut crypto policy log nonce challenge) :
    HandedOut crypto policy log' nonce challenge := by
  obtain ⟨bound, created, hmem, heq⟩ := h
  exact ⟨bound, created, hsub hmem, heq⟩

theorem Admission.mono (hsub : log ⊆ log') {readAt : Time} {application : Application}
    (h : Admission crypto log readAt application) : Admission crypto log' readAt application := by
  obtain ⟨bound, created, hmem, hrest⟩ := h
  exact ⟨bound, created, hsub hmem, hrest⟩

theorem Passed.mono (hsub : log ⊆ log') {application : Application}
    (h : Passed crypto log application) : Passed crypto log' application := by
  obtain ⟨⟨readAt, hmem⟩, hsigned⟩ := h
  exact ⟨⟨readAt, hsub hmem⟩, hsigned⟩

theorem ThreadEvidence.mono (hsub : log ⊆ log') {thread : Thread crypto.Key}
    (h : ThreadEvidence crypto policy log thread) : ThreadEvidence crypto policy log' thread := by
  unfold ThreadEvidence at h ⊢
  split at h
  · exact h.mono hsub
  · exact ⟨h.1.mono hsub, hsub h.2⟩
  · exact h.mono hsub
  · exact h.mono hsub
  · exact ⟨h.1.mono hsub, hsub h.2⟩
  · exact ⟨h.1.mono hsub, hsub h.2⟩
  · trivial

theorem EventEvidence.mono (hsub : log ⊆ log') {event : Event}
    (h : EventEvidence crypto log event) : EventEvidence crypto log' event := by
  cases event with
  | admitted readAt application => exact Admission.mono hsub h
  | issued sentAt application checked signatures => exact ⟨h.1.mono hsub, hsub h.2⟩
  | _ => trivial

theorem SharedEvidence.mono (hsub : log ⊆ log') {shared : Shared crypto.Key}
    (h : SharedEvidence crypto policy log shared) : SharedEvidence crypto policy log' shared :=
  ⟨fun nonce challenge hget ↦ (h.challenges nonce challenge hget).mono hsub,
    fun address result hget ↦ hsub (h.cache address result hget)⟩

end Evidence

/-! ### Moves keep the evidence -/

section Moves

variable {crypto : Crypto} {codec : Codec} {policy : Policy} {log : List Event}

/-- A thread has its evidence in the log with its entries, and the entries have theirs in the log
before them. -/
def NextEvidence (crypto : Crypto) (policy : Policy) (log : List Event)
    (next : Thread crypto.Key × List Event) : Prop :=
  ThreadEvidence crypto policy (log ++ next.2) next.1 ∧
    ∀ event ∈ next.2, EventEvidence crypto log event

theorem nextEvidence_refuse (status : ℕ) (code : ErrorCode) :
    NextEvidence crypto policy log (refuse status code) := by
  simp [NextEvidence, refuse, ThreadEvidence, EventEvidence]

theorem nextEvidence_resumeError (caller : Caller) :
    NextEvidence crypto policy log (resumeError caller) := by
  cases caller <;> simp [NextEvidence, resumeError, refuse, ThreadEvidence, EventEvidence]

theorem nextEvidence_routeRequest (since : ℕ) (route : Route) (input : Input)
    (descriptor : Descriptor) :
    NextEvidence crypto policy log (routeRequest codec policy since route input descriptor) := by
  unfold routeRequest
  split
  · simp [NextEvidence, ThreadEvidence, EventEvidence]
  · split
    · simp [NextEvidence, ThreadEvidence]
    · simp [NextEvidence, ThreadEvidence]
    · exact nextEvidence_refuse _ _

/-- Logging one more entry first takes nothing away. -/
theorem NextEvidence.cons_event {next : Thread crypto.Key × List Event} {event : Event}
    (h : NextEvidence crypto policy log next) (hevent : EventEvidence crypto log event) :
    NextEvidence crypto policy log (Prod.map id (event :: ·) next) := by
  refine ⟨h.1.mono ?_, ?_⟩
  · simp only [Prod.map_snd, List.append_subset, List.subset_append_left, true_and]
    exact List.Subset.trans (List.subset_cons_self event next.2) (List.subset_append_right log _)
  · simp only [Prod.map_snd, List.mem_cons, forall_eq_or_imp]
    exact ⟨hevent, h.2⟩

theorem nextEvidence_resumeOk {now : Time} {start : ℕ} {epoch : ℤ} {descriptor : Descriptor}
    {key : crypto.Key} {caller : Caller} {phase : Phase crypto.Key}
    (h : ThreadEvidence crypto policy log (.describing start epoch caller phase)) :
    NextEvidence crypto policy log
      (resumeOk crypto codec policy now start descriptor key caller) := by
  unfold resumeOk
  split
  · simp [NextEvidence, ThreadEvidence]
  · simp [NextEvidence, ThreadEvidence, EventEvidence]
  · exact nextEvidence_routeRequest _ _ _ _
  · split
    · exact nextEvidence_refuse _ _
    · refine ⟨trivial, ?_⟩
      simp only [List.mem_singleton, forall_eq]
      exact h
  · simp [NextEvidence, ThreadEvidence]

/-- Assumes: the request passed the challenge check, and a positive result comes from the group
servers, in a log that holds at least this one. -/
theorem evidence_judge {log' : List Event} {application : Application} {result : MembershipResult}
    (hpassed : Passed crypto log' application)
    (hchecked : ∀ checked, result = .answered true checked → Checked log' application checked) :
    ThreadEvidence crypto policy log' (judge application result).1 ∧
      ∀ event ∈ (judge application result : Thread crypto.Key × List Event).2,
        EventEvidence crypto log event := by
  unfold judge
  split
  · simp [refuse, ThreadEvidence, EventEvidence]
  · simp [refuse, ThreadEvidence, EventEvidence]
  · split_ifs
    · simp [refuse, ThreadEvidence, EventEvidence]
    · exact ⟨⟨hpassed, hchecked _ rfl⟩, by simp⟩

theorem nextEvidence_weigh {application : Application} {result : MembershipResult}
    (hpassed : Passed crypto log application)
    (hchecked : ∀ checked, result = .answered true checked → Checked log application checked) :
    NextEvidence crypto policy log (weigh application result) := by
  have hjudge : NextEvidence crypto policy log (judge application result) := by
    obtain ⟨hthread, hevents⟩ := evidence_judge hpassed hchecked
    exact ⟨hthread.mono (List.subset_append_left _ _), hevents⟩
  unfold weigh
  split
  · split_ifs
    · exact ⟨hpassed.mono (List.subset_append_left _ _), by simp⟩
    · exact hjudge
  · exact hjudge

/-- The comparisons turn a challenge that was handed out into an admission. -/
theorem admission_of_challengeHolds {now : Time} {application : Application}
    {found : Option Challenge}
    (hfound : ThreadEvidence crypto policy log (.comparing application found))
    (hholds : challengeHolds crypto policy now application found) :
    Admission crypto log now application := by
  obtain ⟨challenge, rfl, hfresh, hepoch, hbinding, htype, hpin, hpolicy, hproof, hexpires⟩ :=
    challengeHolds_iff.mp hholds
  obtain ⟨bound, created, hmem, rfl⟩ := hfound
  refine ⟨bound, created, ?_, hepoch, hbinding, ?_⟩
  · have hanswer : application.proof.answer =
        challengeAnswer crypto policy bound application.proof.nonce created := by
      rw [RelayProof.answer, challengeAnswer, htype, hpin, hpolicy, hproof, hexpires]
      rfl
    rwa [hanswer]
  · have hnot := of_decide_eq_false hfresh
    exact not_lt.mp hnot

theorem nextEvidence_compare {now : Time} {application : Application} {found : Option Challenge}
    (hfound : ThreadEvidence crypto policy log (.comparing application found)) :
    NextEvidence crypto policy log (compare crypto policy now application found) := by
  unfold compare
  split_ifs with hholds hsigned
  · have hadmission := admission_of_challengeHolds hfound hholds
    refine ⟨⟨⟨now, by simp⟩, hsigned⟩, ?_⟩
    simp only [List.mem_singleton, forall_eq]
    exact hadmission
  · have hadmission := admission_of_challengeHolds hfound hholds
    refine ⟨trivial, ?_⟩
    simp only [List.mem_cons, List.not_mem_nil, or_false, forall_eq_or_imp, forall_eq]
    exact ⟨hadmission, trivial⟩
  · exact nextEvidence_refuse _ _

/-- What a move has to show about the shared state when it leaves challenges and members alone. -/
theorem SharedEvidence.keep {shared shared' : Shared crypto.Key}
    (h : SharedEvidence crypto policy log shared)
    (hchallenges : shared'.challenges = shared.challenges)
    (hmembers : shared'.members = shared.members) :
    SharedEvidence crypto policy log shared' :=
  ⟨by rw [hchallenges]; exact h.challenges, by rw [hmembers]; exact h.cache⟩

/-- A membership call keeps the evidence of the cache. -/
theorem SharedEvidence.lookup {shared : Shared crypto.Key}
    (h : SharedEvidence crypto policy log shared) {now : Time} {application : Application}
    {pc : LookupPc} (hthread : ThreadEvidence crypto policy log (.asking application pc))
    {members : Members} {next : LookupPc ⊕ MembershipResult}
    (hlookup : Lookup now application.proof.authorAddress shared.members pc members next) :
    SharedEvidence crypto policy log { shared with members := members } := by
  refine ⟨h.challenges, fun address result hget ↦ ?_⟩
  rcases hlookup.cache_cases hget with hold | ⟨rfl, rfl⟩
  · exact h.cache address result hold
  · exact hthread.2

/-- A descriptor call has its evidence in every phase. -/
theorem ThreadEvidence.phase {start start' : ℕ} {epoch epoch' : ℤ} {caller : Caller}
    {phase : Phase crypto.Key}
    (h : ThreadEvidence crypto policy log (.describing start epoch caller phase))
    (phase' : Phase crypto.Key) :
    ThreadEvidence crypto policy log (.describing start' epoch' caller phase') := by
  cases caller with
  | sign application checked => exact h
  | _ => trivial

theorem passed_of_asking {application : Application} {pc : LookupPc}
    (h : ThreadEvidence crypto policy log (.asking application pc)) :
    Passed crypto log application := by
  cases pc with
  | storing result => exact h.1
  | _ => exact h

/-- A move keeps the evidence of the shared state, and leaves evidence for its thread and its
entries. -/
theorem act_evidence {now : Time} {i : ℕ} {shared shared' : Shared crypto.Key}
    {thread : Thread crypto.Key} {next : Thread crypto.Key × List Event}
    (hshared : SharedEvidence crypto policy log shared)
    (hthread : ThreadEvidence crypto policy log thread)
    (hact : Act crypto codec policy now i log.length shared thread shared' next) :
    SharedEvidence crypto policy (log ++ next.2) shared' ∧
      NextEvidence crypto policy log next := by
  have hgrow : ∀ events : List Event, log ⊆ log ++ events := List.subset_append_left log
  have hkept : ∀ events : List Event, SharedEvidence crypto policy (log ++ events) shared :=
    fun events ↦ hshared.mono (hgrow events)
  cases hact with
  | enterRefused => exact ⟨hkept _, nextEvidence_resumeError _⟩
  | updateRefused | lookupRefused | describeFailed =>
    exact ⟨(hkept _).keep rfl rfl, nextEvidence_resumeError _⟩
  | enter | generate =>
    exact ⟨(hkept _).keep rfl rfl, (hthread.mono (hgrow _)).phase _, by simp⟩
  | update =>
    exact ⟨(hkept _).keep rfl rfl, (hthread.mono (hgrow _)).phase _, by simp [EventEvidence]⟩
  | found | persisted =>
    exact ⟨(hkept _).keep rfl rfl, (nextEvidence_resumeOk hthread).cons_event trivial⟩
  | drawFailed | chargeRefused => exact ⟨hkept _, nextEvidence_refuse _ _⟩
  | crowdedOut => exact ⟨(hkept _).keep rfl rfl, nextEvidence_refuse _ _⟩
  | sweep bound nonce created key rest =>
    refine ⟨⟨fun other challenge hget ↦ ?_, (hkept _).cache⟩, trivial, by simp⟩
    simp only at hget
    split_ifs at hget
    · exact (hkept _).challenges other challenge (Bucket.get_of_get_deleteAll hget)
    · exact (hkept _).challenges other challenge hget
  | insert bound nonce created hroom =>
    refine ⟨⟨fun other challenge hget ↦ ?_, (hkept _).cache⟩, trivial, by simp [EventEvidence]⟩
    simp only [Bucket.get_put] at hget
    split_ifs at hget with hsame
    · obtain rfl := Option.some.inj hget
      exact ⟨bound, created, by simp [hsame], rfl⟩
    · exact (hkept _).challenges other challenge hget
  | claim application hmu =>
    refine ⟨⟨fun nonce challenge hget ↦ ?_, (hkept _).cache⟩, ?_, by simp⟩
    · exact (hkept _).challenges nonce challenge (Bucket.get_of_get_deleteAll hget)
    · cases hfound : shared.challenges.get application.proof.nonce with
      | none => trivial
      | some challenge => exact (hkept _).challenges _ _ hfound
  | compare => exact ⟨hkept _, nextEvidence_compare hthread⟩
  | ask application pc pc' members hlookup =>
    refine ⟨(hshared.lookup hthread hlookup).mono (hgrow _), ?_, ?_⟩
    · have hpassed := (passed_of_asking hthread).mono (hgrow (lookupEvents
        application.proof.authorAddress pc'))
      cases pc' with
      | storing result => exact ⟨hpassed, by simp [lookupEvents]⟩
      | _ => exact hpassed
    · cases pc' <;> simp [lookupEvents, EventEvidence]
  | asked application pc members result hlookup =>
    refine ⟨(hshared.lookup hthread hlookup).mono (hgrow _),
      nextEvidence_weigh (passed_of_asking hthread) ?_⟩
    rintro checked rfl
    rcases hlookup.result_cases with hcached | rfl
    · exact hshared.cache _ _ hcached
    · exact hthread.2
  | recheck => exact ⟨hkept _, hthread.mono (hgrow _), by simp⟩
  | rechecked application sent result hcheck =>
    have hchecked : ∀ events checked, result = .answered true checked →
        Checked (log ++ .checked application.proof.authorAddress result :: events) application
          checked := by
      rintro events checked rfl
      simp [Checked]
    obtain ⟨hnext, hevents⟩ := evidence_judge (Passed.mono (hgrow _) hthread) (hchecked _)
    refine ⟨hkept _, hnext, ?_⟩
    simp only [Prod.map_snd, List.mem_cons, forall_eq_or_imp]
    exact ⟨trivial, hevents⟩
  | charge application checked db htx =>
    exact ⟨(hkept _).keep rfl rfl, hthread.mono (hgrow _), by simp⟩
  | lock | spend => exact ⟨(hkept _).keep rfl rfl, trivial, by simp [EventEvidence]⟩
  | _ => exact ⟨hkept _, trivial, by simp [EventEvidence]⟩

theorem Step.evidence {w w' : World crypto} (hstep : Step codec w w') (h : Evidence crypto w) :
    Evidence crypto w' := by
  cases hstep with
  | tick reading hmono hsane => exact ⟨h.shared, h.threads, h.log⟩
  | restart policy =>
    refine ⟨⟨?_, ?_⟩, by simp [World.restarted, ThreadEvidence], h.log⟩
    · simp [World.restarted, Shared.opened]
    · simp [World.restarted, Shared.opened, Members.fresh]
  | request request hserving hslot =>
    refine ⟨h.shared, ?_, h.log⟩
    simp only [World.called, List.forall_mem_append, List.forall_mem_singleton]
    exact ⟨h.threads, trivial⟩
  | redeem raw hserving =>
    refine ⟨h.shared, ?_, h.log⟩
    simp only [World.called, List.forall_mem_append, List.forall_mem_singleton]
    exact ⟨h.threads, trivial⟩
  | crowded hserving hslot =>
    have hgrow := List.subset_append_left w.log [.refused ⟨429, .rateLimited⟩]
    exact ⟨h.shared.mono hgrow, fun thread hthread ↦ (h.threads thread hthread).mono hgrow,
      h.log.snoc trivial⟩
  | act i thread shared next hthread hact =>
    obtain ⟨hshared, hnext, hevents⟩ :=
      act_evidence h.shared (h.threads thread (List.mem_of_getElem? hthread)) hact
    refine ⟨hshared, ?_, h.log.append next.2 fun before event after heq ↦ ?_⟩
    · exact forall_mem_set (fun thread hthread ↦
        (h.threads thread hthread).mono (List.subset_append_left _ _)) hnext
    · exact (hevents event (by simp [heq])).mono (List.subset_append_left _ _)

theorem evidence_of_run {guard : World crypto → World crypto → Prop} {w w' : World crypto}
    (h : Initial w) (hrun : Run (Step codec) guard w w') : Evidence crypto w' := by
  refine hrun.invariant (Evidence crypto) (fun _ _ hs hstep _ ↦ hstep.evidence hs)
    ⟨⟨?_, ?_⟩, ?_, ?_⟩
  · simp [h.shared, Shared.opened]
  · simp [h.shared, Shared.opened, Members.fresh]
  · simp [h.threads, ThreadEvidence]
  · rw [h.log]
    exact justified_nil

end Moves

/-! ### Nonces are used once -/

section Nonces

variable (nonce : Text)

def challengedCount : Event → ℕ
  | .challenged _ _ answer => if answer.nonce = nonce then 1 else 0
  | _ => 0

def admittedCount : Event → ℕ
  | .admitted _ application => if application.proof.nonce = nonce then 1 else 0
  | _ => 0

def issuedCount : Event → ℕ
  | .issued _ application _ _ => if application.proof.nonce = nonce then 1 else 0
  | _ => 0

/-- A request that holds the challenge of the nonce, taken out of the table. -/
def claimedCount {Key : Type} : Thread Key → ℕ
  | .comparing application (some _) => if application.proof.nonce = nonce then 1 else 0
  | _ => 0

/-- A request with the nonce that got past the challenge check. -/
def passedCount {Key : Type} : Thread Key → ℕ
  | .asking application _ | .rechecking application _ | .charging application _
  | .describing _ _ (.sign application _) _ => if application.proof.nonce = nonce then 1 else 0
  | _ => 0

/-- A challenge that waits under the nonce. -/
def waitingCount (challenges : Bucket Text Challenge) : ℕ :=
  if (challenges.get nonce).isSome then 1 else 0

/-- No nonce passes the challenge check more often than it was handed out, or is signed for more
often than it passed. -/
structure NonceLaw {crypto : Crypto} (w : World crypto) : Prop where
  admitted : weight (admittedCount nonce) w.log + weight (claimedCount nonce) w.threads +
    waitingCount nonce w.shared.challenges ≤ weight (challengedCount nonce) w.log
  issued : weight (issuedCount nonce) w.log + weight (passedCount nonce) w.threads ≤
    weight (admittedCount nonce) w.log

/-- An outcome that admits nobody, and gives signatures at most to a request that had passed. -/
structure Quiet {Key : Type} (thread : Thread Key) (next : Thread Key × List Event) : Prop where
  unadmitted : weight (admittedCount nonce) next.2 = 0
  unclaimed : claimedCount nonce next.1 = 0
  passed : weight (issuedCount nonce) next.2 + passedCount nonce next.1 ≤ passedCount nonce thread

variable {nonce}

theorem quiet_refuse {Key : Type} (thread : Thread Key) (status : ℕ) (code : ErrorCode) :
    Quiet nonce thread (refuse status code) := by
  constructor <;> simp [refuse, admittedCount, issuedCount, claimedCount, passedCount]

theorem quiet_resumeError {Key : Type} (thread : Thread Key) (caller : Caller) :
    Quiet nonce thread (resumeError caller) := by
  cases caller <;> constructor <;>
    simp [resumeError, refuse, admittedCount, issuedCount, claimedCount, passedCount]

theorem quiet_judge {Key : Type} {thread : Thread Key} {application : Application}
    (h : (if application.proof.nonce = nonce then 1 else 0) ≤ passedCount nonce thread)
    (result : MembershipResult) : Quiet nonce thread (judge application result) := by
  unfold judge
  split
  · exact quiet_refuse _ _ _
  · exact quiet_refuse _ _ _
  · split_ifs
    · exact quiet_refuse _ _ _
    · exact ⟨rfl, rfl, by simpa [passedCount] using h⟩

theorem quiet_weigh {Key : Type} {thread : Thread Key} {application : Application}
    (h : (if application.proof.nonce = nonce then 1 else 0) ≤ passedCount nonce thread)
    (result : MembershipResult) : Quiet nonce thread (weigh application result) := by
  unfold weigh
  split
  · split_ifs
    · exact ⟨rfl, rfl, by simpa [passedCount] using h⟩
    · exact quiet_judge h _
  · exact quiet_judge h _

variable {crypto : Crypto} {codec : Codec} {policy : Policy}

theorem quiet_routeRequest {Key : Type} (thread : Thread Key) (since : ℕ) (route : Route)
    (input : Input) (descriptor : Descriptor) :
    Quiet nonce thread (routeRequest codec policy since route input descriptor) := by
  unfold routeRequest
  split
  · constructor <;> simp [admittedCount, issuedCount, claimedCount, passedCount]
  · split
    · constructor <;> simp [claimedCount, passedCount]
    · constructor <;> simp [claimedCount, passedCount]
    · exact quiet_refuse _ _ _

theorem quiet_resumeOk {now : Time} {start : ℕ} {epoch : ℤ} {descriptor : Descriptor}
    {key : crypto.Key} (caller : Caller) (phase : Phase crypto.Key) :
    Quiet nonce (.describing start epoch caller phase)
      (resumeOk crypto codec policy now start descriptor key caller) := by
  unfold resumeOk
  split
  · constructor <;> simp [claimedCount, passedCount]
  · constructor <;> simp [admittedCount, issuedCount, claimedCount, passedCount]
  · exact quiet_routeRequest _ _ _ _ _
  · split
    · exact quiet_refuse _ _ _
    · constructor <;> simp [admittedCount, issuedCount, claimedCount, passedCount]
  · constructor <;> simp [claimedCount, passedCount]

theorem Quiet.cons_event {Key : Type} {thread : Thread Key} {next : Thread Key × List Event}
    {event : Event} (h : Quiet nonce thread next) (hadmitted : admittedCount nonce event = 0)
    (hissued : issuedCount nonce event = 0) :
    Quiet nonce thread (Prod.map id (event :: ·) next) :=
  ⟨by simpa [hadmitted] using h.unadmitted, h.unclaimed, by simpa [hissued] using h.passed⟩

/-- What a move does to the count of a nonce. -/
structure MoveNonce (nonce : Text) (shared shared' : Shared crypto.Key)
    (thread : Thread crypto.Key) (next : Thread crypto.Key × List Event) : Prop where
  admitted : weight (admittedCount nonce) next.2 + claimedCount nonce next.1 +
      waitingCount nonce shared'.challenges ≤ claimedCount nonce thread +
        waitingCount nonce shared.challenges + weight (challengedCount nonce) next.2
  issued : weight (issuedCount nonce) next.2 + passedCount nonce next.1 ≤
    passedCount nonce thread + weight (admittedCount nonce) next.2

theorem Quiet.move {shared shared' : Shared crypto.Key} {thread : Thread crypto.Key}
    {next : Thread crypto.Key × List Event} (h : Quiet nonce thread next)
    (hchallenges : shared'.challenges = shared.challenges) :
    MoveNonce nonce shared shared' thread next := by
  have hunadmitted := h.unadmitted
  have hunclaimed := h.unclaimed
  have hpassed := h.passed
  exact ⟨by rw [hchallenges]; omega, by omega⟩

theorem waitingCount_deleteAll_le (nonce : Text) (keys : List Text)
    (challenges : Bucket Text Challenge) :
    waitingCount nonce (challenges.deleteAll keys) ≤ waitingCount nonce challenges := by
  unfold waitingCount
  split_ifs with hkept hwaiting
  · exact le_rfl
  · obtain ⟨challenge, hget⟩ := Option.isSome_iff_exists.mp hkept
    rw [Bucket.get_of_get_deleteAll hget] at hwaiting
    exact absurd rfl hwaiting
  · exact Nat.zero_le _
  · exact le_rfl

theorem act_nonces (nonce : Text) {now : Time} {i since : ℕ} {shared shared' : Shared crypto.Key}
    {thread : Thread crypto.Key} {next : Thread crypto.Key × List Event}
    (hact : Act crypto codec policy now i since shared thread shared' next) :
    MoveNonce nonce shared shared' thread next := by
  cases hact with
  | enterRefused | updateRefused | lookupRefused | describeFailed =>
    exact (quiet_resumeError _ _).move rfl
  | drawFailed | crowdedOut | chargeRefused => exact (quiet_refuse _ _ _).move rfl
  | found | persisted => exact ((quiet_resumeOk _ _).cons_event rfl rfl).move rfl
  | asked application pc members result hlookup =>
    exact (quiet_weigh le_rfl result).move rfl
  | rechecked application sent result hcheck =>
    exact ((quiet_judge le_rfl result).cons_event rfl rfl).move rfl
  | enter start epoch caller | update start epoch hour caller | generate start epoch hour caller =>
    cases caller <;> constructor <;>
      simp [admittedCount, issuedCount, claimedCount, passedCount, challengedCount]
  | ask application pc pc' members hlookup =>
    cases pc' <;> constructor <;> simp [lookupEvents, admittedCount, issuedCount, claimedCount,
      passedCount, challengedCount]
  | sweep bound nonce' created key rest =>
    refine ⟨?_, by simp [passedCount]⟩
    simp only [weight_nil, claimedCount]
    split_ifs
    · have := waitingCount_deleteAll_le nonce [key] shared.challenges
      omega
    · omega
  | insert bound nonce' created hroom =>
    refine ⟨?_, by simp [issuedCount, passedCount]⟩
    simp only [waitingCount, Bucket.get_put, challengeAnswer, admittedCount, claimedCount,
      challengedCount, weight_cons, weight_nil]
    by_cases hsame : nonce = nonce'
    · simp [hsame]
    · have hother : nonce' ≠ nonce := fun h ↦ hsame h.symm
      simp [hsame, hother]
  | claim application hmu =>
    refine ⟨?_, by simp [passedCount]⟩
    by_cases hsame : application.proof.nonce = nonce
    · -- The challenge leaves the table and goes to this request.
      subst hsame
      simp only [waitingCount, Bucket.get_deleteAll, List.mem_singleton, if_true, weight_nil,
        Option.isSome_none, Bool.false_eq_true, if_false]
      cases shared.challenges.get application.proof.nonce <;> simp [claimedCount]
    · have hclaimed : claimedCount nonce (.comparing application
          (shared.challenges.get application.proof.nonce) : Thread crypto.Key) = 0 := by
        cases shared.challenges.get application.proof.nonce <;> simp [claimedCount, hsame]
      have := waitingCount_deleteAll_le nonce [application.proof.nonce] shared.challenges
      simp only [weight_nil, hclaimed]
      omega
  | compare application found =>
    unfold compare
    split_ifs with hholds hsigned
    · obtain ⟨challenge, rfl, -⟩ := challengeHolds_iff.mp hholds
      constructor <;> simp [admittedCount, issuedCount, claimedCount, passedCount]
    · obtain ⟨challenge, rfl, -⟩ := challengeHolds_iff.mp hholds
      constructor <;> simp [admittedCount, issuedCount, claimedCount, passedCount]
    · exact (quiet_refuse _ _ _).move rfl
  | _ =>
    constructor <;> simp [admittedCount, issuedCount, claimedCount, passedCount, challengedCount]

theorem Step.nonceLaw {w w' : World crypto} (hstep : Step codec w w') (h : NonceLaw nonce w) :
    NonceLaw nonce w' := by
  have hadmitted := h.admitted
  have hissued := h.issued
  cases hstep with
  | tick reading hmono hsane => exact ⟨hadmitted, hissued⟩
  | restart policy =>
    constructor
    · simp only [World.restarted, Shared.opened, waitingCount, weight_cons, weight_nil,
        claimedCount, Bucket.get_empty, Option.isSome_none, Bool.false_eq_true, if_false]
      omega
    · simp only [World.restarted, weight_cons, weight_nil, passedCount]
      omega
  | request request hserving hslot =>
    exact ⟨by simpa [World.called, claimedCount] using hadmitted,
      by simpa [World.called, passedCount] using hissued⟩
  | redeem raw hserving =>
    exact ⟨by simpa [World.called, claimedCount] using hadmitted,
      by simpa [World.called, passedCount] using hissued⟩
  | crowded hserving hslot =>
    exact ⟨by simpa [admittedCount, challengedCount] using hadmitted,
      by simpa [admittedCount, issuedCount] using hissued⟩
  | act i thread shared next hthread hact =>
    obtain ⟨hmove, hsigned⟩ := act_nonces nonce hact
    have hclaimed := weight_set (claimedCount nonce) hthread next.1
    have hpassed := weight_set (passedCount nonce) hthread next.1
    constructor
    · simp only [World.moved, weight_append]
      omega
    · simp only [World.moved, weight_append]
      omega

theorem nonceLaw_of_run {guard : World crypto → World crypto → Prop} {w w' : World crypto}
    (h : Initial w) (hrun : Run (Step codec) guard w w') (nonce : Text) : NonceLaw nonce w' := by
  refine hrun.invariant (NonceLaw nonce) (fun _ _ hs hstep _ ↦ hstep.nonceLaw hs) ⟨?_, ?_⟩
  · simp [h.log, h.threads, h.shared, Shared.opened, claimedCount, waitingCount]
  · simp [h.log, h.threads, passedCount]

end Nonces

/-! ### Issuance is sound -/

section Issuance

variable {crypto : Crypto} {codec : Codec}

/-- Issuance is sound. Assumes: a hash without collisions in the run, and distinct challenge nonces.
In every state that is reached:

* Every answer with signatures comes after an admission of its request, and the admission comes
  after the answer to a challenge request. The proof repeats that answer, nonce included; the
  challenge request was for the same key identifier, the same blinded values and the same hour, and
  its challenge was drawn at most a minute before the challenge check of the issue request.
* The account has signed the proof with a key of 32 bytes that has its address.
* A positive membership answer for the account came before the signatures.
* No nonce passes the challenge check twice, and none is answered with signatures twice. -/
theorem issuance_sound {w w' : World crypto} (hsha : CollisionFree crypto codec w'.log)
    (hinitial : Initial w) (hrun : Run (Step codec) (fun _ _ ↦ True) w w')
    (hnonces : ∀ nonce, weight (challengedCount nonce) w'.log ≤ 1) :
    (∀ before sentAt application checked signatures after,
      w'.log = before ++ Event.issued sentAt application checked signatures :: after →
      (∃ earlier later readAt bound created,
        before = earlier ++ Event.admitted readAt application :: later ∧
        Event.challenged bound created application.proof.answer ∈ earlier ∧
        bound.descriptor.keyId = application.bound.descriptor.keyId ∧
        bound.blinded = application.bound.blinded ∧
        bound.descriptor.epoch = application.bound.descriptor.epoch ∧
        readAt.mono ≤ created.mono + Time.minute) ∧
      (∃ key signature, key.length = 32 ∧
        decodeBase58 application.proof.authorPublicKey 32 = some key ∧
        decodeBase58 application.proof.signature 64 = some signature ∧
        addressForKey crypto key = application.proof.authorAddress ∧
        crypto.ed25519Verify key (utf8 application.proof.message) signature) ∧
      Event.checked application.proof.authorAddress (.answered true checked) ∈ before) ∧
    (∀ nonce, weight (admittedCount nonce) w'.log ≤ 1) ∧
    ∀ nonce, weight (issuedCount nonce) w'.log ≤ 1 := by
  have hevidence := evidence_of_run hinitial hrun
  refine ⟨fun before sentAt application checked signatures after hlog ↦ ?_, fun nonce ↦ ?_,
    fun nonce ↦ ?_⟩
  · obtain ⟨⟨⟨readAt, hadmitted⟩, hsigned⟩, hchecked⟩ := hevidence.log before _ after hlog
    refine ⟨?_, ?_, hchecked⟩
    · obtain ⟨earlier, later, rfl⟩ := List.append_of_mem hadmitted
      obtain ⟨bound, created, hchallenged, hepoch, hbinding, hfresh⟩ :=
        hevidence.log earlier (.admitted readAt application) (later ++ _ :: after)
          (by simpa using hlog)
      obtain ⟨hkeyId, hblinded⟩ := Bound.eq_of_binding_eq
        (hsha ⟨.challenged bound created application.proof.answer, by simp [hlog, hchallenged], rfl⟩
          ⟨.admitted readAt application, by simp [hlog], rfl⟩) hbinding
      exact ⟨earlier, later, readAt, bound, created, rfl, hchallenged, hkeyId, hblinded, hepoch,
        hfresh⟩
    · obtain ⟨key, signature, hkey, hsignature, haddress, hverify⟩ :=
        RelayProof.signed_iff.mp hsigned
      exact ⟨key, signature, length_decodeBase58 hkey, hkey, hsignature, haddress, hverify⟩
  · have hlaw := (nonceLaw_of_run hinitial hrun nonce).admitted
    have honce := hnonces nonce
    omega
  · obtain ⟨hadmitted, hissued⟩ := nonceLaw_of_run hinitial hrun nonce
    have honce := hnonces nonce
    omega

/-- An account that was given a signature at once. -/
theorem issuance_sound_sample :
    ∃ w' before after, Run (Step sampleCodec) (fun _ _ ↦ True) sampleWorld w' ∧
      (∀ nonce, weight (challengedCount nonce) w'.log ≤ 1) ∧
      w'.log = before ++ Event.issued ⟨0, 0⟩ sampleApplication ⟨0, 0⟩ [[]] :: after ∧
      Event.checked sampleProof.authorAddress (.answered true ⟨0, 0⟩) ∈ before := by
  obtain ⟨w, hrun, -, -, -, -, hlog⟩ := issue_sample (.refl _) (by decide) (.refl _) (by decide)
  have hfree := hrun.mono fun _ _ _ _ ↦ trivial
  have hnonces : ∀ nonce, weight (challengedCount nonce) w.log ≤ 1 := by
    intro nonce
    rw [hlog]
    simp only [weight_cons, weight_nil, challengedCount]
    split_ifs <;> omega
  obtain ⟨before, after, hsplit⟩ : ∃ before after,
      w.log = before ++ Event.issued ⟨0, 0⟩ sampleApplication ⟨0, 0⟩ [[]] :: after :=
    List.append_of_mem (by simp [hlog])
  exact ⟨w, before, after, hfree, hnonces, hsplit, ((issuance_sound
    sampleCrypto_sha256_injective.injOn initial_sampleWorld hfree hnonces).1 before _ _ _ _ after
      hsplit).2.2⟩

/-- Signatures that are returned 61 seconds after the only challenge with their nonce was drawn: the
challenge is checked in time, after 59.9 seconds, and the rest of the request takes little more than
a second. -/
theorem issued_after_challenge_expired_sample :
    ∃ w' sentAt application checked signatures, Initial sampleWorld ∧
      Function.Injective sampleCrypto.sha256 ∧
      Run (Step sampleCodec) (fun _ _ ↦ True) sampleWorld w' ∧
      (∀ nonce, weight (challengedCount nonce) w'.log ≤ 1) ∧
      Event.issued sentAt application checked signatures ∈ w'.log ∧
      (∃ readAt, Event.admitted readAt application ∈ w'.log ∧
        sentAt.mono ≤ readAt.mono + 2 * Time.second) ∧
      ∀ bound created answer, Event.challenged bound created answer ∈ w'.log →
        answer.nonce = application.proof.nonce → created.mono + Time.minute < sentAt.mono := by
  have hclaimed : (⟨0, 0⟩ : Time).NotAfter
      ⟨59900 * Time.millisecond, 59900 * Time.millisecond⟩ := by
    unfold Time.NotAfter
    decide
  have hlate : (⟨59900 * Time.millisecond, 59900 * Time.millisecond⟩ : Time).NotAfter
      ⟨61 * Time.second, 61 * Time.second⟩ := by
    unfold Time.NotAfter
    decide
  obtain ⟨w, hrun, -, -, -, -, hlog⟩ := issue_sample hclaimed (by decide) hlate (by decide)
  refine ⟨w, ⟨61 * Time.second, 61 * Time.second⟩, sampleApplication,
    ⟨61 * Time.second, 61 * Time.second⟩, [[]], initial_sampleWorld,
    sampleCrypto_sha256_injective, hrun.mono fun _ _ _ _ ↦ trivial, fun nonce ↦ ?_, by simp [hlog],
    ⟨⟨59900 * Time.millisecond, 59900 * Time.millisecond⟩, by simp [hlog], by decide⟩,
    fun bound created answer hmem _ ↦ ?_⟩
  · rw [hlog]
    simp only [weight_cons, weight_nil, challengedCount]
    split_ifs <;> omega
  · have hcreated : created = ⟨0, 0⟩ := by
      rw [hlog] at hmem
      simp only [List.mem_cons, Event.challenged.injEq, reduceCtorEq, false_or, List.not_mem_nil,
        or_false] at hmem
      exact hmem.2.1
    rw [hcreated]
    decide

end Issuance

end QortalRelay.Tickets
