import QortalRelay.Tickets.SingleUse

/-!
# Clock rollback

A descriptor call refuses an hour before the recorded one. Its own transaction records the hour it
prunes for, so after it no later descriptor call with a smaller hour succeeds. The transaction that
spends a ticket also prunes, on its own reading of the clock, and records nothing. In runs in which
such a transaction never prunes beyond the recorded hour, and never spends a ticket whose key the
recorded hour has outlived, a rollback fails closed (`rollback_fails_closed`). Without the first
condition it does not: after a transaction that has pruned for an unrecorded hour, the clock may go
back and descriptor calls still succeed (`rollback_succeeds_sample`).
-/

set_option autoImplicit false
set_option relaxedAutoImplicit false

namespace QortalRelay.Tickets

open Foundation.Encoding Foundation.Store Foundation.Trace Access

/-! ### Hours that were acted on -/

/-- The hour a committed transaction recorded, or deleted records for. -/
def Event.basis : Event → Option ℤ
  | .committed hour recorded deleted =>
    if recorded ∨ deleted ≠ ⟨[], [], []⟩ then some hour else none
  | _ => none

/-- An hour not before any that was acted on when a call began. -/
def Reached (log : List Event) (since : ℕ) (hour : ℤ) : Prop :=
  since ≤ log.length ∧ ∀ event ∈ log.take since, ∀ n, event.basis = some n → n ≤ hour

theorem Reached.append {log : List Event} {since : ℕ} {hour : ℤ} (h : Reached log since hour)
    (events : List Event) : Reached (log ++ events) since hour := by
  refine ⟨by simp only [List.length_append]; have := h.1; omega, ?_⟩
  rw [List.take_append_of_le_length h.1]
  exact h.2

theorem Event.basis_of_isReadOnly {event : Event} (h : event.isReadOnly) : event.basis = none := by
  cases event <;> simp_all [Event.basis, Event.isReadOnly]

section Threads

variable {crypto : Crypto} {codec : Codec} {policy : Policy}

/-- What a descriptor call in progress knows about the hours acted on before it began. -/
def ThreadReached {Key : Type} (log : List Event) : Thread Key → Prop
  | .describing since _ _ .enter | .describing since _ _ (.update _) => since ≤ log.length
  | .describing since _ _ (.lookup hour) | .describing since _ _ (.persist hour _) =>
    Reached log since hour
  | _ => True

def EventReached (log : List Event) : Event → Prop
  | .described since hour _ => Reached log since hour
  | _ => True

theorem ThreadReached.append {Key : Type} {log : List Event} {thread : Thread Key}
    (h : ThreadReached log thread) (events : List Event) :
    ThreadReached (log ++ events) thread := by
  unfold ThreadReached at h ⊢
  split at h
  · simp only [List.length_append]
    omega
  · simp only [List.length_append]
    omega
  · exact h.append events
  · exact h.append events
  · trivial

theorem EventReached.append {log : List Event} {event : Event} (h : EventReached log event)
    (events : List Event) : EventReached (log ++ events) event := by
  cases event with
  | described since hour epoch => exact Reached.append h events
  | _ => trivial

/-- A thread and its entries, against the log to which the entries are added. -/
def NextReached {Key : Type} (log : List Event) (next : Thread Key × List Event) : Prop :=
  ThreadReached (log ++ next.2) next.1 ∧ ∀ event ∈ next.2, EventReached (log ++ next.2) event

theorem threadReached_of_isInert {Key : Type} {thread : Thread Key} (h : thread.isInert)
    (log : List Event) : ThreadReached log thread := by
  unfold Thread.isInert at h
  split at h <;> simp_all [ThreadReached]

theorem eventReached_of_isInert {event : Event} (h : event.isInert) (log : List Event) :
    EventReached log event := by
  cases event <;> simp_all [Event.isInert, EventReached]

theorem Inert.reached {Key : Type} {next : Thread Key × List Event} (h : Inert next)
    (log : List Event) : NextReached log next :=
  ⟨threadReached_of_isInert h.1 _, fun event hevent ↦ eventReached_of_isInert (h.2 event hevent) _⟩

theorem nextReached_resumeOk {log : List Event} {now : Time} {start : ℕ} {hour epoch : ℤ}
    {descriptor : Descriptor} {key : crypto.Key} {caller : Caller}
    (h : Reached log start hour) :
    NextReached log (Prod.map id (.described start hour epoch :: ·)
      (resumeOk crypto codec policy now start descriptor key caller)) := by
  have hdescribed : ∀ events, EventReached (log ++ events) (.described start hour epoch) :=
    fun events ↦ Reached.append h events
  rcases resumeOk_cases crypto codec policy now start descriptor key caller with
    hinert | ⟨_, _, _, -, -, hnext⟩ | ⟨_, -, hnext⟩
  · refine ⟨threadReached_of_isInert hinert.1 _, ?_⟩
    simp only [Prod.map_snd, List.mem_cons, forall_eq_or_imp]
    exact ⟨hdescribed _, fun event hevent ↦ eventReached_of_isInert (hinert.2 event hevent) _⟩
  · rw [hnext]
    refine ⟨trivial, ?_⟩
    simp only [Prod.map_snd, List.mem_cons, List.not_mem_nil, or_false, forall_eq_or_imp, forall_eq]
    exact ⟨hdescribed _, trivial⟩
  · rw [hnext]
    refine ⟨trivial, ?_⟩
    simp only [Prod.map_snd, List.mem_singleton, forall_eq]
    exact hdescribed _

/-- Assumes: every hour acted on is at most the recorded one. A descriptor call that gets past its
transaction has read an hour not before any that was acted on when it began. -/
theorem act_reached {now : Time} {i : ℕ} {log : List Event} {shared shared' : Shared crypto.Key}
    {thread : Thread crypto.Key} {next : Thread crypto.Key × List Event}
    (hwf : shared.db.WellFormed)
    (hlatest : ∀ event ∈ log, ∀ n, event.basis = some n → n ≤ shared.db.latestEpoch)
    (hthread : ThreadReached log thread)
    (hact : Act crypto codec policy now i log.length shared thread shared' next) :
    NextReached log next := by
  cases hact with
  | enterRefused | updateRefused | lookupRefused | describeFailed =>
    exact (inert_resumeError _).reached log
  | drawFailed | crowdedOut | chargeRefused => exact (inert_refuse _ _).reached log
  | compare => exact (inert_compare _ _ _ _ _).reached log
  | asked => exact (inert_weigh _ _).reached log
  | rechecked application sent result hcheck =>
    refine ⟨threadReached_of_isInert (inert_judge application result).1 _, ?_⟩
    simp only [Prod.map_snd, List.mem_cons, forall_eq_or_imp]
    exact ⟨trivial, fun event hevent ↦
      eventReached_of_isInert ((inert_judge application result).2 event hevent) _⟩
  | found start epoch hour caller key hkey => exact nextReached_resumeOk hthread
  | persisted start epoch hour caller key => exact nextReached_resumeOk hthread
  | opening | parsed | ticketParsed | charge => exact ⟨by simp [ThreadReached], by simp⟩
  | enter => exact ⟨by simpa [ThreadReached] using hthread, by simp⟩
  | update start epoch hour caller commit htx =>
    have hle := (descriptorTx_ok hwf htx).1
    have hreached : Reached log start hour := by
      refine ⟨hthread, fun event hevent n hn ↦ ?_⟩
      exact (hlatest event (List.mem_of_mem_take hevent) n hn).trans hle
    exact ⟨hreached.append _, by simp [EventReached]⟩
  | generate => exact ⟨by simpa [ThreadReached] using hthread, by simp⟩
  | ask application pc pc' members hlookup =>
    exact ⟨trivial, by cases pc' <;> simp [lookupEvents, EventReached]⟩
  | _ => exact ⟨trivial, by simp [EventReached]⟩

end Threads

/-! ### Pruning that a rollback cannot expose -/

section Runs

variable {crypto : Crypto} {codec : Codec}

/-- Every transaction that spends a ticket in this step finds the recorded hour inside the life of
the ticket's key, and if it has records to delete for the hour it reads, that hour is not after the
recorded one. -/
def PrunesRecorded (w w' : World crypto) : Prop :=
  ∀ (i since : ℕ) (descriptor : Descriptor) (message : Bytes) (readAt : Time),
    w.threads[i]? = some (.spending since descriptor message) →
    w'.threads[i]? = some (.timing ⟨descriptor, message, readAt, since⟩) →
    w.shared.db.latestEpoch < descriptor.epoch + 12 ∧
      (outdated recordEpoch (w.clock.hour - 12) w.shared.db.spent ≠ [] ∨
        outdated recordEpoch (w.clock.hour - 12) w.shared.db.quota ≠ [] →
        w.clock.hour ≤ w.shared.db.latestEpoch)

/-- The markers a transaction deleted are of hours whose keys had died at the hour it read. -/
def DeletionsOk : Event → Prop
  | .committed hour _ deleted => ∀ key ∈ deleted.spent,
    ∃ epoch tail, HourRange epoch ∧ key = epochKey epoch tail ∧ epoch ≤ hour - 12
  | _ => True

/-- No earlier transaction deleted the marker of the ticket. -/
def NotDeletedBefore (crypto : Crypto) (before : List Event) : Event → Prop
  | .spent marker => ∀ hour recorded deleted, Event.committed hour recorded deleted ∈ before →
    spentKey marker.descriptor.epoch (ticketId crypto marker.message) ∉ deleted.spent
  | _ => True

/-- The hours that were acted on are recorded, and no ticket is spent after its marker was deleted.
-/
structure FailsClosed (w : World crypto) : Prop where
  /-- Every hour acted on is at most the recorded one. -/
  latest : ∀ event ∈ w.log, ∀ n, event.basis = some n → n ≤ w.shared.db.latestEpoch
  threads : ∀ thread ∈ w.threads, ThreadReached w.log thread
  described : ∀ event ∈ w.log, EventReached w.log event
  deletions : ∀ event ∈ w.log, DeletionsOk event
  spent : Justified (NotDeletedBefore crypto) w.log

theorem notDeletedBefore_of_isReadOnly {before : List Event} {event : Event}
    (h : event.isReadOnly) : NotDeletedBefore crypto before event := by
  cases event <;> simp_all [NotDeletedBefore, Event.isReadOnly]

theorem deletionsOk_of_isReadOnly {event : Event} (h : event.isReadOnly) : DeletionsOk event := by
  cases event <;> simp_all [DeletionsOk, Event.isReadOnly]

theorem mem_outdated_cases {V : Type} {b : Bucket Text V} (hkeys : HourKeys b) {cutoff : ℤ}
    {key : Text} (h : key ∈ outdated recordEpoch cutoff b) :
    ∃ epoch tail, HourRange epoch ∧ key = epochKey epoch tail ∧ epoch ≤ cutoff := by
  obtain ⟨epoch, tail, hrange, rfl⟩ := hkeys key (List.mem_of_mem_filter h)
  exact ⟨epoch, tail, hrange, rfl, mem_outdated hrange h⟩

/-- What the descriptor transaction reports: an hour it recorded, which is then the recorded one,
or nothing. -/
theorem committed_update {db : Database} (hwf : db.WellFormed) {hour : ℤ} (hhour : hour < 10 ^ 12)
    {commit : Commit} (htx : descriptorTx hour db = .ok commit) :
    db.latestEpoch ≤ commit.db.latestEpoch ∧
      (∀ n, (Event.committed hour (decide (db.latestEpoch < hour)) commit.deleted).basis = some n →
        n ≤ commit.db.latestEpoch) ∧
      DeletionsOk (.committed hour (decide (db.latestEpoch < hour)) commit.deleted) := by
  obtain ⟨hle, ⟨heq, rfl⟩ | ⟨hlt, hdb, hspent⟩⟩ := descriptorTx_ok hwf htx
  · refine ⟨le_rfl, fun n hn ↦ ?_, by simp [DeletionsOk]⟩
    simp [Event.basis, heq] at hn
  · have hrecorded : commit.db.latestEpoch = hour := by
      rw [hdb, latestEpoch_advance db ⟨hwf.latest_nonneg.trans hle, hhour⟩]
    refine ⟨by omega, fun n hn ↦ ?_, fun key hkey ↦ ?_⟩
    · simp only [Event.basis, hlt, decide_true, true_or, if_true, Option.some.injEq] at hn
      omega
    · rw [hspent] at hkey
      exact mem_outdated_cases hwf.spent hkey

/-- What the spending transaction reports, when it prunes nothing beyond the recorded hour. -/
theorem committed_spend {db : Database} (hwf : db.WellFormed) {hour : ℤ} {key : Text}
    {commit : Commit} (htx : redeemTx hour key db = .ok commit)
    (hguard : outdated recordEpoch (hour - 12) db.spent ≠ [] ∨
      outdated recordEpoch (hour - 12) db.quota ≠ [] → hour ≤ db.latestEpoch) :
    (∀ n, (Event.committed hour false commit.deleted).basis = some n → n ≤ db.latestEpoch) ∧
      DeletionsOk (.committed hour false commit.deleted) := by
  obtain ⟨-, -, rfl⟩ := redeemTx_ok hwf htx
  refine ⟨fun n hn ↦ ?_, fun key hkey ↦ mem_outdated_cases hwf.spent hkey⟩
  simp only [Event.basis, Bool.false_eq_true, false_or] at hn
  split_ifs at hn with hdeleted
  obtain rfl := Option.some.inj hn
  refine hguard ?_
  by_contra hnone
  simp only [not_or, not_not] at hnone
  exact hdeleted (by rw [hnone.1, hnone.2])

/-- Assumes: the recorded hour lies inside the life of the ticket's key. No entry so far deleted the
ticket's marker. -/
theorem notDeleted_of_latest {log : List Event} {latest epoch : ℤ} {tail : Text}
    (hlatest : ∀ event ∈ log, ∀ n, event.basis = some n → n ≤ latest)
    (hdeletions : ∀ event ∈ log, DeletionsOk event) (hepoch : HourRange epoch)
    (hlife : latest < epoch + 12) {hour : ℤ} {recorded : Bool} {deleted : Deletions}
    (hmem : Event.committed hour recorded deleted ∈ log) : epochKey epoch tail ∉ deleted.spent := by
  intro hkey
  obtain ⟨epoch', tail', hepoch', heq, hle⟩ := hdeletions _ hmem _ hkey
  obtain ⟨rfl, -⟩ := epochKey_injective hepoch hepoch' heq
  have hbasis : (Event.committed hour recorded deleted).basis = some hour := by
    have hne : deleted ≠ ⟨[], [], []⟩ := by
      rintro rfl
      simp at hkey
    simp [Event.basis, hne]
  have := hlatest _ hmem _ hbasis
  omega

/-- What a step that logs entries has to show. -/
theorem FailsClosed.extend {w w' : World crypto} (h : FailsClosed w) {events : List Event}
    (hlog : w'.log = w.log ++ events)
    (hthreads : ∀ thread ∈ w'.threads, ThreadReached w'.log thread)
    (hdescribed : ∀ event ∈ events, EventReached w'.log event)
    (hle : w.shared.db.latestEpoch ≤ w'.shared.db.latestEpoch)
    (hbasis : ∀ event ∈ events, ∀ n, event.basis = some n → n ≤ w'.shared.db.latestEpoch)
    (hdeletions : ∀ event ∈ events, DeletionsOk event)
    (hspent : Justified (NotDeletedBefore crypto) w'.log) : FailsClosed w' := by
  refine ⟨fun event hevent n hn ↦ ?_, hthreads, fun event hevent ↦ ?_, fun event hevent ↦ ?_,
    hspent⟩
  all_goals
    have hmem := hevent
    rw [hlog, List.mem_append] at hmem
  · rcases hmem with hold | hnew
    · exact (h.latest event hold n hn).trans hle
    · exact hbasis event hnew n hn
  · rcases hmem with hold | hnew
    · rw [hlog]
      exact (h.described event hold).append events
    · exact hdescribed event hnew
  · rcases hmem with hold | hnew
    · exact h.deletions event hold
    · exact hdeletions event hnew

/-- Entries that report nothing about the database keep the order of deletions and spendings. -/
theorem justified_append_readOnly {log events : List Event}
    (h : Justified (NotDeletedBefore crypto) log) (hevents : ∀ event ∈ events, event.isReadOnly) :
    Justified (NotDeletedBefore crypto) (log ++ events) := by
  refine h.append events fun before event after heq ↦ ?_
  exact notDeletedBefore_of_isReadOnly (hevents event (by simp [heq]))

/-- Nor do they report an epoch or a deletion. -/
theorem FailsClosed.extend_readOnly {w w' : World crypto} (h : FailsClosed w) {events : List Event}
    (hlog : w'.log = w.log ++ events)
    (hthreads : ∀ thread ∈ w'.threads, ThreadReached w'.log thread)
    (hdescribed : ∀ event ∈ events, EventReached w'.log event)
    (hle : w.shared.db.latestEpoch ≤ w'.shared.db.latestEpoch)
    (hevents : ∀ event ∈ events, event.isReadOnly) : FailsClosed w' := by
  refine h.extend hlog hthreads hdescribed hle (fun event hevent n hn ↦ ?_)
    (fun event hevent ↦ deletionsOk_of_isReadOnly (hevents event hevent)) ?_
  · rw [Event.basis_of_isReadOnly (hevents event hevent)] at hn
    cases hn
  · rw [hlog]
    exact justified_append_readOnly h.spent hevents

theorem Step.failsClosed {w w' : World crypto} (hstep : Step codec w w')
    (hguard : PrunesRecorded w w') (hsound : Sound crypto codec w) (h : FailsClosed w) :
    FailsClosed w' := by
  cases hstep with
  | tick reading hmono hsane => exact ⟨h.latest, h.threads, h.described, h.deletions, h.spent⟩
  | restart policy =>
    exact ⟨h.latest, by simp [World.restarted, ThreadReached], h.described, h.deletions, h.spent⟩
  | request request hserving hslot =>
    refine ⟨h.latest, ?_, h.described, h.deletions, h.spent⟩
    simp only [World.called, List.forall_mem_append, List.forall_mem_singleton]
    exact ⟨h.threads, trivial⟩
  | redeem raw hserving =>
    refine ⟨h.latest, ?_, h.described, h.deletions, h.spent⟩
    simp only [World.called, List.forall_mem_append, List.forall_mem_singleton]
    exact ⟨h.threads, trivial⟩
  | crowded hserving hslot =>
    exact h.extend_readOnly rfl (fun thread hthread ↦ (h.threads thread hthread).append _)
      (by simp [EventReached]) le_rfl (by simp [Event.isReadOnly])
  | act i thread shared next hthread hact =>
    have hmem := List.mem_of_getElem? hthread
    have hwf := hsound.shared.db
    have hok := hsound.threads thread hmem
    obtain ⟨hnext, hdescribed⟩ := act_reached hwf h.latest (h.threads thread hmem) hact
    have hthreads : ∀ thread ∈ (w.moved i shared next).threads,
        ThreadReached (w.moved i shared next).log thread :=
      forall_mem_set (fun thread hthread ↦ (h.threads thread hthread).append _) hnext
    rcases act_db_cases hact with ⟨hdb, hevents⟩ |
      ⟨start, epoch', hour, caller, commit, rfl, htx, hdb, rfl⟩ |
      ⟨start, epoch', hour, caller, key, rfl, hdb, hevents⟩ |
      ⟨application, checked, rfl, htx, rfl⟩ |
      ⟨start, descriptor, message, commit, rfl, htx, hdb, rfl⟩
    · exact h.extend_readOnly rfl hthreads hdescribed (by rw [World.moved, hdb]) hevents
    · obtain ⟨hle, hbasis, hdeletions⟩ := committed_update hwf hok.2.1 htx
      rw [← hdb] at hle hbasis
      refine h.extend rfl hthreads hdescribed hle ?_ ?_ (h.spent.snoc trivial)
      · simpa [World.moved] using hbasis
      · simpa using hdeletions
    · exact h.extend_readOnly rfl hthreads hdescribed (by rw [World.moved, hdb]; rfl) hevents
    · obtain ⟨-, hdb⟩ := quotaTx_ok htx
      refine h.extend rfl hthreads hdescribed (by rw [World.moved, hdb]; rfl) (by simp) (by simp) ?_
      simpa [World.moved] using h.spent
    · have hlength := (List.getElem?_eq_some_iff.mp hthread).1
      obtain ⟨hlife, hprunes⟩ := hguard i start descriptor message w.clock hthread
        (by simp [World.moved, hlength])
      obtain ⟨hbasis, hdeletions⟩ := committed_spend hwf htx hprunes
      have hlatest : shared.db.latestEpoch = w.shared.db.latestEpoch := by
        obtain ⟨-, -, rfl⟩ := redeemTx_ok hwf htx
        rw [hdb]
        rfl
      refine h.extend rfl hthreads hdescribed hlatest.ge ?_ ?_ ?_
      · simpa [Event.basis, World.moved, hlatest] using hbasis
      · simpa [DeletionsOk] using hdeletions
      · have hsnoc : Justified (NotDeletedBefore crypto)
            (w.log ++ [.committed w.clock.hour false commit.deleted]) := h.spent.snoc trivial
        have hnotDeleted : NotDeletedBefore crypto
            (w.log ++ [.committed w.clock.hour false commit.deleted])
            (.spent ⟨descriptor, message, w.clock, start⟩) := by
          intro hour recorded deleted hcommitted
          refine notDeleted_of_latest ?_ ?_ hok.1.1 hlife hcommitted
          · simp only [List.forall_mem_append, List.forall_mem_singleton]
            exact ⟨h.latest, hbasis⟩
          · simp only [List.forall_mem_append, List.forall_mem_singleton]
            exact ⟨h.deletions, hdeletions⟩
        simpa [World.moved] using hsnoc.snoc hnotDeleted

theorem failsClosed_of_run {w w' : World crypto} (h : Initial w)
    (hrun : Run (Step codec) PrunesRecorded w w') : FailsClosed w' := by
  have hstart : Sound crypto codec w ∧ FailsClosed w := by
    refine ⟨sound_of_initial h, ?_⟩
    refine ⟨by simp [h.log], by simp [h.threads, ThreadReached], by simp [h.log], by simp [h.log],
      ?_⟩
    rw [h.log]
    exact justified_nil
  exact (hrun.invariant (fun s ↦ Sound crypto codec s ∧ FailsClosed s)
    (fun s t hs hstep hst ↦ ⟨hstep.sound hs.1, hstep.failsClosed hst hs.1 hs.2⟩) hstart).2

end Runs

/-! ### Successes rest on a descriptor call -/

section Successes

variable {crypto : Crypto} {codec : Codec} {policy : Policy}

/-- The descriptor call a thread has got past, by the length of the log when it began. -/
def Thread.since {Key : Type} : Thread Key → Option ℕ
  | .drawing bound | .queued bound _ _ | .sweeping bound _ _ _ => some bound.since
  | .claiming application | .comparing application _ | .asking application _
  | .rechecking application _ | .charging application _
  | .describing _ _ (.sign application _) _ => some application.bound.since
  | .verifying since _ _ _ | .spending since _ _ => some since
  | .timing marker | .lasting marker _ => some marker.since
  | _ => none

/-- The descriptor call behind an answer of success: a catalog, a challenge, signatures or a
redeemed ticket. -/
def Event.success : Event → Option ℕ
  | .catalog since _ => some since
  | .challenged bound _ _ => some bound.since
  | .issued _ application _ _ => some application.bound.since
  | .redeemed marker _ => some marker.since
  | _ => none

/-- A thread and its entries name only a descriptor call that the thread had got past, or that is
reported with them. -/
def NextSince {Key : Type} (old : Option ℕ) (next : Thread Key × List Event) : Prop :=
  ∀ s, (next.1.since = some s ∨ ∃ event ∈ next.2, event.success = some s) →
    old = some s ∨ ∃ hour epoch, Event.described s hour epoch ∈ next.2

theorem nextSince_refuse {Key : Type} (old : Option ℕ) (status : ℕ) (code : ErrorCode) :
    NextSince old (refuse status code : Thread Key × List Event) := by
  simp [NextSince, refuse, Thread.since, Event.success]

theorem nextSince_resumeError {Key : Type} (old : Option ℕ) (caller : Caller) :
    NextSince old (resumeError caller : Thread Key × List Event) := by
  cases caller <;> simp [NextSince, resumeError, refuse, Thread.since, Event.success]

theorem nextSince_judge {Key : Type} (application : Application) (result : MembershipResult) :
    NextSince (some application.bound.since)
      (judge application result : Thread Key × List Event) := by
  unfold judge
  split
  · exact nextSince_refuse _ _ _
  · exact nextSince_refuse _ _ _
  · split_ifs
    · exact nextSince_refuse _ _ _
    · simp [NextSince, Thread.since]

theorem nextSince_weigh {Key : Type} (application : Application) (result : MembershipResult) :
    NextSince (some application.bound.since)
      (weigh application result : Thread Key × List Event) := by
  unfold weigh
  split
  · split_ifs
    · simp [NextSince, Thread.since]
    · exact nextSince_judge _ _
  · exact nextSince_judge _ _

theorem nextSince_compare (now : Time) (application : Application) (found : Option Challenge) :
    NextSince (some application.bound.since) (compare crypto policy now application found) := by
  unfold compare
  split_ifs
  · simp [NextSince, Thread.since, Event.success]
  · simp [NextSince, Thread.since, Event.success]
  · exact nextSince_refuse _ _ _

/-- The call a thread has got past when the descriptor call it makes is its second one. -/
def Caller.since : Caller → Option ℕ
  | .sign application _ => some application.bound.since
  | _ => none

theorem nextSince_resumeOk (codec : Codec) (policy : Policy) (now : Time) (start : ℕ)
    (hour epoch : ℤ) (descriptor : Descriptor) (key : crypto.Key) (caller : Caller) :
    NextSince caller.since (Prod.map id (.described start hour epoch :: ·)
      (resumeOk crypto codec policy now start descriptor key caller)) := by
  have hstart : ∀ {next : Thread crypto.Key × List Event},
      (∀ s, (next.1.since = some s ∨ ∃ event ∈ next.2, event.success = some s) → s = start) →
      NextSince caller.since (Prod.map id (.described start hour epoch :: ·) next) := by
    intro next hnext s hs
    refine Or.inr ⟨hour, epoch, ?_⟩
    simp only [Prod.map_fst, Prod.map_snd, id_eq, List.mem_cons, exists_eq_or_imp, Event.success,
      reduceCtorEq, false_or] at hs
    rw [hnext s hs]
    exact List.mem_cons_self
  unfold resumeOk
  split
  · exact hstart (by simp [Thread.since])
  · exact hstart (by simp [Thread.since, Event.success])
  · refine hstart ?_
    unfold routeRequest
    split
    · simp [Thread.since, Event.success]
    · rename_i bound hbound
      obtain ⟨rfl, -⟩ := admitInput_ok hbound
      split <;> simp [refuse, Thread.since, Event.success]
  · rename_i application checked
    split
    · exact hstart (by simp [refuse, Thread.since, Event.success])
    · intro s hs
      simp only [Prod.map_fst, Prod.map_snd, id_eq, Thread.since, reduceCtorEq, List.mem_cons,
        List.not_mem_nil, or_false, exists_eq_or_imp, Event.success, false_or, exists_eq_left] at hs
      exact Or.inl hs
  · exact hstart (by simp [Thread.since])

theorem act_since {now : Time} {i since : ℕ} {shared shared' : Shared crypto.Key}
    {thread : Thread crypto.Key} {next : Thread crypto.Key × List Event}
    (hact : Act crypto codec policy now i since shared thread shared' next) :
    NextSince thread.since next := by
  cases hact with
  | enterRefused | updateRefused | lookupRefused | describeFailed =>
    exact nextSince_resumeError _ _
  | drawFailed | crowdedOut | chargeRefused => exact nextSince_refuse _ _ _
  | compare => exact nextSince_compare _ _ _
  | asked => exact nextSince_weigh _ _
  | rechecked application sent result hcheck =>
    intro s hs
    simp only [Prod.map_fst, Prod.map_snd, id_eq, List.mem_cons, exists_eq_or_imp, Event.success,
      reduceCtorEq, false_or] at hs
    rcases nextSince_judge application result s hs with h | ⟨hour, epoch, h⟩
    · exact Or.inl h
    · exact Or.inr ⟨hour, epoch, List.mem_cons_of_mem _ h⟩
  | found start epoch hour caller key hkey =>
    have h := nextSince_resumeOk codec policy now start hour epoch
      (descriptorFor crypto codec policy epoch key) key caller
    cases caller <;> exact h
  | persisted start epoch hour caller key =>
    have h := nextSince_resumeOk codec policy now start hour epoch
      (descriptorFor crypto codec policy epoch key) key caller
    cases caller <;> exact h
  | enter start epoch caller hmu hwindow => cases caller <;> simp [NextSince, Thread.since]
  | update start epoch hour caller commit htx =>
    cases caller <;> simp [NextSince, Thread.since, Event.success]
  | generate start epoch hour caller key hkey => cases caller <;> simp [NextSince, Thread.since]
  | ask application pc pc' members hlookup =>
    cases pc' <;> simp [NextSince, Thread.since, lookupEvents, Event.success]
  | _ => simp [NextSince, Thread.since, Event.success]

/-- Every descriptor call that a thread has got past, or that a success rests on, is reported. -/
structure Covered (w : World crypto) : Prop where
  threads : ∀ thread ∈ w.threads, ∀ s, thread.since = some s →
    ∃ hour epoch, Event.described s hour epoch ∈ w.log
  log : ∀ event ∈ w.log, ∀ s, event.success = some s →
    ∃ hour epoch, Event.described s hour epoch ∈ w.log

theorem Step.covered {w w' : World crypto} (hstep : Step codec w w') (h : Covered w) :
    Covered w' := by
  cases hstep with
  | tick reading hmono hsane => exact ⟨h.threads, h.log⟩
  | restart policy => exact ⟨by simp [World.restarted, Thread.since], h.log⟩
  | request request hserving hslot =>
    refine ⟨?_, h.log⟩
    simp only [World.called, List.forall_mem_append, List.forall_mem_singleton]
    exact ⟨h.threads, by simp [Thread.since]⟩
  | redeem raw hserving =>
    refine ⟨?_, h.log⟩
    simp only [World.called, List.forall_mem_append, List.forall_mem_singleton]
    exact ⟨h.threads, by simp [Thread.since]⟩
  | crowded hserving hslot =>
    refine ⟨fun thread hthread s hs ↦ ?_, fun event hevent s hs ↦ ?_⟩
    · obtain ⟨hour, epoch, hmem⟩ := h.threads thread hthread s hs
      exact ⟨hour, epoch, List.mem_append_left _ hmem⟩
    · rcases List.mem_append.mp hevent with hold | hnew
      · obtain ⟨hour, epoch, hmem⟩ := h.log event hold s hs
        exact ⟨hour, epoch, List.mem_append_left _ hmem⟩
      · rw [List.mem_singleton.mp hnew] at hs
        cases hs
  | act i thread shared next hthread hact =>
    have hold : ∀ s, (∃ hour epoch, Event.described s hour epoch ∈ w.log) →
        ∃ hour epoch, Event.described s hour epoch ∈ (w.moved i shared next).log := by
      rintro s ⟨hour, epoch, hmem⟩
      exact ⟨hour, epoch, List.mem_append_left _ hmem⟩
    have hnew : ∀ s, (next.1.since = some s ∨ ∃ event ∈ next.2, event.success = some s) →
        ∃ hour epoch, Event.described s hour epoch ∈ (w.moved i shared next).log := by
      intro s hs
      rcases act_since hact s hs with hthis | ⟨hour, epoch, hmem⟩
      · exact hold s (h.threads thread (List.mem_of_getElem? hthread) s hthis)
      · exact ⟨hour, epoch, List.mem_append_right _ hmem⟩
    refine ⟨?_, fun event hevent s hs ↦ ?_⟩
    · exact forall_mem_set (fun thread hthread s hs ↦ hold s (h.threads thread hthread s hs))
        fun s hs ↦ hnew s (Or.inl hs)
    · rcases List.mem_append.mp hevent with hmem | hmem
      · exact hold s (h.log event hmem s hs)
      · exact hnew s (Or.inr ⟨event, hmem, hs⟩)

theorem covered_of_run {guard : World crypto → World crypto → Prop} {w w' : World crypto}
    (h : Initial w) (hrun : Run (Step codec) guard w w') : Covered w' := by
  refine hrun.invariant Covered (fun s t hs hstep _ ↦ hstep.covered hs) ⟨?_, ?_⟩
  · simp [h.threads, Thread.since]
  · simp [h.log]

/-- A rollback fails closed. Assumes: every transaction that spends a ticket finds the recorded hour
inside the life of the ticket's key, and prunes nothing beyond the recorded hour. The clock may jump
anywhere. In every state that is reached, each descriptor call that has returned a descriptor read
an hour not before any hour acted on when it began; so did the descriptor call behind each success;
and no ticket was spent after its marker had been deleted. -/
theorem rollback_fails_closed {w w' : World crypto} (hinitial : Initial w)
    (hrun : Run (Step codec) PrunesRecorded w w') :
    (∀ since hour epoch, Event.described since hour epoch ∈ w'.log →
      ∀ event ∈ w'.log.take since, ∀ n, event.basis = some n → n ≤ hour) ∧
    (∀ event ∈ w'.log, ∀ since, event.success = some since →
      ∃ hour epoch, Event.described since hour epoch ∈ w'.log ∧
        ∀ event ∈ w'.log.take since, ∀ n, event.basis = some n → n ≤ hour) ∧
    (∀ before marker after, w'.log = before ++ Event.spent marker :: after →
      ∀ hour recorded deleted, Event.committed hour recorded deleted ∈ before →
        spentKey marker.descriptor.epoch (ticketId crypto marker.message) ∉ deleted.spent) := by
  have hclosed := failsClosed_of_run hinitial hrun
  have hcovered := covered_of_run hinitial hrun
  have hdescribed : ∀ since hour epoch, Event.described since hour epoch ∈ w'.log →
      ∀ event ∈ w'.log.take since, ∀ n, event.basis = some n → n ≤ hour :=
    fun since hour epoch hmem ↦ (hclosed.described _ hmem : Reached _ _ _).2
  refine ⟨hdescribed, fun event hevent since hsince ↦ ?_, fun before marker after hlog ↦ ?_⟩
  · obtain ⟨hour, epoch, hmem⟩ := hcovered.log event hevent since hsince
    exact ⟨hour, epoch, hmem, hdescribed since hour epoch hmem⟩
  · exact hclosed.spent before _ after hlog

/-- A run of the first hour in which the clock stands still. -/
theorem prunesRecorded_run {w w' : World crypto} (h : Initial w) (hhour : w.clock.hour = 0)
    (hrun : Run (Step codec) StandStill w w') : Run (Step codec) PrunesRecorded w w' := by
  have hkept : ∀ s t : World crypto, StandStill s t → WallForward s t :=
    fun s t (hstill : t.clock = s.clock) ↦ by rw [WallForward, hstill]
  refine (hrun.reguard (fun s ↦ s.clock = w.clock ∧ Run (Step codec) StandStill w s)
    (fun s t hs hstep hst ↦ ⟨⟨hst.trans hs.1, hs.2.snoc hstep hst⟩, ?_⟩) ⟨rfl, .refl w⟩).2
  intro i since descriptor message readAt hthread _
  have hsound := sound_of_run h hs.2
  have hrecorded := recordedPast_of_run hkept h hs.2
  have hepoch : 0 ≤ descriptor.epoch := (hsound.threads _ (List.mem_of_getElem? hthread)).1.1.1
  have hlatest := hsound.shared.db.latest_nonneg
  rw [RecordedPast, hs.1, hhour, max_self] at hrecorded
  rw [hs.1, hhour]
  exact ⟨by omega, fun _ ↦ hlatest⟩

/-- A ticket redeemed in the first hour: the descriptor call behind it read no hour before the ones
acted on. -/
theorem rollback_fails_closed_sample :
    ∃ w', Run (Step sampleCodec) PrunesRecorded sampleWorld w' ∧
      (∃ grantedUntil, Event.redeemed sampleMarker grantedUntil ∈ w'.log) ∧
      ∃ hour epoch, Event.described 2 hour epoch ∈ w'.log ∧
        ∀ event ∈ w'.log.take 2, ∀ n, event.basis = some n → n ≤ hour := by
  obtain ⟨w, deleted, hrun, -, -, -, -, hlog⟩ := redeem_sample
  have hrecorded := prunesRecorded_run initial_sampleWorld (by decide) hrun
  have hmem : Event.redeemed sampleMarker
      (deadline sampleDescriptor sampleWorld.clock sampleWorld.clock) ∈ w.log := by simp [hlog]
  refine ⟨w, hrecorded, ⟨_, hmem⟩, ?_⟩
  exact (rollback_fails_closed initial_sampleWorld hrecorded).2.1 _ hmem 2 rfl

/-- A rollback that succeeds. A transaction that spends a ticket reads hour 12 and deletes a marker;
the clock goes back to hour 0, and the descriptor call of a redemption that starts then returns the
descriptor of hour 0. -/
theorem rollback_succeeds_sample :
    ∃ w' since, Initial sampleWorld ∧ Run (Step sampleCodec) (fun _ _ ↦ True) sampleWorld w' ∧
      Event.described since 0 0 ∈ w'.log ∧ ∃ event ∈ w'.log.take since, event.basis = some 12 := by
  obtain ⟨w, before, deleted, second, grantedUntil, hrun, hidle, -, hpolicy, -, hdeleted, hlog⟩ :=
    respend_sample
  have hback : Step sampleCodec w { w with clock := ⟨0, w.clock.mono⟩ } :=
    .tick ⟨0, w.clock.mono⟩ le_rfl (by simp [Time.Plausible])
  have hverify : verifyTicket sampleCrypto sampleCodec sampleTicket
      (descriptorFor sampleCrypto sampleCodec w.policy 0 ()) () ⟨0, w.clock.mono⟩ =
        some sampleMessage := by
    rw [hpolicy]
    exact verifyTicket_sample (by simp [Time.unixMilli])
  have hagain := call_run hidle.serving [] (verify_run hidle [] rfl rfl hverify)
  refine ⟨_, w.log.length, initial_sampleWorld, ((hrun.mono fun _ _ _ _ ↦ trivial).snoc hback
    trivial).trans (hagain.mono fun _ _ _ _ ↦ trivial), ?_, ?_⟩
  · simp [World.newest, Time.hour, Time.unix]
  · refine ⟨.committed 12 false deleted, ?_, by simp [Event.basis, hdeleted]⟩
    rw [World.newest, List.take_left, hlog]
    simp

end Successes

end QortalRelay.Tickets
