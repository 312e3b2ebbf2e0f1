import QortalRelay.Tickets.Authority

/-!
# What always holds in the authority

Facts that hold in every run, whatever the clock does: the database has the form the program gives
it, keys in memory belong to hours of at most twelve digits, and every thread carries data that
passed the checks of its earlier moves. They are proved move by move (`act_sound`), and then hold
along every run (`sound_of_run`).
-/

set_option autoImplicit false
set_option relaxedAutoImplicit false

namespace QortalRelay.Tickets

open Foundation.Decimal Foundation.Encoding Foundation.Store Foundation.Trace Access

section Facts

variable (crypto : Crypto) (codec : Codec) (policy : Policy)

/-! ### What a thread knows -/

/-- A descriptor of the policy, for an hour of at most twelve digits. -/
def DescriptorOk (descriptor : Descriptor) : Prop :=
  HourRange descriptor.epoch ∧
    ∃ key, descriptor = descriptorFor crypto codec policy descriptor.epoch key

/-- A request whose descriptor is current and that asks for one to three signatures. -/
def BoundOk (bound : Bound) : Prop :=
  DescriptorOk crypto codec policy bound.descriptor ∧
    1 ≤ bound.blinded.length ∧ bound.blinded.length ≤ 3

/-- The check that a membership answer is recent enough for the life of the key. -/
def RecentEnough (application : Application) (checked : Time) : Prop :=
  application.bound.descriptor.expiresAt ≤
    (checked.add (ticketLifetime * Time.second)).unixMilli

/-- A descriptor with a ticket message of its key. -/
def MessageOk (descriptor : Descriptor) (message : Bytes) : Prop :=
  DescriptorOk crypto codec policy descriptor ∧ IsTicketMessage descriptor.keyId message

/-- What a call that waits for a descriptor has checked before. -/
def CallerOk (epoch : ℤ) : Caller → Prop
  | .sign application checked =>
    BoundOk crypto codec policy application.bound ∧ RecentEnough application checked ∧
      epoch = application.bound.descriptor.epoch
  | _ => True

/-- The hour a descriptor call has read, against the hour it was asked for. -/
def PhaseOk {Key : Type} (epoch : ℤ) : Phase Key → Prop
  | .enter => True
  | .update hour => hour < 10 ^ 12 ∧ epoch ≤ hour ∧ hour - 12 < epoch
  | .lookup hour => HourRange hour ∧ epoch ≤ hour ∧ hour - 12 < epoch
  | .persist hour _ => HourRange hour ∧ epoch = hour

/-- What a call has checked at each place of the code. -/
def ThreadOk : Thread crypto.Key → Prop
  | .describing _ epoch caller phase =>
    CallerOk crypto codec policy epoch caller ∧ PhaseOk epoch phase
  | .drawing bound | .queued bound _ _ | .sweeping bound _ _ _ => BoundOk crypto codec policy bound
  | .claiming application | .comparing application _ | .asking application _
  | .rechecking application _ => BoundOk crypto codec policy application.bound
  | .charging application checked =>
    BoundOk crypto codec policy application.bound ∧ RecentEnough application checked
  | .verifying _ _ descriptor key =>
    HourRange descriptor.epoch ∧
      descriptor = descriptorFor crypto codec policy descriptor.epoch key
  | .spending _ descriptor message => MessageOk crypto codec policy descriptor message
  | .timing marker | .lasting marker _ =>
    MessageOk crypto codec policy marker.descriptor marker.message
  | _ => True

/-- What an entry of the log tells about the moves that led to it. -/
def EventOk : Event → Prop
  | .spent marker | .redeemed marker _ =>
    ∃ policy, MessageOk crypto codec policy marker.descriptor marker.message
  | .issued _ application checked _ =>
    (∃ policy, BoundOk crypto codec policy application.bound) ∧ RecentEnough application checked
  | _ => True

/-- The bytes that are hashed for an entry of the log: what its binding is made of, or the message
of its ticket and what the identifier of its key is made of. -/
def Event.Hashes (bytes : Bytes) : Event → Prop
  | .challenged bound _ _ => bytes = bound.source
  | .admitted _ application => bytes = application.bound.source
  | .spent marker | .redeemed marker _ => bytes = marker.message ∨
    ∃ policy key, ∃ hepoch : 0 ≤ marker.descriptor.epoch,
      marker.descriptor = descriptorFor crypto codec policy marker.descriptor.epoch key ∧
        bytes = (policy.keySource crypto key hepoch).hashed
  | _ => False

/-- The hash has no collision among the bytes that are hashed for the entries of a log. -/
def CollisionFree (log : List Event) : Prop :=
  Set.InjOn crypto.sha256 { bytes | ∃ event ∈ log, event.Hashes crypto codec bytes }

/-- The database is well formed, and the cached keys are of hours of at most twelve digits. -/
structure SharedOk (shared : Shared crypto.Key) : Prop where
  db : shared.db.WellFormed
  keys : ∀ epoch key, shared.keys epoch = some key → HourRange epoch

end Facts

/-- The facts about a whole state. -/
structure Sound (crypto : Crypto) (codec : Codec) (w : World crypto) : Prop where
  clock : w.clock.Plausible
  shared : SharedOk crypto w.shared
  threads : ∀ thread ∈ w.threads, ThreadOk crypto codec w.policy thread
  log : ∀ event ∈ w.log, EventOk crypto codec event

/-! ### Outcomes that concern only their own request -/

section Inert

/-- A thread that holds no lock, no reading, no key and no spent ticket. -/
def Thread.isInert {Key : Type} : Thread Key → Bool
  | .serving | .drawing _ | .claiming _ | .asking _ _ | .rechecking _ _ | .charging _ _
  | .returned none | .finished => true
  | _ => false

def Event.isInert : Event → Bool
  | .refused _ | .catalog _ _ | .admitted _ _ | .redeemFailed => true
  | _ => false

def Inert {Key : Type} (next : Thread Key × List Event) : Prop :=
  next.1.isInert ∧ ∀ event ∈ next.2, event.isInert

variable {Key : Type}

theorem inert_refuse (status : ℕ) (code : ErrorCode) :
    Inert (refuse status code : Thread Key × List Event) := by
  simp [Inert, refuse, Thread.isInert, Event.isInert]

theorem inert_resumeError (caller : Caller) :
    Inert (resumeError caller : Thread Key × List Event) := by
  cases caller <;> simp [Inert, resumeError, refuse, Thread.isInert, Event.isInert]

theorem inert_judge (application : Application) (result : MembershipResult) :
    Inert (judge application result : Thread Key × List Event) := by
  unfold judge
  split
  · exact inert_refuse _ _
  · exact inert_refuse _ _
  · split_ifs
    · exact inert_refuse _ _
    · simp [Inert, Thread.isInert]

theorem inert_weigh (application : Application) (result : MembershipResult) :
    Inert (weigh application result : Thread Key × List Event) := by
  unfold weigh
  split
  · split_ifs
    · simp [Inert, Thread.isInert]
    · exact inert_judge _ _
  · exact inert_judge _ _

variable (crypto : Crypto) (codec : Codec) (policy : Policy)

theorem inert_compare (now : Time) (application : Application) (found : Option Challenge) :
    Inert (compare crypto policy now application found) := by
  unfold compare
  split_ifs <;> simp [Inert, refuse, Thread.isInert, Event.isInert]

theorem inert_routeRequest (since : ℕ) (route : Route) (input : Input) (descriptor : Descriptor) :
    Inert (routeRequest codec policy since route input descriptor : Thread Key × List Event) := by
  unfold routeRequest
  split
  · simp [Inert, Thread.isInert, Event.isInert]
  · split <;> simp [Inert, refuse, Thread.isInert, Event.isInert]

/-- A descriptor call that succeeds ends in an inert outcome, in signatures, or in the check of a
ticket. -/
theorem resumeOk_cases (now : Time) (since : ℕ) (descriptor : Descriptor) (key : crypto.Key)
    (caller : Caller) :
    Inert (resumeOk crypto codec policy now since descriptor key caller) ∨
      (∃ application checked signatures, caller = .sign application checked ∧
        signAll crypto codec key application.bound.blinded = some signatures ∧
        resumeOk crypto codec policy now since descriptor key caller =
          (.finished, [.issued now application checked signatures])) ∨
      ∃ ticket, caller = .redeem ticket ∧
        resumeOk crypto codec policy now since descriptor key caller =
          (.verifying since ticket descriptor key, []) := by
  unfold resumeOk
  split
  · exact Or.inl (by simp [Inert, Thread.isInert])
  · exact Or.inl (by simp [Inert, Thread.isInert, Event.isInert])
  · exact Or.inl (inert_routeRequest _ _ _ _ _ _)
  · rename_i application checked
    split
    · exact Or.inl (inert_refuse _ _)
    · rename_i signatures hsign
      exact Or.inr (Or.inl ⟨application, checked, signatures, rfl, hsign, rfl⟩)
  · exact Or.inr (Or.inr ⟨_, rfl, rfl⟩)

end Inert

/-! ### Which moves write to the database -/

section Writes

variable {crypto : Crypto} {codec : Codec} {policy : Policy}

/-- An entry that reports neither a pruning transaction nor a spent ticket. -/
def Event.isReadOnly : Event → Bool
  | .committed _ _ _ | .spent _ => false
  | _ => true

theorem Event.isReadOnly_of_isInert {event : Event} (h : event.isInert) : event.isReadOnly := by
  cases event <;> simp_all [Event.isInert, Event.isReadOnly]

theorem Inert.readOnly {Key : Type} {next : Thread Key × List Event} (h : Inert next) :
    ∀ event ∈ next.2, event.isReadOnly :=
  fun event hevent ↦ Event.isReadOnly_of_isInert (h.2 event hevent)

theorem readOnly_resumeOk (now : Time) (start : ℕ) (hour epoch : ℤ) (descriptor : Descriptor)
    (key : crypto.Key) (caller : Caller) :
    ∀ event ∈ (Prod.map id (.described start hour epoch :: ·)
      (resumeOk crypto codec policy now start descriptor key caller)).2, event.isReadOnly := by
  simp only [Prod.map_snd, List.mem_cons, forall_eq_or_imp]
  refine ⟨rfl, ?_⟩
  rcases resumeOk_cases crypto codec policy now start descriptor key caller with
    h | ⟨_, _, _, -, -, h⟩ | ⟨_, -, h⟩
  · exact h.readOnly
  · simp [h, Event.isReadOnly]
  · simp [h]

/-- The four moves that write, and what they write. All others leave the database and report
nothing about it. -/
theorem act_db_cases {now : Time} {i since : ℕ} {shared shared' : Shared crypto.Key}
    {thread : Thread crypto.Key} {next : Thread crypto.Key × List Event}
    (hact : Act crypto codec policy now i since shared thread shared' next) :
    (shared'.db = shared.db ∧ ∀ event ∈ next.2, event.isReadOnly) ∨
    (∃ start epoch hour caller commit, thread = .describing start epoch caller (.update hour) ∧
      descriptorTx hour shared.db = .ok commit ∧ shared'.db = commit.db ∧
      next = (.describing start epoch caller (.lookup hour),
        [.committed hour (decide (shared.db.latestEpoch < hour)) commit.deleted])) ∨
    (∃ start epoch hour caller key, thread = .describing start epoch caller (.persist hour key) ∧
      shared'.db = persistTx (keyName policy.revision epoch) (crypto.marshalPrivateKey key)
        shared.db ∧ ∀ event ∈ next.2, event.isReadOnly) ∨
    (∃ application checked, thread = .charging application checked ∧
      quotaTx (quotaKey application.bound.descriptor.epoch
        (crypto.sha256 (utf8 application.proof.authorAddress)))
        application.bound.blinded.length shared.db = .ok shared'.db ∧
      next = (.describing since application.bound.descriptor.epoch (.sign application checked)
        .enter, [])) ∨
    ∃ start descriptor message commit, thread = .spending start descriptor message ∧
      redeemTx now.hour (spentKey descriptor.epoch (ticketId crypto message)) shared.db =
        .ok commit ∧ shared'.db = commit.db ∧
      next = (.timing ⟨descriptor, message, now, start⟩,
        [.committed now.hour false commit.deleted, .spent ⟨descriptor, message, now, start⟩]) := by
  cases hact with
  | update start epoch hour caller commit htx =>
    exact Or.inr (Or.inl ⟨start, epoch, hour, caller, commit, rfl, htx, rfl, rfl⟩)
  | persisted start epoch hour caller key =>
    exact Or.inr (Or.inr (Or.inl ⟨start, epoch, hour, caller, key, rfl, rfl,
      readOnly_resumeOk _ _ _ _ _ _ _⟩))
  | charge application checked db htx =>
    exact Or.inr (Or.inr (Or.inr (Or.inl ⟨application, checked, rfl, htx, rfl⟩)))
  | spend start descriptor message commit htx =>
    exact Or.inr (Or.inr (Or.inr (Or.inr ⟨start, descriptor, message, commit, rfl, htx, rfl, rfl⟩)))
  | enterRefused | updateRefused | lookupRefused | describeFailed =>
    exact Or.inl ⟨rfl, (inert_resumeError _).readOnly⟩
  | drawFailed | crowdedOut | chargeRefused => exact Or.inl ⟨rfl, (inert_refuse _ _).readOnly⟩
  | compare => exact Or.inl ⟨rfl, (inert_compare _ _ _ _ _).readOnly⟩
  | asked => exact Or.inl ⟨rfl, (inert_weigh _ _).readOnly⟩
  | rechecked application sent result hcheck =>
    refine Or.inl ⟨rfl, ?_⟩
    simp only [Prod.map_snd, List.mem_cons, forall_eq_or_imp]
    exact ⟨rfl, (inert_judge application result).readOnly⟩
  | found => exact Or.inl ⟨rfl, readOnly_resumeOk _ _ _ _ _ _ _⟩
  | ask application pc pc' members hlookup =>
    exact Or.inl ⟨rfl, by cases pc' <;> simp [lookupEvents, Event.isReadOnly]⟩
  | _ => exact Or.inl ⟨rfl, by simp [Event.isReadOnly]⟩

end Writes

/-! ### The parts of a move -/

section Parts

variable {crypto : Crypto} {codec : Codec} {policy : Policy}

/-- A thread and the entries it logs satisfy their facts. -/
def NextOk (crypto : Crypto) (codec : Codec) (policy : Policy)
    (next : Thread crypto.Key × List Event) : Prop :=
  ThreadOk crypto codec policy next.1 ∧ ∀ event ∈ next.2, EventOk crypto codec event

theorem nextOk_refuse (status : ℕ) (code : ErrorCode) :
    NextOk crypto codec policy (refuse status code) := by
  simp [NextOk, refuse, ThreadOk, EventOk]

theorem nextOk_resumeError (caller : Caller) :
    NextOk crypto codec policy (resumeError caller) := by
  cases caller <;> simp [NextOk, resumeError, refuse, ThreadOk, EventOk]

theorem nextOk_routeRequest {since : ℕ} {route : Route} {input : Input} {descriptor : Descriptor}
    (h : DescriptorOk crypto codec policy descriptor) :
    NextOk crypto codec policy (routeRequest codec policy since route input descriptor) := by
  unfold routeRequest
  split
  · simp [NextOk, ThreadOk, EventOk]
  · rename_i bound hbound
    obtain ⟨hbound, hblinded⟩ := admitInput_ok hbound
    have hok : BoundOk crypto codec policy bound := ⟨by rw [hbound]; exact h, hblinded⟩
    split
    · exact ⟨hok, by simp⟩
    · exact ⟨hok, by simp⟩
    · exact nextOk_refuse _ _

theorem nextOk_resumeOk {now : Time} {since : ℕ} {epoch : ℤ} {key : crypto.Key} {caller : Caller}
    (hepoch : HourRange epoch) (hcaller : CallerOk crypto codec policy epoch caller) :
    NextOk crypto codec policy (resumeOk crypto codec policy now since
      (descriptorFor crypto codec policy epoch key) key caller) := by
  have hdescriptor :
      DescriptorOk crypto codec policy (descriptorFor crypto codec policy epoch key) :=
    ⟨hepoch, key, rfl⟩
  unfold resumeOk
  split
  · simp [NextOk, ThreadOk]
  · simp [NextOk, ThreadOk, EventOk]
  · exact nextOk_routeRequest hdescriptor
  · split
    · exact nextOk_refuse _ _
    · refine ⟨trivial, ?_⟩
      simp only [List.mem_singleton]
      rintro event rfl
      exact ⟨⟨policy, hcaller.1⟩, hcaller.2.1⟩
  · exact ⟨⟨hepoch, rfl⟩, by simp⟩

theorem nextOk_judge {application : Application} {result : MembershipResult}
    (h : BoundOk crypto codec policy application.bound) :
    NextOk crypto codec policy (judge application result) := by
  unfold judge
  split
  · exact nextOk_refuse _ _
  · exact nextOk_refuse _ _
  · split_ifs with hrecent
    · exact nextOk_refuse _ _
    · exact ⟨⟨h, not_lt.mp hrecent⟩, by simp⟩

theorem nextOk_weigh {application : Application} {result : MembershipResult}
    (h : BoundOk crypto codec policy application.bound) :
    NextOk crypto codec policy (weigh application result) := by
  unfold weigh
  split
  · split_ifs
    · exact ⟨h, by simp⟩
    · exact nextOk_judge h
  · exact nextOk_judge h

theorem nextOk_compare {now : Time} {application : Application} {found : Option Challenge}
    (h : BoundOk crypto codec policy application.bound) :
    NextOk crypto codec policy (compare crypto policy now application found) := by
  unfold compare
  split_ifs
  · exact ⟨h, by simp [EventOk]⟩
  · exact ⟨trivial, by simp [EventOk]⟩
  · exact nextOk_refuse _ _

theorem NextOk.cons_event {next : Thread crypto.Key × List Event} {event : Event}
    (h : NextOk crypto codec policy next) (hevent : EventOk crypto codec event) :
    NextOk crypto codec policy (Prod.map id (event :: ·) next) := by
  refine ⟨h.1, ?_⟩
  simp only [Prod.map_snd, List.mem_cons, forall_eq_or_imp]
  exact ⟨hevent, h.2⟩

/-! ### Keys belong to hours -/

theorem hourRange_of_mem_keys {db : Database} (hwf : db.WellFormed) {revision : Text}
    (hrevision : IsHash revision) {epoch : ℤ} (h : keyName revision epoch ∈ db.keys.keys) :
    HourRange epoch := by
  obtain ⟨revision', epoch', hrevision', hrange, hname⟩ := hwf.keys _ h
  have htail := (List.append_inj hname (by rw [hrevision.1, hrevision'.1])).2
  have hformat : formatInt epoch = formatInt epoch' := (List.cons.inj htail).2
  rw [formatInt_injective hformat]
  exact hrange

theorem hourRange_of_findKey {shared : Shared crypto.Key} (hshared : SharedOk crypto shared)
    {epoch hour : ℤ} {key : crypto.Key}
    (h : findKey crypto policy shared epoch hour = .ok (some key)) : HourRange epoch := by
  unfold findKey at h
  split at h
  · rename_i hkey
    exact hshared.keys _ _ hkey
  · split at h
    · split_ifs at h
      cases h
    · rename_i hraw
      refine hourRange_of_mem_keys hshared.db policy.revision_isHash ?_
      rw [Bucket.mem_keys_iff_get_isSome]
      by_contra hnone
      rw [Option.not_isSome_iff_eq_none] at hnone
      exact hraw (by rw [hnone]; rfl)

theorem epoch_eq_of_findKey_none {shared : Shared crypto.Key} {epoch hour : ℤ}
    (h : findKey crypto policy shared epoch hour = .ok none) : epoch = hour := by
  unfold findKey at h
  split at h
  · cases h
  · split at h
    · split_ifs at h with heq
      exact heq
    · split at h <;> cases h

theorem SharedOk.remember {shared : Shared crypto.Key} (hshared : SharedOk crypto shared)
    {epoch hour : ℤ} (hepoch : HourRange epoch) (key : crypto.Key) :
    ∀ e k, rememberKey shared.keys epoch hour key e = some k → HourRange e := by
  intro e k h
  unfold rememberKey at h
  split_ifs at h with hold heq
  · exact heq ▸ hepoch
  · exact hshared.keys e k h

end Parts

/-! ### Moves and steps -/

section Steps

variable {crypto : Crypto} {codec : Codec}

/-- A move keeps the facts about the shared state, and gives the thread and the entries theirs. -/
theorem act_sound {policy : Policy} {now : Time} {i since : ℕ} {shared shared' : Shared crypto.Key}
    {thread : Thread crypto.Key} {next : Thread crypto.Key × List Event} (hnow : now.Plausible)
    (hshared : SharedOk crypto shared) (hthread : ThreadOk crypto codec policy thread)
    (hact : Act crypto codec policy now i since shared thread shared' next) :
    SharedOk crypto shared' ∧ NextOk crypto codec policy next := by
  cases hact with
  | opening => exact ⟨hshared, ⟨trivial, trivial⟩, by simp⟩
  | parseRefused request refusal hparse => exact ⟨hshared, trivial, by simp [EventOk]⟩
  | parsed request input hparse => exact ⟨hshared, ⟨trivial, trivial⟩, by simp⟩
  | enterRefused start epoch caller hmu hwindow => exact ⟨hshared, nextOk_resumeError caller⟩
  | enter start epoch caller hmu hwindow =>
    have hhour := hnow.hour_lt
    exact ⟨⟨hshared.db, hshared.keys⟩, ⟨hthread.1, by omega, by omega, by omega⟩, by simp⟩
  | updateRefused start epoch hour caller error htx =>
    exact ⟨⟨hshared.db, hshared.keys⟩, nextOk_resumeError caller⟩
  | update start epoch hour caller commit htx =>
    obtain ⟨hcaller, hlt, hwindow⟩ := hthread
    have hle := (descriptorTx_ok hshared.db htx).1
    have hhour : HourRange hour := ⟨hshared.db.latest_nonneg.trans hle, hlt⟩
    exact ⟨⟨hshared.db.descriptorTx hlt htx, hshared.keys⟩, ⟨hcaller, hhour, hwindow⟩,
      by simp [EventOk]⟩
  | lookupRefused start epoch hour caller hkey =>
    exact ⟨⟨hshared.db, hshared.keys⟩, nextOk_resumeError caller⟩
  | generate start epoch hour caller key hkey =>
    obtain ⟨hcaller, hhour, -⟩ := hthread
    exact ⟨hshared, ⟨hcaller, hhour, epoch_eq_of_findKey_none hkey⟩, by simp⟩
  | found start epoch hour caller key hkey =>
    have hepoch := hourRange_of_findKey hshared hkey
    exact ⟨⟨hshared.db, hshared.remember hepoch key⟩,
      (nextOk_resumeOk hepoch hthread.1).cons_event trivial⟩
  | persisted start epoch hour caller key =>
    obtain ⟨hcaller, hhour, heq⟩ := hthread
    have hepoch : HourRange epoch := heq ▸ hhour
    exact ⟨⟨hshared.db.persistTx hepoch policy.revision_isHash _, hshared.remember hepoch key⟩,
      (nextOk_resumeOk hepoch hcaller).cons_event trivial⟩
  | describeFailed start epoch caller phase hphase =>
    exact ⟨⟨hshared.db, hshared.keys⟩, nextOk_resumeError caller⟩
  | drawFailed bound => exact ⟨hshared, nextOk_refuse _ _⟩
  | draw bound nonce hnonce => exact ⟨hshared, hthread, by simp⟩
  | lock bound nonce created order hmu horder =>
    exact ⟨⟨hshared.db, hshared.keys⟩, hthread, by simp⟩
  | sweep bound nonce created key rest => exact ⟨⟨hshared.db, hshared.keys⟩, hthread, by simp⟩
  | crowdedOut bound nonce created hfull =>
    exact ⟨⟨hshared.db, hshared.keys⟩, nextOk_refuse _ _⟩
  | insert bound nonce created hroom =>
    exact ⟨⟨hshared.db, hshared.keys⟩, trivial, by simp [EventOk]⟩
  | claim application hmu => exact ⟨⟨hshared.db, hshared.keys⟩, hthread, by simp⟩
  | compare application found => exact ⟨hshared, nextOk_compare hthread⟩
  | ask application pc pc' members hlookup =>
    refine ⟨⟨hshared.db, hshared.keys⟩, hthread, ?_⟩
    cases pc' <;> simp [lookupEvents, EventOk]
  | asked application pc members result hlookup =>
    exact ⟨⟨hshared.db, hshared.keys⟩, nextOk_weigh hthread⟩
  | recheck application sent sent' hcheck => exact ⟨hshared, hthread, by simp⟩
  | rechecked application sent result hcheck =>
    exact ⟨hshared, (nextOk_judge hthread).cons_event trivial⟩
  | charge application checked db htx =>
    obtain ⟨hbound, hrecent⟩ := hthread
    exact ⟨⟨hshared.db.quotaTx hbound.1.1 hbound.2.1 hbound.2.2 htx, hshared.keys⟩,
      ⟨⟨hbound, hrecent, rfl⟩, trivial⟩, by simp⟩
  | chargeRefused application checked => exact ⟨hshared, nextOk_refuse _ _⟩
  | ticketRefused raw hparse => exact ⟨hshared, trivial, by simp [EventOk]⟩
  | ticketParsed raw ticket hparse => exact ⟨hshared, ⟨trivial, trivial⟩, by simp⟩
  | verifyRefused start ticket descriptor key hverify => exact ⟨hshared, trivial, by simp [EventOk]⟩
  | verified start ticket descriptor key message hverify =>
    exact ⟨hshared, ⟨⟨hthread.1, key, hthread.2⟩, (verifyTicket_some hverify).2⟩, by simp⟩
  | spend start descriptor message commit htx =>
    obtain ⟨-, -, rfl⟩ := redeemTx_ok hshared.db htx
    refine ⟨⟨hshared.db.redeemed hthread.1.1 _, hshared.keys⟩, hthread, ?_⟩
    simp only [List.mem_cons, List.not_mem_nil, or_false, forall_eq_or_imp, forall_eq]
    exact ⟨trivial, policy, hthread⟩
  | spendRefused start descriptor message => exact ⟨hshared, trivial, by simp [EventOk]⟩
  | readFirst marker => exact ⟨hshared, hthread, by simp⟩
  | readSecond marker first =>
    refine ⟨hshared, trivial, ?_⟩
    simp only [List.mem_singleton, forall_eq]
    exact ⟨policy, hthread⟩
  | collect grant => exact ⟨hshared, trivial, by simp⟩

theorem sound_of_initial {w : World crypto} (h : Initial w) : Sound crypto codec w where
  clock := h.clock
  shared := by
    rw [h.shared]
    exact ⟨wellFormed_fresh, by simp [Shared.opened]⟩
  threads := by simp [h.threads, ThreadOk]
  log := by simp [h.log]

theorem Step.sound {w w' : World crypto} (hstep : Step codec w w') (h : Sound crypto codec w) :
    Sound crypto codec w' := by
  cases hstep with
  | tick reading hmono hsane => exact ⟨hsane, h.shared, h.threads, h.log⟩
  | restart policy =>
    exact ⟨h.clock, ⟨h.shared.db, by simp [World.restarted, Shared.opened]⟩,
      by simp [World.restarted, ThreadOk], h.log⟩
  | request request hserving hslot =>
    refine ⟨h.clock, h.shared, ?_, h.log⟩
    simp only [World.called, List.forall_mem_append, List.forall_mem_singleton]
    exact ⟨h.threads, trivial⟩
  | crowded hserving hslot =>
    refine ⟨h.clock, h.shared, h.threads, ?_⟩
    simp only [List.forall_mem_append, List.forall_mem_singleton]
    exact ⟨h.log, trivial⟩
  | redeem raw hserving =>
    refine ⟨h.clock, h.shared, ?_, h.log⟩
    simp only [World.called, List.forall_mem_append, List.forall_mem_singleton]
    exact ⟨h.threads, trivial⟩
  | act i thread shared next hthread hact =>
    obtain ⟨hshared, hnext, hevents⟩ := act_sound h.clock h.shared
      (h.threads thread (List.mem_of_getElem? hthread)) hact
    refine ⟨h.clock, hshared, forall_mem_set h.threads hnext, ?_⟩
    simp only [World.moved, List.forall_mem_append]
    exact ⟨h.log, hevents⟩

theorem sound_of_run {guard : World crypto → World crypto → Prop} {w w' : World crypto}
    (h : Initial w) (hrun : Run (Step codec) guard w w') : Sound crypto codec w' :=
  hrun.invariant (Sound crypto codec) (fun _ _ hs hstep _ ↦ hstep.sound hs) (sound_of_initial h)

end Steps

end QortalRelay.Tickets
