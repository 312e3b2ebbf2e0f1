import QortalRelay.Tickets.Calls
import QortalRelay.Tickets.Forward

/-!
# Single use of tickets

A ticket is spent by a transaction that leaves a marker. Two laws bound what a ticket can give.
Every success that redeem returns comes from its own transaction (`flow_of_run`), so a ticket is
redeemed no more often than it is spent. And under a forward wall clock at most one transaction
spends a given ticket while its key lives (`spentLaw_of_run`): the marker stays until both pruning
loops have seen the hour in which the key dies.

The second law leaves out a transaction that reads the clock at or after that hour. Such a
transaction deletes the ticket's own marker before it looks for it, so a ticket checked just before
the end of its life and spent just after it is accepted a second time.
-/

set_option autoImplicit false
set_option relaxedAutoImplicit false

namespace QortalRelay.Tickets

open Foundation.Encoding Foundation.Store Foundation.Trace Access

/-! ### Counting -/

section Counting

variable (select : Marker → Bool)

/-- The spent tickets of a kind, counted in the log. -/
def spentCount : Event → ℕ
  | .spent marker => if select marker then 1 else 0
  | _ => 0

/-- The successes of redeem for tickets of a kind, counted in the log. -/
def redeemedCount : Event → ℕ
  | .redeemed marker _ => if select marker then 1 else 0
  | _ => 0

/-- The calls that have spent a ticket of a kind and not yet returned. -/
def pendingCount {Key : Type} : Thread Key → ℕ
  | .timing marker | .lasting marker _ => if select marker then 1 else 0
  | _ => 0

variable {select}

theorem spentCount_of_isReadOnly {event : Event} (h : event.isReadOnly) :
    spentCount select event = 0 := by
  cases event <;> simp_all [spentCount, Event.isReadOnly]

theorem weight_spentCount_of_isReadOnly {events : List Event}
    (h : ∀ event ∈ events, event.isReadOnly) : weight (spentCount select) events = 0 :=
  weight_eq_zero fun event hevent ↦ spentCount_of_isReadOnly (h event hevent)

end Counting

/-! ### A success comes from a transaction -/

section Flow

variable {crypto : Crypto} {codec : Codec} {policy : Policy} {select : Marker → Bool}

theorem Inert.flow {Key : Type} {next : Thread Key × List Event} (h : Inert next) :
    pendingCount select next.1 = 0 ∧ weight (redeemedCount select) next.2 = 0 := by
  refine ⟨?_, weight_eq_zero fun event hevent ↦ ?_⟩
  · have hthread := h.1
    unfold Thread.isInert at hthread
    split at hthread <;> simp_all [pendingCount]
  · have hinert := h.2 event hevent
    unfold Event.isInert at hinert
    split at hinert <;> simp_all [redeemedCount]

theorem flow_resumeOk (now : Time) (start : ℕ) (descriptor : Descriptor) (key : crypto.Key)
    (caller : Caller) :
    pendingCount select (resumeOk crypto codec policy now start descriptor key caller).1 = 0 ∧
      weight (redeemedCount select)
        (resumeOk crypto codec policy now start descriptor key caller).2 = 0 := by
  rcases resumeOk_cases crypto codec policy now start descriptor key caller with
    h | ⟨_, _, _, -, -, h⟩ | ⟨_, -, h⟩
  · exact h.flow
  · simp [h, pendingCount, redeemedCount]
  · simp [h, pendingCount]

/-- A move turns a spent ticket into a success, and makes no success of anything else. -/
theorem act_flow (select : Marker → Bool) {now : Time} {i since : ℕ}
    {shared shared' : Shared crypto.Key}
    {thread : Thread crypto.Key} {next : Thread crypto.Key × List Event}
    (hact : Act crypto codec policy now i since shared thread shared' next) :
    pendingCount select next.1 + weight (redeemedCount select) next.2 ≤
      pendingCount select thread + weight (spentCount select) next.2 := by
  cases hact with
  | enterRefused | updateRefused | lookupRefused | describeFailed =>
    simp [(inert_resumeError _).flow]
  | drawFailed | crowdedOut | chargeRefused => simp [(inert_refuse _ _).flow]
  | compare => simp [(inert_compare _ _ _ _ _).flow]
  | asked => simp [(inert_weigh _ _).flow]
  | rechecked application sent result hcheck =>
    simp [(inert_judge application result).flow, redeemedCount]
  | found | persisted => simp [flow_resumeOk, redeemedCount]
  | ask application pc pc' members hlookup =>
    cases pc' <;> simp [lookupEvents, pendingCount, redeemedCount]
  | spend | readFirst | readSecond => simp [pendingCount, spentCount, redeemedCount]
  | _ => simp [pendingCount, redeemedCount]

/-- The successes and the calls that will succeed are covered by the spent tickets. -/
def Flow (select : Marker → Bool) (w : World crypto) : Prop :=
  weight (pendingCount select) w.threads + weight (redeemedCount select) w.log ≤
    weight (spentCount select) w.log

theorem Step.flow {w w' : World crypto} (hstep : Step codec w w') (h : Flow select w) :
    Flow select w' := by
  cases hstep with
  | tick reading hmono hsane => exact h
  | restart policy =>
    simp only [Flow, World.restarted] at h ⊢
    simp only [weight_cons, weight_nil, pendingCount]
    omega
  | request request hserving hslot => simpa [Flow, World.called, pendingCount] using h
  | crowded hserving hslot => simpa [Flow, redeemedCount, spentCount] using h
  | redeem raw hserving => simpa [Flow, World.called, pendingCount] using h
  | act i thread shared next hthread hact =>
    have hmove := act_flow select hact
    have hpool := weight_set (pendingCount select) hthread next.1
    simp only [Flow, World.moved, weight_append] at h ⊢
    omega

theorem flow_of_run {guard : World crypto → World crypto → Prop} {w w' : World crypto}
    (h : Initial w) (hrun : Run (Step codec) guard w w') (select : Marker → Bool) :
    Flow select w' := by
  refine hrun.invariant (Flow select) (fun _ _ hs hstep _ ↦ hstep.flow hs) ?_
  simp [Flow, h.threads, h.log, pendingCount]

end Flow

/-! ### One transaction per ticket while its key lives -/

section Spent

variable {crypto : Crypto} {codec : Codec}

/-- The tickets of an hour with an identifier, spent while the key of that hour lives. -/
def spentAlive (crypto : Crypto) (epoch : ℤ) (id : Text) (marker : Marker) : Bool :=
  decide (marker.descriptor.epoch = epoch) && decide (ticketId crypto marker.message = id) &&
    decide (marker.readAt.hour < epoch + 12)

/-- At most one transaction has spent the ticket while its key lived, and as long as the key lives
the marker of that transaction is in the database. -/
structure SpentLaw (epoch : ℤ) (id : Text) (w : World crypto) : Prop where
  once : weight (spentCount (spentAlive crypto epoch id)) w.log ≤ 1
  marked : weight (spentCount (spentAlive crypto epoch id)) w.log = 1 →
    (w.shared.db.spent.get (spentKey epoch id)).isSome ∨ epoch + 12 ≤ w.clock.hour

variable {epoch : ℤ} {id : Text}

/-- A marker that is pruned on a reading of the past belongs to a key that is dead. -/
theorem isSome_prune_or_dead (hepoch : HourRange epoch) {b : Bucket Text Bytes}
    {hour clockHour : ℤ} (hhour : hour ≤ clockHour)
    (h : (b.get (spentKey epoch id)).isSome ∨ epoch + 12 ≤ clockHour) :
    ((prune recordEpoch (hour - 12) b).get (spentKey epoch id)).isSome ∨
      epoch + 12 ≤ clockHour := by
  rw [spentKey, get_prune_epochKey hepoch]
  split_ifs with hcut
  · exact Or.inr (by omega)
  · exact h

/-- The law is kept when no ticket is spent and the marker stays as long as the key lives. -/
theorem SpentLaw.keep {w w' : World crypto} (h : SpentLaw epoch id w)
    (hcount : weight (spentCount (spentAlive crypto epoch id)) w'.log =
      weight (spentCount (spentAlive crypto epoch id)) w.log)
    (hmarked : (w.shared.db.spent.get (spentKey epoch id)).isSome ∨ epoch + 12 ≤ w.clock.hour →
      (w'.shared.db.spent.get (spentKey epoch id)).isSome ∨ epoch + 12 ≤ w'.clock.hour) :
    SpentLaw epoch id w' :=
  ⟨hcount ▸ h.once, fun hone ↦ hmarked (h.marked (hcount ▸ hone))⟩

/-- The transaction that spends a ticket keeps the law of every ticket. -/
theorem SpentLaw.spend {w : World crypto} (h : SpentLaw epoch id w) (hepoch : HourRange epoch)
    (hwf : w.shared.db.WellFormed) {descriptor : Descriptor} (hrange : HourRange descriptor.epoch)
    {message : Bytes} {commit : Commit} (i start : ℕ) (shared : Shared crypto.Key)
    (hdb : shared.db = commit.db)
    (htx : redeemTx w.clock.hour (spentKey descriptor.epoch (ticketId crypto message))
      w.shared.db = .ok commit) :
    SpentLaw epoch id (w.moved i shared (.timing ⟨descriptor, message, w.clock, start⟩,
      [.committed w.clock.hour false commit.deleted,
        .spent ⟨descriptor, message, w.clock, start⟩])) := by
  obtain ⟨hnone, -, rfl⟩ := redeemTx_ok hwf htx
  have hbucket : shared.db.spent = (prune recordEpoch (w.clock.hour - 12) w.shared.db.spent).put
      (spentKey descriptor.epoch (ticketId crypto message)) [1] := by rw [hdb]; rfl
  by_cases hsame : descriptor.epoch = epoch ∧ ticketId crypto message = id
  · obtain ⟨rfl, rfl⟩ := hsame
    rcases lt_or_ge w.clock.hour (descriptor.epoch + 12) with halive | hdead
    · -- The marker is absent, so the ticket has not been spent while its key lives.
      rw [spentKey, get_prune_epochKey hepoch, if_neg (by omega)] at hnone
      have hzero : weight (spentCount
          (spentAlive crypto descriptor.epoch (ticketId crypto message))) w.log = 0 := by
        by_contra hne
        have hone := h.once
        rcases h.marked (by omega) with hsome | hdead
        · rw [spentKey, hnone] at hsome
          simp at hsome
        · omega
      constructor
      · simp [World.moved, hzero, spentCount, spentAlive, halive]
      · intro _
        left
        simp [World.moved, hbucket]
    · refine h.keep ?_ fun _ ↦ Or.inr hdead
      simp [World.moved, spentCount, spentAlive, not_lt.mpr hdead]
  · refine h.keep ?_ fun hmarked ↦ ?_
    · have hselect : spentAlive crypto epoch id ⟨descriptor, message, w.clock, start⟩ = false := by
        simp only [spentAlive, Bool.and_eq_false_iff, decide_eq_false_iff_not]
        tauto
      simp [World.moved, spentCount, hselect]
    · have hne : spentKey epoch id ≠ spentKey descriptor.epoch (ticketId crypto message) := by
        intro heq
        obtain ⟨h1, h2⟩ := epochKey_injective hepoch hrange heq
        exact hsame ⟨h1.symm, h2.symm⟩
      change (shared.db.spent.get (spentKey epoch id)).isSome ∨ _
      rw [hbucket, Bucket.get_put_of_ne _ hne]
      exact isSome_prune_or_dead hepoch le_rfl hmarked

theorem Step.spentLaw {w w' : World crypto} (hstep : Step codec w w') (hforward : WallForward w w')
    (hsound : Sound crypto codec w) (htimely : AllTimely w) (hepoch : HourRange epoch)
    (h : SpentLaw epoch id w) : SpentLaw epoch id w' := by
  cases hstep with
  | tick reading hmono hsane =>
    exact h.keep rfl fun hmarked ↦ hmarked.imp_right fun hdead ↦
      hdead.trans (Time.hour_mono hforward)
  | restart policy => exact h.keep rfl fun hmarked ↦ hmarked
  | request request hserving hslot => exact h.keep rfl fun hmarked ↦ hmarked
  | crowded hserving hslot => exact h.keep (by simp [spentCount]) fun hmarked ↦ hmarked
  | redeem raw hserving => exact h.keep rfl fun hmarked ↦ hmarked
  | act i thread shared next hthread hact =>
    have hmem := List.mem_of_getElem? hthread
    have hok := hsound.threads thread hmem
    have hpast := htimely.threads thread hmem
    rcases act_db_cases hact with ⟨hdb, hevents⟩ |
      ⟨start, epoch', hour, caller, commit, rfl, htx, hdb, rfl⟩ |
      ⟨start, epoch', hour, caller, key, rfl, hdb, hevents⟩ |
      ⟨application, checked, rfl, htx, rfl⟩ |
      ⟨start, descriptor, message, commit, rfl, htx, hdb, rfl⟩
    · refine h.keep ?_ fun hmarked ↦ ?_
      · simp [World.moved, weight_spentCount_of_isReadOnly hevents]
      · simpa [World.moved, hdb] using hmarked
    · refine h.keep (by simp [World.moved, spentCount]) fun hmarked ↦ ?_
      change (shared.db.spent.get (spentKey epoch id)).isSome ∨ _
      obtain ⟨-, ⟨-, rfl⟩ | ⟨-, hadvance, -⟩⟩ := descriptorTx_ok hsound.shared.db htx
      · rw [hdb]
        exact hmarked
      · rw [hdb, hadvance]
        exact isSome_prune_or_dead hepoch hpast hmarked
    · refine h.keep ?_ fun hmarked ↦ ?_
      · simp [World.moved, weight_spentCount_of_isReadOnly hevents]
      · change (shared.db.spent.get (spentKey epoch id)).isSome ∨ _
        rw [hdb]
        exact hmarked
    · obtain ⟨-, hdb⟩ := quotaTx_ok htx
      refine h.keep (by simp [World.moved]) fun hmarked ↦ ?_
      change (shared.db.spent.get (spentKey epoch id)).isSome ∨ _
      rw [hdb]
      exact hmarked
    · exact h.spend hepoch hsound.shared.db hok.1.1 i start shared hdb htx

theorem spentLaw_of_run {guard : World crypto → World crypto → Prop}
    (hguard : ∀ w w', guard w w' → WallForward w w') {w w' : World crypto} (h : Initial w)
    (hrun : Run (Step codec) guard w w') (hepoch : HourRange epoch) (id : Text) :
    SpentLaw epoch id w' := by
  have hstart : (Sound crypto codec w ∧ AllTimely w) ∧ SpentLaw epoch id w :=
    ⟨timely_of_run hguard h (.refl w), by simp [h.log], by simp [h.log]⟩
  refine (hrun.invariant (fun s ↦ (Sound crypto codec s ∧ AllTimely s) ∧ SpentLaw epoch id s)
    (fun s t hs hstep hst ↦ ?_) hstart).2
  have hforward := hguard s t hst
  exact ⟨⟨hstep.sound hs.1.1, hstep.timely hforward hs.1.1 hs.1.2⟩,
    hstep.spentLaw hforward hs.1.1 hs.1.2 hepoch hs.2⟩

/-! ### Redeemed at most once -/

/-- Every transaction that spends a ticket in this step reads an hour in which the key of the
ticket lives. -/
def SpendsInTime (w w' : World crypto) : Prop :=
  ∀ (i since : ℕ) (descriptor : Descriptor) (message : Bytes) (readAt : Time),
    w.threads[i]? = some (.spending since descriptor message) →
    w'.threads[i]? = some (.timing ⟨descriptor, message, readAt, since⟩) →
    w.clock.hour < descriptor.epoch + 12

/-- A ticket spent while its key lives. -/
def SpentInTime : Event → Prop
  | .spent marker => marker.readAt.hour < marker.descriptor.epoch + 12
  | _ => True

theorem spentInTime_of_isReadOnly {event : Event} (h : event.isReadOnly) : SpentInTime event := by
  cases event <;> simp_all [SpentInTime, Event.isReadOnly]

theorem Step.spentInTime {w w' : World crypto} (hstep : Step codec w w')
    (hguard : SpendsInTime w w') (h : ∀ event ∈ w.log, SpentInTime event) :
    ∀ event ∈ w'.log, SpentInTime event := by
  cases hstep with
  | crowded hserving hslot =>
    simp only [List.forall_mem_append, List.forall_mem_singleton]
    exact ⟨h, trivial⟩
  | act i thread shared next hthread hact =>
    simp only [World.moved, List.forall_mem_append]
    refine ⟨h, ?_⟩
    rcases act_db_cases hact with ⟨-, hevents⟩ | ⟨_, _, _, _, _, -, -, -, rfl⟩ |
      ⟨_, _, _, _, _, -, -, hevents⟩ | ⟨_, _, -, -, rfl⟩ |
      ⟨start, descriptor, message, commit, rfl, -, -, rfl⟩
    · exact fun event hevent ↦ spentInTime_of_isReadOnly (hevents event hevent)
    · simp [SpentInTime]
    · exact fun event hevent ↦ spentInTime_of_isReadOnly (hevents event hevent)
    · simp
    · have hlength := (List.getElem?_eq_some_iff.mp hthread).1
      have hmoved := hguard i start descriptor message w.clock hthread
        (by simp [World.moved, hlength])
      simpa [SpentInTime] using hmoved
  | _ => exact h

/-- The event is about a ticket that was spent. -/
def Event.isOf (marker : Marker) (event : Event) : Prop :=
  event = .spent marker ∨ ∃ grantedUntil, event = .redeemed marker grantedUntil

theorem Event.isOf.hashes {event : Event} {marker : Marker} (h : event.isOf marker) {bytes : Bytes}
    (hbytes : (Event.spent marker).Hashes crypto codec bytes) :
    event.Hashes crypto codec bytes := by
  rcases h with rfl | ⟨grantedUntil, rfl⟩ <;> exact hbytes

theorem Event.isOf.messageOk {event : Event} {marker : Marker} (h : event.isOf marker)
    (hok : EventOk crypto codec event) :
    ∃ policy, MessageOk crypto codec policy marker.descriptor marker.message := by
  rcases h with rfl | ⟨grantedUntil, rfl⟩ <;> exact hok

/-- Assumes: a hash without collisions in the log. Two spent tickets with one message are of one
hour. -/
theorem epoch_eq_of_message_eq {log : List Event} (hsha : CollisionFree crypto codec log)
    (hlog : ∀ event ∈ log, EventOk crypto codec event) {event1 event2 : Event}
    {first second : Marker} (hevent1 : event1 ∈ log) (hevent2 : event2 ∈ log)
    (hfirst : event1.isOf first) (hsecond : event2.isOf second)
    (h : first.message = second.message) : first.descriptor.epoch = second.descriptor.epoch := by
  obtain ⟨policy1, ⟨hrange1, key1, hkey1⟩, hmessage1⟩ := hfirst.messageOk (hlog _ hevent1)
  obtain ⟨policy2, ⟨hrange2, key2, hkey2⟩, hmessage2⟩ := hsecond.messageOk (hlog _ hevent2)
  have hsource1 := hfirst.hashes (Or.inr ⟨policy1, key1, hrange1.1, hkey1, rfl⟩)
  have hsource2 := hsecond.hashes (Or.inr ⟨policy2, key2, hrange2.1, hkey2, rfl⟩)
  rw [hkey1] at hmessage1
  rw [hkey2, ← h] at hmessage2
  exact congrArg KeySource.epoch (keySource_eq_of_isTicketMessage hrange1.1 hrange2.1
    (hsha ⟨_, hevent1, hsource1⟩ ⟨_, hevent2, hsource2⟩) hmessage1 hmessage2)

/-- Assumes: a hash without collisions in the log, whose entries are sound. The spent tickets with a
message are covered by those of one hour and one identifier. -/
theorem spentCount_message_le {log : List Event} (hsha : CollisionFree crypto codec log)
    (hlog : ∀ event ∈ log, EventOk crypto codec event)
    (htime : ∀ event ∈ log, SpentInTime event) (message : Bytes) :
    weight (spentCount fun marker ↦ decide (marker.message = message)) log = 0 ∨
      ∃ epoch, HourRange epoch ∧
        weight (spentCount fun marker ↦ decide (marker.message = message)) log ≤
          weight (spentCount (spentAlive crypto epoch (ticketId crypto message))) log := by
  by_cases hany : ∃ marker, Event.spent marker ∈ log ∧ marker.message = message
  · obtain ⟨marker, hmarker, rfl⟩ := hany
    have hok := hlog _ hmarker
    obtain ⟨policy, ⟨hrange, -⟩, -⟩ := hok
    refine Or.inr ⟨marker.descriptor.epoch, hrange, weight_mono fun event hevent ↦ ?_⟩
    cases event with
    | spent other =>
      by_cases hother : other.message = marker.message
      · have hepoch := epoch_eq_of_message_eq hsha hlog hevent hmarker (Or.inl rfl) (Or.inl rfl)
          hother
        have halive : other.readAt.hour < other.descriptor.epoch + 12 := htime _ hevent
        rw [hepoch] at halive
        simp [spentCount, spentAlive, hother, hepoch, halive]
      · simp [spentCount, hother]
    | _ => simp [spentCount]
  · refine Or.inl (weight_eq_zero fun event hevent ↦ ?_)
    cases event with
    | spent other =>
      have hother : other.message ≠ message := fun h ↦ hany ⟨other, hevent, h⟩
      simp [spentCount, hother]
    | _ => rfl

/-- At an hour in which every key lives, every step spends in time. -/
theorem spendsInTime_of_hour_lt {w w' : World crypto} (hsound : Sound crypto codec w)
    (hhour : w.clock.hour < 12) : SpendsInTime w w' := by
  intro i since descriptor message readAt hthread _
  have hok := hsound.threads _ (List.mem_of_getElem? hthread)
  have hnonneg : 0 ≤ descriptor.epoch := hok.1.1.1
  omega

/-- Single use. Assumes: a hash without collisions in the run, a wall clock that never goes
backwards, and that every transaction which spends a ticket reads an hour in which the key of that
ticket lives. In every state that is reached, redeem has returned success at most once for each
message. -/
theorem redeem_at_most_once {w w' : World crypto} (hsha : CollisionFree crypto codec w'.log)
    (hinitial : Initial w)
    (hrun : Run (Step codec) (fun s t ↦ WallForward s t ∧ SpendsInTime s t) w w')
    (message : Bytes) :
    weight (redeemedCount fun marker ↦ decide (marker.message = message)) w'.log ≤ 1 := by
  have hflow := flow_of_run hinitial hrun fun marker ↦ decide (marker.message = message)
  have hsound := sound_of_run hinitial hrun
  have htime : ∀ event ∈ w'.log, SpentInTime event := by
    refine hrun.invariant (fun s ↦ ∀ event ∈ s.log, SpentInTime event)
      (fun s t hs hstep hst ↦ hstep.spentInTime hst.2 hs) ?_
    simp [hinitial.log]
  unfold Flow at hflow
  rcases spentCount_message_le hsha hsound.log htime message with hzero | ⟨epoch, hrange, hle⟩
  · omega
  · have hlaw := spentLaw_of_run (fun _ _ h ↦ h.1) hinitial hrun hrange (ticketId crypto message)
    have honce := hlaw.once
    omega

/-- A run of the first twelve hours in which the clock stands still. -/
theorem inTime_run {w w' : World crypto} (h : Initial w) (hhour : w.clock.hour < 12)
    (hrun : Run (Step codec) StandStill w w') :
    Run (Step codec) (fun s t ↦ WallForward s t ∧ SpendsInTime s t) w w' := by
  refine (hrun.reguard (fun s ↦ Sound crypto codec s ∧ s.clock = w.clock)
    (fun s t hs hstep (hstill : t.clock = s.clock) ↦ ?_) ⟨sound_of_initial h, rfl⟩).2
  refine ⟨⟨hstep.sound hs.1, hstill.trans hs.2⟩, ?_, spendsInTime_of_hour_lt hs.1 (hs.2 ▸ hhour)⟩
  rw [WallForward, hstill]

/-- A ticket redeemed in the hour of its key, in a run that meets the conditions. -/
theorem redeem_at_most_once_sample :
    ∃ w', Run (Step sampleCodec) (fun s t ↦ WallForward s t ∧ SpendsInTime s t) sampleWorld w' ∧
      weight (redeemedCount fun marker ↦ decide (marker.message = sampleMessage)) w'.log = 1 ∧
      weight (redeemedCount fun marker ↦ decide (marker.message = sampleMessage)) w'.log ≤ 1 := by
  obtain ⟨w, deleted, hrun, -, -, -, -, hlog⟩ := redeem_sample
  have htimely := inTime_run initial_sampleWorld (by decide) hrun
  refine ⟨w, htimely, ?_, redeem_at_most_once sampleCrypto_sha256_injective.injOn
    initial_sampleWorld htimely sampleMessage⟩
  simp [hlog, redeemedCount, sampleMarker]

/-- A ticket accepted twice: its second transaction reads the hour in which the key ends and
deletes the marker of the first. -/
theorem redeem_twice_sample :
    ∃ w', Initial sampleWorld ∧ Function.Injective sampleCrypto.sha256 ∧
      Run (Step sampleCodec) WallForward sampleWorld w' ∧
      2 ≤ weight (redeemedCount fun marker ↦ decide (marker.message = sampleMessage)) w'.log := by
  obtain ⟨w, before, deleted, second, grantedUntil, hrun, -, -, -, hsecond, -, hlog⟩ :=
    respend_sample
  refine ⟨w, initial_sampleWorld, sampleCrypto_sha256_injective, hrun, ?_⟩
  rw [hlog, weight_append]
  simp [redeemedCount, sampleMarker, hsecond, weight_cons]

end Spent

/-! ### A message belongs to one key -/

section KeyIds

/-- A message that a redeem call accepts: with a ticket that holds it, under the policy and the key
of an hour. -/
structure AcceptedMessage (crypto : Crypto) (codec : Codec) (message : Bytes) where
  policy : Policy
  epoch : ℤ
  epoch_nonneg : 0 ≤ epoch
  key : crypto.Key
  ticket : Ticket
  now : Time
  accepted : verifyTicket crypto codec ticket (descriptorFor crypto codec policy epoch key) key
    now = some message

def AcceptedMessage.source {crypto : Crypto} {codec : Codec} {message : Bytes}
    (accepted : AcceptedMessage crypto codec message) : KeySource :=
  accepted.policy.keySource crypto accepted.key accepted.epoch_nonneg

/-- The bytes that are hashed for a key identifier determine the policy, the pin, the hour and the
key, although nothing separates the hour from the key; so a message that is accepted twice was
accepted under one and the same of them, unless the hash has a collision. -/
theorem keyIds_unambiguous :
    Function.Injective KeySource.hashed ∧
      ∀ (crypto : Crypto) (codec : Codec) (message : Bytes)
        (first second : AcceptedMessage crypto codec message),
        (crypto.sha256 first.source.hashed = crypto.sha256 second.source.hashed →
          first.source.hashed = second.source.hashed) →
        first.source = second.source := by
  refine ⟨KeySource.hashed_injective, fun crypto codec message first second hsha ↦ ?_⟩
  exact keySource_eq_of_isTicketMessage first.epoch_nonneg second.epoch_nonneg hsha
    (verifyTicket_some first.accepted).2 (verifyTicket_some second.accepted).2

/-- The sample ticket, redeemed at a time in the hour of its key. -/
def sampleAccepted (now : Time) (hnow : now.unixMilli < 43200000) :
    AcceptedMessage sampleCrypto sampleCodec sampleMessage :=
  ⟨samplePolicy, 0, le_rfl, (), sampleTicket, now, verifyTicket_sample hnow⟩

theorem keyIds_unambiguous_sample :
    (sampleAccepted ⟨0, 0⟩ (by decide)).source = (sampleAccepted ⟨1, 1⟩ (by decide)).source :=
  keyIds_unambiguous.2 sampleCrypto sampleCodec sampleMessage _ _ fun h ↦ h

end KeyIds

end QortalRelay.Tickets
