import QortalRelay.Tickets.Invariants

/-!
# Runs under a forward wall clock

When the wall clock never goes backwards, every reading a thread has kept lies in the past, and a
ticket of an hour is only verified and spent once that hour has begun (`Timely`). From this follows
the arithmetic of a grant: the deadline is less than a millisecond after the end of the life of the
key (`deadline_wall_lt`), and a ticket that is spent at or after that end gets a deadline that has
passed already (`deadline_mono_le`).
-/

set_option autoImplicit false
set_option relaxedAutoImplicit false

namespace QortalRelay.Tickets

open Foundation.Encoding Foundation.Store Foundation.Trace Access

/-! ### Deadlines -/

section Deadlines

variable {descriptor : Descriptor} {first second : Time}

/-- The end of the life of the key of an hour, in nanoseconds. -/
def lifeEnd (epoch : ℤ) : ℤ := Time.hourStart (epoch + 12)

/-- Assumes: the descriptor's expiry is that of its hour, and the second reading is not before that
hour. The duration fits 64 bits. -/
theorem deadline_eq (hexpires : descriptor.expiresAt = (descriptor.epoch * 3600 + 43200) * 1000)
    (hepoch : 0 ≤ descriptor.epoch) (hhour : descriptor.epoch ≤ second.hour)
    (hsecond : second.Plausible) :
    deadline descriptor first second =
      first.add ((descriptor.expiresAt - second.unixMilli) * Time.millisecond) := by
  have hunix : second.unix = second.wall / 10 ^ 9 := rfl
  have hmilli : second.unixMilli = second.wall / 10 ^ 6 := rfl
  obtain ⟨hlow, hhigh⟩ := hsecond
  have hbegin : descriptor.epoch * 3600 - 3600 ≤ second.unix := by
    rw [Time.hour_eq] at hhour
    split_ifs at hhour <;> omega
  have hms : Time.millisecond = 10 ^ 6 := rfl
  unfold deadline
  rw [wrap64_eq_self (n := descriptor.expiresAt - second.unixMilli) (by omega) (by omega),
    wrap64_eq_self (by rw [hms]; omega) (by rw [hms]; omega)]

theorem deadline_wall_lt
    (hexpires : descriptor.expiresAt = (descriptor.epoch * 3600 + 43200) * 1000)
    (hepoch : 0 ≤ descriptor.epoch) (hhour : descriptor.epoch ≤ second.hour)
    (hsecond : second.Plausible) (horder : first.NotAfter second) :
    (deadline descriptor first second).wall < lifeEnd descriptor.epoch + Time.millisecond := by
  rw [deadline_eq hexpires hepoch hhour hsecond]
  have hwall := horder.1
  simp only [Time.add, Time.unixMilli, lifeEnd, Time.hourStart, Time.millisecond, Time.second]
  omega

/-- Assumes: the second reading is not before the end of the life of the key. The deadline is not
after the first reading. -/
theorem deadline_mono_le
    (hexpires : descriptor.expiresAt = (descriptor.epoch * 3600 + 43200) * 1000)
    (hepoch : 0 ≤ descriptor.epoch) (hhour : descriptor.epoch + 12 ≤ second.hour)
    (hsecond : second.Plausible) : (deadline descriptor first second).mono ≤ first.mono := by
  have hend := (Time.le_hour_iff (by omega) second).mp hhour
  rw [deadline_eq hexpires hepoch (by omega) hsecond]
  simp only [Time.add, Time.unixMilli, Time.hourStart, Time.millisecond, Time.second] at hend ⊢
  omega

end Deadlines

/-! ### Readings lie in the past -/

/-- A grant ends in time; if its ticket was spent at the end of the life of the key or later, it has
ended already. -/
structure GrantTimely (clock : Time) (marker : Marker) (grantedUntil : Time) : Prop where
  bounded : grantedUntil.wall < lifeEnd marker.descriptor.epoch + Time.millisecond
  ended : marker.descriptor.epoch + 12 ≤ marker.readAt.hour → grantedUntil.mono ≤ clock.mono

/-- The readings a thread has kept are not after the clock. -/
def Timely {Key : Type} (clock : Time) : Thread Key → Prop
  | .describing _ _ _ (.update hour) | .describing _ _ _ (.lookup hour)
  | .describing _ _ _ (.persist hour _) => hour ≤ clock.hour
  | .verifying _ _ descriptor _ | .spending _ descriptor _ => descriptor.epoch ≤ clock.hour
  | .timing marker =>
    marker.descriptor.epoch ≤ marker.readAt.hour ∧ marker.readAt.NotAfter clock
  | .lasting marker first =>
    marker.descriptor.epoch ≤ marker.readAt.hour ∧ marker.readAt.NotAfter first ∧
      first.NotAfter clock
  | .returned (some (marker, grantedUntil)) => GrantTimely clock marker grantedUntil
  | _ => True

/-- A deadline that was returned ends in time. -/
def EventTimely : Event → Prop
  | .redeemed marker grantedUntil =>
    grantedUntil.wall < lifeEnd marker.descriptor.epoch + Time.millisecond
  | _ => True

theorem Timely.mono {Key : Type} {clock clock' : Time} {thread : Thread Key}
    (hclock : clock.NotAfter clock') (h : Timely clock thread) : Timely clock' thread := by
  unfold Timely at h ⊢
  split at h
  · exact h.trans hclock.hour_le
  · exact h.trans hclock.hour_le
  · exact h.trans hclock.hour_le
  · exact h.trans hclock.hour_le
  · exact h.trans hclock.hour_le
  · exact ⟨h.1, h.2.trans hclock⟩
  · exact ⟨h.1, h.2.1, h.2.2.trans hclock⟩
  · exact ⟨h.bounded, fun hlate ↦ (h.ended hlate).trans hclock.2⟩
  · trivial

section Moves

variable {crypto : Crypto} {codec : Codec} {policy : Policy} {clock : Time}

/-- The readings a thread has kept lie in the past, and the deadlines it logs end in time. -/
def NextTimely {Key : Type} (clock : Time) (next : Thread Key × List Event) : Prop :=
  Timely clock next.1 ∧ ∀ event ∈ next.2, EventTimely event

theorem Inert.timely {Key : Type} {next : Thread Key × List Event} (h : Inert next)
    (clock : Time) : NextTimely clock next := by
  obtain ⟨thread, events⟩ := next
  refine ⟨?_, fun event hevent ↦ ?_⟩
  · have hthread := h.1
    unfold Thread.isInert at hthread
    split at hthread <;> simp_all [Timely]
  · have hinert := h.2 event hevent
    unfold Event.isInert at hinert
    split at hinert <;> simp_all [EventTimely]

theorem NextTimely.cons_event {Key : Type} {next : Thread Key × List Event} {event : Event}
    (h : NextTimely clock next) (hevent : EventTimely event) :
    NextTimely clock (Prod.map id (event :: ·) next) := by
  refine ⟨h.1, ?_⟩
  simp only [Prod.map_snd, List.mem_cons, forall_eq_or_imp]
  exact ⟨hevent, h.2⟩

theorem nextTimely_resumeOk {now : Time} {epoch hour : ℤ} {key : crypto.Key} {caller : Caller}
    {start : ℕ} (hepoch : epoch ≤ hour) (hhour : hour ≤ clock.hour) :
    NextTimely clock (Prod.map id (.described start hour epoch :: ·)
      (resumeOk crypto codec policy now start (descriptorFor crypto codec policy epoch key) key
        caller)) := by
  rcases resumeOk_cases crypto codec policy now start (descriptorFor crypto codec policy epoch key)
    key caller with h | ⟨_, _, _, -, -, h⟩ | ⟨_, -, h⟩
  · exact (h.timely clock).cons_event trivial
  · rw [h]
    exact ⟨trivial, by simp [EventTimely]⟩
  · rw [h]
    exact ⟨hepoch.trans hhour, by simp [EventTimely]⟩

/-- The deadline of a grant, at the second of its two readings. -/
theorem grantTimely_deadline {marker : Marker} {first : Time} (hclock : clock.Plausible)
    (hok : MessageOk crypto codec policy marker.descriptor marker.message)
    (htimely : Timely clock (.lasting marker first : Thread crypto.Key)) :
    GrantTimely clock marker (deadline marker.descriptor first clock) := by
  obtain ⟨hepoch, hfirst, hsecond⟩ := htimely
  obtain ⟨⟨hrange, key, hdescriptor⟩, -⟩ := hok
  have hexpires :
      marker.descriptor.expiresAt = (marker.descriptor.epoch * 3600 + 43200) * 1000 := by
    rw [hdescriptor]
    rfl
  have hread := (hfirst.trans hsecond).hour_le
  refine ⟨deadline_wall_lt hexpires hrange.1 (by omega) hclock hsecond, fun hlate ↦ ?_⟩
  exact (deadline_mono_le hexpires hrange.1 (by omega) hclock).trans hsecond.2

theorem act_timely {i since : ℕ} {shared shared' : Shared crypto.Key}
    {thread : Thread crypto.Key} {next : Thread crypto.Key × List Event} (hclock : clock.Plausible)
    (hok : ThreadOk crypto codec policy thread) (htimely : Timely clock thread)
    (hact : Act crypto codec policy clock i since shared thread shared' next) :
    NextTimely clock next := by
  cases hact with
  | enterRefused | updateRefused | lookupRefused | describeFailed =>
    exact (inert_resumeError _).timely clock
  | drawFailed | crowdedOut | chargeRefused => exact (inert_refuse _ _).timely clock
  | compare => exact (inert_compare _ _ _ _ _).timely clock
  | asked => exact (inert_weigh _ _).timely clock
  | rechecked application sent result hcheck =>
    exact NextTimely.cons_event ((inert_judge application result).timely clock) trivial
  | found start epoch hour caller key hkey => exact nextTimely_resumeOk hok.2.2.1 htimely
  | persisted start epoch hour caller key => exact nextTimely_resumeOk hok.2.2.le htimely
  | enter => exact ⟨le_rfl, by simp⟩
  | ask application pc pc' members hlookup =>
    exact ⟨trivial, by cases pc' <;> simp [lookupEvents, EventTimely]⟩
  | update | generate | verified => exact ⟨htimely, by simp [EventTimely]⟩
  | spend => exact ⟨⟨htimely, .refl _⟩, by simp [EventTimely]⟩
  | readFirst => exact ⟨⟨htimely.1, htimely.2, .refl _⟩, by simp⟩
  | readSecond marker first =>
    have hgrant := grantTimely_deadline hclock hok htimely
    exact ⟨hgrant, by simpa [EventTimely] using hgrant.bounded⟩
  | _ => exact ⟨trivial, by simp [EventTimely]⟩

end Moves

/-! ### Steps and runs -/

section Runs

variable {crypto : Crypto} {codec : Codec}

/-- Every call and every entry of the log is timely. -/
structure AllTimely (w : World crypto) : Prop where
  threads : ∀ thread ∈ w.threads, Timely w.clock thread
  log : ∀ event ∈ w.log, EventTimely event

theorem Step.timely {w w' : World crypto} (hstep : Step codec w w') (hforward : WallForward w w')
    (hsound : Sound crypto codec w) (h : AllTimely w) : AllTimely w' := by
  cases hstep with
  | tick reading hmono hsane =>
    have hclock : w.clock.NotAfter reading := ⟨hforward, hmono⟩
    exact ⟨fun thread hthread ↦ (h.threads thread hthread).mono hclock, h.log⟩
  | restart policy => exact ⟨by simp [World.restarted, Timely], h.log⟩
  | request request hserving hslot =>
    refine ⟨?_, h.log⟩
    simp only [World.called, List.forall_mem_append, List.forall_mem_singleton]
    exact ⟨h.threads, trivial⟩
  | crowded hserving hslot =>
    refine ⟨h.threads, ?_⟩
    simp only [List.forall_mem_append, List.forall_mem_singleton]
    exact ⟨h.log, trivial⟩
  | redeem raw hserving =>
    refine ⟨?_, h.log⟩
    simp only [World.called, List.forall_mem_append, List.forall_mem_singleton]
    exact ⟨h.threads, trivial⟩
  | act i thread shared next hthread hact =>
    have hmem := List.mem_of_getElem? hthread
    obtain ⟨hnext, hevents⟩ := act_timely hsound.clock (hsound.threads thread hmem)
      (h.threads thread hmem) hact
    refine ⟨forall_mem_set h.threads hnext, ?_⟩
    simp only [World.moved, List.forall_mem_append]
    exact ⟨h.log, hevents⟩

/-- The facts of every run, with those of a run under a forward wall clock. -/
theorem timely_of_run {guard : World crypto → World crypto → Prop}
    (hguard : ∀ w w', guard w w' → WallForward w w') {w w' : World crypto} (h : Initial w)
    (hrun : Run (Step codec) guard w w') : Sound crypto codec w' ∧ AllTimely w' := by
  have hstart : Sound crypto codec w ∧ AllTimely w :=
    ⟨sound_of_initial h, by simp [h.threads, Timely], by simp [h.log]⟩
  exact hrun.invariant (fun s ↦ Sound crypto codec s ∧ AllTimely s)
    (fun s t hs hstep hst ↦ ⟨hstep.sound hs.1, hstep.timely (hguard s t hst) hs.1 hs.2⟩) hstart

/-- The recorded hour has been read from the clock, or none has been recorded yet. -/
def RecordedPast (w : World crypto) : Prop := w.shared.db.latestEpoch ≤ max 0 w.clock.hour

theorem Step.recordedPast {w w' : World crypto} (hstep : Step codec w w')
    (hforward : WallForward w w') (hsound : Sound crypto codec w) (htimely : AllTimely w)
    (h : RecordedPast w) : RecordedPast w' := by
  cases hstep with
  | tick reading hmono hsane => exact h.trans (max_le_max le_rfl (Time.hour_mono hforward))
  | restart policy => exact h
  | request request hserving hslot => exact h
  | crowded hserving hslot => exact h
  | redeem raw hserving => exact h
  | act i thread shared next hthread hact =>
    have hmem := List.mem_of_getElem? hthread
    have hwf := hsound.shared.db
    unfold RecordedPast at h ⊢
    rcases act_db_cases hact with ⟨hdb, -⟩ |
      ⟨start, epoch', hour, caller, commit, rfl, htx, hdb, rfl⟩ |
      ⟨start, epoch', hour, caller, key, rfl, hdb, -⟩ |
      ⟨application, checked, rfl, htx, rfl⟩ |
      ⟨start, descriptor, message, commit, rfl, htx, hdb, rfl⟩
    · rwa [World.moved, hdb]
    · have hhour : hour ≤ w.clock.hour := htimely.threads _ hmem
      obtain ⟨hle, ⟨-, rfl⟩ | ⟨-, hcommit, -⟩⟩ := descriptorTx_ok hwf htx
      · rwa [World.moved, hdb]
      · have hrange : HourRange hour :=
          ⟨hwf.latest_nonneg.trans hle, (hsound.threads _ hmem).2.1⟩
        rw [World.moved, hdb, hcommit, latestEpoch_advance _ hrange]
        exact hhour.trans (le_max_right _ _)
    · rw [World.moved, hdb]
      exact h
    · obtain ⟨-, hdb⟩ := quotaTx_ok htx
      rw [World.moved, hdb]
      exact h
    · obtain ⟨-, -, rfl⟩ := redeemTx_ok hwf htx
      rw [World.moved, hdb]
      exact h

theorem recordedPast_of_run {guard : World crypto → World crypto → Prop}
    (hguard : ∀ w w', guard w w' → WallForward w w') {w w' : World crypto} (h : Initial w)
    (hrun : Run (Step codec) guard w w') : RecordedPast w' := by
  have hstart : RecordedPast w := by
    rw [RecordedPast, h.shared, Shared.opened, latestEpoch_fresh]
    exact le_max_left _ _
  refine (hrun.invariant (fun s ↦ (Sound crypto codec s ∧ AllTimely s) ∧ RecordedPast s)
    (fun s t hs hstep hst ↦ ⟨?_, hstep.recordedPast (hguard s t hst) hs.1.1 hs.1.2 hs.2⟩)
    ⟨timely_of_run hguard h (.refl w), hstart⟩).2
  exact ⟨hstep.sound hs.1.1, hstep.timely (hguard s t hst) hs.1.1 hs.1.2⟩

end Runs

end QortalRelay.Tickets
