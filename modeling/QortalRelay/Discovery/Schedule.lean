import QortalRelay.Discovery.Announcer

/-!
# The announcer in time

`run_announcements` refreshes the announcement every two minutes, and after a failure in five
seconds, then ten, twenty and so on up to a minute. An announcement is a lease of ten minutes. The
process of `QortalRelay.Discovery.Announcer` is given a clock here: the loop sleeps as long as it
has been told, give or take how late it wakes up, and a refresh takes some time at most (`Pace`).

However the refreshes and the responses to queries interleave, the time since the last successful
refresh is bounded by the number of failures after it (`reach`). For a pace of a few seconds what
that refresh has announced is accepted through ten failures in a row by clients whose clocks are not
far from the clock of the relay (`lease_covered`).
-/

set_option autoImplicit false
set_option relaxedAutoImplicit false

namespace QortalRelay.Discovery

open Foundation Encoding Binary Trace

/-- In milliseconds: how long a refresh takes, and how much longer a sleep, at most. -/
structure Pace where
  duration : ℕ
  lateness : ℕ

/-- The process with a clock, in milliseconds. -/
structure Clocked where
  world : World
  now : ℤ
  /-- When the loop began to sleep, or to refresh. -/
  since : ℤ
  /-- The failed refreshes since the last one that did not fail. -/
  failures : ℕ
  /-- When the last successful refresh returned, and which activity it was. -/
  refreshed : Option (ℤ × ℕ)

namespace Clocked

/-- The announcer begins at a time, with its first refresh due at once. -/
def start (now : ℤ) : Clocked := ⟨World.initial, now, now, 0, none⟩

/-- When the loop goes on at the latest. -/
def deadline (pace : Pace) (state : Clocked) : ℤ :=
  match state.world.loop with
  | .waiting delay _ => state.since + 1000 * delay + pace.lateness
  | .running _ _ => state.since + pace.duration

/-- The steps of the process against a clock: until it is told to stop, time passes only up to the
deadline of the loop, and a refresh begins when its delay is over. -/
inductive Step (announcer : Announcer) (pace : Pace) (state : Clocked) : Clocked → Prop
  | pass (later : ℤ) (hlater : state.now ≤ later)
      (hpace : state.world.stopped = false → later ≤ state.deadline pace) :
      Step announcer pace state { state with now := later }
  | refresh (delay retryDelay : ℕ) (hloop : state.world.loop = .waiting delay retryDelay)
      (hstopped : state.world.stopped = false) (hdue : state.since + 1000 * delay ≤ state.now) :
      Step announcer pace state
        { state with
          world := { state.world with
            activities := state.world.activities ++ [Activity.start .refresh]
            loop := .running state.world.activities.length retryDelay }
          since := state.now }
  | settle (i retryDelay : ℕ) (activity : Activity) (ok : Bool)
      (hloop : state.world.loop = .running i retryDelay)
      (hactivity : state.world.activities[i]? = some activity)
      (hstage : activity.stage = .returned ok) :
      Step announcer pace state
        { state with
          world := { state.world with loop := Loop.settle ok retryDelay }
          since := state.now
          failures := if ok then 0 else state.failures + 1
          refreshed := if ok then some (state.now, i) else state.refreshed }
  | query : Step announcer pace state { state with world := state.world.answerQuery state.now }
  /-- The clock of the announcements is the one of the sleeps, in seconds; a refresh is skipped only
  when the process has stopped. -/
  | move (i : ℕ) (activity activity' : Activity) (outcome : Outcome)
      (hactivity : state.world.activities[i]? = some activity)
      (hnext : announcer.next activity outcome = some activity')
      (hclock : ∀ reading, outcome = .clock reading → reading = state.now / 1000)
      (hskipped : outcome = .skipped → activity.kind = .response ∨ state.world.stopped = true) :
      Step announcer pace state
        { state with
          world := { state.world with activities := state.world.activities.set i activity' } }
  | stop : Step announcer pace state { state with world := { state.world with stopped := true } }

variable {announcer : Announcer} {pace : Pace} {state state' : Clocked}

/-- Without the clock it is a step of the process. -/
theorem Step.untimed (hstep : Step announcer pace state state') :
    state'.world = state.world ∨ Discovery.Step announcer state.world state'.world := by
  cases hstep with
  | pass later hlater hpace => exact Or.inl rfl
  | refresh delay retryDelay hloop hstopped hdue => exact Or.inr (.refresh _ _ _ hloop hstopped)
  | settle i retryDelay activity ok hloop hactivity hstage =>
    exact Or.inr (.settle _ _ _ _ _ hloop hactivity hstage)
  | query => exact Or.inr (.query _ _)
  | move i activity activity' outcome hactivity hnext hclock hskipped =>
    exact Or.inr (.move _ _ _ _ _ hactivity hnext)
  | stop => exact Or.inr (.stop _)

end Clocked

/-! ### The schedule -/

/-- The delay after so many failures. -/
def backoff (failures : ℕ) : ℕ := min (retryMin * 2 ^ failures) retryMax

theorem backoff_succ (failures : ℕ) :
    backoff (failures + 1) = min (backoff failures * 2) retryMax := by
  unfold backoff retryMin retryMax
  rw [pow_succ]
  omega

/-- How long after a successful refresh a next one has begun, with so many failures in between. -/
def reach (pace : Pace) : ℕ → ℤ
  | 0 => 1000 * announceInterval + pace.lateness
  | failures + 1 =>
    reach pace failures + pace.duration + 1000 * backoff failures + pace.lateness

/-- Where the loop is in time, after a refresh that returned at `refreshed`. -/
def Clocked.Placed (pace : Pace) (state : Clocked) (refreshed : ℤ) : Prop :=
  match state.world.loop with
  | .waiting delay _ =>
    (state.failures = 0 ∧ delay = announceInterval ∧ state.since = refreshed) ∨
      ∃ failures, state.failures = failures + 1 ∧ delay = backoff failures ∧
        state.since ≤ refreshed + reach pace failures + pace.duration
  | .running _ _ => state.since ≤ refreshed + reach pace state.failures

def Loop.retryDelay : Loop → ℕ
  | .waiting _ retryDelay => retryDelay
  | .running _ retryDelay => retryDelay

/-! ### What a refresh announces -/

/-- What is to be sent from a stage on. -/
def Stage.pending : Stage → List Payload
  | .legacy raw => [.signed raw]
  | .sending payloads | .sent payloads => payloads
  | .entry | .catalog | .encoding _ | .returned _ => []

/-- An announcement has been encoded, and no call has raised since. -/
def Stage.isCommitted : Stage → Bool
  | .legacy _ | .sending _ | .sent _ | .returned true => true
  | .entry | .catalog | .encoding _ | .returned false => false

/-- The activity has sent the announcement, or is about to. -/
def Activity.Has (activity : Activity) (raw : Bytes) : Prop :=
  .signed raw ∈ activity.stage.pending ∨ Event.emitted (.signed raw) ∈ activity.events

/-- All announcements of an activity have a property, and if it goes on to its end there is one. -/
structure Activity.Sends (property : Bytes → Prop) (activity : Activity) : Prop where
  all : ∀ raw, activity.Has raw → property raw
  one : activity.stage.isCommitted = true → ∃ raw, activity.Has raw

section Sends

variable {announcer : Announcer} {property stronger : Bytes → Prop}
  {activity activity' : Activity} {outcome : Outcome}

theorem Activity.Sends.mono (h : activity.Sends stronger)
    (himp : ∀ raw, stronger raw → property raw) : activity.Sends property :=
  ⟨fun raw hraw ↦ himp raw (h.all raw hraw), h.one⟩

theorem Activity.sends_start (kind : Kind) : (Activity.start kind).Sends property :=
  ⟨by simp [Activity.start, Activity.Has, Stage.pending],
    by simp [Activity.start, Stage.isCommitted]⟩

/-- Assumes: nothing has become an announcement, and what there was has gone or been sent. -/
theorem Activity.Sends.sub (h : activity.Sends property)
    (hall : ∀ raw, activity'.Has raw → activity.Has raw)
    (hone : activity'.stage.isCommitted = true → activity.stage.isCommitted = true ∧
      ∀ raw, activity.Has raw → activity'.Has raw) : activity'.Sends property := by
  refine ⟨fun raw hraw ↦ h.all raw (hall raw hraw), fun hcommitted ↦ ?_⟩
  obtain ⟨hcommitted, hhas⟩ := hone hcommitted
  obtain ⟨raw, hraw⟩ := h.one hcommitted
  exact ⟨raw, hhas raw hraw⟩

/-- Assumes: a step to a stage that has nothing to send. -/
theorem Activity.Sends.drop (h : activity.Sends property) (stage : Stage)
    (hpending : stage.pending = []) (hcommitted : stage.isCommitted = false) (reply : List Event)
    (hreply : ∀ raw, Event.emitted (.signed raw) ∉ reply) :
    Activity.Sends property ⟨activity.kind, stage, activity.events ++ reply⟩ := by
  refine h.sub (fun raw hraw ↦ Or.inr ?_) (by simp [hcommitted])
  rcases hraw with hqueued | hemitted
  · rw [hpending] at hqueued
    cases hqueued
  · exact (List.mem_append.mp hemitted).resolve_right (hreply raw)

theorem Activity.Sends.quit (h : activity.Sends property) (stage : Stage)
    (hpending : stage.pending = []) (hcommitted : stage.isCommitted = false) :
    Activity.Sends property { activity with stage := stage } := by
  simpa using h.drop stage hpending hcommitted [] (by simp)

theorem Activity.sends_encoded (h : activity.Sends property) (key : Member) (reading : ℤ)
    (hencoded : ∀ ticketKey raw, announcer.encodeAt reading ticketKey = .ok raw → property raw) :
    Activity.Sends property { activity with stage := announcer.encoded key reading } := by
  have hfailed : Activity.Sends property { activity with stage := .returned false } :=
    h.quit (.returned false) rfl rfl
  have hwritten : ∀ {raw} (stage : Stage), stage.pending = [.signed raw] → property raw →
      Activity.Sends property { activity with stage := stage } := by
    intro raw stage hpending hraw
    have hhas : ∀ other, Activity.Has { activity with stage := stage } other ↔
        other = raw ∨ Event.emitted (.signed other) ∈ activity.events := by
      simp [Activity.Has, hpending]
    refine ⟨fun other hother ↦ ?_, fun _ ↦ ⟨raw, (hhas raw).mpr (Or.inl rfl)⟩⟩
    rcases (hhas other).mp hother with rfl | hemitted
    · exact hraw
    · exact h.all other (Or.inr hemitted)
  unfold Announcer.encoded
  split
  · exact hfailed
  · next ticketKey hkey =>
    split
    · exact hfailed
    · next raw hraw =>
      split_ifs
      · exact hwritten _ rfl (hencoded ticketKey raw hraw)
      · exact hwritten _ rfl (hencoded ticketKey raw hraw)

/-- Assumes: a step that does not skip the refresh, and a property that every announcement has that
is encoded at the reading of the step. -/
theorem Activity.Sends.next (h : activity.Sends property)
    (hnext : announcer.next activity outcome = some activity') (hskipped : outcome ≠ .skipped)
    (hencoded : ∀ reading, outcome = .clock reading → ∀ ticketKey raw,
      announcer.encodeAt reading ticketKey = .ok raw → property raw) :
    activity'.Sends property := by
  have hfailed : Activity.Sends property { activity with stage := .returned false } :=
    h.quit (.returned false) rfl rfl
  obtain ⟨kind, stage, events⟩ := activity
  cases stage with
  | entry =>
    cases outcome <;> simp only [Announcer.next, Option.some.injEq, reduceCtorEq] at hnext
    · exact absurd rfl hskipped
    · obtain rfl := hnext
      cases announcer.restricted
      · exact h.quit (.encoding .null) rfl rfl
      · exact h.quit .catalog rfl rfl
    · obtain rfl := hnext
      exact hfailed
  | catalog =>
    cases outcome <;> simp only [Announcer.next, Option.some.injEq, reduceCtorEq] at hnext
    obtain rfl := hnext
    unfold Announcer.looked
    split
    · exact h.drop _ rfl rfl _ (by simp)
    · exact h.drop _ rfl rfl _ (by simp)
  | encoding key =>
    cases outcome <;> simp only [Announcer.next, Option.some.injEq, reduceCtorEq] at hnext
    obtain rfl := hnext
    exact Activity.sends_encoded h key _ (hencoded _ rfl)
  | legacy raw =>
    cases outcome <;> simp only [Announcer.next, Option.some.injEq, reduceCtorEq] at hnext
    obtain rfl := hnext
    exact h.sub (by simp [Activity.Has, Stage.pending, Announcer.legacyPayload])
      (by simp [Activity.Has, Stage.pending, Announcer.legacyPayload, Stage.isCommitted])
  | sending payloads =>
    cases payloads with
    | nil =>
      cases outcome <;> simp only [Announcer.next, Option.some.injEq, reduceCtorEq] at hnext
      obtain rfl := hnext
      exact h.sub (by simp [Activity.Has, Stage.pending])
        (by simp [Activity.Has, Stage.pending, Stage.isCommitted])
    | cons payload rest =>
      cases outcome <;> simp only [Announcer.next, Option.some.injEq, reduceCtorEq] at hnext
      · obtain rfl := hnext
        refine h.sub (fun raw hraw ↦ ?_) fun _ ↦ ⟨rfl, fun raw hraw ↦ ?_⟩
        · simp only [Activity.Has, Stage.pending, List.mem_append, Event.emitted.injEq,
            List.mem_cons] at hraw ⊢
          tauto
        · simp only [Activity.Has, Stage.pending, List.mem_append, Event.emitted.injEq,
            List.mem_cons] at hraw ⊢
          tauto
      · obtain rfl := hnext
        exact hfailed
  | sent payloads =>
    cases outcome <;> simp only [Announcer.next, Option.some.injEq, reduceCtorEq] at hnext
    · obtain rfl := hnext
      exact h.sub (fun _ hraw ↦ hraw) fun _ ↦ ⟨rfl, fun _ hraw ↦ hraw⟩
    · obtain rfl := hnext
      exact hfailed
  | returned ok => cases outcome <;> simp [Announcer.next] at hnext

end Sends

/-- An announcement that was encoded at a reading of the clock in a stretch of time. -/
def Announcer.Fresh (announcer : Announcer) (since now : ℤ) (raw : Bytes) : Prop :=
  ∃ reading ticketKey, announcer.encodeAt reading ticketKey = .ok raw ∧
    since < 1000 * (reading + 1) ∧ 1000 * reading ≤ now

theorem Announcer.Fresh.mono {announcer : Announcer} {since since' now now' : ℤ} {raw : Bytes}
    (h : announcer.Fresh since now raw) (hsince : since' ≤ since) (hnow : now ≤ now') :
    announcer.Fresh since' now' raw := by
  obtain ⟨reading, ticketKey, hraw, hafter, hbefore⟩ := h
  exact ⟨reading, ticketKey, hraw, hsince.trans_lt hafter, hbefore.trans hnow⟩

theorem Announcer.next_keeps {announcer : Announcer} {activity activity' : Activity}
    {outcome : Outcome} (hnext : announcer.next activity outcome = some activity') :
    activity'.kind = activity.kind ∧ ∀ ok, activity.stage ≠ .returned ok := by
  unfold Announcer.next at hnext
  split at hnext <;> cases hnext <;> exact ⟨rfl, by simp [*]⟩

/-! ### The loop is on time -/

/-- An activity is a refresh that has succeeded, with announcements of a stretch of time. -/
structure Succeeded (announcer : Announcer) (since now : ℤ) (activity : Activity) : Prop where
  kind : activity.kind = .refresh
  stage : activity.stage = .returned true
  sends : activity.Sends (announcer.Fresh since now)

/-- Holds in every reachable state: the loop is not late, and the last refresh that succeeded sent
announcements made within its own span. -/
structure Clocked.OnTime (announcer : Announcer) (pace : Pace) (state : Clocked) : Prop where
  begun : state.since ≤ state.now
  prompt : state.now ≤ state.deadline pace
  retry : state.world.loop.retryDelay = backoff state.failures
  running : ∀ i retryDelay, state.world.loop = .running i retryDelay → ∃ activity,
    state.world.activities[i]? = some activity ∧ activity.kind = .refresh ∧
      activity.Sends (announcer.Fresh state.since state.now)
  placed : ∀ refreshed i, state.refreshed = some (refreshed, i) →
    refreshed ≤ state.now ∧ state.Placed pace refreshed ∧ ∃ activity,
      state.world.activities[i]? = some activity ∧
      Succeeded announcer (refreshed - pace.duration) refreshed activity

namespace Clocked

variable {announcer : Announcer} {pace : Pace} {state state' : Clocked}

theorem onTime_start (now : ℤ) : (start now).OnTime announcer pace where
  begun := le_rfl
  prompt := by simp [start, deadline, World.initial]
  retry := rfl
  running := by simp [start, World.initial]
  placed := by simp [start]

theorem OnTime.pass (h : state.OnTime announcer pace) {later : ℤ} (hlater : state.now ≤ later)
    (hpace : later ≤ state.deadline pace) :
    OnTime announcer pace { state with now := later } where
  begun := h.begun.trans hlater
  prompt := hpace
  retry := h.retry
  running i retryDelay hloop := by
    obtain ⟨activity, hactivity, hkind, hsends⟩ := h.running i retryDelay hloop
    exact ⟨activity, hactivity, hkind, hsends.mono fun _ hraw ↦ hraw.mono le_rfl hlater⟩
  placed refreshed i hrefreshed := by
    obtain ⟨hle, hplaced, hsucceeded⟩ := h.placed refreshed i hrefreshed
    exact ⟨hle.trans hlater, hplaced, hsucceeded⟩

/-- The loop begins the refresh in time. -/
theorem OnTime.now_le_reach (h : state.OnTime announcer pace) {delay retryDelay : ℕ}
    (hloop : state.world.loop = .waiting delay retryDelay) {refreshed : ℤ}
    (hplaced : state.Placed pace refreshed) :
    state.now ≤ refreshed + reach pace state.failures := by
  have hprompt := h.prompt
  simp only [deadline, Placed, hloop] at hprompt hplaced
  rcases hplaced with ⟨hnone, rfl, hsince⟩ | ⟨failures, hsome, rfl, hsince⟩
  · rw [hnone, reach]
    omega
  · rw [hsome, reach]
    omega

theorem OnTime.refresh (h : state.OnTime announcer pace) {delay retryDelay : ℕ}
    (hloop : state.world.loop = .waiting delay retryDelay) :
    OnTime announcer pace
      { state with
        world := { state.world with
          activities := state.world.activities ++ [Activity.start .refresh]
          loop := .running state.world.activities.length retryDelay }
        since := state.now } where
  begun := le_rfl
  prompt := by
    simp only [deadline]
    omega
  retry := by
    have hretry := h.retry
    rwa [hloop] at hretry
  running i retryDelay' hrunning := by
    obtain ⟨rfl, -⟩ := Loop.running.inj hrunning
    exact ⟨Activity.start .refresh, by simp, rfl, Activity.sends_start .refresh⟩
  placed refreshed i hrefreshed := by
    obtain ⟨hle, hplaced, activity, hactivity, hsucceeded⟩ := h.placed refreshed i hrefreshed
    exact ⟨hle, h.now_le_reach hloop hplaced, activity,
      (List.getElem?_append_left (List.getElem?_eq_some_iff.mp hactivity).1).trans hactivity,
      hsucceeded⟩

theorem OnTime.succeed (h : state.OnTime announcer pace) {i retryDelay : ℕ} {activity : Activity}
    (hloop : state.world.loop = .running i retryDelay)
    (hactivity : state.world.activities[i]? = some activity)
    (hstage : activity.stage = .returned true) :
    OnTime announcer pace
      { state with
        world := { state.world with loop := .waiting announceInterval retryMin }
        since := state.now
        failures := 0
        refreshed := some (state.now, i) } where
  begun := le_rfl
  prompt := by
    simp only [deadline]
    omega
  retry := rfl
  running := by simp
  placed refreshed j hrefreshed := by
    obtain ⟨rfl, rfl⟩ := Prod.mk.inj (Option.some.inj hrefreshed)
    obtain ⟨found, hfound, hkind, hsends⟩ := h.running i retryDelay hloop
    obtain rfl := Option.some.inj (hactivity.symm.trans hfound)
    have hprompt := h.prompt
    simp only [deadline, hloop] at hprompt
    exact ⟨le_rfl, Or.inl ⟨rfl, rfl, rfl⟩, activity, hactivity, hkind, hstage,
      hsends.mono fun _ hraw ↦ hraw.mono (by omega) le_rfl⟩

theorem OnTime.fail (h : state.OnTime announcer pace) {i retryDelay : ℕ}
    (hloop : state.world.loop = .running i retryDelay) :
    OnTime announcer pace
      { state with
        world := { state.world with
          loop := .waiting retryDelay (min (retryDelay * 2) retryMax) }
        since := state.now
        failures := state.failures + 1 } where
  begun := le_rfl
  prompt := by
    simp only [deadline]
    omega
  retry := by
    have hretry : retryDelay = backoff state.failures := by
      have hretry := h.retry
      rwa [hloop] at hretry
    rw [backoff_succ, ← hretry]
    rfl
  running := by simp
  placed refreshed j hrefreshed := by
    obtain ⟨hle, hplaced, hsucceeded⟩ := h.placed refreshed j hrefreshed
    refine ⟨hle, Or.inr ⟨state.failures, rfl, ?_, ?_⟩, hsucceeded⟩
    · have hretry := h.retry
      rwa [hloop] at hretry
    · have hprompt := h.prompt
      simp only [deadline, Placed, hloop] at hprompt hplaced
      simp only
      omega

theorem OnTime.query (h : state.OnTime announcer pace) :
    OnTime announcer pace { state with world := state.world.answerQuery state.now } := by
  unfold World.answerQuery
  split_ifs
  · exact h
  · refine ⟨h.begun, h.prompt, h.retry, fun i retryDelay hloop ↦ ?_,
      fun refreshed i hrefreshed ↦ ?_⟩
    · obtain ⟨activity, hactivity, hkind, hsends⟩ := h.running i retryDelay hloop
      have hlt := (List.getElem?_eq_some_iff.mp hactivity).1
      exact ⟨activity, by simp [List.getElem?_append_left hlt, hactivity], hkind, hsends⟩
    · obtain ⟨hle, hplaced, activity, hactivity, hsucceeded⟩ := h.placed refreshed i hrefreshed
      have hlt := (List.getElem?_eq_some_iff.mp hactivity).1
      exact ⟨hle, hplaced, activity, by simp [List.getElem?_append_left hlt, hactivity], hsucceeded⟩

/-- Assumes: a step of an activity that reads the clock at the moment, and skips no refresh. -/
theorem OnTime.move (h : state.OnTime announcer pace) {i : ℕ} {activity activity' : Activity}
    {outcome : Outcome} (hactivity : state.world.activities[i]? = some activity)
    (hnext : announcer.next activity outcome = some activity')
    (hclock : ∀ reading, outcome = .clock reading → reading = state.now / 1000)
    (hskipped : activity.kind = .refresh → outcome ≠ .skipped) :
    OnTime announcer pace
      { state with
        world := { state.world with activities := state.world.activities.set i activity' } } := by
  obtain ⟨hkind, hunfinished⟩ := Announcer.next_keeps hnext
  refine ⟨h.begun, h.prompt, h.retry, fun j retryDelay hloop ↦ ?_,
    fun refreshed j hrefreshed ↦ ?_⟩
  · obtain ⟨running, hrunning, hrefresh, hsends⟩ := h.running j retryDelay hloop
    by_cases hij : i = j
    · subst hij
      obtain rfl := Option.some.inj (hactivity.symm.trans hrunning)
      refine ⟨activity', by simp [(List.getElem?_eq_some_iff.mp hactivity).1], hkind.trans hrefresh,
        hsends.next hnext (hskipped hrefresh) fun reading hreading ticketKey raw hraw ↦ ?_⟩
      have hnow := hclock reading hreading
      have hbegun := h.begun
      exact ⟨reading, ticketKey, hraw, by omega, by omega⟩
    · exact ⟨running, by simp [List.getElem?_set_ne hij, hrunning], hrefresh, hsends⟩
  · obtain ⟨hle, hplaced, found, hfound, hsucceeded⟩ := h.placed refreshed j hrefreshed
    -- A refresh that has returned takes no step.
    have hij : i ≠ j := by
      rintro rfl
      obtain rfl := Option.some.inj (hactivity.symm.trans hfound)
      exact hunfinished true hsucceeded.stage
    exact ⟨hle, hplaced, found, (List.getElem?_set_ne hij).trans hfound, hsucceeded⟩

theorem Step.onTime (hstep : Step announcer pace state state')
    (h : state.world.stopped = false → state.OnTime announcer pace)
    (hstopped : state'.world.stopped = false) : state'.OnTime announcer pace := by
  cases hstep with
  | pass later hlater hpace => exact (h hstopped).pass hlater (hpace hstopped)
  | refresh delay retryDelay hloop _ hdue => exact (h hstopped).refresh hloop
  | settle i retryDelay activity ok hloop hactivity hstage =>
    cases ok with
    | true => exact (h hstopped).succeed hloop hactivity hstage
    | false => exact (h hstopped).fail hloop
  | query =>
    refine (h ?_).query
    rw [← hstopped]
    unfold World.answerQuery
    split_ifs <;> rfl
  | move i activity activity' outcome hactivity hnext hclock hskipped =>
    refine (h hstopped).move hactivity hnext hclock fun hkind houtcome ↦ ?_
    rcases hskipped houtcome with hresponse | hstop
    · rw [hkind] at hresponse
      cases hresponse
    · exact absurd hstop (by simpa using hstopped)
  | stop => cases hstopped

end Clocked

/-! ### The lease -/

theorem reach_mono (pace : Pace) : Monotone (reach pace) := by
  refine monotone_nat_of_le_succ fun failures ↦ ?_
  rw [reach]
  omega

/-- The delays, and once more than there were failures a refresh and a sleep that was late. -/
theorem reach_eq (pace : Pace) (failures : ℕ) :
    reach pace failures + pace.duration =
      1000 * (announceInterval + ∑ n ∈ Finset.range failures, backoff n : ℕ) +
        (failures + 1) * (pace.duration + pace.lateness) := by
  induction failures with
  | zero =>
    simp only [reach, Finset.range_zero, Finset.sum_empty]
    push_cast
    ring
  | succ failures ih =>
    rw [reach, Finset.sum_range_succ]
    push_cast at ih ⊢
    linarith

theorem reach_ten (pace : Pace) :
    reach pace 10 = 555000 + 10 * pace.duration + 11 * pace.lateness := by
  simp only [reach, backoff, announceInterval, retryMin, retryMax]
  norm_num
  ring

/-- In every run of the announcer that has not been stopped, where a refresh takes `d` and a sleep
is `l` too long at most: the time since the last successful refresh is at most two minutes, the
delays of 5, 10, 20, 40 and then 60 seconds of the failures after it, and `d + l` once more than
there were failures. The refresh has emitted a signed announcement. If clients have clocks that
differ by `s` at most from the clock of the relay and `12 d + 11 l + s` is at most 44 seconds, they
can still decode every announcement that this refresh has signed, through ten failures in a row.

Assumes: signatures that the library verifies, and a refresh that has succeeded. -/
theorem lease_covered {announcer : Announcer} {verify : Bytes → Bytes → Bytes → Bool}
    (hverify : ∀ message,
      verify announcer.identity.signingKey (announcer.identity.sign message) message = true)
    (pace : Pace) (began : ℤ) {state : Clocked}
    (hrun : Run (Clocked.Step announcer pace) (fun _ _ ↦ True) (Clocked.start began) state)
    (hstopped : state.world.stopped = false) {refreshed : ℤ} {i : ℕ}
    (hrefreshed : state.refreshed = some (refreshed, i)) :
    state.now ≤ refreshed +
        1000 * (announceInterval + ∑ n ∈ Finset.range state.failures, backoff n : ℕ) +
        (state.failures + 1) * (pace.duration + pace.lateness) ∧
      ∃ activity, state.world.activities[i]? = some activity ∧ activity.kind = .refresh ∧
        activity.stage = .returned true ∧
        (∃ raw, Event.emitted (.signed raw) ∈ activity.events) ∧
        ∀ skew : ℕ, 12 * pace.duration + 11 * pace.lateness + skew ≤ 44000 →
          state.failures ≤ 10 → ∀ raw, Event.emitted (.signed raw) ∈ activity.events →
          ∀ first second : ℤ, 1000 * first ≤ state.now + skew →
            state.now < 1000 * (second + 1) + skew →
            ∃ decoded, decode announcer.ip verify first second raw = .ok decoded := by
  have hontime : state.world.stopped = false → state.OnTime announcer pace :=
    hrun.invariant (fun state ↦ state.world.stopped = false → state.OnTime announcer pace)
      (fun _ _ h hstep _ hstopped ↦ hstep.onTime h hstopped) fun _ ↦ Clocked.onTime_start began
  have h := hontime hstopped
  obtain ⟨hle, hplaced, activity, hactivity, hkind, hstage, hsends⟩ :=
    h.placed refreshed i hrefreshed
  have hbound : state.now ≤ refreshed + (reach pace state.failures + pace.duration) := by
    cases hloop : state.world.loop with
    | waiting delay retryDelay =>
      have hreached := h.now_le_reach hloop hplaced
      omega
    | running i retryDelay =>
      have hprompt := h.prompt
      simp only [Clocked.deadline, Clocked.Placed, hloop] at hprompt hplaced
      omega
  have hemitted : ∀ {raw}, activity.Has raw ↔ Event.emitted (.signed raw) ∈ activity.events := by
    simp [Activity.Has, hstage, Stage.pending]
  refine ⟨?_, activity, hactivity, hkind, hstage, ?_,
    fun skew hpace hfailures raw hraw first second hfirst hsecond ↦ ?_⟩
  · rw [add_assoc, ← reach_eq]
    exact hbound
  · obtain ⟨raw, hraw⟩ := hsends.one (by rw [hstage]; rfl)
    exact ⟨raw, hemitted.mp hraw⟩
  · obtain ⟨reading, ticketKey, hencoded, hafter, hbefore⟩ := hsends.all raw (hemitted.mpr hraw)
    obtain ⟨address, scope, -, hdecode⟩ := exists_decode_of_encode hverify hencoded
    have hreach : reach pace state.failures ≤ reach pace 10 := reach_mono pace hfailures
    rw [reach_ten] at hreach
    have hexpiry : (announcer.args.arguments (reading + leaseSeconds) ticketKey).expiry =
        reading + 600 := rfl
    exact ⟨_, hdecode first second (by omega) (by omega)⟩

/-- The first refresh succeeds at once. -/
theorem lease_covered_sample : ∃ state,
    Run (Clocked.Step sampleAnnouncer ⟨2000, 1000⟩) (fun _ _ ↦ True)
      (Clocked.start 0) state ∧ state.refreshed = some (0, 0) ∧
      ∃ activity, state.world.activities[0]? = some activity ∧ ∃ raw decoded,
        Event.emitted (.signed raw) ∈ activity.events ∧
        decode sampleLibrary sampleVerify 0 0 raw = .ok decoded := by
  obtain ⟨raw, hraw⟩ : ∃ raw,
      sampleAnnouncer.encodeAt 0 (some sampleKeyId) = .ok raw :=
    exists_ok_of_isOk (by decide +kernel)
  have hencoded : sampleAnnouncer.encoded (.text sampleKeyId) 0 =
      .sending [.signed raw] := by
    simp only [Announcer.encoded, Member.ticketKey, hraw]
    rfl
  let at_ (stage : Stage) (events : List Event) : Clocked :=
    ⟨sampleWorld stage events, 0, 0, 0, none⟩
  have hmove : ∀ {stage events} stage' events' outcome, outcome ≠ .skipped →
      (∀ reading, outcome = .clock reading → reading = 0) →
      Run (Clocked.Step sampleAnnouncer ⟨2000, 1000⟩) (fun _ _ ↦ True)
        (Clocked.start 0) (at_ stage events) →
      sampleAnnouncer.next ⟨.refresh, stage, events⟩ outcome =
        some ⟨.refresh, stage', events'⟩ →
      Run (Clocked.Step sampleAnnouncer ⟨2000, 1000⟩) (fun _ _ ↦ True)
        (Clocked.start 0) (at_ stage' events') := by
    intro stage events stage' events' outcome hskipped hclock hrun hnext
    exact hrun.snoc (.move 0 _ _ outcome rfl hnext hclock fun h ↦ absurd h hskipped) trivial
  have hrefresh : Run (Clocked.Step sampleAnnouncer ⟨2000, 1000⟩)
      (fun _ _ ↦ True) (Clocked.start 0) (at_ .entry []) :=
    (Run.refl _).snoc (.refresh 0 retryMin rfl rfl (by decide)) trivial
  have hcatalog := hmove .catalog [] .proceed (by simp) (by simp) hrefresh rfl
  have hreplied := hmove (.encoding (.text sampleKeyId))
    [.catalog (some (sampleJson (.text sampleKeyId)))] (.replied (.response 200 none sampleBody))
    (by simp) (by simp) hcatalog (next_replied (by decide +kernel) sampleLoads_body)
  have hwritten := hmove (.sending [.signed raw])
    [.catalog (some (sampleJson (.text sampleKeyId)))] (.clock 0) (by simp) (by simp) hreplied
    (by simp [Announcer.next, hencoded])
  have hsent := hmove (.sent []) _ .proceed (by simp) (by simp) hwritten rfl
  have hdone := hmove (.sending []) _ .proceed (by simp) (by simp) hsent rfl
  have hreturned := hmove (.returned true) _ .proceed (by simp) (by simp) hdone rfl
  have hsettled := hreturned.snoc (.settle 0 retryMin _ true rfl rfl rfl) trivial
  obtain ⟨-, activity, hactivity, -, -, ⟨sent, hemitted⟩, hdecode⟩ :=
    lease_covered sample_verified ⟨2000, 1000⟩ 0 hsettled rfl rfl
  obtain ⟨decoded, hdecoded⟩ :=
    hdecode 5000 (by decide) (Nat.zero_le _) sent hemitted 0 0
      (show (1000 : ℤ) * 0 ≤ 0 + 5000 by decide) (show (0 : ℤ) < 1000 * (0 + 1) + 5000 by decide)
  exact ⟨_, hsettled, rfl, activity, hactivity, sent, decoded, hemitted, hdecoded⟩

end QortalRelay.Discovery
