import QortalRelay.Discovery.Validation
import QortalRelay.Foundation.Trace

/-!
# The announcer

The process that announces the relay. A loop refreshes the announcement every two minutes and
retries a refresh that raised after a delay that doubles up to a minute; next to it a timer thread
answers each query it has accepted. A refresh or a response is an `Activity`: in groups mode it asks
the ticket authority for its catalog, encodes one announcement with the key of the reply and sends
it; in public mode it asks nothing and sends a second, unsigned announcement for old clients. Every
call to the network or to the authority may raise, which ends the activity.

The steps of all activities interleave. What an activity of a restricted relay has asked and sent is
fixed by where it stands (`Activity.Restricted`).
-/

set_option autoImplicit false
set_option relaxedAutoImplicit false

namespace QortalRelay.Discovery

open Foundation Encoding Binary Trace
open AccessConfig (publicMode groupsMode)

/-! ### The catalog -/

/-- The value of a member of an object. -/
inductive Member
  | null
  | text (value : Text)
  | other
deriving DecidableEq

/-- A parsed reply: an object by the names of its members, or something else. -/
inductive Json
  | object (members : Text → Option Member)
  | other

/-- What the call of the authority gives. -/
inductive Reply
  | failed
  | response (status : ℕ) (error : Option Text) (body : Bytes)

def errorMember : Text := ['e', 'r', 'r', 'o', 'r']

def keyIdMember : Text := ['k', 'e', 'y', 'I', 'd']

/-- The code of a reply that names none. -/
def unavailable : Text := "RELAY_AUTH_UNAVAILABLE".toList

/-- `ticket_request`; `none` when it raises. -/
def ticketRequest (loads : Bytes → Option Json) : Reply → Option Json
  | .failed => none
  | .response status error body =>
    let raw := body.take 8193
    if 8192 < raw.length then none
    else if status ≠ 200 then
      let code := match error with
        | none | some [] => unavailable
        | some code => code
      some (.object fun name ↦ if name = errorMember then some (.text code) else none)
    else loads raw

/-- `catalog["keyId"]`; `none` when it raises. -/
def Json.keyId : Json → Option Member
  | .object members => members keyIdMember
  | .other => none

/-- The key as an argument of the encoder, which raises on one that is neither `None` nor text. -/
def Member.ticketKey : Member → Option (Option Text)
  | .null => some none
  | .text value => some (some value)
  | .other => none

/-! ### Activities -/

/-- What is published: the announcement of the codec, or the one for old clients. -/
inductive Payload
  | signed (raw : Bytes)
  /-- The announcement for old clients, a JSON object of version 1. -/
  | legacy (host : Text) (port : ℤ) (name pin : Text) (expiry : ℤ)
deriving DecidableEq

/-- What an activity has done that others can see. -/
inductive Event
  /-- It has called the authority; without a value the call raised. -/
  | catalog (reply : Option Json)
  /-- It has passed a payload to the network. -/
  | emitted (payload : Payload)

/-- Where an activity is in the code. -/
inductive Stage
  | entry
  | catalog
  | encoding (key : Member)
  | legacy (raw : Bytes)
  | sending (payloads : List Payload)
  | sent (payloads : List Payload)
  | returned (ok : Bool)
deriving DecidableEq

/-- A call of `announce` by the loop, or of `send_query_response` for a query. -/
inductive Kind
  | refresh
  | response
deriving DecidableEq

/-- A call with the events it has caused so far. -/
structure Activity where
  kind : Kind
  stage : Stage
  events : List Event

def Activity.start (kind : Kind) : Activity := ⟨kind, .entry, []⟩

/-- What the surroundings answer. -/
inductive Outcome
  /-- There is nothing to do: the announcer has stopped, or the query's hash is another. -/
  | skipped
  | proceed
  | raised
  | replied (reply : Reply)
  | clock (now : ℤ)

/-- How long an announcement is valid, in seconds. -/
def leaseSeconds : ℤ := 600

/-- The announcer's libraries, its identity and its arguments. -/
structure Announcer where
  ip : IpLibrary
  identity : Identity
  loads : Bytes → Option Json
  args : Args

namespace Announcer

variable (announcer : Announcer)

def restricted : Bool := announcer.args.accessMode = groupsMode

/-- `encode` as `advertisement_payload` calls it at a time. -/
def encodeAt (now : ℤ) (ticketKey : Option Text) : Except Raised Bytes :=
  encode announcer.ip announcer.identity
    (announcer.args.arguments (now + leaseSeconds) ticketKey)

/-- The end of `advertisement_payload` and what `advertisement_payloads` does next. -/
def encoded (key : Member) (now : ℤ) : Stage :=
  match key.ticketKey with
  | none => .returned false
  | some ticketKey =>
    match announcer.encodeAt now ticketKey with
    | .error _ => .returned false
    | .ok raw =>
      if announcer.args.accessMode = publicMode then .legacy raw else .sending [.signed raw]

/-- What a reply of the authority leads to. -/
def looked (reply : Option Json) : Stage :=
  match reply.bind Json.keyId with
  | none => .returned false
  | some key => .encoding key

def legacyPayload (now : ℤ) : Payload :=
  .legacy announcer.args.host announcer.args.port announcer.args.serverName
    announcer.args.certSha256 (now + leaseSeconds)

/-- One step of an activity, where the outcome is one of the call that it makes there. -/
def next (activity : Activity) (outcome : Outcome) : Option Activity :=
  match activity.stage, outcome with
  | .entry, .skipped => some { activity with stage := .returned true }
  -- The path of a restricted relay is announced first; a response makes its destination.
  | .entry, .raised => some { activity with stage := .returned false }
  | .entry, .proceed =>
    some { activity with stage := if announcer.restricted then .catalog else .encoding .null }
  | .catalog, .replied reply =>
    let json := ticketRequest announcer.loads reply
    some { activity with stage := looked json, events := activity.events ++ [.catalog json] }
  | .encoding key, .clock now => some { activity with stage := announcer.encoded key now }
  | .legacy raw, .clock now =>
    some { activity with stage := .sending [.signed raw, announcer.legacyPayload now] }
  | .sending [], .proceed => some { activity with stage := .returned true }
  | .sending (_ :: _), .raised => some { activity with stage := .returned false }
  | .sending (payload :: rest), .proceed =>
    some { activity with stage := .sent rest, events := activity.events ++ [.emitted payload] }
  | .sent _, .raised => some { activity with stage := .returned false }
  | .sent rest, .proceed => some { activity with stage := .sending rest }
  | _, _ => none

end Announcer

/-! ### The process -/

def announceInterval : ℕ := 120

def retryMin : ℕ := 5

def retryMax : ℕ := 60

/-- The loop of refreshes, with the delay before the next retry. -/
inductive Loop
  | waiting (delay retryDelay : ℕ)
  | running (activity retryDelay : ℕ)
deriving DecidableEq

/-- The process: its loop and all activities that were begun. -/
structure World where
  activities : List Activity
  loop : Loop
  stopped : Bool
  /-- In milliseconds. -/
  lastQueryResponseAt : ℤ

def World.initial : World := ⟨[], .waiting 0 retryMin, false, 0⟩

/-- What the loop does when a refresh has returned or raised. -/
def Loop.settle (ok : Bool) (retryDelay : ℕ) : Loop :=
  if ok then .waiting announceInterval retryMin
  else .waiting retryDelay (min (retryDelay * 2) retryMax)

/-- `answer_query`: at most one response a second is begun. -/
def World.answerQuery (world : World) (now : ℤ) : World :=
  if now - world.lastQueryResponseAt < 1000 then world
  else { world with
    lastQueryResponseAt := now
    activities := world.activities ++ [Activity.start .response] }

/-- The loop begins a refresh or takes its result, a query comes in, an activity goes on, or the
process is told to stop. -/
inductive Step (announcer : Announcer) : World → World → Prop
  | refresh (world : World) (delay retryDelay : ℕ) (hloop : world.loop = .waiting delay retryDelay)
      (hstopped : world.stopped = false) :
      Step announcer world
        { world with
          activities := world.activities ++ [Activity.start .refresh]
          loop := .running world.activities.length retryDelay }
  | settle (world : World) (i retryDelay : ℕ) (activity : Activity) (ok : Bool)
      (hloop : world.loop = .running i retryDelay)
      (hactivity : world.activities[i]? = some activity) (hstage : activity.stage = .returned ok) :
      Step announcer world { world with loop := Loop.settle ok retryDelay }
  | query (world : World) (now : ℤ) : Step announcer world (world.answerQuery now)
  | move (world : World) (i : ℕ) (activity activity' : Activity) (outcome : Outcome)
      (hactivity : world.activities[i]? = some activity)
      (hnext : announcer.next activity outcome = some activity') :
      Step announcer world { world with activities := world.activities.set i activity' }
  | stop (world : World) : Step announcer world { world with stopped := true }

/-! ### The activities of a restricted relay -/

section Restricted

variable {announcer : Announcer} {activity activity' : Activity} {outcome : Outcome}

/-- An announcement that was encoded with the key of a reply. -/
def Announcer.Writes (announcer : Announcer) (json : Json) (raw : Bytes) : Prop :=
  ∃ key ticketKey now, json.keyId = some key ∧ key.ticketKey = some ticketKey ∧
    announcer.encodeAt now ticketKey = .ok raw

/-- What an activity of a restricted relay has asked and sent, by where it stands. -/
inductive Announcer.Restricted (announcer : Announcer) : Stage → List Event → Prop
  | entry : Restricted announcer .entry []
  | catalog : Restricted announcer .catalog []
  | encoding (json : Json) (key : Member) (hkey : json.keyId = some key) :
      Restricted announcer (.encoding key) [.catalog (some json)]
  | sending (json : Json) (raw : Bytes) (hraw : announcer.Writes json raw) :
      Restricted announcer (.sending [.signed raw]) [.catalog (some json)]
  | sent (json : Json) (raw : Bytes) (hraw : announcer.Writes json raw) :
      Restricted announcer (.sent []) [.catalog (some json), .emitted (.signed raw)]
  | finished (json : Json) (raw : Bytes) (hraw : announcer.Writes json raw) :
      Restricted announcer (.sending []) [.catalog (some json), .emitted (.signed raw)]
  | untouched (ok : Bool) : Restricted announcer (.returned ok) []
  | silent (reply : Option Json) (ok : Bool) : Restricted announcer (.returned ok) [.catalog reply]
  | emitted (json : Json) (raw : Bytes) (ok : Bool) (hraw : announcer.Writes json raw) :
      Restricted announcer (.returned ok) [.catalog (some json), .emitted (.signed raw)]

theorem Announcer.restricted_encoded (hmode : announcer.args.accessMode = groupsMode) {json : Json}
    {key : Member} (hkey : json.keyId = some key) (now : ℤ) :
    announcer.Restricted (announcer.encoded key now) [.catalog (some json)] := by
  unfold Announcer.encoded
  split
  · exact .silent _ _
  · next ticketKey hticketKey =>
    split
    · exact .silent _ _
    · next raw hraw =>
      rw [if_neg (by rw [hmode]; exact publicMode_ne_groupsMode.symm)]
      exact .sending _ _ ⟨key, ticketKey, now, hkey, hticketKey, hraw⟩

theorem Announcer.restricted_looked (reply : Option Json) :
    announcer.Restricted (looked reply) [.catalog reply] := by
  unfold looked
  cases reply with
  | none => exact .silent _ _
  | some json =>
    cases hkey : json.keyId with
    | none => simpa [hkey] using .silent _ _
    | some key => simpa [hkey] using .encoding json key hkey

/-- Every step of an activity keeps what its stage says about it. -/
theorem Announcer.Restricted.next (hmode : announcer.args.accessMode = groupsMode)
    (h : announcer.Restricted activity.stage activity.events)
    (hnext : announcer.next activity outcome = some activity') :
    announcer.Restricted activity'.stage activity'.events := by
  obtain ⟨kind, stage, events⟩ := activity
  have hrestricted : announcer.restricted = true := decide_eq_true hmode
  simp only at h
  cases h with
  | entry =>
    cases outcome <;> simp only [Announcer.next, Option.some.injEq, reduceCtorEq] at hnext
    · obtain rfl := hnext
      exact .untouched _
    · obtain rfl := hnext
      simpa [hrestricted] using .catalog
    · obtain rfl := hnext
      exact .untouched _
  | catalog =>
    cases outcome <;> simp only [Announcer.next, Option.some.injEq, reduceCtorEq] at hnext
    obtain rfl := hnext
    exact restricted_looked _
  | encoding json key hkey =>
    cases outcome <;> simp only [Announcer.next, Option.some.injEq, reduceCtorEq] at hnext
    obtain rfl := hnext
    exact restricted_encoded hmode hkey _
  | sending json raw hraw =>
    cases outcome <;> simp only [Announcer.next, Option.some.injEq, reduceCtorEq] at hnext
    · obtain rfl := hnext
      exact .sent json raw hraw
    · obtain rfl := hnext
      exact .silent _ _
  | sent json raw hraw =>
    cases outcome <;> simp only [Announcer.next, Option.some.injEq, reduceCtorEq] at hnext
    · obtain rfl := hnext
      exact .finished json raw hraw
    · obtain rfl := hnext
      exact .emitted json raw _ hraw
  | finished json raw hraw =>
    cases outcome <;> simp only [Announcer.next, Option.some.injEq, reduceCtorEq] at hnext
    obtain rfl := hnext
    exact .emitted json raw _ hraw
  | untouched ok => cases outcome <;> simp [Announcer.next] at hnext
  | silent reply ok => cases outcome <;> simp [Announcer.next] at hnext
  | emitted json raw ok hraw => cases outcome <;> simp [Announcer.next] at hnext

/-- Every step of the process keeps it for all activities. -/
theorem Step.restricted (hmode : announcer.args.accessMode = groupsMode) {world world' : World}
    (h : ∀ activity ∈ world.activities, announcer.Restricted activity.stage activity.events)
    (hstep : Step announcer world world') :
    ∀ activity ∈ world'.activities, announcer.Restricted activity.stage activity.events := by
  have hstart : ∀ kind, ∀ activity ∈ world.activities ++ [Activity.start kind],
      announcer.Restricted activity.stage activity.events := by
    intro kind activity hactivity
    rcases List.mem_append.mp hactivity with hold | hnew
    · exact h activity hold
    · obtain rfl := List.mem_singleton.mp hnew
      exact .entry
  cases hstep with
  | refresh delay retryDelay hloop hstopped => exact hstart _
  | settle i retryDelay activity ok hloop hactivity hstage => exact h
  | query now =>
    unfold World.answerQuery
    split_ifs
    · exact h
    · exact hstart _
  | move i activity activity' outcome hactivity hnext =>
    exact forall_mem_set h ((h activity (List.mem_of_getElem? hactivity)).next hmode hnext)
  | stop => exact h

theorem restricted_of_run (hmode : announcer.args.accessMode = groupsMode)
    {guard : World → World → Prop} {world : World}
    (hrun : Run (Step announcer) guard World.initial world) :
    ∀ activity ∈ world.activities, announcer.Restricted activity.stage activity.events :=
  Run.invariant (fun world ↦ ∀ activity ∈ world.activities,
    announcer.Restricted activity.stage activity.events)
    (fun _ _ h hstep _ ↦ hstep.restricted hmode h) hrun
    fun activity hactivity ↦ absurd hactivity (by simp [World.initial])

theorem eq_last_of_pair {α : Type} {a b x : α} {before after : List α}
    (h : [a, b] = before ++ x :: after) (hne : a ≠ x) : before = [a] ∧ x = b := by
  cases before with
  | nil =>
    rw [List.nil_append, List.cons.injEq] at h
    exact absurd h.1 hne
  | cons c rest =>
    cases rest with
    | nil =>
      simp only [List.cons_append, List.nil_append, List.cons.injEq] at h
      exact ⟨by rw [h.1], h.2.1.symm⟩
    | cons d rest => simp at h

/-- What has been emitted was written with the key of the reply before it. -/
theorem Announcer.Restricted.writes {stage : Stage} {events : List Event}
    (h : announcer.Restricted stage events) {payload : Payload}
    (hpayload : Event.emitted payload ∈ events) :
    ∃ json raw, payload = .signed raw ∧
      events = [.catalog (some json), .emitted (.signed raw)] ∧ announcer.Writes json raw := by
  cases h with
  | entry => cases hpayload
  | catalog => cases hpayload
  | encoding json key hkey => simp at hpayload
  | sending json raw hraw => simp at hpayload
  | sent json raw hraw => exact ⟨json, raw, by simpa using hpayload, rfl, hraw⟩
  | finished json raw hraw => exact ⟨json, raw, by simpa using hpayload, rfl, hraw⟩
  | untouched ok => cases hpayload
  | silent reply ok => simp at hpayload
  | emitted json raw ok hraw => exact ⟨json, raw, by simpa using hpayload, rfl, hraw⟩

/-- No reply of the authority carries a null key. -/
def KeysGiven (_ world : World) : Prop :=
  ∀ activity ∈ world.activities, ∀ json, Event.catalog (some json) ∈ activity.events →
    json.keyId ≠ some .null

theorem keysGiven_of_run {world : World}
    (hrun : Run (Step announcer) KeysGiven World.initial world) :
    ∀ activity ∈ world.activities, ∀ json, Event.catalog (some json) ∈ activity.events →
      json.keyId ≠ some .null :=
  Run.invariant (fun world ↦ KeysGiven world world) (fun _ _ _ _ hguard ↦ hguard) hrun
    fun activity hactivity ↦ absurd hactivity (by simp [World.initial])

/-- Assumes: a restricted relay with signatures that the library verifies, and a run in which no
reply of the authority carries a null key. -/
theorem restricted_announcements {verify : Bytes → Bytes → Bytes → Bool}
    (hmode : announcer.args.accessMode = groupsMode)
    (hverify : ∀ message,
      verify announcer.identity.signingKey (announcer.identity.sign message) message = true)
    {world : World} (hrun : Run (Step announcer) KeysGiven World.initial world) :
    ∀ activity ∈ world.activities,
      (∀ before payload after, activity.events = before ++ .emitted payload :: after →
        ∃ raw json keyId bytes now, payload = .signed raw ∧ Event.catalog (some json) ∈ before ∧
          json.keyId = some (.text keyId) ∧ hexDecode keyId = some bytes ∧
          ∀ first second, first < now + leaseSeconds → now + leaseSeconds ≤ second + 3600 →
            ∃ result, decode announcer.ip verify first second raw = .ok result ∧
              result.v = 3 ∧ result.x = now + leaseSeconds ∧ result.accessMode = groupsMode ∧
              result.allowedGroupIds = sorted announcer.args.allowedGroupIds ∧
              result.ticketKeyId = some (hexEncode bytes)) ∧
      (∀ reply, Event.catalog reply ∈ activity.events → reply.bind Json.keyId = none →
        ∀ payload, Event.emitted payload ∉ activity.events) := by
  intro activity hactivity
  have hrestricted := restricted_of_run hmode hrun activity hactivity
  constructor
  · intro before payload after hevents
    have hpayload : Event.emitted payload ∈ activity.events := by simp [hevents]
    obtain ⟨json, raw, rfl, hpair, key, ticketKey, now, hkey, hticketKey, hraw⟩ :=
      hrestricted.writes hpayload
    obtain ⟨hbefore, -⟩ := eq_last_of_pair (hpair.symm.trans hevents) (by simp)
    have hgiven := keysGiven_of_run hrun activity hactivity json (by simp [hpair])
    cases key with
    | null => exact absurd hkey hgiven
    | other => simp [Member.ticketKey] at hticketKey
    | text keyId =>
      obtain rfl : some keyId = ticketKey := by simpa [Member.ticketKey] using hticketKey
      obtain ⟨⟨ad, had, -⟩, -⟩ := encode_eq_ok_iff.mp hraw
      obtain ⟨bytes, -, hbytes, -⟩ := had.keys
      obtain ⟨address, scope, -, hdecode⟩ := exists_decode_of_encode hverify hraw
      refine ⟨raw, json, keyId, bytes, now, rfl, by simp [hbefore], hkey, hbytes, ?_⟩
      intro first second hfirst hsecond
      refine ⟨_, hdecode first second hfirst hsecond, rfl, rfl, hmode, rfl, ?_⟩
      exact congrArg some (hexEncode_of_hexDecode hbytes).symm
  · intro reply hreply hfailed payload hpayload
    obtain ⟨json, raw, -, hpair, key, -, -, hkey, -⟩ := hrestricted.writes hpayload
    rw [hpair] at hreply
    obtain rfl : reply = some json := by simpa using hreply
    simp [hkey] at hfailed

end Restricted

def sampleJson (key : Member) : Json :=
  .object fun name ↦ if name = keyIdMember then some key else none

/-- The body of a catalog with a key in quotes, without the key. -/
def bodyLead : Bytes := utf8 "\x7b\"keyId\": \"".toList

def bodyTail : Bytes := utf8 "\"\x7d".toList

def nullBody : Bytes := utf8 "\x7b\"keyId\": null\x7d".toList

/-- A reader of catalogs with one member. -/
def sampleLoads (body : Bytes) : Option Json :=
  let key := (body.drop bodyLead.length).take (body.length - bodyLead.length - bodyTail.length)
  if body = nullBody then some (sampleJson .null)
  else if body = bodyLead ++ key ++ bodyTail then some (sampleJson (.text (key.map charOf)))
  else none

/-- A restricted relay. -/
def sampleAnnouncer : Announcer where
  ip := sampleLibrary
  identity := sampleIdentity
  loads := sampleLoads
  args := announcerArgs sampleCommandLine false (samplePrepared sampleAddr sampleName)

def sampleWorld (stage : Stage) (events : List Event) : World :=
  ⟨[⟨.refresh, stage, events⟩], .running 0 retryMin, false, 0⟩

/-- The reply of an authority, of at most 8192 bytes. -/
theorem next_replied {key : Member} {body : Bytes} (hlength : body.length ≤ 8192)
    (hloads : sampleLoads body = some (sampleJson key)) :
    sampleAnnouncer.next ⟨.refresh, .catalog, []⟩ (.replied (.response 200 none body)) =
      some ⟨.refresh, .encoding key, [.catalog (some (sampleJson key))]⟩ := by
  have hjson : ticketRequest sampleAnnouncer.loads (.response 200 none body) =
      some (sampleJson key) := by
    rw [ticketRequest, List.take_of_length_le (by omega), if_neg (by omega), if_neg (by simp)]
    exact hloads
  simp only [Announcer.next, hjson]
  rfl

/-- The first refresh up to its announcement. -/
theorem sample_run {key : Member} {ticketKey : Option Text} (hkey : key.ticketKey = some ticketKey)
    {body raw : Bytes} (hlength : body.length ≤ 8192)
    (hloads : sampleLoads body = some (sampleJson key))
    (hraw : sampleAnnouncer.encodeAt 0 ticketKey = .ok raw) {guard : World → World → Prop}
    (hguard : ∀ world stage events, (∀ json, Event.catalog (some json) ∈ events →
      json = sampleJson key) → guard world (sampleWorld stage events)) :
    Run (Step sampleAnnouncer) guard World.initial
      (sampleWorld (.sent []) [.catalog (some (sampleJson key)), .emitted (.signed raw)]) := by
  have hmove : ∀ {stage events} stage' events' outcome,
      Run (Step sampleAnnouncer) guard World.initial (sampleWorld stage events) →
      sampleAnnouncer.next ⟨.refresh, stage, events⟩ outcome =
        some ⟨.refresh, stage', events'⟩ →
      (∀ json, Event.catalog (some json) ∈ events' → json = sampleJson key) →
      Run (Step sampleAnnouncer) guard World.initial (sampleWorld stage' events') := by
    intro stage events stage' events' outcome hrun hnext hevents
    exact hrun.snoc (.move (sampleWorld stage events) 0 _ _ outcome rfl hnext)
      (hguard _ _ _ hevents)
  have hencoded : sampleAnnouncer.encoded key 0 = .sending [.signed raw] := by
    simp only [Announcer.encoded, hkey, hraw]
    rfl
  have hrefresh : Run (Step sampleAnnouncer) guard World.initial (sampleWorld .entry []) :=
    (Run.refl _).snoc (.refresh World.initial 0 retryMin rfl rfl) (hguard _ _ _ (by simp))
  have hcatalog := hmove .catalog [] .proceed hrefresh rfl (by simp)
  have hreplied := hmove (.encoding key) [.catalog (some (sampleJson key))]
    (.replied (.response 200 none body)) hcatalog (next_replied hlength hloads) (by simp)
  have hwritten := hmove (.sending [.signed raw]) [.catalog (some (sampleJson key))] (.clock 0)
    hreplied (by simp [Announcer.next, hencoded]) (by simp)
  exact hmove (.sent []) [.catalog (some (sampleJson key)), .emitted (.signed raw)] .proceed
    hwritten rfl (by simp)

/-- The hexadecimal text of a ticket key. -/
def sampleKeyId : Text := List.replicate 64 'c'

/-- A catalog with this key. -/
def sampleBody : Bytes := bodyLead ++ utf8 sampleKeyId ++ bodyTail

theorem sampleLoads_body : sampleLoads sampleBody = some (sampleJson (.text sampleKeyId)) := by
  have hkey : (sampleBody.drop bodyLead.length).take
      (sampleBody.length - bodyLead.length - bodyTail.length) = utf8 sampleKeyId := by
    decide +kernel
  have htext : (utf8 sampleKeyId).map charOf = sampleKeyId := by decide +kernel
  have hnull : sampleBody ≠ nullBody := by decide +kernel
  have hbody : sampleBody = bodyLead ++ utf8 sampleKeyId ++ bodyTail := rfl
  simp only [sampleLoads, hkey]
  rw [if_neg hnull, if_pos hbody, htext]

theorem restricted_announcements_sample :
    ∃ world raw now,
      Run (Step sampleAnnouncer) KeysGiven World.initial world ∧
      (∃ activity ∈ world.activities, Event.emitted (.signed raw) ∈ activity.events) ∧
      (decode sampleLibrary sampleVerify now now raw).map Decoded.v = .ok 3 := by
  obtain ⟨raw, hraw⟩ : ∃ raw, sampleAnnouncer.encodeAt 0 (some sampleKeyId) = .ok raw :=
    exists_ok_of_isOk (by decide +kernel)
  have hrun : Run (Step sampleAnnouncer) KeysGiven World.initial
      (sampleWorld (.sent []) [.catalog (some (sampleJson (.text sampleKeyId))),
        .emitted (.signed raw)]) := by
    refine sample_run rfl (by decide +kernel) sampleLoads_body hraw
      fun world stage events hevents activity hactivity json hjson ↦ ?_
    obtain rfl := List.mem_singleton.mp hactivity
    rw [hevents json hjson]
    simp [sampleJson, Json.keyId]
  obtain ⟨hemitted, -⟩ := restricted_announcements rfl sample_verified hrun _
    (List.mem_singleton.mpr rfl)
  obtain ⟨_, _, _, _, now, hpayload, -, -, -, hdecode⟩ := hemitted [_] _ [] rfl
  obtain rfl := Payload.signed.inj hpayload
  obtain ⟨result, hresult, hversion, -⟩ := hdecode now now (by unfold leaseSeconds; omega)
    (by unfold leaseSeconds; omega)
  refine ⟨_, raw, now, hrun, ⟨_, List.mem_singleton.mpr rfl, by simp⟩, ?_⟩
  rw [show decode sampleLibrary sampleVerify now now raw = .ok result from hresult]
  exact congrArg Except.ok hversion

/-- The authority replies with a null key, and a version 2 announcement goes out. -/
theorem null_key_announced :
    ∃ world raw, Run (Step sampleAnnouncer) (fun _ _ ↦ True) World.initial world ∧
      (∃ activity ∈ world.activities, Event.emitted (.signed raw) ∈ activity.events) ∧
      (decode sampleLibrary sampleVerify 0 0 raw).map
        (fun result ↦ (result.v, result.ticketKeyId)) =
        .ok (2, none) := by
  obtain ⟨raw, hraw⟩ : ∃ raw, sampleAnnouncer.encodeAt 0 none = .ok raw :=
    exists_ok_of_isOk (by decide +kernel)
  obtain ⟨address, scope, -, hdecode⟩ := exists_decode_of_encode sample_verified hraw
  have hloads : sampleLoads nullBody = some (sampleJson .null) := by
    rw [sampleLoads, if_pos (show nullBody = nullBody from rfl)]
  refine ⟨_, raw, sample_run rfl (by decide +kernel) hloads hraw fun _ _ _ _ ↦ trivial,
    ⟨_, List.mem_singleton.mpr rfl, ?_⟩, ?_⟩
  · simp
  · rw [show decode sampleLibrary sampleVerify 0 0 raw = .ok _ from
      hdecode 0 0 (by decide) (by decide)]
    rfl

end QortalRelay.Discovery
