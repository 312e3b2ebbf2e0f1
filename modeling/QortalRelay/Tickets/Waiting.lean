import QortalRelay.Tickets.Issuance
import QortalRelay.Tickets.KeyRing

/-!
# What the authority keeps in memory

A challenge waits in a table of at most 256, from the answer to its request until an issue request
names its nonce or a later request sweeps it out. The requests of other clients cannot push it out:
the sweep takes only what has expired, and a full table refuses the newcomer. So the proof of a
client is accepted in the minute of its challenge, whatever the others do (`challenge_honoured`).

Besides the challenges the authority keeps the keys of at most twelve hours, and at most eight
requests are at work (`authority_memory_bounded`).
-/

set_option autoImplicit false
set_option relaxedAutoImplicit false

namespace QortalRelay.Tickets

open Foundation.Encoding Foundation.Store Foundation.Trace Access

variable {crypto : Crypto} {codec : Codec} {policy : Policy}

/-! ### The table of challenges -/

theorem Inert.unchallenged {Key : Type} {next : Thread Key × List Event} (h : Inert next)
    (nonce : Text) : weight (challengedCount nonce) next.2 = 0 := by
  refine weight_eq_zero fun event hevent ↦ ?_
  have hinert := h.2 event hevent
  cases event <;> first | rfl | cases hinert

theorem unchallenged_resumeOk (now : Time) (start : ℕ) (descriptor : Descriptor)
    (key : crypto.Key) (caller : Caller) (nonce : Text) :
    weight (challengedCount nonce)
      (resumeOk crypto codec policy now start descriptor key caller).2 = 0 := by
  rcases resumeOk_cases crypto codec policy now start descriptor key caller with
    h | ⟨_, _, _, -, -, h⟩ | ⟨_, -, h⟩
  · exact h.unchallenged nonce
  · rw [h]
    rfl
  · rw [h]
    rfl

/-- The three moves that write to the table, and what they write. -/
theorem act_challenges_cases {now : Time} {i since : ℕ} {shared shared' : Shared crypto.Key}
    {thread : Thread crypto.Key} {next : Thread crypto.Key × List Event}
    (hact : Act crypto codec policy now i since shared thread shared' next) :
    (shared'.challenges = shared.challenges ∧ ∀ nonce, weight (challengedCount nonce) next.2 = 0) ∨
    (∃ bound nonce created key rest, thread = .sweeping bound nonce created (key :: rest) ∧
      ((shared.challenges.get key).any fun c ↦ now.after c.expires) = true ∧
      shared'.challenges = shared.challenges.deleteAll [key] ∧ next.2 = []) ∨
    (∃ bound nonce created, thread = .sweeping bound nonce created [] ∧
      shared.challenges.keyN < 256 ∧
      shared'.challenges = shared.challenges.put nonce (bound.challenge crypto created) ∧
      next = (.finished, [.challenged bound created
        (challengeAnswer crypto policy bound nonce created)])) ∨
    ∃ application, thread = .claiming application ∧
      shared'.challenges = shared.challenges.deleteAll [application.proof.nonce] ∧
      next = (.comparing application (shared.challenges.get application.proof.nonce), []) := by
  cases hact with
  | sweep bound nonce created key rest =>
    split_ifs with hexpired
    · exact Or.inr (Or.inl ⟨bound, nonce, created, key, rest, rfl, hexpired, rfl, rfl⟩)
    · exact Or.inl ⟨rfl, fun _ ↦ rfl⟩
  | insert bound nonce created hroom =>
    exact Or.inr (Or.inr (Or.inl ⟨bound, nonce, created, rfl, hroom, rfl, rfl⟩))
  | claim application hmu => exact Or.inr (Or.inr (Or.inr ⟨application, rfl, rfl, rfl⟩))
  | enterRefused | updateRefused | lookupRefused | describeFailed =>
    exact Or.inl ⟨rfl, (inert_resumeError _).unchallenged⟩
  | drawFailed | crowdedOut | chargeRefused =>
    exact Or.inl ⟨rfl, (inert_refuse _ _).unchallenged⟩
  | compare => exact Or.inl ⟨rfl, (inert_compare _ _ _ _ _).unchallenged⟩
  | asked => exact Or.inl ⟨rfl, (inert_weigh _ _).unchallenged⟩
  | rechecked application sent result hcheck =>
    refine Or.inl ⟨rfl, fun nonce ↦ ?_⟩
    have hjudge := (inert_judge application result : Inert (_ : Thread crypto.Key × _)).unchallenged
    simpa [challengedCount] using hjudge nonce
  | found | persisted =>
    refine Or.inl ⟨rfl, fun nonce ↦ ?_⟩
    simpa [challengedCount] using unchallenged_resumeOk _ _ _ _ _ nonce
  | ask application pc pc' members hlookup =>
    exact Or.inl ⟨rfl, fun _ ↦ by cases pc' <;> rfl⟩
  | _ => exact Or.inl ⟨rfl, fun _ ↦ rfl⟩

/-- A step that no claim of the nonce, no second challenge with it and no restart makes. -/
structure Uninterrupted (nonce : Text) (w w' : World crypto) : Prop where
  serving : w'.isServing
  unclaimed : ∀ (i : ℕ) (application : Application),
    w.threads[i]? = some (.claiming application) → application.proof.nonce = nonce →
      w'.threads[i]? = some (.claiming application)
  undrawn : weight (challengedCount nonce) w'.log = weight (challengedCount nonce) w.log

/-- The challenge waits under the nonce, or it has been swept out when its time was over. -/
def Waits (nonce : Text) (challenge : Challenge) (w : World crypto) : Prop :=
  w.shared.challenges.get nonce = some challenge ∨
    w.shared.challenges.get nonce = none ∧ challenge.expires.mono < w.clock.mono

section Waiting

variable {nonce : Text} {challenge : Challenge} {w w' : World crypto}

theorem not_isServing_restarted (w : World crypto) (policy : Policy) :
    ¬(w.restarted policy).isServing := by
  simp [World.isServing, World.restarted]

/-- What is under the nonce stays there, unless it is swept out, and then it has expired. -/
theorem get_moved {i : ℕ} {thread : Thread crypto.Key} {shared : Shared crypto.Key}
    {next : Thread crypto.Key × List Event} (hthread : w.threads[i]? = some thread)
    (hact : Act crypto codec w.policy w.clock i w.log.length w.shared thread shared next)
    (hguard : Uninterrupted nonce w (w.moved i shared next)) :
    shared.challenges.get nonce = w.shared.challenges.get nonce ∨
      shared.challenges.get nonce = none ∧
        ∃ found, w.shared.challenges.get nonce = some found ∧
          found.expires.mono < w.clock.mono := by
  rcases act_challenges_cases hact with ⟨hsame, -⟩ | ⟨_, _, _, key, _, -, hexpired, hdelete, -⟩ |
    ⟨bound, other, created, -, -, hput, rfl⟩ | ⟨application, rfl, hdelete, rfl⟩
  · exact Or.inl (by rw [hsame])
  · rw [hdelete, Bucket.get_deleteAll]
    split_ifs with hkey
    · obtain rfl := List.mem_singleton.mp hkey
      cases hfound : w.shared.challenges.get nonce with
      | none => simp [hfound] at hexpired
      | some found =>
        rw [hfound] at hexpired
        exact Or.inr ⟨rfl, found, rfl, of_decide_eq_true hexpired⟩
    · exact Or.inl rfl
  · have hother : nonce ≠ other := by
      rintro rfl
      have hundrawn := hguard.undrawn
      simp [World.moved, challengedCount, challengeAnswer] at hundrawn
    exact Or.inl (by rw [hput, Bucket.get_put_of_ne _ hother])
  · have hother : application.proof.nonce ≠ nonce := by
      intro hclaimed
      have hstill := hguard.unclaimed i application hthread hclaimed
      rw [World.moved, List.getElem?_set_self (List.getElem?_eq_some_iff.mp hthread).1] at hstill
      cases hstill
    exact Or.inl (by rw [hdelete, Bucket.get_deleteAll, if_neg (by simpa using hother.symm)])

theorem Step.waits (hstep : Step codec w w') (hguard : Uninterrupted nonce w w')
    (h : Waits nonce challenge w) : Waits nonce challenge w' := by
  cases hstep with
  | tick reading hmono hsane => exact h.imp id fun hover ↦ ⟨hover.1, hover.2.trans_le hmono⟩
  | restart policy => exact absurd hguard.serving (not_isServing_restarted w policy)
  | request | crowded | redeem => exact h
  | act i thread shared next hthread hact =>
    rcases get_moved hthread hact hguard with hsame | ⟨hnone, found, hfound, hexpired⟩
    · exact h.imp hsame.trans fun hover ↦ ⟨hsame.trans hover.1, hover.2⟩
    · rcases h with hget | ⟨hget, -⟩
      · obtain rfl := Option.some.inj (hfound.symm.trans hget)
        exact Or.inr ⟨hnone, hexpired⟩
      · cases hfound.symm.trans hget

theorem Step.policy_eq (hstep : Step codec w w') (hserving : w'.isServing) :
    w'.policy = w.policy := by
  cases hstep with
  | restart policy => exact absurd hserving (not_isServing_restarted w policy)
  | _ => rfl

theorem waits_of_run (hrun : Run (Step codec) (Uninterrupted nonce) w w')
    (h : Waits nonce challenge w) : Waits nonce challenge w' ∧ w'.policy = w.policy :=
  hrun.invariant (fun s ↦ Waits nonce challenge s ∧ s.policy = w.policy)
    (fun _ _ hs hstep hguard ↦
      ⟨hstep.waits hguard hs.1, (hstep.policy_eq hguard.serving).trans hs.2⟩)
    ⟨h, rfl⟩

/-- The step that answers a challenge request puts the challenge into the table. -/
theorem Step.challenged (hstep : Step codec w w') {bound : Bound} {created : Time}
    {answer : ChallengeAnswer} (hlog : w'.log = w.log ++ [.challenged bound created answer]) :
    w'.shared.challenges.get answer.nonce = some (bound.challenge crypto created) ∧
      answer = challengeAnswer crypto w'.policy bound answer.nonce created := by
  have hquiet : w'.log ≠ w.log := by simp [hlog]
  cases hstep with
  | tick | restart | request | redeem => exact absurd rfl hquiet
  | crowded => simp at hlog
  | act i thread shared next hthread hact =>
    have hnext : next.2 = [.challenged bound created answer] := List.append_cancel_left hlog
    rcases act_challenges_cases hact with ⟨-, hnone⟩ | ⟨_, _, _, _, _, -, -, -, hnone⟩ |
      ⟨bound', nonce, created', -, -, hput, rfl⟩ | ⟨_, -, -, rfl⟩
    · have hcount := hnone answer.nonce
      simp [hnext, challengedCount] at hcount
    · rw [hnone] at hnext
      cases hnext
    · simp only [List.cons.injEq, Event.challenged.injEq, and_true] at hnext
      obtain ⟨rfl, rfl, rfl⟩ := hnext
      exact ⟨by simp only [World.moved, hput, challengeAnswer, Bucket.get_put_self], rfl⟩
    · cases hnext

end Waiting

/-- A client that was given a challenge can use it for a minute, whatever the other clients do. In
every state that the authority comes to without a restart, without a second challenge under the
same nonce and without an issue request that has taken this one, the proof that repeats the answer
passes the challenge check at a reading of the clock if and only if the minute is not over.

Assumes: a step that answers a challenge request, from any state; a run of the other clients from
there; an issue request for the same key and the same blinded values whose proof repeats the answer;
a reading that is not before the end of the run. -/
theorem challenge_honoured {w₁ w₂ w₃ : World crypto} {bound : Bound} {created : Time}
    {answer : ChallengeAnswer} (hstep : Step codec w₁ w₂)
    (hlog : w₂.log = w₁.log ++ [.challenged bound created answer])
    (hothers : Run (Step codec) (Uninterrupted answer.nonce) w₂ w₃) (application : Application)
    (hanswer : application.proof.answer = answer)
    (hkey : application.bound.descriptor = bound.descriptor)
    (hblinded : application.bound.blinded = bound.blinded) (now : Time)
    (hnow : w₃.clock.mono ≤ now.mono) :
    challengeHolds crypto w₃.policy now application
      (w₃.shared.challenges.get application.proof.nonce) ↔
        now.mono ≤ created.mono + Time.minute := by
  obtain ⟨hget, hrepeats⟩ := hstep.challenged hlog
  obtain ⟨hwaits, hpolicy⟩ := waits_of_run hothers (Or.inl hget)
  have hnonce : application.proof.nonce = answer.nonce := congrArg ChallengeAnswer.nonce hanswer
  have hbinding : application.bound.binding crypto = bound.binding crypto := by
    rw [Bound.binding, Bound.binding, Bound.source, Bound.source, hkey, hblinded]
  rw [hrepeats, ← hpolicy] at hanswer
  simp only [RelayProof.answer, challengeAnswer, ChallengeAnswer.mk.injEq] at hanswer
  obtain ⟨htype, hpin, hrevision, hbound, -, hexpires⟩ := hanswer
  rw [hnonce, challengeHolds_iff]
  constructor
  · rintro ⟨challenge, hfound, hafter, -⟩
    rcases hwaits with hstill | ⟨hnone, -⟩
    · obtain rfl := Option.some.inj (hfound.symm.trans hstill)
      exact not_lt.mp (of_decide_eq_false hafter)
    · cases hfound.symm.trans hnone
  · intro hintime
    rcases hwaits with hstill | ⟨-, hover⟩
    · exact ⟨_, hstill, decide_eq_false (not_lt.mpr hintime), by rw [hkey]; rfl, hbinding.symm,
        htype, hpin, hrevision, hbound, hexpires⟩
    · exact absurd (hover.trans_le hnow) (not_lt.mpr hintime)

/-- An authority whose second thread is about to answer a challenge request. -/
def challengingWorld : World sampleCrypto :=
  ⟨⟨0, 0⟩, samplePolicy, .opened .fresh,
    [.serving, .sweeping sampleBound sampleProof.nonce ⟨0, 0⟩ []], []⟩

/-- The last moment of the minute. -/
theorem challenge_honoured_sample : ∃ w₂ w₃ : World sampleCrypto,
    Step sampleCodec challengingWorld w₂ ∧
      Run (Step sampleCodec) (Uninterrupted sampleProof.nonce) w₂ w₃ ∧
      w₃.clock = ⟨Time.minute, Time.minute⟩ ∧
      challengeHolds sampleCrypto w₃.policy w₃.clock sampleApplication
        (w₃.shared.challenges.get sampleProof.nonce) = true := by
  obtain ⟨w₂, hstep, hlog, hserving, hclock⟩ : ∃ w₂, Step sampleCodec challengingWorld w₂ ∧
      w₂.log = [.challenged sampleBound ⟨0, 0⟩ sampleProof.answer] ∧ w₂.isServing ∧
      w₂.clock = ⟨0, 0⟩ :=
    ⟨_, .act 1 _ _ _ rfl (.insert sampleBound sampleProof.nonce ⟨0, 0⟩ (by decide)), rfl, rfl, rfl⟩
  let late : Time := ⟨Time.minute, Time.minute⟩
  have htick : Step sampleCodec w₂ { w₂ with clock := late } :=
    .tick late (by rw [hclock]; decide) (by decide)
  have hothers : Run (Step sampleCodec) (Uninterrupted sampleProof.nonce) w₂
      { w₂ with clock := late } :=
    (Run.refl _).snoc htick ⟨hserving, fun _ _ hthread _ ↦ hthread, rfl⟩
  exact ⟨w₂, _, hstep, hothers, rfl,
    (challenge_honoured hstep hlog hothers sampleApplication rfl rfl rfl late le_rfl).mpr
      (by decide)⟩

/-! ### Slots and keys -/

/-- Only a request that has got a slot goes on to where one is held. -/
theorem act_holdsSlot {now : Time} {i since : ℕ} {shared shared' : Shared crypto.Key}
    {thread : Thread crypto.Key} {next : Thread crypto.Key × List Event}
    (hact : Act crypto codec policy now i since shared thread shared' next)
    (hnext : next.1.holdsSlot = true) : thread.holdsSlot = true := by
  cases hact with
  | enterRefused start epoch caller | updateRefused start epoch _ caller
  | lookupRefused start epoch _ caller | describeFailed start epoch caller
  | found start epoch _ caller | persisted start epoch _ caller =>
    cases caller with
    | opening | redeem => cases hnext
    | request | sign => rfl
  | enter start epoch caller | update start epoch _ caller | generate start epoch _ caller =>
    cases caller <;> exact hnext
  | opening | ticketRefused | ticketParsed | verifyRefused | verified | spend | spendRefused
  | readFirst | readSecond | collect => cases hnext
  | _ => rfl

/-- The keys in memory change when a descriptor call ends, and then those that are too old for the
recorded hour are dropped. -/
theorem act_keys_cases {now : Time} {i since : ℕ} {shared shared' : Shared crypto.Key}
    {thread : Thread crypto.Key} {next : Thread crypto.Key × List Event}
    (hshared : SharedOk crypto shared) (hok : ThreadOk crypto codec policy thread)
    (hsettled : Settled crypto policy shared thread)
    (hact : Act crypto codec policy now i since shared thread shared' next) :
    (shared'.keys = shared.keys ∧ shared.db.latestEpoch ≤ shared'.db.latestEpoch) ∨
      ∃ epoch key, epoch ≤ shared.db.latestEpoch ∧
        shared'.keys = rememberKey shared.keys epoch shared.db.latestEpoch key ∧
        shared'.db.latestEpoch = shared.db.latestEpoch := by
  cases hact with
  | update start epoch hour caller commit htx =>
    obtain ⟨-, hlt, -⟩ := hok
    refine Or.inl ⟨rfl, ?_⟩
    obtain ⟨hle, ⟨-, rfl⟩ | ⟨-, hdb, -⟩⟩ := descriptorTx_ok hshared.db htx
    · exact le_rfl
    · have hhour : HourRange hour := ⟨hshared.db.latest_nonneg.trans hle, hlt⟩
      simp only [hdb, latestEpoch_advance _ hhour, hle]
  | found start epoch hour caller key hkey =>
    obtain ⟨-, -, hle, -⟩ := hok
    obtain rfl : shared.db.latestEpoch = hour := hsettled
    exact Or.inr ⟨epoch, key, hle, rfl, rfl⟩
  | persisted start epoch hour caller key =>
    obtain ⟨-, -, rfl⟩ := hok
    obtain ⟨rfl, -⟩ := hsettled
    exact Or.inr ⟨_, key, le_rfl, rfl, rfl⟩
  | charge application checked db htx =>
    obtain ⟨-, rfl⟩ := quotaTx_ok htx
    exact Or.inl ⟨rfl, le_rfl⟩
  | spend start descriptor message commit htx =>
    obtain ⟨-, -, rfl⟩ := redeemTx_ok hshared.db htx
    exact Or.inl ⟨rfl, le_rfl⟩
  | _ => exact Or.inl ⟨rfl, le_rfl⟩

/-- What the authority holds at most. -/
structure Stocked (w : World crypto) : Prop where
  challenges : w.shared.challenges.keyN ≤ 256
  requests : w.threads.countP Thread.holdsSlot ≤ 8
  keys : ∃ hour ≤ w.shared.db.latestEpoch, ∀ epoch, (w.shared.keys epoch).isSome = true →
    hour - 12 < epoch ∧ epoch ≤ hour

section Stock

variable {w w' : World crypto}

theorem Stocked.act {i : ℕ} {thread : Thread crypto.Key} {shared : Shared crypto.Key}
    {next : Thread crypto.Key × List Event} (h : Stocked w) (hsound : Sound crypto codec w)
    (hring : Ring w) (hthread : w.threads[i]? = some thread)
    (hact : Act crypto codec w.policy w.clock i w.log.length w.shared thread shared next) :
    Stocked (w.moved i shared next) := by
  have hmem := List.mem_of_getElem? hthread
  refine ⟨?_, ?_, ?_⟩
  · have hold := h.challenges
    rcases act_challenges_cases hact with ⟨hsame, -⟩ | ⟨_, _, _, key, _, -, -, hdelete, -⟩ |
      ⟨bound, nonce, created, -, hroom, hput, -⟩ | ⟨application, -, hdelete, -⟩
    · simpa only [World.moved, hsame] using hold
    · simpa only [World.moved, hdelete] using (Bucket.keyN_deleteAll_le _ _).trans hold
    · have hle := Bucket.keyN_put_le w.shared.challenges nonce (bound.challenge crypto created)
      simp only [World.moved, hput]
      omega
    · simpa only [World.moved, hdelete] using (Bucket.keyN_deleteAll_le _ _).trans hold
  · have hset := weight_set
      (fun thread : Thread crypto.Key ↦ if thread.holdsSlot then 1 else 0) hthread next.1
    rw [weight_indicator, weight_indicator, ← List.countP_eq_length_filter,
      ← List.countP_eq_length_filter] at hset
    have hold := h.requests
    simp only [World.moved]
    by_cases hslot : next.1.holdsSlot = true
    · rw [if_pos hslot, if_pos (act_holdsSlot hact hslot)] at hset
      omega
    · rw [if_neg hslot] at hset
      omega
  · obtain ⟨hour, hle, hwindow⟩ := h.keys
    rcases act_keys_cases hsound.shared (hsound.threads thread hmem) (hring.threads thread hmem)
      hact with ⟨hsame, hlatest⟩ | ⟨epoch, key, hepoch, hkeys, hlatest⟩
    · exact ⟨hour, hle.trans hlatest, by simpa only [World.moved, hsame] using hwindow⟩
    · refine ⟨w.shared.db.latestEpoch, hlatest.ge, fun other hother ↦ ?_⟩
      simp only [World.moved, hkeys, rememberKey] at hother
      split_ifs at hother with hold hsame
      · cases hother
      · omega
      · have hin := hwindow other hother
        omega

theorem Step.stocked (hstep : Step codec w w') (hsound : Sound crypto codec w) (hring : Ring w)
    (h : Stocked w) : Stocked w' := by
  cases hstep with
  | tick | crowded => exact ⟨h.challenges, h.requests, h.keys⟩
  | restart policy =>
    refine ⟨Nat.zero_le _, by simp [World.restarted, Thread.holdsSlot], w.shared.db.latestEpoch,
      le_rfl, fun epoch hepoch ↦ ?_⟩
    cases hepoch
  | request request hserving hslot =>
    refine ⟨h.challenges, ?_, h.keys⟩
    simp only [World.called, List.countP_append, List.countP_singleton, Thread.holdsSlot, if_true]
    omega
  | redeem raw hserving =>
    refine ⟨h.challenges, ?_, h.keys⟩
    simpa [World.called, Thread.holdsSlot] using h.requests
  | act i thread shared next hthread hact => exact h.act hsound hring hthread hact

end Stock

/-- In every run of the authority, with any clock readings and any restarts, at most 256 challenges
wait, at most eight requests are at work, and the keys in memory are those of twelve hours that
follow each other.

Assumes: the first start of the authority. -/
theorem authority_memory_bounded {w w' : World crypto} (hinitial : Initial w)
    (hrun : Run (Step codec) (fun _ _ ↦ True) w w') :
    w'.shared.challenges.keyN ≤ 256 ∧ w'.threads.countP Thread.holdsSlot ≤ 8 ∧
      ∃ hour, ∀ epoch, (w'.shared.keys epoch).isSome = true →
        hour - 12 < epoch ∧ epoch ≤ hour := by
  have hstart : Stocked w := by
    refine ⟨?_, ?_, w.shared.db.latestEpoch, le_rfl, ?_⟩
    · rw [hinitial.shared]
      exact Nat.zero_le _
    · simp [hinitial.threads, Thread.holdsSlot]
    · rw [hinitial.shared]
      intro epoch hepoch
      cases hepoch
  have hstocked : (Sound crypto codec w' ∧ Ring w') ∧ Stocked w' :=
    hrun.invariant (fun s ↦ (Sound crypto codec s ∧ Ring s) ∧ Stocked s)
      (fun _ _ hs hstep _ ↦ ⟨⟨hstep.sound hs.1.1, hstep.ring hs.1.1 hs.1.2⟩,
        hstep.stocked hs.1.1 hs.1.2 hs.2⟩)
      ⟨⟨sound_of_initial hinitial, ring_of_initial hinitial⟩, hstart⟩
  obtain ⟨hour, -, hwindow⟩ := hstocked.2.keys
  exact ⟨hstocked.2.challenges, hstocked.2.requests, hour, hwindow⟩

theorem authority_memory_bounded_sample : ∃ w',
    Run (Step sampleCodec) (fun _ _ ↦ True) sampleWorld w' ∧
      Event.issued ⟨0, 0⟩ sampleApplication ⟨0, 0⟩ [[]] ∈ w'.log ∧
      w'.shared.challenges.keyN ≤ 256 := by
  obtain ⟨w, hrun, -, -, -, -, hlog⟩ := issue_sample (.refl _) (by decide) (.refl _) (by decide)
  have hfree := hrun.mono fun _ _ _ _ ↦ trivial
  exact ⟨w, hfree, by simp [hlog], (authority_memory_bounded initial_sampleWorld hfree).1⟩

end QortalRelay.Tickets
