import QortalRelay.Tickets.Calls
import QortalRelay.Tickets.Forward

/-!
# The issuance quota

An account is charged in one transaction, and the signatures are made later, under a key that a
second descriptor call fetches again. The charge is forgotten when the records of its hour are
pruned. Two laws hold side by side (`QuotaLaw`). While the key of the hour lives, the record covers
every signature returned and every request that was charged and not yet answered. And at all times,
the signatures returned together with the requests whose second descriptor call has seen the key
alive stay within the limit: such a request needs no record any more, and a request that has not got
so far when the key dies is refused.
-/

set_option autoImplicit false
set_option relaxedAutoImplicit false

namespace QortalRelay.Tickets

open Foundation.Decimal Foundation.Encoding Foundation.Store Foundation.Trace Access

/-! ### Counting signatures -/

section Counting

variable (epoch : ℤ) (address : Text)

/-- A request of the account under the key of the hour. -/
def isOfAccount (application : Application) : Bool :=
  decide (application.bound.descriptor.epoch = epoch) &&
    decide (application.proof.authorAddress = address)

/-- The blind signatures returned to the account under the key of the hour. -/
def signatureCount : Event → ℕ
  | .issued _ application _ signatures =>
    if isOfAccount epoch address application then signatures.length else 0
  | _ => 0

/-- The signatures that a charged request of the account still waits for. -/
def chargedCount {Key : Type} : Thread Key → ℕ
  | .describing _ _ (.sign application _) _ =>
    if isOfAccount epoch address application then application.bound.blinded.length else 0
  | _ => 0

/-- Those of them whose second descriptor call has seen the key alive. -/
def signingCount {Key : Type} : Thread Key → ℕ
  | .describing _ _ _ .enter => 0
  | thread => chargedCount epoch address thread

theorem signingCount_le {Key : Type} (thread : Thread Key) :
    signingCount epoch address thread ≤ chargedCount epoch address thread := by
  unfold signingCount
  split
  · exact Nat.zero_le _
  · exact le_rfl

variable {epoch address}

theorem Inert.unsigned {Key : Type} {next : Thread Key × List Event} (h : Inert next) :
    chargedCount epoch address next.1 = 0 ∧ weight (signatureCount epoch address) next.2 = 0 := by
  refine ⟨?_, weight_eq_zero fun event hevent ↦ ?_⟩
  · have hthread := h.1
    unfold Thread.isInert at hthread
    split at hthread <;> simp_all [chargedCount]
  · have hinert := h.2 event hevent
    unfold Event.isInert at hinert
    split at hinert <;> simp_all [signatureCount]

end Counting

/-! ### Moves -/

section Moves

variable {crypto : Crypto} {codec : Codec} {policy : Policy} {epoch : ℤ} {address : Text}

theorem length_signAll {key : crypto.Key} {blinded signatures : List Text}
    (h : signAll crypto codec key blinded = some signatures) :
    signatures.length = blinded.length := by
  unfold signAll at h
  induction blinded generalizing signatures with
  | nil =>
    obtain rfl : signatures = [] := by simpa using h.symm
    rfl
  | cons value rest ih =>
    simp only [List.mapM_cons, Option.bind_eq_bind, Option.bind_eq_some_iff, Option.pure_def,
      Option.some.injEq] at h
    obtain ⟨first, -, others, hothers, rfl⟩ := h
    simp [ih hothers]

/-- A descriptor call that returns gives at most the signatures its caller was charged for. -/
theorem signatures_resumeOk (now : Time) (start : ℕ) (hour epoch' : ℤ) (descriptor : Descriptor)
    (key : crypto.Key) (caller : Caller) (phase : Phase crypto.Key) :
    weight (signatureCount epoch address) (Prod.map id (.described start hour epoch' :: ·)
        (resumeOk crypto codec policy now start descriptor key caller)).2 +
      chargedCount epoch address (Prod.map id (.described start hour epoch' :: ·)
        (resumeOk crypto codec policy now start descriptor key caller)).1 ≤
      chargedCount epoch address (.describing start epoch' caller phase) := by
  rcases resumeOk_cases crypto codec policy now start descriptor key caller with
    hinert | ⟨application, checked, signatures, rfl, hsign, hnext⟩ | ⟨ticket, -, hnext⟩
  · simp [hinert.unsigned, signatureCount]
  · simp [hnext, signatureCount, chargedCount, length_signAll hsign]
  · simp [hnext, signatureCount, chargedCount]

/-- A move returns no more signatures than were charged for, unless it charges. -/
theorem act_signatures (epoch : ℤ) (address : Text) {now : Time} {i since : ℕ}
    {shared shared' : Shared crypto.Key} {thread : Thread crypto.Key}
    {next : Thread crypto.Key × List Event}
    (hact : Act crypto codec policy now i since shared thread shared' next) :
    weight (signatureCount epoch address) next.2 + chargedCount epoch address next.1 ≤
        chargedCount epoch address thread ∨
      ∃ application checked, thread = .charging application checked ∧
        quotaTx (quotaKey application.bound.descriptor.epoch
          (crypto.sha256 (utf8 application.proof.authorAddress)))
          application.bound.blinded.length shared.db = .ok shared'.db ∧
        next = (.describing since application.bound.descriptor.epoch (.sign application checked)
          .enter, []) := by
  cases hact with
  | charge application checked db htx => exact Or.inr ⟨application, checked, rfl, htx, rfl⟩
  | found => exact Or.inl (signatures_resumeOk _ _ _ _ _ _ _ _)
  | persisted => exact Or.inl (signatures_resumeOk _ _ _ _ _ _ _ _)
  | enter start epoch' caller | update start epoch' hour caller
  | generate start epoch' hour caller =>
    cases caller <;> simp [chargedCount, signatureCount]
  | enterRefused | updateRefused | lookupRefused | describeFailed =>
    simp [(inert_resumeError _).unsigned]
  | drawFailed | crowdedOut | chargeRefused => simp [(inert_refuse _ _).unsigned]
  | compare => simp [(inert_compare _ _ _ _ _).unsigned]
  | asked => simp [(inert_weigh _ _).unsigned]
  | rechecked application sent result hcheck =>
    simp [(inert_judge application result).unsigned, signatureCount]
  | ask application pc pc' members hlookup =>
    cases pc' <;> simp [lookupEvents, chargedCount, signatureCount]
  | _ => simp [chargedCount, signatureCount]

/-- Assumes: the key of the hour is dead. No request of it gets past the window check, so what the
requests beyond that check can still return only shrinks. -/
theorem act_signing (address : Text) {now : Time} {i since : ℕ}
    {shared shared' : Shared crypto.Key} {thread : Thread crypto.Key}
    {next : Thread crypto.Key × List Event} (hok : ThreadOk crypto codec policy thread)
    (hdead : epoch + 12 ≤ now.hour)
    (hact : Act crypto codec policy now i since shared thread shared' next) :
    weight (signatureCount epoch address) next.2 + signingCount epoch address next.1 ≤
      signingCount epoch address thread := by
  rcases act_signatures epoch address hact with hle | ⟨application, checked, rfl, -, rfl⟩
  · by_cases henter : ∃ start epoch' caller, thread = .describing start epoch' caller .enter
    · obtain ⟨start, epoch', caller, rfl⟩ := henter
      cases hact with
      | enterRefused =>
        obtain ⟨hcharged, hsigned⟩ : chargedCount epoch address
            (resumeError caller : Thread crypto.Key × List Event).1 = 0 ∧ _ :=
          (inert_resumeError caller).unsigned
        have := signingCount_le epoch address
          (resumeError caller : Thread crypto.Key × List Event).1
        omega
      | describeFailed _ _ _ _ hphase => exact absurd rfl hphase
      | enter hmu hwindow =>
        cases caller with
        | sign application checked =>
          have hepoch : epoch' = application.bound.descriptor.epoch := hok.1.2.2
          have hother : isOfAccount epoch address application = false := by
            simp only [isOfAccount, Bool.and_eq_false_iff, decide_eq_false_iff_not]
            left
            omega
          simp [signingCount, chargedCount, hother]
        | _ => simp [signingCount, chargedCount]
    · have hsame : signingCount epoch address thread = chargedCount epoch address thread := by
        unfold signingCount
        split
        · exact absurd ⟨_, _, _, rfl⟩ henter
        · rfl
      have := signingCount_le epoch address next.1
      omega
  · simp [signingCount]

/-- Assumes: the key of the hour lives. No move takes anything from the records of the hour. -/
theorem act_charged {now : Time} {i since : ℕ} {shared shared' : Shared crypto.Key}
    {thread : Thread crypto.Key} {next : Thread crypto.Key × List Event}
    (hwf : shared.db.WellFormed) (hok : ThreadOk crypto codec policy thread)
    (hpast : Timely now thread) (hepoch : HourRange epoch) (halive : now.hour < epoch + 12)
    (addressHash : Bytes)
    (hact : Act crypto codec policy now i since shared thread shared' next) :
    shared.db.charged (quotaKey epoch addressHash) ≤
      shared'.db.charged (quotaKey epoch addressHash) := by
  have hkept : ∀ hour ≤ now.hour, (prune recordEpoch (hour - 12) shared.db.quota).get
      (quotaKey epoch addressHash) = shared.db.quota.get (quotaKey epoch addressHash) := by
    intro hour hhour
    rw [quotaKey, get_prune_epochKey hepoch, if_neg (by omega)]
  rcases act_db_cases hact with ⟨hdb, -⟩ |
    ⟨start, epoch', hour, caller, commit, rfl, htx, hdb, -⟩ |
    ⟨start, epoch', hour, caller, key, rfl, hdb, -⟩ |
    ⟨application, checked, rfl, htx, -⟩ |
    ⟨start, descriptor, message, commit, rfl, htx, hdb, -⟩
  · rw [hdb]
  · obtain ⟨-, ⟨-, rfl⟩ | ⟨-, hadvance, -⟩⟩ := descriptorTx_ok hwf htx
    · rw [hdb]
    · rw [hdb, hadvance, Database.charged, Database.charged]
      exact (congrArg (fun text ↦ parseIntValue (text.getD [])) (hkept hour hpast)).ge
  · rw [hdb]
    exact le_rfl
  · by_cases hkey : quotaKey epoch addressHash = quotaKey application.bound.descriptor.epoch
        (crypto.sha256 (utf8 application.proof.authorAddress))
    · rw [hkey, hwf.charged_quotaTx hok.1.2.2 htx]
      omega
    · obtain ⟨-, hdb⟩ := quotaTx_ok htx
      rw [hdb, Database.charged, Database.charged, Bucket.get_put_of_ne _ hkey]
  · obtain ⟨-, -, rfl⟩ := redeemTx_ok hwf htx
    rw [hdb, Database.charged, Database.charged]
    exact (congrArg (fun text ↦ parseIntValue (text.getD [])) (hkept now.hour le_rfl)).ge

end Moves

/-! ### Runs -/

section Runs

variable {crypto : Crypto} {codec : Codec} {epoch : ℤ} {address : Text}

/-- The signatures for one account and one hour: never more than twenty-four, and while the key of
the hour lives never more than are recorded. -/
structure QuotaLaw (epoch : ℤ) (address : Text) (w : World crypto) : Prop where
  /-- While the key lives, the record covers what was returned and what is still waited for. -/
  recorded : w.clock.hour < epoch + 12 →
    (weight (signatureCount epoch address) w.log +
      weight (chargedCount epoch address) w.threads : ℤ)
      ≤ w.shared.db.charged (quotaKey epoch (crypto.sha256 (utf8 address)))
  limited : weight (signatureCount epoch address) w.log +
    weight (signingCount epoch address) w.threads ≤ 24

/-- A record that covers everything keeps the account within the limit. -/
theorem QuotaLaw.of_recorded {w : World crypto} (hwf : w.shared.db.WellFormed)
    (h : (weight (signatureCount epoch address) w.log +
      weight (chargedCount epoch address) w.threads : ℤ) ≤
        w.shared.db.charged (quotaKey epoch (crypto.sha256 (utf8 address)))) :
    QuotaLaw epoch address w := by
  refine ⟨fun _ ↦ h, ?_⟩
  have hlimit := (hwf.charged_range (quotaKey epoch (crypto.sha256 (utf8 address)))).2
  have hsigning : weight (signingCount epoch address) w.threads ≤
      weight (chargedCount epoch address) w.threads :=
    weight_mono fun thread _ ↦ signingCount_le epoch address thread
  omega

theorem QuotaLaw.moved {w : World crypto} (h : QuotaLaw epoch address w)
    (hsound : Sound crypto codec w) (htimely : AllTimely w) (hepoch : HourRange epoch) {i : ℕ}
    {thread : Thread crypto.Key} {shared : Shared crypto.Key}
    {next : Thread crypto.Key × List Event} (hthread : w.threads[i]? = some thread)
    (hact : Act crypto codec w.policy w.clock i w.log.length w.shared thread shared next) :
    QuotaLaw epoch address (w.moved i shared next) := by
  have hmem := List.mem_of_getElem? hthread
  have hok := hsound.threads thread hmem
  rcases lt_or_ge w.clock.hour (epoch + 12) with halive | hdead
  · have hsound' := (Step.act i thread shared next hthread hact).sound hsound
    refine QuotaLaw.of_recorded hsound'.shared.db ?_
    have hrecorded := h.recorded halive
    have hpool := weight_set (chargedCount epoch address) hthread next.1
    have hcharged := act_charged hsound.shared.db hok (htimely.threads thread hmem) hepoch halive
      (crypto.sha256 (utf8 address)) hact
    simp only [World.moved, weight_append]
    rcases act_signatures epoch address hact with hle | ⟨application, checked, rfl, htx, rfl⟩
    · omega
    · by_cases hsame : isOfAccount epoch address application
      · simp only [chargedCount, hsame, if_true] at hpool
        simp only [isOfAccount, Bool.and_eq_true, decide_eq_true_eq] at hsame
        rw [hsame.1, hsame.2] at htx
        rw [hsound.shared.db.charged_quotaTx hok.1.2.2 htx]
        simp only [weight_nil]
        omega
      · simp only [chargedCount, hsame, Bool.false_eq_true, if_false] at hpool
        simp only [weight_nil]
        omega
  · refine ⟨fun halive ↦ absurd halive (not_lt.mpr hdead), ?_⟩
    have hmove := act_signing address hok hdead hact
    have hpool := weight_set (signingCount epoch address) hthread next.1
    have hlimited := h.limited
    simp only [World.moved, weight_append]
    omega

theorem Step.quotaLaw {w w' : World crypto} (hstep : Step codec w w') (hforward : WallForward w w')
    (hsound : Sound crypto codec w) (htimely : AllTimely w) (hepoch : HourRange epoch)
    (h : QuotaLaw epoch address w) : QuotaLaw epoch address w' := by
  cases hstep with
  | tick reading hmono hsane =>
    exact ⟨fun halive ↦ h.recorded ((Time.hour_mono hforward).trans_lt halive), h.limited⟩
  | restart policy =>
    refine ⟨fun halive ↦ ?_, ?_⟩
    · have hrecorded := h.recorded halive
      simp only [World.restarted, weight_cons, weight_nil, chargedCount, Shared.opened]
      omega
    · have hlimited := h.limited
      simp only [World.restarted, weight_cons, weight_nil, signingCount, chargedCount]
      omega
  | request request hserving hslot =>
    exact ⟨by simpa [World.called, chargedCount] using h.recorded,
      by simpa [World.called, signingCount, chargedCount] using h.limited⟩
  | redeem raw hserving =>
    exact ⟨by simpa [World.called, chargedCount] using h.recorded,
      by simpa [World.called, signingCount, chargedCount] using h.limited⟩
  | crowded hserving hslot =>
    exact ⟨by simpa [signatureCount] using h.recorded, by simpa [signatureCount] using h.limited⟩
  | act i thread shared next hthread hact => exact h.moved hsound htimely hepoch hthread hact

theorem quotaLaw_of_run {guard : World crypto → World crypto → Prop}
    (hguard : ∀ w w', guard w w' → WallForward w w') {w w' : World crypto} (h : Initial w)
    (hrun : Run (Step codec) guard w w') (hepoch : HourRange epoch) (address : Text) :
    QuotaLaw epoch address w' := by
  have hstart : QuotaLaw epoch address w := by
    refine ⟨fun _ ↦ ?_, by simp [h.log, h.threads, signingCount, chargedCount]⟩
    have hwf : w.shared.db.WellFormed := by
      rw [h.shared]
      exact wellFormed_fresh
    have := (hwf.charged_range (quotaKey epoch (crypto.sha256 (utf8 address)))).1
    simpa [h.log, h.threads, chargedCount] using this
  refine (hrun.invariant
    (fun s ↦ (Sound crypto codec s ∧ AllTimely s) ∧ QuotaLaw epoch address s)
    (fun s t hs hstep hst ↦ ?_) ⟨timely_of_run hguard h (.refl w), hstart⟩).2
  have hforward := hguard s t hst
  exact ⟨⟨hstep.sound hs.1.1, hstep.timely hforward hs.1.1 hs.1.2⟩,
    hstep.quotaLaw hforward hs.1.1 hs.1.2 hepoch hs.2⟩

/-- The issuance quota. Assumes: a wall clock that never goes backwards. In every state that is
reached, at most 24 blind signatures have been returned to an account under the key of an hour. -/
theorem signatures_within_quota {w w' : World crypto} (hinitial : Initial w)
    (hrun : Run (Step codec) WallForward w w') (epoch : ℤ) (address : Text) :
    weight (signatureCount epoch address) w'.log ≤ 24 := by
  by_cases hepoch : HourRange epoch
  · have hlimited := (quotaLaw_of_run (fun _ _ h ↦ h) hinitial hrun hepoch address).limited
    omega
  · -- Signatures are returned only for hours of at most twelve digits.
    refine (weight_eq_zero fun event hevent ↦ ?_).trans_le (Nat.zero_le _)
    have hok := (sound_of_run hinitial hrun).log event hevent
    cases event with
    | issued sentAt application checked signatures =>
      obtain ⟨⟨policy, ⟨hrange, -⟩, -⟩, -⟩ := hok
      have hother : isOfAccount epoch address application = false := by
        simp only [isOfAccount, Bool.and_eq_false_iff, decide_eq_false_iff_not]
        exact Or.inl fun heq ↦ hepoch (heq ▸ hrange)
      simp [signatureCount, hother]
    | _ => rfl

/-- An account that was given one signature in the first hour. -/
theorem signatures_within_quota_sample :
    ∃ w', Run (Step sampleCodec) WallForward sampleWorld w' ∧
      weight (signatureCount 0 sampleProof.authorAddress) w'.log = 1 ∧
      weight (signatureCount 0 sampleProof.authorAddress) w'.log ≤ 24 := by
  obtain ⟨w, hrun, -, -, -, -, hlog⟩ := issue_sample (.refl _) (by decide) (.refl _) (by decide)
  have hforward := forward_run hrun
  refine ⟨w, hforward, ?_,
    signatures_within_quota initial_sampleWorld hforward 0 sampleProof.authorAddress⟩
  have hsample : isOfAccount 0 sampleProof.authorAddress sampleApplication = true := by
    simp only [isOfAccount, Bool.and_eq_true, decide_eq_true_eq]
    exact ⟨rfl, rfl⟩
  simp [hlog, signatureCount, hsample]

end Runs

end QortalRelay.Tickets
