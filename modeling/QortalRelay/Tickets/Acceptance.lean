import QortalRelay.Tickets.Forward
import QortalRelay.Tickets.KeyRing

/-!
# Tickets are not lost

A ticket that verifies under a key the authority has returned, presented within the life of the key
and not spent before, is accepted: while the wall clock does not go backwards and the store works,
no move of its redeem call is a refusal, and from every state it reaches the call can be brought to
its end (`unspent_ticket_accepted`). What other calls do in between does not matter: they can
neither remove the key before its time (`Kept`) nor leave a marker that is not theirs (`Accounted`),
and a call that holds the lock can always release it (`exists_release`).
-/

set_option autoImplicit false
set_option relaxedAutoImplicit false

namespace QortalRelay.Tickets

open Foundation.Decimal Foundation.Encoding Foundation.Store Foundation.Trace Access

/-! ### What holds under a forward clock -/

section Facts

variable {crypto : Crypto} {codec : Codec}

/-- Every marker in the database was left by a spend that the log tells of. -/
def Accounted (w : World crypto) : Prop :=
  ∀ name ∈ w.shared.db.spent.keys, ∃ marker, .spent marker ∈ w.log ∧
    name = spentKey marker.descriptor.epoch (ticketId crypto marker.message)

theorem Step.accounted {w w' : World crypto} (hstep : Step codec w w')
    (hsound : Sound crypto codec w) (h : Accounted w) : Accounted w' := by
  cases hstep with
  | tick | restart | request | redeem => exact h
  | crowded hserving hslot =>
    intro name hname
    obtain ⟨marker, hmarker, hkey⟩ := h name hname
    exact ⟨marker, List.mem_append_left _ hmarker, hkey⟩
  | act i thread shared next hthread hact =>
    have hgrown : ∀ name ∈ w.shared.db.spent.keys, ∃ marker, .spent marker ∈ w.log ++ next.2 ∧
        name = spentKey marker.descriptor.epoch (ticketId crypto marker.message) := by
      intro name hname
      obtain ⟨marker, hmarker, hkey⟩ := h name hname
      exact ⟨marker, List.mem_append_left _ hmarker, hkey⟩
    intro name hname
    simp only [World.moved] at hname ⊢
    rcases act_db_cases hact with ⟨hdb, -⟩ |
      ⟨start, epoch', hour, caller, commit, rfl, htx, hdb, rfl⟩ |
      ⟨start, epoch', hour, caller, key', rfl, hdb, -⟩ |
      ⟨application, checked, rfl, htx, rfl⟩ |
      ⟨start, descriptor, message, commit, rfl, htx, hdb, rfl⟩
    · rw [hdb] at hname
      exact hgrown name hname
    · rw [hdb] at hname
      obtain ⟨-, ⟨-, rfl⟩ | ⟨-, hcommit, -⟩⟩ := descriptorTx_ok hsound.shared.db htx
      · exact hgrown name hname
      · rw [hcommit] at hname
        exact hgrown name (mem_keys_of_mem_keys_prune hname)
    · rw [hdb] at hname
      exact hgrown name hname
    · obtain ⟨-, hdb⟩ := quotaTx_ok htx
      rw [hdb] at hname
      exact hgrown name hname
    · obtain ⟨-, -, rfl⟩ := redeemTx_ok hsound.shared.db htx
      rw [hdb] at hname
      rcases mem_keys_put hname with rfl | hname
      · exact ⟨⟨descriptor, message, w.clock, start⟩, by simp, rfl⟩
      · exact hgrown name (mem_keys_of_mem_keys_prune hname)

/-- The facts of a run under a forward wall clock. -/
structure Orderly (codec : Codec) (w : World crypto) : Prop where
  sound : Sound crypto codec w
  timely : AllTimely w
  recorded : RecordedPast w
  ring : Ring w
  accounted : Accounted w

theorem Step.orderly {w w' : World crypto} (hstep : Step codec w w') (hforward : WallForward w w')
    (h : Orderly codec w) : Orderly codec w' :=
  ⟨hstep.sound h.sound, hstep.timely hforward h.sound h.timely,
    hstep.recordedPast hforward h.sound h.timely h.recorded, hstep.ring h.sound h.ring,
    hstep.accounted h.sound h.accounted⟩

theorem orderly_of_run {w w' : World crypto} (h : Initial w)
    (hrun : Run (Step codec) WallForward w w') : Orderly codec w' := by
  have hnone : Accounted w := by
    rw [Accounted, h.shared]
    exact fun name hname ↦ absurd hname List.not_mem_nil
  have hrefl : Run (Step codec) WallForward w w := .refl w
  have hstart : Orderly codec w :=
    ⟨sound_of_initial h, (timely_of_run (fun _ _ hst ↦ hst) h hrefl).2,
      recordedPast_of_run (fun _ _ hst ↦ hst) h hrefl, ring_of_initial h, hnone⟩
  exact hrun.invariant (Orderly codec) (fun _ _ hs hstep hst ↦ hstep.orderly hst hs) hstart

end Facts

/-! ### Presented tickets -/

/-- A ticket as it is presented, the descriptor and the key it is for, and the message it spends. -/
structure Presented (crypto : Crypto) where
  raw : Bytes
  ticket : Ticket
  descriptor : Descriptor
  key : crypto.Key
  message : Bytes

namespace Presented

variable {crypto : Crypto} {codec : Codec} {p : Presented crypto} {w w' : World crypto}

/-- Strict JSON of at most 2048 bytes with the domain, the identifier of the key and 32 bytes, and a
signature of it under the key. -/
structure Valid (codec : Codec) (p : Presented crypto) : Prop where
  parse : parseTicket codec p.raw = some p.ticket
  epoch : p.ticket.epoch = p.descriptor.epoch
  keyId : p.ticket.keyId = p.descriptor.keyId
  decode : codec.base64Decode p.ticket.message = some p.message
  message : IsTicketMessage p.descriptor.keyId p.message
  signed : ∃ signature, codec.base64Decode p.ticket.signature = some signature ∧
    signature.length = 256 ∧ crypto.verify p.key p.message signature = true

/-- The authority has returned the descriptor with the key. -/
structure Backed (codec : Codec) (p : Presented crypto) (w : World crypto) : Prop where
  orderly : Orderly codec w
  kept : Kept w p.descriptor.epoch p.key
  descriptor : p.descriptor = descriptorFor crypto codec w.policy p.descriptor.epoch p.key
  begun : p.descriptor.epoch ≤ w.clock.hour

theorem Backed.step (hmarshal : ∀ key, crypto.marshalPrivateKey key ≠ []) (h : p.Backed codec w)
    (hstep : Step codec w w') (hforward : WallForward w w') (hpolicy : SamePolicy w w') :
    p.Backed codec w' := by
  refine ⟨hstep.orderly hforward h.orderly,
    hstep.kept hmarshal hpolicy h.orderly.sound h.orderly.ring h.kept, ?_,
    h.begun.trans (Time.hour_mono hforward)⟩
  rw [descriptorFor_eq hpolicy.1 hpolicy.2]
  exact h.descriptor

/-- A descriptor is returned in its hour or later. -/
theorem begun_of_returns {epoch : ℤ} {descriptor : Descriptor} {key : crypto.Key}
    (h : Returns codec epoch descriptor key w w') (hsound : Sound crypto codec w)
    (htimely : AllTimely w) : epoch ≤ w'.clock.hour := by
  obtain ⟨i, start, hour, caller, phase, shared, next, hthread, -, -, hchosen, -, rfl⟩ := h
  have hmem := List.mem_of_getElem? hthread
  have hok := (hsound.threads _ hmem).2
  have hpast := htimely.threads _ hmem
  cases phase with
  | enter | update => cases hchosen
  | lookup read => exact hok.2.1.trans hpast
  | persist read key => exact hok.2.le.trans hpast

theorem backed_of_returns (hmarshal : ∀ key, crypto.marshalPrivateKey key ≠ [])
    (h : Returns codec p.descriptor.epoch p.descriptor p.key w w') (horderly : Orderly codec w) :
    p.Backed codec w' := by
  obtain ⟨hdescriptor, hpolicy, -⟩ := h.spec hmarshal horderly.sound horderly.ring
  have hclock : w'.clock = w.clock := by
    obtain ⟨i, start, hour, caller, phase, shared, next, -, -, -, -, -, rfl⟩ := h
    rfl
  refine ⟨h.step.orderly (by rw [WallForward, hclock]) horderly,
    h.kept hmarshal horderly.sound horderly.ring, ?_,
    begun_of_returns h horderly.sound horderly.timely⟩
  rw [hpolicy]
  exact hdescriptor

/-! ### What the authority makes of the ticket -/

section Checks

variable (hbacked : p.Backed codec w) (hnow : w.clock.wall < lifeEnd p.descriptor.epoch)

include hbacked hnow

theorem Backed.hour_lt : w.clock.hour < p.descriptor.epoch + 12 := by
  have hepoch := hbacked.kept.range.1
  rw [← not_le, Time.le_hour_iff (by omega), not_le]
  exact hnow

omit hnow in
theorem Backed.latest_le : w.shared.db.latestEpoch ≤ w.clock.hour := by
  have hepoch := hbacked.kept.range.1
  have hbegun := hbacked.begun
  exact hbacked.orderly.recorded.trans (max_le (by omega) le_rfl)

theorem Backed.findKey (hmarshal : ∀ key, crypto.marshalPrivateKey key ≠ []) (hour : ℤ) :
    Tickets.findKey crypto w.policy w.shared p.descriptor.epoch hour = .ok (some p.key) := by
  have hrecent : w.shared.db.latestEpoch < p.descriptor.epoch + 12 :=
    hbacked.latest_le.trans_lt (hbacked.hour_lt hnow)
  exact hbacked.orderly.ring.keys.findKey_of_stored hmarshal (hbacked.kept.stored hrecent)
    hrecent hour

theorem Backed.verifyTicket (hvalid : p.Valid codec) :
    Tickets.verifyTicket crypto codec p.ticket p.descriptor p.key w.clock = some p.message := by
  obtain ⟨signature, hsignature, hlength, hverify⟩ := hvalid.signed
  refine verifyTicket_eq_some hvalid.keyId.symm ?_ hvalid.decode hsignature hvalid.message hlength
    hverify
  have hexpires := congrArg Descriptor.expiresAt hbacked.descriptor
  simp only [descriptorFor, ticketLifetime] at hexpires
  simp only [lifeEnd, Time.hourStart, Time.second] at hnow
  rw [hexpires, Time.unixMilli, Time.millisecond]
  omega

omit hnow in
/-- Assumes: no other message has the hash of the ticket's. The transaction on a ticket that was not
spent commits. -/
theorem Backed.redeemTx (hhash : ∀ other, crypto.sha256 other = crypto.sha256 p.message →
      other = p.message)
    (hroom : w.shared.db.spent.keyN < 100000)
    (hunspent : ∀ marker, .spent marker ∈ w.log → marker.message ≠ p.message) (hour : ℤ) :
    ∃ commit, Tickets.redeemTx hour
      (spentKey p.descriptor.epoch (ticketId crypto p.message)) w.shared.db = .ok commit := by
  have hsound := hbacked.orderly.sound
  have hnone : (prune recordEpoch (hour - 12) w.shared.db.spent).get
      (spentKey p.descriptor.epoch (ticketId crypto p.message)) = none := by
    by_contra hsome
    have hmem := mem_keys_of_mem_keys_prune (Bucket.mem_keys_iff_get_isSome.mpr
      (Option.isSome_iff_ne_none.mpr hsome))
    obtain ⟨marker, hmarker, hname⟩ := hbacked.orderly.accounted _ hmem
    obtain ⟨policy, hdescriptor, -⟩ := hsound.log _ hmarker
    have hid := (epochKey_injective hbacked.kept.range hdescriptor.1 hname).2
    exact hunspent marker hmarker (hhash marker.message (hexEncode_injective hid).symm)
  obtain ⟨deleted, htx⟩ := redeemTx_commits hsound.shared.db hnone hroom
  exact ⟨_, htx⟩

end Checks

/-! ### The course of a redeem call -/

/-- The marker of the ticket. -/
def IsMarker (p : Presented crypto) (marker : Marker) : Prop :=
  marker.descriptor = p.descriptor ∧ marker.message = p.message

/-- The states of a redeem call that has not been refused. -/
def OnCourse (p : Presented crypto) (w : World crypto) : Thread crypto.Key → Prop
  | .redeeming raw => raw = p.raw
  | .describing _ epoch (.redeem ticket) phase =>
    epoch = p.descriptor.epoch ∧ ticket = p.ticket ∧
      match phase with
      | .enter | .lookup _ => True
      | .update hour => w.shared.db.latestEpoch ≤ hour
      | .persist _ _ => False
  | .verifying _ ticket descriptor key =>
    ticket = p.ticket ∧ descriptor = p.descriptor ∧ key = p.key
  | .spending _ descriptor message => descriptor = p.descriptor ∧ message = p.message
  | .timing marker | .lasting marker _ => p.IsMarker marker
  | .returned (some (marker, grantedUntil)) =>
    p.IsMarker marker ∧ .redeemed marker grantedUntil ∈ w.log
  | .finished => ∃ marker grantedUntil, p.IsMarker marker ∧ .redeemed marker grantedUntil ∈ w.log
  | _ => False

/-- A redeem call whose ticket has not been spent yet. -/
def isPending {Key : Type} : Thread Key → Bool
  | .redeeming _ | .describing _ _ _ _ | .verifying _ _ _ _ | .spending _ _ _ => true
  | _ => false

/-- As long as the call has not spent the ticket, the key is alive, there is room for a marker, and
nobody else has spent the ticket. -/
def Acceptable (p : Presented crypto) (i : ℕ) (w : World crypto) : Prop :=
  ∀ thread, w.threads[i]? = some thread → isPending thread = true →
    w.clock.wall < lifeEnd p.descriptor.epoch ∧ w.shared.db.spent.keyN < 100000 ∧
      ∀ marker, .spent marker ∈ w.log → marker.message ≠ p.message

/-- A call that is refused in a step is refused by a transaction or a lookup on what it finds, not
because the store fails. -/
def StoreWorks (i : ℕ) (w w' : World crypto) : Prop :=
  w'.threads[i]? = some (.returned none) →
    (∀ start epoch caller hour,
      w.threads[i]? = some (.describing start epoch caller (.update hour)) →
        ∃ error, descriptorTx hour w.shared.db = .error error) ∧
    (∀ start epoch caller hour,
      w.threads[i]? = some (.describing start epoch caller (.lookup hour)) →
        Tickets.findKey crypto w.policy w.shared epoch hour = .error ()) ∧
    ∀ start descriptor message, w.threads[i]? = some (.spending start descriptor message) →
      ∃ error, Tickets.redeemTx w.clock.hour
        (spentKey descriptor.epoch (ticketId crypto message)) w.shared.db = .error error

/-- A step during a redeem call: the wall clock does not go backwards, the process is not restarted,
the store works, and the ticket is acceptable. -/
structure Undisturbed (p : Presented crypto) (i : ℕ) (w w' : World crypto) : Prop where
  forward : WallForward w w'
  running : i < w'.threads.length
  store : StoreWorks i w w'
  acceptable : p.Acceptable i w

/-- The process is not restarted while a second thread is there. -/
theorem samePolicy_of_running {i : ℕ} (hi : 0 < i) (hrunning : i < w'.threads.length)
    (hstep : Step codec w w') : SamePolicy w w' := by
  cases hstep with
  | restart policy =>
    simp only [World.restarted, List.length_singleton] at hrunning
    omega
  | tick | request | crowded | redeem | act => exact ⟨rfl, rfl⟩

/-- Assumes: the latest epoch stays as it is, unless the thread does not have the lock. -/
theorem OnCourse.mono {thread : Thread crypto.Key} (h : p.OnCourse w thread)
    (hlog : w.log ⊆ w'.log)
    (hlatest : thread.locks = true → w'.shared.db.latestEpoch = w.shared.db.latestEpoch) :
    p.OnCourse w' thread := by
  unfold OnCourse at h ⊢
  split at h
  · exact h
  · obtain ⟨hepoch, hticket, hphase⟩ := h
    refine ⟨hepoch, hticket, ?_⟩
    split at hphase
    · trivial
    · trivial
    · rwa [hlatest rfl]
    · exact hphase
  · exact h
  · exact h
  · exact h
  · exact h
  · exact ⟨h.1, hlog h.2⟩
  · obtain ⟨marker, grantedUntil, hmarker, hlogged⟩ := h
    exact ⟨marker, grantedUntil, hmarker, hlog hlogged⟩
  · exact h

/-- A descriptor call commits at an hour that is not before the recorded one. -/
theorem Backed.descriptorTx (hbacked : p.Backed codec w) {hour : ℤ}
    (hle : w.shared.db.latestEpoch ≤ hour) :
    ∃ commit, Tickets.descriptorTx hour w.shared.db = .ok commit := by
  rw [descriptorTx_eq hbacked.orderly.sound.shared.db, if_neg (not_lt.mpr hle)]
  split_ifs
  · exact ⟨_, rfl⟩
  · exact ⟨_, rfl⟩

section Course

variable (hmarshal : ∀ key, crypto.marshalPrivateKey key ≠ []) (hvalid : p.Valid codec)
  (hhash : ∀ other, crypto.sha256 other = crypto.sha256 p.message → other = p.message)

include hmarshal hvalid hhash

/-- No move of the call is a refusal. -/
theorem OnCourse.act (hbacked : p.Backed codec w) {i : ℕ} {thread : Thread crypto.Key}
    (hthread : w.threads[i]? = some thread) (h : p.OnCourse w thread)
    (hacceptable : p.Acceptable i w) {shared : Shared crypto.Key}
    {next : Thread crypto.Key × List Event}
    (hact : Act crypto codec w.policy w.clock i w.log.length w.shared thread shared next)
    (hstore : StoreWorks i w (w.moved i shared next)) :
    p.OnCourse (w.moved i shared next) next.1 := by
  have hnext : (w.moved i shared next).threads[i]? = some next.1 :=
    List.getElem?_set_self (List.getElem?_eq_some_iff.mp hthread).1
  have hpending : isPending thread = true → _ := hacceptable thread hthread
  cases hact with
  | ticketRefused raw hparse =>
    obtain rfl : raw = p.raw := h
    rw [hvalid.parse] at hparse
    cases hparse
  | ticketParsed raw ticket hparse =>
    obtain rfl : raw = p.raw := h
    rw [hvalid.parse, Option.some.injEq] at hparse
    subst hparse
    exact ⟨hvalid.epoch, rfl, trivial⟩
  | enterRefused start epoch caller hmu hwindow =>
    cases caller with
    | redeem ticket =>
      obtain ⟨rfl, rfl, -⟩ := h
      have hlate := hbacked.hour_lt (hpending rfl).1
      have hbegun := hbacked.begun
      omega
    | _ => exact h.elim
  | enter start epoch caller hmu hwindow =>
    cases caller with
    | redeem ticket => exact ⟨h.1, h.2.1, hbacked.latest_le⟩
    | _ => exact h.elim
  | updateRefused start epoch hour caller error htx =>
    cases caller with
    | redeem ticket =>
      obtain ⟨commit, hcommit⟩ := hbacked.descriptorTx h.2.2
      rw [hcommit] at htx
      cases htx
    | _ => exact h.elim
  | update start epoch hour caller commit htx =>
    cases caller with
    | redeem ticket => exact ⟨h.1, h.2.1, trivial⟩
    | _ => exact h.elim
  | lookupRefused start epoch hour caller hkey =>
    cases caller with
    | redeem ticket =>
      obtain ⟨rfl, -⟩ := h
      rw [hbacked.findKey (hpending rfl).1 hmarshal] at hkey
      cases hkey
    | _ => exact h.elim
  | generate start epoch hour caller key hkey =>
    cases caller with
    | redeem ticket =>
      obtain ⟨rfl, -⟩ := h
      rw [hbacked.findKey (hpending rfl).1 hmarshal] at hkey
      cases hkey
    | _ => exact h.elim
  | found start epoch hour caller key hkey =>
    cases caller with
    | redeem ticket =>
      obtain ⟨rfl, rfl, -⟩ := h
      rw [hbacked.findKey (hpending rfl).1 hmarshal, Except.ok.injEq, Option.some.injEq] at hkey
      subst hkey
      exact ⟨rfl, hbacked.descriptor.symm, rfl⟩
    | _ => exact h.elim
  | persisted start epoch hour caller key =>
    cases caller with
    | redeem ticket => exact h.2.2.elim
    | _ => exact h.elim
  | describeFailed start epoch caller phase hphase =>
    cases caller with
    | redeem ticket =>
      obtain ⟨rfl, rfl, hcourse⟩ := h
      obtain ⟨hupdate, hlookup, -⟩ := hstore hnext
      cases phase with
      | enter => exact absurd rfl hphase
      | update hour =>
        obtain ⟨error, htx⟩ := hupdate _ _ _ _ hthread
        obtain ⟨commit, hcommit⟩ := hbacked.descriptorTx hcourse
        rw [hcommit] at htx
        cases htx
      | lookup hour =>
        have hkey := hlookup _ _ _ _ hthread
        rw [hbacked.findKey (hpending rfl).1 hmarshal] at hkey
        cases hkey
      | persist hour key => exact hcourse.elim
    | _ => exact h.elim
  | verifyRefused start ticket descriptor key hverify =>
    obtain ⟨rfl, rfl, rfl⟩ := h
    rw [hbacked.verifyTicket (hpending rfl).1 hvalid] at hverify
    cases hverify
  | verified start ticket descriptor key message hverify =>
    obtain ⟨rfl, rfl, rfl⟩ := h
    rw [hbacked.verifyTicket (hpending rfl).1 hvalid, Option.some.injEq] at hverify
    exact ⟨rfl, hverify.symm⟩
  | spend start descriptor message commit htx => exact h
  | spendRefused start descriptor message =>
    obtain ⟨rfl, rfl⟩ := h
    obtain ⟨-, -, hspend⟩ := hstore hnext
    obtain ⟨error, htx⟩ := hspend _ _ _ hthread
    obtain ⟨-, hroom, hunspent⟩ := hpending rfl
    obtain ⟨commit, hcommit⟩ := hbacked.redeemTx hhash hroom hunspent w.clock.hour
    rw [hcommit] at htx
    cases htx
  | readFirst marker => exact h
  | readSecond marker first => exact ⟨h, by simp [World.moved]⟩
  | collect grant =>
    cases grant with
    | none => exact h.elim
    | some granted => exact ⟨granted.1, granted.2, h.1, by simp [World.moved, h.2]⟩
  | _ => exact h.elim

/-- The redeem call has not been refused. -/
def Course (p : Presented crypto) (i : ℕ) (w : World crypto) : Prop :=
  ∃ thread, w.threads[i]? = some thread ∧ p.OnCourse w thread

omit hmarshal hvalid hhash in
/-- A step of another thread leaves a redeem call on its course. -/
theorem OnCourse.other (horderly : Orderly codec w) {i j : ℕ} (hij : i ≠ j)
    {thread other : Thread crypto.Key} (hthread : w.threads[i]? = some thread)
    (hother : w.threads[j]? = some other) (h : p.OnCourse w thread) {shared : Shared crypto.Key}
    {next : Thread crypto.Key × List Event}
    (hact : Act crypto codec w.policy w.clock j w.log.length w.shared other shared next) :
    p.OnCourse (w.moved j shared next) thread := by
  have hmem := List.mem_of_getElem? hother
  have hlog : w.log ⊆ (w.moved j shared next).log := List.subset_append_left _ _
  obtain ⟨-, -, hlocks | hsame⟩ := act_keysOk horderly.sound.shared
    (horderly.sound.threads other hmem) horderly.ring.keys (horderly.ring.threads other hmem) hact
  · -- the other thread has the lock, so the call is not between its reading and its transaction
    have hfree : thread.locks = false := by
      by_contra hholds
      have hmine := horderly.ring.lock.eq_some hthread (Bool.eq_true_of_not_eq_false hholds)
      rw [horderly.ring.lock.eq_some hother hlocks, Option.some.injEq] at hmine
      exact hij hmine.symm
    exact h.mono hlog fun hlocked ↦ absurd (hfree.symm.trans hlocked) Bool.false_ne_true
  · exact h.mono hlog fun _ ↦ hsame.latestEpoch

theorem Course.step (hbacked : p.Backed codec w) {i : ℕ} (hi : 0 < i) (h : p.Course i w)
    (hstep : Step codec w w') (hundisturbed : p.Undisturbed i w w') : p.Course i w' := by
  obtain ⟨thread, hthread, hcourse⟩ := h
  have hlt : i < w.threads.length := (List.getElem?_eq_some_iff.mp hthread).1
  cases hstep with
  | tick reading hmono hsane =>
    exact ⟨thread, hthread, hcourse.mono (List.Subset.refl _) fun _ ↦ rfl⟩
  | restart policy =>
    have hrunning := hundisturbed.running
    simp only [World.restarted, List.length_singleton] at hrunning
    omega
  | request request hserving hslot =>
    exact ⟨thread, (List.getElem?_append_left hlt).trans hthread,
      hcourse.mono (List.Subset.refl _) fun _ ↦ rfl⟩
  | crowded hserving hslot =>
    exact ⟨thread, hthread, hcourse.mono (List.subset_append_left _ _) fun _ ↦ rfl⟩
  | redeem raw hserving =>
    exact ⟨thread, (List.getElem?_append_left hlt).trans hthread,
      hcourse.mono (List.Subset.refl _) fun _ ↦ rfl⟩
  | act j other shared next hother hact =>
    by_cases hij : i = j
    · subst hij
      rw [hthread, Option.some.injEq] at hother
      subst hother
      exact ⟨next.1, List.getElem?_set_self hlt, hcourse.act hmarshal hvalid hhash hbacked hthread
        hundisturbed.acceptable hact hundisturbed.store⟩
    · exact ⟨thread, (List.getElem?_set_ne (Ne.symm hij)).trans hthread,
        hcourse.other hbacked.orderly hij hthread hother hact⟩

end Course

/-! ### Whoever holds the lock can release it -/

/-- A step that does not concern a thread and leaves no marker. -/
structure Aside (i : ℕ) (w w' : World crypto) : Prop where
  clock : w'.clock = w.clock
  policy : w'.policy = w.policy
  threads : w'.threads.length = w.threads.length
  thread : w'.threads[i]? = w.threads[i]?
  room : w'.shared.db.spent.keyN ≤ w.shared.db.spent.keyN
  unspent : ∀ marker, .spent marker ∈ w'.log → .spent marker ∈ w.log

theorem keyN_descriptorTx {db : Database} (hwf : db.WellFormed) {hour : ℤ} {commit : Commit}
    (h : descriptorTx hour db = .ok commit) : commit.db.spent.keyN ≤ db.spent.keyN := by
  obtain ⟨-, ⟨-, rfl⟩ | ⟨-, hcommit, -⟩⟩ := descriptorTx_ok hwf h
  · exact le_rfl
  · rw [hcommit]
    exact List.length_filter_le _ _

theorem not_spent_of_isReadOnly {events : List Event} (h : ∀ event ∈ events, event.isReadOnly)
    (marker : Marker) : .spent marker ∉ events := by
  intro hmarker
  cases h _ hmarker

section Release

variable {i j : ℕ} (hij : i ≠ j)

include hij

variable (codec) in
/-- A move of another thread that commits no spend. -/
theorem exists_aside {thread : Thread crypto.Key} (hthread : w.threads[j]? = some thread)
    {shared : Shared crypto.Key} {next : Thread crypto.Key × List Event}
    (hact : Act crypto codec w.policy w.clock j w.log.length w.shared thread shared next)
    (hroom : shared.db.spent.keyN ≤ w.shared.db.spent.keyN)
    (hevents : ∀ marker, .spent marker ∉ next.2) :
    ∃ w', Run (Step codec) (Aside i) w w' ∧ w'.shared = shared ∧
      w'.threads[j]? = some next.1 := by
  refine ⟨_, .snoc (.refl w) (.act j thread shared next hthread hact) ⟨rfl, rfl, List.length_set,
    List.getElem?_set_ne (Ne.symm hij), hroom, fun marker hmarker ↦ ?_⟩, rfl,
    List.getElem?_set_self (List.getElem?_eq_some_iff.mp hthread).1⟩
  rcases List.mem_append.mp hmarker with hmarker | hmarker
  · exact hmarker
  · exact absurd hmarker (hevents marker)

variable (codec) in
/-- A move of another thread with which it leaves its critical section. -/
theorem exists_release_of_act {thread : Thread crypto.Key} (hthread : w.threads[j]? = some thread)
    {shared : Shared crypto.Key} {next : Thread crypto.Key × List Event}
    (hact : Act crypto codec w.policy w.clock j w.log.length w.shared thread shared next)
    (hroom : shared.db.spent = w.shared.db.spent) (hevents : ∀ event ∈ next.2, event.isReadOnly)
    (hmu : shared.mu = none) : ∃ w', Run (Step codec) (Aside i) w w' ∧ w'.shared.mu = none := by
  obtain ⟨w', hrun, hshared, -⟩ := exists_aside codec hij hthread hact (by rw [hroom])
    (not_spent_of_isReadOnly hevents)
  exact ⟨w', hrun, by rw [hshared, hmu]⟩

/-- A challenge request that drops expired challenges comes to the end of its list. -/
theorem exists_release_of_sweeping {bound : Bound} {nonce : Text} {created : Time}
    (rest : List Text) (hthread : w.threads[j]? = some (.sweeping bound nonce created rest)) :
    ∃ w', Run (Step codec) (Aside i) w w' ∧ w'.shared.mu = none := by
  induction rest generalizing w with
  | nil =>
    by_cases hfull : 256 ≤ w.shared.challenges.keyN
    · exact exists_release_of_act codec hij hthread (.crowdedOut bound nonce created hfull) rfl
        (inert_refuse _ _).readOnly rfl
    · exact exists_release_of_act codec hij hthread
        (.insert bound nonce created (not_le.mp hfull)) rfl (by simp [Event.isReadOnly]) rfl
  | cons key rest ih =>
    obtain ⟨swept, hswept, -, hthread'⟩ := exists_aside codec hij hthread
      (.sweep bound nonce created key rest) le_rfl (by simp)
    obtain ⟨w', hrun, hmu⟩ := ih hthread'
    exact ⟨w', hswept.trans hrun, hmu⟩

theorem exists_release_of_persist {start : ℕ} {epoch hour : ℤ} {caller : Caller}
    {key : crypto.Key}
    (hthread : w.threads[j]? = some (.describing start epoch caller (.persist hour key))) :
    ∃ w', Run (Step codec) (Aside i) w w' ∧ w'.shared.mu = none :=
  exists_release_of_act codec hij hthread (.persisted start epoch hour caller key) rfl
    (readOnly_resumeOk _ _ _ _ _ _ _) rfl

/-- Assumes: a key can be generated. -/
theorem exists_release_of_lookup (fresh : crypto.Key) {start : ℕ} {epoch hour : ℤ}
    {caller : Caller}
    (hthread : w.threads[j]? = some (.describing start epoch caller (.lookup hour))) :
    ∃ w', Run (Step codec) (Aside i) w w' ∧ w'.shared.mu = none := by
  cases hkey : Tickets.findKey crypto w.policy w.shared epoch hour with
  | error =>
    exact exists_release_of_act codec hij hthread (.lookupRefused start epoch hour caller hkey) rfl
      (inert_resumeError _).readOnly rfl
  | ok found =>
    cases found with
    | some key =>
      exact exists_release_of_act codec hij hthread (.found start epoch hour caller key hkey) rfl
        (readOnly_resumeOk _ _ _ _ _ _ _) rfl
    | none =>
      obtain ⟨generated, hgenerated, -, hthread'⟩ := exists_aside codec hij hthread
        (.generate start epoch hour caller fresh hkey) le_rfl (by simp)
      obtain ⟨w', hrun, hmu⟩ := exists_release_of_persist hij hthread'
      exact ⟨w', hgenerated.trans hrun, hmu⟩

/-- Assumes: a key can be generated. Whoever holds the lock can go on until the lock is free. -/
theorem exists_release (fresh : crypto.Key) (hsound : Sound crypto codec w) (hring : Ring w)
    (hmu : w.shared.mu = some j) : ∃ w', Run (Step codec) (Aside i) w w' ∧ w'.shared.mu = none := by
  obtain ⟨thread, hthread, hlocks⟩ := (hring.lock j).mp hmu
  cases thread with
  | sweeping bound nonce created rest => exact exists_release_of_sweeping hij rest hthread
  | describing start epoch caller phase =>
    cases phase with
    | enter => cases hlocks
    | update hour =>
      cases htx : descriptorTx hour w.shared.db with
      | error error =>
        exact exists_release_of_act codec hij hthread
          (.updateRefused start epoch hour caller error htx) rfl (inert_resumeError _).readOnly rfl
      | ok commit =>
        obtain ⟨updated, hupdated, -, hthread'⟩ := exists_aside codec hij hthread
          (.update start epoch hour caller commit htx)
          (keyN_descriptorTx hsound.shared.db htx) (by simp)
        obtain ⟨w', hrun, hmu⟩ := exists_release_of_lookup hij fresh hthread'
        exact ⟨w', hupdated.trans hrun, hmu⟩
    | lookup hour => exact exists_release_of_lookup hij fresh hthread
    | persist hour key => exact exists_release_of_persist hij hthread
  | _ => cases hlocks

end Release

/-! ### A call on its course comes to its end -/

/-- The moves a redeem call has before it. -/
def toGo {Key : Type} : Thread Key → ℕ
  | .redeeming _ => 8
  | .describing _ _ _ .enter => 7
  | .describing _ _ _ (.update _) => 6
  | .describing _ _ _ (.lookup _) => 5
  | .verifying _ _ _ _ => 4
  | .spending _ _ _ => 3
  | .timing _ => 2
  | .lasting _ _ => 1
  | _ => 0

/-- The redeem call has returned the ticket with the deadline of its grant. -/
def Accepted (p : Presented crypto) (i : ℕ) (w : World crypto) : Prop :=
  ∃ marker grantedUntil, p.IsMarker marker ∧ .redeemed marker grantedUntil ∈ w.log ∧
    (w.threads[i]? = some (.returned (some (marker, grantedUntil))) ∨
      w.threads[i]? = some .finished)

theorem accepted_of_toGo_eq_zero {i : ℕ} {thread : Thread crypto.Key}
    (hthread : w.threads[i]? = some thread) (h : p.OnCourse w thread) (hend : toGo thread = 0) :
    p.Accepted i w := by
  unfold OnCourse at h
  split at h
  · cases hend
  · next phase =>
    cases phase with
    | enter | update | lookup => cases hend
    | persist => exact h.2.2.elim
  · cases hend
  · cases hend
  · cases hend
  · cases hend
  · next marker grantedUntil =>
    exact ⟨marker, grantedUntil, h.1, h.2, Or.inl hthread⟩
  · obtain ⟨marker, grantedUntil, hmarker, hlogged⟩ := h
    exact ⟨marker, grantedUntil, hmarker, hlogged, Or.inr hthread⟩
  · exact h.elim

/-- A move that brings a call nearer to its end without refusing it, and leaves a pending call
acceptable. -/
structure Advances (w : World crypto) (thread : Thread crypto.Key) (shared : Shared crypto.Key)
    (next : Thread crypto.Key × List Event) : Prop where
  nearer : toGo next.1 < toGo thread
  accepted : next.1 ≠ .returned none
  pending : isPending next.1 = true → isPending thread = true ∧
    shared.db.spent.keyN ≤ w.shared.db.spent.keyN ∧ ∀ marker, .spent marker ∉ next.2

section Progress

variable (hmarshal : ∀ key, crypto.marshalPrivateKey key ≠ []) (hvalid : p.Valid codec)
  (hhash : ∀ other, crypto.sha256 other = crypto.sha256 p.message → other = p.message) {i : ℕ}

include hmarshal hvalid hhash

/-- A call that is on its course and can have the lock has a move. -/
theorem exists_advance (hbacked : p.Backed codec w) {thread : Thread crypto.Key}
    (hthread : w.threads[i]? = some thread) (h : p.OnCourse w thread)
    (hacceptable : p.Acceptable i w) (hlock : w.shared.mu = none ∨ thread.locks = true)
    (hend : toGo thread ≠ 0) :
    ∃ shared next, Act crypto codec w.policy w.clock i w.log.length w.shared thread shared next ∧
      Advances w thread shared next := by
  have hpending : isPending thread = true → _ := hacceptable thread hthread
  unfold OnCourse at h
  split at h
  · next raw =>
    subst h
    exact ⟨_, _, .ticketParsed p.raw p.ticket hvalid.parse, by simp [toGo], by simp,
      fun _ ↦ ⟨rfl, le_rfl, by simp⟩⟩
  · next start epoch ticket phase =>
    obtain ⟨rfl, rfl, hphase⟩ := h
    have hlate := hbacked.hour_lt (hpending rfl).1
    have hbegun := hbacked.begun
    cases phase with
    | enter =>
      have hmu : w.shared.mu = none := by simpa [Thread.locks] using hlock
      exact ⟨_, _, .enter start _ _ hmu (by omega), by simp [toGo], by simp,
        fun _ ↦ ⟨rfl, le_rfl, by simp⟩⟩
    | update hour =>
      obtain ⟨commit, htx⟩ := hbacked.descriptorTx hphase
      exact ⟨_, _, .update start _ hour _ commit htx, by simp [toGo], by simp,
        fun _ ↦ ⟨rfl, keyN_descriptorTx hbacked.orderly.sound.shared.db htx, by simp⟩⟩
    | lookup hour =>
      exact ⟨_, _, .found start _ hour _ p.key (hbacked.findKey (hpending rfl).1 hmarshal hour),
        by simp [toGo, resumeOk], by simp [resumeOk], fun _ ↦ ⟨rfl, le_rfl, by simp [resumeOk]⟩⟩
    | persist => exact hphase.elim
  · next start ticket descriptor key =>
    obtain ⟨rfl, rfl, rfl⟩ := h
    exact ⟨_, _, .verified start _ _ _ p.message (hbacked.verifyTicket (hpending rfl).1 hvalid),
      by simp [toGo], by simp, fun _ ↦ ⟨rfl, le_rfl, by simp⟩⟩
  · next start descriptor message =>
    obtain ⟨rfl, rfl⟩ := h
    obtain ⟨-, hroom, hunspent⟩ := hpending rfl
    obtain ⟨commit, htx⟩ := hbacked.redeemTx hhash hroom hunspent w.clock.hour
    exact ⟨_, _, .spend start _ _ commit htx, by simp [toGo], by simp,
      fun hpending ↦ absurd hpending Bool.false_ne_true⟩
  · next marker =>
    exact ⟨_, _, .readFirst marker, by simp [toGo], by simp,
      fun hpending ↦ absurd hpending Bool.false_ne_true⟩
  · next marker first =>
    exact ⟨_, _, .readSecond marker first, by simp [toGo], by simp,
      fun hpending ↦ absurd hpending Bool.false_ne_true⟩
  · exact absurd rfl hend
  · exact absurd rfl hend
  · exact h.elim

/-- A call that is on its course and can have the lock can be brought to its end. The induction is
on the moves it has before it. -/
theorem exists_accepted_of_lock (hbacked : p.Backed codec w) {thread : Thread crypto.Key}
    (hthread : w.threads[i]? = some thread) (h : p.OnCourse w thread)
    (hacceptable : p.Acceptable i w) (hlock : w.shared.mu = none ∨ thread.locks = true) :
    ∃ w', Run (Step codec) Steady w w' ∧ p.Accepted i w' := by
  induction hn : toGo thread using Nat.strong_induction_on generalizing w thread with
  | _ n ih =>
    by_cases hend : toGo thread = 0
    · exact ⟨w, .refl w, accepted_of_toGo_eq_zero hthread h hend⟩
    obtain ⟨shared, next, hact, hadvances⟩ :=
      exists_advance hmarshal hvalid hhash hbacked hthread h hacceptable hlock hend
    have hstep : Step codec w (w.moved i shared next) := .act i thread shared next hthread hact
    have hthread' : (w.moved i shared next).threads[i]? = some next.1 :=
      List.getElem?_set_self (List.getElem?_eq_some_iff.mp hthread).1
    have hstore : StoreWorks i w (w.moved i shared next) := by
      intro hrefused
      rw [hthread', Option.some.injEq] at hrefused
      exact absurd hrefused hadvances.accepted
    have hacceptable' : p.Acceptable i (w.moved i shared next) := by
      intro thread' hget hpending'
      rw [hthread', Option.some.injEq] at hget
      subst hget
      obtain ⟨hpending, hroom, hevents⟩ := hadvances.pending hpending'
      obtain ⟨hnow, hroom', hunspent⟩ := hacceptable thread hthread hpending
      refine ⟨hnow, hroom.trans_lt hroom', fun marker hmarker ↦ ?_⟩
      rcases List.mem_append.mp hmarker with hmarker | hmarker
      · exact hunspent marker hmarker
      · exact absurd hmarker (hevents marker)
    have hlock' : shared.mu = none ∨ next.1.locks = true := by
      rcases act_lock hact with ⟨hsame, hmu⟩ | ⟨-, -, hholds⟩ | ⟨-, -, hfree⟩
      · rwa [hsame, hmu]
      · exact Or.inr hholds
      · exact Or.inl hfree
    obtain ⟨w', hrun, haccepted⟩ := ih (toGo next.1) (hn ▸ hadvances.nearer)
      (hbacked.step hmarshal hstep le_rfl ⟨rfl, rfl⟩) hthread'
      (h.act hmarshal hvalid hhash hbacked hthread hacceptable hact hstore) hacceptable' hlock' rfl
    have hfirst : Run (Step codec) Steady w (w.moved i shared next) :=
      .snoc (.refl w) hstep ⟨rfl, rfl⟩
    exact ⟨w', hfirst.trans hrun, haccepted⟩

/-- A call that is on its course stays so, and stays acceptable, while others move aside. -/
theorem course_of_aside (hi : 0 < i) (hrun : Run (Step codec) (Aside i) w w')
    (hbacked : p.Backed codec w) (hcourse : p.Course i w) (hacceptable : p.Acceptable i w) :
    p.Backed codec w' ∧ p.Course i w' ∧ p.Acceptable i w' := by
  refine hrun.invariant (fun s ↦ p.Backed codec s ∧ p.Course i s ∧ p.Acceptable i s) ?_
    ⟨hbacked, hcourse, hacceptable⟩
  rintro s t ⟨hbacked, hcourse, hacceptable⟩ hstep haside
  have hforward : WallForward s t := by rw [WallForward, haside.clock]
  have hpolicy : SamePolicy s t := ⟨by rw [haside.policy], by rw [haside.policy]⟩
  obtain ⟨thread, hthread, hon⟩ := hcourse
  have hstore : StoreWorks i s t := by
    intro hrefused
    rw [haside.thread] at hrefused
    rw [hrefused]
    exact ⟨by simp, by simp, by simp⟩
  have hundisturbed : p.Undisturbed i s t :=
    ⟨hforward, haside.threads ▸ (List.getElem?_eq_some_iff.mp hthread).1, hstore, hacceptable⟩
  refine ⟨hbacked.step hmarshal hstep hforward hpolicy,
    Course.step hmarshal hvalid hhash hbacked hi ⟨thread, hthread, hon⟩ hstep hundisturbed,
    fun other hother hpending ↦ ?_⟩
  rw [haside.thread] at hother
  obtain ⟨hnow, hroom, hunspent⟩ := hacceptable other hother hpending
  exact ⟨haside.clock ▸ hnow, haside.room.trans_lt hroom,
    fun marker hmarker ↦ hunspent marker (haside.unspent marker hmarker)⟩

/-- A call that is on its course can be brought to its end. -/
theorem exists_accepted (hi : 0 < i) (hbacked : p.Backed codec w) (hcourse : p.Course i w)
    (hacceptable : p.Acceptable i w) : ∃ w', Run (Step codec) Steady w w' ∧ p.Accepted i w' := by
  have hsteady : ∀ {s}, Run (Step codec) (Aside i) w s → Run (Step codec) Steady w s :=
    fun hrun ↦ hrun.mono fun _ _ _ haside ↦ ⟨haside.clock, haside.policy⟩
  obtain ⟨thread, hthread, hon⟩ := hcourse
  cases hmu : w.shared.mu with
  | none =>
    exact exists_accepted_of_lock hmarshal hvalid hhash hbacked hthread hon hacceptable
      (Or.inl hmu)
  | some j =>
    by_cases hij : i = j
    · obtain ⟨holder, hholder, hlocks⟩ := (hbacked.orderly.ring.lock j).mp hmu
      rw [← hij, hthread, Option.some.injEq] at hholder
      exact exists_accepted_of_lock hmarshal hvalid hhash hbacked hthread hon hacceptable
        (Or.inr (hholder ▸ hlocks))
    · obtain ⟨free, haside, hfree⟩ := exists_release hij p.key hbacked.orderly.sound
        hbacked.orderly.ring hmu
      obtain ⟨hbacked', ⟨thread', hthread', hon'⟩, hacceptable'⟩ :=
        course_of_aside hmarshal hvalid hhash hi haside hbacked ⟨thread, hthread, hon⟩
          hacceptable
      obtain ⟨w', hrun, haccepted⟩ := exists_accepted_of_lock hmarshal hvalid hhash hbacked'
        hthread' hon' hacceptable' (Or.inl hfree)
      exact ⟨w', (hsteady haside).trans hrun, haccepted⟩

end Progress

end Presented

/-- A ticket for a descriptor that the authority has returned is presented in a run under a forward
wall clock, with any restarts under the same revision and pin and any other calls before it. The
redeem call is never refused, and from every state it reaches it can be brought to the end at which
it returns the ticket.

Assumes: a key has a DER form; no other message has the hash of the ticket's; during the call the
process is not restarted and the store works, and until the call spends the ticket the key is alive,
there are fewer than 100000 markers, and nobody else has spent the ticket. -/
theorem unspent_ticket_accepted {crypto : Crypto} {codec : Codec}
    (hmarshal : ∀ key, crypto.marshalPrivateKey key ≠ []) {p : Presented crypto}
    (hvalid : p.Valid codec)
    (hhash : ∀ other, crypto.sha256 other = crypto.sha256 p.message → other = p.message)
    {start issued issued' calls w : World crypto} (hinitial : Initial start)
    (hbefore : Run (Step codec) WallForward start issued)
    (hreturned : Returns codec p.descriptor.epoch p.descriptor p.key issued issued')
    (hsince : Run (Step codec) (fun s t ↦ WallForward s t ∧ SamePolicy s t) issued' calls)
    (hserving : calls.isServing)
    (hcall : Run (Step codec) (p.Undisturbed calls.threads.length)
      (calls.called (.redeeming p.raw)) w)
    (hacceptable : p.Acceptable calls.threads.length w) :
    w.threads[calls.threads.length]? ≠ some (.returned none) ∧
      ∃ w', Run (Step codec) Steady w w' ∧ p.Accepted calls.threads.length w' := by
  have hi : 0 < calls.threads.length := by
    rw [List.length_pos_iff]
    rintro hnil
    rw [World.isServing, hnil] at hserving
    cases hserving
  have hissued : p.Backed codec issued' :=
    Presented.backed_of_returns hmarshal hreturned (orderly_of_run hinitial hbefore)
  have hcalls : p.Backed codec calls := hsince.invariant (p.Backed codec)
    (fun _ _ hs hstep hst ↦ hs.step hmarshal hstep hst.1 hst.2) hissued
  have hcalled : p.Backed codec (calls.called (.redeeming p.raw)) :=
    hcalls.step hmarshal (.redeem p.raw hserving) le_rfl ⟨rfl, rfl⟩
  have hfirst : p.Course calls.threads.length (calls.called (.redeeming p.raw)) :=
    ⟨.redeeming p.raw, by simp [World.called], rfl⟩
  obtain ⟨hbacked, hcourse⟩ : p.Backed codec w ∧ p.Course calls.threads.length w := by
    refine hcall.invariant (fun s ↦ p.Backed codec s ∧ p.Course calls.threads.length s) ?_
      ⟨hcalled, hfirst⟩
    rintro s t ⟨hbacked, hcourse⟩ hstep hundisturbed
    have hpolicy := Presented.samePolicy_of_running hi hundisturbed.running hstep
    exact ⟨hbacked.step hmarshal hstep hundisturbed.forward hpolicy,
      hcourse.step hmarshal hvalid hhash hbacked hi hstep hundisturbed⟩
  refine ⟨fun hrefused ↦ ?_,
    Presented.exists_accepted hmarshal hvalid hhash hi hbacked hcourse hacceptable⟩
  obtain ⟨thread, hthread, hon⟩ := hcourse
  rw [hrefused, Option.some.injEq] at hthread
  subst hthread
  exact hon

def samplePresented : Presented sampleCrypto :=
  ⟨[], sampleTicket, sampleDescriptor, (), sampleMessage⟩

theorem valid_samplePresented : samplePresented.Valid sampleCodec :=
  ⟨rfl, rfl, rfl, rfl, isTicketMessage_append _ List.length_replicate,
    List.replicate 256 0, rfl, List.length_replicate, rfl⟩

/-- The ticket of hour zero is presented as soon as the authority has returned its descriptor. -/
theorem unspent_ticket_accepted_sample :
    ∃ calls w' : World sampleCrypto, Run (Step sampleCodec) Steady
      (calls.called (.redeeming samplePresented.raw)) w' ∧
      samplePresented.Accepted calls.threads.length w' := by
  obtain ⟨w, hstart, hidle, hstarted⟩ := start_sample
  have hparse : parseTicket sampleCodec [] = some sampleTicket := rfl
  obtain ⟨issued, issued', hbefore, hreturned, hidle', hclock, -, hdb, hunspent⟩ :=
    returns_of_idle hidle [] hparse (by rw [hstarted.clock]; rfl)
  rw [hstarted.clock, hstarted.policy] at hreturned
  have hissued : Run (Step sampleCodec) WallForward sampleWorld issued :=
    (wallForward_run (standStill_run hstart)).trans
      (hbefore.mono fun _ _ _ hsteady ↦ by rw [WallForward, hsteady.1])
  have hacceptable : samplePresented.Acceptable issued'.threads.length
      (issued'.called (.redeeming samplePresented.raw)) := by
    intro thread hthread hpending
    refine ⟨?_, ?_, fun marker hmarker ↦ ?_⟩
    · rw [World.called, hclock, hstarted.clock]
      decide
    · rw [World.called, hdb, hstarted.spent]
      decide
    · have hlogged := hunspent marker hmarker
      rw [hstarted.log] at hlogged
      simp at hlogged
  exact ⟨issued', (unspent_ticket_accepted (fun _ ↦ List.cons_ne_nil _ _) valid_samplePresented
    (fun _ h ↦ h) initial_sampleWorld hissued hreturned (.refl _) hidle'.serving (.refl _)
    hacceptable).2⟩

end QortalRelay.Tickets
