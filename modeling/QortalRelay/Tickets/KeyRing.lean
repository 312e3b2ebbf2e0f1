import QortalRelay.Tickets.Calls

/-!
# One key for every hour

A descriptor call looks for the key of its hour in memory, then in the database, and generates one
only for the hour it has read. Memory and database are pruned at different moments, and the clock
may go back; what excludes a second key of an hour is the recorded hour, which only grows. While an
hour is within twelve of it, every key of it in memory is in the database (`Ring.stored`), a key of
it in the database stays there (`Kept`), and no other is stored over it. So any two calls return the
same key and descriptor of an hour, and a key that is returned is in the database
(`one_key_per_hour`).
-/

set_option autoImplicit false
set_option relaxedAutoImplicit false

namespace QortalRelay.Tickets

open Foundation.Decimal Foundation.Encoding Foundation.Store Foundation.Trace Access

/-! ### The lock of the authority -/

/-- The threads that hold the lock. -/
def Thread.locks {Key : Type} : Thread Key → Bool
  | .describing _ _ _ .enter => false
  | .describing _ _ _ _ | .sweeping _ _ _ _ => true
  | _ => false

section Lock

variable {crypto : Crypto} {codec : Codec} {policy : Policy}

theorem Inert.locks {Key : Type} {next : Thread Key × List Event} (h : Inert next) :
    next.1.locks = false := by
  obtain ⟨thread, events⟩ := next
  have hinert := h.1
  cases thread <;> simp_all [Thread.isInert, Thread.locks]

theorem locks_resumeOk (now : Time) (since : ℕ) (descriptor : Descriptor) (key : crypto.Key)
    (caller : Caller) :
    (resumeOk crypto codec policy now since descriptor key caller).1.locks = false := by
  rcases resumeOk_cases crypto codec policy now since descriptor key caller with
    h | ⟨_, _, _, -, -, h⟩ | ⟨_, -, h⟩
  · exact h.locks
  · rw [h]
    rfl
  · rw [h]
    rfl

/-- What a move does to the lock. -/
theorem act_lock {now : Time} {i since : ℕ} {shared shared' : Shared crypto.Key}
    {thread : Thread crypto.Key} {next : Thread crypto.Key × List Event}
    (hact : Act crypto codec policy now i since shared thread shared' next) :
    next.1.locks = thread.locks ∧ shared'.mu = shared.mu ∨
      shared.mu = none ∧ shared'.mu = some i ∧ next.1.locks = true ∨
      thread.locks = true ∧ next.1.locks = false ∧ shared'.mu = none := by
  cases hact with
  | enterRefused => exact Or.inl ⟨(inert_resumeError _).locks, rfl⟩
  | enter start epoch caller hmu hwindow => exact Or.inr (Or.inl ⟨hmu, rfl, rfl⟩)
  | lock bound nonce created order hmu horder => exact Or.inr (Or.inl ⟨hmu, rfl, rfl⟩)
  | updateRefused | lookupRefused =>
    exact Or.inr (Or.inr ⟨rfl, (inert_resumeError _).locks, rfl⟩)
  | describeFailed start epoch caller phase hphase =>
    refine Or.inr (Or.inr ⟨?_, (inert_resumeError _).locks, rfl⟩)
    cases phase with
    | enter => exact absurd rfl hphase
    | update | lookup | persist => rfl
  | found | persisted => exact Or.inr (Or.inr ⟨rfl, locks_resumeOk _ _ _ _ _, rfl⟩)
  | crowdedOut => exact Or.inr (Or.inr ⟨rfl, (inert_refuse _ _).locks, rfl⟩)
  | insert => exact Or.inr (Or.inr ⟨rfl, rfl, rfl⟩)
  | drawFailed | chargeRefused => exact Or.inl ⟨(inert_refuse _ _).locks, rfl⟩
  | compare => exact Or.inl ⟨(inert_compare _ _ _ _ _).locks, rfl⟩
  | asked => exact Or.inl ⟨(inert_weigh _ _).locks, rfl⟩
  | rechecked => exact Or.inl ⟨(inert_judge _ _).locks, rfl⟩
  | _ => exact Or.inl ⟨rfl, rfl⟩

end Lock

/-! ### Keys in memory and in the database -/

section Keys

variable (crypto : Crypto) (policy : Policy)

/-- The key of an hour is in the database under its name. -/
def Stored (db : Database) (epoch : ℤ) (key : crypto.Key) : Prop :=
  db.keys.get (keyName policy.revision epoch) = some (crypto.marshalPrivateKey key)

/-- What a descriptor call relies on after its transaction: the recorded hour is the one it has
read, and when it has generated a key, there was none. -/
def Settled (shared : Shared crypto.Key) : Thread crypto.Key → Prop
  | .describing _ _ _ (.lookup hour) => shared.db.latestEpoch = hour
  | .describing _ epoch _ (.persist hour _) =>
    shared.db.latestEpoch = hour ∧ findKey crypto policy shared epoch hour = .ok none
  | _ => True

/-- The keys of the hours within twelve of the recorded one are in the database, and the database
holds nothing but keys. -/
structure KeysOk (shared : Shared crypto.Key) : Prop where
  stored : ∀ epoch key, shared.keys epoch = some key → shared.db.latestEpoch < epoch + 12 →
    Stored crypto policy shared.db epoch key
  written : ∀ name raw, shared.db.keys.get name = some raw →
    ∃ key, raw = crypto.marshalPrivateKey key

end Keys

/-- The keys and the recorded hour are the same in two states. -/
structure SameKeys {Key : Type} (shared shared' : Shared Key) : Prop where
  memory : shared'.keys = shared.keys
  disk : shared'.db.keys = shared.db.keys
  metadata : shared'.db.metadata = shared.db.metadata

section Moves

variable {crypto : Crypto} {codec : Codec} {policy : Policy}
  {shared shared' : Shared crypto.Key} {thread : Thread crypto.Key}

theorem settled_of_locks_eq_false (h : thread.locks = false) :
    Settled crypto policy shared thread := by
  cases thread with
  | describing start epoch caller phase =>
    cases phase with
    | enter | update => trivial
    | lookup | persist => cases h
  | _ => trivial

theorem SameKeys.latestEpoch (h : SameKeys shared shared') :
    shared'.db.latestEpoch = shared.db.latestEpoch := by
  rw [Database.latestEpoch, h.metadata, Database.latestEpoch]

theorem SameKeys.settled (h : SameKeys shared shared')
    (hthread : Settled crypto policy shared thread) :
    Settled crypto policy shared' thread := by
  have hfind : ∀ epoch hour, findKey crypto policy shared' epoch hour =
      findKey crypto policy shared epoch hour := by
    intro epoch hour
    rw [findKey, findKey, h.memory, h.disk]
  cases thread with
  | describing start epoch caller phase =>
    cases phase with
    | enter | update => trivial
    | lookup hour => exact h.latestEpoch.trans hthread
    | persist hour key => exact ⟨h.latestEpoch.trans hthread.1, (hfind _ _).trans hthread.2⟩
  | _ => trivial

theorem SameKeys.keysOk (h : SameKeys shared shared') (hkeys : KeysOk crypto policy shared) :
    KeysOk crypto policy shared' := by
  refine ⟨fun epoch key hkey hrecent ↦ ?_, fun name raw hraw ↦ hkeys.written name raw ?_⟩
  · rw [h.memory] at hkey
    rw [h.latestEpoch] at hrecent
    rw [Stored, h.disk]
    exact hkeys.stored epoch key hkey hrecent
  · rw [← h.disk]
    exact hraw

/-- A key that was found is in the database, if its hour is recent. -/
theorem KeysOk.stored_of_findKey (h : KeysOk crypto policy shared) {epoch hour : ℤ}
    {key : crypto.Key} (hkey : findKey crypto policy shared epoch hour = .ok (some key))
    (hrecent : shared.db.latestEpoch < epoch + 12) : Stored crypto policy shared.db epoch key := by
  unfold findKey at hkey
  split at hkey
  · next found hmemory =>
    simp only [Except.ok.injEq, Option.some.injEq] at hkey
    subst hkey
    exact h.stored epoch found hmemory hrecent
  · split at hkey
    · split_ifs at hkey
      cases hkey
    · next hmemory raw hraw =>
      split at hkey
      · next found hparse =>
        simp only [Except.ok.injEq, Option.some.injEq] at hkey
        subst hkey
        cases hdisk : shared.db.keys.get (keyName policy.revision epoch) with
        | none =>
          rw [hdisk] at hraw
          exact absurd rfl hraw
        | some raw' =>
          rw [hdisk, Option.getD_some] at hparse
          obtain ⟨key, rfl⟩ := h.written _ _ hdisk
          rw [crypto.parse_marshal, Option.some.injEq] at hparse
          rw [Stored, hdisk, hparse]
      · cases hkey

theorem keyName_injective {revision : Text} {m n : ℤ}
    (h : keyName revision m = keyName revision n) : m = n :=
  formatInt_injective
    (List.cons.inj (List.append_cancel_left (h : revision ++ _ = revision ++ _))).2

/-- The transaction of a descriptor call leaves the keys of recent hours alone. -/
theorem Stored.advance {db : Database} {epoch : ℤ} {key : crypto.Key}
    (h : Stored crypto policy db epoch key) (hepoch : HourRange epoch) {hour : ℤ}
    (hrecent : hour < epoch + 12) : Stored crypto policy (db.advance hour) epoch key := by
  have hkept : ¬ nameEpoch (keyName policy.revision epoch) ≤ hour - 12 := by
    rw [nameEpoch_keyName hepoch policy.revision_isHash]
    omega
  rw [Stored, Database.advance, get_prune, if_neg hkept]
  exact h

theorem KeysOk.advance (h : KeysOk crypto policy shared) (hshared : SharedOk crypto shared)
    {hour : ℤ} (hhour : HourRange hour) (hle : shared.db.latestEpoch ≤ hour) :
    KeysOk crypto policy { shared with db := shared.db.advance hour } := by
  refine ⟨fun epoch key hkey hrecent ↦ ?_, fun name raw hraw ↦ h.written name raw ?_⟩
  · have hlatest : hour < epoch + 12 := by
      rwa [latestEpoch_advance _ hhour] at hrecent
    exact (h.stored epoch key hkey (by omega)).advance (hshared.keys epoch key hkey) hlatest
  · simp only [Database.advance, get_prune] at hraw
    split_ifs at hraw
    exact hraw

/-- A key that is in the database is remembered. -/
theorem KeysOk.remember (h : KeysOk crypto policy shared) {epoch hour : ℤ} {key : crypto.Key}
    (hkey : Stored crypto policy shared.db epoch key) (mu : Option ℕ) :
    KeysOk crypto policy
      { shared with keys := rememberKey shared.keys epoch hour key, mu := mu } := by
  refine ⟨fun epoch' key' hkey' hrecent ↦ ?_, h.written⟩
  simp only [rememberKey] at hkey'
  split_ifs at hkey' with hold heq
  · rw [heq, ← Option.some.inj hkey']
    exact hkey
  · exact h.stored epoch' key' hkey' hrecent

/-- A fresh key is stored. -/
theorem KeysOk.persist (h : KeysOk crypto policy shared) {epoch : ℤ}
    (hnone : shared.keys epoch = none) (key : crypto.Key) :
    KeysOk crypto policy { shared with
      db := persistTx (keyName policy.revision epoch) (crypto.marshalPrivateKey key)
        shared.db } := by
  refine ⟨fun epoch' key' hkey' hrecent ↦ ?_, fun name raw hraw ↦ ?_⟩
  · have hne : epoch' ≠ epoch := by
      rintro rfl
      rw [hnone] at hkey'
      cases hkey'
    have hname : keyName policy.revision epoch' ≠ keyName policy.revision epoch := fun hname ↦
      hne (keyName_injective hname)
    rw [Stored, persistTx, Bucket.get_put_of_ne _ hname]
    exact h.stored epoch' key' hkey' hrecent
  · simp only [persistTx, Bucket.get_put] at hraw
    split_ifs at hraw with hname
    · exact ⟨key, (Option.some.inj hraw).symm⟩
    · exact h.written name raw hraw

theorem keys_eq_none_of_findKey {epoch hour : ℤ}
    (h : findKey crypto policy shared epoch hour = .ok none) : shared.keys epoch = none := by
  unfold findKey at h
  split at h
  · cases h
  · next hmemory => exact hmemory

/-- A move keeps the keys in order, and only a thread that holds the lock touches them. -/
theorem act_keysOk {now : Time} {i since : ℕ} {next : Thread crypto.Key × List Event}
    (hshared : SharedOk crypto shared) (hok : ThreadOk crypto codec policy thread)
    (hkeys : KeysOk crypto policy shared) (hthread : Settled crypto policy shared thread)
    (hact : Act crypto codec policy now i since shared thread shared' next) :
    KeysOk crypto policy shared' ∧ Settled crypto policy shared' next.1 ∧
      (thread.locks = true ∨ SameKeys shared shared') := by
  have hquiet : SameKeys shared shared' → next.1.locks = false →
      KeysOk crypto policy shared' ∧ Settled crypto policy shared' next.1 ∧
        (thread.locks = true ∨ SameKeys shared shared') :=
    fun hsame hfree ↦ ⟨hsame.keysOk hkeys, settled_of_locks_eq_false hfree, Or.inr hsame⟩
  cases hact with
  | update start epoch hour caller commit htx =>
    obtain ⟨-, hlt, -⟩ := hok
    obtain ⟨hle, ⟨hsame, rfl⟩ | ⟨-, hdb, -⟩⟩ := descriptorTx_ok hshared.db htx
    · exact ⟨hkeys, hsame, Or.inl rfl⟩
    · have hhour : HourRange hour := ⟨hshared.db.latest_nonneg.trans hle, hlt⟩
      rw [hdb]
      exact ⟨hkeys.advance hshared hhour hle, latestEpoch_advance _ hhour, Or.inl rfl⟩
  | generate start epoch hour caller key hkey =>
    exact ⟨hkeys, ⟨hthread, hkey⟩, Or.inl rfl⟩
  | found start epoch hour caller key hkey =>
    obtain ⟨-, -, -, hrecent⟩ := hok
    have hlatest : shared.db.latestEpoch = hour := hthread
    exact ⟨hkeys.remember (hkeys.stored_of_findKey hkey (by omega)) none,
      settled_of_locks_eq_false (locks_resumeOk _ _ _ _ _), Or.inl rfl⟩
  | persisted start epoch hour caller key =>
    have hstored := hkeys.persist (keys_eq_none_of_findKey hthread.2) key
    exact ⟨hstored.remember (Bucket.get_put_self _ _ _) none,
      settled_of_locks_eq_false (locks_resumeOk _ _ _ _ _), Or.inl rfl⟩
  | charge application checked db htx =>
    obtain ⟨-, rfl⟩ := quotaTx_ok htx
    exact hquiet ⟨rfl, rfl, rfl⟩ rfl
  | spend start descriptor message commit htx =>
    obtain ⟨-, -, rfl⟩ := redeemTx_ok hshared.db htx
    exact hquiet ⟨rfl, rfl, rfl⟩ rfl
  | enterRefused | updateRefused | lookupRefused | describeFailed =>
    exact hquiet ⟨rfl, rfl, rfl⟩ (inert_resumeError _).locks
  | drawFailed | crowdedOut | chargeRefused =>
    exact hquiet ⟨rfl, rfl, rfl⟩ (inert_refuse _ _).locks
  | compare => exact hquiet ⟨rfl, rfl, rfl⟩ (inert_compare _ _ _ _ _).locks
  | asked => exact hquiet ⟨rfl, rfl, rfl⟩ (inert_weigh _ _).locks
  | rechecked => exact hquiet ⟨rfl, rfl, rfl⟩ (inert_judge _ _).locks
  | enter | lock | sweep => exact ⟨⟨hkeys.stored, hkeys.written⟩, trivial, Or.inr ⟨rfl, rfl, rfl⟩⟩
  | _ => exact hquiet ⟨rfl, rfl, rfl⟩ rfl

end Moves

/-! ### The key ring of a run -/

section Ring

variable {crypto : Crypto} {codec : Codec}

/-- The lock is guarded, and the keys are in order. -/
structure Ring (w : World crypto) : Prop where
  lock : Guarded Thread.locks w.threads w.shared.mu
  threads : ∀ thread ∈ w.threads, Settled crypto w.policy w.shared thread
  keys : KeysOk crypto w.policy w.shared

theorem guarded_opening {Key : Type} : Guarded Thread.locks [(.opening : Thread Key)] none := by
  intro i
  constructor
  · nofun
  · rintro ⟨thread, hthread, hlocks⟩
    obtain rfl := List.mem_singleton.mp (List.mem_of_getElem? hthread)
    cases hlocks

theorem ring_of_initial {w : World crypto} (h : Initial w) : Ring w := by
  obtain ⟨clock, policy, shared, threads, log⟩ := w
  obtain ⟨-, hshared, hthreads, -⟩ := h
  simp only at hshared hthreads
  subst hshared hthreads
  refine ⟨guarded_opening, ?_, nofun, fun name raw hraw ↦ ?_⟩
  · simp [Settled]
  · cases hraw

theorem Step.ring {w w' : World crypto} (hstep : Step codec w w') (hsound : Sound crypto codec w)
    (h : Ring w) : Ring w' := by
  cases hstep with
  | tick reading hmono hsane => exact ⟨h.lock, h.threads, h.keys⟩
  | restart policy =>
    refine ⟨guarded_opening, ?_, nofun, h.keys.written⟩
    simp [World.restarted, Settled]
  | request request hserving hslot =>
    refine ⟨h.lock.append rfl, ?_, h.keys⟩
    simp only [World.called, List.forall_mem_append, List.forall_mem_singleton]
    exact ⟨h.threads, trivial⟩
  | crowded hserving hslot => exact ⟨h.lock, h.threads, h.keys⟩
  | redeem raw hserving =>
    refine ⟨h.lock.append rfl, ?_, h.keys⟩
    simp only [World.called, List.forall_mem_append, List.forall_mem_singleton]
    exact ⟨h.threads, trivial⟩
  | act i thread shared next hthread hact =>
    have hmem := List.mem_of_getElem? hthread
    obtain ⟨hkeys, hnext, htouched⟩ := act_keysOk hsound.shared (hsound.threads thread hmem) h.keys
      (h.threads thread hmem) hact
    refine ⟨h.lock.set hthread (act_lock hact), fun other hother ↦ ?_, hkeys⟩
    obtain ⟨j, hj⟩ := List.getElem?_of_mem hother
    by_cases hij : i = j
    · subst hij
      rw [World.moved, List.getElem?_set_self (List.getElem?_eq_some_iff.mp hthread).1] at hj
      obtain rfl := Option.some.inj hj
      exact hnext
    · rw [World.moved, List.getElem?_set_ne hij] at hj
      rcases htouched with hlocks | hsame
      · -- the moving thread has the lock, so the other is in no critical section
        refine settled_of_locks_eq_false (Bool.eq_false_of_not_eq_true fun hother' ↦ ?_)
        have hmine := h.lock.eq_some hthread hlocks
        rw [h.lock.eq_some hj hother', Option.some.injEq] at hmine
        exact hij hmine.symm
      · exact hsame.settled (h.threads other (List.mem_of_getElem? hj))

theorem ring_of_run {guard : World crypto → World crypto → Prop} {w w' : World crypto}
    (h : Initial w) (hrun : Run (Step codec) guard w w') :
    Sound crypto codec w' ∧ Ring w' :=
  hrun.invariant (fun s ↦ Sound crypto codec s ∧ Ring s)
    (fun _ _ hs hstep _ ↦ ⟨hstep.sound hs.1, hstep.ring hs.1 hs.2⟩)
    ⟨sound_of_initial h, ring_of_initial h⟩

end Ring

/-! ### Keys that are kept -/

section Kept

variable {crypto : Crypto} {codec : Codec} {epoch : ℤ} {key : crypto.Key}

/-- The key of an hour stays in the database until twelve hours after it have been recorded. -/
structure Kept (w : World crypto) (epoch : ℤ) (key : crypto.Key) : Prop where
  range : HourRange epoch
  stored : w.shared.db.latestEpoch < epoch + 12 → Stored crypto w.policy w.shared.db epoch key

/-- What the names of the keys and their descriptors are made of stays the same. -/
def SamePolicy (w w' : World crypto) : Prop :=
  w'.policy.revision = w.policy.revision ∧ w'.policy.pin = w.policy.pin

theorem descriptorFor_eq {policy policy' : Policy} (hrevision : policy'.revision = policy.revision)
    (hpin : policy'.pin = policy.pin) (epoch : ℤ) (key : crypto.Key) :
    descriptorFor crypto codec policy' epoch key = descriptorFor crypto codec policy epoch key := by
  simp only [descriptorFor, Policy.keyId, hrevision, hpin]

/-- Assumes: a key has a DER form. A key that is in the database is found. -/
theorem KeysOk.findKey_of_stored (hmarshal : ∀ key, crypto.marshalPrivateKey key ≠ [])
    {policy : Policy} {shared : Shared crypto.Key} (h : KeysOk crypto policy shared)
    (hstored : Stored crypto policy shared.db epoch key)
    (hrecent : shared.db.latestEpoch < epoch + 12) (hour : ℤ) :
    findKey crypto policy shared epoch hour = .ok (some key) := by
  unfold findKey
  cases hmemory : shared.keys epoch with
  | some found =>
    have hfound := h.stored epoch found hmemory hrecent
    rw [Stored, hstored, Option.some.injEq] at hfound
    have hparse := crypto.parse_marshal key
    rw [hfound, crypto.parse_marshal, Option.some.injEq] at hparse
    simp [hparse]
  | none =>
    rw [hstored, Option.getD_some]
    cases hraw : crypto.marshalPrivateKey key with
    | nil => exact absurd hraw (hmarshal key)
    | cons first rest =>
      have hparse := crypto.parse_marshal key
      rw [hraw] at hparse
      simp [hparse]

/-- A step keeps a key, if the policy stays the same. -/
theorem Step.kept (hmarshal : ∀ key, crypto.marshalPrivateKey key ≠ []) {w w' : World crypto}
    (hstep : Step codec w w') (hpolicy : SamePolicy w w') (hsound : Sound crypto codec w)
    (hring : Ring w) (h : Kept w epoch key) : Kept w' epoch key := by
  cases hstep with
  | tick reading hmono hsane => exact ⟨h.range, h.stored⟩
  | restart policy =>
    refine ⟨h.range, fun hrecent ↦ ?_⟩
    have hstored := h.stored hrecent
    rw [Stored, hpolicy.1]
    exact hstored
  | request request hserving hslot => exact ⟨h.range, h.stored⟩
  | crowded hserving hslot => exact ⟨h.range, h.stored⟩
  | redeem raw hserving => exact ⟨h.range, h.stored⟩
  | act i thread shared next hthread hact =>
    have hmem := List.mem_of_getElem? hthread
    have hok := hsound.threads thread hmem
    refine ⟨h.range, fun hrecent ↦ ?_⟩
    simp only [World.moved] at hrecent ⊢
    rcases act_db_cases hact with ⟨hdb, -⟩ |
      ⟨start, epoch', hour, caller, commit, rfl, htx, hdb, rfl⟩ |
      ⟨start, epoch', hour, caller, key', rfl, hdb, -⟩ |
      ⟨application, checked, rfl, htx, rfl⟩ |
      ⟨start, descriptor, message, commit, rfl, htx, hdb, rfl⟩
    · rw [hdb] at hrecent ⊢
      exact h.stored hrecent
    · rw [hdb] at hrecent ⊢
      obtain ⟨hle, ⟨-, rfl⟩ | ⟨-, hcommit, -⟩⟩ := descriptorTx_ok hsound.shared.db htx
      · exact h.stored hrecent
      · have hhour : HourRange hour := ⟨hsound.shared.db.latest_nonneg.trans hle, hok.2.1⟩
        rw [hcommit] at hrecent ⊢
        rw [latestEpoch_advance _ hhour] at hrecent
        exact (h.stored (by omega)).advance h.range hrecent
    · rw [hdb] at hrecent ⊢
      have hstored := h.stored hrecent
      have hname : keyName w.policy.revision epoch ≠ keyName w.policy.revision epoch' := by
        -- the key would have been found, and none would have been generated
        intro hname
        obtain ⟨-, hhour, hepoch'⟩ := hok
        obtain rfl := keyName_injective hname
        have hnone := (hring.threads _ hmem).2
        rw [hring.keys.findKey_of_stored hmarshal hstored hrecent] at hnone
        cases hnone
      rw [Stored, persistTx, Bucket.get_put_of_ne _ hname]
      exact hstored
    · obtain ⟨-, hdb⟩ := quotaTx_ok htx
      rw [hdb] at hrecent ⊢
      exact h.stored hrecent
    · obtain ⟨-, -, rfl⟩ := redeemTx_ok hsound.shared.db htx
      rw [hdb] at hrecent ⊢
      exact h.stored hrecent

/-- A run under one policy keeps a key. -/
theorem kept_of_run (hmarshal : ∀ key, crypto.marshalPrivateKey key ≠ [])
    {guard : World crypto → World crypto → Prop} (hguard : ∀ s t, guard s t → SamePolicy s t)
    {w w' : World crypto} (hrun : Run (Step codec) guard w w') (hsound : Sound crypto codec w)
    (hring : Ring w) (h : Kept w epoch key) :
    Sound crypto codec w' ∧ Ring w' ∧ Kept w' epoch key :=
  hrun.invariant (fun s ↦ Sound crypto codec s ∧ Ring s ∧ Kept s epoch key)
    (fun s t hs hstep hst ↦ ⟨hstep.sound hs.1, hstep.ring hs.1 hs.2.1,
      hstep.kept hmarshal (hguard s t hst) hs.1 hs.2.1 hs.2.2⟩)
    ⟨hsound, hring, h⟩

end Kept

/-! ### Calls that return -/

section Returns

variable {crypto : Crypto} {codec : Codec}

/-- The key a descriptor call has, when it has one. -/
def chosenKey (crypto : Crypto) (policy : Policy) (shared : Shared crypto.Key) (epoch : ℤ) :
    Phase crypto.Key → Option crypto.Key
  | .lookup hour =>
    match findKey crypto policy shared epoch hour with
    | .ok key => key
    | .error () => none
  | .persist _ key => some key
  | _ => none

/-- In a step a descriptor call for an hour returns a descriptor and its key: it is these that its
caller goes on with. A caller that looks at neither goes on in the same way with any, so the key is
also the one that the call had. -/
def Returns (codec : Codec) (epoch : ℤ) (descriptor : Descriptor) (key : crypto.Key)
    (w w' : World crypto) : Prop :=
  ∃ i start hour caller phase shared next,
    w.threads[i]? = some (.describing start epoch caller phase) ∧
    Act crypto codec w.policy w.clock i w.log.length w.shared
      (.describing start epoch caller phase) shared next ∧
    next = Prod.map id (.described start hour epoch :: ·)
      (resumeOk crypto codec w.policy w.clock start descriptor key caller) ∧
    chosenKey crypto w.policy w.shared epoch phase = some key ∧
    descriptor = descriptorFor crypto codec w.policy epoch key ∧ w' = w.moved i shared next

variable {epoch : ℤ} {descriptor : Descriptor} {key : crypto.Key} {w w' : World crypto}

theorem Returns.step (h : Returns codec epoch descriptor key w w') : Step codec w w' := by
  obtain ⟨i, start, hour, caller, phase, shared, next, hthread, hact, -, -, -, rfl⟩ := h
  exact .act i _ shared next hthread hact

/-- A descriptor call that has returned in a step has returned a descriptor and a key. -/
theorem returns_of_described {i start : ℕ} {hour : ℤ} {caller : Caller} {phase : Phase crypto.Key}
    {shared : Shared crypto.Key} {next : Thread crypto.Key × List Event}
    (hthread : w.threads[i]? = some (.describing start epoch caller phase))
    (hact : Act crypto codec w.policy w.clock i w.log.length w.shared
      (.describing start epoch caller phase) shared next)
    (hreturned : .described start hour epoch ∈ next.2) :
    ∃ descriptor key, Returns codec epoch descriptor key w (w.moved i shared next) := by
  have hact' := hact
  cases hact with
  | enterRefused | updateRefused | lookupRefused | describeFailed =>
    cases caller <;> simp [resumeError, refuse] at hreturned
  | enter | update | generate => simp at hreturned
  | found start epoch hour caller key hkey =>
    exact ⟨_, key, i, start, hour, caller, _, _, _, hthread, hact', rfl, by simp [chosenKey, hkey],
      rfl, rfl⟩
  | persisted start epoch hour caller key =>
    exact ⟨_, key, i, start, hour, caller, _, _, _, hthread, hact', rfl, rfl, rfl, rfl⟩

/-- A key that is returned is in the database, and is the one that was kept there. -/
theorem Returns.spec (hmarshal : ∀ key, crypto.marshalPrivateKey key ≠ [])
    (h : Returns codec epoch descriptor key w w') (hsound : Sound crypto codec w) (hring : Ring w) :
    descriptor = descriptorFor crypto codec w.policy epoch key ∧ w'.policy = w.policy ∧
      HourRange epoch ∧ Stored crypto w'.policy w'.shared.db epoch key ∧
      ∀ kept, Kept w epoch kept → key = kept := by
  obtain ⟨i, start, hour, caller, phase, shared, next, hthread, hact, hnext, hchosen,
    hdescriptor, rfl⟩ := h
  have hreturns : .described start hour epoch ∈ next.2 := by
    rw [hnext]
    exact List.mem_cons_self
  have hmem := List.mem_of_getElem? hthread
  have hok := hsound.threads _ hmem
  have hsettled := hring.threads _ hmem
  refine ⟨hdescriptor, rfl, ?_⟩
  simp only [World.moved]
  cases hact with
  | enterRefused | enter | updateRefused | update => cases hchosen
  | lookupRefused start epoch hour caller hkey => simp [chosenKey, hkey] at hchosen
  | generate => cases hreturns
  | describeFailed =>
    cases caller <;> simp [resumeError, refuse] at hreturns
  | found start epoch hour caller found hkey =>
    obtain rfl : found = key := by simpa [chosenKey, hkey] using hchosen
    obtain ⟨-, -, -, hrecent⟩ := hok
    have hlatest : w.shared.db.latestEpoch = hour := hsettled
    refine ⟨hourRange_of_findKey hsound.shared hkey,
      hring.keys.stored_of_findKey hkey (by omega), fun kept hkept ↦ ?_⟩
    rw [hring.keys.findKey_of_stored hmarshal (hkept.stored (by omega)) (by omega)] at hkey
    simpa [eq_comm] using hkey
  | persisted start epoch hour caller found =>
    obtain rfl : found = key := by simpa [chosenKey] using hchosen
    obtain ⟨-, hhour, heq⟩ := hok
    obtain ⟨hlatest, hnone⟩ := hsettled
    refine ⟨heq ▸ hhour, Bucket.get_put_self _ _ _, fun kept hkept ↦ ?_⟩
    rw [hring.keys.findKey_of_stored hmarshal (hkept.stored (by omega)) (by omega)] at hnone
    cases hnone

theorem Returns.kept (hmarshal : ∀ key, crypto.marshalPrivateKey key ≠ [])
    (h : Returns codec epoch descriptor key w w') (hsound : Sound crypto codec w)
    (hring : Ring w) : Kept w' epoch key := by
  obtain ⟨-, -, hepoch, hstored, -⟩ := h.spec hmarshal hsound hring
  exact ⟨hepoch, fun _ ↦ hstored⟩

end Returns

/-- One key per hour. Assumes: a key has a DER form. In a run from a new database, whatever the
clock does and with any failures and restarts:

* A descriptor call that has returned has handed a descriptor and a key to its caller.
* Two calls that return for the same hour, with any restarts between them under the same revision
  and pin, return the same key and the same descriptor, and each time the key is in the database. -/
theorem one_key_per_hour {crypto : Crypto} {codec : Codec}
    (hmarshal : ∀ key, crypto.marshalPrivateKey key ≠ []) {start first : World crypto}
    (hinitial : Initial start) (hbefore : Run (Step codec) (fun _ _ ↦ True) start first) :
    (∀ i since epoch hour caller phase shared next,
      first.threads[i]? = some (.describing since epoch caller phase) →
      Act crypto codec first.policy first.clock i first.log.length first.shared
        (.describing since epoch caller phase) shared next →
      .described since hour epoch ∈ next.2 →
      ∃ descriptor key, Returns codec epoch descriptor key first (first.moved i shared next)) ∧
    ∀ first' second second' epoch descriptor1 descriptor2 key1 key2,
      Returns codec epoch descriptor1 key1 first first' →
      Run (Step codec) SamePolicy first' second →
      Returns codec epoch descriptor2 key2 second second' →
      key1 = key2 ∧ descriptor1 = descriptor2 ∧
        Stored crypto first'.policy first'.shared.db epoch key1 ∧
        Stored crypto second'.policy second'.shared.db epoch key2 := by
  constructor
  · intro i since epoch hour caller phase shared next hthread hact hreturned
    exact returns_of_described hthread hact hreturned
  · intro first' second second' epoch descriptor1 descriptor2 key1 key2 hfirst hbetween hsecond
    obtain ⟨hsound, hring⟩ := ring_of_run hinitial hbefore
    obtain ⟨hdescriptor1, hpolicy, -, hstored1, -⟩ := hfirst.spec hmarshal hsound hring
    have hkept := hfirst.kept hmarshal hsound hring
    obtain ⟨hsound', hring', hkept'⟩ := kept_of_run hmarshal (fun _ _ h ↦ h) hbetween
      (hfirst.step.sound hsound) (hfirst.step.ring hsound hring) hkept
    obtain ⟨hdescriptor2, -, -, hstored2, hsame⟩ := hsecond.spec hmarshal hsound' hring'
    obtain rfl := hsame key1 hkept'
    have hrevision : SamePolicy first' second :=
      hbetween.relates SamePolicy (fun _ ↦ ⟨rfl, rfl⟩)
        (fun _ _ _ hst htu ↦ ⟨htu.1.trans hst.1, htu.2.trans hst.2⟩) fun _ _ _ h ↦ h
    refine ⟨rfl, ?_, hstored1, hstored2⟩
    rw [hdescriptor1, hdescriptor2, ← hpolicy]
    exact (descriptorFor_eq hrevision.1 hrevision.2 _ _).symm

/-- The clock stands still and the policy stays the same. -/
def Steady {crypto : Crypto} (w w' : World crypto) : Prop :=
  w'.clock = w.clock ∧ w'.policy = w.policy

theorem steady_run {crypto : Crypto} {codec : Codec} {w w' : World crypto}
    (hrun : Run (Step codec) (Moves codec) w w') : Run (Step codec) Steady w w' := by
  refine hrun.mono fun s t _ hst ↦ ?_
  obtain ⟨i, thread, shared, next, -, -, -, rfl⟩ := hst
  exact ⟨rfl, rfl⟩

/-- An idle authority returns the key of the hour to a redeem call, and is idle again. -/
theorem returns_of_idle {crypto : Crypto} {codec : Codec} {w : World crypto} {key : crypto.Key}
    (h : Idle w key) (raw : Bytes) {ticket : Ticket} (hparse : parseTicket codec raw = some ticket)
    (hepoch : ticket.epoch = w.clock.hour) :
    ∃ before after, Run (Step codec) Steady w before ∧
      Returns codec w.clock.hour (descriptorFor crypto codec w.policy w.clock.hour key) key before
        after ∧ Idle after key ∧ after.clock = w.clock ∧ after.policy = w.policy ∧
      after.shared.db = w.shared.db ∧
      ∀ marker, .spent marker ∈ after.log → .spent marker ∈ w.log := by
  have htx : descriptorTx w.clock.hour w.shared.db = .ok ⟨w.shared.db, [], [], []⟩ := by
    simp [descriptorTx, h.latest]
  have hcalled : Run (Step codec) Steady w (w.called (.redeeming raw)) :=
    .snoc (.refl w) (.redeem raw h.serving) ⟨rfl, rfl⟩
  have hcall : Run (Step codec) (Moves codec) (w.called (.redeeming raw))
      (w.newest w.shared (.redeeming raw) []) := by
    rw [called_eq_newest]
    exact .refl _
  have hparsed := run_newest hcall (by simp) (.ticketParsed raw ticket hparse)
  rw [hepoch] at hparsed
  have hentered := run_newest hparsed (by simp) (.enter _ _ _ h.mu (by omega))
  have hupdated := run_newest hentered (by simp) (.update _ _ w.clock.hour _ _ htx)
  have hfound : findKey crypto w.policy { w.shared with mu := some w.threads.length } w.clock.hour
      w.clock.hour = .ok (some key) := by
    simp [findKey, h.key]
  refine ⟨_, _, hcalled.trans (steady_run hupdated),
    ⟨w.threads.length, w.log.length + 0, w.clock.hour, .redeem ticket, .lookup w.clock.hour, _, _,
      ?_, .found _ _ _ _ key hfound, ?_, ?_, rfl, rfl⟩, ?_, rfl, rfl, rfl, fun marker hmarker ↦ ?_⟩
  · simp [World.newest]
  · rfl
  · simp [chosenKey, World.newest, hfound]
  · rw [newest_moved]
    apply h.newest
    · rfl
    · exact h.latest
    · simp [rememberKey]
  · simpa [World.moved, World.newest, resumeOk] using hmarker

/-- Two tickets of hour zero are presented. -/
theorem one_key_per_hour_sample :
    ∃ first first' second second' : World sampleCrypto,
      Run (Step sampleCodec) (fun _ _ ↦ True) sampleWorld first ∧
      Returns sampleCodec 0 sampleDescriptor () first first' ∧
      Run (Step sampleCodec) SamePolicy first' second ∧
      Returns sampleCodec 0 sampleDescriptor () second second' ∧
      Stored sampleCrypto first'.policy first'.shared.db 0 () := by
  obtain ⟨w, hstart, hidle, hstarted⟩ := start_sample
  have hparse : parseTicket sampleCodec [] = some sampleTicket := rfl
  obtain ⟨first, first', hbefore, hfirst, hidle', hclock, hpolicy, -⟩ :=
    returns_of_idle hidle [] hparse (by rw [hstarted.clock]; rfl)
  rw [hstarted.clock, hstarted.policy] at hfirst
  obtain ⟨second, second', hbetween, hsecond, -⟩ :=
    returns_of_idle hidle' [] hparse (by rw [hclock, hstarted.clock]; rfl)
  rw [hclock, hpolicy, hstarted.clock, hstarted.policy] at hsecond
  have hfirstRun : Run (Step sampleCodec) (fun _ _ ↦ True) sampleWorld first :=
    (hstart.mono fun _ _ _ _ ↦ trivial).trans (hbefore.mono fun _ _ _ _ ↦ trivial)
  have hsecondRun : Run (Step sampleCodec) SamePolicy first' second :=
    hbetween.mono fun _ _ _ hsteady ↦ ⟨by rw [hsteady.2], by rw [hsteady.2]⟩
  exact ⟨first, first', second, second', hfirstRun, hfirst, hsecondRun, hsecond,
    ((one_key_per_hour (fun _ ↦ List.cons_ne_nil _ _) initial_sampleWorld hfirstRun).2 _ _ _ _ _ _ _
      _ hfirst hsecondRun hsecond).2.2.1⟩

end QortalRelay.Tickets
