import QortalRelay.Foundation.Transactions
import QortalRelay.Tickets.Calls

/-!
# Bounds of the ticket database

The transactions of the authority as they are run: statement after statement on the open database,
each write of which may fail, and taken back as a whole when one returns an error (`Transaction`).
They are the transactions of the machine (`update_cases`, `act_transaction`): a refused ticket or a
full bucket also takes back what the same transaction has pruned. In every run, with restarts, the
spent records and the quota records stay within their limit and every quota record holds a number
from 1 to 24 (`database_bounded`).
-/

set_option autoImplicit false
set_option relaxedAutoImplicit false

namespace QortalRelay.Tickets

open Foundation.Decimal Foundation.Encoding Foundation.Store Foundation.Trace
open Foundation.Transactions Access

/-! ### Transactions as they are run -/

/-- The buckets of the database. -/
inductive BucketName
  | keys
  | spent
  | quota
  | metadata
deriving DecidableEq, Repr

/-- The calls of the store that fail in one transaction. -/
structure Faults where
  put : BucketName → Text → Bool
  delete : BucketName → Text → Bool
  commit : Bool

def Faults.none : Faults := ⟨fun _ _ ↦ false, fun _ _ ↦ false, false⟩

def keysField : Field Database (Bucket Text Bytes) where
  get db := db.keys
  set b db := { db with keys := b }
  get_set _ _ := rfl
  set_get _ := rfl
  set_set _ _ _ := rfl

def spentField : Field Database (Bucket Text Bytes) where
  get db := db.spent
  set b db := { db with spent := b }
  get_set _ _ := rfl
  set_get _ := rfl
  set_set _ _ _ := rfl

def quotaField : Field Database (Bucket Text Text) where
  get db := db.quota
  set b db := { db with quota := b }
  get_set _ _ := rfl
  set_get _ := rfl
  set_set _ _ _ := rfl

section Bodies

variable (faults : Faults)

/-- The body of the transaction every descriptor call starts with. -/
def descriptorBody (now : ℤ) : Body Database TxError Unit := do
  let db ← get
  if now < db.latestEpoch then throw .clockMovedBackwards
  else if db.latestEpoch < now then do
    attempt (faults.put .metadata latestKey) .storage fun db ↦
      { db with metadata := db.metadata.put latestKey (formatInt now) }
    keysField.sweepAll (visitSplit 1 (now - 12)) (faults.delete .keys) .storage
    quotaField.sweepAll (visitSplit 0 (now - 12)) (faults.delete .quota) .storage
    spentField.sweepAll (visitSplit 0 (now - 12)) (faults.delete .spent) .storage
  else pure ()

/-- The body of the transaction that spends a ticket. The number of keys is that at the start of the
transaction, before the records are pruned. -/
def redeemBody (now : ℤ) (key : Text) : Body Database TxError Unit := do
  let opened ← get
  spentField.sweepAll (visitLead (now - 12)) (faults.delete .spent) .storage
  quotaField.sweepAll (visitLead (now - 12)) (faults.delete .quota) .storage
  let db ← get
  if (db.spent.get key).isSome then throw .proofInvalid
  else if 100000 ≤ opened.spent.keyN then throw .relayFull
  else attempt (faults.put .spent key) .storage fun db ↦
    { db with spent := db.spent.put key [1] }

/-- The body of the transaction that charges an account. -/
def chargeBody (key : Text) (tickets : ℕ) : Body Database TxError Unit := do
  let db ← get
  if 100000 ≤ db.quota.keyN ∧ (db.quota.get key).isNone then throw .capacity
  else if 24 < wrap64 (db.charged key + tickets) then throw .quota
  else attempt (faults.put .quota key) .storage fun db ↦
    { db with quota := db.quota.put key (formatInt (wrap64 (db.charged key + tickets))) }

/-- The body of the transaction that stores a fresh key. -/
def persistBody (name : Text) (raw : Bytes) : Body Database TxError Unit :=
  attempt (faults.put .keys name) .storage (persistTx name raw)

end Bodies

/-- A transaction of the authority, with what its caller has computed before it. -/
inductive Transaction
  | descriptor (now : ℤ)
  | persist (name : Text) (raw : Bytes)
  | charge (key : Text) (tickets : ℕ)
  | redeem (now : ℤ) (key : Text)
deriving DecidableEq, Repr

namespace Transaction

/-- What the transaction does, with the faults that it meets. -/
def body (faults : Faults) : Transaction → Body Database TxError Unit
  | descriptor now => descriptorBody faults now
  | persist name raw => persistBody faults name raw
  | charge key tickets => chargeBody faults key tickets
  | redeem now key => redeemBody faults now key

/-- The transaction on a database: what it returns, and the database that is left. -/
def update (faults : Faults) (tx : Transaction) (db : Database) : Except TxError Unit × Database :=
  Foundation.Transactions.update (if faults.commit then some .storage else none) (tx.body faults) db

/-- What the transaction commits when no call of the store fails. -/
def commits (db : Database) : Transaction → Except TxError Database
  | descriptor now => (descriptorTx now db).map Commit.db
  | persist name raw => .ok (persistTx name raw db)
  | charge key tickets => quotaTx key tickets db
  | redeem now key => (redeemTx now key db).map Commit.db

/-! ### They are the transactions of the machine -/

theorem outcome_descriptorBody (now : ℤ) (db : Database) :
    (descriptorBody .none now).outcome db =
      (descriptorTx now db).map fun commit ↦ ((), commit.db) := by
  unfold descriptorBody descriptorTx
  rw [outcome_bind]
  simp only [outcome_get, Except.bind]
  split_ifs
  · rfl
  · simp only [outcome_bind, Faults.none, outcome_attempt, Except.bind, Field.outcome_sweepAll,
      keysField, quotaField, spentField]
    cases condemned (visitSplit 1 (now - 12)) db.keys.keys with
    | error e => rfl
    | ok deadKeys =>
      simp only [Except.map]
      cases condemned (visitSplit 0 (now - 12)) db.quota.keys with
      | error e => rfl
      | ok deadQuota =>
        dsimp only
        cases condemned (visitSplit 0 (now - 12)) db.spent.keys with
        | error e => rfl
        | ok deadSpent => rfl
  · rfl

theorem outcome_redeemBody (now : ℤ) (key : Text) (db : Database) :
    (redeemBody .none now key).outcome db =
      (redeemTx now key db).map fun commit ↦ ((), commit.db) := by
  unfold redeemBody redeemTx
  simp only [outcome_bind, outcome_get, Except.bind, Faults.none, Field.outcome_sweepAll,
    quotaField, spentField]
  cases condemned (visitLead (now - 12)) db.spent.keys with
  | error e => rfl
  | ok deadSpent =>
    simp only [Except.map]
    cases condemned (visitLead (now - 12)) db.quota.keys with
    | error e => rfl
    | ok deadQuota =>
      simp only [bind, Except.bind]
      split_ifs <;> rfl

theorem outcome_chargeBody (key : Text) (tickets : ℕ) (db : Database) :
    (chargeBody .none key tickets).outcome db =
      (quotaTx key tickets db).map fun db' ↦ ((), db') := by
  unfold chargeBody quotaTx
  simp only [outcome_bind, outcome_get, Except.bind]
  split_ifs <;> rfl

/-- Without failures the body does what the machine does in one step. -/
theorem outcome_body (tx : Transaction) (db : Database) :
    (tx.body .none).outcome db = (tx.commits db).map fun db' ↦ ((), db') := by
  cases tx with
  | descriptor now =>
    refine (outcome_descriptorBody now db).trans ?_
    rw [commits]
    cases descriptorTx now db <;> rfl
  | persist name raw => rfl
  | charge key tickets => exact outcome_chargeBody key tickets db
  | redeem now key =>
    refine (outcome_redeemBody now key db).trans ?_
    rw [commits]
    cases redeemTx now key db <;> rfl

/-- A failed call of the store is the only other way a transaction can go. -/
theorem falters_body (faults : Faults) (tx : Transaction) :
    Falters .storage (tx.body faults) (tx.body .none) := by
  cases tx with
  | descriptor now =>
    refine (Falters.refl _).bind fun db ↦ .ite (.refl _) (.ite ?_ (.refl _))
    exact (falters_attempt _ _).bind fun _ ↦ (keysField.falters_sweepAll _ _ _).bind fun _ ↦
      (quotaField.falters_sweepAll _ _ _).bind fun _ ↦ spentField.falters_sweepAll _ _ _
  | persist name raw => exact falters_attempt _ _
  | charge key tickets =>
    exact (Falters.refl _).bind fun db ↦ .ite (.refl _) (.ite (.refl _) (falters_attempt _ _))
  | redeem now key =>
    refine (Falters.refl _).bind fun opened ↦ (spentField.falters_sweepAll _ _ _).bind fun _ ↦
      (quotaField.falters_sweepAll _ _ _).bind fun _ ↦ (Falters.refl _).bind fun db ↦ ?_
    exact .ite (.refl _) (.ite (.refl _) (falters_attempt _ _))

/-- How a transaction ends: it commits what the machine commits, or it returns an error and changes
nothing. -/
theorem update_cases (faults : Faults) (tx : Transaction) (db : Database) :
    (∃ db', faults.commit = false ∧ tx.commits db = .ok db' ∧
        tx.update faults db = (.ok (), db')) ∨
      ∃ error, tx.update faults db = (.error error, db) := by
  rw [update, update_eq]
  rcases falters_body faults tx db with hclean | hfault
  · rw [hclean, outcome_body]
    cases tx.commits db with
    | error e => exact Or.inr ⟨e, rfl⟩
    | ok db' =>
      cases faults.commit with
      | false => exact Or.inl ⟨db', rfl, rfl, rfl⟩
      | true => exact Or.inr ⟨.storage, rfl⟩
  · rw [hfault]
    exact Or.inr ⟨.storage, rfl⟩

theorem update_none {tx : Transaction} {db db' : Database} (h : tx.commits db = .ok db') :
    tx.update .none db = (.ok (), db') := by
  rw [update, update_eq, outcome_body, h]
  rfl

/-- The commit fails, if the transaction gets so far. -/
theorem update_failing (tx : Transaction) (db : Database) :
    ∃ error, tx.update { Faults.none with commit := true } db = (.error error, db) :=
  (tx.update_cases _ db).resolve_left fun ⟨_, hcommit, _⟩ ↦ Bool.noConfusion hcommit

end Transaction

section Machine

variable {crypto : Crypto} {codec : Codec}

/-- The transaction a call is about to run. -/
def Thread.transaction (policy : Policy) (now : Time) : Thread crypto.Key → Option Transaction
  | .describing _ _ _ (.update hour) => some (.descriptor hour)
  | .describing _ epoch _ (.persist _ key) =>
    some (.persist (keyName policy.revision epoch) (crypto.marshalPrivateKey key))
  | .charging application _ =>
    some (.charge (quotaKey application.bound.descriptor.epoch
      (crypto.sha256 (utf8 application.proof.authorAddress))) application.bound.blinded.length)
  | .spending _ descriptor message =>
    some (.redeem now.hour (spentKey descriptor.epoch (ticketId crypto message)))
  | _ => none

/-- How a call goes on after an error of its transaction. -/
def Thread.afterError {Key : Type} : Thread Key → Option (Thread Key × List Event)
  | .describing _ _ caller (.update _) | .describing _ _ caller (.persist _ _) =>
    some (resumeError caller)
  | .charging _ _ => some (refuse 429 .rateLimited)
  | .spending _ _ _ => some (.returned none, [.redeemFailed])
  | _ => none

/-- A move is the end of the transaction its call was about to run, for some failures of the store,
and the call goes on as after an error exactly if the transaction returned one. -/
def Runs (policy : Policy) (now : Time) (db : Database) (thread : Thread crypto.Key)
    (db' : Database) (next : Thread crypto.Key × List Event) (tx : Transaction) : Prop :=
  thread.transaction policy now = some tx ∧ ∃ faults result,
    tx.update faults db = (result, db') ∧
      ((∃ error, result = .error error) ↔ thread.afterError = some next)

variable {policy : Policy} {now : Time} {i since : ℕ} {shared shared' : Shared crypto.Key}
  {thread : Thread crypto.Key} {next : Thread crypto.Key × List Event} {db db' : Database}
  {tx : Transaction}

theorem Runs.committed (htx : thread.transaction policy now = some tx)
    (hcommits : tx.commits db = .ok db') (hnext : thread.afterError ≠ some next) :
    Runs policy now db thread db' next tx :=
  ⟨htx, .none, .ok (), Transaction.update_none hcommits, by simp [hnext]⟩

theorem Runs.refused (htx : thread.transaction policy now = some tx)
    (hnext : thread.afterError = some next) : Runs policy now db thread db next tx := by
  obtain ⟨error, herror⟩ := tx.update_failing db
  exact ⟨htx, _, .error error, herror, by simp [hnext]⟩

/-- The moves of the machine that may change the database are the transactions. -/
theorem act_transaction (hact : Act crypto codec policy now i since shared thread shared' next) :
    (thread.transaction policy now = none ∧ shared'.db = shared.db) ∨
      ∃ tx, Runs policy now shared.db thread shared'.db next tx := by
  cases hact with
  | update start epoch hour caller commit htx =>
    refine Or.inr ⟨_, .committed rfl (by rw [Transaction.commits, htx]; rfl) ?_⟩
    cases caller <;> simp [Thread.afterError, resumeError, refuse]
  | persisted start epoch hour caller key =>
    refine Or.inr ⟨_, .committed rfl rfl ?_⟩
    cases caller <;> simp [Thread.afterError, resumeError, refuse, Prod.ext_iff]
  | charge application checked db htx =>
    exact Or.inr ⟨_, .committed rfl htx (by simp [Thread.afterError, refuse])⟩
  | spend start descriptor message commit htx =>
    exact Or.inr ⟨_, .committed rfl (by rw [Transaction.commits, htx]; rfl)
      (by simp [Thread.afterError])⟩
  | updateRefused | chargeRefused | spendRefused => exact Or.inr ⟨_, .refused rfl rfl⟩
  | describeFailed start epoch caller phase hphase =>
    cases phase with
    | enter => exact absurd rfl hphase
    | lookup => exact Or.inl ⟨rfl, rfl⟩
    | update | persist => exact Or.inr ⟨_, .refused rfl rfl⟩
  | _ => exact Or.inl ⟨rfl, rfl⟩

/-! ### Bounds -/

/-- The limits of the two buckets that grow with use. -/
structure Database.Bounded (db : Database) : Prop where
  spent : db.spent.keyN ≤ 100000
  quota : db.quota.keyN ≤ 100000

theorem bounded_fresh : Database.fresh.Bounded := ⟨Nat.zero_le _, Nat.zero_le _⟩

theorem keyN_prune_le {V : Type} (epochOf : Text → ℤ) (cutoff : ℤ) (b : Bucket Text V) :
    (prune epochOf cutoff b).keyN ≤ b.keyN :=
  b.keyN_deleteAll_le _

theorem commit_of_map_eq_ok {x : Except TxError Commit} (h : x.map Commit.db = .ok db') :
    ∃ commit, x = .ok commit ∧ commit.db = db' := by
  cases x with
  | error e => cases h
  | ok commit => exact ⟨commit, rfl, Except.ok.inj h⟩

/-- A transaction that commits keeps the bounds. -/
theorem Database.Bounded.commits (h : db.Bounded) (hwf : db.WellFormed)
    (hcommits : tx.commits db = .ok db') : db'.Bounded := by
  have hspent := h.spent
  have hquota := h.quota
  cases tx with
  | descriptor now =>
    obtain ⟨commit, htx, rfl⟩ := commit_of_map_eq_ok hcommits
    obtain ⟨-, ⟨-, rfl⟩ | ⟨-, hdb, -⟩⟩ := descriptorTx_ok hwf htx
    · exact h
    · rw [hdb]
      exact ⟨(keyN_prune_le _ _ _).trans hspent, (keyN_prune_le _ _ _).trans hquota⟩
  | persist name raw =>
    obtain rfl := Except.ok.inj hcommits
    exact ⟨hspent, hquota⟩
  | charge key tickets =>
    have hroom : ¬(100000 ≤ db.quota.keyN ∧ (db.quota.get key).isNone) := by
      intro hfull
      simp [Transaction.commits, quotaTx, hfull] at hcommits
    obtain ⟨-, rfl⟩ := quotaTx_ok hcommits
    refine ⟨hspent, ?_⟩
    by_cases hknown : (db.quota.get key).isSome
    · exact (Bucket.keyN_put_of_isSome hknown _).trans_le hquota
    · have hlt : db.quota.keyN < 100000 := by
        by_contra hfull
        exact hroom ⟨not_lt.mp hfull, by simpa using hknown⟩
      exact (db.quota.keyN_put_le _ _).trans hlt
  | redeem now key =>
    obtain ⟨commit, htx, rfl⟩ := commit_of_map_eq_ok hcommits
    obtain ⟨-, hroom, rfl⟩ := redeemTx_ok hwf htx
    refine ⟨?_, (keyN_prune_le _ _ _).trans hquota⟩
    have hput := (prune recordEpoch (now - 12) db.spent).keyN_put_le key [1]
    have hprune := keyN_prune_le recordEpoch (now - 12) db.spent
    exact hput.trans (by omega)

/-- What a transaction leaves is within the bounds, however it ends. -/
theorem Runs.bounded (hruns : Runs policy now db thread db' next tx) (hwf : db.WellFormed)
    (h : db.Bounded) : db'.Bounded := by
  obtain ⟨-, faults, result, hupdate, -⟩ := hruns
  rcases tx.update_cases faults db with ⟨committed, -, hcommits, hok⟩ | ⟨error, herror⟩
  · obtain rfl : committed = db' := congrArg Prod.snd (hok.symm.trans hupdate)
    exact h.commits hwf hcommits
  · obtain rfl : db = db' := congrArg Prod.snd (herror.symm.trans hupdate)
    exact h

theorem Step.bounded {w w' : World crypto} (hstep : Step codec w w') (hsound : Sound crypto codec w)
    (h : w.shared.db.Bounded) : w'.shared.db.Bounded := by
  cases hstep with
  | act i thread shared next hthread hact =>
    rcases act_transaction hact with ⟨-, hdb⟩ | ⟨tx, hruns⟩
    · rw [World.moved, hdb]
      exact h
    · exact hruns.bounded hsound.shared.db h
  | _ => exact h

theorem bounded_of_run {guard : World crypto → World crypto → Prop} {w w' : World crypto}
    (hinitial : Initial w) (hrun : Run (Step codec) guard w w') : w'.shared.db.Bounded := by
  refine (hrun.invariant (fun s ↦ Sound crypto codec s ∧ s.shared.db.Bounded)
    (fun s t hs hstep _ ↦ ⟨hstep.sound hs.1, hstep.bounded hs.1 hs.2⟩)
    ⟨sound_of_initial hinitial, ?_⟩).2
  rw [hinitial.shared]
  exact bounded_fresh

/-- In every state that is reached, across restarts, the spent and the quota records are at most
100000 each and every quota record holds a number from 1 to 24. From there a move of a call that is
not about to run a transaction leaves the database as it is; any other move is the run of that
transaction, and if it returns an error, which the call then reports, all four buckets are as they
were. -/
theorem database_bounded {guard : World crypto → World crypto → Prop} {w w' : World crypto}
    (hinitial : Initial w) (hrun : Run (Step codec) guard w w') :
    w'.shared.db.spent.keyN ≤ 100000 ∧ w'.shared.db.quota.keyN ≤ 100000 ∧
    (∀ key text, w'.shared.db.quota.get key = some text →
      ∃ count : ℤ, 1 ≤ count ∧ count ≤ 24 ∧ text = formatInt count) ∧
    ∀ i thread shared next, w'.threads[i]? = some thread →
      Act crypto codec w'.policy w'.clock i w'.log.length w'.shared thread shared next →
      (thread.transaction w'.policy w'.clock = none → shared.db = w'.shared.db) ∧
      ∀ tx, thread.transaction w'.policy w'.clock = some tx → ∃ faults result,
        tx.update faults w'.shared.db = (result, shared.db) ∧
        ((∃ error, result = .error error) ↔ thread.afterError = some next) ∧
        ∀ error, result = .error error → shared.db = w'.shared.db := by
  have hbounded := bounded_of_run hinitial hrun
  refine ⟨hbounded.spent, hbounded.quota, (sound_of_run hinitial hrun).shared.db.charges, ?_⟩
  intro i thread shared next _ hact
  rcases act_transaction hact with ⟨hnone, hdb⟩ | ⟨tx, htx, faults, result, hupdate, hresult⟩
  · refine ⟨fun _ ↦ hdb, fun tx htx ↦ ?_⟩
    rw [hnone] at htx
    cases htx
  · refine ⟨fun hnone ↦ ?_, fun other hother ↦ ?_⟩
    · rw [htx] at hnone
      cases hnone
    · obtain rfl : tx = other := Option.some.inj (htx.symm.trans hother)
      refine ⟨faults, result, hupdate, hresult, ?_⟩
      rintro error rfl
      exact update_error hupdate

/-- A run that leaves one spent record. -/
theorem database_bounded_sample :
    ∃ w', Run (Step sampleCodec) StandStill sampleWorld w' ∧ w'.shared.db.spent.keyN = 1 ∧
      w'.shared.db.spent.keyN ≤ 100000 := by
  obtain ⟨w, deleted, hrun, -, -, -, hspent, -⟩ := redeem_sample
  refine ⟨w, hrun, ?_, (database_bounded initial_sampleWorld hrun).1⟩
  rw [Bucket.keyN, hspent, List.length_singleton]

end Machine

end QortalRelay.Tickets
