import QortalRelay.Foundation.Store
import QortalRelay.Tickets.KeyId

/-!
# The ticket database

Four buckets survive a restart: the hourly private keys, the markers of spent tickets, the number
of tickets issued to each account in each hour, and the last hour a committed transaction recorded.
A transaction is a function from the database to an error, which rolls everything back, or to the
database it commits. Three transactions write: the one at the start of every descriptor call
(`descriptorTx`), the one that spends a ticket (`redeemTx`) and the one that charges an account
(`quotaTx`); a fourth stores a fresh key (`persistTx`).

Two of them prune records of past hours, one with a loop over all entries that splits each key at
its colons, the other with a loop over the leading twelve digits that stops at the first record it
keeps. On a database the program has written (`Database.WellFormed`) both loops remove exactly the
records of the hours up to their cutoff (`descriptorTx_eq`, `redeemTx_eq`).
-/

set_option autoImplicit false
set_option relaxedAutoImplicit false

namespace QortalRelay.Tickets

open Foundation.Decimal Foundation.Encoding Foundation.Store

/-! ### Records -/

/-- The buckets of the ticket database. -/
structure Database where
  keys : Bucket Text Bytes
  spent : Bucket Text Bytes
  quota : Bucket Text Text
  metadata : Bucket Text Text

/-- A database file that has just been created. -/
def Database.fresh : Database := ⟨.empty, .empty, .empty, .empty⟩

/-- The name of an hourly key. -/
def keyName (revision : Text) (epoch : ℤ) : Text := revision ++ ':' :: formatInt epoch

/-- A record key that begins with an hour in twelve digits. -/
def epochKey (epoch : ℤ) (tail : Text) : Text := formatPadded 12 epoch ++ ':' :: tail

def spentKey (epoch : ℤ) (id : Text) : Text := epochKey epoch id

def quotaKey (epoch : ℤ) (addressHash : Bytes) : Text := epochKey epoch (hexEncode addressHash)

def latestKey : Text := "latestEpoch".toList

/-- The recorded hour. A missing or malformed record reads as zero. -/
def Database.latestEpoch (db : Database) : ℤ :=
  parseIntValue ((db.metadata.get latestKey).getD [])

/-! ### Transactions -/

/-- Why a transaction is rolled back. -/
inductive TxError
  | clockMovedBackwards
  | invalidTicketDatabase
  | number (error : NumError)
  | proofInvalid
  | relayFull
  | capacity
  | quota
  /-- The store itself failed. -/
  | storage
deriving DecidableEq, Repr

/-- One turn of the pruning loop of the descriptor transaction: split at the colons, read the hour
from one of the parts. -/
def visitSplit (index : ℕ) (cutoff : ℤ) (key : Text) : Except TxError Verdict :=
  match (key.splitOn ':')[index]? with
  | none => .error .invalidTicketDatabase
  | some part =>
    match parseInt part with
    | .error e => .error (.number e)
    | .ok epoch => .ok (if epoch ≤ cutoff then .delete else .keep)

/-- One turn of the pruning loop of the redeem transaction: read the hour from the first twelve
bytes, and leave the loop at the first hour after the cutoff. -/
def visitLead (cutoff : ℤ) (key : Text) : Except TxError Verdict :=
  if key.length < 13 then .error .invalidTicketDatabase
  else
    match parseInt (key.take 12) with
    | .error e => .error (.number e)
    | .ok epoch => .ok (if cutoff < epoch then .stop else .delete)

/-- The keys of the records a transaction deleted. -/
structure Deletions where
  keys : List Text
  quota : List Text
  spent : List Text
deriving DecidableEq, Repr

/-- What a pruning transaction commits, and what it deleted on the way. -/
structure Commit where
  db : Database
  deleted : Deletions

/-- The transaction every descriptor call starts with: refuse an hour before the recorded one;
record a later one and prune all buckets. -/
def descriptorTx (now : ℤ) (db : Database) : Except TxError Commit :=
  if now < db.latestEpoch then .error .clockMovedBackwards
  else if db.latestEpoch < now then do
    let deadKeys ← condemned (visitSplit 1 (now - 12)) db.keys.keys
    let deadQuota ← condemned (visitSplit 0 (now - 12)) db.quota.keys
    let deadSpent ← condemned (visitSplit 0 (now - 12)) db.spent.keys
    .ok {
      db := {
        keys := db.keys.deleteAll deadKeys
        quota := db.quota.deleteAll deadQuota
        spent := db.spent.deleteAll deadSpent
        metadata := db.metadata.put latestKey (formatInt now) }
      deleted := ⟨deadKeys, deadQuota, deadSpent⟩ }
  else .ok ⟨db, ⟨[], [], []⟩⟩

/-- The transaction that spends a ticket: prune on its own reading of the hour, refuse a ticket
whose marker is there, and leave a marker. The number of keys is that of the bucket as the
transaction found it. -/
def redeemTx (now : ℤ) (key : Text) (db : Database) : Except TxError Commit := do
  let deadSpent ← condemned (visitLead (now - 12)) db.spent.keys
  let deadQuota ← condemned (visitLead (now - 12)) db.quota.keys
  let spent := db.spent.deleteAll deadSpent
  if (spent.get key).isSome then .error .proofInvalid
  else if 100000 ≤ db.spent.keyN then .error .relayFull
  else .ok {
    db := { db with spent := spent.put key [1], quota := db.quota.deleteAll deadQuota }
    deleted := ⟨[], deadQuota, deadSpent⟩ }

/-- The tickets an account was charged for in an hour. A missing record reads as zero. -/
def Database.charged (db : Database) (key : Text) : ℤ := parseIntValue ((db.quota.get key).getD [])

/-- The transaction that charges an account for a number of tickets. The sum is an `int`. -/
def quotaTx (key : Text) (tickets : ℕ) (db : Database) : Except TxError Database :=
  if 100000 ≤ db.quota.keyN ∧ (db.quota.get key).isNone then .error .capacity
  else if 24 < wrap64 (db.charged key + tickets) then .error .quota
  else .ok { db with quota := db.quota.put key (formatInt (wrap64 (db.charged key + tickets))) }

/-- The transaction that stores a fresh key. -/
def persistTx (name : Text) (raw : Bytes) (db : Database) : Database :=
  { db with keys := db.keys.put name raw }

/-! ### What the program writes -/

/-- Hours that have at most twelve digits. -/
def HourRange (epoch : ℤ) : Prop := 0 ≤ epoch ∧ epoch < 10 ^ 12

/-- Every record has the form the program gives it. -/
structure Database.WellFormed (db : Database) : Prop where
  latest : ∀ text, db.metadata.get latestKey = some text →
    ∃ epoch, HourRange epoch ∧ text = formatInt epoch
  keys : ∀ name ∈ db.keys.keys,
    ∃ revision epoch, IsHash revision ∧ HourRange epoch ∧ name = keyName revision epoch
  spent : ∀ key ∈ db.spent.keys, ∃ epoch tail, HourRange epoch ∧ key = epochKey epoch tail
  quota : ∀ key ∈ db.quota.keys, ∃ epoch tail, HourRange epoch ∧ key = epochKey epoch tail
  charges : ∀ key text, db.quota.get key = some text →
    ∃ count : ℤ, 1 ≤ count ∧ count ≤ 24 ∧ text = formatInt count

theorem wellFormed_fresh : Database.fresh.WellFormed := by
  constructor <;> simp [Database.fresh, Bucket.empty, Bucket.keys, Bucket.get, lookupEntry]

theorem latestEpoch_fresh : Database.fresh.latestEpoch = 0 := rfl

theorem HourRange.lt {epoch : ℤ} (h : HourRange epoch) : epoch < 2 ^ 63 := by
  have := h.2
  norm_num at this ⊢
  omega

theorem Database.WellFormed.latest_nonneg {db : Database} (h : db.WellFormed) :
    0 ≤ db.latestEpoch := by
  unfold Database.latestEpoch
  cases hget : db.metadata.get latestKey with
  | none => decide
  | some text =>
    obtain ⟨epoch, hrange, rfl⟩ := h.latest text hget
    simp only [Option.getD_some]
    rw [parseIntValue_formatInt hrange.1 hrange.lt]
    exact hrange.1

/-! ### Hours of records -/

/-- The hour of a record key. -/
def recordEpoch (key : Text) : ℤ := parseIntValue (key.take 12)

/-- The hour of a key name. -/
def nameEpoch (name : Text) : ℤ := parseIntValue (((name.splitOn ':')[1]?).getD [])

section Hours

variable {epoch : ℤ} (hrange : HourRange epoch)

include hrange

theorem length_formatPadded_twelve : (formatPadded 12 epoch).length = 12 :=
  length_formatPadded (by norm_num) hrange.1 hrange.2

theorem take_epochKey (tail : Text) : (epochKey epoch tail).take 12 = formatPadded 12 epoch := by
  rw [epochKey, List.take_append_of_le_length (length_formatPadded_twelve hrange).ge,
    List.take_of_length_le (length_formatPadded_twelve hrange).le]

theorem parseInt_take_epochKey (tail : Text) :
    parseInt ((epochKey epoch tail).take 12) = .ok epoch := by
  rw [take_epochKey hrange, parseInt_formatPadded 12 hrange.1 hrange.lt]

theorem recordEpoch_epochKey (tail : Text) : recordEpoch (epochKey epoch tail) = epoch := by
  rw [recordEpoch, parseIntValue, parseInt_take_epochKey hrange]

/-- A number holds no separator. -/
theorem beq_colon_of_mem_formatPadded {width : ℕ} :
    ∀ c ∈ formatPadded width epoch, (c == ':') = false := by
  intro c hc
  have hdigit := isDigit_of_mem_formatPadded hrange.1 hc
  rw [beq_eq_false_iff_ne]
  rintro rfl
  exact absurd hdigit (by decide)

theorem splitOn_epochKey (tail : Text) :
    ∃ rest, (epochKey epoch tail).splitOn ':' = formatPadded 12 epoch :: rest := by
  refine ⟨tail.splitOn ':', ?_⟩
  rw [epochKey, List.splitOn_eq_splitOnP, List.splitOn_eq_splitOnP]
  exact List.splitOnP_append_cons_of_forall_mem (beq_colon_of_mem_formatPadded hrange) _
    (by decide) _

theorem visitSplit_epochKey (cutoff : ℤ) (tail : Text) :
    visitSplit 0 cutoff (epochKey epoch tail) =
      .ok (if recordEpoch (epochKey epoch tail) ≤ cutoff then .delete else .keep) := by
  obtain ⟨rest, hsplit⟩ := splitOn_epochKey hrange tail
  rw [recordEpoch_epochKey hrange]
  simp only [visitSplit, hsplit, List.getElem?_cons_zero,
    parseInt_formatPadded 12 hrange.1 hrange.lt]

theorem visitLead_epochKey (cutoff : ℤ) (tail : Text) :
    visitLead cutoff (epochKey epoch tail) =
      .ok (if recordEpoch (epochKey epoch tail) ≤ cutoff then .delete else .stop) := by
  have hlength : ¬ (epochKey epoch tail).length < 13 := by
    rw [epochKey, List.length_append, length_formatPadded_twelve hrange, List.length_cons]
    omega
  rw [visitLead, if_neg hlength, parseInt_take_epochKey hrange, recordEpoch_epochKey hrange]
  by_cases h : epoch ≤ cutoff
  · simp [h, not_lt.mpr h]
  · simp [h, not_le.mp h]

theorem splitOn_keyName {revision : Text} (hrevision : IsHash revision) :
    (keyName revision epoch).splitOn ':' = [revision, formatInt epoch] := by
  have hnone : ∀ c ∈ revision, (c == ':') = false := fun c hc ↦
    by simpa using hrevision.all (fun d ↦ !(d == ':')) (by decide) hc
  have hdigits : ∀ c ∈ formatInt epoch, (c == ':') = false := by
    rw [formatInt_eq_formatPadded_zero hrange.1]
    exact beq_colon_of_mem_formatPadded hrange
  rw [keyName, List.splitOn_eq_splitOnP,
    List.splitOnP_append_cons_of_forall_mem hnone _ (by decide), List.splitOnP_eq_singleton hdigits]

theorem nameEpoch_keyName {revision : Text} (hrevision : IsHash revision) :
    nameEpoch (keyName revision epoch) = epoch := by
  rw [nameEpoch, splitOn_keyName hrange hrevision]
  exact parseIntValue_formatInt hrange.1 hrange.lt

theorem visitSplit_keyName (cutoff : ℤ) {revision : Text} (hrevision : IsHash revision) :
    visitSplit 1 cutoff (keyName revision epoch) =
      .ok (if nameEpoch (keyName revision epoch) ≤ cutoff then .delete else .keep) := by
  rw [nameEpoch_keyName hrange hrevision]
  simp only [visitSplit, splitOn_keyName hrange hrevision, List.getElem?_cons_succ,
    List.getElem?_cons_zero, parseInt_formatInt hrange.1 hrange.lt]

end Hours

/-! ### Both pruning loops are one filter -/

/-- The bucket without the records of the hours up to a cutoff. -/
def prune {V : Type} (epochOf : Text → ℤ) (cutoff : ℤ) (b : Bucket Text V) : Bucket Text V :=
  b.deleteAll (b.keys.filter fun key ↦ decide (epochOf key ≤ cutoff))

theorem get_prune {V : Type} (epochOf : Text → ℤ) (cutoff : ℤ) (b : Bucket Text V) (key : Text) :
    (prune epochOf cutoff b).get key = if epochOf key ≤ cutoff then none else b.get key := by
  rw [prune, get_deleteAll_filter]
  simp

theorem mem_keys_of_mem_keys_prune {V : Type} {epochOf : Text → ℤ} {cutoff : ℤ}
    {b : Bucket Text V} {key : Text} (h : key ∈ (prune epochOf cutoff b).keys) : key ∈ b.keys := by
  rw [Bucket.mem_keys_iff_get_isSome, get_prune] at h
  rw [Bucket.mem_keys_iff_get_isSome]
  by_cases hcut : epochOf key ≤ cutoff
  · simp [hcut] at h
  · simpa [hcut] using h

/-- The keys of a bucket all begin with an hour in twelve digits. -/
def HourKeys {V : Type} (b : Bucket Text V) : Prop :=
  ∀ key ∈ b.keys, ∃ epoch tail, HourRange epoch ∧ key = epochKey epoch tail

theorem condemned_visitSplit {V : Type} {b : Bucket Text V} (h : HourKeys b) (cutoff : ℤ) :
    condemned (visitSplit 0 cutoff) b.keys =
      .ok (b.keys.filter fun key ↦ decide (recordEpoch key ≤ cutoff)) := by
  refine condemned_full fun key hkey ↦ ?_
  obtain ⟨epoch, tail, hrange, rfl⟩ := h key hkey
  simp [visitSplit_epochKey hrange]

theorem condemned_visitLead {V : Type} {b : Bucket Text V} (h : HourKeys b) (cutoff : ℤ) :
    condemned (visitLead cutoff) b.keys =
      .ok (b.keys.filter fun key ↦ decide (recordEpoch key ≤ cutoff)) := by
  refine condemned_early b.sorted (fun key hkey later hlater hlt hdoomed ↦ ?_) fun key hkey ↦ ?_
  · -- Byte order on the keys is the order of their hours.
    obtain ⟨m, tail, hm, rfl⟩ := h key hkey
    obtain ⟨n, tail', hn, rfl⟩ := h later hlater
    have hle := le_of_formatPadded_append_lt (by norm_num) hm.1 hn.1 hm.2 hn.2 hlt
    simp only [recordEpoch_epochKey hm, recordEpoch_epochKey hn, decide_eq_true_eq] at hdoomed ⊢
    omega
  · obtain ⟨epoch, tail, hrange, rfl⟩ := h key hkey
    simp [visitLead_epochKey hrange]

/-- The loop that stops at the first hour after the cutoff leaves the same bucket as the one that
looks at every record: all records of the hours up to the cutoff are gone and the others are there.
-/
theorem pruning_loops_agree {V : Type} {b : Bucket Text V} (h : HourKeys b) (cutoff : ℤ) :
    ∃ pruned, b.sweep (visitLead cutoff) = .ok pruned ∧
      b.sweep (visitSplit 0 cutoff) = .ok pruned ∧
      ∀ epoch tail, HourRange epoch → pruned.get (epochKey epoch tail) =
        if epoch ≤ cutoff then none else b.get (epochKey epoch tail) := by
  refine ⟨prune recordEpoch cutoff b, ?_, ?_, fun epoch tail hrange ↦ ?_⟩
  · rw [Bucket.sweep_eq, condemned_visitLead h]
    rfl
  · rw [Bucket.sweep_eq, condemned_visitSplit h]
    rfl
  · rw [get_prune, recordEpoch_epochKey hrange]

/-- Records of the hours 9 and 10, the digits of the second one being more. -/
def sampleRecords : Bucket Text Bytes :=
  ((Bucket.empty.put (epochKey 10 ['a']) [1]).put (epochKey 9 ['b']) [1])

theorem pruning_loops_agree_sample : HourKeys sampleRecords ∧
    ∃ pruned, sampleRecords.sweep (visitLead 9) = .ok pruned ∧
      sampleRecords.sweep (visitSplit 0 9) = .ok pruned ∧
      pruned.get (epochKey 9 ['b']) = none ∧ pruned.get (epochKey 10 ['a']) = some [1] := by
  have hten : HourRange 10 := by norm_num [HourRange]
  have hnine : HourRange 9 := by norm_num [HourRange]
  have hkeys : HourKeys sampleRecords := by
    intro key hkey
    rw [Bucket.mem_keys_iff_get_isSome, sampleRecords, Bucket.get_put, Bucket.get_put] at hkey
    split_ifs at hkey with hsecond hfirst
    · exact ⟨9, ['b'], hnine, hsecond⟩
    · exact ⟨10, ['a'], hten, hfirst⟩
    · simp at hkey
  obtain ⟨pruned, hlead, hsplit, hget⟩ := pruning_loops_agree hkeys 9
  refine ⟨hkeys, pruned, hlead, hsplit, by simp [hget 9 _ hnine], ?_⟩
  rw [hget 10 _ hten, if_neg (by norm_num), sampleRecords, Bucket.get_put_of_ne,
    Bucket.get_put_self]
  decide

theorem condemned_names {db : Database} (hwf : db.WellFormed) (cutoff : ℤ) :
    condemned (visitSplit 1 cutoff) db.keys.keys =
      .ok (db.keys.keys.filter fun name ↦ decide (nameEpoch name ≤ cutoff)) := by
  refine condemned_full fun name hname ↦ ?_
  obtain ⟨revision, epoch, hrevision, hrange, rfl⟩ := hwf.keys name hname
  simp [visitSplit_keyName hrange cutoff hrevision]

/-- The database without the records of the hours up to a cutoff, with an hour recorded. -/
def Database.advance (db : Database) (now : ℤ) : Database where
  keys := prune nameEpoch (now - 12) db.keys
  spent := prune recordEpoch (now - 12) db.spent
  quota := prune recordEpoch (now - 12) db.quota
  metadata := db.metadata.put latestKey (formatInt now)

/-- The keys of a bucket that are of an hour up to a cutoff. -/
def outdated {V : Type} (epochOf : Text → ℤ) (cutoff : ℤ) (b : Bucket Text V) : List Text :=
  b.keys.filter fun key ↦ decide (epochOf key ≤ cutoff)

theorem descriptorTx_eq {db : Database} (hwf : db.WellFormed) (now : ℤ) :
    descriptorTx now db =
      if now < db.latestEpoch then .error .clockMovedBackwards
      else if db.latestEpoch < now then
        .ok ⟨db.advance now, outdated nameEpoch (now - 12) db.keys,
          outdated recordEpoch (now - 12) db.quota, outdated recordEpoch (now - 12) db.spent⟩
      else .ok ⟨db, [], [], []⟩ := by
  unfold descriptorTx
  rw [condemned_names hwf, condemned_visitSplit hwf.quota, condemned_visitSplit hwf.spent]
  rfl

/-- The database a redeem transaction commits. -/
def Database.redeemed (db : Database) (now : ℤ) (key : Text) : Database :=
  { db with
    spent := (prune recordEpoch (now - 12) db.spent).put key [1]
    quota := prune recordEpoch (now - 12) db.quota }

theorem redeemTx_eq {db : Database} (hwf : db.WellFormed) (now : ℤ) (key : Text) :
    redeemTx now key db =
      if ((prune recordEpoch (now - 12) db.spent).get key).isSome then .error .proofInvalid
      else if 100000 ≤ db.spent.keyN then .error .relayFull
      else .ok ⟨db.redeemed now key, [], outdated recordEpoch (now - 12) db.quota,
        outdated recordEpoch (now - 12) db.spent⟩ := by
  unfold redeemTx
  rw [condemned_visitLead hwf.spent, condemned_visitLead hwf.quota]
  rfl

/-! ### What a committed transaction did -/

section Committed

variable {db db' : Database} (hwf : db.WellFormed)

include hwf in
theorem descriptorTx_ok {now : ℤ} {commit : Commit} (h : descriptorTx now db = .ok commit) :
    db.latestEpoch ≤ now ∧
      (db.latestEpoch = now ∧ commit = ⟨db, [], [], []⟩ ∨
        db.latestEpoch < now ∧ commit.db = db.advance now ∧
          commit.deleted.spent = outdated recordEpoch (now - 12) db.spent) := by
  rw [descriptorTx_eq hwf] at h
  split_ifs at h with hback hahead
  · obtain rfl := Except.ok.inj h
    exact ⟨by omega, Or.inr ⟨hahead, rfl, rfl⟩⟩
  · exact ⟨by omega, Or.inl ⟨by omega, (Except.ok.inj h).symm⟩⟩

include hwf in
theorem redeemTx_ok {now : ℤ} {key : Text} {commit : Commit}
    (h : redeemTx now key db = .ok commit) :
    (prune recordEpoch (now - 12) db.spent).get key = none ∧ db.spent.keyN < 100000 ∧
      commit = ⟨db.redeemed now key, [], outdated recordEpoch (now - 12) db.quota,
        outdated recordEpoch (now - 12) db.spent⟩ := by
  rw [redeemTx_eq hwf] at h
  split_ifs at h with hspent hfull
  exact ⟨Option.not_isSome_iff_eq_none.mp hspent, by omega, (Except.ok.inj h).symm⟩

include hwf in
/-- The transaction on a ticket without a marker commits when the bucket has room. -/
theorem redeemTx_commits {now : ℤ} {key : Text}
    (hnone : (prune recordEpoch (now - 12) db.spent).get key = none)
    (hroom : db.spent.keyN < 100000) :
    ∃ deleted, redeemTx now key db = .ok ⟨db.redeemed now key, deleted⟩ := by
  rw [redeemTx_eq hwf, hnone, if_neg (by simp), if_neg (by omega)]
  exact ⟨_, rfl⟩

theorem quotaTx_ok {key : Text} {tickets : ℕ} (h : quotaTx key tickets db = .ok db') :
    wrap64 (db.charged key + tickets) ≤ 24 ∧ db' =
      { db with quota := db.quota.put key (formatInt (wrap64 (db.charged key + tickets))) } := by
  unfold quotaTx at h
  split_ifs at h with hcapacity hquota
  exact ⟨by omega, (Except.ok.inj h).symm⟩

theorem mem_keys_put {V : Type} {b : Bucket Text V} {key other : Text} {value : V}
    (h : other ∈ (b.put key value).keys) : other = key ∨ other ∈ b.keys := by
  rw [Bucket.mem_keys_iff_get_isSome, Bucket.get_put] at h
  by_cases heq : other = key
  · exact Or.inl heq
  · rw [if_neg heq] at h
    exact Or.inr (Bucket.mem_keys_iff_get_isSome.mpr h)

include hwf in
theorem Database.WellFormed.advance {now : ℤ} (hnow : HourRange now) :
    (db.advance now).WellFormed where
  latest := by
    intro text h
    rw [Database.advance, Bucket.get_put_self, Option.some.injEq] at h
    exact ⟨now, hnow, h.symm⟩
  keys := fun name h ↦ hwf.keys name (mem_keys_of_mem_keys_prune h)
  spent := fun key h ↦ hwf.spent key (mem_keys_of_mem_keys_prune h)
  quota := fun key h ↦ hwf.quota key (mem_keys_of_mem_keys_prune h)
  charges := fun key text h ↦ hwf.charges key text (Bucket.get_of_get_deleteAll h)

include hwf in
theorem Database.WellFormed.descriptorTx {now : ℤ} (hnow : now < 10 ^ 12) {commit : Commit}
    (h : descriptorTx now db = .ok commit) : commit.db.WellFormed := by
  obtain ⟨hle, ⟨-, rfl⟩ | ⟨-, hdb, -⟩⟩ := descriptorTx_ok hwf h
  · exact hwf
  · rw [hdb]
    exact hwf.advance ⟨hwf.latest_nonneg.trans hle, hnow⟩

include hwf in
theorem Database.WellFormed.redeemed {now epoch : ℤ} (hepoch : HourRange epoch) (id : Text) :
    (db.redeemed now (spentKey epoch id)).WellFormed where
  latest := hwf.latest
  keys := hwf.keys
  spent := by
    intro key h
    rcases mem_keys_put h with rfl | h
    · exact ⟨epoch, id, hepoch, rfl⟩
    · exact hwf.spent key (mem_keys_of_mem_keys_prune h)
  quota := fun key h ↦ hwf.quota key (mem_keys_of_mem_keys_prune h)
  charges := fun key text h ↦ hwf.charges key text (Bucket.get_of_get_deleteAll h)

include hwf in
theorem Database.WellFormed.charged_range (key : Text) :
    0 ≤ db.charged key ∧ db.charged key ≤ 24 := by
  unfold Database.charged
  cases hget : db.quota.get key with
  | none => decide
  | some text =>
    obtain ⟨count, hlow, hhigh, rfl⟩ := hwf.charges key text hget
    simp only [Option.getD_some]
    rw [parseIntValue_formatInt (by omega) (by omega)]
    omega

include hwf in
/-- Assumes: at most three tickets, so that the sum does not overflow. -/
theorem Database.WellFormed.wrap64_charged {tickets : ℕ} (htickets : tickets ≤ 3) (key : Text) :
    wrap64 (db.charged key + tickets) = db.charged key + tickets := by
  have hrange := hwf.charged_range key
  exact wrap64_eq_self (by omega) (by omega)

include hwf in
theorem Database.WellFormed.charged_quotaTx {key : Text} {tickets : ℕ} (htickets : tickets ≤ 3)
    (h : Tickets.quotaTx key tickets db = .ok db') :
    db'.charged key = db.charged key + tickets := by
  obtain ⟨hlimit, rfl⟩ := quotaTx_ok h
  have hrange := hwf.charged_range key
  rw [hwf.wrap64_charged htickets] at hlimit ⊢
  rw [Database.charged, Bucket.get_put_self, Option.getD_some]
  exact parseIntValue_formatInt (by omega) (by omega)

include hwf in
theorem Database.WellFormed.quotaTx {epoch : ℤ} (hepoch : HourRange epoch) {addressHash : Bytes}
    {tickets : ℕ} (hpos : 1 ≤ tickets) (htickets : tickets ≤ 3)
    (h : quotaTx (quotaKey epoch addressHash) tickets db = .ok db') : db'.WellFormed := by
  obtain ⟨hlimit, rfl⟩ := quotaTx_ok h
  have hrange := hwf.charged_range (quotaKey epoch addressHash)
  rw [hwf.wrap64_charged htickets] at hlimit ⊢
  refine ⟨hwf.latest, hwf.keys, hwf.spent, fun key hkey ↦ ?_, fun key text htext ↦ ?_⟩
  · rcases mem_keys_put hkey with rfl | hkey
    · exact ⟨epoch, hexEncode addressHash, hepoch, rfl⟩
    · exact hwf.quota key hkey
  · rw [Bucket.get_put] at htext
    split_ifs at htext with heq
    · exact ⟨_, by omega, hlimit, (Option.some.inj htext).symm⟩
    · exact hwf.charges key text htext

include hwf in
theorem Database.WellFormed.persistTx {epoch : ℤ} (hepoch : HourRange epoch) {revision : Text}
    (hrevision : IsHash revision) (raw : Bytes) :
    (persistTx (keyName revision epoch) raw db).WellFormed where
  latest := hwf.latest
  keys := by
    intro name h
    rcases mem_keys_put h with rfl | h
    · exact ⟨revision, epoch, hrevision, hepoch, rfl⟩
    · exact hwf.keys name h
  spent := hwf.spent
  quota := hwf.quota
  charges := hwf.charges

end Committed

/-! ### Records after a transaction -/

theorem latestEpoch_advance (db : Database) {now : ℤ} (hnow : HourRange now) :
    (db.advance now).latestEpoch = now := by
  rw [Database.latestEpoch, Database.advance, Bucket.get_put_self, Option.getD_some,
    parseIntValue_formatInt hnow.1 hnow.lt]

theorem epochKey_injective {m n : ℤ} (hm : HourRange m) (hn : HourRange n) {first second : Text}
    (h : epochKey m first = epochKey n second) : m = n ∧ first = second := by
  have hepoch : m = n := by
    rw [← recordEpoch_epochKey hm first, h, recordEpoch_epochKey hn second]
  subst hepoch
  exact ⟨rfl, by simpa [epochKey] using h⟩

theorem mem_outdated {V : Type} {epoch cutoff : ℤ} (hepoch : HourRange epoch) {tail : Text}
    {b : Bucket Text V} (h : epochKey epoch tail ∈ outdated recordEpoch cutoff b) :
    epoch ≤ cutoff := by
  rw [outdated, List.mem_filter, recordEpoch_epochKey hepoch, decide_eq_true_eq] at h
  exact h.2

theorem get_prune_epochKey {V : Type} {epoch : ℤ} (hepoch : HourRange epoch) (cutoff : ℤ)
    (tail : Text) (b : Bucket Text V) :
    (prune recordEpoch cutoff b).get (epochKey epoch tail) =
      if epoch ≤ cutoff then none else b.get (epochKey epoch tail) := by
  rw [get_prune, recordEpoch_epochKey hepoch]

end QortalRelay.Tickets
