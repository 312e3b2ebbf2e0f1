import QortalRelay.Foundation.Trace
import QortalRelay.Access.Membership
import QortalRelay.Tickets.Database
import QortalRelay.Tickets.Requests

/-!
# The ticket authority as a concurrent machine

Every call of the authority is a thread with a program counter (`Thread`), and the machine
interleaves the atomic moves of all threads (`Act`). A move holds at most one reading of the clock,
one critical section of the authority's lock or of the membership lock, or one database
transaction. The clock advances between moves, and a restart ends all threads, forgets what was in
memory and keeps the database.

What the authority shows to the outside, what its transactions committed and what the group servers
answered is appended to a log. The log is never read by the machine.
-/

set_option autoImplicit false
set_option relaxedAutoImplicit false

namespace QortalRelay.Tickets

open Foundation.Encoding Foundation.Store Foundation.Trace Access

/-! ### Threads -/

/-- What a descriptor call was made for. -/
inductive Caller
  /-- The start of the authority. -/
  | opening
  | request (route : Route) (input : Input)
  /-- The second call of an issue request, after its account was charged. -/
  | sign (application : Application) (checked : Time)
  | redeem (ticket : Ticket)

/-- Where a descriptor call stands; from the second phase on it holds the lock. -/
inductive Phase (Key : Type)
  | enter
  | update (hour : ℤ)
  | lookup (hour : ℤ)
  | persist (hour : ℤ) (key : Key)

/-- A ticket that a committed transaction has marked as spent, with the reading of that
transaction. -/
structure Marker where
  descriptor : Descriptor
  message : Bytes
  readAt : Time
  /-- How much had been logged when the descriptor call of the redemption began. -/
  since : ℕ

/-- A call of the authority, at its place in the code with what it has computed so far. -/
inductive Thread (Key : Type)
  | opening
  /-- The authority has started and accepts calls. -/
  | serving
  | received (request : Request)
  /-- A descriptor call for an hour. `since` is the length of the log when the call began. -/
  | describing (since : ℕ) (epoch : ℤ) (caller : Caller) (phase : Phase Key)
  /-- A challenge request before its nonce is drawn, before it has the lock, and in the loop that
  drops expired challenges. -/
  | drawing (bound : Bound)
  | queued (bound : Bound) (nonce : Text) (created : Time)
  | sweeping (bound : Bound) (nonce : Text) (created : Time) (rest : List Text)
  /-- An issue request before it takes its challenge, and with what it found. -/
  | claiming (application : Application)
  | comparing (application : Application) (found : Option Challenge)
  | asking (application : Application) (pc : LookupPc)
  | rechecking (application : Application) (sent : List Time)
  | charging (application : Application) (checked : Time)
  | redeeming (raw : Bytes)
  | verifying (since : ℕ) (ticket : Ticket) (descriptor : Descriptor) (key : Key)
  | spending (since : ℕ) (descriptor : Descriptor) (message : Bytes)
  /-- A spent ticket before the two readings of its deadline. -/
  | timing (marker : Marker)
  | lasting (marker : Marker) (first : Time)
  /-- A redeem call that has returned a ticket and the deadline of its grant, or an error. -/
  | returned (grant : Option (Marker × Time))
  | finished

/-- The threads that hold one of the eight request slots. -/
def Thread.holdsSlot {Key : Type} : Thread Key → Bool
  | .received _ | .drawing _ | .queued _ _ _ | .sweeping _ _ _ _ | .claiming _ | .comparing _ _
  | .asking _ _ | .rechecking _ _ | .charging _ _ => true
  | .describing _ _ (.request _ _) _ | .describing _ _ (.sign _ _) _ => true
  | _ => false

/-! ### The log -/

/-- An entry of the log, which no step reads. -/
inductive Event
  | refused (refusal : Refusal)
  | catalog (since : ℕ) (descriptor : Descriptor)
  /-- A descriptor call that began at `since` has read an hour and returned a descriptor. -/
  | described (since : ℕ) (hour epoch : ℤ)
  /-- A pruning transaction that read an hour; whether it recorded it, and what it deleted. -/
  | committed (hour : ℤ) (recorded : Bool) (deleted : Deletions)
  /-- A challenge request is answered, with a challenge drawn at a time. -/
  | challenged (bound : Bound) (created : Time) (answer : ChallengeAnswer)
  /-- An issue request got past the challenge check. -/
  | admitted (readAt : Time) (application : Application)
  /-- The group servers answered a lookup. -/
  | checked (address : Text) (result : MembershipResult)
  | issued (sentAt : Time) (application : Application) (checked : Time) (signatures : List Text)
  | spent (marker : Marker)
  | redeemed (marker : Marker) (grantedUntil : Time)
  | redeemFailed

/-! ### Shared state -/

/-- What the threads share: the database, and what is lost in a restart. -/
structure Shared (Key : Type) where
  db : Database
  keys : ℤ → Option Key
  challenges : Bucket Text Challenge
  /-- The thread that holds the lock. -/
  mu : Option ℕ
  members : Members

/-- The state of a process that has just opened a database. -/
def Shared.opened {Key : Type} (db : Database) : Shared Key :=
  ⟨db, fun _ ↦ none, .empty, none, .fresh⟩

section Moves

variable (crypto : Crypto) (codec : Codec) (policy : Policy)

/-! ### Where a call goes on -/

/-- A handler that has answered with an error. -/
def refuse {Key : Type} (status : ℕ) (code : ErrorCode) : Thread Key × List Event :=
  (.finished, [.refused ⟨status, code⟩])

/-- A challenge or issue request once its descriptor is known. -/
def routeRequest {Key : Type} (since : ℕ) (route : Route) (input : Input)
    (descriptor : Descriptor) : Thread Key × List Event :=
  match admitInput codec policy since input descriptor with
  | .error refusal => (.finished, [.refused refusal])
  | .ok bound =>
    match route, input.proof with
    | .challenge, _ => (.drawing bound, [])
    | .issue, some proof => (.claiming ⟨bound, proof⟩, [])
    | _, _ => refuse 403 .proofInvalid

/-- What follows a descriptor call that returned an error. -/
def resumeError {Key : Type} : Caller → Thread Key × List Event
  | .opening => (.finished, [])
  | .request _ _ => refuse 503 .authUnavailable
  | .sign _ _ => refuse 503 .authUnavailable
  | .redeem _ => (.returned none, [.redeemFailed])

/-- What follows a descriptor call that returned a descriptor and its key. -/
def resumeOk (now : Time) (since : ℕ) (descriptor : Descriptor) (key : crypto.Key) :
    Caller → Thread crypto.Key × List Event
  | .opening => (.serving, [])
  | .request .catalog _ => (.finished, [.catalog since descriptor])
  | .request route input => routeRequest codec policy since route input descriptor
  | .sign application checked =>
    match signAll crypto codec key application.bound.blinded with
    | none => refuse 403 .proofInvalid
    | some signatures => (.finished, [.issued now application checked signatures])
  | .redeem ticket => (.verifying since ticket descriptor key, [])

/-- The key of an hour in memory or in the database; none when a fresh one is to be generated. -/
def findKey (shared : Shared crypto.Key) (epoch hour : ℤ) : Except Unit (Option crypto.Key) :=
  match shared.keys epoch with
  | some key => .ok (some key)
  | none =>
    match (shared.db.keys.get (keyName policy.revision epoch)).getD [] with
    | [] => if epoch = hour then .ok none else .error ()
    | raw =>
      match crypto.parsePrivateKey raw with
      | some key => .ok (some key)
      | none => .error ()

/-- The keys in memory with one more, without those of past hours. -/
def rememberKey {Key : Type} (keys : ℤ → Option Key) (epoch hour : ℤ) (key : Key) :
    ℤ → Option Key :=
  fun e ↦ if e ≤ hour - 12 then none else if e = epoch then some key else keys e

/-- What an issue request does with a final membership result. -/
def judge {Key : Type} (application : Application) : MembershipResult → Thread Key × List Event
  | .failed _ => refuse 503 .membershipUnavailable
  | .answered false _ => refuse 403 .accessDenied
  | .answered true checked =>
    if (checked.add (ticketLifetime * Time.second)).unixMilli <
        application.bound.descriptor.expiresAt
    then refuse 503 .authUnavailable
    else (.charging application checked, [])

/-- What an issue request does with the result of a membership call: a positive answer from before
the hour of the key is asked for again. -/
def weigh {Key : Type} (application : Application) (result : MembershipResult) :
    Thread Key × List Event :=
  match result with
  | .answered true checked =>
    if checked.unix < application.bound.descriptor.epoch * 3600 then
      (.rechecking application [], [])
    else judge application result
  | _ => judge application result

/-- What an issue request does once its challenge was taken: the comparisons, then the proof. -/
def compare (now : Time) (application : Application) (found : Option Challenge) :
    Thread crypto.Key × List Event :=
  if challengeHolds crypto policy now application found then
    if application.proof.signed crypto then
      (.asking application .look, [.admitted now application])
    else (.finished, [.admitted now application, .refused ⟨403, .proofInvalid⟩])
  else refuse 403 .proofInvalid

/-- The answer that ends a lookup is logged. -/
def lookupEvents (address : Text) : LookupPc → List Event
  | .storing result => [.checked address result]
  | _ => []

/-! ### Moves -/

/-- One move of the thread `i`, at the clock reading `now`, when the log has `since` entries. -/
inductive Act (now : Time) (i since : ℕ) (shared : Shared crypto.Key) :
    Thread crypto.Key → Shared crypto.Key → Thread crypto.Key × List Event → Prop
  | opening : Act now i since shared .opening shared
      (.describing since now.hour .opening .enter, [])
  | parseRefused (request : Request) (refusal : Refusal)
      (hparse : parseRequest codec request = .error refusal) :
      Act now i since shared (.received request) shared (.finished, [.refused refusal])
  | parsed (request : Request) (input : Input) (hparse : parseRequest codec request = .ok input) :
      Act now i since shared (.received request) shared
        (.describing since now.hour (.request request.route input) .enter, [])
  | enterRefused (start : ℕ) (epoch : ℤ) (caller : Caller) (hmu : shared.mu = none)
      (hwindow : now.hour < epoch ∨ epoch ≤ now.hour - 12) :
      Act now i since shared (.describing start epoch caller .enter) shared (resumeError caller)
  | enter (start : ℕ) (epoch : ℤ) (caller : Caller) (hmu : shared.mu = none)
      (hwindow : ¬ (now.hour < epoch ∨ epoch ≤ now.hour - 12)) :
      Act now i since shared (.describing start epoch caller .enter) { shared with mu := some i }
        (.describing start epoch caller (.update now.hour), [])
  | updateRefused (start : ℕ) (epoch hour : ℤ) (caller : Caller) (error : TxError)
      (htx : descriptorTx hour shared.db = .error error) :
      Act now i since shared (.describing start epoch caller (.update hour))
        { shared with mu := none } (resumeError caller)
  | update (start : ℕ) (epoch hour : ℤ) (caller : Caller) (commit : Commit)
      (htx : descriptorTx hour shared.db = .ok commit) :
      Act now i since shared (.describing start epoch caller (.update hour))
        { shared with db := commit.db }
        (.describing start epoch caller (.lookup hour),
          [.committed hour (decide (shared.db.latestEpoch < hour)) commit.deleted])
  | lookupRefused (start : ℕ) (epoch hour : ℤ) (caller : Caller)
      (hkey : findKey crypto policy shared epoch hour = .error ()) :
      Act now i since shared (.describing start epoch caller (.lookup hour))
        { shared with mu := none } (resumeError caller)
  | generate (start : ℕ) (epoch hour : ℤ) (caller : Caller) (key : crypto.Key)
      (hkey : findKey crypto policy shared epoch hour = .ok none) :
      Act now i since shared (.describing start epoch caller (.lookup hour)) shared
        (.describing start epoch caller (.persist hour key), [])
  | found (start : ℕ) (epoch hour : ℤ) (caller : Caller) (key : crypto.Key)
      (hkey : findKey crypto policy shared epoch hour = .ok (some key)) :
      Act now i since shared (.describing start epoch caller (.lookup hour))
        { shared with keys := rememberKey shared.keys epoch hour key, mu := none }
        (Prod.map id (.described start hour epoch :: ·)
          (resumeOk crypto codec policy now start (descriptorFor crypto codec policy epoch key) key
            caller))
  | persisted (start : ℕ) (epoch hour : ℤ) (caller : Caller) (key : crypto.Key) :
      Act now i since shared (.describing start epoch caller (.persist hour key))
        { shared with
          db := persistTx (keyName policy.revision epoch) (crypto.marshalPrivateKey key) shared.db
          keys := rememberKey shared.keys epoch hour key
          mu := none }
        (Prod.map id (.described start hour epoch :: ·)
          (resumeOk crypto codec policy now start (descriptorFor crypto codec policy epoch key) key
            caller))
  /-- The store or the key generator fails inside a descriptor call. -/
  | describeFailed (start : ℕ) (epoch : ℤ) (caller : Caller) (phase : Phase crypto.Key)
      (hphase : phase ≠ .enter) :
      Act now i since shared (.describing start epoch caller phase) { shared with mu := none }
        (resumeError caller)
  | drawFailed (bound : Bound) :
      Act now i since shared (.drawing bound) shared (refuse 503 .authUnavailable)
  | draw (bound : Bound) (nonce : Bytes) (hnonce : nonce.length = 32) :
      Act now i since shared (.drawing bound) shared (.queued bound (hexEncode nonce) now, [])
  | lock (bound : Bound) (nonce : Text) (created : Time) (order : List Text)
      (hmu : shared.mu = none) (horder : order.Perm shared.challenges.keys) :
      Act now i since shared (.queued bound nonce created) { shared with mu := some i }
        (.sweeping bound nonce created order, [])
  | sweep (bound : Bound) (nonce : Text) (created : Time) (key : Text) (rest : List Text) :
      Act now i since shared (.sweeping bound nonce created (key :: rest))
        { shared with
          challenges :=
            if (shared.challenges.get key).any fun c ↦ now.after c.expires then
              shared.challenges.deleteAll [key]
            else shared.challenges }
        (.sweeping bound nonce created rest, [])
  | crowdedOut (bound : Bound) (nonce : Text) (created : Time)
      (hfull : 256 ≤ shared.challenges.keyN) :
      Act now i since shared (.sweeping bound nonce created []) { shared with mu := none }
        (refuse 429 .rateLimited)
  | insert (bound : Bound) (nonce : Text) (created : Time)
      (hroom : shared.challenges.keyN < 256) :
      Act now i since shared (.sweeping bound nonce created [])
        { shared with
          mu := none
          challenges := shared.challenges.put nonce (bound.challenge crypto created) }
        (.finished, [.challenged bound created
          (challengeAnswer crypto policy bound nonce created)])
  | claim (application : Application) (hmu : shared.mu = none) :
      Act now i since shared (.claiming application)
        { shared with challenges := shared.challenges.deleteAll [application.proof.nonce] }
        (.comparing application (shared.challenges.get application.proof.nonce), [])
  | compare (application : Application) (found : Option Challenge) :
      Act now i since shared (.comparing application found) shared
        (compare crypto policy now application found)
  | ask (application : Application) (pc pc' : LookupPc) (members : Members)
      (hlookup : Lookup now application.proof.authorAddress shared.members pc members (.inl pc')) :
      Act now i since shared (.asking application pc) { shared with members := members }
        (.asking application pc', lookupEvents application.proof.authorAddress pc')
  | asked (application : Application) (pc : LookupPc) (members : Members)
      (result : MembershipResult)
      (hlookup : Lookup now application.proof.authorAddress shared.members pc members
        (.inr result)) :
      Act now i since shared (.asking application pc) { shared with members := members }
        (weigh application result)
  | recheck (application : Application) (sent sent' : List Time)
      (hcheck : CheckGroups now sent (.inl sent')) :
      Act now i since shared (.rechecking application sent) shared
        (.rechecking application sent', [])
  | rechecked (application : Application) (sent : List Time) (result : MembershipResult)
      (hcheck : CheckGroups now sent (.inr result)) :
      Act now i since shared (.rechecking application sent) shared
        (Prod.map id (.checked application.proof.authorAddress result :: ·)
          (judge application result))
  | charge (application : Application) (checked : Time) (db : Database)
      (htx : quotaTx (quotaKey application.bound.descriptor.epoch
        (crypto.sha256 (utf8 application.proof.authorAddress)))
        application.bound.blinded.length shared.db = .ok db) :
      Act now i since shared (.charging application checked) { shared with db := db }
        (.describing since application.bound.descriptor.epoch (.sign application checked) .enter,
          [])
  /-- The quota, the capacity or the store refuses the charge. -/
  | chargeRefused (application : Application) (checked : Time) :
      Act now i since shared (.charging application checked) shared (refuse 429 .rateLimited)
  | ticketRefused (raw : Bytes) (hparse : parseTicket codec raw = none) :
      Act now i since shared (.redeeming raw) shared (.returned none, [.redeemFailed])
  | ticketParsed (raw : Bytes) (ticket : Ticket) (hparse : parseTicket codec raw = some ticket) :
      Act now i since shared (.redeeming raw) shared
        (.describing since ticket.epoch (.redeem ticket) .enter, [])
  | verifyRefused (start : ℕ) (ticket : Ticket) (descriptor : Descriptor) (key : crypto.Key)
      (hverify : verifyTicket crypto codec ticket descriptor key now = none) :
      Act now i since shared (.verifying start ticket descriptor key) shared
        (.returned none, [.redeemFailed])
  | verified (start : ℕ) (ticket : Ticket) (descriptor : Descriptor) (key : crypto.Key)
      (message : Bytes)
      (hverify : verifyTicket crypto codec ticket descriptor key now = some message) :
      Act now i since shared (.verifying start ticket descriptor key) shared
        (.spending start descriptor message, [])
  | spend (start : ℕ) (descriptor : Descriptor) (message : Bytes) (commit : Commit)
      (htx : redeemTx now.hour (spentKey descriptor.epoch (ticketId crypto message)) shared.db =
        .ok commit) :
      Act now i since shared (.spending start descriptor message) { shared with db := commit.db }
        (.timing ⟨descriptor, message, now, start⟩,
          [.committed now.hour false commit.deleted, .spent ⟨descriptor, message, now, start⟩])
  /-- The marker, the size of the bucket or the store refuses the ticket. -/
  | spendRefused (start : ℕ) (descriptor : Descriptor) (message : Bytes) :
      Act now i since shared (.spending start descriptor message) shared
        (.returned none, [.redeemFailed])
  | readFirst (marker : Marker) :
      Act now i since shared (.timing marker) shared (.lasting marker now, [])
  | readSecond (marker : Marker) (first : Time) :
      Act now i since shared (.lasting marker first) shared
        (.returned (some (marker, deadline marker.descriptor first now)),
          [.redeemed marker (deadline marker.descriptor first now)])
  /-- The caller of redeem takes the result. -/
  | collect (grant : Option (Marker × Time)) :
      Act now i since shared (.returned grant) shared (.finished, [])

end Moves

/-! ### The machine -/

/-- The ticket authority with the calls under way, a clock and a record. -/
structure World (crypto : Crypto) where
  clock : Time
  policy : Policy
  shared : Shared crypto.Key
  threads : List (Thread crypto.Key)
  log : List Event

/-- The authority accepts calls: its first thread has returned from the start. -/
def World.isServing {crypto : Crypto} (w : World crypto) : Prop := w.threads.head? = some .serving

/-- A process that starts for the first time, on a database that has just been created. -/
structure Initial {crypto : Crypto} (w : World crypto) : Prop where
  clock : w.clock.Plausible
  shared : w.shared = Shared.opened Database.fresh
  threads : w.threads = [.opening]
  log : w.log = []

variable {crypto : Crypto} {codec : Codec}

/-- The world after a move of a thread. -/
def World.moved (w : World crypto) (i : ℕ) (shared : Shared crypto.Key)
    (next : Thread crypto.Key × List Event) : World crypto :=
  { w with shared := shared, threads := w.threads.set i next.1, log := w.log ++ next.2 }

/-- The world with one more call. -/
def World.called (w : World crypto) (thread : Thread crypto.Key) : World crypto :=
  { w with threads := w.threads ++ [thread] }

/-- The world after a restart under a policy, on the same database. -/
def World.restarted (w : World crypto) (policy : Policy) : World crypto :=
  { w with policy := policy, shared := Shared.opened w.shared.db, threads := [.opening] }

/-- The clock goes on, the process starts again, a request or a ticket comes in, or one of the calls
makes an atomic step. -/
inductive Step (codec : Codec) (w : World crypto) : World crypto → Prop
  | tick (reading : Time) (hmono : w.clock.mono ≤ reading.mono) (hsane : reading.Plausible) :
      Step codec w { w with clock := reading }
  | restart (policy : Policy) : Step codec w (w.restarted policy)
  | request (request : Request) (hserving : w.isServing)
      (hslot : w.threads.countP Thread.holdsSlot < 8) : Step codec w (w.called (.received request))
  | crowded (hserving : w.isServing) (hslot : 8 ≤ w.threads.countP Thread.holdsSlot) :
      Step codec w { w with log := w.log ++ [.refused ⟨429, .rateLimited⟩] }
  | redeem (raw : Bytes) (hserving : w.isServing) : Step codec w (w.called (.redeeming raw))
  | act (i : ℕ) (thread : Thread crypto.Key) (shared : Shared crypto.Key)
      (next : Thread crypto.Key × List Event) (hthread : w.threads[i]? = some thread)
      (hact : Act crypto codec w.policy w.clock i w.log.length w.shared thread shared next) :
      Step codec w (w.moved i shared next)

/-- The wall clock does not go backwards in a step. -/
def WallForward (w w' : World crypto) : Prop := w.clock.wall ≤ w'.clock.wall

end QortalRelay.Tickets
