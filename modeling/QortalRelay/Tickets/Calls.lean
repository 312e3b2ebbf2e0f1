import QortalRelay.Tickets.Invariants

/-!
# Single calls that succeed

What a call of the authority achieves when nothing interferes and the clock stands still: the
authority starts, a descriptor call returns the key of an hour in memory, a ticket is verified and
spent, a challenge is handed out, and an issue request with a valid proof and a positive membership
answer is signed. Each is a run of the machine, for every policy, key and request that meets the
checks.
-/

set_option autoImplicit false
set_option relaxedAutoImplicit false

namespace QortalRelay.Tickets

open Foundation.Decimal Foundation.Encoding Foundation.Store Foundation.Trace Access

section Calls

variable {crypto : Crypto} {codec : Codec}

/-- The clock stands still in a step. -/
def StandStill (w w' : World crypto) : Prop := w'.clock = w.clock

/-- A thread moves in a step, and is not one that has returned. -/
def Moves (codec : Codec) (w w' : World crypto) : Prop :=
  ∃ i thread shared next, w.threads[i]? = some thread ∧ (∀ grant, thread ≠ .returned grant) ∧
    Act crypto codec w.policy w.clock i w.log.length w.shared thread shared next ∧
    w' = w.moved i shared next

/-- A thread moves, a request comes in or the clock moves on. -/
def Attends (codec : Codec) (w w' : World crypto) : Prop :=
  Moves codec w w' ∨
  (∃ request, w.isServing ∧ w.threads.countP Thread.holdsSlot < 8 ∧
    w' = w.called (.received request)) ∨
  ∃ reading : Time, w.clock.NotAfter reading ∧ reading.Plausible ∧ w' = { w with clock := reading }

/-- A clock that stands still does not go backwards. -/
theorem wallForward_run {w w' : World crypto} (hrun : Run (Step codec) StandStill w w') :
    Run (Step codec) WallForward w w' :=
  hrun.mono fun s t _ (hstill : t.clock = s.clock) ↦ by rw [WallForward, hstill]

/-- The clock stands still while threads move. -/
theorem standStill_run {w w' : World crypto} (hrun : Run (Step codec) (Moves codec) w w') :
    Run (Step codec) StandStill w w' := by
  refine hrun.mono fun s t _ hst ↦ ?_
  obtain ⟨i, thread, shared, next, -, -, -, rfl⟩ := hst
  rfl

theorem attends_run {w w' : World crypto} (hrun : Run (Step codec) (Moves codec) w w') :
    Run (Step codec) (Attends codec) w w' :=
  hrun.mono fun _ _ _ hmoves ↦ Or.inl hmoves

theorem forward_run {w w' : World crypto} (hrun : Run (Step codec) (Attends codec) w w') :
    Run (Step codec) WallForward w w' := by
  refine hrun.mono fun s t _ hst ↦ ?_
  rcases hst with ⟨i, thread, shared, next, -, -, -, rfl⟩ | ⟨request, -, -, rfl⟩ |
    ⟨reading, hlater, -, rfl⟩
  · exact le_rfl
  · exact le_rfl
  · exact hlater.1

theorem run_move {w w' : World crypto} (hrun : Run (Step codec) (Moves codec) w w') (i : ℕ)
    {thread : Thread crypto.Key} (hthread : w'.threads[i]? = some thread)
    (hreturned : ∀ grant, thread ≠ .returned grant) {shared : Shared crypto.Key}
    {next : Thread crypto.Key × List Event}
    (hact : Act crypto codec w'.policy w'.clock i w'.log.length w'.shared thread shared next) :
    Run (Step codec) (Moves codec) w (w'.moved i shared next) :=
  hrun.snoc (.act i thread shared next hthread hact)
    ⟨i, thread, shared, next, hthread, hreturned, hact, rfl⟩

/-- The world in which one more call has come to a thread, with the state it has made of the shared
one and the entries it has logged. -/
def World.newest (w : World crypto) (shared : Shared crypto.Key) (thread : Thread crypto.Key)
    (events : List Event) : World crypto :=
  { w with shared := shared, threads := w.threads ++ [thread], log := w.log ++ events }

theorem called_eq_newest (w : World crypto) (thread : Thread crypto.Key) :
    w.called thread = w.newest w.shared thread [] := by
  simp [World.called, World.newest]

theorem newest_moved (w : World crypto) (shared shared' : Shared crypto.Key)
    (thread : Thread crypto.Key) (events : List Event) (next : Thread crypto.Key × List Event) :
    (w.newest shared thread events).moved w.threads.length shared' next =
      w.newest shared' next.1 (events ++ next.2) := by
  simp [World.moved, World.newest]

/-- The newest call moves. -/
theorem run_newest {w w' : World crypto} {shared shared' : Shared crypto.Key}
    {thread : Thread crypto.Key} {events : List Event} {next : Thread crypto.Key × List Event}
    (hrun : Run (Step codec) (Moves codec) w (w'.newest shared thread events))
    (hreturned : ∀ grant, thread ≠ .returned grant)
    (hact : Act crypto codec w'.policy w'.clock w'.threads.length (w'.log.length + events.length)
      shared thread shared' next) :
    Run (Step codec) (Moves codec) w (w'.newest shared' next.1 (events ++ next.2)) := by
  have hthread : (w'.newest shared thread events).threads[w'.threads.length]? = some thread := by
    simp [World.newest]
  have hact' : Act crypto codec w'.policy w'.clock w'.threads.length
      (w'.newest shared thread events).log.length shared thread shared' next := by
    simpa [World.newest] using hact
  have hmove := run_move hrun w'.threads.length hthread hreturned hact'
  rwa [newest_moved] at hmove

/-- A descriptor call of the newest thread, for an hour in the window whose key is in memory, at the
recorded hour. -/
theorem run_describe {w w' : World crypto} {shared : Shared crypto.Key} {start : ℕ} {epoch : ℤ}
    {caller : Caller} {key : crypto.Key} {events : List Event}
    (hrun : Run (Step codec) (Moves codec) w
      (w'.newest shared (.describing start epoch caller .enter) events))
    (hmu : shared.mu = none) (hwindow : epoch ≤ w'.clock.hour ∧ w'.clock.hour - 12 < epoch)
    (hlatest : shared.db.latestEpoch = w'.clock.hour) (hkey : shared.keys epoch = some key)
    {next : Thread crypto.Key × List Event}
    (hnext : resumeOk crypto codec w'.policy w'.clock start
      (descriptorFor crypto codec w'.policy epoch key) key caller = next) :
    Run (Step codec) (Moves codec) w (w'.newest
      { shared with keys := rememberKey shared.keys epoch w'.clock.hour key } next.1
      (events ++ [.committed w'.clock.hour false ⟨[], [], []⟩,
        .described start w'.clock.hour epoch] ++ next.2)) := by
  have htx : descriptorTx w'.clock.hour shared.db = .ok ⟨shared.db, [], [], []⟩ := by
    simp [descriptorTx, hlatest]
  have h1 := run_newest hrun nofun (.enter start epoch caller hmu (by omega))
  have h2 := run_newest h1 nofun (.update start epoch w'.clock.hour caller _ htx)
  have h3 := run_newest h2 nofun (.found start epoch w'.clock.hour caller key
    (by simp [findKey, hkey]))
  simpa [hlatest, hnext, hmu] using h3

/-- The authority serves at the recorded hour, nobody holds the lock, and the key of the hour is in
memory. -/
structure Idle (w : World crypto) (key : crypto.Key) : Prop where
  serving : w.isServing
  mu : w.shared.mu = none
  latest : w.shared.db.latestEpoch = w.clock.hour
  key : w.shared.keys w.clock.hour = some key

/-- What a start on a new database leaves besides an idle authority. -/
structure Started (w w' : World crypto) : Prop where
  clock : w'.clock = w.clock
  policy : w'.policy = w.policy
  threads : w'.threads = [.serving]
  spent : w'.shared.db.spent = .empty
  quota : w'.shared.db.quota = .empty
  challenges : w'.shared.challenges = .empty
  members : w'.shared.members = .fresh
  log : w'.log = [.committed w.clock.hour (decide (0 < w.clock.hour)) ⟨[], [], []⟩,
    .described 0 w.clock.hour w.clock.hour]

/-- The first start of an authority, with any key it may draw. -/
theorem start_run {w : World crypto} (h : Initial w) (hhour : 0 ≤ w.clock.hour)
    (key : crypto.Key) :
    ∃ w', Run (Step codec) (Moves codec) w w' ∧ Idle w' key ∧ Started w w' := by
  obtain ⟨clock, policy, shared, threads, log⟩ := w
  obtain ⟨hclock, hshared, hthreads, hlog⟩ := h
  simp only at hclock hshared hthreads hlog hhour
  subst hshared hthreads hlog
  have hrange : HourRange clock.hour := ⟨hhour, hclock.hour_lt⟩
  -- The first transaction records the hour, unless the hour is zero.
  obtain ⟨commit, htx, hspent, hquota, hkeys, hlatest, hdeleted⟩ :
      ∃ commit, descriptorTx clock.hour Database.fresh = .ok commit ∧ commit.db.spent = .empty ∧
        commit.db.quota = .empty ∧ commit.db.keys = .empty ∧
        commit.db.latestEpoch = clock.hour ∧ commit.deleted = ⟨[], [], []⟩ := by
    rw [descriptorTx_eq wellFormed_fresh, latestEpoch_fresh, if_neg (not_lt.mpr hhour)]
    rcases hhour.lt_or_eq with hpos | hzero
    · rw [if_pos hpos]
      exact ⟨_, rfl, rfl, rfl, rfl, latestEpoch_advance _ hrange, rfl⟩
    · rw [if_neg (by omega)]
      exact ⟨_, rfl, rfl, rfl, rfl, hzero ▸ latestEpoch_fresh, rfl⟩
  have h0 : Run (Step codec) (Moves codec) (⟨clock, policy, Shared.opened Database.fresh,
    [.opening],
    []⟩ : World crypto) _ := .refl _
  have h1 := run_move h0 0 rfl (by simp) .opening
  have h2 := run_move h1 0 rfl (by simp) (.enter 0 clock.hour .opening rfl (by simp [World.moved]))
  have h3 := run_move h2 0 rfl (by simp) (.update 0 clock.hour clock.hour .opening commit htx)
  have h4 := run_move h3 0 rfl (by simp) (.generate 0 clock.hour clock.hour .opening key
    (by simp [findKey, World.moved, Shared.opened, hkeys]))
  have h5 := run_move h4 0 rfl (by simp) (.persisted 0 clock.hour clock.hour .opening key)
  refine ⟨_, h5, ⟨rfl, rfl, hlatest, ?_⟩, ⟨rfl, rfl, rfl, hspent, hquota, rfl, rfl, ?_⟩⟩
  · simp [World.moved, rememberKey]
  · simp [World.moved, Shared.opened, latestEpoch_fresh, hdeleted, resumeOk]

/-! ### Redeeming -/

/-- A ticket of the current hour that passes the checks gets as far as the transaction. -/
theorem verify_run {w : World crypto} {key : crypto.Key} (h : Idle w key) (raw : Bytes)
    {ticket : Ticket} {message : Bytes} (hparse : parseTicket codec raw = some ticket)
    (hepoch : ticket.epoch = w.clock.hour)
    (hverify : verifyTicket crypto codec ticket
      (descriptorFor crypto codec w.policy w.clock.hour key) key w.clock = some message) :
    Run (Step codec) (Moves codec) (w.called (.redeeming raw)) (w.newest
      { w.shared with keys := rememberKey w.shared.keys w.clock.hour w.clock.hour key }
      (.spending w.log.length (descriptorFor crypto codec w.policy w.clock.hour key) message)
      [.committed w.clock.hour false ⟨[], [], []⟩,
        .described w.log.length w.clock.hour w.clock.hour]) := by
  rw [called_eq_newest]
  have h1 : Run (Step codec) (Moves codec) (w.newest w.shared (.redeeming raw) []) _ := .refl _
  have h2 := run_newest h1 nofun (.ticketParsed raw ticket hparse)
  rw [hepoch] at h2
  have h3 := run_describe h2 h.mu ⟨le_rfl, by omega⟩ h.latest h.key rfl
  have h4 := run_newest h3 nofun (.verified _ ticket _ key message hverify)
  simpa [resumeOk] using h4

/-- A redeem call comes in. -/
theorem call_run {w w' : World crypto} (hserving : w.isServing) (raw : Bytes)
    (hrun : Run (Step codec) (Moves codec) (w.called (.redeeming raw)) w') :
    Run (Step codec) StandStill w w' := by
  have hcalled : Run (Step codec) StandStill w (w.called (.redeeming raw)) :=
    .snoc (.refl w) (.redeem raw hserving) rfl
  exact hcalled.trans (standStill_run hrun)

theorem spend_run (w : World crypto) (shared : Shared crypto.Key) (start : ℕ)
    (descriptor : Descriptor) (message : Bytes) (events : List Event) {commit : Commit}
    (htx : redeemTx w.clock.hour (spentKey descriptor.epoch (ticketId crypto message)) shared.db =
      .ok commit) :
    Run (Step codec) (Moves codec) (w.newest shared (.spending start descriptor message) events)
      (w.newest { shared with db := commit.db }
        (.returned (some (⟨descriptor, message, w.clock, start⟩,
          deadline descriptor w.clock w.clock)))
        (events ++ [.committed w.clock.hour false commit.deleted,
          .spent ⟨descriptor, message, w.clock, start⟩,
          .redeemed ⟨descriptor, message, w.clock, start⟩
            (deadline descriptor w.clock w.clock)])) := by
  have h0 : Run (Step codec) (Moves codec)
    (w.newest shared (.spending start descriptor message) events) _ := .refl _
  have h1 := run_newest h0 (by simp) (.spend start descriptor message commit htx)
  have h2 := run_newest h1 (by simp) (.readFirst ⟨descriptor, message, w.clock, start⟩)
  have h3 := run_newest h2 (by simp) (.readSecond ⟨descriptor, message, w.clock, start⟩ w.clock)
  simpa using h3

theorem Idle.newest {w : World crypto} {key : crypto.Key} (h : Idle w key)
    {shared : Shared crypto.Key} (hmu : shared.mu = none)
    (hlatest : shared.db.latestEpoch = w.clock.hour)
    (hkey : shared.keys w.clock.hour = some key) (thread : Thread crypto.Key)
    (events : List Event) : Idle (w.newest shared thread events) key := by
  refine ⟨?_, hmu, hlatest, hkey⟩
  have hserving := h.serving
  unfold World.isServing at hserving ⊢
  simp [World.newest, hserving]

/-- A ticket of the current hour that passes the checks and has no marker is redeemed. -/
theorem redeem_run {w : World crypto} {key : crypto.Key} (h : Idle w key)
    (hwf : w.shared.db.WellFormed) (raw : Bytes) {ticket : Ticket} {message : Bytes}
    (hparse : parseTicket codec raw = some ticket) (hepoch : ticket.epoch = w.clock.hour)
    (hverify : verifyTicket crypto codec ticket
      (descriptorFor crypto codec w.policy w.clock.hour key) key w.clock = some message)
    (hnone : w.shared.db.spent.get (spentKey w.clock.hour (ticketId crypto message)) = none)
    (hroom : w.shared.db.spent.keyN < 100000) :
    ∃ w' deleted, Run (Step codec) StandStill w w' ∧ Idle w' key ∧ w'.clock = w.clock ∧
      w'.policy = w.policy ∧
      w'.shared.db = w.shared.db.redeemed w.clock.hour
        (spentKey w.clock.hour (ticketId crypto message)) ∧
      w'.log = w.log ++ [.committed w.clock.hour false ⟨[], [], []⟩,
        .described w.log.length w.clock.hour w.clock.hour,
        .committed w.clock.hour false deleted,
        .spent ⟨descriptorFor crypto codec w.policy w.clock.hour key, message, w.clock,
          w.log.length⟩,
        .redeemed ⟨descriptorFor crypto codec w.policy w.clock.hour key, message, w.clock,
          w.log.length⟩
          (deadline (descriptorFor crypto codec w.policy w.clock.hour key) w.clock w.clock)] := by
  have hpruned : (prune recordEpoch (w.clock.hour - 12) w.shared.db.spent).get
      (spentKey w.clock.hour (ticketId crypto message)) = none := by
    rw [get_prune, hnone, ite_self]
  obtain ⟨deleted, htx⟩ := redeemTx_commits hwf hpruned hroom
  have hchecked := verify_run h raw hparse hepoch hverify
  have hspent := call_run h.serving raw (hchecked.trans (spend_run _ _ _ _ _ _ htx))
  refine ⟨_, deleted, hspent, ?_, rfl, rfl, rfl, ?_⟩
  · apply h.newest
    · exact h.mu
    · exact h.latest
    · simp [rememberKey]
  · simp [World.newest]

/-- Assumes: an idle authority, a ticket of the current hour with its marker in the database, and a
reading twelve hours later. The ticket is checked now; its transaction reads the later clock,
deletes the marker and spends the ticket again. -/
theorem respend_run {w : World crypto} {key : crypto.Key} (h : Idle w key)
    (hrange : HourRange w.clock.hour) (hwf : w.shared.db.WellFormed)
    (hroom : w.shared.db.spent.keyN < 100000) (raw : Bytes) {ticket : Ticket} {message : Bytes}
    (hparse : parseTicket codec raw = some ticket) (hepoch : ticket.epoch = w.clock.hour)
    (hverify : verifyTicket crypto codec ticket
      (descriptorFor crypto codec w.policy w.clock.hour key) key w.clock = some message)
    (hmarked : spentKey w.clock.hour (ticketId crypto message) ∈ w.shared.db.spent.keys)
    (late : Time) (hlate : w.clock.NotAfter late) (hsane : late.Plausible)
    (hhour : late.hour = w.clock.hour + 12) :
    ∃ w' deleted marker grantedUntil, Run (Step codec) WallForward w w' ∧
      Idle { w' with clock := ⟨w.clock.wall, late.mono⟩ } key ∧ w'.clock = late ∧
      w'.policy = w.policy ∧ marker.message = message ∧ deleted ≠ ⟨[], [], []⟩ ∧
      w'.log = w.log ++ [.committed w.clock.hour false ⟨[], [], []⟩,
        .described w.log.length w.clock.hour w.clock.hour, .committed late.hour false deleted,
        .spent marker, .redeemed marker grantedUntil] := by
  have hchecked := verify_run h raw hparse hepoch hverify
  have hpruned : (prune recordEpoch (late.hour - 12) w.shared.db.spent).get
      (spentKey w.clock.hour (ticketId crypto message)) = none := by
    rw [spentKey, get_prune_epochKey hrange, if_pos (by omega)]
  obtain ⟨deleted, htx⟩ := redeemTx_commits hwf hpruned hroom
  let shared : Shared crypto.Key :=
    { w.shared with keys := rememberKey w.shared.keys w.clock.hour w.clock.hour key }
  let descriptor := descriptorFor crypto codec w.policy w.clock.hour key
  let events : List Event := [.committed w.clock.hour false ⟨[], [], []⟩,
    .described w.log.length w.clock.hour w.clock.hour]
  have hticked : Step codec (w.newest shared (.spending w.log.length descriptor message) events)
      ({ w with clock := late }.newest shared (.spending w.log.length descriptor message)
        events) := .tick late hlate.2 hsane
  have hspent : Run (Step codec) StandStill _ _ := standStill_run
    (spend_run { w with clock := late } shared w.log.length descriptor message events htx)
  have hrun := ((wallForward_run (call_run h.serving raw hchecked)).snoc hticked hlate.1).trans
    (wallForward_run hspent)
  refine ⟨_, deleted, ⟨descriptor, message, late, w.log.length⟩, deadline descriptor late late,
    hrun, ⟨?_, h.mu, h.latest, ?_⟩, rfl, rfl, rfl, ?_, ?_⟩
  · have hserving := h.serving
    unfold World.isServing at hserving ⊢
    simp [World.newest, hserving]
  · change rememberKey w.shared.keys w.clock.hour w.clock.hour key w.clock.hour = some key
    simp [rememberKey]
  · rintro rfl
    obtain ⟨-, -, hcommit⟩ := redeemTx_ok hwf htx
    have hnone := congrArg (fun commit ↦ commit.deleted.spent) hcommit
    have hmem : spentKey w.clock.hour (ticketId crypto message) ∈
        outdated recordEpoch (late.hour - 12) w.shared.db.spent := by
      rw [outdated, List.mem_filter]
      refine ⟨hmarked, ?_⟩
      rw [spentKey, recordEpoch_epochKey hrange, decide_eq_true_eq]
      omega
    simp only at hnone
    rw [← hnone] at hmem
    simp at hmem
  · simp [World.newest, events]

/-! ### Issuing -/

/-- A request of the current hour gets to where it goes on from its descriptor. -/
theorem request_run {w : World crypto} {key : crypto.Key} (h : Idle w key) {request : Request}
    {input : Input}
    (hparse : parseRequest codec request = .ok input) {next : Thread crypto.Key × List Event}
    (hnext : resumeOk crypto codec w.policy w.clock w.log.length
      (descriptorFor crypto codec w.policy w.clock.hour key) key
      (.request request.route input) = next) :
    Run (Step codec) (Moves codec) (w.called (.received request)) (w.newest
      { w.shared with keys := rememberKey w.shared.keys w.clock.hour w.clock.hour key } next.1
      ([.committed w.clock.hour false ⟨[], [], []⟩,
        .described w.log.length w.clock.hour w.clock.hour] ++ next.2)) := by
  rw [called_eq_newest]
  have h1 : Run (Step codec) (Moves codec) (w.newest w.shared (.received request) []) _ := .refl _
  have h2 := run_newest h1 (by simp) (.parsed request input hparse)
  exact run_describe h2 h.mu ⟨le_rfl, by simp⟩ h.latest h.key hnext

theorem receive_run {w : World crypto} (hserving : w.isServing)
    (hslot : w.threads.countP Thread.holdsSlot < 8) (request : Request) :
    Run (Step codec) (Attends codec) w (w.called (.received request)) :=
  (Run.refl w).snoc (.request request hserving hslot)
    (Or.inr (Or.inl ⟨request, hserving, hslot, rfl⟩))

/-- A challenge request that passes the checks, when no challenge waits. -/
theorem challenge_run {w : World crypto} {key : crypto.Key} (h : Idle w key)
    (hslot : w.threads.countP Thread.holdsSlot < 8) (request : Request)
    (hroute : request.route = .challenge) {input : Input}
    (hparse : parseRequest codec request = .ok input) {bound : Bound}
    (haccepts : admitInput codec w.policy w.log.length input
      (descriptorFor crypto codec w.policy w.clock.hour key) = .ok bound)
    (hempty : w.shared.challenges = .empty) {nonce : Bytes} (hnonce : nonce.length = 32) :
    ∃ w', Run (Step codec) (Attends codec) w w' ∧ Idle w' key ∧ w'.clock = w.clock ∧
      w'.policy = w.policy ∧ w'.threads = w.threads ++ [.finished] ∧ w'.shared.db = w.shared.db ∧
      w'.shared.members = w.shared.members ∧
      w'.shared.challenges =
        Bucket.empty.put (hexEncode nonce) (bound.challenge crypto w.clock) ∧
      w'.log = w.log ++ [.committed w.clock.hour false ⟨[], [], []⟩,
        .described w.log.length w.clock.hour w.clock.hour,
        .challenged bound w.clock
          (challengeAnswer crypto w.policy bound (hexEncode nonce) w.clock)] := by
  have hnext : resumeOk crypto codec w.policy w.clock w.log.length
      (descriptorFor crypto codec w.policy w.clock.hour key) key
      (.request request.route input) = (.drawing bound, []) := by
    simp [hroute, resumeOk, routeRequest, haccepts]
  have h3 := request_run h hparse hnext
  have h4 := run_newest h3 (by simp) (.draw bound nonce hnonce)
  have h5 := run_newest h4 (by simp) (.lock bound (hexEncode nonce) w.clock [] h.mu (by
    simp [hempty, Bucket.keys, Bucket.empty]))
  have h6 := run_newest h5 (by simp) (.insert bound (hexEncode nonce) w.clock (by
    simp [hempty, Bucket.keyN, Bucket.empty]))
  have hcalled : Run (Step codec) (Attends codec) w (w.called (.received request)) :=
    receive_run h.serving hslot request
  refine ⟨_, hcalled.trans (attends_run h6), ?_, rfl, rfl, rfl, rfl, rfl, ?_, ?_⟩
  · apply h.newest
    · rfl
    · exact h.latest
    · simp [rememberKey]
  · simp [World.newest, hempty]
  · simp [World.newest]

/-- An issue request whose challenge waits and whose proof is signed gets past the challenge
check. -/
theorem admit_run {w : World crypto} {key : crypto.Key} (h : Idle w key)
    (hslot : w.threads.countP Thread.holdsSlot < 8) (request : Request)
    (hroute : request.route = .issue) {input : Input}
    (hparse : parseRequest codec request = .ok input) {bound : Bound}
    (haccepts : admitInput codec w.policy w.log.length input
      (descriptorFor crypto codec w.policy w.clock.hour key) = .ok bound) {proof : RelayProof}
    (hproof : input.proof = some proof)
    (hholds : challengeHolds crypto w.policy w.clock ⟨bound, proof⟩
      (w.shared.challenges.get proof.nonce)) (hsigned : proof.signed crypto) :
    Run (Step codec) (Attends codec) w (w.newest
      { w.shared with
        keys := rememberKey w.shared.keys w.clock.hour w.clock.hour key
        challenges := w.shared.challenges.deleteAll [proof.nonce] } (.asking ⟨bound, proof⟩ .look)
      [.committed w.clock.hour false ⟨[], [], []⟩,
        .described w.log.length w.clock.hour w.clock.hour,
        .admitted w.clock ⟨bound, proof⟩]) := by
  have hnext : resumeOk crypto codec w.policy w.clock w.log.length
      (descriptorFor crypto codec w.policy w.clock.hour key) key
      (.request request.route input) = (.claiming ⟨bound, proof⟩, []) := by
    simp [hroute, resumeOk, routeRequest, haccepts, hproof]
  have h3 := request_run h hparse hnext
  have h4 := run_newest h3 (by simp) (.claim ⟨bound, proof⟩ h.mu)
  have h5 := run_newest h4 (by simp) (.compare ⟨bound, proof⟩ _)
  have hcalled : Run (Step codec) (Attends codec) w (w.called (.received request)) :=
    receive_run h.serving hslot request
  refine hcalled.trans (attends_run ?_)
  simpa [compare, hholds, hsigned, h.mu] using h5

/-- Assumes: an issue request past the challenge check, no membership answer or lookup for its
account, room in its quota, and the key of its hour in memory. The servers answer yes at once, the
account is charged, and the request is answered with signatures. -/
theorem sign_run (w : World crypto) (shared : Shared crypto.Key) (application : Application)
    (events : List Event) (hmu : shared.mu = none) (hfresh : shared.members = .fresh)
    (hlatest : shared.db.latestEpoch = w.clock.hour)
    (hwindow : application.bound.descriptor.epoch ≤ w.clock.hour ∧
      w.clock.hour - 12 < application.bound.descriptor.epoch)
    (hsince : application.bound.descriptor.epoch * 3600 ≤ w.clock.unix)
    (hrecent : RecentEnough application w.clock) {key : crypto.Key}
    (hkey : shared.keys application.bound.descriptor.epoch = some key) {db : Database}
    (htx : quotaTx (quotaKey application.bound.descriptor.epoch
      (crypto.sha256 (utf8 application.proof.authorAddress))) application.bound.blinded.length
      shared.db = .ok db) {signatures : List Text}
    (hsign : signAll crypto codec key application.bound.blinded = some signatures) :
    ∃ shared' : Shared crypto.Key, shared'.mu = none ∧ shared'.db = db ∧
      shared'.keys application.bound.descriptor.epoch = some key ∧ Run (Step codec) (Moves codec)
      (w.newest shared (.asking application .look) events)
      (w.newest shared' .finished (events ++ [
        .checked application.proof.authorAddress (.answered true w.clock),
        .committed w.clock.hour false ⟨[], [], []⟩,
        .described (w.log.length + events.length + 1) w.clock.hour
          application.bound.descriptor.epoch,
        .issued w.clock application w.clock signatures])) := by
  have h0 : Run (Step codec) (Moves codec) (w.newest shared (.asking application .look) events) _ :=
    .refl _
  have h1 := run_newest h0 (by simp) (.ask application .look _ _ (.start (by rw [hfresh]; rfl)
    (by rw [hfresh]; rfl) (by rw [hfresh]; decide)))
  have h2 := run_newest h1 (by simp) (.ask application (.checking []) _ _ (.send [] _ .send))
  have h3 := run_newest h2 (by simp) (.ask application (.checking [w.clock]) _ _ (.answer _ _
    (.positive w.clock (List.mem_singleton_self _))))
  have h4 := run_newest h3 (by simp) (.asked application (.storing (.answered true w.clock)) _ _
    (.store true w.clock [] (by simp [hfresh, Members.fresh, dropStale, Bucket.keyN, Bucket.empty,
      Bucket.deleteAll])))
  have hweigh : (weigh application (.answered true w.clock) : Thread crypto.Key × List Event) =
      (.charging application w.clock, []) := by
    simp [weigh, judge, not_lt.mpr hsince, not_lt.mpr hrecent]
  rw [hweigh] at h4
  have h5 := run_newest h4 (by simp) (.charge application w.clock db htx)
  have hlatest' : db.latestEpoch = w.clock.hour := by
    obtain ⟨-, rfl⟩ := quotaTx_ok htx
    exact hlatest
  have hnext : ∀ since, resumeOk crypto codec w.policy w.clock since
      (descriptorFor crypto codec w.policy application.bound.descriptor.epoch key) key
      (.sign application w.clock) =
        (.finished, [.issued w.clock application w.clock signatures]) := by
    simp only [resumeOk, hsign, implies_true]
  have h6 := run_describe h5 hmu hwindow hlatest' hkey (hnext _)
  simp only [lookupEvents, List.append_nil, List.append_assoc, List.length_append,
    List.length_singleton, List.cons_append, List.nil_append] at h6
  refine ⟨_, ?_, ?_, ?_, h6⟩
  · exact hmu
  · rfl
  · simp [rememberKey, hwindow.2]

end Calls

/-! ### A concrete authority -/

section Sample

/-- Primitives as plain as their laws allow: the identity for the hashes, and one RSA key. -/
def sampleCrypto : Crypto where
  sha256 := id
  ripemd160 := id
  ed25519Verify := fun _ _ _ ↦ true
  Key := Unit
  marshalPrivateKey := fun _ ↦ [1]
  parsePrivateKey := fun _ ↦ some ()
  parse_marshal := fun _ ↦ rfl
  marshalPublicKey := fun _ ↦ [0x30, 0x82]
  public_head := fun _ ↦ ⟨0x82, [], rfl, by decide⟩
  verify := fun _ _ _ ↦ true
  blindSign := fun _ value ↦ some value

theorem sampleCrypto_sha256_injective : Function.Injective sampleCrypto.sha256 :=
  Function.injective_id

def samplePolicy : Policy where
  mode := .groups
  revision := List.replicate 64 'a'
  pin := List.replicate 64 'b'
  revision_isHash := by decide
  pin_isHash := by decide

/-- The descriptor of hour zero. -/
def sampleDescriptor : Descriptor where
  epoch := 0
  expiresAt := 43200000
  publicKey := []
  keyId := samplePolicy.keyId sampleCrypto () 0
  policy := samplePolicy.revision
  relayPin := samplePolicy.pin

def sampleMessage : Bytes := messageLead sampleDescriptor.keyId ++ List.replicate 32 0

def sampleTicket : Ticket := ⟨0, sampleDescriptor.keyId, ['m'], []⟩

def sampleBound : Bound := ⟨sampleDescriptor, [[]], 0⟩

/-- The proof for a challenge drawn at time zero with an all-zero nonce. -/
def sampleProof : RelayProof where
  type := issueType
  relayPin := samplePolicy.pin
  policy := samplePolicy.revision
  binding := sampleBound.binding sampleCrypto
  nonce := hexEncode (List.replicate 32 0)
  expiresAt := 60000
  authorAddress := addressForKey sampleCrypto (List.replicate 32 0)
  authorPublicKey := List.replicate 32 '1'
  signature := List.replicate 64 '1'

/-- Decoders that know one ticket and one issue request. -/
def sampleCodec : Codec where
  decodeInput := fun _ ↦ some ⟨some sampleDescriptor, [[]], some sampleProof⟩
  decodeTicket := fun _ ↦ some sampleTicket
  base64Encode := fun _ ↦ []
  base64Decode := fun text ↦ some (if text = ['m'] then sampleMessage else List.replicate 256 0)

/-- The first start of the authority, at time zero. -/
def sampleWorld : World sampleCrypto := ⟨⟨0, 0⟩, samplePolicy, .opened .fresh, [.opening], []⟩

theorem initial_sampleWorld : Initial sampleWorld := ⟨by decide, rfl, rfl, rfl⟩

theorem start_sample : ∃ w, Run (Step sampleCodec) (Moves sampleCodec) sampleWorld w ∧
    Idle w () ∧ Started sampleWorld w :=
  start_run initial_sampleWorld (by decide) ()

theorem verifyTicket_sample {now : Time} (hnow : now.unixMilli < 43200000) :
    verifyTicket sampleCrypto sampleCodec sampleTicket sampleDescriptor () now =
      some sampleMessage :=
  verifyTicket_eq_some rfl hnow rfl rfl (isTicketMessage_append _ List.length_replicate)
    List.length_replicate rfl

theorem verifyTicket_at {w : World sampleCrypto} (hclock : w.clock = sampleWorld.clock)
    (hpolicy : w.policy = samplePolicy) :
    verifyTicket sampleCrypto sampleCodec sampleTicket
      (descriptorFor sampleCrypto sampleCodec w.policy w.clock.hour ()) () w.clock =
        some sampleMessage := by
  rw [hclock, hpolicy]
  exact verifyTicket_sample (by decide)

/-- What the first redemption of the sample ticket knows of it. -/
def sampleMarker : Marker := ⟨sampleDescriptor, sampleMessage, sampleWorld.clock, 2⟩

/-- The sample ticket redeemed once, in the hour of its key. -/
theorem redeem_sample : ∃ w' deleted,
    Run (Step sampleCodec) StandStill sampleWorld w' ∧ Idle w' () ∧ w'.clock = sampleWorld.clock ∧
    w'.policy = samplePolicy ∧
    w'.shared.db.spent.entries = [(spentKey 0 (ticketId sampleCrypto sampleMessage), [1])] ∧
    w'.log = [.committed 0 false ⟨[], [], []⟩, .described 0 0 0, .committed 0 false ⟨[], [], []⟩,
      .described 2 0 0, .committed 0 false deleted, .spent sampleMarker,
      .redeemed sampleMarker (deadline sampleDescriptor sampleWorld.clock sampleWorld.clock)] := by
  obtain ⟨w1, hrun1, hidle, hstarted⟩ := start_sample
  have hwf := (sound_of_run initial_sampleWorld hrun1).shared.db
  have hclock : w1.clock = sampleWorld.clock := hstarted.clock
  obtain ⟨w2, deleted, hrun2, hidle2, hclock2, hpolicy2, hdb2, hlog2⟩ :=
    redeem_run hidle hwf [] rfl (by rw [hclock]; rfl) (verifyTicket_at hclock hstarted.policy)
      (by rw [hstarted.spent]; rfl) (by rw [hstarted.spent]; decide)
  refine ⟨w2, deleted, (standStill_run hrun1).trans hrun2, hidle2, hclock2.trans hclock,
    hpolicy2.trans hstarted.policy, ?_, ?_⟩
  · rw [hdb2, Database.redeemed, hstarted.spent, hclock]
    rfl
  · rw [hlog2, hstarted.log, hclock, hstarted.policy]
    rfl

/-- The sample ticket redeemed in the hour of its key and checked once more in that hour, by a call
whose transaction reads the clock when the key ends. -/
theorem respend_sample : ∃ w' before deleted second grantedUntil,
    Run (Step sampleCodec) WallForward sampleWorld w' ∧
    Idle { w' with clock := ⟨0, w'.clock.mono⟩ } () ∧ w'.clock.hour = 12 ∧
    w'.policy = samplePolicy ∧ second.message = sampleMessage ∧ deleted ≠ ⟨[], [], []⟩ ∧
    w'.log = before ++ [
      .redeemed sampleMarker (deadline sampleDescriptor sampleWorld.clock sampleWorld.clock),
      .committed 0 false ⟨[], [], []⟩, .described before.length.succ 0 0,
      .committed 12 false deleted, .spent second, .redeemed second grantedUntil] := by
  obtain ⟨w1, deleted1, hrun1, hidle, hclock, hpolicy, hspent, hlog⟩ := redeem_sample
  have hwf := (sound_of_run initial_sampleWorld hrun1).shared.db
  have hhour : w1.clock.hour = 0 := by rw [hclock]; rfl
  have hkeys : w1.shared.db.spent.keys = [spentKey 0 (ticketId sampleCrypto sampleMessage)] := by
    simp [Bucket.keys, hspent]
  obtain ⟨w2, deleted, second, grantedUntil, hrun2, hidle2, hclock2, hpolicy2, hsecond, hdeleted,
    hlog2⟩ := respend_run hidle (by rw [hhour]; unfold HourRange; decide) hwf
      (by rw [Bucket.keyN, hspent]; decide) [] rfl (by rw [hhour]; rfl)
      (verifyTicket_at hclock hpolicy) (by rw [hhour, hkeys]; exact List.mem_singleton_self _)
      ⟨12 * 3600 * Time.second, 0⟩ (by rw [hclock]; unfold Time.NotAfter; decide) (by decide)
      (by rw [hhour]; decide)
  have hclock0 : w1.clock.wall = 0 := by rw [hclock]; rfl
  refine ⟨w2, [.committed 0 false ⟨[], [], []⟩, .described 0 0 0,
    .committed 0 false ⟨[], [], []⟩, .described 2 0 0, .committed 0 false deleted1,
    .spent sampleMarker], deleted, second, grantedUntil, (wallForward_run hrun1).trans hrun2,
    ?_, ?_, hpolicy2.trans hpolicy, hsecond, hdeleted, ?_⟩
  · rw [hclock0] at hidle2
    rwa [hclock2]
  · rw [hclock2]; decide
  · rw [hlog2, hlog, hhour]
    rfl

theorem base58Value_replicate (n : ℕ) : base58Value (List.replicate n '1') = some 0 := by
  induction n with
  | zero => rfl
  | succ n ih =>
    rw [List.replicate_succ]
    exact ih

/-- The Base58 text of zero bytes. -/
theorem decodeBase58_replicate {n : ℕ} (hpos : 0 < n) (hlength : n ≤ 100) :
    decodeBase58 (List.replicate n '1') n = some (List.replicate n 0) := by
  have hutf8 : (utf8 (List.replicate n '1')).length = n := by
    simp [utf8, List.flatMap_replicate, String.utf8EncodeChar]
  have htake : (List.replicate n '1').takeWhile (· == '1') = List.replicate n '1' := by
    simp
  have hne : List.replicate n '1' ≠ [] := by
    simp only [ne_eq, List.replicate_eq_nil_iff]
    omega
  simp [decodeBase58, hutf8, base58Value_replicate, htake, hne, bigEndian, not_lt.mpr hlength]

theorem signed_sampleProof : sampleProof.signed sampleCrypto = true := by
  have hkey : decodeBase58 sampleProof.authorPublicKey 32 = some (List.replicate 32 0) :=
    decodeBase58_replicate (by decide) (by decide)
  have hsignature : decodeBase58 sampleProof.signature 64 = some (List.replicate 64 0) :=
    decodeBase58_replicate (by decide) (by decide)
  rw [RelayProof.signed, hkey, hsignature]
  simp only [Bool.and_eq_true, decide_eq_true_eq]
  exact ⟨rfl, rfl⟩

/-- A request to a path, with a body the sample decoders accept. -/
def sampleRequest (route : Route) : Request := ⟨true, route, some []⟩

theorem admitInput_sample (since : ℕ) :
    admitInput sampleCodec samplePolicy since ⟨some sampleDescriptor, [[]], some sampleProof⟩
      sampleDescriptor = .ok ⟨sampleDescriptor, [[]], since⟩ := by
  refine admitInput_eq_ok since rfl rfl (by decide) fun b hb ↦ ?_
  obtain rfl := List.mem_singleton.mp hb
  exact ⟨List.replicate 256 0, rfl, List.length_replicate⟩

/-- An issue request of an account that got past the challenge check. -/
def sampleApplication : Application := ⟨⟨sampleDescriptor, [[]], 5⟩, sampleProof⟩

/-- A clock that moves on within the first hour. -/
theorem tick_sample {w : World sampleCrypto} {t : Time} (hclock : (⟨0, 0⟩ : Time).NotAfter w.clock)
    (ht : w.clock.NotAfter t) (hfirst : t.wall < 3600 * Time.second) :
    t.hour = 0 ∧ Run (Step sampleCodec) (Attends sampleCodec) w { w with clock := t } := by
  have hwall : 0 ≤ t.wall := hclock.1.trans ht.1
  have hunix : t.unix = t.wall / 10 ^ 9 := rfl
  have hsecond : Time.second = 10 ^ 9 := rfl
  have hsane : t.Plausible := by
    rw [Time.Plausible]
    omega
  refine ⟨?_, (Run.refl w).snoc (.tick t ht.2 hsane) (Or.inr (Or.inr ⟨t, ht, hsane, rfl⟩))⟩
  rw [Time.hour_eq, if_pos (Or.inl (by omega))]
  omega

/-- A challenge drawn at time zero and claimed before its minute is over. -/
theorem admit_sample {claimed : Time} (hclaimed : (⟨0, 0⟩ : Time).NotAfter claimed)
    (hminute : claimed.wall ≤ Time.minute ∧ claimed.mono ≤ Time.minute) :
    ∃ (w : World sampleCrypto) (shared : Shared sampleCrypto.Key),
    Run (Step sampleCodec) (Attends sampleCodec) sampleWorld
      (w.newest shared (.asking sampleApplication .look) [.committed 0 false ⟨[], [], []⟩,
        .described 5 0 0, .admitted claimed sampleApplication]) ∧
    w.isServing ∧ w.clock = claimed ∧ w.policy = samplePolicy ∧ shared.mu = none ∧
    shared.members = .fresh ∧ shared.db.latestEpoch = 0 ∧ shared.db.quota = .empty ∧
    shared.db.spent = .empty ∧ shared.keys 0 = some () ∧
    w.log = [.committed 0 false ⟨[], [], []⟩, .described 0 0 0, .committed 0 false ⟨[], [], []⟩,
      .described 2 0 0, .challenged ⟨sampleDescriptor, [[]], 2⟩ ⟨0, 0⟩ sampleProof.answer] := by
  obtain ⟨w1, hrun1, hidle, hstarted⟩ := start_sample
  have hnonce : (List.replicate 32 0 : Bytes).length = 32 := List.length_replicate
  have hclock : w1.clock = ⟨0, 0⟩ := hstarted.clock
  have hpolicy : w1.policy = samplePolicy := hstarted.policy
  obtain ⟨w2, hrun2, hidle2, hclock2, hpolicy2, hthreads2, hdb2, hmembers2, hchallenges2, hlog2⟩ :=
    challenge_run hidle (by simp [hstarted.threads, Thread.holdsSlot]) (sampleRequest .challenge)
      rfl
      rfl (by rw [hclock, hpolicy]; exact admitInput_sample _) hstarted.challenges hnonce
  rw [hclock] at hclock2 hchallenges2 hlog2
  rw [hpolicy] at hpolicy2 hlog2
  rw [hstarted.log] at hlog2
  have hlength : w2.log.length = 5 := by rw [hlog2]; rfl
  have hshort : Time.minute < 3600 * Time.second := by decide
  obtain ⟨hhour, hticked⟩ := tick_sample (w := w2) (by rw [hclock2]; exact .refl _)
    (hclock2 ▸ hclaimed) (hminute.1.trans_lt hshort)
  have hidle3 : Idle { w2 with clock := claimed } () := by
    have hlatest := hidle2.latest
    have hkey := hidle2.key
    rw [hclock2] at hlatest hkey
    exact ⟨hidle2.serving, hidle2.mu, hlatest.trans hhour.symm, by rw [hhour]; exact hkey⟩
  have hfresh : claimed.after ⟨Time.minute, Time.minute⟩ = false := by
    simp [Time.after, hminute.2]
  have hrun3 := admit_run hidle3
    (by simp [hthreads2, hstarted.threads, Thread.holdsSlot]) (sampleRequest .issue) rfl rfl
    (by rw [hhour, hpolicy2]; exact admitInput_sample _) rfl
    (challengeHolds_iff.mpr ⟨_, by rw [hchallenges2]; exact Bucket.get_put_self _ _ _,
      hfresh, rfl, rfl, rfl, by rw [hpolicy2]; rfl, by rw [hpolicy2]; rfl, rfl, rfl⟩)
    signed_sampleProof
  rw [hhour, hlength] at hrun3
  refine ⟨{ w2 with clock := claimed }, _,
    (((attends_run hrun1).trans hrun2).trans hticked).trans hrun3, hidle2.serving, rfl, hpolicy2,
    hidle2.mu, ?_, ?_, ?_, ?_, ?_, ?_⟩
  · exact hmembers2.trans hstarted.members
  · exact hidle3.latest.trans hhour
  · rw [hdb2]
    exact hstarted.quota
  · rw [hdb2]
    exact hstarted.spent
  · rfl
  · exact hlog2

/-- The sample request is signed at any later time of the first hour. -/
theorem issue_sample {claimed late : Time} (hclaimed : (⟨0, 0⟩ : Time).NotAfter claimed)
    (hminute : claimed.wall ≤ Time.minute ∧ claimed.mono ≤ Time.minute)
    (hlate : claimed.NotAfter late) (hfirst : late.wall < 3600 * Time.second) : ∃ w',
    Run (Step sampleCodec) (Attends sampleCodec) sampleWorld w' ∧ Idle w' () ∧ w'.clock = late ∧
    w'.policy = samplePolicy ∧ w'.shared.db.spent = .empty ∧
    w'.log = [.committed 0 false ⟨[], [], []⟩, .described 0 0 0,
      .committed 0 false ⟨[], [], []⟩, .described 2 0 0,
      .challenged ⟨sampleDescriptor, [[]], 2⟩ ⟨0, 0⟩ sampleProof.answer,
      .committed 0 false ⟨[], [], []⟩, .described 5 0 0, .admitted claimed sampleApplication,
      .checked sampleProof.authorAddress (.answered true late), .committed 0 false ⟨[], [], []⟩,
      .described 9 0 0, .issued late sampleApplication late [[]]] := by
  obtain ⟨w, shared, hrun, hserving, hclock, hpolicy, hmu, hmembers, hlatest, hquota, hspent, hkey,
    hlog⟩ := admit_sample hclaimed hminute
  have hwall : 0 ≤ late.wall := hclaimed.1.trans hlate.1
  have hunix : late.unix = late.wall / 10 ^ 9 := rfl
  have hmilli : (late.add (ticketLifetime * Time.second)).unixMilli =
      (late.wall + 43200 * 10 ^ 9) / 10 ^ 6 := rfl
  let events : List Event := [.committed 0 false ⟨[], [], []⟩, .described 5 0 0,
    .admitted claimed sampleApplication]
  obtain ⟨hhour, hticked⟩ := tick_sample
    (w := w.newest shared (.asking sampleApplication .look) events)
    (by rw [World.newest, hclock]; exact hclaimed) (by rw [World.newest, hclock]; exact hlate)
    hfirst
  have htx : ∃ db, quotaTx (quotaKey 0 (utf8 sampleProof.authorAddress)) 1 shared.db = .ok db := by
    have hcharged : ∀ key, shared.db.charged key = 0 := fun key ↦ by
      rw [Database.charged, hquota]
      rfl
    have hroom : ∀ key, ¬ (100000 ≤ shared.db.quota.keyN ∧ (shared.db.quota.get key).isNone) := by
      simp [hquota, Bucket.keyN, Bucket.empty]
    exact ⟨_, (if_neg (hroom _)).trans (if_neg (by rw [hcharged]; decide))⟩
  obtain ⟨db, htx⟩ := htx
  have hsign : signAll sampleCrypto sampleCodec () [[]] = some [[]] := rfl
  obtain ⟨shared', hmu', hdb', hkey', hsigned⟩ := sign_run { w with clock := late } shared
    sampleApplication events hmu hmembers (hlatest.trans hhour.symm)
    ⟨hhour.ge, by simp [hhour]; decide⟩ (by rw [hunix]; change 0 * 3600 ≤ _; omega)
    (by rw [RecentEnough, hmilli]; change 43200000 ≤ _; omega) hkey htx hsign
  obtain ⟨-, hcharged⟩ := quotaTx_ok htx
  refine ⟨_, (hrun.trans hticked).trans (attends_run hsigned), ⟨?_, hmu', ?_, ?_⟩, rfl, hpolicy, ?_,
    ?_⟩
  · unfold World.isServing at hserving ⊢
    simp [World.newest, hserving]
  · change shared'.db.latestEpoch = late.hour
    rw [hdb', hcharged, hhour]
    exact hlatest
  · change shared'.keys late.hour = some ()
    rw [hhour]
    exact hkey'
  · change shared'.db.spent = .empty
    rw [hdb', hcharged]
    exact hspent
  · simp only [World.newest, hlog, hhour]
    rfl

end Sample

end QortalRelay.Tickets
