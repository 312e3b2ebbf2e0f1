import QortalRelay.Foundation.Encoding
import QortalRelay.Foundation.Tally
import QortalRelay.Foundation.Trace
import Mathlib.Data.List.Lex
import Mathlib.Data.Char

/-!
# Admission to the relay

The relay counts its connections, in all and by source, and the handlers that hold a session slot,
in all and by source. A connection is counted when it is accepted (`connectionContext`) and
discounted by the callback of its context; a handler takes its slot with `acquire` and gives it back
with `release` when it returns, under the source it took it with. In every run the counters are the
tallies of the connections and handlers that are there, and stay within their limits
(`admission_counters`).
-/

set_option autoImplicit false
set_option relaxedAutoImplicit false

namespace QortalRelay.Admission

open Foundation Foundation.Encoding Foundation.Store Foundation.Trace

/-! ### Connections -/

/-- A connection is accepted or refused. The tally is `connectionCount` with `connections`. -/
def connectionContext (connections : Tally Text) (source : Text) : Tally Text × Bool :=
  if connections.total ≥ 512 ∨ connections.count source ≥ 32 then (connections, false)
  else (connections.add source, true)

/-- The callback of the context of an accepted connection. -/
def connectionDone (connections : Tally Text) (source : Text) : Tally Text :=
  connections.remove source

/-- The counters are the tally of the open connections, within their limits. -/
structure ConnectionsOk (connections : Tally Text) (holders : Multiset Text) : Prop where
  counts : connections.Counts holders
  total_le : connections.total ≤ 512
  count_le : ∀ source, connections.count source ≤ 32

theorem connectionsOk_empty : ConnectionsOk .empty 0 :=
  ⟨Tally.counts_empty, by decide, fun _ ↦ by simp [Tally.count, Tally.empty]⟩

section Connections

variable {connections : Tally Text} {holders : Multiset Text} {source : Text}

theorem connectionContext_eq_of_refused (h : (connectionContext connections source).2 = false) :
    (connectionContext connections source).1 = connections := by
  unfold connectionContext at h ⊢
  split_ifs with hfull
  · rfl
  · rw [if_neg hfull] at h
    cases h

theorem ConnectionsOk.accept (h : ConnectionsOk connections holders)
    (haccepted : (connectionContext connections source).2 = true) :
    ConnectionsOk (connectionContext connections source).1 (source ::ₘ holders) := by
  unfold connectionContext at haccepted ⊢
  split_ifs at haccepted ⊢ with hfull
  simp only [not_or, ge_iff_le, not_le] at hfull
  refine ⟨h.counts.add source, ?_, fun other ↦ ?_⟩
  · change connections.total + 1 ≤ 512
    omega
  · rw [Tally.count_add]
    split_ifs
    · omega
    · exact h.count_le other

theorem ConnectionsOk.done (h : ConnectionsOk connections (source ::ₘ holders)) :
    ConnectionsOk (connectionDone connections source) holders := by
  have hremoved : (connectionDone connections source).Counts holders := h.counts.remove
  refine ⟨hremoved, ?_, fun other ↦ (h.counts.count_le hremoved other).trans (h.count_le other)⟩
  have hle := h.total_le
  change connections.total - 1 ≤ 512
  omega

end Connections

/-! ### Sessions -/

/-- What the server keeps of the handlers; the tally is `activeSessions` with `activeByAddress`. -/
structure Sessions where
  maxSessions : ℤ
  active : Tally Text
  closed : Bool

namespace Sessions

/-- The sessions of a server that has just been started. -/
def start (maxSessions : ℤ) : Sessions :=
  ⟨if maxSessions ≤ 0 then 256 else maxSessions, .empty, false⟩

/-- Takes a place for a tunnel of a source, if there is one; eight at most for each source. -/
def acquire (sessions : Sessions) (source : Text) : Sessions × Bool :=
  if sessions.closed ∨ sessions.active.total ≥ sessions.maxSessions ∨
      sessions.active.count source ≥ 8 then (sessions, false)
  else ({ sessions with active := sessions.active.add source }, true)

/-- Gives the place of a tunnel back. -/
def release (sessions : Sessions) (source : Text) : Sessions :=
  { sessions with
    active := {
      total :=
        if sessions.active.total > 0 then sessions.active.total - 1 else sessions.active.total
      counts :=
        if sessions.active.count source ≤ 1 then sessions.active.counts.deleteAll [source]
        else sessions.active.counts.put source (sessions.active.count source - 1) } }

def close (sessions : Sessions) : Sessions := { sessions with closed := true }

/-- The counters are the tally of the handlers, within their limits. -/
structure Ok (sessions : Sessions) (holders : Multiset Text) : Prop where
  active : sessions.active.Counts holders
  limit : 0 < sessions.maxSessions
  total_le : sessions.active.total ≤ sessions.maxSessions
  count_le : ∀ source, sessions.active.count source ≤ 8

theorem ok_start (maxSessions : ℤ) : (start maxSessions).Ok 0 := by
  have hlimit : 0 < (start maxSessions).maxSessions := by
    simp only [start]
    split_ifs <;> omega
  exact ⟨Tally.counts_empty, hlimit, hlimit.le, fun _ ↦ by simp [start, Tally.count, Tally.empty]⟩

variable {sessions : Sessions} {holders : Multiset Text}

theorem acquire_eq_of_refused {source : Text} (h : (sessions.acquire source).2 = false) :
    (sessions.acquire source).1 = sessions := by
  unfold acquire at h ⊢
  split_ifs with hfull
  · rfl
  · rw [if_neg hfull] at h
    cases h

theorem Ok.acquire (h : sessions.Ok holders) {source : Text}
    (hacquired : (sessions.acquire source).2 = true) :
    (sessions.acquire source).1.Ok (source ::ₘ holders) := by
  unfold Sessions.acquire at hacquired ⊢
  split_ifs at hacquired ⊢ with hfull
  simp only [not_or, ge_iff_le, not_le] at hfull
  have hadded := h.active.add source
  refine ⟨hadded, h.limit, ?_, fun other ↦ ?_⟩
  · change sessions.active.total + 1 ≤ sessions.maxSessions
    omega
  · rw [Tally.count_add]
    split_ifs
    · omega
    · exact h.count_le other

/-- A handler that holds a slot gives it back: the saturating branches do not come into play. -/
theorem Ok.release {source : Text} (h : sessions.Ok (source ::ₘ holders)) :
    (sessions.release source).Ok holders := by
  have htotal : sessions.active.total = holders.card + 1 := by
    rw [h.active.total, Multiset.card_cons, Nat.cast_succ]
  have hreleased : (sessions.release source).active.Counts holders := by
    refine h.active.decrement (if_pos (by omega)) fun other ↦ ?_
    simp only [Sessions.release]
    by_cases hlast : sessions.active.count source ≤ 1
    · by_cases hsame : other = source <;> simp [hlast, hsame, Bucket.get_deleteAll]
    · rw [if_neg hlast, if_neg hlast, Bucket.get_put]
  refine ⟨hreleased, h.limit, ?_, fun other ↦ ?_⟩
  · have hle := h.total_le
    rw [hreleased.total]
    change (holders.card : ℤ) ≤ sessions.maxSessions
    omega
  · exact (h.active.count_le hreleased other).trans (h.count_le other)

theorem Ok.close (h : sessions.Ok holders) : sessions.close.Ok holders :=
  ⟨h.active, h.limit, h.total_le, h.count_le⟩

end Sessions

/-! ### The relay as far as it counts -/

/-- The counters, and the connections and handlers there have been: the source under which each is
counted, or none if it was refused or has ended. -/
structure Gate where
  connections : Tally Text
  sessions : Sessions
  accepted : List (Option Text)
  handlers : List (Option Text)

/-- A connection is accepted or ends, a request asks for a tunnel or its handler returns, or the
relay closes. -/
inductive Event
  | accept (source : Text)
  /-- The callback of the context of a connection. -/
  | connectionEnds (i : ℕ)
  | opens (source : Text)
  | handlerReturns (i : ℕ)
  | close

namespace Gate

def start (maxSessions : ℤ) : Gate := ⟨.empty, .start maxSessions, [], []⟩

/-- What is not there to end, or has ended already, changes nothing. -/
def act (gate : Gate) : Event → Gate
  | .accept source =>
    let (connections, accepted) := connectionContext gate.connections source
    { gate with
      connections := connections
      accepted := gate.accepted ++ [if accepted then some source else none] }
  | .connectionEnds i =>
    match gate.accepted[i]? with
    | some (some source) =>
      { gate with
        connections := connectionDone gate.connections source
        accepted := gate.accepted.set i none }
    | _ => gate
  | .opens source =>
    let (sessions, acquired) := gate.sessions.acquire source
    { gate with
      sessions := sessions
      handlers := gate.handlers ++ [if acquired then some source else none] }
  | .handlerReturns i =>
    match gate.handlers[i]? with
    | some (some source) =>
      { gate with
        sessions := gate.sessions.release source
        handlers := gate.handlers.set i none }
    | _ => gate
  | .close => { gate with sessions := gate.sessions.close }

def run (maxSessions : ℤ) (events : List Event) : Gate := events.foldl act (start maxSessions)

/-- The counters are those of the connections and the tunnels that are open. -/
structure Ok (gate : Gate) : Prop where
  connections : ConnectionsOk gate.connections (taken gate.accepted)
  sessions : gate.sessions.Ok (taken gate.handlers)

theorem Ok.act {gate : Gate} (h : gate.Ok) (event : Event) : (gate.act event).Ok := by
  cases event with
  | accept source =>
    refine ⟨?_, h.sessions⟩
    simp only [Gate.act]
    cases haccepted : (connectionContext gate.connections source).2 with
    | true => simpa using h.connections.accept haccepted
    | false => simpa [connectionContext_eq_of_refused haccepted] using h.connections
  | connectionEnds i =>
    simp only [Gate.act]
    split
    · next source hplace =>
      refine ⟨?_, h.sessions⟩
      have hconnections := h.connections
      rw [taken_set_free hplace] at hconnections
      exact hconnections.done
    · exact h
  | opens source =>
    refine ⟨h.connections, ?_⟩
    simp only [Gate.act]
    cases hacquired : (gate.sessions.acquire source).2 with
    | true => simpa using h.sessions.acquire hacquired
    | false => simpa [Sessions.acquire_eq_of_refused hacquired] using h.sessions
  | handlerReturns i =>
    simp only [Gate.act]
    split
    · next source hplace =>
      refine ⟨h.connections, ?_⟩
      have hsessions := h.sessions
      rw [taken_set_free hplace] at hsessions
      exact hsessions.release
    · exact h
  | close => exact ⟨h.connections, h.sessions.close⟩

theorem ok_run (maxSessions : ℤ) (events : List Event) : (run maxSessions events).Ok := by
  induction events using List.reverseRecOn with
  | nil => exact ⟨connectionsOk_empty, Sessions.ok_start maxSessions⟩
  | append_singleton events event ih =>
    rw [run, List.foldl_append]
    exact ih.act event

theorem sessions_run (maxSessions : ℤ) (events : List Event) :
    (run maxSessions events).sessions.maxSessions = (Sessions.start maxSessions).maxSessions ∧
      (.close ∈ events → (run maxSessions events).sessions.closed = true) := by
  induction events using List.reverseRecOn with
  | nil => exact ⟨rfl, nofun⟩
  | append_singleton events event ih =>
    have hclosed : .close ∈ events ++ [event] → .close ∈ events ∨ event = .close := by
      simp [eq_comm]
    rw [run, List.foldl_append, ← run]
    generalize run maxSessions events = gate at ih
    simp only [List.foldl_cons, List.foldl_nil]
    cases event with
    | accept => exact ⟨ih.1, fun h ↦ (hclosed h).elim ih.2 nofun⟩
    | connectionEnds i =>
      simp only [Gate.act]
      split <;> exact ⟨ih.1, fun h ↦ (hclosed h).elim ih.2 nofun⟩
    | opens source =>
      simp only [Gate.act, Sessions.acquire]
      split_ifs <;> exact ⟨ih.1, fun h ↦ (hclosed h).elim ih.2 nofun⟩
    | handlerReturns i =>
      simp only [Gate.act]
      split <;> exact ⟨ih.1, fun h ↦ (hclosed h).elim ih.2 nofun⟩
    | close => exact ⟨ih.1, fun _ ↦ rfl⟩

end Gate

/-! ### What the counters say -/

/-- A counter and its map by source count the places of a pool exactly, within their limits: the
counter is the sum of the map and the number of taken places, and the entries of the map are the
positive numbers of places taken under each source. -/
structure Exact (tally : Tally Text) (pool : List (Option Text)) (limit perSource : ℤ) : Prop where
  sum : tally.total = (tally.counts.entries.map Prod.snd).sum
  total : tally.total = pool.countP Option.isSome
  total_nonneg : 0 ≤ tally.total
  total_le : tally.total ≤ limit
  entry : ∀ source n, tally.counts.get source = some n →
    n = pool.countP (fun place ↦ place = some source) ∧ 1 ≤ n ∧ n ≤ perSource
  missing : ∀ source, tally.counts.get source = none → some source ∉ pool

theorem exact_of_counts {tally : Tally Text} {pool : List (Option Text)} {limit perSource : ℤ}
    (h : tally.Counts (taken pool)) (htotal : tally.total ≤ limit)
    (hcount : ∀ source, tally.count source ≤ perSource) : Exact tally pool limit perSource := by
  obtain ⟨hpool, hat⟩ := h.pool
  refine ⟨h.sum_entries.symm, hpool, by rw [hpool]; exact Int.natCast_nonneg _, htotal,
    fun source n hget ↦ ?_, fun source hget hmem ↦ ?_⟩
  · have hn : tally.count source = n := by rw [Tally.count, hget, Option.getD_some]
    have hsource := hcount source
    exact ⟨hn ▸ hat source _ (by simp), (h.entry hget).2, by omega⟩
  · have hzero : tally.count source = 0 := by rw [Tally.count, hget, Option.getD_none]
    rw [hat source (fun place ↦ place = some source) (by simp), Nat.cast_eq_zero,
      List.countP_eq_zero] at hzero
    simpa using hzero _ hmem

/-- The counters of the relay, after any sequence of accepts and ends of connections, opens of
tunnels, returns of handlers and closes of the server. -/
theorem admission_counters (maxSessions : ℤ) (events : List Event) :
    let gate := Gate.run maxSessions events
    Exact gate.connections gate.accepted 512 32 ∧
    Exact gate.sessions.active gate.handlers (if maxSessions ≤ 0 then 256 else maxSessions) 8 ∧
    (∀ source, (connectionContext gate.connections source).2 = false →
      (connectionContext gate.connections source).1 = gate.connections) ∧
    (∀ source, (gate.sessions.acquire source).2 = false →
      (gate.sessions.acquire source).1 = gate.sessions) ∧
    (.close ∈ events → ∀ source, (gate.sessions.acquire source).2 = false) ∧
    ((∀ place ∈ gate.accepted, place = none) → (∀ place ∈ gate.handlers, place = none) →
      gate.connections.total = 0 ∧ gate.connections.counts.entries = [] ∧
      gate.sessions.active.total = 0 ∧ gate.sessions.active.counts.entries = []) := by
  intro gate
  obtain ⟨hconnections, hsessions⟩ : gate.Ok := Gate.ok_run maxSessions events
  obtain ⟨hlimit, hclosed⟩ := Gate.sessions_run maxSessions events
  refine ⟨exact_of_counts hconnections.counts hconnections.total_le hconnections.count_le,
    exact_of_counts hsessions.active (hsessions.total_le.trans hlimit.le) hsessions.count_le,
    fun _ ↦ connectionContext_eq_of_refused, fun _ ↦ Sessions.acquire_eq_of_refused,
    fun hclose source ↦ ?_, fun haccepted hhandlers ↦ ?_⟩
  · simp [Sessions.acquire, gate, hclosed hclose]
  · have hconns := hconnections.counts
    have hactive := hsessions.active
    rw [taken_eq_zero haccepted] at hconns
    rw [taken_eq_zero hhandlers] at hactive
    exact ⟨hconns.total, hconns.counts_eq_empty, hactive.total, hactive.counts_eq_empty⟩

/-- Two connections of one source and one tunnel; one connection has ended. -/
example : (Gate.run 0 [.accept ['a'], .accept ['a'], .opens ['t'], .connectionEnds 0]).connections =
    ⟨1, ⟨[(['a'], 1)], by simp⟩⟩ := by
  rfl

end QortalRelay.Admission
