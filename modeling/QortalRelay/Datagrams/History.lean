import QortalRelay.Datagrams.Refinement

/-!
# What becomes of every datagram

Any sequence of operations on one receive queue, each with whatever answers the shared counters give
it, has the results of the same sequence on a list queue (`Queue.run_spec`). On the list queue every
entry that was accepted has left by a pop, by its age or with the close, in the order of acceptance,
or is still there (`Fifo.history`, from `entries_conserved_apply` for one operation).
-/

set_option autoImplicit false
set_option relaxedAutoImplicit false

namespace QortalRelay.Datagrams

open Foundation

/-! ### Sequences of operations -/

/-- The answers that the shared counters give to the calls of an operation. -/
abbrev Surroundings := List (Request × Bool) → Request → Bool

/-- An operation that has returned. -/
structure Outcome where
  operation : Operation
  /-- All reservations of the operation were granted. -/
  granted : Bool
  result : Result

def allGranted (calls : List (Request × Bool)) : Bool := calls.all fun call ↦ !call.1.refuses call.2

/-- Runs operations one after the other, each with the answers that it gets from the counters. -/
def Queue.run (queue : Queue) : List (Operation × Surroundings) → Option (List Outcome × Queue)
  | [] => some ([], queue)
  | (operation, surroundings) :: rest => do
    let (calls, frame, result) ← (operation.code ⟨queue, 0⟩).run surroundings []
    let (outcomes, final) ← frame.queue.run rest
    return (⟨operation, allGranted calls, result⟩ :: outcomes, final)

def Fifo.run (fifo : Fifo) : List (Operation × Bool) → List Result × Fifo
  | [] => ([], fifo)
  | (operation, granted) :: rest =>
    let (results, final) := (fifo.apply operation granted).1.run rest
    ((fifo.apply operation granted).2 :: results, final)

theorem granted_foldl_note (small : Prop) (calls : List (Request × Bool)) (ledger : Ledger) :
    (calls.foldl (fun g call ↦ (books small).note g call.1 call.2) ledger).granted =
      (ledger.granted && allGranted calls) := by
  induction calls generalizing ledger with
  | nil => simp [allGranted]
  | cons call calls ih =>
    rw [List.foldl_cons, ih]
    simp [books, allGranted, Bool.and_assoc]

variable {small : Prop} {queue : Queue}

/-- Assumes: a sound queue. An operation returns, with the result of the list queue. -/
theorem Operation.run_spec (operation : Operation) (hsound : queue.Sound small)
    (surroundings : Surroundings) : ∃ calls queue' result,
      (operation.code ⟨queue, 0⟩).run surroundings [] = some (calls, ⟨queue', 0⟩, result) ∧
      queue'.Sound small ∧
      queue.view.apply operation (allGranted calls) = (queue'.view, result) := by
  have hwp : Code.wp (books small) (fun ledger frame result ↦ frame.reserved = 0 ∧
      frame.queue.Sound small ∧
      queue.view.apply operation ledger.granted = (frame.queue.view, result))
      operation.code ⟨Frame.charge ⟨queue, 0⟩, true⟩ ⟨queue, 0⟩ :=
    wp_operation operation hsound rfl
      fun queue' owed' granted' result hqueue' _ happly ↦ ⟨rfl, hqueue', happly⟩
  obtain ⟨calls, ⟨queue', reserved⟩, result, hrun, hreserved, hqueue', happly⟩ :=
    Program.wp_run surroundings hwp []
  obtain rfl : reserved = 0 := hreserved
  rw [granted_foldl_note, Bool.true_and] at happly
  exact ⟨calls, queue', result, hrun, hqueue', happly⟩

/-- An operation on a queue as a whole. It always returns (`Operation.perform_spec`). -/
def Operation.perform (operation : Operation) (surroundings : Surroundings) (queue : Queue) :
    Queue × Result :=
  match (operation.code ⟨queue, 0⟩).run surroundings [] with
  | some (_, frame, result) => (frame.queue, result)
  | none => (queue, .done)

/-- Assumes: a sound queue. -/
theorem Operation.perform_spec (operation : Operation) (hsound : queue.Sound small)
    (surroundings : Surroundings) : ∃ granted,
      (operation.perform surroundings queue).1.Sound small ∧
      queue.view.apply operation granted = ((operation.perform surroundings queue).1.view,
        (operation.perform surroundings queue).2) := by
  obtain ⟨calls, queue', result, hrun, hqueue', happly⟩ := operation.run_spec hsound surroundings
  exact ⟨allGranted calls, by simpa [perform, hrun] using hqueue',
    by simpa [perform, hrun] using happly⟩

/-- Assumes: a sound queue. A sequence of operations has the results of the list queue. -/
theorem Queue.run_spec (calls : List (Operation × Surroundings)) (hsound : queue.Sound small) :
    ∃ outcomes queue', queue.run calls = some (outcomes, queue') ∧ queue'.Sound small ∧
      outcomes.map Outcome.operation = calls.map Prod.fst ∧
      queue.view.run (outcomes.map fun outcome ↦ (outcome.operation, outcome.granted)) =
        (outcomes.map Outcome.result, queue'.view) := by
  induction calls generalizing queue with
  | nil => exact ⟨[], queue, rfl, hsound, rfl, rfl⟩
  | cons call rest ih =>
    obtain ⟨operation, surroundings⟩ := call
    obtain ⟨calls, middle, result, hrun, hmiddle, happly⟩ :=
      operation.run_spec hsound surroundings
    obtain ⟨outcomes, final, hrest, hfinal, hoperations, hresults⟩ := ih hmiddle
    refine ⟨⟨operation, allGranted calls, result⟩ :: outcomes, final, ?_, hfinal, ?_, ?_⟩
    · simp [run, hrun, hrest]
    · simp [hoperations]
    · simp [Fifo.run, happly, hresults]

/-! ### How entries leave -/

/-- How a packet leaves a queue. -/
inductive Departure
  /-- By a pop at the given reading; `burst` when ages counted. -/
  | popped (entry : Entry) (now : Time) (burst : Bool)
  | expired (entry : Entry) (now : Time)
  | discarded (entry : Entry)

namespace Departure

def entry : Departure → Entry
  | popped entry _ _ | expired entry _ | discarded entry => entry

def poppedData : Departure → Option (List UInt8)
  | popped entry _ _ => some entry.data
  | _ => none

def isExpired : Departure → Bool
  | expired _ _ => true
  | _ => false

def isDiscarded : Departure → Bool
  | discarded _ => true
  | _ => false

end Departure

/-- The packets that one operation takes from a queue, in the order in which they leave. -/
def Fifo.departures (fifo : Fifo) : Operation → List Departure
  | .push _ now =>
    if fifo.closed then []
    else (fifo.entries.takeWhile (fifo.stale now)).map (Departure.expired · now)
  | .pop now =>
    (fifo.entries.takeWhile (fifo.stale now)).map (Departure.expired · now) ++
      ((fifo.expire now).entries.head?.map (Departure.popped · now (fifo.maxAge > 0))).toList
  | .enableBurst => []
  | .close => fifo.entries.map Departure.discarded

def Fifo.departed (fifo : Fifo) : List (Operation × Bool) → List Departure
  | [] => []
  | (operation, granted) :: rest =>
    fifo.departures operation ++ (fifo.apply operation granted).1.departed rest

def acceptedEntry : Operation → Result → Option Entry
  | .push data now, .pushed true => some ⟨data, now⟩
  | _, _ => none

def poppedData : Result → Option (List UInt8)
  | .popped data => data
  | _ => none

/-! ### One operation -/

namespace Fifo

variable {fifo : Fifo}

/-- The entries that are too old and those that stay make up the queue. -/
theorem takeWhile_append_expire (fifo : Fifo) (now : Time) :
    fifo.entries.takeWhile (fifo.stale now) ++ (fifo.expire now).entries = fifo.entries :=
  List.takeWhile_append_dropWhile

/-- What was there and what comes in has left or is still there, in this order. -/
theorem entries_conserved_apply (fifo : Fifo) (operation : Operation) (granted : Bool) :
    fifo.entries ++ (acceptedEntry operation (fifo.apply operation granted).2).toList =
      (fifo.departures operation).map Departure.entry ++
        (fifo.apply operation granted).1.entries := by
  cases operation with
  | push data now =>
    have hentry : (Departure.entry ∘ fun entry ↦ Departure.expired entry now) = id := rfl
    have hexpire := fifo.takeWhile_append_expire now
    simp only [apply, push, departures]
    split_ifs with hclosed hfits hgranted
    · simp [acceptedEntry]
    · rw [List.map_map, hentry, List.map_id, ← List.append_assoc, hexpire]
      rfl
    · rw [List.map_map, hentry, List.map_id, hexpire]
      simp [acceptedEntry]
    · rw [List.map_map, hentry, List.map_id, hexpire]
      simp [acceptedEntry]
  | pop now =>
    have hentry : (Departure.entry ∘ fun entry ↦ Departure.expired entry now) = id := rfl
    have hexpire := fifo.takeWhile_append_expire now
    simp only [apply, pop, departures]
    rw [List.map_append, List.map_map, hentry, List.map_id, List.append_assoc]
    cases hentries : (fifo.expire now).entries with
    | nil =>
      rw [hentries] at hexpire
      simpa [acceptedEntry, hentries] using hexpire.symm
    | cons entry rest =>
      rw [hentries] at hexpire
      simpa [acceptedEntry, Departure.entry] using hexpire.symm
  | enableBurst => simp [apply, enableBurst, departures, acceptedEntry]
  | close =>
    have hentry : (Departure.entry ∘ Departure.discarded) = id := rfl
    simp [apply, close, departures, acceptedEntry, hentry]

theorem poppedData_apply (fifo : Fifo) (operation : Operation) (granted : Bool) :
    (poppedData (fifo.apply operation granted).2).toList =
      (fifo.departures operation).filterMap Departure.poppedData := by
  cases operation with
  | push data now =>
    simp only [apply, departures, poppedData]
    split_ifs
    · rfl
    · simp [Departure.poppedData]
  | pop now =>
    simp only [apply, pop, departures, poppedData]
    cases hentries : (fifo.expire now).entries with
    | nil => simp [Departure.poppedData]
    | cons entry rest => simp [Departure.poppedData]
  | enableBurst => rfl
  | close => simp [apply, departures, poppedData, Departure.poppedData]

theorem droppedExpired_apply (fifo : Fifo) (operation : Operation) (granted : Bool) :
    (fifo.apply operation granted).1.droppedExpired =
      fifo.droppedExpired + (fifo.departures operation).countP Departure.isExpired := by
  have hexpired : ∀ now, (Departure.isExpired ∘ fun entry ↦ Departure.expired entry now) =
      fun _ ↦ true := fun _ ↦ rfl
  cases operation with
  | push data now =>
    simp only [apply, push, departures]
    split_ifs
    · rfl
    all_goals simp [expire, List.countP_map, hexpired]
  | pop now =>
    simp only [apply, pop, departures, List.countP_append, List.countP_map, hexpired]
    cases hentries : (fifo.expire now).entries with
    | nil => simp [expire]
    | cons entry rest => simp [expire, Departure.isExpired]
  | enableBurst => rfl
  | close => simp [apply, close, departures, Departure.isExpired]

theorem closed_apply (fifo : Fifo) (operation : Operation) (granted : Bool) :
    (fifo.apply operation granted).1.closed = true ↔
      fifo.closed = true ∨ operation = .close := by
  cases operation with
  | push data now =>
    simp only [apply, push]
    split_ifs with hclosed <;> simp [hclosed, expire]
  | pop now =>
    simp only [apply, pop]
    cases (fifo.expire now).entries <;> simp [expire]
  | enableBurst => simp [apply, enableBurst]
  | close => simp [apply, close]

/-- Assumes: a sound queue. Only a close closes it. -/
theorem closed_perform {queue : Queue} {small : Prop} (hsound : queue.Sound small)
    (operation : Operation) (surroundings : Surroundings) :
    (operation.perform surroundings queue).1.closed = true ↔
      queue.closed = true ∨ operation = .close := by
  obtain ⟨granted, -, happly⟩ := operation.perform_spec hsound surroundings
  have hclosed := queue.view.closed_apply operation granted
  rw [happly] at hclosed
  exact hclosed

/-- Only a close discards entries. -/
theorem not_isDiscarded_of_mem {departure : Departure} {operation : Operation}
    (hmem : departure ∈ fifo.departures operation) (hoperation : operation ≠ .close) :
    departure.isDiscarded = false := by
  cases operation with
  | push data now =>
    simp only [departures] at hmem
    split_ifs at hmem
    · cases hmem
    · obtain ⟨entry, -, rfl⟩ := List.mem_map.mp hmem
      rfl
  | pop now =>
    rcases List.mem_append.mp hmem with hmem | hmem
    · obtain ⟨entry, -, rfl⟩ := List.mem_map.mp hmem
      rfl
    · obtain ⟨entry, -, rfl⟩ := Option.map_eq_some_iff.mp (Option.mem_toList.mp hmem)
      rfl
  | enableBurst => cases hmem
  | close => exact absurd rfl hoperation

/-- Ages count from `burstAge` on, if at all. -/
def Aged (fifo : Fifo) : Prop := fifo.maxAge = 0 ∨ fifo.maxAge = burstAge

theorem Aged.apply (h : fifo.Aged) (operation : Operation) (granted : Bool) :
    (fifo.apply operation granted).1.Aged := by
  cases operation with
  | push data now =>
    simp only [Fifo.apply, push]
    split_ifs <;> exact h
  | pop now =>
    simp only [Fifo.apply, pop]
    cases (fifo.expire now).entries <;> exact h
  | enableBurst => exact Or.inr rfl
  | close => exact h

theorem Aged.lt_of_stale (h : fifo.Aged) {now : Time} {entry : Entry}
    (hstale : fifo.stale now entry = true) : burstAge < now.sub entry.arrived := by
  obtain ⟨hpos, hold⟩ := of_decide_eq_true hstale
  rcases h with h | h <;> omega

end Fifo

/-- Entries expire only at more than the burst age, and are popped at no more once ages count. -/
def Departure.Timely : Departure → Prop
  | popped entry now burst => burst = true → now.sub entry.arrived ≤ burstAge
  | expired entry now => burstAge < now.sub entry.arrived
  | discarded _ => True

theorem Fifo.Aged.timely {fifo : Fifo} (h : fifo.Aged) {operation : Operation}
    {departure : Departure} (hmem : departure ∈ fifo.departures operation) :
    departure.Timely := by
  have hexpired : ∀ {now : Time},
      departure ∈ (fifo.entries.takeWhile (fifo.stale now)).map (Departure.expired · now) →
      departure.Timely := by
    intro now hmem
    obtain ⟨entry, hentry, rfl⟩ := List.mem_map.mp hmem
    exact h.lt_of_stale (List.all_eq_true.mp List.all_takeWhile entry hentry)
  cases operation with
  | push data now =>
    simp only [departures] at hmem
    split_ifs at hmem
    · cases hmem
    · exact hexpired hmem
  | pop now =>
    rcases List.mem_append.mp hmem with hmem | hmem
    · exact hexpired hmem
    · obtain ⟨entry, hentry, rfl⟩ := Option.map_eq_some_iff.mp (Option.mem_toList.mp hmem)
      intro hburst
      -- The head that is left after the expiry is not stale.
      have hfresh : fifo.stale now entry = false := by
        have hhead := List.head?_dropWhile_not (fifo.stale now) fifo.entries
        rwa [show (fifo.entries.dropWhile (fifo.stale now)).head? = some entry from hentry] at hhead
      have hage := of_decide_eq_false hfresh
      have hpos : 0 < fifo.maxAge := of_decide_eq_true hburst
      rcases h with h | h
      · omega
      · exact h ▸ not_lt.mp fun hold ↦ hage ⟨hpos, hold⟩
  | enableBurst => cases hmem
  | close =>
    obtain ⟨entry, -, rfl⟩ := List.mem_map.mp hmem
    trivial

/-! ### Sequences -/

/-- The entries of a list queue over a sequence of operations. -/
structure Fifo.History (fifo : Fifo) (outcomes : List Outcome) (departed : List Departure)
    (final : Fifo) : Prop where
  conserved : fifo.entries ++ outcomes.filterMap (fun o ↦ acceptedEntry o.operation o.result) =
    departed.map Departure.entry ++ final.entries
  popped : outcomes.filterMap (fun o ↦ poppedData o.result) =
    departed.filterMap Departure.poppedData
  expired : final.droppedExpired = fifo.droppedExpired + departed.countP Departure.isExpired
  timely : ∀ departure ∈ departed, departure.Timely
  kept : final.closed = false → ∀ departure ∈ departed, departure.isDiscarded = false
  opened : final.closed = false → fifo.closed = false

theorem filterMap_cons_eq_append {α β : Type} (f : α → Option β) (a : α) (l : List α) :
    (a :: l).filterMap f = (f a).toList ++ l.filterMap f := by
  cases h : f a <;> simp [h]

/-- Assumes: ages that count from `burstAge` on. -/
theorem Fifo.history {fifo final : Fifo} {outcomes : List Outcome} (h : fifo.Aged)
    (hrun : fifo.run (outcomes.map fun outcome ↦ (outcome.operation, outcome.granted)) =
      (outcomes.map Outcome.result, final)) :
    fifo.History outcomes
      (fifo.departed (outcomes.map fun outcome ↦ (outcome.operation, outcome.granted))) final := by
  induction outcomes generalizing fifo with
  | nil =>
    obtain rfl : fifo = final := congrArg Prod.snd hrun
    exact ⟨by simp [departed], rfl, rfl, nofun, nofun, fun h ↦ h⟩
  | cons outcome outcomes ih =>
    obtain ⟨operation, granted, result⟩ := outcome
    simp only [List.map_cons, run, Prod.mk.injEq, List.cons.injEq] at hrun
    obtain ⟨⟨hresult, hresults⟩, hfinal⟩ := hrun
    have hrest := ih (h.apply operation granted) (Prod.ext hresults hfinal)
    have hopen : final.closed = false → fifo.closed = false ∧ operation ≠ .close := by
      intro hclosed
      have := (fifo.closed_apply operation granted).not
      simpa using this.mp (by simp [hrest.opened hclosed])
    have hconserved := fifo.entries_conserved_apply operation granted
    have hpopped := fifo.poppedData_apply operation granted
    rw [hresult] at hconserved hpopped
    refine ⟨?_, ?_, ?_, ?_, ?_, fun hclosed ↦ (hopen hclosed).1⟩
    · rw [filterMap_cons_eq_append, ← List.append_assoc, hconserved, List.append_assoc,
        hrest.conserved]
      simp [departed]
    · rw [filterMap_cons_eq_append, hpopped, hrest.popped]
      simp [departed]
    · rw [hrest.expired, droppedExpired_apply]
      simp [departed, add_assoc]
    · intro departure hmem
      rcases List.mem_append.mp hmem with hmem | hmem
      · exact h.timely hmem
      · exact hrest.timely departure hmem
    · intro hclosed departure hmem
      rcases List.mem_append.mp hmem with hmem | hmem
      · exact not_isDiscarded_of_mem hmem (hopen hclosed).2
      · exact hrest.kept hclosed departure hmem

/-! ### A queue from its beginning -/

/-- Every departure is a pop, an expiry or a discarded entry. -/
theorem length_eq_of_not_discarded {departed : List Departure}
    (h : ∀ departure ∈ departed, departure.isDiscarded = false) :
    departed.length = (departed.filterMap Departure.poppedData).length +
      departed.countP Departure.isExpired := by
  induction departed with
  | nil => rfl
  | cons departure departed ih =>
    have ih := ih fun d hd ↦ h d (List.mem_cons_of_mem _ hd)
    cases departure with
    | popped entry now burst =>
      simp only [List.length_cons, List.filterMap_cons, Departure.poppedData, List.countP_cons,
        Departure.isExpired]
      simp only [Bool.false_eq_true, if_false]
      omega
    | expired entry now =>
      simp only [List.length_cons, List.filterMap_cons, Departure.poppedData, List.countP_cons,
        Departure.isExpired]
      simp only [if_true]
      omega
    | discarded entry => exact absurd (h _ List.mem_cons_self) (by simp [Departure.isDiscarded])

/-- Each push on an open queue is accepted or counted as dropped, once. -/
theorem Fifo.push_counts (fifo : Fifo) (data : List UInt8) (now : Time) (granted : Bool)
    (hopen : fifo.closed = false) :
    let (fifo', accepted) := fifo.push data now granted
    (accepted = true ∧ fifo'.droppedFull = fifo.droppedFull ∧
      fifo'.droppedBudget = fifo.droppedBudget) ∨
    (accepted = false ∧ fifo'.droppedFull = fifo.droppedFull + 1 ∧
      fifo'.droppedBudget = fifo.droppedBudget) ∨
    (accepted = false ∧ fifo'.droppedFull = fifo.droppedFull ∧
      fifo'.droppedBudget = fifo.droppedBudget + 1) := by
  simp only [push, hopen, Bool.false_eq_true, if_false]
  split_ifs
  · exact Or.inl ⟨rfl, rfl, rfl⟩
  · exact Or.inr (Or.inr ⟨rfl, rfl, rfl⟩)
  · exact Or.inr (Or.inl ⟨rfl, rfl, rfl⟩)

/-- A receive queue is a FIFO with expiry. Every sequence of operations on a new queue, with any
answers of the shared counters, returns the results of the list queue. Then:

* The entries that were accepted are those that have left, in this order, and those still queued.
* The datagrams that were popped are those that left by a pop, and `DroppedExpired` counts those
  that left by their age; the latter were older than the burst age, and nothing older was popped
  once burst mode was on.
* While the queue is open no entry is discarded, so what was accepted has been popped, has expired
  or is still queued.
* Each further push on the open queue is accepted, or counted by exactly one of `DroppedFull` and
  `DroppedBudget`. -/
theorem queue_refines_fifo (limit : ℤ) (calls : List (Operation × Surroundings)) :
    ∃ outcomes queue', (Queue.new limit).run calls = some (outcomes, queue') ∧
      outcomes.map Outcome.operation = calls.map Prod.fst ∧
      (Fifo.new limit).run (outcomes.map fun outcome ↦ (outcome.operation, outcome.granted)) =
        (outcomes.map Outcome.result, queue'.view) ∧
      (let departed := (Fifo.new limit).departed
          (outcomes.map fun outcome ↦ (outcome.operation, outcome.granted))
        let accepted := outcomes.filterMap fun o ↦ acceptedEntry o.operation o.result
        let popped := outcomes.filterMap fun o ↦ poppedData o.result
        accepted = departed.map Departure.entry ++ queue'.ring.contents ∧
        popped = departed.filterMap Departure.poppedData ∧
        queue'.stats.droppedExpired = departed.countP Departure.isExpired ∧
        (∀ entry now, Departure.popped entry now true ∈ departed →
          now.sub entry.arrived ≤ burstAge) ∧
        (∀ entry now, Departure.expired entry now ∈ departed →
          burstAge < now.sub entry.arrived) ∧
        (queue'.closed = false → (∀ entry, Departure.discarded entry ∉ departed) ∧
          accepted.length = popped.length + queue'.stats.droppedExpired + queue'.ring.count)) ∧
      ∀ data now surroundings, queue'.closed = false → ∃ calls queue'' accepted,
        ((Operation.push data now).code ⟨queue', 0⟩).run surroundings [] =
          some (calls, ⟨queue'', 0⟩, .pushed accepted) ∧
        ((accepted = true ∧ queue''.stats.droppedFull = queue'.stats.droppedFull ∧
            queue''.stats.droppedBudget = queue'.stats.droppedBudget) ∨
          (accepted = false ∧ queue''.stats.droppedFull = queue'.stats.droppedFull + 1 ∧
            queue''.stats.droppedBudget = queue'.stats.droppedBudget) ∨
          (accepted = false ∧ queue''.stats.droppedFull = queue'.stats.droppedFull ∧
            queue''.stats.droppedBudget = queue'.stats.droppedBudget + 1)) := by
  obtain ⟨outcomes, queue', hrun, hsound, hoperations, hresults⟩ :=
    Queue.run_spec calls (Queue.sound_new limit fun h : False ↦ h.elim)
  rw [show (Queue.new limit).view = Fifo.new limit from rfl] at hresults
  have hhistory := Fifo.history (Or.inl rfl) hresults
  have hexpired := hhistory.expired
  rw [show (Fifo.new limit).droppedExpired = 0 from rfl, zero_add] at hexpired
  refine ⟨outcomes, queue', hrun, hoperations, hresults, ⟨hhistory.conserved, hhistory.popped,
    hexpired, fun entry now hmem ↦ hhistory.timely _ hmem rfl,
    fun entry now hmem ↦ hhistory.timely _ hmem, fun hopen ↦ ⟨fun entry hmem ↦ ?_, ?_⟩⟩,
    fun data now surroundings hopen ↦ ?_⟩
  · exact absurd (hhistory.kept hopen _ hmem) (by simp [Departure.isDiscarded])
  · have hconserved := congrArg List.length hhistory.conserved
    have hdeparted := length_eq_of_not_discarded (hhistory.kept hopen)
    have hcount := hsound.length_entries
    rw [← hhistory.popped, ← hexpired] at hdeparted
    simp only [List.length_append, List.length_map] at hconserved
    change 0 + _ = _ at hconserved
    change _ = _ + queue'.stats.droppedExpired at hdeparted
    omega
  · obtain ⟨pushCalls, queue'', result, hpush, -, happly⟩ :=
      (Operation.push data now).run_spec hsound surroundings
    obtain ⟨hview, rfl⟩ := Prod.mk.inj happly
    have hcounts := queue'.view.push_counts data now (allGranted pushCalls) hopen
    simp only [hview] at hcounts
    exact ⟨pushCalls, queue'', _, hpush, hcounts⟩

end QortalRelay.Datagrams
