import QortalRelay.Access.Expiry

/-!
# Renewals and superseded timers

A timer that has fired loads the generation of the timers and then closes the connection if the
generation is its own. A call of `authorize` that renews the authorization increments the generation
and arms another timer, and nothing keeps it from doing so between the two steps of the old one: the
old timer then closes a connection whose renewal has succeeded (`renewal_cancelled`). That is the
only way. In a run in which no renewal returns while the `expire` of an earlier timer stands between
its check and its close, no timer that was armed before a call closes the connection after the call
has returned success (`renewal_kept`).
-/

set_option autoImplicit false
set_option relaxedAutoImplicit false

namespace QortalRelay.Access

open Foundation.Encoding Foundation.Trace

/-- The call has incremented the generation and not returned. -/
def AuthorizeCall.renewed (call : AuthorizeCall) : Bool :=
  match call.pc with
  | .counted _ _ | .stopped _ _ | .armed => true
  | _ => false

namespace Session

/-! ### What a step does -/

section Steps

variable {session session' : Session} {call : AuthorizeCall} {i : ℕ}

/-- What is known when an event is recorded. -/
def Explains (session session' : Session) : SessionEvent → Prop
  | .began c => c = session.calls.length ∧
      ∃ call, session'.calls[c]? = some call ∧ call.since = session.generation
  | .armed generation => generation ≤ session.generation
  | .succeeded c => ∃ call, session.calls[c]? = some call ∧ call.pc = .armed
  | .expired generation => ∃ callback ∈ session.callbacks,
      callback.pc = .closing ∧ callback.generation = generation
  | .reached _ | .redeemed _ => True

/-- At most one event is recorded. -/
def Records (session session' : Session) : Prop :=
  session'.log = session.log ∨
    ∃ event, session'.log = session.log ++ [event] ∧ Explains session session' event

/-- The steps of the calls and of the callbacks, seen from a renewal: generations grow, calls keep
the generation they began with, and a callback is about to close only if its generation was the
current one when it looked. -/
structure Advances (session session' : Session) : Prop where
  generation_le : session.generation ≤ session'.generation
  calls : ∀ (c : ℕ) (call : AuthorizeCall), session.calls[c]? = some call →
    ∃ call', session'.calls[c]? = some call' ∧ call'.since = call.since
  callbacks : ∀ callback ∈ session'.callbacks, callback.pc = .closing →
    callback ∈ session.callbacks ∨ callback.generation = session.generation
  records : Records session session'

end Steps

section Moves

variable {session session' : Session} {call : AuthorizeCall} {i : ℕ}

/-- What a move does to its own call. -/
structure CallAdvances (session : Session) (i : ℕ) (call : AuthorizeCall) (session' : Session)
    (call' : AuthorizeCall) : Prop where
  calls : session'.calls = session.calls.set i call'
  since : call'.since = call.since
  generation_le : session.generation ≤ session'.generation
  callbacks : session'.callbacks = session.callbacks
  renewed : call'.renewed = true → call.renewed = true ∨ session.generation < session'.generation
  records : Records session session'

theorem CallMove.advances (hmove : CallMove session i call session') (h : session.Ok)
    (hcall : session.calls[i]? = some call) :
    ∃ call', CallAdvances session i call session' call' := by
  have hok := h.calls i call hcall
  unfold AuthorizeCall.Ok at hok
  have hnever {property : Prop} (hrenewed : false = true) : property :=
    absurd hrenewed Bool.false_ne_true
  cases hmove with
  | acquire headers hpc =>
    exact ⟨_, rfl, rfl, le_rfl, rfl, hnever, Or.inl rfl⟩
  | allow headers address expires hpc | refuse headers status code hpc =>
    exact ⟨_, rfl, rfl, le_rfl, rfl, hnever, Or.inl rfl⟩
  | reach headers hpc =>
    exact ⟨_, rfl, rfl, le_rfl, rfl, hnever, Or.inr ⟨_, rfl, trivial⟩⟩
  | reject hpc =>
    exact ⟨_, rfl, rfl, le_rfl, rfl, hnever, Or.inl rfl⟩
  | redeem id deadline hpc =>
    exact ⟨_, rfl, rfl, le_rfl, rfl, hnever, Or.inr ⟨_, rfl, trivial⟩⟩
  | count deadline hpc =>
    exact ⟨_, rfl, rfl, Nat.le_succ _, rfl, fun _ ↦ Or.inr (Nat.lt_succ_self _), Or.inl rfl⟩
  | stop deadline generation hpc =>
    exact ⟨_, rfl, rfl, le_rfl, rfl, fun _ ↦ Or.inl (by simp [AuthorizeCall.renewed, hpc]),
      Or.inl rfl⟩
  | arm deadline generation hpc =>
    simp only [hpc] at hok
    exact ⟨_, rfl, rfl, le_rfl, rfl, fun _ ↦ Or.inl (by simp [AuthorizeCall.renewed, hpc]),
      Or.inr ⟨_, rfl, hok.2.le⟩⟩
  | finish hpc =>
    exact ⟨_, rfl, rfl, le_rfl, rfl, hnever,
      Or.inr ⟨_, rfl, call, hcall, hpc⟩⟩

theorem Step.advances (hstep : Step session session') (h : session.Ok) :
    session.Advances session' := by
  have hsame : ∀ (c : ℕ) (call : AuthorizeCall), session.calls[c]? = some call →
      ∃ call', session.calls[c]? = some call' ∧ call'.since = call.since :=
    fun _ call hc ↦ ⟨call, hc, rfl⟩
  cases hstep with
  | tick | close | cleanup =>
    exact ⟨le_rfl, hsame, fun _ hmem _ ↦ Or.inl hmem, Or.inl rfl⟩
  | begin headers =>
    refine ⟨le_rfl, ?_, fun _ hmem _ ↦ Or.inl hmem, Or.inr ⟨_, rfl, rfl, ?_⟩⟩
    · intro c call hc
      refine ⟨call, ?_, rfl⟩
      rw [← hc]
      exact List.getElem?_append_left (List.getElem?_eq_some_iff.mp hc).1
    · exact ⟨_, List.getElem?_concat_length, rfl⟩
  | call i call _ hcall hmove =>
    obtain ⟨call', hadvances⟩ := hmove.advances h hcall
    refine ⟨hadvances.generation_le, ?_, ?_, hadvances.records⟩
    · intro c found hfound
      rw [hadvances.calls]
      by_cases hci : i = c
      · subst hci
        rw [hcall] at hfound
        obtain rfl := Option.some.inj hfound
        exact ⟨call', List.getElem?_set_self (List.getElem?_eq_some_iff.mp hcall).1,
          hadvances.since⟩
      · exact ⟨found, by rw [List.getElem?_set_ne hci, hfound], rfl⟩
    · rw [hadvances.callbacks]
      exact fun _ hmem _ ↦ Or.inl hmem
  | fire timer =>
    refine ⟨le_rfl, hsame, ?_, Or.inl rfl⟩
    intro callback hmem hclosing
    rcases List.mem_append.mp hmem with hold | hnew
    · exact Or.inl hold
    · rw [List.mem_singleton.mp hnew] at hclosing
      cases hclosing
  | load k callback hcallback hpc =>
    refine ⟨le_rfl, hsame, ?_, Or.inl rfl⟩
    intro found hmem hclosing
    rcases List.mem_or_eq_of_mem_set hmem with hold | rfl
    · exact Or.inl hold
    · -- The callback has compared the generation with its own.
      by_cases heq : session.generation = callback.generation
      · exact Or.inr heq.symm
      · simp [heq] at hclosing
  | expire k callback hcallback hpc =>
    refine ⟨le_rfl, hsame, ?_, ?_⟩
    · intro found hmem hclosing
      rcases List.mem_or_eq_of_mem_set hmem with hold | rfl
      · exact Or.inl hold
      · cases hclosing
    · by_cases hclosed : session.closed = true
      · exact Or.inl (if_pos hclosed)
      · exact Or.inr ⟨_, if_neg hclosed, callback, List.mem_of_getElem? hcallback, hpc, rfl⟩

end Moves

/-! ### Renewals that are kept -/

section Runs

variable {session session' : Session}

/-- No call that has renewed the authorization returns while the callback of an earlier timer is
about to close the connection. -/
def Prompt (session session' : Session) : Prop :=
  ∀ c, session'.log = session.log ++ [.succeeded c] →
    ∀ callback ∈ session.callbacks, callback.pc = .closing →
      callback.generation = session.generation

/-- A timer that was armed before a call has closed the connection after the call succeeded. -/
def Cancelled (log : List SessionEvent) (c generation : ℕ) : Prop :=
  [.armed generation, .began c, .succeeded c, .expired generation].Sublist log

/-- The timers armed before a call are of the generations up to the one it began with, and once it
has succeeded only later ones are about to close. -/
structure Ordered (session : Session) : Prop where
  began : ∀ c, .began c ∈ session.log → c < session.calls.length
  armed : ∀ generation, .armed generation ∈ session.log → generation ≤ session.generation
  calls : ∀ (c : ℕ) (call : AuthorizeCall), session.calls[c]? = some call →
    call.since ≤ session.generation ∧ (call.renewed = true → call.since < session.generation)
  before : ∀ generation c, [.armed generation, .began c].Sublist session.log →
    ∀ call, session.calls[c]? = some call → generation ≤ call.since
  succeeded : ∀ c, .succeeded c ∈ session.log → ∃ call, session.calls[c]? = some call ∧
    call.since < session.generation ∧ ∀ callback ∈ session.callbacks, callback.pc = .closing →
      call.since < callback.generation
  kept : ∀ c generation, ¬Cancelled session.log c generation

theorem Advances.length_le (h : session.Advances session') :
    session.calls.length ≤ session'.calls.length := by
  by_contra hlt
  obtain ⟨call, hcall⟩ : ∃ call, session.calls[session'.calls.length]? = some call :=
    ⟨_, List.getElem?_eq_getElem (not_le.mp hlt)⟩
  obtain ⟨call', hcall', -⟩ := h.calls _ call hcall
  rw [List.getElem?_eq_none le_rfl] at hcall'
  cases hcall'

/-- A call that was there began with the same generation. -/
theorem Advances.since_eq (h : session.Advances session') {c : ℕ} (hc : c < session.calls.length)
    {call' : AuthorizeCall} (hcall' : session'.calls[c]? = some call') :
    ∃ call, session.calls[c]? = some call ∧ call'.since = call.since := by
  have hcall := List.getElem?_eq_getElem hc
  obtain ⟨found, hfound, hsince⟩ := h.calls c _ hcall
  rw [hcall'] at hfound
  obtain rfl := Option.some.inj hfound
  exact ⟨_, hcall, hsince⟩

/-- The calls after a step. -/
theorem Ordered.calls_step (h : session.Ordered) (hstep : Step session session')
    (hok : session.Ok) :
    ∀ (c : ℕ) (call : AuthorizeCall), session'.calls[c]? = some call →
      call.since ≤ session'.generation ∧
        (call.renewed = true → call.since < session'.generation) := by
  cases hstep with
  | tick | fire | load | expire | close | cleanup => exact h.calls
  | begin headers =>
    intro c call hcall
    rcases getElem?_snoc_cases hcall with hold | ⟨-, rfl⟩
    · exact h.calls c call hold
    · exact ⟨le_rfl, fun hrenewed ↦ absurd hrenewed Bool.false_ne_true⟩
  | call i moving _ hmoving hmove =>
    obtain ⟨call', hadvances⟩ := hmove.advances hok hmoving
    have hle := hadvances.generation_le
    intro c call hcall
    rw [hadvances.calls] at hcall
    rcases getElem?_set_cases hcall with ⟨-, rfl⟩ | ⟨-, hold⟩
    · obtain ⟨hsince, hrenewed⟩ := h.calls i moving hmoving
      rw [hadvances.since]
      refine ⟨hsince.trans hle, fun hnew ↦ ?_⟩
      rcases hadvances.renewed hnew with hbefore | hlt
      · exact (hrenewed hbefore).trans_le hle
      · exact hsince.trans_lt hlt
    · obtain ⟨hsince, hrenewed⟩ := h.calls c call hold
      exact ⟨hsince.trans hle, fun hnew ↦ (hrenewed hnew).trans_le hle⟩

/-- The successes that were recorded before a step. -/
theorem Ordered.succeeded_step (h : session.Ordered) (hadvances : session.Advances session') {c : ℕ}
    (hc : .succeeded c ∈ session.log) : ∃ call, session'.calls[c]? = some call ∧
      call.since < session'.generation ∧ ∀ callback ∈ session'.callbacks,
        callback.pc = .closing → call.since < callback.generation := by
  obtain ⟨call, hcall, hsince, hcallbacks⟩ := h.succeeded c hc
  obtain ⟨call', hcall', heq⟩ := hadvances.calls c call hcall
  refine ⟨call', hcall', heq ▸ hsince.trans_le hadvances.generation_le, ?_⟩
  intro callback hmem hclosing
  rw [heq]
  rcases hadvances.callbacks callback hmem hclosing with hold | hcurrent
  · exact hcallbacks callback hold hclosing
  · rw [hcurrent]
    exact hsince

/-- A callback that closes belongs to no timer armed before a call that has succeeded. -/
theorem Ordered.not_cancelled (h : session.Ordered) {callback : Callback}
    (hmem : callback ∈ session.callbacks) (hclosing : callback.pc = .closing) (c : ℕ) :
    ¬[.armed callback.generation, .began c, .succeeded c].Sublist session.log := by
  intro hsublist
  obtain ⟨call, hcall, -, hcallbacks⟩ := h.succeeded c (hsublist.subset (by simp))
  have hbegan : [.armed callback.generation, .began c].Sublist session.log :=
    (List.sublist_append_left _ [SessionEvent.succeeded c]).trans hsublist
  have hbefore := h.before callback.generation c hbegan call hcall
  exact absurd (hcallbacks callback hmem hclosing) (not_lt.mpr hbefore)

theorem Ordered.step (h : session.Ordered) (hok : session.Ok) (hstep : Step session session')
    (hprompt : Prompt session session') : session'.Ordered := by
  have hadvances := hstep.advances hok
  have hlength := hadvances.length_le
  have hle := hadvances.generation_le
  have hbefore : ∀ generation c, [.armed generation, .began c].Sublist session.log →
      ∀ call, session'.calls[c]? = some call → generation ≤ call.since := by
    intro generation c hsublist call' hcall'
    have hc := h.began c (hsublist.subset (by simp))
    obtain ⟨call, hcall, heq⟩ := hadvances.since_eq hc hcall'
    rw [heq]
    exact h.before generation c hsublist call hcall
  rcases hadvances.records with hlog | ⟨event, hlog, hevent⟩
  · refine ⟨?_, ?_, h.calls_step hstep hok, ?_, ?_, ?_⟩ <;> rw [hlog]
    · exact fun c hc ↦ (h.began c hc).trans_le hlength
    · exact fun generation hgeneration ↦ (h.armed generation hgeneration).trans hle
    · exact hbefore
    · exact fun c hc ↦ h.succeeded_step hadvances hc
    · exact h.kept
  · refine ⟨?_, ?_, h.calls_step hstep hok, ?_, ?_, ?_⟩ <;> rw [hlog]
    · intro c hc
      rcases List.mem_append.mp hc with hold | hnew
      · exact (h.began c hold).trans_le hlength
      · obtain rfl := List.mem_singleton.mp hnew
        obtain ⟨-, call, hcall, -⟩ := hevent
        exact (List.getElem?_eq_some_iff.mp hcall).1
    · intro generation hgeneration
      rcases List.mem_append.mp hgeneration with hold | hnew
      · exact (h.armed generation hold).trans hle
      · obtain rfl := List.mem_singleton.mp hnew
        exact le_trans hevent hle
    · intro generation c hsublist call hcall
      rcases sublist_snoc_cases [SessionEvent.armed generation] (.began c) hsublist with
        hold | ⟨rfl, harmed⟩
      · exact hbefore generation c hold call hcall
      · obtain ⟨rfl, found, hfound, hsince⟩ := hevent
        rw [hcall] at hfound
        obtain rfl := Option.some.inj hfound
        rw [hsince]
        exact h.armed generation (List.singleton_sublist.mp harmed)
    · intro c hc
      rcases List.mem_append.mp hc with hold | hnew
      · exact h.succeeded_step hadvances hold
      · obtain rfl := List.mem_singleton.mp hnew
        obtain ⟨call, hcall, hpc⟩ := hevent
        have hsince := (h.calls c call hcall).2 (by simp [AuthorizeCall.renewed, hpc])
        obtain ⟨call', hcall', heq⟩ := hadvances.calls c call hcall
        refine ⟨call', hcall', heq ▸ hsince.trans_le hle, ?_⟩
        intro callback hmem hclosing
        rw [heq]
        rcases hadvances.callbacks callback hmem hclosing with hold | hcurrent
        · rwa [hprompt c hlog callback hold hclosing]
        · rwa [hcurrent]
    · intro c generation hcancelled
      rcases sublist_snoc_cases [SessionEvent.armed generation, .began c, .succeeded c]
        (.expired generation) hcancelled with hold | ⟨rfl, hfirst⟩
      · exact h.kept c generation hold
      · obtain ⟨callback, hmem, hclosing, rfl⟩ := hevent
        exact h.not_cancelled hmem hclosing c hfirst

theorem ordered_start (accepted : Time) : (start accepted).Ordered where
  began c hc := by simp [start] at hc
  armed generation hgeneration := by simp_all [start]
  calls c call hcall := by simp [start] at hcall
  before generation c _ call hcall := by simp [start] at hcall
  succeeded c hc := by simp [start] at hc
  kept c generation h := by
    have hlength := h.length_le
    simp [start] at hlength

/-- No timer that was armed before a call began closes the connection after that call has redeemed a
ticket and returned success. Assumes: a run in which no call that has renewed the authorization
returns while the callback of an earlier timer is about to close the connection. -/
theorem renewal_kept {accepted : Time} (hrun : Run Step Prompt (start accepted) session)
    (c generation : ℕ) : ¬Cancelled session.log c generation := by
  have hinvariant := hrun.invariant (fun s ↦ s.Ok ∧ s.Ordered)
    (fun _ _ h hstep hprompt ↦ ⟨hstep.ok h.1, h.2.step h.1 hstep hprompt⟩)
    ⟨ok_start accepted, ordered_start accepted⟩
  exact hinvariant.2.kept c generation

/-- A renewal with no timer due. -/
theorem renewal_kept_sample : ∃ session : Session,
    Run Step Prompt (start ⟨0, 0⟩) session ∧ .succeeded 0 ∈ session.log ∧
      ¬Cancelled session.log 0 1 := by
  have hprompt {session session' : Session} (hnone : session.callbacks = []) :
      Prompt session session' := by
    intro c _ callback hmem
    rw [hnone] at hmem
    cases hmem
  have h1 : Run Step Prompt (start ⟨0, 0⟩) _ :=
    (Run.refl _).snoc (.begin sampleHeaders) (hprompt rfl)
  have h2 := h1.snoc (.call 0 _ _ rfl (.acquire sampleHeaders rfl rfl)) (hprompt rfl)
  have h3 := h2.snoc (.call 0 _ _ rfl (.reach sampleHeaders rfl (by decide))) (hprompt rfl)
  have h4 := h3.snoc (.call 0 _ _ rfl (.redeem [] ⟨60, 60⟩ rfl)) (hprompt rfl)
  have h5 := h4.snoc (.call 0 _ _ rfl (.count _ rfl)) (hprompt rfl)
  have h6 := h5.snoc (.call 0 _ _ rfl (.stop _ _ rfl)) (hprompt rfl)
  have h7 := h6.snoc (.call 0 _ _ rfl (.arm _ _ rfl)) (hprompt rfl)
  have h8 := h7.snoc (.call 0 _ _ rfl (.finish rfl)) (hprompt rfl)
  exact ⟨_, h8, List.mem_concat_self, renewal_kept h8 0 1⟩

/-- The first timer has compared the generation when a call redeems a ticket, arms its own timer and
returns success; then the first timer closes the connection. -/
theorem renewal_cancelled : ∃ session : Session,
    Run Step (fun _ _ ↦ True) (start ⟨0, 0⟩) session ∧
      session.log =
        [.armed 1, .began 0, .reached 0, .redeemed 0, .armed 2, .succeeded 0, .expired 1] ∧
      session.closed = true ∧ Cancelled session.log 0 1 := by
  have h1 : Run Step (fun _ _ ↦ True) (start ⟨0, 0⟩) _ :=
    (Run.refl _).snoc (.tick ⟨15 * Time.second, 15 * Time.second⟩ (by decide)) trivial
  have h2 := h1.snoc (.fire _ (List.mem_singleton_self _) rfl (by decide) (by simp [start])) trivial
  have h3 := h2.snoc (.load 0 _ rfl rfl) trivial
  have h4 := h3.snoc (.begin sampleHeaders) trivial
  have h5 := h4.snoc (.call 0 _ _ rfl (.acquire sampleHeaders rfl rfl)) trivial
  have h6 := h5.snoc (.call 0 _ _ rfl (.reach sampleHeaders rfl (by decide))) trivial
  have h7 := h6.snoc
    (.call 0 _ _ rfl (.redeem [] ⟨60 * Time.second, 60 * Time.second⟩ rfl)) trivial
  have h8 := h7.snoc (.call 0 _ _ rfl (.count _ rfl)) trivial
  have h9 := h8.snoc (.call 0 _ _ rfl (.stop _ _ rfl)) trivial
  have h10 := h9.snoc (.call 0 _ _ rfl (.arm _ _ rfl)) trivial
  have h11 := h10.snoc (.call 0 _ _ rfl (.finish rfl)) trivial
  have h12 := h11.snoc (.expire 0 _ rfl rfl) trivial
  refine ⟨_, h12, rfl, rfl, ?_⟩
  have hcancelled : Cancelled
      [.armed 1, .began 0, .reached 0, .redeemed 0, .armed 2, .succeeded 0, .expired 1] 0 1 := by
    unfold Cancelled
    decide
  exact hcancelled

end Runs

end Session

end QortalRelay.Access
