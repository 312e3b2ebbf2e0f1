import Mathlib.Logic.Basic

/-!
# Programs that call shared objects

A program works on a local state and calls objects that it shares with other programs. Between two
calls it runs alone, so the points of a run that others can see are its calls. A request is served
in one or more atomic steps on the shared memory (`Device`), and other threads move between them.

`Program.wp` is the weakest precondition of a program: whatever the calls answer, what is demanded
at every call is met, no fault comes up, and the program returns with the postcondition. A ghost
value is updated at every answer. The rules `wp_pure`, `wp_bind`, `wp_ite` and `wp_call` take a
program apart, `wp_run` turns the precondition into a fact about the runs of the program on its own,
and `meets_launch` into an invariant of the thread that runs it among others.
-/

set_option autoImplicit false
set_option relaxedAutoImplicit false

namespace QortalRelay.Foundation

/-! ### Programs -/

/-- What is left of a program that works on local states `σ`. -/
inductive Program (σ Request Answer α : Type)
  | ret (s : σ) (a : α)
  /-- An index out of range, a division by zero. -/
  | fault
  | call (s : σ) (request : Request) (next : Answer → Program σ Request Answer α)

variable {σ Request Answer Ghost α β : Type}

namespace Program

def bind (f : α → σ → Program σ Request Answer β) :
    Program σ Request Answer α → Program σ Request Answer β
  | ret s a => f a s
  | fault => fault
  | call s request next => call s request fun answer ↦ (next answer).bind f

/-- The run of a program on its own, with the answers that its surroundings give to its calls. An
answer may depend on the calls and answers before it. -/
def run (surroundings : List (Request × Answer) → Request → Answer) :
    List (Request × Answer) → Program σ Request Answer α → Option (List (Request × Answer) × σ × α)
  | trace, ret s a => some (trace, s, a)
  | _, fault => none
  | trace, call _ request next =>
    let answer := surroundings trace request
    (next answer).run surroundings (trace ++ [(request, answer)])

end Program

/-- A piece of code: what is done from a local state. -/
def Code (σ Request Answer α : Type) := σ → Program σ Request Answer α

namespace Code

instance : Monad (Code σ Request Answer) where
  pure a s := .ret s a
  bind m f s := (m s).bind f

def get : Code σ Request Answer σ := fun s ↦ .ret s s

def set (s : σ) : Code σ Request Answer Unit := fun _ ↦ .ret s ()

def call (request : Request) : Code σ Request Answer Answer :=
  fun s ↦ .call s request fun answer ↦ .ret s answer

/-- The value, or a fault where there is none. -/
def checked : Option α → Code σ Request Answer α
  | some a => fun s ↦ .ret s a
  | none => fun _ ↦ .fault

end Code

/-! ### Weakest preconditions -/

section Preconditions

/-- `visible` is demanded of the ghost value, the local state and the request at every call, and
`note` updates the ghost value at an answer. -/
structure Contract (σ Request Answer Ghost : Type) where
  visible : Ghost → σ → Request → Prop
  note : Ghost → Request → Answer → Ghost

variable (contract : Contract σ Request Answer Ghost)

/-- The program does not fault, shows the environment only what the contract allows, and returns
with the postcondition whatever it is answered. -/
def Program.wp (post : Ghost → σ → α → Prop) : Ghost → Program σ Request Answer α → Prop
  | g, .ret s a => post g s a
  | _, .fault => False
  | g, .call s request next =>
    contract.visible g s request ∧
      ∀ answer, (next answer).wp post (contract.note g request answer)

/-- The weakest precondition of a code from a ghost state and a private state. -/
def Code.wp (post : Ghost → σ → α → Prop) (code : Code σ Request Answer α) (g : Ghost) (s : σ) :
    Prop :=
  (code s).wp contract post g

variable {contract} {post : Ghost → σ → α → Prop} {g : Ghost} {s : σ}

theorem Program.wp_bind {post' : Ghost → σ → β → Prop} {f : α → σ → Program σ Request Answer β}
    {program : Program σ Request Answer α} :
    (program.bind f).wp contract post' g ↔
      program.wp contract (fun g s a ↦ (f a s).wp contract post' g) g := by
  induction program generalizing g with
  | ret s a => exact Iff.rfl
  | fault => exact Iff.rfl
  | call s request next ih => exact and_congr_right fun _ ↦ forall_congr' fun answer ↦ ih answer

namespace Code

theorem wp_pure {a : α} (h : post g s a) :
    Code.wp contract post (pure a : Code σ Request Answer α) g s := h

theorem wp_bind {post' : Ghost → σ → β → Prop} {m : Code σ Request Answer α}
    {f : α → Code σ Request Answer β}
    (h : Code.wp contract (fun g s a ↦ Code.wp contract post' (f a) g s) m g s) :
    Code.wp contract post' (m >>= f) g s :=
  Program.wp_bind.mpr h

theorem wp_ite {p : Prop} [Decidable p] {m m' : Code σ Request Answer α}
    (hpos : p → Code.wp contract post m g s) (hneg : ¬p → Code.wp contract post m' g s) :
    Code.wp contract post (if p then m else m') g s := by
  by_cases h : p
  · rw [if_pos h]
    exact hpos h
  · rw [if_neg h]
    exact hneg h

theorem wp_call {post : Ghost → σ → Answer → Prop} {request : Request}
    (hvisible : contract.visible g s request)
    (h : ∀ answer, post (contract.note g request answer) s answer) :
    Code.wp contract post (call request : Code σ Request Answer Answer) g s := ⟨hvisible, h⟩

theorem wp_checked {value : Option α} {a : α} (hvalue : value = some a) (h : post g s a) :
    Code.wp contract post (checked value : Code σ Request Answer α) g s := by
  subst hvalue
  exact h

end Code

/-- A program that meets its precondition returns, whatever its surroundings answer. -/
theorem Program.wp_run (surroundings : List (Request × Answer) → Request → Answer)
    {program : Program σ Request Answer α} (h : program.wp contract post g)
    (trace : List (Request × Answer)) :
    ∃ calls s a, program.run surroundings trace = some (trace ++ calls, s, a) ∧
      post (calls.foldl (fun g call ↦ contract.note g call.1 call.2) g) s a := by
  induction program generalizing g trace with
  | ret s a => exact ⟨[], s, a, by simp [run], h⟩
  | fault => exact h.elim
  | call s request next ih =>
    obtain ⟨calls, s', a, hrun, hpost⟩ := ih (surroundings trace request) (h.2 _)
      (trace ++ [(request, surroundings trace request)])
    exact ⟨(request, surroundings trace request) :: calls, s', a, by simpa [run] using hrun, hpost⟩

end Preconditions

/-! ### Threads -/

/-- The shared objects. A request is served step by step, each step leading to further progress or
to the answer. -/
structure Device (Memory Request Progress Answer : Type) where
  start : Request → Progress
  step : Progress → Memory → Memory × (Progress ⊕ Answer)

/-- A program that is being run: at its end, or with a request that is being served. -/
inductive Thread (σ Request Progress Answer α : Type)
  | returned (s : σ) (a : α)
  | faulted
  | calling (s : σ) (request : Request) (progress : Progress)
      (next : Answer → Program σ Request Answer α)

section Threads

variable {Memory Progress : Type} (device : Device Memory Request Progress Answer)

/-- A program up to its first request. -/
def Program.launch : Program σ Request Answer α → Thread σ Request Progress Answer α
  | ret s a => .returned s a
  | fault => .faulted
  | call s request next => .calling s request (device.start request) next

/-- One atomic step of a thread, and what the program does alone after an answer. -/
def Thread.advance (memory : Memory) :
    Thread σ Request Progress Answer α → Memory × Thread σ Request Progress Answer α
  | returned s a => (memory, returned s a)
  | faulted => (memory, faulted)
  | calling s request progress next =>
    match device.step progress memory with
    | (memory', .inl progress') => (memory', calling s request progress' next)
    | (memory', .inr answer) => (memory', (next answer).launch device)

/-- A thread that will meet its contract and postcondition, with a request that is being served as
`serves` says. -/
def Thread.Meets (contract : Contract σ Request Answer Ghost) (serves : Request → Progress → Prop)
    (post : Ghost → σ → α → Prop) (g : Ghost) : Thread σ Request Progress Answer α → Prop
  | returned s a => post g s a
  | faulted => False
  | calling s request progress next =>
    contract.visible g s request ∧ serves request progress ∧
      ∀ answer, (next answer).wp contract post (contract.note g request answer)

/-- Assumes: a request that starts is served. -/
theorem Program.meets_launch {contract : Contract σ Request Answer Ghost}
    {serves : Request → Progress → Prop} (hstart : ∀ request, serves request (device.start request))
    {post : Ghost → σ → α → Prop} {g : Ghost} {program : Program σ Request Answer α}
    (h : program.wp contract post g) : (program.launch device).Meets contract serves post g := by
  cases program with
  | ret s a => exact h
  | fault => exact h
  | call s request next => exact ⟨h.1, hstart request, h.2⟩

end Threads

end QortalRelay.Foundation
