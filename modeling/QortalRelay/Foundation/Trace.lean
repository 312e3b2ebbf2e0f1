import Mathlib.Logic.Relation
import Mathlib.Algebra.BigOperators.Group.List.Basic
import Mathlib.Algebra.Order.BigOperators.Group.List
import Mathlib.Algebra.Order.Group.Nat
import Mathlib.Data.List.Induction

/-!
# Runs, logs and thread pools

The vocabulary shared by the state machines of this development. A run is a chain of steps each of
which meets a guard (`Run`); an invariant of the guarded steps holds at the end of every run
(`Run.invariant`), and a reflexive and transitive relation kept by every guarded step relates the
two ends (`Run.relates`). A log is the list of what a run has shown to its surroundings, oldest
entry first. `Justified` says that every entry of a log is warranted by the entries before it. A
pool of threads is a list of program counters, and `weight` adds a number per thread, so
that a conservation law over a pool is one equation about the thread that moved (`weight_set`). A
lock of the pool is `Guarded` when it is held by the one thread inside its critical section.
-/

set_option autoImplicit false
set_option relaxedAutoImplicit false

namespace QortalRelay.Foundation.Trace

/-! ### Runs -/

section Runs

variable {State : Type*} {step guard : State → State → Prop}

/-- A chain of steps, each meeting the guard. -/
def Run (step guard : State → State → Prop) : State → State → Prop :=
  Relation.ReflTransGen fun s t ↦ step s t ∧ guard s t

theorem Run.refl (s : State) : Run step guard s s :=
  Relation.ReflTransGen.refl

theorem Run.snoc {s t u : State} (hrun : Run step guard s t) (hstep : step t u)
    (hguard : guard t u) : Run step guard s u :=
  Relation.ReflTransGen.tail hrun ⟨hstep, hguard⟩

theorem Run.trans {s t u : State} (hfirst : Run step guard s t) (hsecond : Run step guard t u) :
    Run step guard s u :=
  Relation.ReflTransGen.trans hfirst hsecond

/-- The invariant rule. Assumes: every guarded step keeps the invariant. It holds at the end of a
run that starts inside it. -/
theorem Run.invariant (inv : State → Prop)
    (hstep : ∀ s t, inv s → step s t → guard s t → inv t) {s t : State}
    (hrun : Run step guard s t) (hs : inv s) : inv t := by
  induction hrun with
  | refl => exact hs
  | tail _ hlast ih => exact hstep _ _ ih hlast.1 hlast.2

/-- Assumes: a reflexive and transitive relation that contains every guarded step. It relates the
two ends of a run. -/
theorem Run.relates (relation : State → State → Prop) (hrefl : ∀ s, relation s s)
    (htrans : ∀ s t u, relation s t → relation t u → relation s u)
    (hstep : ∀ s t, step s t → guard s t → relation s t) {s t : State}
    (hrun : Run step guard s t) : relation s t := by
  induction hrun with
  | refl => exact hrefl s
  | tail _ hlast ih => exact htrans _ _ _ ih (hstep _ _ hlast.1 hlast.2)

/-- Assumes: along the run an invariant holds, and from inside it every guarded step meets another
guard. The run is one under the other guard. -/
theorem Run.reguard (inv : State → Prop) {other : State → State → Prop}
    (hstep : ∀ s t, inv s → step s t → guard s t → inv t ∧ other s t) {s t : State}
    (hrun : Run step guard s t) (hs : inv s) : inv t ∧ Run step other s t := by
  induction hrun with
  | refl => exact ⟨hs, Run.refl s⟩
  | tail _ hlast ih =>
    obtain ⟨hinv, hother⟩ := hstep _ _ ih.1 hlast.1 hlast.2
    exact ⟨hinv, ih.2.snoc hlast.1 hother⟩

/-- A run under a stronger guard is a run under a weaker one. -/
theorem Run.mono {weaker : State → State → Prop}
    (hguard : ∀ s t, step s t → guard s t → weaker s t) {s t : State}
    (hrun : Run step guard s t) : Run step weaker s t :=
  (hrun.reguard (fun _ ↦ True) (fun s t _ hstep hst ↦ ⟨trivial, hguard s t hstep hst⟩) trivial).2

/-- Assumes: seen through a projection, every guarded step is a guarded step of another machine or
none at all. A run projects to a run. -/
theorem Run.project {Other : Type*} {step' guard' : Other → Other → Prop} (view : State → Other)
    (hstep : ∀ s t, step s t → guard s t →
      view t = view s ∨ step' (view s) (view t) ∧ guard' (view s) (view t)) {s t : State}
    (hrun : Run step guard s t) : Run step' guard' (view s) (view t) := by
  induction hrun with
  | refl => exact Run.refl _
  | tail _ hlast ih =>
    rcases hstep _ _ hlast.1 hlast.2 with heq | ⟨hother, hguard⟩
    · rwa [heq]
    · exact ih.snoc hother hguard

end Runs

/-! ### Logs -/

section Logs

variable {Entry : Type*} {warrant : List Entry → Entry → Prop}

/-- Every entry of the log is warranted by the entries before it. -/
def Justified (warrant : List Entry → Entry → Prop) (log : List Entry) : Prop :=
  ∀ before entry after, log = before ++ entry :: after → warrant before entry

theorem justified_nil : Justified warrant ([] : List Entry) := by
  intro before entry after h
  simp at h

theorem Justified.snoc {log : List Entry} {entry : Entry} (hlog : Justified warrant log)
    (hentry : warrant log entry) : Justified warrant (log ++ [entry]) := by
  intro before found after h
  rcases List.eq_nil_or_concat after with rfl | ⟨rest, last, rfl⟩
  · obtain ⟨rfl, hlast⟩ := List.append_inj' h rfl
    rw [List.cons.injEq] at hlast
    exact hlast.1 ▸ hentry
  · rw [List.concat_eq_append, ← List.cons_append, ← List.append_assoc] at h
    obtain ⟨hinit, -⟩ := List.append_inj' h rfl
    exact hlog before found rest hinit

/-- Assumes: entries appended one after another, each warranted by the log as it then stands. -/
theorem Justified.append {log : List Entry} (hlog : Justified warrant log) :
    ∀ entries : List Entry,
      (∀ before entry after, entries = before ++ entry :: after →
        warrant (log ++ before) entry) → Justified warrant (log ++ entries) := by
  intro entries
  induction entries using List.reverseRecOn with
  | nil => intro _; simpa using hlog
  | append_singleton init last ih =>
    intro hentries
    rw [← List.append_assoc]
    refine Justified.snoc (ih fun before entry after h ↦ ?_) (hentries init last [] rfl)
    exact hentries before entry (after ++ [last]) (by rw [h]; simp)

/-- What stands in order in a log with a new entry: it stood there, or it ends with the entry. -/
theorem sublist_snoc_cases (first : List Entry) (last : Entry) {log : List Entry} {entry : Entry}
    (h : (first ++ [last]).Sublist (log ++ [entry])) :
    (first ++ [last]).Sublist log ∨ last = entry ∧ first.Sublist log := by
  rw [← List.reverse_sublist, List.reverse_concat', List.reverse_concat',
    List.sublist_cons_iff] at h
  rcases h with hold | ⟨rest, heq, hrest⟩
  · rw [← List.reverse_concat', List.reverse_sublist] at hold
    exact Or.inl hold
  · rw [List.cons.injEq] at heq
    rw [← heq.2, List.reverse_sublist] at hrest
    exact Or.inr ⟨heq.1, hrest⟩

end Logs

/-! ### Thread pools -/

section Pools

variable {Thread : Type*} {M : Type*} [AddCommMonoid M]

/-- The total of a number per thread of the pool, or per entry of a log. -/
def weight (f : Thread → M) (pool : List Thread) : M := (pool.map f).sum

@[simp] theorem weight_nil (f : Thread → M) : weight f [] = 0 := rfl

@[simp] theorem weight_append (f : Thread → M) (first second : List Thread) :
    weight f (first ++ second) = weight f first + weight f second := by
  simp [weight]

@[simp] theorem weight_cons (f : Thread → M) (thread : Thread) (pool : List Thread) :
    weight f (thread :: pool) = f thread + weight f pool := by
  simp [weight]

theorem weight_add (f g : Thread → M) (pool : List Thread) :
    weight (fun thread ↦ f thread + g thread) pool = weight f pool + weight g pool :=
  List.sum_map_add

/-- A thread that moves changes the total by its own difference. -/
theorem weight_set (f : Thread → M) {pool : List Thread} {i : ℕ} {old : Thread}
    (hold : pool[i]? = some old) (new : Thread) :
    weight f (pool.set i new) + f old = weight f pool + f new := by
  induction pool generalizing i with
  | nil => simp at hold
  | cons head rest ih =>
    cases i with
    | zero =>
      simp only [List.getElem?_cons_zero, Option.some.injEq] at hold
      subst hold
      simp only [List.set_cons_zero, weight_cons]
      ac_rfl
    | succ i =>
      simp only [List.getElem?_cons_succ] at hold
      simp only [List.set_cons_succ, weight_cons]
      rw [add_assoc, ih hold, add_assoc]

theorem weight_eq_zero {f : Thread → M} {pool : List Thread} (h : ∀ thread ∈ pool, f thread = 0) :
    weight f pool = 0 := by
  induction pool with
  | nil => rfl
  | cons head rest ih =>
    rw [weight_cons, h head List.mem_cons_self, ih fun t ht ↦ h t (List.mem_cons_of_mem _ ht),
      add_zero]

theorem exists_mem_of_weight_ne_zero {f : Thread → M} {pool : List Thread}
    (h : weight f pool ≠ 0) : ∃ thread ∈ pool, f thread ≠ 0 := by
  by_contra hnone
  refine h (weight_eq_zero fun thread hthread ↦ ?_)
  by_contra hne
  exact hnone ⟨thread, hthread, hne⟩

/-- One thread accounts for no more than the pool. -/
theorem le_weight {f : Thread → ℕ} {pool : List Thread} {thread : Thread} (h : thread ∈ pool) :
    f thread ≤ weight f pool :=
  List.single_le_sum (fun _ _ ↦ Nat.zero_le _) _ (List.mem_map_of_mem h)

/-- Two threads account for no more than the pool. -/
theorem add_le_weight {f : Thread → ℕ} {pool : List Thread} {i j : ℕ} {first second : Thread}
    (hne : i ≠ j) (hi : pool[i]? = some first) (hj : pool[j]? = some second) :
    f first + f second ≤ weight f pool := by
  induction pool generalizing i j with
  | nil => simp at hi
  | cons head rest ih =>
    rw [weight_cons]
    cases i with
    | zero =>
      obtain ⟨j, rfl⟩ := Nat.exists_eq_succ_of_ne_zero hne.symm
      simp only [List.getElem?_cons_zero, Option.some.injEq, List.getElem?_cons_succ] at hi hj
      subst hi
      exact Nat.add_le_add_left (le_weight (List.mem_of_getElem? hj)) _
    | succ i =>
      cases j with
      | zero =>
        simp only [List.getElem?_cons_zero, Option.some.injEq, List.getElem?_cons_succ] at hi hj
        subst hj
        rw [Nat.add_comm]
        exact Nat.add_le_add_left (le_weight (List.mem_of_getElem? hi)) _
      | succ j =>
        simp only [List.getElem?_cons_succ] at hi hj
        have := ih (by omega) hi hj
        omega

theorem weight_mono {f g : Thread → ℕ} {pool : List Thread}
    (h : ∀ thread ∈ pool, f thread ≤ g thread) : weight f pool ≤ weight g pool := by
  induction pool with
  | nil => exact le_rfl
  | cons head rest ih =>
    rw [weight_cons, weight_cons]
    exact Nat.add_le_add (h head List.mem_cons_self) (ih fun t ht ↦ h t (List.mem_cons_of_mem _ ht))

theorem weight_indicator (p : Thread → Bool) (pool : List Thread) :
    weight (fun thread ↦ if p thread then 1 else 0) pool = (pool.filter p).length := by
  induction pool with
  | nil => rfl
  | cons head rest ih =>
    rw [weight_cons, ih, List.filter_cons]
    split_ifs
    · rw [List.length_cons, Nat.add_comm]
    · rw [Nat.zero_add]

/-- The thread at an index after one has moved. -/
theorem getElem?_set_cases {pool : List Thread} {i k : ℕ} {new found : Thread}
    (h : (pool.set i new)[k]? = some found) :
    k = i ∧ found = new ∨ k ≠ i ∧ pool[k]? = some found := by
  rw [List.getElem?_set] at h
  split_ifs at h with hik
  · exact Or.inl ⟨hik.symm, (Option.some.inj h).symm⟩
  · exact Or.inr ⟨Ne.symm hik, h⟩

/-- The thread at an index after one has joined. -/
theorem getElem?_snoc_cases {pool : List Thread} {k : ℕ} {new found : Thread}
    (h : (pool ++ [new])[k]? = some found) :
    pool[k]? = some found ∨ k = pool.length ∧ found = new := by
  by_cases hk : k < pool.length
  · rw [List.getElem?_append_left hk] at h
    exact Or.inl h
  · rw [List.getElem?_append_right (not_lt.mp hk), List.getElem?_singleton] at h
    split_ifs at h with hzero
    exact Or.inr ⟨by omega, (Option.some.inj h).symm⟩

/-- After one thread has moved, a property of the threads has to be shown for that thread and for
those that were there. -/
theorem forall_mem_set {property : Thread → Prop} {pool : List Thread} {i : ℕ} {new : Thread}
    (hpool : ∀ thread ∈ pool, property thread) (hnew : property new) :
    ∀ thread ∈ pool.set i new, property thread := by
  intro thread hthread
  rcases List.mem_or_eq_of_mem_set hthread with h | rfl
  · exact hpool thread h
  · exact hnew

/-- A thread that keeps its name leaves the names of the pool as they are. -/
theorem map_set_of_eq {Name : Type*} (name : Thread → Name) {pool : List Thread} {i : ℕ}
    {old new : Thread} (hold : pool[i]? = some old) (hname : name new = name old) :
    (pool.set i new).map name = pool.map name := by
  obtain ⟨hi, rfl⟩ := List.getElem?_eq_some_iff.mp hold
  rw [List.map_set, hname, ← List.getElem_map name (h := by rwa [List.length_map]),
    List.set_getElem_self]

/-- Assumes: no two threads of the pool with the same name. -/
theorem index_eq_of_nodup {Name : Type*} {name : Thread → Name} {pool : List Thread}
    (hnames : (pool.map name).Nodup) {i j : ℕ} {first second : Thread}
    (hfirst : pool[i]? = some first) (hsecond : pool[j]? = some second)
    (hname : name first = name second) : i = j := by
  have hi : i < pool.length := (List.getElem?_eq_some_iff.mp hfirst).1
  refine (List.getElem?_inj (by rwa [List.length_map]) hnames).mp ?_
  rw [List.getElem?_map, List.getElem?_map, hfirst, hsecond]
  exact congrArg some hname

/-- A thread that moves changes the outcomes of the pool by its own. -/
theorem perm_filterMap_set {Outcome : Type*} (f : Thread → Option Outcome) {pool : List Thread}
    {i : ℕ} {old : Thread} (hold : pool[i]? = some old) (new : Thread) :
    ((pool.set i new).filterMap f ++ (f old).toList).Perm
      (pool.filterMap f ++ (f new).toList) := by
  induction pool generalizing i with
  | nil => simp at hold
  | cons head rest ih =>
    have hcons (thread : Thread) (threads : List Thread) :
        (thread :: threads).filterMap f = (f thread).toList ++ threads.filterMap f := by
      cases h : f thread <;> simp [h]
    cases i with
    | zero =>
      simp only [List.getElem?_cons_zero, Option.some.injEq] at hold
      subst hold
      rw [List.set_cons_zero, hcons, hcons, List.append_assoc]
      refine List.perm_append_comm.trans ?_
      rw [List.append_assoc, List.append_assoc]
      exact List.perm_append_comm_assoc _ _ _
    | succ i =>
      simp only [List.getElem?_cons_succ] at hold
      rw [List.set_cons_succ, hcons, hcons, List.append_assoc, List.append_assoc]
      exact (ih hold).append_left _

end Pools

/-! ### Locks -/

section Locks

variable {Thread : Type*} {holds : Thread → Bool} {pool : List Thread} {lock : Option ℕ}

/-- A lock is held by the one thread that is inside its critical section. -/
def Guarded (holds : Thread → Bool) (pool : List Thread) (lock : Option ℕ) : Prop :=
  ∀ i, lock = some i ↔ ∃ thread, pool[i]? = some thread ∧ holds thread = true

theorem Guarded.eq_some (h : Guarded holds pool lock) {i : ℕ} {thread : Thread}
    (hthread : pool[i]? = some thread) (hholds : holds thread = true) : lock = some i :=
  (h i).mpr ⟨thread, hthread, hholds⟩

/-- A thread that has just been started is outside the critical section. -/
theorem Guarded.append (h : Guarded holds pool lock) {thread : Thread}
    (hthread : holds thread = false) : Guarded holds (pool ++ [thread]) lock := by
  intro i
  rw [h i]
  by_cases hi : i < pool.length
  · rw [List.getElem?_append_left hi]
  · rw [List.getElem?_append_right (not_lt.mp hi), List.getElem?_eq_none (not_lt.mp hi)]
    constructor
    · rintro ⟨_, hnone, -⟩
      cases hnone
    · rintro ⟨found, hfound, hholds⟩
      obtain rfl := List.mem_singleton.mp (List.mem_of_getElem? hfound)
      rw [hthread] at hholds
      cases hholds

/-- Assumes: a thread moves on its side of the critical section and leaves the lock alone, or takes
the free lock and enters, or leaves and frees the lock. The lock stays guarded. -/
theorem Guarded.set (h : Guarded holds pool lock) {i : ℕ} {old new : Thread}
    (hold : pool[i]? = some old) {lock' : Option ℕ}
    (hmove : holds new = holds old ∧ lock' = lock ∨
      lock = none ∧ lock' = some i ∧ holds new = true ∨
      holds old = true ∧ holds new = false ∧ lock' = none) :
    Guarded holds (pool.set i new) lock' := by
  have hi : i < pool.length := (List.getElem?_eq_some_iff.mp hold).1
  have hown : lock = some i ↔ holds old = true := by
    rw [h i]
    constructor
    · rintro ⟨thread, hthread, hholds⟩
      rw [hold] at hthread
      rwa [Option.some.inj hthread]
    · exact fun hholds ↦ ⟨old, hold, hholds⟩
  intro j
  by_cases hij : i = j
  · subst hij
    rw [List.getElem?_set_self hi]
    have hnew : (∃ thread, some new = some thread ∧ holds thread = true) ↔ holds new = true := by
      simp
    rw [hnew]
    rcases hmove with ⟨hsame, rfl⟩ | ⟨-, rfl, hholds⟩ | ⟨-, hfree, rfl⟩
    · rw [hown, hsame]
    · simp [hholds]
    · simp [hfree]
  · rw [List.getElem?_set_ne hij, ← h j]
    rcases hmove with ⟨-, rfl⟩ | ⟨rfl, rfl, -⟩ | ⟨hholds, -, rfl⟩
    · exact Iff.rfl
    · simp [hij]
    · simp [hown.mpr hholds, hij]

end Locks

end QortalRelay.Foundation.Trace
