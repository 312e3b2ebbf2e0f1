import QortalRelay.Foundation.Store

/-!
# Transactions

The body of a transaction changes a state step by step and may end in an error, with the changes it
has made so far (`Body`). `update` runs a body as a transaction: an error takes all changes back.
What a transaction does is therefore what its body does without the state an error leaves behind
(`Body.outcome`), and that is computed along the body (`outcome_bind`, `outcome_attempt`,
`outcome_sweepAll`). A body with writes that may fail either does what it does without failures or
ends in the error of a failed write (`Falters`).
-/

set_option autoImplicit false
set_option relaxedAutoImplicit false

namespace QortalRelay.Foundation.Transactions

open Store

/-! ### Bodies -/

section Bodies

variable {σ ε α β : Type}

/-- What is done inside a transaction. -/
abbrev Body (σ ε α : Type) := ExceptT ε (StateM σ) α

/-- Run a body and commit, which may itself fail. An error takes all changes back. -/
def update (fault : Option ε) (body : Body σ ε α) (s : σ) : Except ε α × σ :=
  match body.run.run s, fault with
  | (.ok a, s'), none => (.ok a, s')
  | (.ok _, _), some e => (.error e, s)
  | (.error e, _), _ => (.error e, s)

/-- What a body returns and leaves, or its error alone. -/
def Body.outcome (body : Body σ ε α) (s : σ) : Except ε (α × σ) :=
  match body.run.run s with
  | (.ok a, s') => .ok (a, s')
  | (.error e, _) => .error e

/-- A write that may fail. -/
def attempt (fails : Bool) (fault : ε) (change : σ → σ) : Body σ ε Unit :=
  if fails then throw fault else modify change

@[simp] theorem outcome_pure (a : α) (s : σ) :
    Body.outcome (pure a : Body σ ε α) s = .ok (a, s) := rfl

@[simp] theorem outcome_throw (e : ε) (s : σ) :
    Body.outcome (throw e : Body σ ε α) s = .error e := rfl

@[simp] theorem outcome_get (s : σ) : Body.outcome (get : Body σ ε σ) s = .ok (s, s) := rfl

@[simp] theorem outcome_attempt (fault : ε) (change : σ → σ) (s : σ) :
    Body.outcome (attempt false fault change) s = .ok ((), change s) := rfl

theorem outcome_bind (body : Body σ ε α) (next : α → Body σ ε β) (s : σ) :
    Body.outcome (body >>= next) s =
      (body.outcome s).bind fun result ↦ (next result.1).outcome result.2 := by
  have hrun : (body >>= next).run.run s =
      (body.run >>= ExceptT.bindCont next).run s := rfl
  unfold Body.outcome
  rw [hrun, StateT.run_bind]
  change (match (ExceptT.bindCont next (body.run.run s).1).run (body.run.run s).2 with
    | (.ok a, s') => Except.ok (a, s')
    | (.error e, _) => .error e) = _
  rcases body.run.run s with ⟨result, s'⟩
  cases result with
  | ok a => rfl
  | error e => rfl

/-- A transaction by the outcome of its body. -/
theorem update_eq (fault : Option ε) (body : Body σ ε α) (s : σ) :
    update fault body s =
      match body.outcome s, fault with
      | .ok (a, s'), none => (.ok a, s')
      | .ok _, some e => (.error e, s)
      | .error e, _ => (.error e, s) := by
  unfold update Body.outcome
  rcases body.run.run s with ⟨result, s'⟩
  cases result with
  | ok a => cases fault <;> rfl
  | error e => rfl

/-- A transaction that returns an error has changed nothing. -/
theorem update_error {fault : Option ε} {body : Body σ ε α} {s s' : σ} {e : ε}
    (h : update fault body s = (.error e, s')) : s' = s := by
  rw [update_eq] at h
  split at h
  · cases h
  · exact (Prod.mk.inj h).2.symm
  · exact (Prod.mk.inj h).2.symm

end Bodies

/-! ### Writes that fail -/

section Failures

variable {σ ε α β : Type} {fault : ε}

/-- The first body does what the second one does, or ends in the fault. -/
def Falters (fault : ε) (body clean : Body σ ε α) : Prop :=
  ∀ s, body.outcome s = clean.outcome s ∨ body.outcome s = .error fault

theorem Falters.refl (body : Body σ ε α) : Falters fault body body := fun _ ↦ Or.inl rfl

theorem falters_attempt (fails : Bool) (change : σ → σ) :
    Falters fault (attempt fails fault change) (attempt false fault change) := by
  intro s
  cases fails with
  | false => exact Or.inl rfl
  | true => exact Or.inr rfl

theorem Falters.bind {body clean : Body σ ε α} {next cleanNext : α → Body σ ε β}
    (h : Falters fault body clean) (hnext : ∀ a, Falters fault (next a) (cleanNext a)) :
    Falters fault (body >>= next) (clean >>= cleanNext) := by
  intro s
  rw [outcome_bind, outcome_bind]
  rcases h s with heq | hfault
  · rw [heq]
    cases clean.outcome s with
    | error e => exact Or.inl rfl
    | ok result => exact hnext result.1 result.2
  · rw [hfault]
    exact Or.inr rfl

theorem Falters.ite {p : Prop} [Decidable p] {body clean other cleanOther : Body σ ε α}
    (h : Falters fault body clean) (hother : Falters fault other cleanOther) :
    Falters fault (if p then body else other) (if p then clean else cleanOther) := by
  by_cases hp : p
  · rw [if_pos hp, if_pos hp]
    exact h
  · rw [if_neg hp, if_neg hp]
    exact hother

end Failures

/-! ### Cursor loops inside a transaction -/

/-- A part of a state. -/
structure Field (σ β : Type) where
  get : σ → β
  set : β → σ → σ
  get_set : ∀ b s, get (set b s) = b
  set_get : ∀ s, set (get s) s = s
  set_set : ∀ b c s, set b (set c s) = set b s

namespace Field

variable {σ ε K V : Type} [LinearOrder K] (field : Field σ (Bucket K V))
  (visit : K → Except ε Verdict) (fails : K → Bool) (fault : ε)

/-- The loop over a bucket that deletes from it. The cursor moves on in the bucket as it is after
the deletion. -/
def sweepFrom : ℕ → Option K → Body σ ε Unit
  | fuel + 1, some key =>
    match visit key with
    | .error e => throw e
    | .ok .stop => pure ()
    | .ok .keep => do
      let s ← MonadState.get
      sweepFrom fuel ((field.get s).next key)
    | .ok .delete => do
      attempt (fails key) fault fun s ↦ field.set ((field.get s).deleteAll [key]) s
      let s ← MonadState.get
      sweepFrom fuel ((field.get s).next key)
  | _, _ => pure ()

/-- The loop from the first key to the end. -/
def sweepAll : Body σ ε Unit := do
  let s ← MonadState.get
  field.sweepFrom visit fails fault (field.get s).keyN (field.get s).keys.head?

theorem outcome_sweepFrom (fuel : ℕ) (cursor : Option K) (s : σ) :
    (field.sweepFrom visit (fun _ ↦ false) fault fuel cursor).outcome s =
      (Bucket.sweepFrom visit fuel cursor (field.get s)).map fun b ↦ ((), field.set b s) := by
  induction fuel generalizing cursor s with
  | zero => simp [sweepFrom, Bucket.sweepFrom, Except.map, field.set_get]
  | succ fuel ih =>
    cases cursor with
    | none => simp [sweepFrom, Bucket.sweepFrom, Except.map, field.set_get]
    | some key =>
      cases hvisit : visit key with
      | error e => simp [sweepFrom, Bucket.sweepFrom, hvisit, Except.map]
      | ok verdict =>
        cases verdict with
        | stop => simp [sweepFrom, Bucket.sweepFrom, hvisit, Except.map, field.set_get]
        | keep =>
          simp only [sweepFrom, Bucket.sweepFrom, hvisit, outcome_bind]
          exact ih _ s
        | delete =>
          simp only [sweepFrom, Bucket.sweepFrom, hvisit, outcome_bind]
          refine (ih _ _).trans ?_
          simp only [field.get_set, field.set_set]

theorem outcome_sweepAll (s : σ) :
    (field.sweepAll visit (fun _ ↦ false) fault).outcome s =
      (condemned visit (field.get s).keys).map
        fun dead ↦ ((), field.set ((field.get s).deleteAll dead) s) := by
  have hloop := field.outcome_sweepFrom visit fault (field.get s).keyN (field.get s).keys.head? s
  rw [sweepAll, outcome_bind]
  refine hloop.trans ?_
  rw [show Bucket.sweepFrom visit (field.get s).keyN (field.get s).keys.head? (field.get s) =
    (field.get s).sweep visit from rfl, Bucket.sweep_eq]
  cases condemned visit (field.get s).keys <;> rfl

theorem falters_sweepFrom (fuel : ℕ) (cursor : Option K) :
    Falters fault (field.sweepFrom visit fails fault fuel cursor)
      (field.sweepFrom visit (fun _ ↦ false) fault fuel cursor) := by
  induction fuel generalizing cursor with
  | zero => exact .refl _
  | succ fuel ih =>
    cases cursor with
    | none => exact .refl _
    | some key =>
      cases hvisit : visit key with
      | error e => simp only [sweepFrom, hvisit]; exact .refl _
      | ok verdict =>
        cases verdict with
        | stop => simp only [sweepFrom, hvisit]; exact .refl _
        | keep =>
          simp only [sweepFrom, hvisit]
          exact (Falters.refl _).bind fun s ↦ ih _
        | delete =>
          simp only [sweepFrom, hvisit]
          exact (falters_attempt _ _).bind fun _ ↦ (Falters.refl _).bind fun s ↦ ih _

theorem falters_sweepAll :
    Falters fault (field.sweepAll visit fails fault)
      (field.sweepAll visit (fun _ ↦ false) fault) :=
  (Falters.refl _).bind fun _ ↦ field.falters_sweepFrom visit fails fault _ _

end Field

end QortalRelay.Foundation.Transactions
