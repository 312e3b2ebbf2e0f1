import QortalRelay.Access.Decision

/-!
# The limits of the lookups

The lookups of a check share four places, and all lookups of a policy share sixteen request slots.
The slots taken are the requests under way, and neither limit is ever passed (`Checks.Limited`). A
check returns with the first positive result and leaves its other lookups behind. They still hold
places and slots, and a check that has been turned away or whose context is done has lookups that
wait; when no thread can go on, all of them have ended and every slot is free (`lookups_give_back`).
-/

set_option autoImplicit false
set_option relaxedAutoImplicit false

namespace QortalRelay.Access

open Foundation Encoding Trace

/-- How many of the four places are taken. -/
def Check.places (check : Check) : ℕ := (check.lookups.filter GroupLookup.inside).length

/-- The two bounds of the source: sixteen requests in all checks together, four lookups in one
check. -/
structure Checks.Limited (state : Checks) : Prop where
  slots : state.cores.slots ≤ 16
  places : ∀ check ∈ state.checks, check.places ≤ 4

/-! ### One move -/

section Moves

variable {policy : GroupPolicy} {address : Text} {now : Time} {done room : Bool}
  {cores cores' : Cores} {before after : GroupLookup} {signal : Signal} {check check' : Check}
  {state state' : Checks}

theorem GroupMove.slots_le
    (hmove : GroupMove policy address now done room cores before cores' after signal)
    (hslots : cores.slots ≤ 16) : cores'.slots ≤ 16 := by
  cases hmove with
  | ask base rest hpc hslot => exact hslot
  | receive => exact (Nat.sub_le _ _).trans hslots
  | _ => exact hslots

/-- A lookup takes a place only if there is room. -/
theorem GroupMove.inside_of
    (hmove : GroupMove policy address now done room cores before cores' after signal)
    (hinside : after.inside = true) : before.inside = true ∨ room = true := by
  cases hmove with
  | enter hpc hroom => exact Or.inr hroom
  | turnAway hpc hdone => cases hinside
  | leave hpc => cases hinside
  | _ =>
    left
    simp only [GroupLookup.inside, *]

theorem CheckMove.slots_le (hmove : CheckMove policy now cores check cores' check')
    (hslots : cores.slots ≤ 16) : cores'.slots ≤ 16 := by
  cases hmove with
  | lookup i before after signal _ hbefore hmove => exact hmove.slots_le hslots
  | take | finish => exact hslots

/-- Replacing one lookup changes the places by what the two of them hold. -/
theorem Check.places_moved {i : ℕ} (hbefore : check.lookups[i]? = some before)
    (after : GroupLookup) (signal : Signal) :
    (check.moved i after signal).places + before.inside.toNat =
      check.places + after.inside.toNat := by
  have hweight := weight_set
    (fun lookup : GroupLookup ↦ if lookup.inside then 1 else 0) hbefore after
  rw [weight_indicator, weight_indicator] at hweight
  cases hold : before.inside <;> cases hnew : after.inside <;>
    simpa [hold, hnew, Check.places, Check.moved] using hweight

theorem CheckMove.places_le (hmove : CheckMove policy now cores check cores' check')
    (hplaces : check.places ≤ 4) : check'.places ≤ 4 := by
  cases hmove with
  | lookup i before after signal _ hbefore hmove =>
    have hmoved := Check.places_moved hbefore after signal
    cases hinside : after.inside with
    | false =>
      rw [hinside, Bool.toNat_false] at hmoved
      omega
    | true =>
      rw [hinside, Bool.toNat_true] at hmoved
      rcases hmove.inside_of hinside with hold | hroom
      · rw [hold, Bool.toNat_true] at hmoved
        omega
      · have hlt : check.places < 4 := of_decide_eq_true hroom
        omega
  | take result rest hresult hunread hchannel =>
    rcases result with error | ⟨_ | _, started⟩ <;> exact hplaces
  | finish => exact hplaces

end Moves

/-! ### Runs -/

section Runs

variable {policy : GroupPolicy} {state state' : Checks} {check : Check} {lookup : GroupLookup}

theorem Checks.Limited.step (h : state.Limited) (hstep : Checks.Step policy state state') :
    state'.Limited := by
  cases hstep with
  | start address =>
    refine ⟨h.slots, fun check hcheck ↦ ?_⟩
    rcases List.mem_append.mp hcheck with hold | hnew
    · exact h.places check hold
    · have hnone : (Check.start policy address).places = 0 := by
        rw [Check.places, List.length_eq_zero_iff, List.filter_eq_nil_iff]
        intro lookup hlookup
        obtain ⟨group, -, rfl⟩ := List.mem_map.mp hlookup
        exact Bool.false_ne_true
      rw [List.mem_singleton.mp hnew, hnone]
      exact Nat.zero_le _
  | cancel i check hcheck =>
    exact ⟨h.slots, forall_mem_set h.places (h.places check (List.mem_of_getElem? hcheck))⟩
  | move _ hmove =>
    obtain ⟨now, i, check, check', cores', hcheck, hmove⟩ := hmove
    exact ⟨hmove.slots_le h.slots,
      forall_mem_set h.places (hmove.places_le (h.places check (List.mem_of_getElem? hcheck)))⟩

/-- A lookup that waits for a place waits for one that has it and has not gone. -/
theorem Checks.Ok.exists_move_of_not_gone (h : state.Ok policy) (hcheck : check ∈ state.checks)
    (hlookup : lookup ∈ check.lookups) (hpc : lookup.pc ≠ .gone) :
    ∃ after, Checks.Move policy state after := by
  by_cases hwaits : lookup.pc = .waiting → check.room = true
  · exact h.exists_move_of_ready hcheck hlookup hpc hwaits
  · obtain ⟨-, hroom⟩ := Classical.not_imp.mp hwaits
    have hfull : 4 ≤ (check.lookups.filter GroupLookup.inside).length := by
      simpa [Check.room] using hroom
    obtain ⟨other, hother⟩ := List.exists_mem_of_length_pos (Nat.zero_lt_of_lt hfull)
    obtain ⟨hmem, hinside⟩ := List.mem_filter.mp hother
    refine h.exists_move_of_ready hcheck hmem ?_ ?_
    · intro hgone
      simp [GroupLookup.inside, hgone] at hinside
    · intro hwaiting
      simp [GroupLookup.inside, hwaiting] at hinside

theorem Checks.Ok.slots_eq_zero (h : state.Ok policy)
    (hgone : ∀ check ∈ state.checks, ∀ lookup ∈ check.lookups, lookup.pc = .gone) :
    state.cores.slots = 0 := by
  rw [h.slots]
  refine weight_eq_zero fun check hcheck ↦ weight_eq_zero fun lookup hlookup ↦ ?_
  rw [hgone check hcheck lookup hlookup]
  rfl

/-- However the checks of a policy are started, cancelled and interleaved: the request slots taken
are the requests under way, at most sixteen, and no check has more than four lookups at work. Every
move lowers the rank, and when there is none left, every lookup has ended, also those whose check
had returned before them, and all slots are free.

Assumes: a state that a run can reach. -/
theorem lookups_give_back
    (hrun : Run (Checks.Step policy) (fun _ _ ↦ True) Checks.initial state) :
    (state.cores.slots = weight Check.held state.checks ∧ state.cores.slots ≤ 16) ∧
      (∀ check ∈ state.checks, check.places ≤ 4) ∧
      (∀ after, Checks.Move policy state after → after.rank policy < state.rank policy) ∧
      ((∀ after, ¬Checks.Move policy state after) → state.cores.slots = 0 ∧
        ∀ check ∈ state.checks, ∀ lookup ∈ check.lookups, lookup.pc = .gone) := by
  have hok := Checks.ok_of_run hrun
  have hlimited : state.Limited :=
    hrun.invariant Checks.Limited (fun _ _ hstate hstep _ ↦ hstate.step hstep)
      ⟨Nat.zero_le _, List.forall_mem_nil _⟩
  refine ⟨⟨hok.slots, hlimited.slots⟩, hlimited.places, fun _ hmove ↦ hmove.rank_lt, ?_⟩
  intro hstuck
  have hgone : ∀ check ∈ state.checks, ∀ lookup ∈ check.lookups, lookup.pc = .gone := by
    intro check hcheck lookup hlookup
    by_contra hpc
    obtain ⟨after, hmove⟩ := hok.exists_move_of_not_gone hcheck hlookup hpc
    exact hstuck after hmove
  exact ⟨hok.slots_eq_zero hgone, hgone⟩

/-- A run in which one server fails and another one answers. -/
theorem lookups_give_back_sample : ∃ state,
    Run (Checks.Step sampleGroups) (fun _ _ ↦ True) Checks.initial state ∧
      (∃ check ∈ state.checks, check.result = some (.answered true ⟨2, 2⟩)) ∧
      state.cores.slots ≤ 16 := by
  obtain ⟨state, hrun, hresult⟩ := exists_sample_run
  exact ⟨state, hrun, hresult, (lookups_give_back hrun).1.2⟩

end Runs

end QortalRelay.Access
