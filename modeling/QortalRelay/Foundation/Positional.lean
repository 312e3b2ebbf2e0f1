import Mathlib.Data.Nat.Digits.Defs
import Mathlib.Data.Nat.Digits.Lemmas
import Mathlib.Data.List.TakeWhile

/-!
# Positional notation with leading zeros

A list of digits, most significant first, is the number it denotes together with its leading zeros:
no other list of digits has the same of both (`replicate_append_expand_value`). Hence writing a list
in another base, with as many leading zeros as it has, loses nothing (`rebase_rebase`). How many
digits the other base takes is bounded by comparing powers of the bases (`length_rebase_le`).
-/

set_option autoImplicit false
set_option relaxedAutoImplicit false

namespace QortalRelay.Foundation.Positional

/-- The number that digits denote. -/
def value (base : ℕ) (digits : List ℕ) : ℕ := digits.foldl (fun n digit ↦ base * n + digit) 0

/-- The digits of a number, without leading zeros; zero has none. -/
def expand (base n : ℕ) : List ℕ := (Nat.digits base n).reverse

def leadingZeros (digits : List ℕ) : ℕ := (digits.takeWhile (· == 0)).length

/-- The digits in another base, with the leading zeros they have. -/
def rebase (base base' : ℕ) (digits : List ℕ) : List ℕ :=
  List.replicate (leadingZeros digits) 0 ++ expand base' (value base digits)

section Value

variable {base : ℕ}

theorem value_eq_ofDigits (base : ℕ) (digits : List ℕ) :
    value base digits = Nat.ofDigits base digits.reverse := by
  induction digits using List.reverseRecOn with
  | nil => rfl
  | append_singleton digits digit ih =>
    rw [value, List.foldl_append, List.foldl_cons, List.foldl_nil, List.reverse_append,
      List.reverse_singleton, List.singleton_append, Nat.ofDigits_cons, ← ih, value, Nat.add_comm]

theorem value_replicate_append (base n : ℕ) (digits : List ℕ) :
    value base (List.replicate n 0 ++ digits) = value base digits := by
  induction n with
  | zero => rfl
  | succ n ih =>
    rw [← ih, List.replicate_succ, List.cons_append, value, List.foldl_cons]
    rfl

@[simp] theorem value_expand (base n : ℕ) : value base (expand base n) = n := by
  rw [value_eq_ofDigits, expand, List.reverse_reverse, Nat.ofDigits_digits]

theorem value_lt_pow (hbase : 1 < base) {digits : List ℕ} (hdigits : ∀ d ∈ digits, d < base) :
    value base digits < base ^ digits.length := by
  rw [value_eq_ofDigits, ← List.length_reverse]
  exact Nat.ofDigits_lt_base_pow_length hbase fun d hd ↦ hdigits d (List.mem_reverse.mp hd)

theorem lt_of_mem_expand (hbase : 1 < base) {n digit : ℕ} (h : digit ∈ expand base n) :
    digit < base :=
  Nat.digits_lt_base hbase (List.mem_reverse.mp h)

theorem length_expand_le (hbase : 1 < base) {n k : ℕ} (h : n < base ^ k) :
    (expand base n).length ≤ k := by
  rw [expand, List.length_reverse]
  exact (Nat.digits_length_le_iff hbase n).mpr h

end Value

/-! ### Leading zeros -/

section Zeros

variable {base : ℕ}

theorem head?_expand_ne_zero (base n : ℕ) : (expand base n).head? ≠ some 0 := by
  rw [expand, List.head?_reverse]
  intro h
  have hne : Nat.digits base n ≠ [] := by
    intro hnil
    simp [hnil] at h
  rw [List.getLast?_eq_some_getLast hne, Option.some.injEq] at h
  exact Nat.getLast_digit_ne_zero base (Nat.digits_ne_nil_iff_ne_zero.mp hne) h

theorem leadingZeros_eq_zero {digits : List ℕ} (h : digits.head? ≠ some 0) :
    leadingZeros digits = 0 := by
  cases digits with
  | nil => rfl
  | cons digit rest =>
    rw [leadingZeros, List.takeWhile_cons_of_neg (by simpa using h), List.length_nil]

@[simp] theorem leadingZeros_replicate_append (n : ℕ) (digits : List ℕ) :
    leadingZeros (List.replicate n 0 ++ digits) = n + leadingZeros digits := by
  rw [leadingZeros, List.takeWhile_append_of_pos fun d hd ↦ by simp [List.eq_of_mem_replicate hd],
    List.length_append, List.length_replicate, leadingZeros]

/-- The digits after the leading zeros. -/
theorem exists_eq_replicate_append (digits : List ℕ) :
    ∃ rest, digits = List.replicate (leadingZeros digits) 0 ++ rest ∧ rest.head? ≠ some 0 := by
  refine ⟨digits.dropWhile (· == 0), ?_, ?_⟩
  · have hzeros : digits.takeWhile (· == 0) = List.replicate (leadingZeros digits) 0 :=
      List.eq_replicate_of_mem fun d hd ↦ by simpa using List.mem_takeWhile_imp hd
    rw [← hzeros, List.takeWhile_append_dropWhile]
  · intro h
    have hhead := List.head?_dropWhile_not (· == 0) digits
    rw [h] at hhead
    simp at hhead

/-- A list of digits is its number and its leading zeros. -/
theorem replicate_append_expand_value (hbase : 1 < base) {digits : List ℕ}
    (hdigits : ∀ d ∈ digits, d < base) :
    List.replicate (leadingZeros digits) 0 ++ expand base (value base digits) = digits := by
  obtain ⟨rest, hrest, hhead⟩ := exists_eq_replicate_append digits
  have hexpand : expand base (value base rest) = rest := by
    rw [expand, value_eq_ofDigits, Nat.digits_ofDigits base hbase, List.reverse_reverse]
    · intro d hd
      refine hdigits d ?_
      rw [hrest]
      exact List.mem_append_right _ (List.mem_reverse.mp hd)
    · intro hne hlast
      refine hhead ?_
      rw [← List.getLast?_reverse, List.getLast?_eq_some_getLast hne, hlast]
  nth_rewrite 2 [hrest]
  rw [value_replicate_append, hexpand, ← hrest]

end Zeros

/-! ### Another base -/

section Rebase

variable {base base' : ℕ}

@[simp] theorem leadingZeros_rebase (base base' : ℕ) (digits : List ℕ) :
    leadingZeros (rebase base base' digits) = leadingZeros digits := by
  rw [rebase, leadingZeros_replicate_append,
    leadingZeros_eq_zero (head?_expand_ne_zero base' _), Nat.add_zero]

@[simp] theorem value_rebase (base base' : ℕ) (digits : List ℕ) :
    value base' (rebase base base' digits) = value base digits := by
  rw [rebase, value_replicate_append, value_expand]

theorem lt_of_mem_rebase (hbase' : 1 < base') {digits : List ℕ} {digit : ℕ}
    (h : digit ∈ rebase base base' digits) : digit < base' := by
  rcases List.mem_append.mp h with h | h
  · rw [List.eq_of_mem_replicate h]
    exact Nat.zero_lt_of_lt hbase'
  · exact lt_of_mem_expand hbase' h

theorem rebase_rebase (hbase : 1 < base) {digits : List ℕ} (hdigits : ∀ d ∈ digits, d < base) :
    rebase base' base (rebase base base' digits) = digits := by
  rw [rebase, leadingZeros_rebase, value_rebase]
  exact replicate_append_expand_value hbase hdigits

theorem rebase_ne_nil {digits : List ℕ} (hbase : 1 < base) (hdigits : ∀ d ∈ digits, d < base)
    (hne : digits ≠ []) : rebase base base' digits ≠ [] := by
  intro hnil
  have hback : rebase base' base (rebase base base' digits) = digits :=
    rebase_rebase hbase hdigits
  rw [hnil] at hback
  exact hne (by simpa [rebase, expand, value, leadingZeros] using hback.symm)

/-- Assumes: two digits of one base are worth at most three of the other. Three digits of the other
replace two. -/
theorem length_rebase_le (hbase : 1 < base) (hbase' : 1 < base')
    (hpow : base ^ 2 ≤ base' ^ 3) {digits : List ℕ} (hdigits : ∀ d ∈ digits, d < base) :
    2 * (rebase base base' digits).length ≤ 3 * digits.length + 1 := by
  obtain ⟨rest, hrest, -⟩ := exists_eq_replicate_append digits
  have hlength : digits.length = leadingZeros digits + rest.length := by
    conv_lhs => rw [hrest]
    rw [List.length_append, List.length_replicate]
  have hvalue : value base digits = value base rest := by
    conv_lhs => rw [hrest]
    exact value_replicate_append base _ rest
  have hlt : value base rest < base' ^ ((3 * rest.length + 1) / 2) := by
    have hrestlt : value base rest < base ^ rest.length :=
      value_lt_pow hbase fun d hd ↦ hdigits d (by rw [hrest]; exact List.mem_append_right _ hd)
    refine lt_of_lt_of_le hrestlt ?_
    rw [← Nat.pow_le_pow_iff_left (n := 2) two_ne_zero]
    calc (base ^ rest.length) ^ 2 = (base ^ 2) ^ rest.length := by
          rw [← pow_mul, ← pow_mul, Nat.mul_comm]
      _ ≤ (base' ^ 3) ^ rest.length := Nat.pow_le_pow_left hpow _
      _ = base' ^ (3 * rest.length) := (pow_mul _ _ _).symm
      _ ≤ base' ^ (((3 * rest.length + 1) / 2) * 2) :=
          Nat.pow_le_pow_right (Nat.zero_lt_of_lt hbase') (by omega)
      _ = (base' ^ ((3 * rest.length + 1) / 2)) ^ 2 := pow_mul _ _ _
  have hexpand := length_expand_le hbase' hlt
  rw [rebase, List.length_append, List.length_replicate, hvalue]
  omega

end Rebase

end QortalRelay.Foundation.Positional
