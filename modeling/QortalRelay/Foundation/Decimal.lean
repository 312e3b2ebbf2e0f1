import Mathlib.Data.List.Lex
import Mathlib.Data.Char
import Mathlib.Data.Nat.Digits.Lemmas

/-!
# Decimal text

Signed integers as decimal text, in the conventions of a standard formatting library: `formatInt`
writes the shortest form, `formatPadded` fills with zeros up to a width, and `parseInt` reads a
64-bit integer back, telling malformed text from a value out of range. Both writers are read back
exactly. Padded texts of one width are ordered like the numbers they denote
(`formatPadded_lt`), which is what makes a padded number usable as the leading part of a sorted
key.
-/

set_option autoImplicit false
set_option relaxedAutoImplicit false

namespace QortalRelay.Foundation.Decimal

/-! ### Writing -/

/-- The shortest decimal form, with a sign only when negative. -/
def formatInt (n : ℤ) : List Char :=
  if n < 0 then '-' :: Nat.toDigits 10 n.natAbs else Nat.toDigits 10 n.natAbs

/-- The decimal form filled with zeros up to `width` characters, the sign counted. -/
def formatPadded (width : ℕ) (n : ℤ) : List Char :=
  let digits := Nat.toDigits 10 n.natAbs
  if n < 0 then '-' :: (List.replicate (width - 1 - digits.length) '0' ++ digits)
  else List.replicate (width - digits.length) '0' ++ digits

/-! ### Reading -/

/-- Why a text is not a 64-bit integer. -/
inductive NumError
  | malformed
  /-- The value lies beyond the end of the range that is given. -/
  | range (clamped : ℤ)
deriving DecidableEq, Repr

/-- The digit loop. The overflow test stops it before the rest of the text is looked at. -/
def parseDigits : List Char → ℕ → Except NumError ℕ
  | [], value => .ok value
  | char :: rest, value =>
    if char.isDigit then
      let next := 10 * value + (char.toNat - '0'.toNat)
      if 2 ^ 64 ≤ next then .error (.range (2 ^ 64 - 1)) else parseDigits rest next
    else .error .malformed

/-- An unsigned magnitude: at least one digit. -/
def parseMagnitude (text : List Char) : Except NumError ℕ :=
  if text = [] then .error .malformed else parseDigits text 0

/-- The magnitude with its sign, held to the 64-bit range. -/
def signed (negative : Bool) : Except NumError ℕ → Except NumError ℤ
  | .error .malformed => .error .malformed
  | .error (.range _) => .error (.range (if negative then -2 ^ 63 else 2 ^ 63 - 1))
  | .ok magnitude =>
    if negative then
      if 2 ^ 63 < magnitude then .error (.range (-2 ^ 63)) else .ok (-magnitude)
    else if 2 ^ 63 ≤ magnitude then .error (.range (2 ^ 63 - 1)) else .ok magnitude

/-- A 64-bit integer in base ten, with an optional sign. -/
def parseInt : List Char → Except NumError ℤ
  | '-' :: rest => signed true (parseMagnitude rest)
  | '+' :: rest => signed false (parseMagnitude rest)
  | text => signed false (parseMagnitude text)

/-- The value that comes with the verdict: zero for malformed text, the end of the range beyond
it. -/
def parseIntValue (text : List Char) : ℤ :=
  match parseInt text with
  | .ok value => value
  | .error .malformed => 0
  | .error (.range clamped) => clamped

/-! ### Reading back what was written -/

theorem parseDigits_of_lt {text : List Char} (hdigits : ∀ c ∈ text, c.isDigit) :
    ∀ {value : ℕ}, Nat.ofDigitChars 10 text value < 2 ^ 64 →
      parseDigits text value = .ok (Nat.ofDigitChars 10 text value) := by
  induction text with
  | nil => intro value _; rfl
  | cons c rest ih =>
    intro value hlt
    have hc : c.isDigit = true := hdigits c List.mem_cons_self
    have hrest : ∀ d ∈ rest, d.isDigit := fun d hd ↦ hdigits d (List.mem_cons_of_mem _ hd)
    rw [Nat.ofDigitChars_cons] at hlt ⊢
    -- The accumulator only grows, so an in-range result never meets the overflow test.
    have hnext : 10 * value + (c.toNat - '0'.toNat) < 2 ^ 64 := by
      rw [Nat.ofDigitChars_eq_ofDigitChars_zero] at hlt
      have hpow : 1 ≤ 10 ^ rest.length := Nat.one_le_pow _ _ (by norm_num)
      nlinarith
    simp only [parseDigits, hc, if_true, Nat.not_le.mpr hnext, if_false]
    exact ih hrest hlt

theorem parseInt_of_isDigit {text : List Char} (hne : text ≠ [])
    (hdigits : ∀ c ∈ text, c.isDigit) (hlt : Nat.ofDigitChars 10 text 0 < 2 ^ 63) :
    parseInt text = .ok (Nat.ofDigitChars 10 text 0 : ℤ) := by
  have hread : parseMagnitude text = .ok (Nat.ofDigitChars 10 text 0) := by
    rw [parseMagnitude, if_neg hne]
    exact parseDigits_of_lt hdigits (by omega)
  have hsigned : signed false (parseMagnitude text) = .ok (Nat.ofDigitChars 10 text 0 : ℤ) := by
    rw [hread]
    simp only [signed, Bool.false_eq_true, if_false, Nat.not_le.mpr hlt]
  cases text with
  | nil => exact absurd rfl hne
  | cons c rest =>
    have hc : c.isDigit = true := hdigits c List.mem_cons_self
    unfold parseInt
    split
    · rename_i heq; simp only [List.cons.injEq] at heq; simp [heq.1] at hc
    · rename_i heq; simp only [List.cons.injEq] at heq; simp [heq.1] at hc
    · exact hsigned

theorem isDigit_of_mem_toDigits_ten {n : ℕ} {c : Char} (hc : c ∈ Nat.toDigits 10 n) :
    c.isDigit = true :=
  Nat.isDigit_of_mem_toDigits (by norm_num) le_rfl hc

theorem isDigit_of_mem_formatPadded {width : ℕ} {n : ℤ} (hn : 0 ≤ n) {c : Char}
    (hc : c ∈ formatPadded width n) : c.isDigit = true := by
  simp only [formatPadded, Int.not_lt.mpr hn, if_false, List.mem_append] at hc
  rcases hc with hc | hc
  · rw [List.eq_of_mem_replicate hc]; decide
  · exact isDigit_of_mem_toDigits_ten hc

theorem ofDigitChars_formatPadded (width : ℕ) {n : ℤ} (hn : 0 ≤ n) :
    (Nat.ofDigitChars 10 (formatPadded width n) 0 : ℤ) = n := by
  simp only [formatPadded, Int.not_lt.mpr hn, if_false, Nat.ofDigitChars_append,
    Nat.ofDigitChars_replicate_zero, Nat.mul_zero, Nat.ofDigitChars_ten_toDigits]
  omega

theorem formatPadded_ne_nil (width : ℕ) (n : ℤ) : formatPadded width n ≠ [] := by
  unfold formatPadded
  split
  · exact List.cons_ne_nil _ _
  · intro h
    exact Nat.toDigits_ne_nil (List.append_eq_nil_iff.mp h).2

theorem parseInt_formatPadded (width : ℕ) {n : ℤ} (hn : 0 ≤ n) (hlt : n < 2 ^ 63) :
    parseInt (formatPadded width n) = .ok n := by
  have hvalue := ofDigitChars_formatPadded width hn
  rw [parseInt_of_isDigit (formatPadded_ne_nil width n) (fun c ↦ isDigit_of_mem_formatPadded hn)
    (by omega), hvalue]

/-- A non-negative number has the shortest form as the form padded to no width at all. -/
theorem formatInt_eq_formatPadded_zero {n : ℤ} (hn : 0 ≤ n) : formatInt n = formatPadded 0 n := by
  simp [formatInt, formatPadded, Int.not_lt.mpr hn]

theorem formatInt_of_neg {n : ℤ} (hn : n < 0) : formatInt n = '-' :: formatInt (-n) := by
  rw [formatInt, if_pos hn, formatInt, if_neg (by omega), Int.natAbs_neg]

/-- The characters of a number: its digits, after a sign. -/
theorem isDigit_of_mem_formatInt {n : ℤ} {c : Char} (hc : c ∈ formatInt n) :
    c.isDigit = true ∨ c = '-' := by
  by_cases hn : n < 0
  · rw [formatInt_of_neg hn, List.mem_cons, formatInt_eq_formatPadded_zero (by omega)] at hc
    exact hc.symm.imp_left (isDigit_of_mem_formatPadded (by omega))
  · rw [formatInt_eq_formatPadded_zero (by omega)] at hc
    exact Or.inl (isDigit_of_mem_formatPadded (by omega) hc)

theorem formatInt_injective : Function.Injective formatInt := by
  have hnonneg {m n : ℤ} (hm : 0 ≤ m) (hn : 0 ≤ n) (h : formatInt m = formatInt n) : m = n := by
    rw [formatInt_eq_formatPadded_zero hm, formatInt_eq_formatPadded_zero hn] at h
    rw [← ofDigitChars_formatPadded 0 hm, ← ofDigitChars_formatPadded 0 hn, h]
  have hsign {m n : ℤ} (hm : m < 0) (hn : 0 ≤ n) (h : formatInt m = formatInt n) : False := by
    rw [formatInt_of_neg hm, formatInt_eq_formatPadded_zero hn] at h
    have hdigit := isDigit_of_mem_formatPadded hn (h ▸ List.mem_cons_self)
    exact absurd hdigit (by decide)
  intro m n h
  by_cases hm : m < 0
  · by_cases hn : n < 0
    · rw [formatInt_of_neg hm, formatInt_of_neg hn, List.cons.injEq] at h
      have := hnonneg (by omega) (by omega) h.2
      omega
    · exact (hsign hm (by omega) h).elim
  · by_cases hn : n < 0
    · exact (hsign hn (by omega) h.symm).elim
    · exact hnonneg (by omega) (by omega) h

theorem parseInt_formatInt {n : ℤ} (hn : 0 ≤ n) (hlt : n < 2 ^ 63) :
    parseInt (formatInt n) = .ok n := by
  rw [formatInt_eq_formatPadded_zero hn, parseInt_formatPadded 0 hn hlt]

theorem parseIntValue_formatInt {n : ℤ} (hn : 0 ≤ n) (hlt : n < 2 ^ 63) :
    parseIntValue (formatInt n) = n := by
  rw [parseIntValue, parseInt_formatInt hn hlt]

/-! ### Padded numbers as sorted keys -/

theorem length_formatPadded {width : ℕ} {n : ℤ} (hwidth : 0 < width) (hn : 0 ≤ n)
    (hlt : n < 10 ^ width) : (formatPadded width n).length = width := by
  have hfit : (Nat.toDigits 10 n.natAbs).length ≤ width := by
    rw [Nat.length_toDigits_le_iff (by norm_num) hwidth]
    zify
    rwa [abs_of_nonneg hn]
  simp only [formatPadded, Int.not_lt.mpr hn, if_false, List.length_append, List.length_replicate]
  omega

theorem digit_toNat {c : Char} (hc : c.isDigit) : 48 ≤ c.toNat ∧ c.toNat ≤ 57 := by
  simp only [Char.isDigit, Bool.and_eq_true, decide_eq_true_eq, ge_iff_le,
    UInt32.le_iff_toNat_le] at hc
  exact hc

theorem ofDigitChars_lt_pow {text : List Char} (hdigits : ∀ c ∈ text, c.isDigit) :
    Nat.ofDigitChars 10 text 0 < 10 ^ text.length := by
  induction text with
  | nil => simp
  | cons c rest ih =>
    have hrest := ih fun d hd ↦ hdigits d (List.mem_cons_of_mem _ hd)
    have hc := digit_toNat (hdigits c List.mem_cons_self)
    rw [Nat.ofDigitChars_cons, Nat.ofDigitChars_eq_ofDigitChars_zero, List.length_cons, pow_succ]
    have hdigit : 10 * 0 + (c.toNat - '0'.toNat) ≤ 9 := by
      simp only [show '0'.toNat = 48 from rfl]
      omega
    nlinarith

/-- Digit strings of one length are ordered like their values. -/
theorem lt_of_ofDigitChars_lt {first second : List Char} (hlength : first.length = second.length)
    (hfirst : ∀ c ∈ first, c.isDigit) (hsecond : ∀ c ∈ second, c.isDigit)
    (hlt : Nat.ofDigitChars 10 first 0 < Nat.ofDigitChars 10 second 0) : first < second := by
  induction first generalizing second with
  | nil =>
    rw [List.length_eq_zero_iff.mp hlength.symm] at hlt
    exact absurd hlt (lt_irrefl _)
  | cons c first ih =>
    cases second with
    | nil => simp at hlength
    | cons d second =>
      have hlength' : first.length = second.length := by simpa using hlength
      have hc := digit_toNat (hfirst c List.mem_cons_self)
      have hd := digit_toNat (hsecond d List.mem_cons_self)
      have hfirst' : ∀ x ∈ first, x.isDigit := fun x hx ↦ hfirst x (List.mem_cons_of_mem _ hx)
      have hsecond' : ∀ x ∈ second, x.isDigit := fun x hx ↦ hsecond x (List.mem_cons_of_mem _ hx)
      have hbound := ofDigitChars_lt_pow hsecond'
      rw [Nat.ofDigitChars_cons, Nat.ofDigitChars_cons,
        Nat.ofDigitChars_eq_ofDigitChars_zero (l := first),
        Nat.ofDigitChars_eq_ofDigitChars_zero (l := second), hlength'] at hlt
      simp only [show '0'.toNat = 48 from rfl, Nat.mul_zero, Nat.zero_add] at hlt
      rw [List.cons_lt_cons_iff, Char.lt_def, UInt32.lt_iff_toNat_lt]
      change c.toNat < d.toNat ∨ c = d ∧ first < second
      -- The leading digit decides, unless it is the same one.
      rcases Nat.lt_trichotomy c.toNat d.toNat with h | h | h
      · exact Or.inl h
      · refine Or.inr ⟨Char.toNat_inj.mp h, ih hlength' hfirst' hsecond' ?_⟩
        rw [h] at hlt
        omega
      · have hgap : d.toNat - 48 + 1 ≤ c.toNat - 48 := by omega
        have := Nat.mul_le_mul_left (10 ^ second.length) hgap
        rw [Nat.mul_add, Nat.mul_one] at this
        omega

theorem formatPadded_lt {width : ℕ} {m n : ℤ} (hwidth : 0 < width) (hm : 0 ≤ m) (hmn : m < n)
    (hn : n < 10 ^ width) : formatPadded width m < formatPadded width n := by
  have hn0 : 0 ≤ n := hm.trans hmn.le
  have hlength : (formatPadded width m).length = (formatPadded width n).length := by
    rw [length_formatPadded hwidth hm (hmn.trans hn), length_formatPadded hwidth hn0 hn]
  refine lt_of_ofDigitChars_lt hlength (fun c ↦ isDigit_of_mem_formatPadded hm)
    (fun c ↦ isDigit_of_mem_formatPadded hn0) ?_
  zify
  rwa [ofDigitChars_formatPadded width hm, ofDigitChars_formatPadded width hn0]

/-- What follows two texts of one length does not change their strict order. -/
theorem append_lt_append_of_lt {first second : List Char} (hlength : first.length = second.length)
    (hlt : first < second) (x y : List Char) : first ++ x < second ++ y := by
  induction first generalizing second with
  | nil =>
    rw [List.length_eq_zero_iff.mp hlength.symm] at hlt
    exact absurd hlt (lt_irrefl _)
  | cons c first ih =>
    cases second with
    | nil => simp at hlength
    | cons d second =>
      rw [List.cons_append, List.cons_append, List.cons_lt_cons_iff]
      rw [List.cons_lt_cons_iff] at hlt
      exact hlt.imp_right fun h ↦ ⟨h.1, ih (by simpa using hlength) h.2⟩

/-- Sorted keys that begin with a padded number come in the order of their numbers. -/
theorem le_of_formatPadded_append_lt {width : ℕ} {m n : ℤ} (hwidth : 0 < width) (hm : 0 ≤ m)
    (hn : 0 ≤ n) (hmw : m < 10 ^ width) (hnw : n < 10 ^ width) {x y : List Char}
    (hlt : formatPadded width m ++ x < formatPadded width n ++ y) : m ≤ n := by
  by_contra hcon
  have hnm : n < m := by omega
  have hlength : (formatPadded width n).length = (formatPadded width m).length := by
    rw [length_formatPadded hwidth hm hmw, length_formatPadded hwidth hn hnw]
  exact lt_asymm hlt
    (append_lt_append_of_lt hlength (formatPadded_lt hwidth hn hnm hmw) y x)

end QortalRelay.Foundation.Decimal
