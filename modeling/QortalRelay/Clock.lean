import Mathlib.Tactic

/-!
# Clock readings

A reading of the clock carries a wall time and a monotonic time, both in nanoseconds. Seconds,
milliseconds and the hour number are taken from the wall time; two readings are compared by their
monotonic times. The wall clock may be set by the operator, so a run may move it anywhere inside
the range that fits the 64-bit nanosecond count, while the monotonic clock only advances.
-/

set_option autoImplicit false
set_option relaxedAutoImplicit false

namespace QortalRelay

/-- A clock reading, in nanoseconds: since 1970 on the wall clock, and on the monotonic clock. -/
structure Time where
  wall : ℤ
  mono : ℤ
deriving DecidableEq, Repr

namespace Time

def millisecond : ℤ := 10 ^ 6

def second : ℤ := 10 ^ 9

def minute : ℤ := 60 * second

/-- Whole seconds of the wall time, rounded down. -/
def unix (t : Time) : ℤ := t.wall / second

/-- Whole milliseconds of the wall time, rounded down. -/
def unixMilli (t : Time) : ℤ := t.wall / millisecond

/-- The hour number `t.Unix()/3600`; the division of the seconds truncates towards zero. -/
def hour (t : Time) : ℤ := t.unix.tdiv 3600

/-- The reading moved by a duration. -/
def add (t : Time) (duration : ℤ) : Time := ⟨t.wall + duration, t.mono + duration⟩

/-- The elapsed time between two readings. -/
def sub (t u : Time) : ℤ := t.mono - u.mono

def after (t u : Time) : Bool := decide (u.mono < t.mono)

def before (t u : Time) : Bool := decide (t.mono < u.mono)

/-- Not later on either clock. -/
def NotAfter (t u : Time) : Prop := t.wall ≤ u.wall ∧ t.mono ≤ u.mono

/-- A wall time whose nanosecond count fits 64 bits. -/
def Plausible (t : Time) : Prop := -2 ^ 63 ≤ t.wall ∧ t.wall < 2 ^ 63

instance (t : Time) : Decidable t.Plausible :=
  inferInstanceAs (Decidable (_ ∧ _))

/-- The first nanosecond of an hour. -/
def hourStart (hour : ℤ) : ℤ := hour * 3600 * second

theorem NotAfter.refl (t : Time) : t.NotAfter t := ⟨le_rfl, le_rfl⟩

theorem NotAfter.trans {t u v : Time} (h1 : t.NotAfter u) (h2 : u.NotAfter v) : t.NotAfter v :=
  ⟨h1.1.trans h2.1, h1.2.trans h2.2⟩

/-- The truncated quotient, cleared of its sign convention. -/
theorem hour_eq (t : Time) :
    t.hour = t.unix / 3600 + if 0 ≤ t.unix ∨ (3600 : ℤ) ∣ t.unix then 0 else 1 :=
  Int.tdiv_eq_ediv

theorem hour_mono {t u : Time} (h : t.wall ≤ u.wall) : t.hour ≤ u.hour := by
  have hunix : t.unix ≤ u.unix := Int.ediv_le_ediv (by norm_num [second]) h
  rw [hour_eq, hour_eq]
  split_ifs <;> omega

theorem NotAfter.hour_le {t u : Time} (h : t.NotAfter u) : t.hour ≤ u.hour := hour_mono h.1

/-- A positive hour has come exactly when its first nanosecond has. -/
theorem le_hour_iff {n : ℤ} (hn : 0 < n) (t : Time) : n ≤ t.hour ↔ hourStart n ≤ t.wall := by
  have hunix : t.unix = t.wall / 10 ^ 9 := rfl
  rw [hour_eq, hourStart, show second = 10 ^ 9 from rfl]
  split_ifs <;> omega

theorem Plausible.hour_lt {t : Time} (h : t.Plausible) : t.hour < 10 ^ 12 := by
  have hunix : t.unix = t.wall / 10 ^ 9 := rfl
  have hwall := h.2
  rw [hour_eq]
  split_ifs <;> omega

end Time

/-- A 64-bit signed integer: the value that remains when the exact one does not fit. -/
def wrap64 (n : ℤ) : ℤ := (n + 2 ^ 63) % 2 ^ 64 - 2 ^ 63

theorem wrap64_eq_self {n : ℤ} (hlow : -2 ^ 63 ≤ n) (hhigh : n < 2 ^ 63) : wrap64 n = n := by
  unfold wrap64
  rw [Int.emod_eq_of_lt (by omega) (by omega)]
  omega

end QortalRelay
