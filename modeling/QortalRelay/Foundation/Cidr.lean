import QortalRelay.Foundation.Encoding
import Mathlib.Data.Nat.Bitwise

/-!
# Blocks of addresses

A block is the set of byte strings of one length that agree with a base on its first bits, as in
`10.0.0.0/8`. Two blocks either have nothing in common or one lies within the other, and which it is
can be read off their bases: no address is in two blocks that do not meet
(`Block.meets_of_contains`), and a block within another has no address of its own
(`Block.contains_of_within`). So questions about all addresses of some blocks are decided by
comparing the blocks.
-/

set_option autoImplicit false
set_option relaxedAutoImplicit false

namespace QortalRelay.Foundation.Cidr

open Encoding

/-! ### Agreement on leading bits -/

/-- The first bits of two byte strings are the same. -/
def agrees : ℕ → Bytes → Bytes → Bool
  | bits, first :: firsts, second :: seconds =>
    first.toNat / 2 ^ (8 - bits) = second.toNat / 2 ^ (8 - bits) && agrees (bits - 8) firsts seconds
  | _, _, _ => true

theorem agrees_cons_iff {bits : ℕ} {first second : UInt8} {firsts seconds : Bytes} :
    agrees bits (first :: firsts) (second :: seconds) = true ↔
      first.toNat / 2 ^ (8 - bits) = second.toNat / 2 ^ (8 - bits) ∧
        agrees (bits - 8) firsts seconds = true := by
  simp [agrees]

theorem agrees_symm {bits : ℕ} {first second : Bytes} (h : agrees bits first second = true) :
    agrees bits second first = true := by
  induction first generalizing bits second with
  | nil => cases second <;> rfl
  | cons byte rest ih =>
    cases second with
    | nil => rfl
    | cons byte' rest' =>
      rw [agrees_cons_iff] at h ⊢
      exact ⟨h.1.symm, ih h.2⟩

/-- Assumes: the middle one is as long as the first. -/
theorem agrees_trans {bits : ℕ} {first second third : Bytes}
    (hlength : second.length = first.length) (h : agrees bits first second = true)
    (h' : agrees bits second third = true) : agrees bits first third = true := by
  induction first generalizing bits second third with
  | nil => cases third <;> rfl
  | cons byte rest ih =>
    cases second with
    | nil => simp at hlength
    | cons byte' rest' =>
      cases third with
      | nil => rfl
      | cons byte'' rest'' =>
        rw [agrees_cons_iff] at h h' ⊢
        exact ⟨h.1.trans h'.1, ih (by simpa using hlength) h.2 h'.2⟩

/-- Agreement on more bits is agreement on fewer. -/
theorem agrees_mono {bits fewer : ℕ} (hfewer : fewer ≤ bits) {first second : Bytes}
    (h : agrees bits first second = true) : agrees fewer first second = true := by
  induction first generalizing bits fewer second with
  | nil => cases second <;> rfl
  | cons byte rest ih =>
    cases second with
    | nil => rfl
    | cons byte' rest' =>
      rw [agrees_cons_iff] at h ⊢
      refine ⟨?_, ih (by omega) h.2⟩
      -- Fewer bits of a byte are the quotient of the more bits.
      have hpow : 2 ^ (8 - fewer) = 2 ^ (8 - bits) * 2 ^ (8 - fewer - (8 - bits)) := by
        rw [← pow_add]
        congr 1
        omega
      rw [hpow, ← Nat.div_div_eq_div_mul, ← Nat.div_div_eq_div_mul, h.1]

theorem agrees_zero (first second : Bytes) : agrees 0 first second = true := by
  induction first generalizing second with
  | nil => cases second <;> rfl
  | cons byte rest ih =>
    cases second with
    | nil => rfl
    | cons byte' rest' =>
      rw [agrees_cons_iff, Nat.div_eq_of_lt byte.toNat_lt, Nat.div_eq_of_lt byte'.toNat_lt]
      exact ⟨rfl, ih rest'⟩

/-- Agreement on whole bytes. -/
theorem agrees_bytes_iff {count : ℕ} {first second : Bytes}
    (hlength : first.length = second.length) :
    agrees (8 * count) first second = true ↔ first.take count = second.take count := by
  induction count generalizing first second with
  | zero => simp [agrees_zero]
  | succ count ih =>
    cases first with
    | nil =>
      obtain rfl : second = [] := List.length_eq_zero_iff.mp hlength.symm
      simp [agrees]
    | cons byte rest =>
      cases second with
      | nil => simp at hlength
      | cons byte' rest' =>
        have hbits : 8 * (count + 1) - 8 = 8 * count := by omega
        have hshift : 8 - 8 * (count + 1) = 0 := by omega
        rw [agrees_cons_iff, hbits, hshift, ih (by simpa using hlength)]
        simp [UInt8.toNat_inj]

/-! ### Blocks -/

/-- The addresses whose first `bits` bits are those of the base. -/
structure Block where
  base : Bytes
  bits : ℕ
deriving DecidableEq, Repr

namespace Block

/-- An address of the length of the base lies in the block. -/
def contains (block : Block) (bytes : Bytes) : Bool :=
  bytes.length = block.base.length && agrees block.bits block.base bytes

/-- One of the two blocks lies within the other. -/
def meets (block other : Block) : Bool :=
  block.base.length = other.base.length && agrees (min block.bits other.bits) block.base other.base

/-- Every address of the first block lies in the other. -/
def within (block other : Block) : Bool :=
  block.base.length = other.base.length && other.bits ≤ block.bits &&
    agrees other.bits other.base block.base

variable {block other : Block} {bytes : Bytes}

theorem contains_iff : block.contains bytes = true ↔
    bytes.length = block.base.length ∧ agrees block.bits block.base bytes = true := by
  simp [contains]

theorem contains_bytes_iff {count : ℕ} (hbits : block.bits = 8 * count) :
    block.contains bytes = true ↔
      bytes.length = block.base.length ∧ block.base.take count = bytes.take count := by
  rw [contains_iff, hbits]
  exact and_congr_right fun hlength ↦ agrees_bytes_iff hlength.symm

theorem meets_of_contains (h : block.contains bytes = true) (h' : other.contains bytes = true) :
    block.meets other = true := by
  rw [contains_iff] at h h'
  have hleft := agrees_mono (min_le_left block.bits other.bits) h.2
  have hright := agrees_symm (agrees_mono (min_le_right block.bits other.bits) h'.2)
  simp only [meets, Bool.and_eq_true, decide_eq_true_eq]
  exact ⟨h.1.symm.trans h'.1, agrees_trans h.1 hleft hright⟩

theorem contains_of_within (hwithin : block.within other = true)
    (h : block.contains bytes = true) : other.contains bytes = true := by
  simp only [within, Bool.and_eq_true, decide_eq_true_eq] at hwithin
  rw [contains_iff] at h ⊢
  refine ⟨h.1.trans hwithin.1.1, ?_⟩
  exact agrees_trans hwithin.1.1 hwithin.2 (agrees_mono hwithin.1.2 h.2)

/-- An address of a block is in none of the blocks that do not meet it. -/
theorem not_contains_of_meets {blocks : List Block}
    (hmeets : blocks.all (fun other ↦ !block.meets other) = true)
    (h : block.contains bytes = true) : ∀ other ∈ blocks, other.contains bytes = false := by
  intro other hother
  rw [List.all_eq_true] at hmeets
  have hnot : block.meets other = false := by simpa using hmeets other hother
  rw [Bool.eq_false_iff]
  intro h'
  rw [meets_of_contains h h'] at hnot
  cases hnot

end Block

/-! ### Masks -/

/-- A mask of high bits. -/
theorem and_highMask {n : ℕ} (width low : ℕ) (hn : n < 2 ^ width) (hlow : low ≤ width) :
    n &&& (2 ^ width - 2 ^ low) = 2 ^ low * (n / 2 ^ low) := by
  have hmask : 2 ^ width - 2 ^ low = 2 ^ low * (2 ^ (width - low) - 1) := by
    rw [Nat.mul_sub, ← pow_add, Nat.mul_one]
    congr 2
    omega
  refine Nat.eq_of_testBit_eq fun i ↦ ?_
  rw [hmask, Nat.testBit_and, Nat.testBit_two_pow_mul, Nat.testBit_two_pow_mul,
    Nat.testBit_two_pow_sub_one, Nat.testBit_div_two_pow]
  by_cases hi : low ≤ i
  · by_cases hwidth : i < width
    · have hlt : i - low < width - low := by omega
      simp [hi, hlt, Nat.sub_add_cancel hi]
    · have hzero : n.testBit i = false :=
        Nat.testBit_lt_two_pow (hn.trans_le (Nat.pow_le_pow_right (by norm_num) (by omega)))
      simp [hi, hzero, Nat.sub_add_cancel hi]
  · simp [hi]

end QortalRelay.Foundation.Cidr
