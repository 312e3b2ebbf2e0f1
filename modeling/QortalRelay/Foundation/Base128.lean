import QortalRelay.Foundation.Binary

/-!
# Numbers in base 128

A number is written as bytes of seven bits, lowest first, every byte but the last with its high bit
set. The reader takes its bytes one after the other from a source that is asked by position, with a
bound on their number, and refuses a number that ends in a needless zero byte. It accepts exactly
what the writer writes (`read_eq_ok_iff`).
-/

set_option autoImplicit false
set_option relaxedAutoImplicit false

namespace QortalRelay.Foundation.Base128

open Binary

/-! ### Writing -/

/-- The loop of the writer; a number takes fewer rounds than its value. -/
def packFrom : ℕ → ℕ → List UInt8
  | 0, n => [UInt8.ofNat n]
  | fuel + 1, n =>
    if 128 ≤ n then UInt8.ofNat ((n &&& 127) ||| 128) :: packFrom fuel (n >>> 7)
    else [UInt8.ofNat n]

def pack (n : ℕ) : List UInt8 := packFrom n n

theorem low_bits (n : ℕ) : n &&& 127 = n % 128 := Nat.and_two_pow_sub_one_eq_mod n 7

theorem high_bits (n : ℕ) : n >>> 7 = n / 128 := Nat.shiftRight_eq_div_pow n 7

theorem or_high_bit {n : ℕ} (hn : n < 128) : n ||| 128 = n + 128 := by
  have h := Nat.two_pow_add_eq_or_of_lt (i := 7) hn 1
  rw [Nat.or_comm, Nat.add_comm]
  exact h.symm

theorem packFrom_of_lt (fuel : ℕ) {n : ℕ} (hn : n < 128) : packFrom fuel n = [UInt8.ofNat n] := by
  cases fuel with
  | zero => rfl
  | succ fuel => rw [packFrom, if_neg (by omega)]

/-- More rounds than the number asks for change nothing. -/
theorem packFrom_eq_pack (fuel n : ℕ) (hfuel : n ≤ fuel) : packFrom fuel n = pack n := by
  induction n using Nat.strong_induction_on generalizing fuel with
  | h n ih =>
    by_cases hn : n < 128
    · rw [pack, packFrom_of_lt fuel hn, packFrom_of_lt n hn]
    · obtain ⟨fuel, rfl⟩ : ∃ k, fuel = k + 1 := ⟨fuel - 1, by omega⟩
      obtain ⟨k, rfl⟩ : ∃ k, n = k + 1 := ⟨n - 1, by omega⟩
      have hsmaller : (k + 1) >>> 7 < k + 1 := by rw [high_bits]; omega
      have hbig : 128 ≤ k + 1 := not_lt.mp hn
      rw [pack, packFrom, packFrom, if_pos hbig, if_pos hbig, ih _ hsmaller fuel (by omega),
        ih _ hsmaller k (by omega)]

theorem pack_of_lt {n : ℕ} (hn : n < 128) : pack n = [UInt8.ofNat n] := packFrom_of_lt n hn

theorem pack_of_le {n : ℕ} (hn : 128 ≤ n) :
    pack n = UInt8.ofNat (n % 128 + 128) :: pack (n / 128) := by
  obtain ⟨k, rfl⟩ : ∃ k, n = k + 1 := ⟨n - 1, by omega⟩
  rw [pack, packFrom, if_pos hn, low_bits, or_high_bit (by omega), high_bits,
    packFrom_eq_pack k _ (by omega)]

theorem one_le_length_pack (n : ℕ) : 1 ≤ (pack n).length := by
  by_cases hn : n < 128
  · simp [pack_of_lt hn]
  · simp [pack_of_le (not_lt.mp hn)]

/-- Every byte holds seven bits. -/
theorem length_pack_le_iff {k n : ℕ} : (pack n).length ≤ k + 1 ↔ n < 128 ^ (k + 1) := by
  induction k generalizing n with
  | zero =>
    by_cases hn : n < 128
    · simp [pack_of_lt hn, hn]
    · have := one_le_length_pack (n / 128)
      simp only [pack_of_le (not_lt.mp hn), List.length_cons]
      omega
  | succ k ih =>
    by_cases hn : n < 128
    · have hpow : 128 ≤ 128 ^ (k + 1 + 1) := Nat.le_self_pow (by omega) 128
      simp only [pack_of_lt hn, List.length_singleton]
      omega
    · rw [pack_of_le (not_lt.mp hn), List.length_cons, Nat.add_le_add_iff_right, ih,
        pow_succ 128 (k + 1), Nat.div_lt_iff_lt_mul (by norm_num)]

/-! ### Reading -/

inductive ReadError
  | truncated
  | nonCanonical
  | tooLong
deriving DecidableEq, Repr

/-- The rounds of the reader that are left, at a shift and with the value so far. -/
def readFrom (next : ℕ → Option UInt8) : ℕ → ℕ → ℕ → ℕ → Except ReadError (ℕ × ℕ)
  | 0, _, _, _ => .error .tooLong
  | fuel + 1, shift, value, offset =>
    match next offset with
    | none => .error .truncated
    | some byte =>
      let value := value ||| (byte.toNat &&& 127) <<< shift
      if byte.toNat < 128 then
        if shift ≠ 0 ∧ byte.toNat = 0 then .error .nonCanonical else .ok (value, offset + 1)
      else readFrom next fuel (shift + 7) value (offset + 1)

/-- The number at a position, of at most that many bytes, and the position after it. -/
def read (next : ℕ → Option UInt8) (bytes offset : ℕ) : Except ReadError (ℕ × ℕ) :=
  readFrom next bytes 0 0 offset

section Reader

variable {next : ℕ → Option UInt8} {offset : ℕ}

/-- The bits of a byte above those read so far. -/
theorem or_shifted {value shift : ℕ} (hvalue : value < 2 ^ shift) (n : ℕ) :
    value ||| (n &&& 127) <<< shift = value + n % 128 * 2 ^ shift := by
  rw [low_bits, Nat.or_comm, ← Nat.shiftLeft_add_eq_or_of_lt hvalue, Nat.shiftLeft_eq, Nat.add_comm]

theorem toNat_ofNat_low {n : ℕ} (hn : n < 128) : (UInt8.ofNat n).toNat = n := by
  rw [UInt8.toNat_ofNat']
  omega

theorem toNat_ofNat_high (n : ℕ) : (UInt8.ofNat (n % 128 + 128)).toNat = n % 128 + 128 := by
  rw [UInt8.toNat_ofNat']
  omega

/-- A number of one byte is the byte. -/
theorem spells_pack_low {m : ℕ} {byte : UInt8} (hbyte : next offset = some byte)
    (hlow : byte.toNat < 128) : Spells next offset (pack m) ↔ m = byte.toNat := by
  by_cases hm : m < 128
  · rw [pack_of_lt hm]
    simp only [Spells, hbyte, Option.some.injEq, and_true, ← UInt8.toNat_inj, toNat_ofNat_low hm]
    exact eq_comm
  · rw [pack_of_le (not_lt.mp hm)]
    simp only [Spells, hbyte, Option.some.injEq, ← UInt8.toNat_inj, toNat_ofNat_high]
    omega

/-- A byte with its high bit set is the first of a longer number. -/
theorem spells_pack_high {m : ℕ} {byte : UInt8} (hbyte : next offset = some byte)
    (hhigh : 128 ≤ byte.toNat) : Spells next offset (pack m) ↔
      m % 128 = byte.toNat % 128 ∧ m / 128 ≠ 0 ∧ Spells next (offset + 1) (pack (m / 128)) := by
  have hlt := byte.toNat_lt
  by_cases hm : m < 128
  · rw [pack_of_lt hm]
    simp only [Spells, hbyte, Option.some.injEq, and_true, ← UInt8.toNat_inj, toNat_ofNat_low hm,
      Nat.div_eq_of_lt hm]
    omega
  · rw [pack_of_le (not_lt.mp hm)]
    simp only [Spells, hbyte, Option.some.injEq, ← UInt8.toNat_inj, toNat_ofNat_high, ← and_assoc]
    refine and_congr_left fun _ ↦ ?_
    omega

/-- What the rest of the rounds add to the value. -/
theorem readFrom_eq_ok_iff {fuel shift value n after : ℕ} (hvalue : value < 2 ^ shift) :
    readFrom next fuel shift value offset = .ok (n, after) ↔
      ∃ m, (pack m).length ≤ fuel ∧ (shift ≠ 0 → m ≠ 0) ∧ Spells next offset (pack m) ∧
        n = value + m * 2 ^ shift ∧ after = offset + (pack m).length := by
  induction fuel generalizing shift value offset with
  | zero =>
    simp only [readFrom, reduceCtorEq, false_iff, not_exists, not_and]
    intro m hm
    have := one_le_length_pack m
    omega
  | succ fuel ih =>
    rw [readFrom]
    cases hbyte : next offset with
    | none =>
      simp only [reduceCtorEq, false_iff, not_exists, not_and]
      intro m _ _ hspells
      cases hpack : pack m with
      | nil => simpa [hpack] using one_le_length_pack m
      | cons byte rest => simp [hpack, Spells, hbyte] at hspells
    | some byte =>
      simp only [or_shifted hvalue]
      by_cases hlow : byte.toNat < 128
      · have hlength : (pack byte.toNat).length = 1 := by rw [pack_of_lt hlow]; rfl
        simp only [if_pos hlow, spells_pack_low hbyte hlow, Nat.mod_eq_of_lt hlow]
        by_cases hzero : shift ≠ 0 ∧ byte.toNat = 0
        · simp only [if_pos hzero, reduceCtorEq, false_iff, not_exists, not_and]
          rintro m - hm rfl
          exact absurd hzero.2 (hm hzero.1)
        · rw [if_neg hzero, Except.ok.injEq, Prod.mk.injEq]
          constructor
          · rintro ⟨rfl, rfl⟩
            exact ⟨byte.toNat, by omega, fun hs hm ↦ hzero ⟨hs, hm⟩, rfl, rfl, by rw [hlength]⟩
          · rintro ⟨m, -, -, rfl, hn, hafter⟩
            exact ⟨hn.symm, by rw [hafter, hlength]⟩
      · have hhigh : 128 ≤ byte.toNat := not_lt.mp hlow
        have hvalue' : value + byte.toNat % 128 * 2 ^ shift < 2 ^ (shift + 7) := by
          have hbits : byte.toNat % 128 * 2 ^ shift ≤ 127 * 2 ^ shift :=
            Nat.mul_le_mul_right _ (by omega)
          rw [pow_add]
          omega
        simp only [if_neg hlow, ih hvalue', spells_pack_high hbyte hhigh]
        -- The rest of the number is its quotient by 128.
        have hcons : ∀ m, m / 128 ≠ 0 → (pack m).length = (pack (m / 128)).length + 1 := by
          intro m hm
          rw [pack_of_le (by omega), List.length_cons]
        constructor
        · rintro ⟨m, hlength, hm, hspells, hn, hafter⟩
          have hrest : (byte.toNat % 128 + 128 * m) / 128 = m := by omega
          have hne : m ≠ 0 := hm (by omega)
          have hwhole := hcons (byte.toNat % 128 + 128 * m) (by rwa [hrest])
          rw [hrest] at hwhole
          refine ⟨byte.toNat % 128 + 128 * m, by omega, fun _ ↦ by omega,
            ⟨by omega, by rwa [hrest], by rwa [hrest]⟩, ?_, by omega⟩
          rw [hn, pow_add]
          ring
        · rintro ⟨m, hlength, -, ⟨hmod, hdiv, hspells⟩, hn, hafter⟩
          have hwhole := hcons m hdiv
          refine ⟨m / 128, by omega, fun _ ↦ hdiv, hspells, ?_, by omega⟩
          rw [hn, ← hmod, pow_add]
          conv_lhs => rw [← Nat.mod_add_div m 128]
          ring

/-- The reader accepts exactly the numbers that are written as the writer writes them. -/
theorem read_eq_ok_iff {bytes n after : ℕ} :
    read next bytes offset = .ok (n, after) ↔ (pack n).length ≤ bytes ∧
      Spells next offset (pack n) ∧ after = offset + (pack n).length := by
  rw [read, readFrom_eq_ok_iff (by norm_num)]
  constructor
  · rintro ⟨m, hlength, -, hspells, hn, hafter⟩
    obtain rfl : n = m := by omega
    exact ⟨hlength, hspells, hafter⟩
  · rintro ⟨hlength, hspells, hafter⟩
    exact ⟨n, hlength, by simp, hspells, by omega, hafter⟩

end Reader

end QortalRelay.Foundation.Base128
