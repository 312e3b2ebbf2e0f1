import QortalRelay.Foundation.Binary
import QortalRelay.Http3.Frames

/-!
# Variable-length integers

The package `quicvarint` as it computes, in the shifts, masks and sums of its bytes. An integer
stands in `2 ^ t` bytes as the big-endian form of itself with `t` in the top two bits (`wire`), and
that is all there is to the package: what `Parse` accepts is such a form and a rest
(`parseVarint_eq_some_iff`), `Read` takes the same bytes to the same value, and `Append` and
`AppendWithLen` write such forms, the former the shortest (`quicvarint_round_trip`).
-/

set_option autoImplicit false
set_option relaxedAutoImplicit false

namespace QortalRelay.Http3

open Foundation Foundation.Encoding Foundation.Binary

/-! ### The functions of the package -/

namespace Quicvarint

inductive Error
  | eof
  | unexpectedEOF
deriving DecidableEq

def maxVarInt1 : UInt64 := 63

def maxVarInt2 : UInt64 := 16383

def maxVarInt4 : UInt64 := 1073741823

def maxVarInt8 : UInt64 := 4611686018427387903

/-- `Parse`: the value and the number of bytes consumed. -/
def parse (b : Bytes) : Except Error (UInt64 × ℕ) :=
  let byte (i : ℕ) : UInt64 := (b.getD i 0).toUInt64
  match b with
  | [] => .error .eof
  | first :: _ =>
    if first >>> 6 = 0 then .ok ((first &&& 0x3f).toUInt64, 1)
    else if first >>> 6 = 1 then
      if b.length < 2 then .error .unexpectedEOF
      else .ok (byte 1 ||| (first &&& 0x3f).toUInt64 <<< 8, 2)
    else if first >>> 6 = 2 then
      if b.length < 4 then .error .unexpectedEOF
      else .ok (byte 3 ||| byte 2 <<< 8 ||| byte 1 <<< 16 ||| (first &&& 0x3f).toUInt64 <<< 24, 4)
    else
      if b.length < 8 then .error .unexpectedEOF
      else
        -- `binary.BigEndian.Uint64`, masked.
        .ok ((byte 7 ||| byte 6 <<< 8 ||| byte 5 <<< 16 ||| byte 4 <<< 24 ||| byte 3 <<< 32 |||
          byte 2 <<< 40 ||| byte 1 <<< 48 ||| byte 0 <<< 56) &&& 0x3fffffffffffffff, 8)

def readByte : Bytes → Option (UInt8 × Bytes)
  | [] => none
  | byte :: rest => some (byte, rest)

/-- `Read`, from a reader of the given bytes: the value and the bytes that are left. -/
def read (bytes : Bytes) : Option (UInt64 × Bytes) := do
  let (firstByte, bytes) ← readByte bytes
  let l := 1 <<< ((firstByte &&& 0xc0) >>> 6).toNat
  let b1 := firstByte &&& (0xff - 0xc0)
  if l = 1 then return (b1.toUInt64, bytes)
  else
    let (b2, bytes) ← readByte bytes
    if l = 2 then return (b2.toUInt64 + b1.toUInt64 <<< 8, bytes)
    else
      let (b3, bytes) ← readByte bytes
      let (b4, bytes) ← readByte bytes
      if l = 4 then
        return (b4.toUInt64 + b3.toUInt64 <<< 8 + b2.toUInt64 <<< 16 + b1.toUInt64 <<< 24, bytes)
      else
        let (b5, bytes) ← readByte bytes
        let (b6, bytes) ← readByte bytes
        let (b7, bytes) ← readByte bytes
        let (b8, bytes) ← readByte bytes
        return (b8.toUInt64 + b7.toUInt64 <<< 8 + b6.toUInt64 <<< 16 + b5.toUInt64 <<< 24 +
          b4.toUInt64 <<< 32 + b3.toUInt64 <<< 40 + b2.toUInt64 <<< 48 + b1.toUInt64 <<< 56, bytes)

/-- `Len`; none for a panic. -/
def len (i : UInt64) : Option ℕ :=
  if i ≤ maxVarInt1 then some 1
  else if i ≤ maxVarInt2 then some 2
  else if i ≤ maxVarInt4 then some 4
  else if i ≤ maxVarInt8 then some 8
  else none

/-- `Append`; none for a panic. -/
def append (b : Bytes) (i : UInt64) : Option Bytes :=
  if i ≤ maxVarInt1 then some (b ++ [i.toUInt8])
  else if i ≤ maxVarInt2 then some (b ++ [(i >>> 8).toUInt8 ||| 0x40, i.toUInt8])
  else if i ≤ maxVarInt4 then
    some (b ++ [(i >>> 24).toUInt8 ||| 0x80, (i >>> 16).toUInt8, (i >>> 8).toUInt8, i.toUInt8])
  else if i ≤ maxVarInt8 then
    some (b ++ [(i >>> 56).toUInt8 ||| 0xc0, (i >>> 48).toUInt8, (i >>> 40).toUInt8,
      (i >>> 32).toUInt8, (i >>> 24).toUInt8, (i >>> 16).toUInt8, (i >>> 8).toUInt8, i.toUInt8])
  else none

/-- The first byte of a form that is longer than it has to be. -/
def lengthBits : ℕ → Bytes
  | 2 => [0x40]
  | 4 => [0x80]
  | 8 => [0xc0]
  | _ => []

/-- `AppendWithLen`; none for a panic. -/
def appendWithLen (b : Bytes) (i : UInt64) (length : ℕ) : Option Bytes := do
  if length ≠ 1 ∧ length ≠ 2 ∧ length ≠ 4 ∧ length ≠ 8 then none
  else
    let l ← len i
    if l = length then append b i
    else if l > length then none
    else
      let b := b ++ lengthBits length
      let b := b ++ List.replicate (length - l - 1) 0
      return b ++ (List.range l).map fun j ↦ (i >>> UInt64.ofNat (8 * (l - 1 - j))).toUInt8

end Quicvarint

/-! ### Integers on the wire -/

/-- The integer in `2 ^ t` bytes: its big-endian form with `t` in the top two bits. -/
def wire (t n : ℕ) : Bytes := bigEndian (2 ^ t) (t * (64 * 256 ^ (2 ^ t - 1)) + n)

@[simp] theorem length_wire (t n : ℕ) : (wire t n).length = 2 ^ t := length_bigEndian _ _

/-- The first byte has `t` and the top of the integer. -/
theorem wire_eq_cons {t n : ℕ} (ht : t < 4) (hn : n < 64 * 256 ^ (2 ^ t - 1)) :
    ∃ first, wire t n = first :: bigEndian (2 ^ t - 1) n ∧
      first.toNat = t * 64 + n / 256 ^ (2 ^ t - 1) ∧ varintLength first = 2 ^ t ∧
      first.toNat % 64 = n / 256 ^ (2 ^ t - 1) := by
  obtain ⟨w, hw⟩ : ∃ w, 2 ^ t = w + 1 := ⟨2 ^ t - 1, by have := Nat.two_pow_pos t; omega⟩
  have hpos : 0 < 256 ^ w := by positivity
  have htop : n / 256 ^ (2 ^ t - 1) < 64 := Nat.div_lt_of_lt_mul (by rwa [Nat.mul_comm])
  have hfirst : (UInt8.ofNat (t * 64 + n / 256 ^ (2 ^ t - 1))).toNat =
      t * 64 + n / 256 ^ (2 ^ t - 1) := by
    rw [UInt8.toNat_ofNat']
    generalize n / 256 ^ (2 ^ t - 1) = top at htop
    omega
  refine ⟨UInt8.ofNat (t * 64 + n / 256 ^ (2 ^ t - 1)), ?_, hfirst, ?_, ?_⟩
  · rw [wire, hw, Nat.add_sub_cancel, bigEndian, ← mul_assoc, bigEndian_add,
      Nat.add_comm (t * 64 * _), Nat.add_mul_div_right _ _ hpos, Nat.add_comm]
  · rw [varintLength, hfirst]
    generalize n / 256 ^ (2 ^ t - 1) = top at htop
    congr 1
    omega
  · rw [hfirst]
    generalize n / 256 ^ (2 ^ t - 1) = top at htop
    omega

/-- Assumes: an integer that fits into `2 ^ t` bytes. It is read from there. -/
theorem parseVarint_wire {t n : ℕ} (ht : t < 4) (hn : n < 64 * 256 ^ (2 ^ t - 1)) (rest : Bytes) :
    parseVarint (wire t n ++ rest) = some (n, rest) := by
  obtain ⟨first, hwire, -, hlength, htop⟩ := wire_eq_cons ht hn
  have hvalue : varintValue (first :: bigEndian (2 ^ t - 1) n) = n := by
    rw [varintValue, foldl_bigEndian, htop, Nat.div_add_mod']
  have htail := length_bigEndian (2 ^ t - 1) n
  rw [hwire, List.cons_append, parseVarint, hlength, if_neg (by
    rw [List.length_append, htail]; omega), List.take_left' htail, List.drop_left' htail, hvalue]

/-- What is read stands there in two to the power of its first two bits bytes. -/
theorem exists_wire_of_parseVarint {bytes rest : Bytes} {n : ℕ}
    (h : parseVarint bytes = some (n, rest)) :
    ∃ t < 4, n < 64 * 256 ^ (2 ^ t - 1) ∧ bytes = wire t n ++ rest := by
  cases bytes with
  | nil => cases h
  | cons first tail =>
    rw [parseVarint] at h
    split_ifs at h with hshort
    obtain ⟨hn, rfl⟩ := Prod.mk.inj (Option.some.inj h)
    have ht : first.toNat / 64 < 4 := by have := first.toNat_lt; omega
    obtain ⟨t, hfirst⟩ : ∃ t, first.toNat / 64 = t := ⟨_, rfl⟩
    have hlength : varintLength first = 2 ^ t := by rw [varintLength, hfirst]
    rw [hlength] at hn hshort ⊢
    rw [hfirst] at ht
    have hpart : (tail.take (2 ^ t - 1)).length = 2 ^ t - 1 := by
      rw [List.length_take]
      omega
    have hlow := bigEndianValue_lt (tail.take (2 ^ t - 1))
    rw [varintValue, foldl_bytes, hpart] at hn
    rw [hpart] at hlow
    have hmod : first.toNat % 64 < 64 := Nat.mod_lt _ (by decide)
    have hbound : n < 64 * 256 ^ (2 ^ t - 1) := by
      rw [← hn]
      nlinarith
    refine ⟨t, ht, hbound, ?_⟩
    obtain ⟨first', hwire, hfirst', -, -⟩ := wire_eq_cons ht hbound
    have htop : n / 256 ^ (2 ^ t - 1) = first.toNat % 64 := by
      rw [← hn, Nat.add_comm, Nat.add_mul_div_right _ _ (by positivity), Nat.div_eq_of_lt hlow,
        Nat.zero_add]
    have hsame : first' = first := by
      apply UInt8.toNat_inj.mp
      rw [hfirst', htop]
      omega
    have htail : bigEndian (2 ^ t - 1) n = tail.take (2 ^ t - 1) := by
      rw [← hn, bigEndian_add]
      have := bigEndian_bigEndianValue (tail.take (2 ^ t - 1))
      rwa [hpart] at this
    rw [hwire, hsame, htail, List.cons_append, List.take_append_drop]

/-- What `Parse` accepts. -/
theorem parseVarint_eq_some_iff {bytes rest : Bytes} {n : ℕ} :
    parseVarint bytes = some (n, rest) ↔
      ∃ t < 4, n < 64 * 256 ^ (2 ^ t - 1) ∧ bytes = wire t n ++ rest := by
  refine ⟨exists_wire_of_parseVarint, ?_⟩
  rintro ⟨t, ht, hn, rfl⟩
  exact parseVarint_wire ht hn rest

/-! ### Reading -/

namespace Quicvarint

theorem toNat_shiftLeft (byte : UInt8) {k : UInt64} (hk : k.toNat ≤ 56) :
    (byte.toUInt64 <<< k).toNat = byte.toNat * 2 ^ k.toNat := by
  have hbyte := byte.toNat_lt
  have hpow : 2 ^ k.toNat ≤ 2 ^ 56 := Nat.pow_le_pow_right (by decide) hk
  rw [UInt64.toNat_shiftLeft, UInt8.toNat_toUInt64, Nat.mod_eq_of_lt (by omega : k.toNat < 64),
    Nat.shiftLeft_eq, Nat.mod_eq_of_lt]
  calc byte.toNat * 2 ^ k.toNat ≤ 255 * 2 ^ 56 := Nat.mul_le_mul (by omega) hpow
    _ < 2 ^ 64 := by decide

/-- A byte above the bits that are there is added. -/
theorem toNat_or_shiftLeft {x : UInt64} {v : ℕ} (byte : UInt8) {k : UInt64} (hk : k.toNat ≤ 56)
    (hx : x.toNat = v ∧ v < 2 ^ k.toNat) :
    (x ||| byte.toUInt64 <<< k).toNat = v + byte.toNat * 2 ^ k.toNat ∧
      v + byte.toNat * 2 ^ k.toNat < 2 ^ (k.toNat + 8) := by
  obtain ⟨rfl, hlt⟩ := hx
  have hbyte := byte.toNat_lt
  refine ⟨?_, ?_⟩
  · rw [UInt64.toNat_or, toNat_shiftLeft byte hk, Nat.or_comm, Nat.mul_comm,
      ← Nat.two_pow_add_eq_or_of_lt hlt, Nat.add_comm]
  · rw [pow_add]
    nlinarith

theorem toNat_low (byte : UInt8) : (byte &&& 0x3f).toNat = byte.toNat % 64 := by
  rw [UInt8.toNat_and]
  exact Nat.and_two_pow_sub_one_eq_mod _ 6

theorem toNat_shiftRight_six (byte : UInt8) : (byte >>> 6).toNat = byte.toNat / 64 := by
  rw [UInt8.toNat_shiftRight]
  exact Nat.shiftRight_eq_div_pow _ 6

/-- The two top bits of a byte. -/
theorem shiftRight_six_cases (byte : UInt8) :
    byte >>> 6 = 0 ∧ byte.toNat / 64 = 0 ∨ byte >>> 6 = 1 ∧ byte.toNat / 64 = 1 ∨
      byte >>> 6 = 2 ∧ byte.toNat / 64 = 2 ∨ byte >>> 6 = 3 ∧ byte.toNat / 64 = 3 := by
  have hbyte := byte.toNat_lt
  have htop := toNat_shiftRight_six byte
  simp only [← UInt8.toNat_inj, htop, UInt8.reduceToNat]
  omega

theorem varintValue_one (first : UInt8) :
    (first &&& 0x3f).toUInt64.toNat = varintValue [first] := by
  rw [UInt8.toNat_toUInt64, toNat_low]
  rfl

theorem varintValue_two (first b1 : UInt8) :
    (b1.toUInt64 ||| (first &&& 0x3f).toUInt64 <<< 8).toNat = varintValue [first, b1] := by
  have h0 := toNat_or_shiftLeft (k := 8) (first &&& 0x3f) (by decide)
    ⟨b1.toNat_toUInt64, b1.toNat_lt⟩
  rw [h0.1, toNat_low]
  simp only [varintValue, List.foldl_cons, List.foldl_nil, UInt64.reduceToNat]
  omega

theorem varintValue_four (first b1 b2 b3 : UInt8) :
    (b3.toUInt64 ||| b2.toUInt64 <<< 8 ||| b1.toUInt64 <<< 16 |||
      (first &&& 0x3f).toUInt64 <<< 24).toNat = varintValue [first, b1, b2, b3] := by
  have h2 := toNat_or_shiftLeft (k := 8) b2 (by decide) ⟨b3.toNat_toUInt64, b3.toNat_lt⟩
  have h1 := toNat_or_shiftLeft (k := 16) b1 (by decide) h2
  have h0 := toNat_or_shiftLeft (k := 24) (first &&& 0x3f) (by decide) h1
  rw [h0.1, toNat_low]
  simp only [varintValue, List.foldl_cons, List.foldl_nil, UInt64.reduceToNat]
  omega

theorem varintValue_eight (first b1 b2 b3 b4 b5 b6 b7 : UInt8) :
    ((b7.toUInt64 ||| b6.toUInt64 <<< 8 ||| b5.toUInt64 <<< 16 ||| b4.toUInt64 <<< 24 |||
      b3.toUInt64 <<< 32 ||| b2.toUInt64 <<< 40 ||| b1.toUInt64 <<< 48 |||
      first.toUInt64 <<< 56) &&& 0x3fffffffffffffff).toNat =
      varintValue [first, b1, b2, b3, b4, b5, b6, b7] := by
  have h6 := toNat_or_shiftLeft (k := 8) b6 (by decide) ⟨b7.toNat_toUInt64, b7.toNat_lt⟩
  have h5 := toNat_or_shiftLeft (k := 16) b5 (by decide) h6
  have h4 := toNat_or_shiftLeft (k := 24) b4 (by decide) h5
  have h3 := toNat_or_shiftLeft (k := 32) b3 (by decide) h4
  have h2 := toNat_or_shiftLeft (k := 40) b2 (by decide) h3
  have h1 := toNat_or_shiftLeft (k := 48) b1 (by decide) h2
  have h0 := toNat_or_shiftLeft (k := 56) first (by decide) h1
  rw [UInt64.toNat_and, h0.1, show UInt64.toNat 0x3fffffffffffffff = 2 ^ 62 - 1 from rfl,
    Nat.and_two_pow_sub_one_eq_mod]
  have hlow := h1.2
  simp only [varintValue, List.foldl_cons, List.foldl_nil, UInt64.reduceToNat] at hlow ⊢
  omega

/-- What `Parse` makes of a buffer with the given first two bits: the value, if there are as many
bytes as they say. -/
theorem parse_cons (first : UInt8) (rest : Bytes) :
    ∃ value : UInt64, parse (first :: rest) =
        (if rest.length + 1 < varintLength first then .error .unexpectedEOF
          else .ok (value, varintLength first)) ∧
      (¬rest.length + 1 < varintLength first →
        value.toNat = varintValue (first :: rest.take (varintLength first - 1))) := by
  have h1 : (1 : UInt8) ≠ 0 := by decide
  have h2 : (2 : UInt8) ≠ 0 ∧ (2 : UInt8) ≠ 1 := by decide
  have h3 : (3 : UInt8) ≠ 0 ∧ (3 : UInt8) ≠ 1 ∧ (3 : UInt8) ≠ 2 := by decide
  rcases shiftRight_six_cases first with ⟨hbits, h⟩ | ⟨hbits, h⟩ | ⟨hbits, h⟩ | ⟨hbits, h⟩
  · have hlength : varintLength first = 1 := by rw [varintLength, h]; rfl
    simp only [parse, hbits, hlength, if_true]
    exact ⟨_, by rw [if_neg (by omega)], fun _ ↦ varintValue_one first⟩
  · have hlength : varintLength first = 2 := by rw [varintLength, h]; rfl
    simp only [parse, hbits, hlength, if_true, if_neg h1]
    refine ⟨_, rfl, fun hlong ↦ ?_⟩
    rcases rest with _ | ⟨b1, rest⟩
    · exact absurd (by decide) hlong
    · exact varintValue_two first b1
  · have hlength : varintLength first = 4 := by rw [varintLength, h]; rfl
    simp only [parse, hbits, hlength, if_true, if_neg h2.1, if_neg h2.2]
    refine ⟨_, rfl, fun hlong ↦ ?_⟩
    rcases rest with _ | ⟨b1, _ | ⟨b2, _ | ⟨b3, rest⟩⟩⟩
    iterate 3 exact absurd (by simp) hlong
    exact varintValue_four first b1 b2 b3
  · have hlength : varintLength first = 8 := by rw [varintLength, h]; rfl
    simp only [parse, hbits, hlength, if_neg h3.1, if_neg h3.2.1, if_neg h3.2.2]
    refine ⟨_, rfl, fun hlong ↦ ?_⟩
    rcases rest with _ | ⟨b1, _ | ⟨b2, _ | ⟨b3, _ | ⟨b4, _ | ⟨b5, _ | ⟨b6, _ | ⟨b7, rest⟩⟩⟩⟩⟩⟩⟩
    iterate 7 exact absurd (by simp) hlong
    exact varintValue_eight first b1 b2 b3 b4 b5 b6 b7

/-- `Parse` in sums instead of shifts. -/
theorem parseVarint_eq_parse (bytes : Bytes) :
    parseVarint bytes = match parse bytes with
      | .ok (value, consumed) => some (value.toNat, bytes.drop consumed)
      | .error _ => none := by
  cases bytes with
  | nil => rfl
  | cons first rest =>
    obtain ⟨value, hparse, hvalue⟩ := parse_cons first rest
    rw [hparse, parseVarint]
    split_ifs with hshort
    · rfl
    · obtain ⟨n, hn⟩ : ∃ n, varintLength first = n + 1 :=
        Nat.exists_eq_succ_of_ne_zero (Nat.two_pow_pos _).ne'
      simp [hvalue hshort, hn]

theorem toNat_top (byte : UInt8) : ((byte &&& 0xc0) >>> 6).toNat = byte.toNat / 64 := by
  have hbyte := byte.toNat_lt
  rw [UInt8.toNat_shiftRight, UInt8.toNat_and]
  simp only [UInt8.reduceToNat, Nat.reduceMod, Nat.shiftRight_and_distrib, Nat.reduceShiftRight]
  rw [Nat.shiftRight_eq_div_pow, Nat.and_two_pow_sub_one_eq_mod _ 2]
  omega

theorem toNat_add_shiftLeft {x : UInt64} {v : ℕ} (byte : UInt8) {k : UInt64} (hk : k.toNat ≤ 56)
    (hx : x.toNat = v ∧ v < 2 ^ k.toNat) :
    (x + byte.toUInt64 <<< k).toNat = v + byte.toNat * 2 ^ k.toNat ∧
      v + byte.toNat * 2 ^ k.toNat < 2 ^ (k.toNat + 8) := by
  have hlt := (toNat_or_shiftLeft byte hk hx).2
  have hpow : 2 ^ (k.toNat + 8) ≤ 2 ^ 64 := Nat.pow_le_pow_right (by decide) (by omega)
  rw [UInt64.toNat_add, toNat_shiftLeft byte hk, hx.1, Nat.mod_eq_of_lt (by omega)]
  exact ⟨rfl, hlt⟩

/-- `Read` takes the bytes that `Parse` takes, to the same value. -/
theorem map_read (bytes : Bytes) :
    (read bytes).map (fun result ↦ (result.1.toNat, result.2)) = parseVarint bytes := by
  match bytes with
  | [] => rfl
  | first :: rest =>
    have hmask : (0xff - 0xc0 : UInt8) = 0x3f := by decide
    have hl : 1 <<< ((first &&& 0xc0) >>> 6).toNat = varintLength first := by
      rw [toNat_top, Nat.one_shiftLeft, varintLength]
    have hlow := toNat_low first
    simp only [read, readByte, hl, hmask, parseVarint, Option.bind_eq_bind, Option.bind_some]
    rcases shiftRight_six_cases first with ⟨-, h⟩ | ⟨-, h⟩ | ⟨-, h⟩ | ⟨-, h⟩
    · have hlength : varintLength first = 1 := by rw [varintLength, h]; rfl
      simp only [hlength, if_true]
      rw [if_neg (by omega)]
      exact congrArg (fun v ↦ some (v, rest)) (varintValue_one first)
    · have hlength : varintLength first = 2 := by rw [varintLength, h]; rfl
      simp only [hlength, if_true, OfNat.ofNat_ne_one, if_false]
      rcases rest with _ | ⟨b1, rest⟩
      · rfl
      have h0 := toNat_add_shiftLeft (k := 8) (first &&& 0x3f) (by decide)
        ⟨b1.toNat_toUInt64, b1.toNat_lt⟩
      rw [List.length_cons, if_neg (by omega)]
      refine congrArg (fun v ↦ some (v, rest)) (h0.1.trans ?_)
      rw [hlow]
      simp only [varintValue, List.take, List.foldl_cons, List.foldl_nil, UInt64.reduceToNat]
      omega
    · have hlength : varintLength first = 4 := by rw [varintLength, h]; rfl
      simp only [hlength, if_true, OfNat.ofNat_ne_one, Nat.reduceEqDiff, if_false]
      rcases rest with _ | ⟨b1, _ | ⟨b2, _ | ⟨b3, rest⟩⟩⟩
      iterate 3 rfl
      have h2 := toNat_add_shiftLeft (k := 8) b2 (by decide) ⟨b3.toNat_toUInt64, b3.toNat_lt⟩
      have h1 := toNat_add_shiftLeft (k := 16) b1 (by decide) h2
      have h0 := toNat_add_shiftLeft (k := 24) (first &&& 0x3f) (by decide) h1
      simp only [List.length_cons]
      rw [if_neg (by omega)]
      refine congrArg (fun v ↦ some (v, rest)) (h0.1.trans ?_)
      rw [hlow]
      simp only [varintValue, List.take, List.foldl_cons, List.foldl_nil, UInt64.reduceToNat]
      omega
    · have hlength : varintLength first = 8 := by rw [varintLength, h]; rfl
      simp only [hlength, OfNat.ofNat_ne_one, Nat.reduceEqDiff, if_false]
      rcases rest with _ | ⟨b1, _ | ⟨b2, _ | ⟨b3, _ | ⟨b4, _ | ⟨b5, _ | ⟨b6, _ | ⟨b7, rest⟩⟩⟩⟩⟩⟩⟩
      iterate 7 rfl
      have h6 := toNat_add_shiftLeft (k := 8) b6 (by decide) ⟨b7.toNat_toUInt64, b7.toNat_lt⟩
      have h5 := toNat_add_shiftLeft (k := 16) b5 (by decide) h6
      have h4 := toNat_add_shiftLeft (k := 24) b4 (by decide) h5
      have h3 := toNat_add_shiftLeft (k := 32) b3 (by decide) h4
      have h2 := toNat_add_shiftLeft (k := 40) b2 (by decide) h3
      have h1 := toNat_add_shiftLeft (k := 48) b1 (by decide) h2
      have h0 := toNat_add_shiftLeft (k := 56) (first &&& 0x3f) (by decide) h1
      simp only [List.length_cons]
      rw [if_neg (by omega)]
      refine congrArg (fun v ↦ some (v, rest)) (h0.1.trans ?_)
      rw [hlow]
      simp only [varintValue, List.take, List.foldl_cons, List.foldl_nil, UInt64.reduceToNat]
      omega

/-! ### Writing -/

theorem toUInt8_shiftRight (i : UInt64) {k : UInt64} (hk : k.toNat < 64) :
    (i >>> k).toUInt8 = UInt8.ofNat (i.toNat / 2 ^ k.toNat) := by
  apply UInt8.toNat_inj.mp
  rw [UInt64.toNat_toUInt8, UInt64.toNat_shiftRight, Nat.mod_eq_of_lt hk,
    Nat.shiftRight_eq_div_pow, UInt8.toNat_ofNat']

/-- The length goes above the top of the integer. -/
theorem toNat_or_top {byte : UInt8} (h : byte.toNat < 64) (t : ℕ) (ht : t < 4) :
    (byte ||| UInt8.ofNat (64 * t)).toNat = t * 64 + byte.toNat := by
  rw [UInt8.toNat_or, UInt8.toNat_ofNat', Nat.mod_eq_of_lt (by omega), Nat.or_comm,
    show 64 * t = 2 ^ 6 * t from rfl, ← Nat.two_pow_add_eq_or_of_lt h, Nat.mul_comm]

/-- Assumes: an integer of which a byte has the top. The bytes of `Append` are those of `wire`. -/
theorem wire_eq {t n : ℕ} (ht : t < 4) (hn : n < 64 * 256 ^ (2 ^ t - 1)) {top : UInt8}
    (htop : top = UInt8.ofNat (n / 256 ^ (2 ^ t - 1))) :
    (top ||| UInt8.ofNat (64 * t)) :: bigEndian (2 ^ t - 1) n = wire t n := by
  obtain ⟨first, hwire, hfirst, -, -⟩ := wire_eq_cons ht hn
  have hsmall : n / 256 ^ (2 ^ t - 1) < 64 := Nat.div_lt_of_lt_mul (by rwa [Nat.mul_comm])
  have hbyte : top.toNat = n / 256 ^ (2 ^ t - 1) := by
    rw [htop, UInt8.toNat_ofNat', Nat.mod_eq_of_lt (by omega)]
  rw [hwire]
  congr 1
  apply UInt8.toNat_inj.mp
  rw [toNat_or_top (by omega) t ht, hfirst, hbyte]

/-- Assumes: an integer of at most 62 bits. `Append` writes it in the fewest bytes. -/
theorem append_eq (b : Bytes) {i : UInt64} (hi : i ≤ maxVarInt8) :
    ∃ t < 4, i.toNat < 64 * 256 ^ (2 ^ t - 1) ∧ len i = some (2 ^ t) ∧
      append b i = some (b ++ wire t i.toNat) ∧
      ∀ t' < t, 64 * 256 ^ (2 ^ t' - 1) ≤ i.toNat := by
  unfold len append
  simp only [UInt64.le_iff_toNat_le, maxVarInt1, maxVarInt2, maxVarInt4, maxVarInt8,
    UInt64.reduceToNat] at hi ⊢
  split_ifs with h1 h2 h4
  · refine ⟨0, by decide, by simpa using by omega, rfl, ?_, nofun⟩
    rw [← wire_eq (by decide) (by simpa using by omega) rfl]
    simp [bigEndian]
  · refine ⟨1, by decide, by simpa using by omega, rfl, ?_, ?_⟩
    · rw [← wire_eq (by decide) (by simpa using by omega)
        (toUInt8_shiftRight i (k := 8) (by decide))]
      simp [bigEndian]
    · intro t' ht'
      interval_cases t'
      simpa using by omega
  · refine ⟨2, by decide, by simpa using by omega, rfl, ?_, ?_⟩
    · rw [← wire_eq (by decide) (by simpa using by omega)
        (toUInt8_shiftRight i (k := 24) (by decide))]
      simp [bigEndian, toUInt8_shiftRight]
    · intro t' ht'
      interval_cases t' <;> simpa using by omega
  · refine ⟨3, by decide, by simpa using by omega, rfl, ?_, ?_⟩
    · rw [← wire_eq (by decide) (by simpa using by omega)
        (toUInt8_shiftRight i (k := 56) (by decide))]
      simp [bigEndian, toUInt8_shiftRight]
    · intro t' ht'
      interval_cases t' <;> simpa using by omega

/-- The loop of `AppendWithLen` over the bytes of the integer. -/
theorem map_range_shiftRight (i : UInt64) {l : ℕ} (hl : l ≤ 8) :
    (List.range l).map (fun j ↦ (i >>> UInt64.ofNat (8 * (l - 1 - j))).toUInt8) =
      bigEndian l i.toNat := by
  rw [bigEndian_eq_map_range]
  refine List.map_congr_left fun j hj ↦ ?_
  have hj := List.mem_range.mp hj
  have hk : (UInt64.ofNat (8 * (l - 1 - j))).toNat = 8 * (l - 1 - j) := by
    rw [UInt64.toNat_ofNat']
    omega
  rw [toUInt8_shiftRight i (by omega), hk, pow_mul]
  rfl

/-- Assumes: a longer form than the shortest. `AppendWithLen` pads it with zeros. -/
theorem wire_of_lt {t l n : ℕ} (ht : t < 4) (hl : l < 2 ^ t) (hn : n < 256 ^ l) :
    wire t n =
      UInt8.ofNat (64 * t) :: (List.replicate (2 ^ t - l - 1) 0 ++ bigEndian l n) := by
  have hle : 256 ^ l ≤ 256 ^ (2 ^ t - 1) := Nat.pow_le_pow_right (by decide) (by omega)
  have hbound : n < 64 * 256 ^ (2 ^ t - 1) := by omega
  rw [← wire_eq ht hbound rfl, Nat.div_eq_of_lt (by omega), ← bigEndian_of_lt _ hn,
    show 2 ^ t - l - 1 + l = 2 ^ t - 1 by omega]
  congr 1
  apply UInt8.toNat_inj.mp
  rw [toNat_or_top (by decide) t ht, UInt8.toNat_ofNat']
  simp
  omega

theorem le_maxVarInt8_iff {i : UInt64} : i ≤ maxVarInt8 ↔ i.toNat < 2 ^ 62 := by
  rw [UInt64.le_iff_toNat_le, show maxVarInt8.toNat = 2 ^ 62 - 1 from rfl]
  omega

/-- No form is longer than eight bytes. -/
theorem fits_lt {t n : ℕ} (ht : t < 4) (hn : n < 64 * 256 ^ (2 ^ t - 1)) : n < 2 ^ 62 := by
  have hpow : 2 ^ t - 1 ≤ 7 := by
    have := Nat.pow_le_pow_right (n := 2) (by decide) (show t ≤ 3 by omega)
    omega
  have hle : 256 ^ (2 ^ t - 1) ≤ 256 ^ 7 := Nat.pow_le_pow_right (by decide) hpow
  omega

/-- Assumes: a length that is a power of two, and an integer that fits. `AppendWithLen` writes it in
that many bytes. -/
theorem appendWithLen_eq (b : Bytes) {i : UInt64} {t : ℕ} (ht : t < 4)
    (hi : i.toNat < 64 * 256 ^ (2 ^ t - 1)) :
    appendWithLen b i (2 ^ t) = some (b ++ wire t i.toNat) := by
  obtain ⟨s, hs, hfits, hlen, happend, hmin⟩ :=
    append_eq b (le_maxVarInt8_iff.mpr (fits_lt ht hi))
  have hvalid : ¬(2 ^ t ≠ 1 ∧ 2 ^ t ≠ 2 ∧ 2 ^ t ≠ 4 ∧ 2 ^ t ≠ 8) := by
    interval_cases t <;> decide
  have hle : s ≤ t := by
    by_contra hlt
    exact absurd (hmin t (by omega)) (not_le.mpr hi)
  rw [appendWithLen, if_neg hvalid, hlen, Option.bind_eq_bind, Option.bind_some]
  rcases eq_or_lt_of_le hle with rfl | hlt
  · rw [if_pos rfl, happend]
  · have hpow : 2 ^ s < 2 ^ t := Nat.pow_lt_pow_right (by decide) hlt
    have hsmall : i.toNat < 256 ^ 2 ^ s := by
      refine lt_of_lt_of_le hfits ?_
      have hsucc : 2 ^ s = 2 ^ s - 1 + 1 := by have := Nat.two_pow_pos s; omega
      rw [hsucc, pow_succ, Nat.add_sub_cancel]
      omega
    rw [if_neg (by omega), if_neg (by omega), map_range_shiftRight i (by
      have := Nat.pow_le_pow_right (n := 2) (by decide) (show s ≤ 3 by omega)
      omega), wire_of_lt ht hpow hsmall]
    have hbits : lengthBits (2 ^ t) = [UInt8.ofNat (64 * t)] := by
      interval_cases t
      · omega
      all_goals rfl
    simp [hbits]

theorem consumed_of_parse {first : UInt8} {rest : Bytes} {i : UInt64} {n : ℕ}
    (h : parse (first :: rest) = .ok (i, n)) : n = varintLength first := by
  obtain ⟨value, hparse, -⟩ := parse_cons first rest
  rw [hparse] at h
  split_ifs at h
  exact (Prod.mk.inj (Except.ok.inj h)).2.symm

/-- What `Parse` accepts, with the number of bytes consumed. -/
theorem parse_eq_ok_iff {bytes : Bytes} {i : UInt64} {n : ℕ} :
    parse bytes = .ok (i, n) ↔ ∃ t < 4, i.toNat < 64 * 256 ^ (2 ^ t - 1) ∧ n = 2 ^ t ∧
      ∃ rest, bytes = wire t i.toNat ++ rest := by
  have hconsumed : ∀ {t : ℕ} {rest : Bytes} {i' : UInt64} {n' : ℕ}, t < 4 →
      i.toNat < 64 * 256 ^ (2 ^ t - 1) → parse (wire t i.toNat ++ rest) = .ok (i', n') →
      n' = 2 ^ t := by
    intro t rest i' n' ht hi hparse
    obtain ⟨first, hwire, -, hlength, -⟩ := wire_eq_cons ht hi
    rw [hwire, List.cons_append] at hparse
    rw [consumed_of_parse hparse, hlength]
  have hvarint := parseVarint_eq_parse bytes
  constructor
  · intro hparse
    rw [hparse] at hvarint
    obtain ⟨t, ht, hi, hbytes⟩ := exists_wire_of_parseVarint hvarint
    rw [hbytes] at hparse
    exact ⟨t, ht, hi, hconsumed ht hi hparse, _, hbytes⟩
  · rintro ⟨t, ht, hi, rfl, rest, rfl⟩
    rw [parseVarint_wire ht hi] at hvarint
    cases hparse : parse (wire t i.toNat ++ rest) with
    | error error =>
      rw [hparse] at hvarint
      cases hvarint
    | ok result =>
      obtain ⟨i', n'⟩ := result
      rw [hparse] at hvarint
      rw [hconsumed ht hi hparse, UInt64.toNat_inj.mp (Prod.mk.inj (Option.some.inj hvarint)).1]

/-- What `Read` accepts. -/
theorem read_eq_some_iff {bytes rest : Bytes} {i : UInt64} :
    read bytes = some (i, rest) ↔
      ∃ t < 4, i.toNat < 64 * 256 ^ (2 ^ t - 1) ∧ bytes = wire t i.toNat ++ rest := by
  rw [← parseVarint_eq_some_iff, ← map_read]
  constructor
  · rintro h
    rw [h]
    rfl
  · intro h
    obtain ⟨⟨i', rest'⟩, hread, heq⟩ := Option.map_eq_some_iff.mp h
    obtain ⟨hi, rfl⟩ := Prod.mk.inj heq
    rw [hread, show i' = i from UInt64.toNat_inj.mp hi]

/-- Assumes: an integer of more than 62 bits. -/
theorem len_eq_none {i : UInt64} (hi : maxVarInt8 < i) (b : Bytes) :
    len i = none ∧ append b i = none := by
  have hle : ∀ {bound : UInt64}, bound ≤ maxVarInt8 → ¬i ≤ bound := by
    intro bound hbound hi'
    rw [UInt64.lt_iff_toNat_lt] at hi
    rw [UInt64.le_iff_toNat_le] at hbound hi'
    omega
  have h1 := hle (show maxVarInt1 ≤ maxVarInt8 by decide)
  have h2 := hle (show maxVarInt2 ≤ maxVarInt8 by decide)
  have h4 := hle (show maxVarInt4 ≤ maxVarInt8 by decide)
  have h8 := hle (show maxVarInt8 ≤ maxVarInt8 by decide)
  simp only [len, append, if_neg h1, if_neg h2, if_neg h4, if_neg h8, and_self]

/-- Assumes: a length below the shortest. -/
theorem appendWithLen_eq_none (b : Bytes) {i : UInt64} {l length : ℕ} (hlen : len i = some l)
    (hlt : length < l) : appendWithLen b i length = none := by
  unfold appendWithLen
  split_ifs
  · rfl
  · simp [hlen, hlt, hlt.ne']

theorem exists_pow_of_mem {length : ℕ} (h : length ∈ [1, 2, 4, 8]) : ∃ t < 4, length = 2 ^ t := by
  simp only [List.mem_cons, List.not_mem_nil, or_false] at h
  rcases h with rfl | rfl | rfl | rfl
  · exact ⟨0, by decide, rfl⟩
  · exact ⟨1, by decide, rfl⟩
  · exact ⟨2, by decide, rfl⟩
  · exact ⟨3, by decide, rfl⟩

/-- `Parse` and `Read` undo `Append` and `AppendWithLen`, whatever follows, and accept nothing else:
an integer of at most 62 bits is written in every length from `Len` on and is read from there by
both, `Append` takes the shortest, and what `Parse` has taken is what `AppendWithLen` writes for the
value and the length. Larger integers and smaller lengths are refused. -/
theorem quicvarint_round_trip (b rest bytes : Bytes) (i : UInt64) (n : ℕ) :
    (maxVarInt8 < i → append b i = none ∧ appendWithLen b i n = none) ∧
    (i ≤ maxVarInt8 → ∃ l, len i = some l ∧ append b i = appendWithLen b i l ∧
      ∀ length ∈ [1, 2, 4, 8], if length < l then appendWithLen b i length = none else
        ∃ code, code.length = length ∧ appendWithLen b i length = some (b ++ code) ∧
          parse (code ++ rest) = .ok (i, length) ∧ read (code ++ rest) = some (i, rest)) ∧
    (parse bytes = .ok (i, n) → i ≤ maxVarInt8 ∧ read bytes = some (i, bytes.drop n) ∧
      appendWithLen [] i n = some (bytes.take n)) ∧
    ((∃ error, parse bytes = .error error) ↔ read bytes = none) := by
  refine ⟨fun hi ↦ ?_, fun hi ↦ ?_, fun hparse ↦ ?_, ?_⟩
  · obtain ⟨hlen, happend⟩ := len_eq_none hi b
    refine ⟨happend, ?_⟩
    unfold appendWithLen
    split_ifs
    · rfl
    · rw [hlen]
      rfl
  · obtain ⟨t, ht, hfits, hlen, happend, hmin⟩ := append_eq b hi
    refine ⟨2 ^ t, hlen, by rw [happend, appendWithLen_eq b ht hfits], fun length hlength ↦ ?_⟩
    obtain ⟨s, hs, rfl⟩ := exists_pow_of_mem hlength
    split_ifs with hlt
    · exact appendWithLen_eq_none b hlen hlt
    · have hle : t ≤ s := by
        by_contra hts
        exact hlt (Nat.pow_lt_pow_right (by decide) (by omega))
      have hfits' : i.toNat < 64 * 256 ^ (2 ^ s - 1) := by
        refine lt_of_lt_of_le hfits (Nat.mul_le_mul_left _ (Nat.pow_le_pow_right (by decide) ?_))
        have := Nat.pow_le_pow_right (n := 2) (by decide) hle
        omega
      exact ⟨wire s i.toNat, length_wire s _, appendWithLen_eq b hs hfits',
        parse_eq_ok_iff.mpr ⟨s, hs, hfits', rfl, rest, rfl⟩,
        read_eq_some_iff.mpr ⟨s, hs, hfits', rfl⟩⟩
  · obtain ⟨t, ht, hfits, rfl, after, rfl⟩ := parse_eq_ok_iff.mp hparse
    have hlength := length_wire t i.toNat
    rw [List.drop_left' hlength, List.take_left' hlength]
    exact ⟨le_maxVarInt8_iff.mpr (fits_lt ht hfits),
      read_eq_some_iff.mpr ⟨t, ht, hfits, rfl⟩, appendWithLen_eq [] ht hfits⟩
  · have hread := map_read bytes
    rw [parseVarint_eq_parse] at hread
    cases hparse : parse bytes with
    | error error =>
      rw [hparse] at hread
      exact ⟨fun _ ↦ Option.map_eq_none_iff.mp hread, fun _ ↦ ⟨error, rfl⟩⟩
    | ok result =>
      rw [hparse] at hread
      refine ⟨?_, fun hnone ↦ ?_⟩
      · rintro ⟨_, herror⟩
        cases herror
      · rw [hnone] at hread
        cases hread

end Quicvarint

end QortalRelay.Http3
