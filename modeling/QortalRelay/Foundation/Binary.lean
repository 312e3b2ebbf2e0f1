import QortalRelay.Foundation.Encoding

/-!
# Binary records

What a codec of binary records is made of. A source that is asked by position spells a sequence from
a position on (`Spells`); a record laid out as one field after another is spelled when each field is
spelled where the one before it ends, and a slice of a sequence is what it spells there. Fields are
big-endian numbers, ASCII text and bytes, and bytes are given as hexadecimal text, whose reader
skips blanks and takes digits of either case.
-/

set_option autoImplicit false
set_option relaxedAutoImplicit false

namespace QortalRelay.Foundation.Binary

open Encoding

/-! ### Checks that may raise -/

section Checks

variable {ε α β : Type}

/-- The value of a library call that may raise. -/
def require (value : Option α) (error : ε) : Except ε α :=
  match value with
  | some value => .ok value
  | none => .error error

/-- Fails with the error unless the condition holds. -/
def ensure (condition : Prop) [Decidable condition] (error : ε) : Except ε Unit :=
  if condition then .ok () else .error error

theorem bind_eq_ok {x : Except ε α} {f : α → Except ε β} {b : β} :
    x >>= f = .ok b ↔ ∃ a, x = .ok a ∧ f a = .ok b := by
  cases x with
  | error e => simp [bind, Except.bind]
  | ok a => simp [bind, Except.bind]

theorem pure_eq_ok {a b : α} : (pure a : Except ε α) = .ok b ↔ a = b := by
  simp [pure, Except.pure]

theorem mapError_eq_ok {ε' : Type} {x : Except ε α} {f : ε → ε'} {a : α} :
    x.mapError f = .ok a ↔ x = .ok a := by
  cases x <;> simp [Except.mapError]

theorem require_eq_ok {value : Option α} {error : ε} {a : α} :
    require value error = .ok a ↔ value = some a := by
  cases value <;> simp [require]

theorem ensure_eq_ok {condition : Prop} [Decidable condition] {error : ε} {u : Unit} :
    ensure condition error = .ok u ↔ condition := by
  by_cases h : condition <;> simp [ensure, h]

theorem exists_ok_of_isOk {x : Except ε α} (h : x.isOk = true) : ∃ a, x = .ok a := by
  cases x with
  | ok a => exact ⟨a, rfl⟩
  | error e => cases h

end Checks

/-! ### Parts of a sequence -/

section Parts

variable {α : Type*}

/-- The source gives the values from a position on. -/
def Spells (next : ℕ → Option α) : ℕ → List α → Prop
  | _, [] => True
  | offset, value :: rest => next offset = some value ∧ Spells next (offset + 1) rest

variable {next : ℕ → Option α} {offset : ℕ} {values : List α}

theorem spells_append {first second : List α} :
    Spells next offset (first ++ second) ↔
      Spells next offset first ∧ Spells next (offset + first.length) second := by
  induction first generalizing offset with
  | nil => simp [Spells]
  | cons value rest ih =>
    simp only [List.cons_append, Spells, ih, List.length_cons, and_assoc]
    rw [show offset + 1 + rest.length = offset + (rest.length + 1) by omega]

theorem spells_iff : Spells next offset values ↔
    ∀ i (hi : i < values.length), next (offset + i) = some values[i] := by
  induction values generalizing offset with
  | nil => simp [Spells]
  | cons value rest ih =>
    rw [Spells, ih]
    constructor
    · rintro ⟨hvalue, hrest⟩ i hi
      cases i with
      | zero => exact hvalue
      | succ i =>
        rw [show offset + (i + 1) = offset + 1 + i by omega]
        exact hrest i (by simpa using hi)
    · intro h
      refine ⟨h 0 (by simp), fun i hi ↦ ?_⟩
      rw [show offset + 1 + i = offset + (i + 1) by omega]
      exact h (i + 1) (by simpa using hi)

/-- The values of a sequence by their positions. -/
def source (values : List α) (i : ℕ) : Option α := values[i]?

/-- The positions of a sequence below a limit. -/
def sourceBelow (values : List α) (limit i : ℕ) : Option α :=
  if limit ≤ i then none else values[i]?

/-- The values from one position up to another, clipped to the sequence. -/
def slice (values : List α) (start stop : ℕ) : List α := (values.take stop).drop start

variable {part : List α}

theorem length_slice (start stop : ℕ) :
    (slice values start stop).length = min stop values.length - start := by
  simp [slice]

theorem spells_slice (values : List α) (start stop : ℕ) :
    Spells (source values) start (slice values start stop) := by
  rw [spells_iff]
  intro i hi
  rw [length_slice] at hi
  simp only [source, slice, List.getElem_drop, List.getElem_take]
  exact List.getElem?_eq_getElem (by omega)

theorem Spells.slice_eq (h : Spells (source values) offset part) {stop : ℕ}
    (hstop : stop = offset + part.length) : slice values offset stop = part := by
  subst hstop
  rw [spells_iff] at h
  apply List.ext_getElem?
  intro i
  by_cases hi : i < part.length
  · have hvalue := h i hi
    simp only [source] at hvalue
    rw [List.getElem?_eq_getElem hi, ← hvalue, slice, List.getElem?_drop,
      List.getElem?_take_of_lt (by omega)]
  · rw [List.getElem?_eq_none (not_lt.mp hi), List.getElem?_eq_none]
    rw [length_slice]
    omega

theorem spells_self (values : List α) : Spells (source values) 0 values := by
  simpa [slice] using spells_slice values 0 values.length

theorem spells_sourceBelow {limit : ℕ} : Spells (sourceBelow values limit) offset part ↔
    Spells (source values) offset part ∧ (part = [] ∨ offset + part.length ≤ limit) := by
  by_cases hpart : part = []
  · simp [hpart, Spells]
  · have hpos := List.length_pos_iff.mpr hpart
    simp only [spells_iff, sourceBelow, source, hpart, false_or]
    constructor
    · intro h
      have hbelow : ∀ i (hi : i < part.length), ¬ limit ≤ offset + i := by
        intro i hi hlimit
        simpa [hlimit] using h i hi
      refine ⟨fun i hi ↦ by simpa [hbelow i hi] using h i hi, ?_⟩
      have := hbelow (part.length - 1) (by omega)
      omega
    · rintro ⟨h, hlimit⟩ i hi
      rw [if_neg (by omega)]
      exact h i hi

end Parts

/-! ### Big-endian numbers -/

/-- The number in so many bytes, the most significant first. -/
def bigEndian : ℕ → ℕ → Bytes
  | 0, _ => []
  | width + 1, n => UInt8.ofNat (n / 256 ^ width) :: bigEndian width n

/-- The number that the bytes write, the most significant first. -/
def bigEndianValue (bytes : Bytes) : ℕ := bytes.foldl (fun n byte ↦ n * 256 + byte.toNat) 0

@[simp] theorem length_bigEndian (width n : ℕ) : (bigEndian width n).length = width := by
  induction width with
  | zero => rfl
  | succ width ih => simp [bigEndian, ih]

theorem foldl_bigEndian (width n start : ℕ) :
    (bigEndian width n).foldl (fun n byte ↦ n * 256 + byte.toNat) start =
      start * 256 ^ width + n % 256 ^ width := by
  induction width generalizing start with
  | zero => simp [bigEndian, Nat.mod_one]
  | succ width ih =>
    rw [bigEndian, List.foldl_cons, ih, UInt8.toNat_ofNat', pow_succ 256 width, Nat.mod_mul]
    ring

theorem bigEndianValue_bigEndian {width n : ℕ} (hn : n < 256 ^ width) :
    bigEndianValue (bigEndian width n) = n := by
  rw [bigEndianValue, foldl_bigEndian, Nat.mod_eq_of_lt hn]
  omega

theorem foldl_bytes (bytes : Bytes) (start : ℕ) :
    bytes.foldl (fun n byte ↦ n * 256 + byte.toNat) start =
      start * 256 ^ bytes.length + bigEndianValue bytes := by
  induction bytes generalizing start with
  | nil => simp [bigEndianValue]
  | cons byte rest ih =>
    rw [bigEndianValue, List.foldl_cons, List.foldl_cons, ih, ih, List.length_cons, pow_succ]
    ring

theorem bigEndianValue_lt (bytes : Bytes) : bigEndianValue bytes < 256 ^ bytes.length := by
  induction bytes with
  | nil => simp [bigEndianValue]
  | cons byte rest ih =>
    have hbyte := byte.toNat_lt
    have hhigh : byte.toNat * 256 ^ rest.length ≤ 255 * 256 ^ rest.length :=
      Nat.mul_le_mul_right _ (by omega)
    rw [bigEndianValue, List.foldl_cons, foldl_bytes, List.length_cons, pow_succ, zero_mul,
      zero_add]
    omega

theorem bigEndian_add (width n k : ℕ) :
    bigEndian width (k * 256 ^ width + n) = bigEndian width n := by
  induction width generalizing k with
  | zero => rfl
  | succ width ih =>
    have hsplit : k * 256 ^ (width + 1) + n = k * 256 * 256 ^ width + n := by ring
    rw [bigEndian, bigEndian, hsplit, ih, Nat.add_comm, Nat.add_mul_div_right _ _ (by positivity)]
    congr 1
    rw [← UInt8.toNat_inj, UInt8.toNat_ofNat', UInt8.toNat_ofNat']
    omega

/-- Assumes: a number that fits into a part of the width. The rest is zeros. -/
theorem bigEndian_of_lt (k : ℕ) {width n : ℕ} (hn : n < 256 ^ width) :
    bigEndian (k + width) n = List.replicate k 0 ++ bigEndian width n := by
  induction k with
  | zero => simp
  | succ k ih =>
    have hle : 256 ^ width ≤ 256 ^ (k + width) := Nat.pow_le_pow_right (by decide) (by omega)
    rw [Nat.add_right_comm, bigEndian, ih, Nat.div_eq_of_lt (by omega), List.replicate_succ,
      List.cons_append]
    rfl

theorem bigEndian_eq_map_range (width n : ℕ) :
    bigEndian width n =
      (List.range width).map fun j ↦ UInt8.ofNat (n / 256 ^ (width - 1 - j)) := by
  induction width with
  | zero => rfl
  | succ width ih =>
    rw [bigEndian, ih, List.range_succ_eq_map, List.map_cons, List.map_map, Nat.add_sub_cancel,
      Nat.sub_zero]
    refine congrArg _ (List.map_congr_left fun j _ ↦ ?_)
    rw [Function.comp_apply, Nat.sub_sub, Nat.add_comm 1 j]

theorem bigEndian_bigEndianValue (bytes : Bytes) :
    bigEndian bytes.length (bigEndianValue bytes) = bytes := by
  induction bytes with
  | nil => rfl
  | cons byte rest ih =>
    have hvalue : bigEndianValue (byte :: rest) =
        byte.toNat * 256 ^ rest.length + bigEndianValue rest := by
      rw [bigEndianValue, List.foldl_cons, foldl_bytes]
      simp
    rw [List.length_cons, bigEndian, hvalue, bigEndian_add, ih, Nat.add_comm,
      Nat.add_mul_div_right _ _ (by positivity), Nat.div_eq_of_lt (bigEndianValue_lt rest),
        zero_add,
      UInt8.ofNat_toNat]

/-! ### ASCII text -/

/-- The text in ASCII, if it has no other characters. -/
def asciiEncode (text : Text) : Option Bytes :=
  if text.all fun c ↦ decide (c.toNat < 128) then some (text.map fun c ↦ UInt8.ofNat c.toNat)
  else none

/-- The character of a byte. -/
def charOf (byte : UInt8) : Char := Char.ofNat byte.toNat

def asciiDecode (bytes : Bytes) : Option Text :=
  if bytes.all fun b ↦ decide (b.toNat < 128) then some (bytes.map charOf) else none

theorem toNat_charOf (byte : UInt8) : (charOf byte).toNat = byte.toNat := by
  have h : ∀ k : Fin 256, (Char.ofNat k).toNat = k := by decide +kernel
  exact h ⟨byte.toNat, byte.toNat_lt⟩

theorem charOf_ofNat {c : Char} (hc : c.toNat < 128) : charOf (UInt8.ofNat c.toNat) = c := by
  rw [charOf, UInt8.toNat_ofNat', Nat.mod_eq_of_lt (by omega), Char.ofNat_toNat]

theorem charOf_injective : Function.Injective charOf := by
  intro a b h
  rw [← UInt8.toNat_inj, ← toNat_charOf, ← toNat_charOf, h]

/-- The two readings of ASCII are inverse to each other. -/
theorem asciiEncode_eq_some_iff {text : Text} {bytes : Bytes} :
    asciiEncode text = some bytes ↔ (∀ b ∈ bytes, b.toNat < 128) ∧ text = bytes.map charOf := by
  simp only [asciiEncode, List.all_eq_true, decide_eq_true_eq, Option.ite_none_right_eq_some,
    Option.some.injEq]
  constructor
  · rintro ⟨hascii, rfl⟩
    refine ⟨?_, ?_⟩
    · intro b hb
      obtain ⟨c, hc, rfl⟩ := List.mem_map.mp hb
      have := hascii c hc
      rw [UInt8.toNat_ofNat']
      omega
    · rw [List.map_map]
      exact ((List.map_congr_left fun c hc ↦ charOf_ofNat (hascii c hc)).trans
        (List.map_id' _)).symm
  · rintro ⟨hascii, rfl⟩
    refine ⟨?_, ?_⟩
    · intro c hc
      obtain ⟨b, hb, rfl⟩ := List.mem_map.mp hc
      rw [toNat_charOf]
      exact hascii b hb
    · simp [List.map_map, Function.comp_def, toNat_charOf]

theorem asciiDecode_eq_some_iff {text : Text} {bytes : Bytes} :
    asciiDecode bytes = some text ↔ (∀ b ∈ bytes, b.toNat < 128) ∧ text = bytes.map charOf := by
  simp only [asciiDecode, List.all_eq_true, decide_eq_true_eq, Option.ite_none_right_eq_some,
    Option.some.injEq]
  exact and_congr_right fun _ ↦ eq_comm

/-! ### Hexadecimal text -/

/-- The blanks that are skipped between the digits of two bytes. -/
def isBlank (c : Char) : Bool :=
  c = ' ' || c = '\t' || c = '\n' || c = '\x0b' || c = '\x0c' || c = '\r'

/-- The number a digit of either case stands for. -/
def digitValue (c : Char) : Option ℕ :=
  if '0'.toNat ≤ c.toNat ∧ c.toNat ≤ '9'.toNat then some (c.toNat - '0'.toNat)
  else if 'a'.toNat ≤ c.toNat ∧ c.toNat ≤ 'f'.toNat then some (c.toNat - 'a'.toNat + 10)
  else if 'A'.toNat ≤ c.toNat ∧ c.toNat ≤ 'F'.toNat then some (c.toNat - 'A'.toNat + 10)
  else none

/-- Two digits per byte, with blanks between bytes. -/
def hexDecode : Text → Option Bytes
  | [] => some []
  | c :: rest =>
    if isBlank c then hexDecode rest
    else
      match rest with
      | [] => none
      | d :: rest =>
        match digitValue c, digitValue d with
        | some high, some low => (hexDecode rest).map (UInt8.ofNat (high * 16 + low) :: ·)
        | _, _ => none

/-- A hexadecimal text as it is written: without blanks and in lower case. -/
def normalized (text : Text) : Text := (text.filter fun c ↦ !isBlank c).map Char.toLower

theorem digitValue_spec {c : Char} {n : ℕ} (h : digitValue c = some n) :
    n < 16 ∧ hexDigit n = c.toLower ∧ isBlank c = false := by
  have hsmall : c.toNat < 128 := by
    simp only [digitValue, Char.reduceToNat] at h
    split_ifs at h <;> omega
  have hall : ∀ k : Fin 128, (digitValue (Char.ofNat k)).all fun n ↦
      decide (n < 16) && (hexDigit n == (Char.ofNat k).toLower) && !isBlank (Char.ofNat k) := by
    decide +kernel
  have hc := hall ⟨c.toNat, hsmall⟩
  rw [Char.ofNat_toNat, h] at hc
  simpa [and_assoc] using hc

theorem digitValue_hexDigit {n : ℕ} (hn : n < 16) :
    digitValue (hexDigit n) = some n ∧ isBlank (hexDigit n) = false := by
  have h : ∀ k : Fin 16, digitValue (hexDigit k) = some k.val ∧ isBlank (hexDigit k) = false := by
    decide +kernel
  exact h ⟨n, hn⟩

theorem mem_hexEncode {bytes : Bytes} {c : Char} (h : c ∈ hexEncode bytes) :
    ∃ n : Fin 16, c = hexDigit n := by
  obtain ⟨b, -, hc⟩ := List.mem_flatMap.mp h
  have hb := b.toNat_lt
  simp only [List.mem_cons, List.not_mem_nil, or_false] at hc
  rcases hc with rfl | rfl
  · exact ⟨⟨b.toNat / 16, by omega⟩, rfl⟩
  · exact ⟨⟨b.toNat % 16, by omega⟩, rfl⟩

theorem hexDecode_hexEncode (bytes : Bytes) : hexDecode (hexEncode bytes) = some bytes := by
  induction bytes with
  | nil => rfl
  | cons byte rest ih =>
    have hbyte := byte.toNat_lt
    obtain ⟨hhigh, hblank⟩ := digitValue_hexDigit (n := byte.toNat / 16) (by omega)
    obtain ⟨hlow, -⟩ := digitValue_hexDigit (n := byte.toNat % 16) (by omega)
    have hcons : hexEncode (byte :: rest) =
        hexDigit (byte.toNat / 16) :: hexDigit (byte.toNat % 16) :: hexEncode rest := rfl
    have hwhole : UInt8.ofNat (byte.toNat / 16 * 16 + byte.toNat % 16) = byte := by
      rw [Nat.div_add_mod' byte.toNat 16, UInt8.ofNat_toNat]
    rw [hcons, hexDecode, hblank]
    simp [hhigh, hlow, ih, hwhole]

/-- What is read is written without blanks and in lower case. -/
theorem hexEncode_of_hexDecode {text : Text} {bytes : Bytes} (h : hexDecode text = some bytes) :
    hexEncode bytes = normalized text := by
  fun_induction hexDecode text generalizing bytes with
  | case1 =>
    obtain rfl := Option.some.inj h
    rfl
  | case2 c rest hblank ih => simpa [normalized, hblank] using ih h
  | case3 c hblank => simp at h
  | case4 c hblank d rest high low hlow hhigh ih =>
    obtain ⟨tail, htail, rfl⟩ := Option.map_eq_some_iff.mp h
    obtain ⟨hhigh16, hhighDigit, -⟩ := digitValue_spec hhigh
    obtain ⟨hlow16, hlowDigit, hlowBlank⟩ := digitValue_spec hlow
    have hvalue : (UInt8.ofNat (high * 16 + low)).toNat = high * 16 + low := by
      rw [UInt8.toNat_ofNat']
      omega
    have hcons : hexEncode (UInt8.ofNat (high * 16 + low) :: tail) =
        hexDigit high :: hexDigit low :: hexEncode tail := by
      simp only [hexEncode, List.flatMap_cons, hvalue, List.cons_append, List.nil_append]
      rw [show (high * 16 + low) / 16 = high by omega, show (high * 16 + low) % 16 = low by omega]
    rw [hcons, ih htail, hhighDigit, hlowDigit]
    simp [normalized, hblank, hlowBlank]
  | case5 => simp at h

end QortalRelay.Foundation.Binary
