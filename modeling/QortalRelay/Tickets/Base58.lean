import QortalRelay.Foundation.Positional
import QortalRelay.Tickets.Requests

/-!
# Base58

Account keys, signatures and addresses are written in Base58: the bytes are the digits of a number
in base 256, and the text is the same number in base 58 with one character `1` for every leading
zero byte. Encoder and decoder are the change of base of the positional notation, in its two
directions (`encodeBase58_eq`, `decodeBase58_eq_some_iff`), so the text determines the bytes and the
bytes the text (`base58_round_trips`).
-/

set_option autoImplicit false
set_option relaxedAutoImplicit false

namespace QortalRelay.Tickets

open Foundation.Encoding Foundation.Positional

/-! ### The alphabet -/

/-- The character of a digit. -/
def base58Char (digit : ℕ) : Char := base58Alphabet.getD digit '1'

theorem idxOf_base58Char {digit : ℕ} (h : digit < 58) :
    base58Alphabet.idxOf? (base58Char digit) = some digit := by
  have hall : ∀ d : Fin 58, base58Alphabet.idxOf? (base58Char d) = some d.val := by decide
  exact hall ⟨digit, h⟩

theorem base58Char_idxOf {c : Char} {digit : ℕ} (h : base58Alphabet.idxOf? c = some digit) :
    digit < 58 ∧ base58Char digit = c := by
  rw [List.idxOf?, List.findIdx?_eq_some_iff_getElem] at h
  obtain ⟨hlt, heq, -⟩ := h
  refine ⟨hlt, ?_⟩
  simpa [base58Char, hlt] using heq

theorem base58Char_ascii (digit : ℕ) : (base58Char digit).toNat ≤ 127 := by
  by_cases h : digit < 58
  · have hall : ∀ d : Fin 58, (base58Char d).toNat ≤ 127 := by decide
    exact hall ⟨digit, h⟩
  · have hnone : base58Alphabet[digit]? = none := List.getElem?_eq_none (not_lt.mp h)
    rw [base58Char, List.getD_eq_getElem?_getD, hnone]
    decide

theorem base58Char_eq_one_iff {digit : ℕ} (h : digit < 58) :
    base58Char digit = '1' ↔ digit = 0 := by
  constructor
  · intro heq
    have hindex := idxOf_base58Char h
    rw [heq, show base58Alphabet.idxOf? '1' = some 0 from by decide, Option.some.injEq] at hindex
    exact hindex.symm
  · rintro rfl
    rfl

/-- The loop over the characters reads a text that stands for digits, and no other. -/
theorem base58Value_eq_some_iff {text : Text} {n : ℕ} :
    base58Value text = some n ↔
      ∃ digits, (∀ d ∈ digits, d < 58) ∧ text = digits.map base58Char ∧ n = value 58 digits := by
  induction text using List.reverseRecOn generalizing n with
  | nil =>
    constructor
    · intro h
      exact ⟨[], List.forall_mem_nil _, rfl, (Option.some.inj h).symm⟩
    · rintro ⟨digits, -, htext, rfl⟩
      obtain rfl := List.map_eq_nil_iff.mp htext.symm
      rfl
  | append_singleton text c ih =>
    have hsnoc : base58Value (text ++ [c]) =
        (base58Value text).bind fun n ↦ (base58Alphabet.idxOf? c).map (58 * n + ·) := by
      simp [base58Value, List.foldlM_append]
    rw [hsnoc, Option.bind_eq_some_iff]
    constructor
    · rintro ⟨m, hm, hlast⟩
      obtain ⟨digit, hdigit, rfl⟩ := Option.map_eq_some_iff.mp hlast
      obtain ⟨digits, hlt, rfl, rfl⟩ := ih.mp hm
      obtain ⟨hdigitlt, rfl⟩ := base58Char_idxOf hdigit
      refine ⟨digits ++ [digit], ?_, by simp, by simp [value]⟩
      rw [List.forall_mem_append, List.forall_mem_singleton]
      exact ⟨hlt, hdigitlt⟩
    · rintro ⟨digits, hlt, htext, rfl⟩
      obtain ⟨init, last, rfl, hinit, hlast⟩ := List.append_eq_map_iff.mp htext
      obtain ⟨digit, rfl, rfl⟩ : ∃ digit, last = [digit] ∧ base58Char digit = c := by
        simpa using hlast
      rw [List.forall_mem_append, List.forall_mem_singleton] at hlt
      refine ⟨value 58 init, ih.mpr ⟨init, hlt.1, hinit.symm, rfl⟩, ?_⟩
      rw [idxOf_base58Char hlt.2]
      simp [value]

/-! ### Bytes as digits -/

/-- The bytes as digits in base 256. -/
def byteDigits (bytes : Bytes) : List ℕ := bytes.map UInt8.toNat

theorem byteDigits_lt (bytes : Bytes) : ∀ d ∈ byteDigits bytes, d < 256 := by
  intro d hd
  obtain ⟨byte, -, rfl⟩ := List.mem_map.mp hd
  exact byte.toNat_lt

theorem ofNat_byteDigits (bytes : Bytes) : (byteDigits bytes).map UInt8.ofNat = bytes := by
  simp [byteDigits, Function.comp_def]

theorem byteDigits_ofNat {digits : List ℕ} (h : ∀ d ∈ digits, d < 256) :
    byteDigits (digits.map UInt8.ofNat) = digits := by
  rw [byteDigits, List.map_map]
  exact (List.map_congr_left fun d hd ↦ UInt8.toNat_ofNat_of_lt' (h d hd)).trans (List.map_id _)

theorem value_byteDigits (bytes : Bytes) : value 256 (byteDigits bytes) = bigEndianValue bytes := by
  rw [value, byteDigits, List.foldl_map, bigEndianValue]

theorem leadingZeros_byteDigits (bytes : Bytes) :
    leadingZeros (byteDigits bytes) = (bytes.takeWhile (· == 0)).length := by
  have hzero : ((· == 0) ∘ UInt8.toNat : UInt8 → Bool) = (· == 0) := by
    funext byte
    rw [Function.comp_apply, Bool.eq_iff_iff, beq_iff_eq, beq_iff_eq, ← UInt8.toNat_inj]
    rfl
  rw [leadingZeros, byteDigits, List.takeWhile_map, List.length_map, hzero]

theorem length_takeWhile_one {digits : List ℕ} (h : ∀ d ∈ digits, d < 58) :
    ((digits.map base58Char).takeWhile (· == '1')).length = leadingZeros digits := by
  induction digits with
  | nil => rfl
  | cons digit rest ih =>
    rw [List.forall_mem_cons] at h
    by_cases hzero : digit = 0
    · subst hzero
      have hone : base58Char 0 = '1' := rfl
      simpa [leadingZeros, hone] using ih h.2
    · have hone : base58Char digit ≠ '1' := fun heq ↦ hzero ((base58Char_eq_one_iff h.1).mp heq)
      simp [leadingZeros, hone, hzero]

/-! ### Encoder and decoder -/

theorem encodeBase58_eq (bytes : Bytes) :
    encodeBase58 bytes = (rebase 256 58 (byteDigits bytes)).map base58Char := by
  rw [rebase, List.map_append, List.map_replicate, leadingZeros_byteDigits, value_byteDigits,
    expand,
    List.map_reverse]
  rfl

theorem length_utf8_base58 (digits : List ℕ) :
    (utf8 (digits.map base58Char)).length = digits.length := by
  rw [utf8_of_isAscii, List.length_map, List.length_map]
  intro c hc
  obtain ⟨digit, -, rfl⟩ := List.mem_map.mp hc
  exact base58Char_ascii digit

/-- The decoder accepts the texts of at most 100 digits whose bytes have the size it is given. -/
theorem decodeBase58_eq_some_iff {text : Text} {size : ℕ} {bytes : Bytes} :
    decodeBase58 text size = some bytes ↔
      ∃ digits, (∀ d ∈ digits, d < 58) ∧ text = digits.map base58Char ∧ digits ≠ [] ∧
        digits.length ≤ 100 ∧ byteDigits bytes = rebase 58 256 digits ∧ bytes.length = size := by
  have hbytes {digits : List ℕ} (h : ∀ d ∈ digits, d < 58) :
      List.replicate ((digits.map base58Char).takeWhile (· == '1')).length 0 ++
        bigEndian (value 58 digits) = (rebase 58 256 digits).map UInt8.ofNat := by
    rw [length_takeWhile_one h, rebase, List.map_append, List.map_replicate, expand]
    rfl
  constructor
  · intro h
    unfold decodeBase58 at h
    split_ifs at h with hsize
    obtain ⟨n, hn, hrest⟩ := Option.bind_eq_some_iff.mp h
    obtain ⟨digits, hlt, rfl, rfl⟩ := base58Value_eq_some_iff.mp hn
    dsimp only at hrest
    split_ifs at hrest with hlength
    obtain rfl := Option.some.inj hrest
    rw [length_utf8_base58, not_or, not_lt, List.map_eq_nil_iff] at hsize
    refine ⟨digits, hlt, rfl, hsize.2, hsize.1, ?_, not_not.mp hlength⟩
    rw [hbytes hlt, byteDigits_ofNat fun d ↦ lt_of_mem_rebase (by norm_num)]
  · rintro ⟨digits, hlt, rfl, hne, hlength, hdigits, rfl⟩
    have hsize : ¬ (100 < (utf8 (digits.map base58Char)).length ∨ digits.map base58Char = []) := by
      rw [length_utf8_base58, not_or, not_lt, List.map_eq_nil_iff]
      exact ⟨hlength, hne⟩
    have hvalue : base58Value (digits.map base58Char) = some (value 58 digits) :=
      base58Value_eq_some_iff.mpr ⟨digits, hlt, rfl, rfl⟩
    have heq : (rebase 58 256 digits).map UInt8.ofNat = bytes := by
      rw [← hdigits, ofNat_byteDigits]
    rw [decodeBase58, if_neg hsize, hvalue]
    simp only [Option.bind_eq_bind, Option.bind_some, hbytes hlt, heq]
    rw [if_neg (not_not.mpr rfl)]

/-- What the encoder writes, in at most 100 characters, is read back; up to 64 bytes never take
more; and a text is only accepted for bytes that are written so. -/
theorem base58_round_trips :
    (∀ bytes, bytes ≠ [] → (encodeBase58 bytes).length ≤ 100 →
      decodeBase58 (encodeBase58 bytes) bytes.length = some bytes) ∧
    (∀ bytes, bytes.length ≤ 64 → (encodeBase58 bytes).length ≤ 100) ∧
    ∀ text size bytes, decodeBase58 text size = some bytes → encodeBase58 bytes = text := by
  refine ⟨fun bytes hne hlength ↦ ?_, fun bytes hsize ↦ ?_, fun text size bytes h ↦ ?_⟩
  · have hdigits : byteDigits bytes ≠ [] := by simpa [byteDigits] using hne
    rw [encodeBase58_eq, List.length_map] at hlength
    refine decodeBase58_eq_some_iff.mpr ⟨rebase 256 58 (byteDigits bytes), ?_,
      encodeBase58_eq bytes,
      rebase_ne_nil (by norm_num) (byteDigits_lt bytes) hdigits, hlength, ?_, rfl⟩
    · exact fun d ↦ lt_of_mem_rebase (by norm_num)
    · exact (rebase_rebase (by norm_num) (byteDigits_lt bytes)).symm
  · have hpow : 256 ^ 2 ≤ 58 ^ 3 := by norm_num
    have hlength := length_rebase_le (by norm_num) (by norm_num) hpow (byteDigits_lt bytes)
    have hbytes : (byteDigits bytes).length = bytes.length := List.length_map _
    rw [encodeBase58_eq, List.length_map]
    omega
  · obtain ⟨digits, hlt, rfl, -, -, hdigits, -⟩ := decodeBase58_eq_some_iff.mp h
    rw [encodeBase58_eq, hdigits, rebase_rebase (by norm_num) hlt]

end QortalRelay.Tickets
