import Mathlib.Data.List.DropRight
import QortalRelay.Foundation.Decimal
import QortalRelay.Foundation.Encoding

/-!
# Reading URLs

A reader of URLs in the manner of a standard library: the text is cut at the first `#`, then the
scheme is taken off, then the rest is cut at the first `?`, then the authority is taken off, and
what is left is the path, in which escaped bytes are decoded. How an authority is read is left open
(`AuthorityReader`). An empty query or fragment is reported like a missing one, so a text read
without a query and a fragment may still end in `?` or `#` (`getLast?_of_read`). A text without
these characters and with a host is put together from its parts (`exists_parts`), and any parts are
read back (`Parts.read_text`).
-/

set_option autoImplicit false
set_option relaxedAutoImplicit false

namespace QortalRelay.Foundation.Uri

open Decimal Encoding

/-! ### Cutting -/

section Cut

variable {separator : Char} {text : Text}

/-- What stands before the first separator, and what stands after it. -/
def cut (separator : Char) (text : Text) : Text × Text :=
  (text.takeWhile (· ≠ separator), (text.dropWhile (· ≠ separator)).tail)

theorem cut_cons_self (rest : Text) : cut separator (separator :: rest) = ([], rest) := by
  simp [cut]

theorem cut_cons_of_ne {c : Char} (h : c ≠ separator) (rest : Text) :
    cut separator (c :: rest) = (c :: (cut separator rest).1, (cut separator rest).2) := by
  simp [cut, h]

theorem cut_of_not_mem (h : separator ∉ text) : cut separator text = (text, []) := by
  induction text with
  | nil => rfl
  | cons c rest ih =>
    rw [List.mem_cons, not_or] at h
    rw [cut_cons_of_ne (Ne.symm h.1), ih h.2]

theorem cut_append_of_not_mem (h : separator ∉ text) (more : Text) :
    (cut separator (text ++ more)).2 = (cut separator more).2 := by
  induction text with
  | nil => rfl
  | cons c rest ih =>
    rw [List.mem_cons, not_or] at h
    rw [List.cons_append, cut_cons_of_ne (Ne.symm h.1), ih h.2]

theorem cut_append_of_mem (h : separator ∈ text) (more : Text) :
    (cut separator (text ++ more)).2 = (cut separator text).2 ++ more := by
  induction text with
  | nil => exact absurd h List.not_mem_nil
  | cons c rest ih =>
    by_cases hc : c = separator
    · subst hc
      rw [List.cons_append, cut_cons_self, cut_cons_self]
    · have hrest : separator ∈ rest := (List.mem_cons.mp h).resolve_left (Ne.symm hc)
      rw [List.cons_append, cut_cons_of_ne hc, cut_cons_of_ne hc, ih hrest]

/-- Where nothing follows the first separator, the separator is the last character. -/
theorem getLast?_of_cut (h : (cut separator text).2 = []) (hmem : separator ∈ text) :
    text.getLast? = some separator := by
  induction text with
  | nil => exact absurd hmem List.not_mem_nil
  | cons c rest ih =>
    by_cases hc : c = separator
    · subst hc
      rw [cut_cons_self] at h
      rw [show rest = [] from h, List.getLast?_singleton]
    · have hrest : separator ∈ rest := (List.mem_cons.mp hmem).resolve_left (Ne.symm hc)
      rw [cut_cons_of_ne hc] at h
      rw [List.getLast?_cons, ih h hrest, Option.getD_some]

end Cut

/-! ### Trailing copies of one element -/

section Trim

variable {α : Type*} [DecidableEq α] {a : α}

theorem rdropWhile_append_replicate (l : List α) (n : ℕ) :
    (l ++ List.replicate n a).rdropWhile (· = a) = l.rdropWhile (· = a) := by
  induction n with
  | zero => rw [List.replicate_zero, List.append_nil]
  | succ n ih =>
    rw [List.replicate_succ', ← List.append_assoc, List.rdropWhile_concat,
      if_pos (decide_eq_true rfl), ih]

theorem exists_eq_rdropWhile_append (a : α) (l : List α) :
    ∃ n, l = l.rdropWhile (· = a) ++ List.replicate n a := by
  have htail : l.rtakeWhile (· = a) = List.replicate (l.rtakeWhile (· = a)).length a := by
    refine List.eq_replicate_of_mem fun b hb ↦ ?_
    have hdecide := List.mem_rtakeWhile_imp hb
    exact of_decide_eq_true hdecide
  refine ⟨(l.rtakeWhile (· = a)).length, ?_⟩
  rw [← htail, List.rdropWhile_append_rtakeWhile]

theorem rdropWhile_eq_self_iff {l : List α} :
    l.rdropWhile (· = a) = l ↔ l.getLast? ≠ some a := by
  induction l using List.reverseRecOn with
  | nil => simp
  | append_singleton l b _ => simp

theorem rdropWhile_append {lead : List α} {b : α} (hlead : lead.getLast? = some b) (hb : b ≠ a)
    (l : List α) : (lead ++ l).rdropWhile (· = a) = lead ++ l.rdropWhile (· = a) := by
  induction l using List.reverseRecOn with
  | nil =>
    rw [List.append_nil, List.rdropWhile_nil, List.append_nil, rdropWhile_eq_self_iff, hlead]
    exact fun h ↦ hb (Option.some.inj h)
  | append_singleton l c ih =>
    rw [← List.append_assoc, List.rdropWhile_concat, List.rdropWhile_concat]
    by_cases hc : decide (c = a) = true
    · rw [if_pos hc, if_pos hc, ih]
    · rw [if_neg hc, if_neg hc, List.append_assoc]

end Trim

/-! ### Escaped bytes -/

def isHex (byte : UInt8) : Bool :=
  (48 ≤ byte.toNat && byte.toNat ≤ 57) || (97 ≤ byte.toNat && byte.toNat ≤ 102) ||
    (65 ≤ byte.toNat && byte.toNat ≤ 70)

def unhex (byte : UInt8) : ℕ :=
  if byte.toNat ≤ 57 then byte.toNat - 48
  else if 97 ≤ byte.toNat then byte.toNat - 97 + 10 else byte.toNat - 65 + 10

/-- The bytes of a path, with the escaped ones decoded. -/
def unescapePath : Bytes → Option Bytes
  | [] => some []
  | byte :: rest =>
    if byte = 0x25 then
      match rest with
      | high :: low :: rest =>
        if isHex high && isHex low then
          (unescapePath rest).map fun decoded ↦
            UInt8.ofNat (16 * unhex high + unhex low) :: decoded
        else none
      | _ => none
    else (unescapePath rest).map (byte :: ·)

/-- Both ways of writing an escaped slash. -/
def escapedSlashes : List Bytes := [[0x25, 0x32, 0x46], [0x25, 0x32, 0x66]]

theorem unescapePath_cons_of_ne {byte : UInt8} (h : byte ≠ 0x25) (rest : Bytes) :
    unescapePath (byte :: rest) = (unescapePath rest).map (byte :: ·) := by
  conv_lhs => unfold unescapePath
  rw [if_neg h]

theorem unescapePath_escape {high low : UInt8} (hhigh : isHex high = true)
    (hlow : isHex low = true) (rest : Bytes) :
    unescapePath (0x25 :: high :: low :: rest) =
      (unescapePath rest).map (UInt8.ofNat (16 * unhex high + unhex low) :: ·) := by
  rw [unescapePath.eq_2, if_pos rfl]
  simp only [hhigh, hlow, Bool.and_self, if_true]

/-- How a run of bytes that can be decoded is put together. -/
inductive Decodes : Bytes → Bytes → Prop
  | nil : Decodes [] []
  | plain {byte : UInt8} {rest decoded : Bytes} (hbyte : byte ≠ 0x25)
      (hrest : Decodes rest decoded) : Decodes (byte :: rest) (byte :: decoded)
  | escape {high low : UInt8} {rest decoded : Bytes} (hhigh : isHex high = true)
      (hlow : isHex low = true) (hrest : Decodes rest decoded) :
      Decodes (0x25 :: high :: low :: rest)
        (UInt8.ofNat (16 * unhex high + unhex low) :: decoded)

theorem decodes_iff {bytes decoded : Bytes} :
    Decodes bytes decoded ↔ unescapePath bytes = some decoded := by
  constructor
  · intro h
    induction h with
    | nil => rfl
    | plain hbyte hrest ih => rw [unescapePath_cons_of_ne hbyte, ih, Option.map_some]
    | escape hhigh hlow hrest ih => rw [unescapePath_escape hhigh hlow, ih, Option.map_some]
  · intro h
    fun_induction unescapePath bytes generalizing decoded with
    | case1 =>
      obtain rfl := Option.some.inj h
      exact .nil
    | case2 high low rest hhex ih =>
      obtain ⟨decoded, hrest, rfl⟩ := Option.map_eq_some_iff.mp h
      rw [Bool.and_eq_true] at hhex
      exact .escape hhex.1 hhex.2 (ih hrest)
    | case3 => exact absurd h (by simp)
    | case4 => exact absurd h (by simp)
    | case5 byte rest hbyte ih =>
      obtain ⟨decoded, hrest, rfl⟩ := Option.map_eq_some_iff.mp h
      exact .plain hbyte (ih hrest)

theorem Decodes.append {first decoded second other : Bytes} (h : Decodes first decoded)
    (hsecond : Decodes second other) : Decodes (first ++ second) (decoded ++ other) := by
  induction h with
  | nil => exact hsecond
  | plain hbyte hrest ih => exact .plain hbyte ih
  | escape hhigh hlow hrest ih => exact .escape hhigh hlow ih

/-- Without an escape, the bytes stand for themselves. -/
theorem decodes_self {bytes : Bytes} (h : 0x25 ∉ bytes) : Decodes bytes bytes := by
  induction bytes with
  | nil => exact .nil
  | cons byte rest ih =>
    rw [List.mem_cons, not_or] at h
    exact .plain (Ne.symm h.1) (ih h.2)

theorem Decodes.unique {bytes decoded other : Bytes} (h : Decodes bytes decoded)
    (hother : Decodes bytes other) : decoded = other :=
  Option.some.inj ((decodes_iff.mp h).symm.trans (decodes_iff.mp hother))

/-- A run of bytes that no escape can reach into can be taken off the end.
Assumes: no byte of the run is a hexadecimal digit or begins an escape. -/
theorem Decodes.of_append {first second decoded : Bytes} (h : Decodes (first ++ second) decoded)
    (hsecond : ∀ byte ∈ second, isHex byte = false ∧ byte ≠ 0x25) :
    ∃ lead, Decodes first lead ∧ decoded = lead ++ second := by
  have hself : Decodes second second := decodes_self fun hmem ↦ (hsecond _ hmem).2 rfl
  have hnot {byte : UInt8} {rest : Bytes} (heq : second = byte :: rest) : isHex byte ≠ true := by
    rw [(hsecond byte (heq ▸ List.mem_cons_self)).1]
    exact Bool.false_ne_true
  generalize hbytes : first ++ second = bytes at h
  induction h generalizing first with
  | nil =>
    obtain ⟨rfl, rfl⟩ := List.append_eq_nil_iff.mp hbytes
    exact ⟨[], .nil, rfl⟩
  | @plain byte rest decoded hbyte hrest ih =>
    cases first with
    | nil =>
      have hall : Decodes second (byte :: decoded) := by
        rw [show second = byte :: rest from hbytes]
        exact .plain hbyte hrest
      exact ⟨[], .nil, hall.unique hself⟩
    | cons b first =>
      obtain ⟨rfl, htail⟩ := List.cons.inj hbytes
      obtain ⟨lead, hlead, rfl⟩ := ih htail
      exact ⟨b :: lead, .plain hbyte hlead, rfl⟩
  | @escape high low rest decoded hhigh hlow hrest ih =>
    -- The run begins before the escape or after it; within it, it would begin with a digit.
    match first with
    | [] => exact absurd rfl (hsecond 0x25 (by simp_all)).2
    | [_] => exact absurd hhigh (hnot (List.cons.inj hbytes).2)
    | [_, _] => exact absurd hlow (hnot (List.cons.inj (List.cons.inj hbytes).2).2)
    | _ :: _ :: _ :: first =>
      simp only [List.cons_append, List.cons.injEq] at hbytes
      obtain ⟨rfl, rfl, rfl, hbytes⟩ := hbytes
      obtain ⟨lead, hlead, rfl⟩ := ih hbytes
      exact ⟨_ :: lead, .escape hhigh hlow hlead, rfl⟩

theorem unhex_eq_slash {high low : UInt8} (hhigh : isHex high = true) (hlow : isHex low = true) :
    UInt8.ofNat (16 * unhex high + unhex low) = 0x2f ↔
      [0x25, high, low] ∈ escapedSlashes := by
  have hlt : 16 * unhex high + unhex low < 256 := by
    simp only [isHex, Bool.or_eq_true, Bool.and_eq_true, decide_eq_true_eq] at hhigh hlow
    simp only [unhex]
    split_ifs <;> omega
  have hvalue : UInt8.ofNat (16 * unhex high + unhex low) = 0x2f ↔
      16 * unhex high + unhex low = 47 := by
    rw [← UInt8.toNat_inj, UInt8.toNat_ofNat_of_lt' hlt]
    rfl
  rw [hvalue]
  simp only [escapedSlashes, List.mem_cons, List.not_mem_nil, List.cons.injEq, true_and, and_true,
    or_false, ← UInt8.toNat_inj]
  simp only [isHex, Bool.or_eq_true, Bool.and_eq_true, decide_eq_true_eq] at hhigh hlow
  simp only [unhex, UInt8.toNat_ofNat]
  split_ifs <;> omega

theorem Decodes.eq_nil_iff {bytes decoded : Bytes} (h : Decodes bytes decoded) :
    decoded = [] ↔ bytes = [] := by
  cases h <;> simp

theorem length_of_mem_escapedSlashes {slash : Bytes} (h : slash ∈ escapedSlashes) :
    slash.length = 3 := by
  simp only [escapedSlashes, List.mem_cons, List.not_mem_nil, or_false] at h
  rcases h with rfl | rfl <;> rfl

/-- An escaped slash begins with the byte that begins every escape. -/
theorem suffix_cons_iff_of_ne {slash rest : Bytes} {byte : UInt8}
    (hslash : slash ∈ escapedSlashes) (hbyte : byte ≠ 0x25) :
    slash <:+ byte :: rest ↔ slash <:+ rest := by
  have hhead : ∃ tail, slash = 0x25 :: tail := by
    simp only [escapedSlashes, List.mem_cons, List.not_mem_nil, or_false] at hslash
    rcases hslash with rfl | rfl <;> exact ⟨_, rfl⟩
  obtain ⟨tail, rfl⟩ := hhead
  rw [List.suffix_cons_iff, List.cons.injEq, or_iff_right]
  exact fun h ↦ hbyte h.1.symm

/-- The decoded bytes end in a slash exactly if the bytes end in an escaped one.
Assumes: the bytes do not end in a slash of their own. -/
theorem Decodes.getLast?_eq_slash {bytes decoded : Bytes} (h : Decodes bytes decoded)
    (hlast : bytes.getLast? ≠ some 0x2f) :
    decoded.getLast? = some 0x2f ↔ ∃ slash ∈ escapedSlashes, slash <:+ bytes := by
  -- What stands before the last byte or escape has no part in it.
  have hcons {byte : UInt8} {rest : Bytes} (hne : rest ≠ []) :
      (byte :: rest).getLast? = rest.getLast? := by
    obtain ⟨b, rest, rfl⟩ := List.exists_cons_of_ne_nil hne
    exact List.getLast?_cons_cons
  have hpercent {byte : UInt8} (hbyte : isHex byte = true) : byte ≠ 0x25 := by
    rintro rfl
    exact absurd hbyte (by decide)
  induction h with
  | nil => simp [escapedSlashes]
  | @plain byte rest decoded hbyte hrest ih =>
    have hsuffix : (∃ slash ∈ escapedSlashes, slash <:+ byte :: rest) ↔
        ∃ slash ∈ escapedSlashes, slash <:+ rest :=
      exists_congr fun slash ↦ and_congr_right fun hslash ↦
        suffix_cons_iff_of_ne hslash hbyte
    rw [hsuffix]
    by_cases hnil : rest = []
    · obtain rfl := hrest.eq_nil_iff.mpr hnil
      subst hnil
      simp_all [escapedSlashes]
    · rw [hcons hnil] at hlast
      rw [hcons (mt hrest.eq_nil_iff.mp hnil)]
      exact ih hlast
  | @escape high low rest decoded hhigh hlow hrest ih =>
    have hsuffix : (∃ slash ∈ escapedSlashes, slash <:+ 0x25 :: high :: low :: rest) ↔
        (rest = [] ∧ [0x25, high, low] ∈ escapedSlashes) ∨
          ∃ slash ∈ escapedSlashes, slash <:+ rest := by
      constructor
      · rintro ⟨slash, hslash, hend⟩
        rcases List.suffix_cons_iff.mp hend with rfl | hend
        · have hlength := length_of_mem_escapedSlashes hslash
          obtain rfl : rest = [] := by simpa using hlength
          exact Or.inl ⟨rfl, hslash⟩
        · rw [suffix_cons_iff_of_ne hslash (hpercent hhigh),
            suffix_cons_iff_of_ne hslash (hpercent hlow)] at hend
          exact Or.inr ⟨slash, hslash, hend⟩
      · rintro (⟨rfl, hslash⟩ | ⟨slash, hslash, hend⟩)
        · exact ⟨_, hslash, List.suffix_refl _⟩
        · exact ⟨slash, hslash, hend.trans (List.suffix_append [0x25, high, low] rest)⟩
    rw [hsuffix]
    by_cases hnil : rest = []
    · obtain rfl := hrest.eq_nil_iff.mpr hnil
      subst hnil
      rw [List.getLast?_singleton, Option.some.injEq, unhex_eq_slash hhigh hlow]
      simp [escapedSlashes]
    · rw [hcons (by simp), hcons (by simp), hcons hnil] at hlast
      rw [hcons (mt hrest.eq_nil_iff.mp hnil), or_iff_right fun h ↦ hnil h.1]
      exact ih hlast

/-- Text without an escape. -/
theorem decodes_utf8 {text : Text} (h : '%' ∉ text) : Decodes (utf8 text) (utf8 text) :=
  decodes_self fun hmem ↦ h (mem_of_mem_utf8 (by decide) hmem)

theorem utf8_replicate_slash (n : ℕ) : utf8 (List.replicate n '/') = List.replicate n 0x2f := by
  simp [utf8, List.flatMap_replicate, String.utf8EncodeChar]

/-! ### Schemes -/

def isSchemeSign (c : Char) : Bool := c.isDigit || c = '+' || c = '-' || c = '.'

/-- The characters of a scheme, up to the colon that ends it. A text that turns out to have no
scheme is given back whole, with an empty scheme; a colon at the very beginning is an error. -/
def schemeLoop (whole seen : Text) : Text → Option (Text × Text)
  | [] => some ([], whole)
  | c :: rest =>
    if c.isAlpha then schemeLoop whole (seen ++ [c]) rest
    else if isSchemeSign c then
      if seen = [] then some ([], whole) else schemeLoop whole (seen ++ [c]) rest
    else if c = ':' then if seen = [] then none else some (seen, rest)
    else some ([], whole)

/-- The scheme of a text, and what follows it. -/
def getScheme (text : Text) : Option (Text × Text) := schemeLoop text [] text

/-- What may follow the part of a scheme that has been seen. -/
def Continues (seen more : Text) : Prop :=
  (∀ c ∈ more, c.isAlpha = true ∨ isSchemeSign c = true) ∧
    (seen = [] → ∃ c rest, more = c :: rest ∧ c.isAlpha = true)

def IsScheme (written : Text) : Prop := Continues [] written

theorem schemeLoop_of_continues {whole seen more : Text} (h : Continues seen more) (rest : Text) :
    schemeLoop whole seen (more ++ ':' :: rest) = some (seen ++ more, rest) := by
  induction more generalizing seen with
  | nil =>
    have hseen : seen ≠ [] := by
      intro hnil
      obtain ⟨_, _, habsurd, -⟩ := h.2 hnil
      exact List.cons_ne_nil _ _ habsurd.symm
    have hcolon : schemeLoop whole seen (':' :: rest) =
        if seen = [] then none else some (seen, rest) :=
      rfl
    rw [List.nil_append, hcolon, if_neg hseen, List.append_nil]
  | cons c more ih =>
    have hrest : Continues (seen ++ [c]) more :=
      ⟨fun d hd ↦ h.1 d (List.mem_cons_of_mem _ hd), fun hnil ↦ absurd hnil (by simp)⟩
    rw [List.cons_append, schemeLoop]
    by_cases halpha : c.isAlpha = true
    · rw [if_pos halpha, ih hrest, List.append_assoc, List.singleton_append]
    · have hseen : seen ≠ [] := by
        intro hnil
        obtain ⟨d, _, hcons, hd⟩ := h.2 hnil
        exact halpha ((List.cons.inj hcons).1 ▸ hd)
      have hsign := (h.1 c List.mem_cons_self).resolve_left halpha
      rw [if_neg halpha, if_pos hsign, if_neg hseen, ih hrest, List.append_assoc,
        List.singleton_append]

/-- The loop finds no scheme, or one that the text begins with. -/
theorem schemeLoop_eq_some {whole seen text written rest : Text}
    (h : schemeLoop whole seen text = some (written, rest)) :
    (written = [] ∧ rest = whole) ∨
      ∃ more, Continues seen more ∧ written = seen ++ more ∧ text = more ++ ':' :: rest := by
  have hnone (h : some (([] : Text), whole) = some (written, rest)) :
      written = [] ∧ rest = whole := by
    obtain ⟨hwritten, hrest⟩ := Prod.mk.inj (Option.some.inj h)
    exact ⟨hwritten.symm, hrest.symm⟩
  induction text generalizing seen with
  | nil => exact Or.inl (hnone h)
  | cons c text ih =>
    -- A character that belongs to the scheme moves from the text to what has been seen.
    have hstep (hc : c.isAlpha = true ∨ isSchemeSign c = true)
        (hseen : seen = [] → c.isAlpha = true)
        (h : schemeLoop whole (seen ++ [c]) text = some (written, rest)) :
        (written = [] ∧ rest = whole) ∨ ∃ more, Continues seen more ∧ written = seen ++ more ∧
          c :: text = more ++ ':' :: rest := by
      refine (ih h).imp_right ?_
      rintro ⟨more, hmore, rfl, rfl⟩
      refine ⟨c :: more, ⟨?_, fun hnil ↦ ⟨c, more, rfl, hseen hnil⟩⟩, by simp, rfl⟩
      exact List.forall_mem_cons.mpr ⟨hc, hmore.1⟩
    rw [schemeLoop] at h
    split_ifs at h with halpha hsign hnil hcolon hnil
    · exact hstep (Or.inl halpha) (fun _ ↦ halpha) h
    · exact Or.inl (hnone h)
    · exact hstep (Or.inr hsign) (fun hseen ↦ absurd hseen hnil) h
    · simp only [Option.some.injEq, Prod.mk.injEq] at h
      obtain ⟨rfl, rfl⟩ := h
      exact Or.inr ⟨[], ⟨by simp, fun hseen ↦ absurd hseen hnil⟩, by simp, by simp [hcolon]⟩
    · exact Or.inl (hnone h)

theorem getScheme_of_isScheme {written : Text} (h : IsScheme written) (rest : Text) :
    getScheme (written ++ ':' :: rest) = some (written, rest) :=
  schemeLoop_of_continues h rest

theorem getScheme_eq_some {text written rest : Text} (h : getScheme text = some (written, rest)) :
    (written = [] ∧ rest = text) ∨ IsScheme written ∧ text = written ++ ':' :: rest := by
  refine (schemeLoop_eq_some h).imp_right ?_
  rintro ⟨more, hmore, rfl, rfl⟩
  exact ⟨hmore, rfl⟩

def isControl (c : Char) : Bool := c.toNat < 0x20 || c.toNat = 0x7f

/-- A character that neither ends a part of a URL before its time nor is refused. -/
def Plain (c : Char) : Prop := c ≠ '?' ∧ c ≠ '#' ∧ isControl c = false

instance (c : Char) : Decidable (Plain c) := inferInstanceAs (Decidable (_ ∧ _))

theorem letter_toNat {c : Char} (h : c.isAlpha = true) : 65 ≤ c.toNat ∧ c.toNat ≤ 122 := by
  rcases Bool.or_eq_true_iff.mp h with hupper | hlower
  · obtain ⟨hge, hle⟩ : 65 ≤ c.toNat ∧ c.toNat ≤ 90 := of_decide_eq_true hupper
    omega
  · obtain ⟨hge, hle⟩ := Bool.and_eq_true_iff.mp hlower
    have hge : 97 ≤ c.toNat := of_decide_eq_true hge
    exact ⟨by omega, of_decide_eq_true hle⟩

theorem plain_of_schemeChar {c : Char} (h : c.isAlpha = true ∨ isSchemeSign c = true) :
    Plain c := by
  refine ⟨?_, ?_, ?_⟩
  · rintro rfl
    exact absurd h (by decide)
  · rintro rfl
    exact absurd h (by decide)
  · simp only [isSchemeSign, Bool.or_eq_true, decide_eq_true_eq] at h
    rcases h with hletter | ((hdigit | rfl) | rfl) | rfl
    · have := letter_toNat hletter
      simp only [isControl, Bool.or_eq_false_iff, decide_eq_false_iff_not]
      omega
    · have := digit_toNat hdigit
      simp only [isControl, Bool.or_eq_false_iff, decide_eq_false_iff_not]
      omega
    all_goals rfl

theorem IsScheme.plain {written : Text} (h : IsScheme written) : ∀ c ∈ written, Plain c :=
  fun c hc ↦ plain_of_schemeChar (h.1 c hc)

theorem not_mem_of_plain {text : Text} (h : ∀ c ∈ text, Plain c) : '?' ∉ text ∧ '#' ∉ text :=
  ⟨fun hmem ↦ (h _ hmem).1 rfl, fun hmem ↦ (h _ hmem).2.1 rfl⟩

/-! ### The reader -/

/-- What stands between the two slashes and the path. -/
structure Authority where
  hasUser : Bool
  host : Text
  /-- The host without a port. -/
  hostname : Text
deriving DecidableEq

def Authority.none : Authority := ⟨false, [], []⟩

/-- A way to read authorities, which may depend on the scheme. An empty one names no host. -/
structure AuthorityReader where
  read : Text → Text → Option Authority
  hostname_nil : ∀ scheme authority, read scheme [] = some authority → authority.hostname = []

/-- A URL that has been read. -/
structure Parsed where
  scheme : Text
  authority : Authority
  /-- What follows a scheme without a slash. -/
  rootless : Text
  /-- The path as it is written. -/
  escapedPath : Text
  /-- The path with its escapes decoded. -/
  path : Bytes
  rawQuery : Text
  fragment : Text
deriving DecidableEq

def lower (scheme : Text) : Text := scheme.map Char.toLower

/-- An authority stands behind two slashes, and behind a third only after a scheme. -/
def splitAuthority (scheme : Text) : Text → Option Text × Text
  | '/' :: '/' :: rest =>
    if scheme = [] ∧ rest.head? = some '/' then (none, '/' :: '/' :: rest)
    else (some (rest.takeWhile (· ≠ '/')), rest.dropWhile (· ≠ '/'))
  | rest => (none, rest)

section Read

variable (reader : AuthorityReader)

/-- A URL without an authority has neither user nor host. -/
def readAuthority (scheme : Text) : Option Text → Option Authority
  | none => some .none
  | some text => reader.read scheme text

/-- The authority and the path. -/
def readHierarchy (scheme rest rawQuery : Text) : Option Parsed := do
  let authority ← readAuthority reader scheme (splitAuthority scheme rest).1
  let path ← unescapePath (utf8 (splitAuthority scheme rest).2)
  return ⟨scheme, authority, [], (splitAuthority scheme rest).2, path, rawQuery, []⟩

/-- What follows the scheme. -/
def readRest (scheme rest : Text) : Option Parsed :=
  let (rest, rawQuery) := cut '?' rest
  if rest.head? = some '/' then readHierarchy reader scheme rest rawQuery
  else if scheme ≠ [] then some ⟨scheme, .none, rest, [], [], rawQuery, []⟩
  else if ':' ∈ (cut '/' rest).1 then none
  else readHierarchy reader scheme rest rawQuery

/-- What stands before a fragment. -/
def readBefore (text : Text) : Option Parsed :=
  if text.any isControl then none
  else if text = ['*'] then some ⟨[], .none, [], ['*'], utf8 ['*'], [], []⟩
  else do
    let (written, rest) ← getScheme text
    readRest reader (lower written) rest

/-- Reads a URL; its fragment is cut off first. -/
def read (text : Text) : Option Parsed := do
  let (before, fragment) := cut '#' text
  let uri ← readBefore reader before
  let _ ← unescapePath (utf8 fragment)
  return { uri with fragment := fragment }

end Read

section Reading

variable {reader : AuthorityReader} {text : Text} {uri : Parsed}

theorem readHierarchy_eq_some {scheme rest rawQuery : Text}
    (h : readHierarchy reader scheme rest rawQuery = some uri) :
    uri.scheme = scheme ∧ uri.rawQuery = rawQuery ∧
      readAuthority reader scheme (splitAuthority scheme rest).1 = some uri.authority := by
  simp only [readHierarchy, Option.bind_eq_bind, Option.bind_eq_some_iff, Option.pure_def,
    Option.some.injEq] at h
  obtain ⟨_, hauthority, _, -, rfl⟩ := h
  exact ⟨rfl, rfl, hauthority⟩

/-- Without an authority there is no host. -/
theorem readRest_eq_some {scheme rest : Text} (h : readRest reader scheme rest = some uri) :
    uri.scheme = scheme ∧ uri.rawQuery = (cut '?' rest).2 ∧
      (uri.authority.hostname = [] ∨
        readAuthority reader scheme (splitAuthority scheme (cut '?' rest).1).1 =
          some uri.authority) := by
  simp only [readRest] at h
  split_ifs at h
  · obtain ⟨hscheme, hquery, hauthority⟩ := readHierarchy_eq_some h
    exact ⟨hscheme, hquery, Or.inr hauthority⟩
  · obtain rfl := Option.some.inj h
    exact ⟨rfl, rfl, Or.inl rfl⟩
  · obtain ⟨hscheme, hquery, hauthority⟩ := readHierarchy_eq_some h
    exact ⟨hscheme, hquery, Or.inr hauthority⟩

theorem rawQuery_of_readBefore (h : readBefore reader text = some uri) :
    uri.rawQuery = (cut '?' text).2 := by
  rw [readBefore] at h
  split_ifs at h with hcontrol hstar
  · obtain rfl := Option.some.inj h
    subst hstar
    rfl
  · obtain ⟨⟨written, rest⟩, hscheme, hrest⟩ := Option.bind_eq_some_iff.mp h
    rw [(readRest_eq_some hrest).2.1]
    rcases getScheme_eq_some hscheme with ⟨-, rfl⟩ | ⟨hwritten, rfl⟩
    · rfl
    · rw [cut_append_of_not_mem (not_mem_of_plain hwritten.plain).1, cut_cons_of_ne (by decide)]

theorem read_eq_some (h : read reader text = some uri) :
    ∃ before, readBefore reader (cut '#' text).1 = some before ∧
      uri = { before with fragment := (cut '#' text).2 } := by
  simp only [read, Option.bind_eq_bind, Option.bind_eq_some_iff, Option.pure_def,
    Option.some.injEq] at h
  obtain ⟨before, hbefore, _, -, rfl⟩ := h
  exact ⟨before, hbefore, rfl⟩

theorem fragment_of_read (h : read reader text = some uri) : uri.fragment = (cut '#' text).2 := by
  obtain ⟨before, -, rfl⟩ := read_eq_some h
  rfl

theorem rawQuery_of_read (h : read reader text = some uri) :
    uri.rawQuery = (cut '?' (cut '#' text).1).2 := by
  obtain ⟨before, hbefore, rfl⟩ := read_eq_some h
  rw [← rawQuery_of_readBefore hbefore]

/-- A text read without a query and a fragment has no delimiter but at its end. -/
theorem getLast?_of_read (h : read reader text = some uri) (hquery : uri.rawQuery = [])
    (hfragment : uri.fragment = []) :
    ('?' ∉ text ∧ '#' ∉ text) ∨ text.getLast? = some '?' ∨ text.getLast? = some '#' := by
  rw [fragment_of_read h] at hfragment
  rw [rawQuery_of_read h] at hquery
  by_cases hhash : '#' ∈ text
  · exact Or.inr (Or.inr (getLast?_of_cut hfragment hhash))
  rw [cut_of_not_mem hhash] at hquery
  by_cases hmark : '?' ∈ text
  · exact Or.inr (Or.inl (getLast?_of_cut hquery hmark))
  · exact Or.inl ⟨hmark, hhash⟩

/-- What is written behind a delimiter is read as a query or a fragment.
Assumes: the text has a delimiter, and the added text none. -/
theorem eq_nil_of_read_append {more : Text} (h : read reader (text ++ more) = some uri)
    (hdelimiter : '?' ∈ text ∨ '#' ∈ text) (hmore : '#' ∉ more) (hquery : uri.rawQuery = [])
    (hfragment : uri.fragment = []) : more = [] := by
  rw [fragment_of_read h] at hfragment
  by_cases hhash : '#' ∈ text
  · rw [cut_append_of_mem hhash, List.append_eq_nil_iff] at hfragment
    exact hfragment.2
  · have hnone : '#' ∉ text ++ more := fun hmem ↦ (List.mem_append.mp hmem).elim hhash hmore
    rw [rawQuery_of_read h, cut_of_not_mem hnone,
      cut_append_of_mem (hdelimiter.resolve_right hhash), List.append_eq_nil_iff] at hquery
    exact hquery.2

end Reading

/-! ### Parts -/

/-- The parts of a URL with an authority and without a query and a fragment. -/
structure Parts where
  scheme : Text
  authority : Text
  path : Text
  scheme_isScheme : IsScheme scheme
  slash_not_mem : '/' ∉ authority
  path_head : path = [] ∨ path.head? = some '/'
  plain : ∀ c ∈ authority ++ path, Plain c

def Parts.text (parts : Parts) : Text :=
  parts.scheme ++ ':' :: '/' :: '/' :: (parts.authority ++ parts.path)

theorem Parts.plain_text (parts : Parts) : ∀ c ∈ parts.text, Plain c := by
  intro c hc
  rw [Parts.text, List.mem_append] at hc
  rcases hc with hc | hc
  · exact parts.scheme_isScheme.plain c hc
  · simp only [List.mem_cons] at hc
    rcases hc with rfl | rfl | rfl | hc
    · decide
    · decide
    · decide
    · exact parts.plain c hc

theorem Parts.lower_scheme_ne_nil (parts : Parts) : lower parts.scheme ≠ [] := by
  obtain ⟨c, rest, hscheme, -⟩ := parts.scheme_isScheme.2 rfl
  rw [lower, hscheme, List.map_cons]
  exact List.cons_ne_nil _ _

theorem Parts.splitAuthority_eq (parts : Parts) :
    splitAuthority (lower parts.scheme) ('/' :: '/' :: (parts.authority ++ parts.path)) =
      (some parts.authority, parts.path) := by
  have hauthority : ∀ c ∈ parts.authority, decide (c ≠ '/') = true := by
    intro c hc
    rw [decide_eq_true_eq]
    rintro rfl
    exact parts.slash_not_mem hc
  rw [splitAuthority, if_neg fun h ↦ parts.lower_scheme_ne_nil h.1,
    List.takeWhile_append_of_pos hauthority, List.dropWhile_append_of_pos hauthority]
  rcases parts.path_head with hpath | hpath
  · rw [hpath, List.takeWhile_nil, List.dropWhile_nil, List.append_nil]
  · obtain ⟨rest, hpath⟩ := List.head?_eq_some_iff.mp hpath
    rw [hpath, List.takeWhile_cons_of_neg (by simp), List.dropWhile_cons_of_neg (by simp),
      List.append_nil]

theorem Parts.read_text (reader : AuthorityReader) (parts : Parts) :
    read reader parts.text = do
      let authority ← reader.read (lower parts.scheme) parts.authority
      let path ← unescapePath (utf8 parts.path)
      return ⟨lower parts.scheme, authority, [], parts.path, path, [], []⟩ := by
  have hplain := parts.plain_text
  obtain ⟨hmark, hhash⟩ := not_mem_of_plain hplain
  have hcontrol : parts.text.any isControl = false := by
    rw [List.any_eq_false]
    intro c hc
    rw [(hplain c hc).2.2]
    exact Bool.false_ne_true
  have hstar : parts.text ≠ ['*'] := by
    intro h
    have hmem : ':' ∈ parts.text := by simp [Parts.text]
    rw [h] at hmem
    exact absurd hmem (by decide)
  have hrest : '?' ∉ '/' :: '/' :: (parts.authority ++ parts.path) := by
    intro hmem
    refine hmark ?_
    rw [Parts.text]
    exact List.mem_append_right _ (List.mem_cons_of_mem _ hmem)
  have hbefore : readBefore reader parts.text = do
      let authority ← reader.read (lower parts.scheme) parts.authority
      let path ← unescapePath (utf8 parts.path)
      return ⟨lower parts.scheme, authority, [], parts.path, path, [], []⟩ := by
    rw [readBefore, hcontrol, if_neg Bool.false_ne_true, if_neg hstar, Parts.text,
      getScheme_of_isScheme parts.scheme_isScheme]
    simp only [Option.bind_eq_bind, Option.bind_some, readRest, cut_of_not_mem hrest,
      List.head?_cons, if_true, readHierarchy, parts.splitAuthority_eq, readAuthority]
  have hnil : unescapePath (utf8 []) = some [] := rfl
  simp only [read, cut_of_not_mem hhash, hbefore, hnil, Option.bind_eq_bind, Option.bind_assoc,
    Option.bind_some, Option.pure_def]

theorem splitAuthority_eq_some {scheme rest authority : Text}
    (h : (splitAuthority scheme rest).1 = some authority) :
    ∃ path, rest = '/' :: '/' :: (authority ++ path) ∧ '/' ∉ authority ∧
      (path = [] ∨ path.head? = some '/') := by
  fun_cases splitAuthority scheme rest with
  | case1 rest hroot =>
    rw [splitAuthority, if_pos hroot] at h
    exact absurd h (by simp)
  | case2 rest hroot =>
    rw [splitAuthority, if_neg hroot, Option.some.injEq] at h
    subst h
    refine ⟨rest.dropWhile (· ≠ '/'), by rw [List.takeWhile_append_dropWhile], ?_, ?_⟩
    · intro hmem
      exact absurd (List.mem_takeWhile_imp hmem) (by simp)
    · cases hpath : rest.dropWhile (· ≠ '/') with
      | nil => exact Or.inl rfl
      | cons c path =>
        have hhead := List.head?_dropWhile_not (p := (· ≠ '/')) rest
        rw [hpath] at hhead
        exact Or.inr (by simpa using hhead)
  | case3 rest hslashes =>
    rw [splitAuthority] at h
    · exact absurd h (by simp)
    · exact hslashes

/-- A text that is read with a scheme and a host, and has no delimiter, is made of parts. -/
theorem exists_parts {reader : AuthorityReader} {text : Text} {uri : Parsed}
    (h : read reader text = some uri) (hscheme : uri.scheme ≠ [])
    (hhostname : uri.authority.hostname ≠ []) (hmark : '?' ∉ text) (hhash : '#' ∉ text) :
    ∃ parts : Parts, parts.text = text := by
  obtain ⟨before, hbefore, rfl⟩ := read_eq_some h
  rw [cut_of_not_mem hhash, readBefore] at hbefore
  dsimp only at hscheme hhostname hbefore
  split_ifs at hbefore with hcontrol hstar
  · obtain rfl := Option.some.inj hbefore
    exact absurd rfl hscheme
  obtain ⟨⟨written, rest⟩, hget, hrest⟩ := Option.bind_eq_some_iff.mp hbefore
  obtain ⟨hlower, -, hauthority⟩ := readRest_eq_some hrest
  rcases getScheme_eq_some hget with ⟨rfl, rfl⟩ | ⟨hwritten, rfl⟩
  · exact absurd hlower hscheme
  have hrestMark : '?' ∉ rest := fun hmem ↦
    hmark (List.mem_append_right _ (List.mem_cons_of_mem _ hmem))
  have hread := hauthority.resolve_left hhostname
  rw [cut_of_not_mem hrestMark] at hread
  cases hsplit : (splitAuthority (lower written) rest).1 with
  | none =>
    rw [hsplit] at hread
    have hnone : Authority.none = before.authority := Option.some.inj hread
    exact absurd (congrArg Authority.hostname hnone).symm hhostname
  | some authority =>
    obtain ⟨path, rfl, hslash, hpath⟩ := splitAuthority_eq_some hsplit
    have hplain : ∀ c ∈ authority ++ path, Plain c := by
      intro c hc
      have hmem : c ∈ written ++ ':' :: '/' :: '/' :: (authority ++ path) :=
        List.mem_append_right _ (List.mem_cons_of_mem _
          (List.mem_cons_of_mem _ (List.mem_cons_of_mem _ hc)))
      refine ⟨fun heq ↦ hmark (heq ▸ hmem), fun heq ↦ hhash (heq ▸ hmem), ?_⟩
      rw [← Bool.not_eq_true]
      exact fun h ↦ hcontrol (List.any_eq_true.mpr ⟨c, hmem, h⟩)
    exact ⟨⟨written, authority, path, hwritten, hslash, hpath, hplain⟩, rfl⟩

/-! ### Another path behind the same authority -/

/-- The parts with the slashes at the end of the path replaced by more path. -/
def Parts.extend (parts : Parts) (more : Text) (hhead : more = [] ∨ more.head? = some '/')
    (hplain : ∀ c ∈ more, Plain c) : Parts where
  scheme := parts.scheme
  authority := parts.authority
  path := parts.path.rdropWhile (· = '/') ++ more
  scheme_isScheme := parts.scheme_isScheme
  slash_not_mem := parts.slash_not_mem
  path_head := by
    obtain ⟨n, hpath⟩ := exists_eq_rdropWhile_append '/' parts.path
    cases htrim : parts.path.rdropWhile (· = '/') with
    | nil => exact hhead
    | cons c rest =>
      have hroot := parts.path_head
      rw [hpath, htrim] at hroot
      exact Or.inr (hroot.resolve_left (List.cons_ne_nil _ _))
  plain := by
    intro c hc
    rw [← List.append_assoc, List.mem_append] at hc
    refine hc.elim (fun hc ↦ parts.plain c ?_) (hplain c)
    obtain ⟨n, hpath⟩ := exists_eq_rdropWhile_append '/' parts.path
    rw [hpath, ← List.append_assoc]
    exact List.mem_append_left _ hc

theorem Parts.text_extend {parts : Parts} {more : Text}
    (hhead : more = [] ∨ more.head? = some '/') (hplain : ∀ c ∈ more, Plain c)
    (hauthority : parts.authority ≠ []) :
    (parts.extend more hhead hplain).text = parts.text.rdropWhile (· = '/') ++ more := by
  -- The slashes stop at the authority, which has none.
  have hlast := List.getLast?_eq_some_getLast hauthority
  have hslash : parts.authority.getLast hauthority ≠ '/' := fun h ↦
    parts.slash_not_mem (h ▸ List.getLast_mem hauthority)
  have htext : parts.text =
      (parts.scheme ++ [':', '/', '/'] ++ parts.authority) ++ parts.path := by
    simp [Parts.text]
  rw [htext, rdropWhile_append (by rw [List.getLast?_append_of_ne_nil _ hauthority, hlast]) hslash]
  simp [Parts.text, Parts.extend]

section Extend

variable {reader : AuthorityReader} {text : Text} {uri : Parsed}

/-- A text without delimiters, its trailing slashes replaced by more path, is read like the text
itself but for the path.
Assumes: the text has a scheme and a host; what is added begins with a slash and has no escape. -/
theorem read_extend (h : read reader text = some uri) (hscheme : uri.scheme ≠ [])
    (hhostname : uri.authority.hostname ≠ []) (hmark : '?' ∉ text) (hhash : '#' ∉ text) :
    ∃ lead n, Decodes (utf8 (uri.escapedPath.rdropWhile (· = '/'))) lead ∧
      uri.path = lead ++ List.replicate n 0x2f ∧
      ∀ more : Text, more = [] ∨ more.head? = some '/' → (∀ c ∈ more, Plain c) → '%' ∉ more →
        read reader (text.rdropWhile (· = '/') ++ more) =
          some { uri with
            escapedPath := uri.escapedPath.rdropWhile (· = '/') ++ more
            path := lead ++ utf8 more } := by
  obtain ⟨parts, rfl⟩ := exists_parts h hscheme hhostname hmark hhash
  simp only [parts.read_text, Option.bind_eq_bind, Option.bind_eq_some_iff, Option.pure_def,
    Option.some.injEq] at h
  obtain ⟨authority, hauthority, path, hpath, rfl⟩ := h
  have hne : parts.authority ≠ [] := by
    intro hnil
    rw [hnil] at hauthority
    exact hhostname (reader.hostname_nil _ _ hauthority)
  obtain ⟨n, htrim⟩ := exists_eq_rdropWhile_append '/' parts.path
  have hdecodes := decodes_iff.mpr hpath
  rw [htrim, utf8_append, utf8_replicate_slash] at hdecodes
  obtain ⟨lead, hlead, rfl⟩ := hdecodes.of_append fun byte hbyte ↦ by
    rw [List.eq_of_mem_replicate hbyte]
    decide
  refine ⟨lead, n, hlead, rfl, fun more hhead hplain hpercent ↦ ?_⟩
  have hmore := decodes_iff.mp (hlead.append (decodes_utf8 hpercent))
  rw [← utf8_append] at hmore
  rw [← Parts.text_extend hhead hplain hne, Parts.read_text]
  simp only [Parts.extend, hauthority, hmore, Option.bind_eq_bind, Option.bind_some,
    Option.pure_def]

end Extend

end QortalRelay.Foundation.Uri
