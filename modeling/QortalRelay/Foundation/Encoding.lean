import Mathlib.Data.List.Basic
import Mathlib.Logic.Function.Basic
import Mathlib.Tactic

/-!
# Encodings that can be read back

An encoding is `Readable` when the end of an encoded value can be found in any longer text, so that
equal texts come from equal values and equal remainders. Readable encodings compose: fixed text in
front, one value after another, a run of values closed by a terminator, and a bracketed array with
separators. From these follow the two-digit hexadecimal form of bytes, the UTF-8 form of a text,
and the quoted strings and arrays of a JSON writer that escapes quotes, backslashes, control
characters, the three HTML characters and the two line separators.
-/

set_option autoImplicit false
set_option relaxedAutoImplicit false

namespace QortalRelay.Foundation.Encoding

/-- A text: a sequence of Unicode characters. -/
abbrev Text := List Char

abbrev Bytes := List UInt8

/-! ### Readable encodings -/

section Readable

variable {α β γ : Type*}

/-- Equal texts come from equal values and equal remainders. -/
def Readable (encode : α → List γ) : Prop :=
  ∀ a b x y, encode a ++ x = encode b ++ y → a = b ∧ x = y

/-- A reader that gives back the value and the remainder. -/
theorem readable_of_read {encode : α → List γ} (read : List γ → Option (α × List γ))
    (hread : ∀ a x, read (encode a ++ x) = some (a, x)) : Readable encode := by
  intro a b x y h
  have hboth := hread a x
  rw [h, hread b y, Option.some.injEq, Prod.mk.injEq] at hboth
  exact ⟨hboth.1.symm, hboth.2.symm⟩

/-- Fixed text in front and behind. -/
theorem Readable.enclose {encode : α → List γ} (h : Readable encode) (front back : List γ) :
    Readable fun a ↦ front ++ encode a ++ back := by
  intro a b x y heq
  simp only [List.append_assoc, List.append_cancel_left_eq] at heq
  obtain ⟨hab, hrest⟩ := h _ _ _ _ heq
  exact ⟨hab, List.append_cancel_left hrest⟩

/-- A run of values closed by a terminator that no value begins with. -/
theorem Readable.terminated {code : α → List γ} (h : Readable code) (stop : γ)
    (hstop : ∀ a x y, code a ++ x ≠ stop :: y) :
    Readable fun values : List α ↦ values.flatMap code ++ [stop] := by
  intro values
  induction values with
  | nil =>
    intro others x y heq
    cases others with
    | nil => exact ⟨rfl, by simpa using heq⟩
    | cons b others =>
      simp only [List.flatMap_nil, List.nil_append, List.flatMap_cons, List.append_assoc,
        List.cons_append] at heq
      exact absurd heq.symm (hstop b _ _)
  | cons a values ih =>
    intro others x y heq
    cases others with
    | nil =>
      simp only [List.flatMap_nil, List.nil_append, List.flatMap_cons, List.append_assoc,
        List.cons_append] at heq
      exact absurd heq (hstop a _ _)
    | cons b others =>
      simp only [List.flatMap_cons, List.append_assoc] at heq
      obtain ⟨rfl, hrest⟩ := h _ _ _ _ heq
      simp only [← List.append_assoc] at hrest
      obtain ⟨rfl, hxy⟩ := ih others x y hrest
      exact ⟨rfl, hxy⟩

/-- A run of values, each of one encoded length. -/
theorem flatMap_injective_of_length {code : α → List γ} {n : ℕ} (hn : 0 < n)
    (hlength : ∀ a, (code a).length = n) (hinj : Function.Injective code) :
    Function.Injective fun values : List α ↦ values.flatMap code := by
  have hne : ∀ a (values : List α), (a :: values).flatMap code ≠ [] := by
    intro a values hnil
    have := congrArg List.length hnil
    rw [List.flatMap_cons, List.length_append, hlength, List.length_nil] at this
    omega
  intro values
  induction values with
  | nil =>
    intro others heq
    cases others with
    | nil => rfl
    | cons b others => exact absurd heq.symm (hne b others)
  | cons a values ih =>
    intro others heq
    cases others with
    | nil => exact absurd heq (hne a values)
    | cons b others =>
      simp only [List.flatMap_cons] at heq
      obtain ⟨hab, hrest⟩ := List.append_inj heq (by rw [hlength, hlength])
      rw [hinj hab, ih hrest]

end Readable

/-! ### Bytes as hexadecimal text, text as bytes -/

/-- The lower-case digit of a number below sixteen. -/
def hexDigit (n : ℕ) : Char :=
  if n < 10 then Char.ofNat ('0'.toNat + n) else Char.ofNat ('a'.toNat + (n - 10))

/-- The number a lower-case hexadecimal digit stands for. -/
def hexValue (c : Char) : ℕ :=
  if c.isDigit then c.toNat - '0'.toNat else c.toNat - 'a'.toNat + 10

theorem hexValue_hexDigit {n : ℕ} (hn : n < 16) : hexValue (hexDigit n) = n := by
  have h : ∀ k : Fin 16, hexValue (hexDigit k) = k := by decide
  exact h ⟨n, hn⟩

/-- Two digits per byte. -/
def hexEncode (bytes : Bytes) : Text :=
  bytes.flatMap fun b ↦ [hexDigit (b.toNat / 16), hexDigit (b.toNat % 16)]

theorem hexEncode_injective : Function.Injective hexEncode := by
  refine flatMap_injective_of_length (n := 2) (by norm_num) (fun _ ↦ rfl) ?_
  intro a b h
  simp only [List.cons.injEq, and_true] at h
  have ha := a.toNat_lt
  have hb := b.toNat_lt
  have hhigh := congrArg hexValue h.1
  have hlow := congrArg hexValue h.2
  rw [hexValue_hexDigit (by omega), hexValue_hexDigit (by omega)] at hhigh hlow
  exact UInt8.toNat_inj.mp (by omega)

theorem length_hexEncode (bytes : Bytes) : (hexEncode bytes).length = 2 * bytes.length := by
  induction bytes with
  | nil => rfl
  | cons b rest ih =>
    simp only [hexEncode, List.flatMap_cons, List.length_append, List.length_cons,
      List.length_nil] at ih ⊢
    omega

/-- The UTF-8 bytes of a text. -/
def utf8 (text : Text) : Bytes := text.flatMap String.utf8EncodeChar

theorem utf8_append (first second : Text) :
    utf8 (first ++ second) = utf8 first ++ utf8 second := by
  simp [utf8]

theorem utf8_injective : Function.Injective utf8 := by
  intro a b h
  have hbytes : a.utf8Encode = b.utf8Encode := by
    simpa [List.utf8Encode, utf8] using congrArg (fun l ↦ ByteArray.mk l.toArray) h
  have hdecoded := congrArg ByteArray.utf8Decode? hbytes
  rw [List.utf8Decode?_utf8Encode, List.utf8Decode?_utf8Encode, Option.some.injEq] at hdecoded
  simpa using congrArg Array.toList hdecoded

/-- An ASCII character is encoded as itself, and its byte is part of no other encoding. -/
theorem eq_of_mem_utf8EncodeChar {c d : Char} (hd : d.toNat < 128)
    (h : UInt8.ofNat d.toNat ∈ String.utf8EncodeChar c) : c = d := by
  have htoNat : c.val.toNat = c.toNat := rfl
  refine Char.toNat_inj.mp ?_
  simp only [String.utf8EncodeChar, htoNat] at h
  split_ifs at h
  all_goals
    simp only [List.mem_cons, List.not_mem_nil, or_false, ← UInt8.toNat_inj,
      UInt8.toNat_ofNat'] at h
    omega

theorem mem_of_mem_utf8 {text : Text} {d : Char} (hd : d.toNat < 128)
    (h : UInt8.ofNat d.toNat ∈ utf8 text) : d ∈ text := by
  obtain ⟨c, hc, hbyte⟩ := List.mem_flatMap.mp h
  exact eq_of_mem_utf8EncodeChar hd hbyte ▸ hc

theorem getLast?_of_getLast?_utf8 {text : Text} {d : Char} (hd : d.toNat < 128)
    (h : (utf8 text).getLast? = some (UInt8.ofNat d.toNat)) : text.getLast? = some d := by
  induction text using List.reverseRecOn with
  | nil => exact absurd h (by simp [utf8])
  | append_singleton text c _ =>
    have hsingle : utf8 [c] = String.utf8EncodeChar c := by simp [utf8]
    have hne : String.utf8EncodeChar c ≠ [] := String.utf8EncodeChar_ne_nil
    rw [utf8_append, hsingle, List.getLast?_append_of_ne_nil _ hne] at h
    rw [List.getLast?_concat, eq_of_mem_utf8EncodeChar hd (List.mem_of_getLast? h)]

/-! ### JSON strings and arrays -/

/-- One character inside a quoted string. -/
def escape (c : Char) : List Char :=
  if c = '"' then ['\\', '"']
  else if c = '\\' then ['\\', '\\']
  else if c = '\x08' then ['\\', 'b']
  else if c = '\x0c' then ['\\', 'f']
  else if c = '\n' then ['\\', 'n']
  else if c = '\r' then ['\\', 'r']
  else if c = '\t' then ['\\', 't']
  else if c.toNat < 0x20 ∨ c = '<' ∨ c = '>' ∨ c = '&' then
    ['\\', 'u', '0', '0', hexDigit (c.toNat / 16), hexDigit (c.toNat % 16)]
  else if c.toNat = 0x2028 ∨ c.toNat = 0x2029 then
    ['\\', 'u', '2', '0', '2', hexDigit (c.toNat % 16)]
  else [c]

/-- One character read back from inside a quoted string. -/
def unescape : List Char → Option (Char × List Char)
  | [] => none
  | head :: rest =>
    if head = '\\' then
      match rest with
      | [] => none
      | letter :: rest =>
        if letter = 'u' then
          match rest with
          | a :: b :: c :: d :: rest =>
            some (Char.ofNat
              (16 * (16 * (16 * hexValue a + hexValue b) + hexValue c) + hexValue d), rest)
          | _ => none
        else if letter = 'b' then some ('\x08', rest)
        else if letter = 'f' then some ('\x0c', rest)
        else if letter = 'n' then some ('\n', rest)
        else if letter = 'r' then some ('\r', rest)
        else if letter = 't' then some ('\t', rest)
        else some (letter, rest)
    else some (head, rest)

theorem unescape_escape (c : Char) (rest : List Char) :
    unescape (escape c ++ rest) = some (c, rest) := by
  by_cases hquote : c = '"'
  · subst hquote; rfl
  by_cases hslash : c = '\\'
  · subst hslash; rfl
  by_cases hb : c = '\x08'
  · subst hb; rfl
  by_cases hf : c = '\x0c'
  · subst hf; rfl
  by_cases hn : c = '\n'
  · subst hn; rfl
  by_cases hr : c = '\r'
  · subst hr; rfl
  by_cases ht : c = '\t'
  · subst ht; rfl
  rw [escape, if_neg hquote, if_neg hslash, if_neg hb, if_neg hf, if_neg hn, if_neg hr, if_neg ht]
  split_ifs with hlow hline
  · -- The four-digit form with two leading zeros.
    have hsmall : c.toNat < 64 := by
      rcases hlow with h | rfl | rfl | rfl
      · omega
      all_goals decide
    have hvalue : 16 * (16 * (16 * hexValue '0' + hexValue '0') +
        hexValue (hexDigit (c.toNat / 16)))
        + hexValue (hexDigit (c.toNat % 16)) = c.toNat := by
      rw [hexValue_hexDigit (by omega), hexValue_hexDigit (by omega)]
      simp only [show hexValue '0' = 0 from rfl]
      omega
    change some (Char.ofNat _, rest) = _
    rw [hvalue, Char.ofNat_toNat]
  · have hvalue : 16 * (16 * (16 * hexValue '2' + hexValue '0') + hexValue '2')
        + hexValue (hexDigit (c.toNat % 16)) = c.toNat := by
      rw [hexValue_hexDigit (by omega)]
      simp only [show hexValue '0' = 0 from rfl, show hexValue '2' = 2 from rfl]
      omega
    change some (Char.ofNat _, rest) = _
    rw [hvalue, Char.ofNat_toNat]
  · simp [unescape, hslash]

theorem readable_escape : Readable escape :=
  readable_of_read unescape unescape_escape

/-- A quoted string. -/
def quote (text : Text) : Text := '"' :: (text.flatMap escape ++ ['"'])

theorem escape_append_ne_quote (c : Char) (x y : List Char) : escape c ++ x ≠ '"' :: y := by
  intro h
  -- What is read back is a quote, which is never written as itself.
  have hread := unescape_escape c x
  rw [h] at hread
  obtain ⟨rfl, -⟩ := Prod.mk.inj (Option.some.inj hread)
  cases h

theorem readable_quote : Readable quote := by
  intro a b x y h
  simp only [quote, List.cons_append, List.cons.injEq, true_and] at h
  exact readable_escape.terminated '"' escape_append_ne_quote a b x y h

/-- A bracketed array with commas between its items. -/
def array {α : Type*} (item : α → List Char) : List α → List Char
  | [] => ['[', ']']
  | first :: rest => '[' :: (item first ++ (rest.flatMap (fun next ↦ ',' :: item next) ++ [']']))

/-- Assumes: the items after a comma can be read back up to the end of the array, and none begins
like that end. So can the array: its items are those of the list with a comma before each, but for
the first comma. -/
theorem readable_array {α : Type*} {item : α → List Char}
    (hrest : Readable fun rest : List α ↦ rest.flatMap (fun next ↦ ',' :: item next) ++ [']'])
    (hitem : ∀ a x y, item a ++ x ≠ ']' :: y) : Readable (array item) := by
  intro values others x y heq
  cases values with
  | nil =>
    cases others with
    | nil => exact ⟨rfl, by simpa [array] using heq⟩
    | cons b others =>
      simp only [array, List.cons_append, List.append_assoc, List.cons.injEq, true_and,
        List.nil_append] at heq
      exact absurd heq.symm (hitem b _ _)
  | cons a values =>
    cases others with
    | nil =>
      simp only [array, List.cons_append, List.append_assoc, List.cons.injEq, true_and,
        List.nil_append] at heq
      exact absurd heq (hitem a _ _)
    | cons b others =>
      refine hrest (a :: values) (b :: others) x y ?_
      simpa [array] using heq

/-- Assumes: items that can be read back and do not begin like the end of an array. -/
theorem Readable.array {α : Type*} {item : α → List Char} (h : Readable item)
    (hitem : ∀ a x y, item a ++ x ≠ ']' :: y) : Readable (Encoding.array item) := by
  have hcode : Readable fun next ↦ ',' :: item next := by simpa using h.enclose [','] []
  exact readable_array (hcode.terminated ']' fun a x y ↦ by simp) hitem

/-- A text up to the first character that ends it. Assumes: neither text has such a character, and
both go on with one. -/
theorem append_inj_of_stop {γ : Type*} {stop : γ → Bool} {first second x y : List γ}
    (hfirst : ∀ c ∈ first, stop c = false) (hsecond : ∀ c ∈ second, stop c = false)
    (hx : x.head?.any stop = true) (hy : y.head?.any stop = true)
    (h : first ++ x = second ++ y) : first = second ∧ x = y := by
  have htake (text rest : List γ) (htext : ∀ c ∈ text, stop c = false)
      (hrest : rest.head?.any stop = true) :
      (text ++ rest).takeWhile (fun c ↦ !stop c) = text := by
    rw [List.takeWhile_append_of_pos fun c hc ↦ by simp [htext c hc]]
    cases rest with
    | nil => simp at hrest
    | cons c rest =>
      have hc : stop c = true := by simpa using hrest
      rw [List.takeWhile_cons_of_neg (by simp [hc]), List.append_nil]
  have heq : first = second := by
    rw [← htake first x hfirst hx, h, htake second y hsecond hy]
  subst heq
  exact ⟨rfl, List.append_cancel_left h⟩

/-- Assumes: different items have different texts, none of them empty or with a comma or a closing
bracket in it. An array of them can be read back. -/
theorem readable_array_of_clean {α : Type*} {item : α → List Char}
    (hinj : Function.Injective item) (hne : ∀ a, item a ≠ [])
    (hclean : ∀ a, ∀ c ∈ item a, (c == ',' || c == ']') = false) : Readable (array item) := by
  have hrest : Readable fun rest : List α ↦
      rest.flatMap (fun next ↦ ',' :: item next) ++ [']'] := by
    intro values
    induction values with
    | nil =>
      intro others x y h
      cases others with
      | nil => exact ⟨rfl, by simpa using h⟩
      | cons b others => simp at h
    | cons a values ih =>
      intro others x y h
      cases others with
      | nil => simp at h
      | cons b others =>
        simp only [List.flatMap_cons, List.cons_append, List.cons.injEq, true_and,
          List.append_assoc] at h
        have hhead (values : List α) (z : List Char) :
            (values.flatMap (fun next ↦ ',' :: item next) ++ ([']'] ++ z)).head?.any
              (fun c ↦ c == ',' || c == ']') = true := by
          cases values <;> simp
        obtain ⟨hab, htail⟩ := append_inj_of_stop (hclean a) (hclean b) (hhead values x)
          (hhead others y) h
        obtain ⟨hvalues, hxy⟩ := ih others x y (by simpa using htail)
        exact ⟨by rw [hinj hab, hvalues], hxy⟩
  have hitem (a : α) (x y : List Char) : item a ++ x ≠ ']' :: y := by
    intro h
    cases ha : item a with
    | nil => exact hne a ha
    | cons c text =>
      rw [ha, List.cons_append, List.cons.injEq] at h
      have hc := hclean a c (by simp [ha])
      simp [h.1] at hc
  exact readable_array hrest hitem

theorem readable_array_quote : Readable (array quote) :=
  readable_quote.array fun a x y ↦ by simp [quote]

end QortalRelay.Foundation.Encoding
