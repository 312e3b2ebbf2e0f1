import QortalRelay.Clock
import QortalRelay.Foundation.Decimal
import QortalRelay.Foundation.Encoding

/-!
# Ticket keys and their identifiers

An issuer has one RSA key per hour. The identifier of a key is the hexadecimal SHA-256 of a fixed
domain, the policy revision, the certificate pin, the decimal hour and the DER form of the public
key, written one after another without separators. The hashed text is nevertheless unambiguous
(`keyIdInput_injective`): the revision and the pin have a fixed length, and although the first byte
of a DER sequence is itself an ASCII digit, the byte after it is not. A ticket is a message that
begins with the domain and the key identifier and ends with 32 free bytes; under a hash without
collisions such a message belongs to one hour (`keySource_eq_of_isTicketMessage`).
-/

set_option autoImplicit false
set_option relaxedAutoImplicit false

namespace QortalRelay.Tickets

open Foundation.Decimal Foundation.Encoding

/-! ### The primitives the issuer is built on -/

/-- The cryptographic library: hashes, account signatures, and RSA keys with their DER forms. Only
the laws that the issuer relies on are part of the structure. -/
structure Crypto where
  sha256 : Bytes → Bytes
  ripemd160 : Bytes → Bytes
  /-- Key, message, signature. -/
  ed25519Verify : Bytes → Bytes → Bytes → Bool
  /-- An RSA private key. -/
  Key : Type
  marshalPrivateKey : Key → Bytes
  parsePrivateKey : Bytes → Option Key
  parse_marshal : ∀ key, parsePrivateKey (marshalPrivateKey key) = some key
  marshalPublicKey : Key → Bytes
  /-- A DER sequence starts with `0x30` and the length byte of a 2048-bit key is no digit. -/
  public_head : ∀ key, ∃ length rest,
    marshalPublicKey key = 0x30 :: length :: rest ∧ ¬ (48 ≤ length.toNat ∧ length.toNat ≤ 57)
  /-- Check of a message and its unblinded signature. -/
  verify : Key → Bytes → Bytes → Bool
  blindSign : Key → Bytes → Option Bytes

/-- Whether only groups of accounts or everybody may use the relay. -/
inductive Mode
  | everyone
  | groups
deriving DecidableEq, Repr

/-- A text of 64 hexadecimal characters. -/
def IsHash (text : Text) : Prop :=
  text.length = 64 ∧ ∀ c ∈ text, c ∈ "0123456789abcdefABCDEF".toList

instance (text : Text) : Decidable (IsHash text) :=
  decidable_of_iff
    (text.length = 64 ∧ text.all (fun c ↦ "0123456789abcdefABCDEF".toList.contains c) = true)
    (by simp only [IsHash, List.all_eq_true, List.contains_iff_mem])

/-- The access policy of a running relay, as far as the issuer reads it. -/
structure Policy where
  mode : Mode
  revision : Text
  pin : Text
  revision_isHash : IsHash revision
  pin_isHash : IsHash pin

/-! ### Key identifiers -/

def ticketDomain : Text := "Qortal-MASQUE-Ticket-v1\x00".toList

/-- The bytes whose hash identifies a key. -/
def keyIdInput (der : Bytes) (policy pin : Text) (epoch : ℤ) : Bytes :=
  utf8 (ticketDomain ++ policy ++ pin ++ formatInt epoch) ++ der

/-- The name of a key: the hash of the key with the policy, the relay and the hour it is for. -/
def ticketKeyID (crypto : Crypto) (der : Bytes) (policy pin : Text) (epoch : ℤ) : Text :=
  hexEncode (crypto.sha256 (keyIdInput der policy pin epoch))

/-- The life of a ticket key in seconds. -/
def ticketLifetime : ℤ := 12 * 3600

/-- What clients are told of the key of an hour. -/
structure Descriptor where
  epoch : ℤ
  expiresAt : ℤ
  publicKey : Text
  keyId : Text
  policy : Text
  relayPin : Text
deriving DecidableEq, Repr

/-! ### The hashed text is unambiguous -/

/-- The byte of an ASCII character. -/
def IsAscii (text : Text) : Prop := ∀ c ∈ text, c.toNat ≤ 127

theorem utf8_of_isAscii {text : Text} (h : IsAscii text) :
    utf8 text = text.map fun c ↦ c.val.toUInt8 := by
  induction text with
  | nil => rfl
  | cons c rest ih =>
    have hc : c.val ≤ 127 := by
      rw [UInt32.le_iff_toNat_le]
      exact h c List.mem_cons_self
    have hrest := ih fun d hd ↦ h d (List.mem_cons_of_mem _ hd)
    rw [utf8, List.flatMap_cons,
      String.utf8EncodeChar_eq_singleton (Char.utf8Size_eq_one_iff.mpr hc)]
    rw [utf8] at hrest
    rw [hrest, List.map_cons, List.singleton_append]

/-- What holds of every hexadecimal character holds of those of a hash. -/
theorem IsHash.all {text : Text} (h : IsHash text) (p : Char → Bool)
    (hp : "0123456789abcdefABCDEF".toList.all p = true) {c : Char} (hc : c ∈ text) :
    p c = true :=
  List.all_eq_true.mp hp c (h.2 c hc)

theorem IsHash.isAscii {text : Text} (h : IsHash text) : IsAscii text := fun _ hc ↦
  of_decide_eq_true (h.all (fun d ↦ decide (d.toNat ≤ 127)) (by decide) hc)

theorem length_utf8_of_isHash {text : Text} (h : IsHash text) : (utf8 text).length = 64 := by
  rw [utf8_of_isAscii h.isAscii, List.length_map, h.1]

theorem isAscii_formatInt {n : ℤ} (hn : 0 ≤ n) : IsAscii (formatInt n) := by
  intro c hc
  rw [formatInt_eq_formatPadded_zero hn] at hc
  have := digit_toNat (isDigit_of_mem_formatPadded hn hc)
  omega

/-- An ASCII digit among the bytes. -/
def IsDigitByte (b : UInt8) : Prop := 48 ≤ b.toNat ∧ b.toNat ≤ 57

instance (b : UInt8) : Decidable (IsDigitByte b) :=
  inferInstanceAs (Decidable (_ ∧ _))

theorem isDigitByte_of_mem_utf8_formatInt {n : ℤ} (hn : 0 ≤ n) {b : UInt8}
    (hb : b ∈ utf8 (formatInt n)) : IsDigitByte b := by
  rw [utf8_of_isAscii (isAscii_formatInt hn), List.mem_map] at hb
  obtain ⟨c, hc, rfl⟩ := hb
  rw [formatInt_eq_formatPadded_zero hn] at hc
  have hdigit := digit_toNat (isDigit_of_mem_formatPadded hn hc)
  have hbyte : c.val.toUInt8.toNat = c.toNat := by
    change c.val.toNat % 2 ^ 8 = c.val.toNat
    have : c.val.toNat = c.toNat := rfl
    omega
  rw [IsDigitByte, hbyte]
  exact hdigit

/-- Where a run of digits is followed by the DER form of a key, the run ends at one place only.
Assumes: one run is an initial part of the other. -/
theorem eq_nil_of_digits_append {extra first second : Bytes} {length : UInt8} {rest : Bytes}
    (hdigits : ∀ b ∈ extra, IsDigitByte b) (hfirst : first = 0x30 :: length :: rest)
    (hlength : ¬ IsDigitByte length) (hsecond : second.head? = some 0x30)
    (h : first = extra ++ second) : extra = [] := by
  subst hfirst
  cases extra with
  | nil => rfl
  | cons b extra =>
    rw [List.cons_append, List.cons.injEq] at h
    -- The length byte of the first form would be a digit, or the `0x30` of the second one.
    cases extra with
    | nil =>
      rw [List.nil_append] at h
      rw [← h.2] at hsecond
      simp only [List.head?_cons, Option.some.injEq] at hsecond
      exact absurd (by rw [hsecond]; decide) hlength
    | cons c extra =>
      rw [List.cons_append, List.cons.injEq] at h
      exact absurd (h.2.1 ▸ hdigits c (by simp)) hlength

theorem digits_append_der_injective {m n : ℤ} (hm : 0 ≤ m) (hn : 0 ≤ n) {first second : Bytes}
    (hfirst : ∃ length rest, first = 0x30 :: length :: rest ∧ ¬ IsDigitByte length)
    (hsecond : ∃ length rest, second = 0x30 :: length :: rest ∧ ¬ IsDigitByte length)
    (h : utf8 (formatInt m) ++ first = utf8 (formatInt n) ++ second) :
    formatInt m = formatInt n ∧ first = second := by
  obtain ⟨length1, rest1, hder1, hbyte1⟩ := hfirst
  obtain ⟨length2, rest2, hder2, hbyte2⟩ := hsecond
  rcases List.append_eq_append_iff.mp h with ⟨extra, hshort, hlong⟩ | ⟨extra, hshort, hlong⟩
  · have hnil : extra = [] := by
      refine eq_nil_of_digits_append (fun b hb ↦ ?_) hder1 hbyte1 (by rw [hder2]; rfl) hlong
      exact isDigitByte_of_mem_utf8_formatInt hn (by rw [hshort]; exact List.mem_append_right _ hb)
    subst hnil
    exact ⟨utf8_injective (by simpa using hshort.symm), by simpa using hlong⟩
  · have hnil : extra = [] := by
      refine eq_nil_of_digits_append (fun b hb ↦ ?_) hder2 hbyte2 (by rw [hder1]; rfl) hlong
      exact isDigitByte_of_mem_utf8_formatInt hm (by rw [hshort]; exact List.mem_append_right _ hb)
    subst hnil
    exact ⟨utf8_injective (by simpa using hshort), by simpa using hlong.symm⟩

/-- The four parts of the hashed text can be told apart. -/
theorem keyIdInput_injective {der1 der2 : Bytes} {policy1 policy2 pin1 pin2 : Text} {m n : ℤ}
    (hpolicy1 : IsHash policy1) (hpolicy2 : IsHash policy2) (hpin1 : IsHash pin1)
    (hpin2 : IsHash pin2) (hm : 0 ≤ m) (hn : 0 ≤ n)
    (hder1 : ∃ length rest, der1 = 0x30 :: length :: rest ∧ ¬ IsDigitByte length)
    (hder2 : ∃ length rest, der2 = 0x30 :: length :: rest ∧ ¬ IsDigitByte length)
    (h : keyIdInput der1 policy1 pin1 m = keyIdInput der2 policy2 pin2 n) :
    policy1 = policy2 ∧ pin1 = pin2 ∧ m = n ∧ der1 = der2 := by
  simp only [keyIdInput, utf8_append, List.append_assoc, List.append_cancel_left_eq] at h
  obtain ⟨hpolicy, h⟩ := List.append_inj h
    (by rw [length_utf8_of_isHash hpolicy1, length_utf8_of_isHash hpolicy2])
  obtain ⟨hpin, h⟩ := List.append_inj h
    (by rw [length_utf8_of_isHash hpin1, length_utf8_of_isHash hpin2])
  obtain ⟨hepoch, hder⟩ := digits_append_der_injective hm hn hder1 hder2 h
  exact ⟨utf8_injective hpolicy, utf8_injective hpin, formatInt_injective hepoch,
    hder⟩

/-- What a key identifier stands for. -/
@[ext] structure KeySource where
  policy : Text
  pin : Text
  epoch : ℤ
  der : Bytes
  policy_isHash : IsHash policy
  pin_isHash : IsHash pin
  epoch_nonneg : 0 ≤ epoch
  der_head : ∃ length rest, der = 0x30 :: length :: rest ∧ ¬ IsDigitByte length

/-- The bytes that `ticketKeyID` hashes. -/
def KeySource.hashed (source : KeySource) : Bytes :=
  keyIdInput source.der source.policy source.pin source.epoch

theorem KeySource.hashed_injective : Function.Injective KeySource.hashed := by
  intro first second h
  obtain ⟨hpolicy, hpin, hepoch, hder⟩ := keyIdInput_injective first.policy_isHash
    second.policy_isHash first.pin_isHash second.pin_isHash first.epoch_nonneg second.epoch_nonneg
    first.der_head second.der_head h
  exact KeySource.ext hpolicy hpin hepoch hder

/-! ### Ticket messages -/

/-- The bytes a ticket message of a key begins with. -/
def messageLead (keyId : Text) : Bytes := utf8 (ticketDomain ++ keyId)

/-- The domain, the key identifier and 32 bytes. -/
def IsTicketMessage (keyId : Text) (message : Bytes) : Prop :=
  message.length = (messageLead keyId).length + 32 ∧
    message.take (messageLead keyId).length = messageLead keyId

instance (keyId : Text) (message : Bytes) : Decidable (IsTicketMessage keyId message) :=
  inferInstanceAs (Decidable (_ ∧ _))

/-- A message names one key. -/
theorem keyId_eq_of_isTicketMessage {keyId1 keyId2 : Text} {message : Bytes}
    (h1 : IsTicketMessage keyId1 message) (h2 : IsTicketMessage keyId2 message) :
    keyId1 = keyId2 := by
  have hlength : (messageLead keyId1).length = (messageLead keyId2).length := by
    have := h1.1
    have := h2.1
    omega
  have hlead : messageLead keyId1 = messageLead keyId2 := by
    rw [← h1.2, ← h2.2, hlength]
  exact List.append_cancel_left (utf8_injective hlead)

theorem isTicketMessage_append (keyId : Text) {tail : Bytes} (htail : tail.length = 32) :
    IsTicketMessage keyId (messageLead keyId ++ tail) := by
  simp [IsTicketMessage, htail]

/-- The key identifier of an hour under a policy. -/
def Policy.keyId (policy : Policy) (crypto : Crypto) (key : crypto.Key) (epoch : ℤ) : Text :=
  ticketKeyID crypto (crypto.marshalPublicKey key) policy.revision policy.pin epoch

/-- What the identifier of an hourly key stands for. -/
def Policy.keySource (policy : Policy) (crypto : Crypto) (key : crypto.Key) {epoch : ℤ}
    (hepoch : 0 ≤ epoch) : KeySource where
  policy := policy.revision
  pin := policy.pin
  epoch := epoch
  der := crypto.marshalPublicKey key
  policy_isHash := policy.revision_isHash
  pin_isHash := policy.pin_isHash
  epoch_nonneg := hepoch
  der_head := crypto.public_head key

/-- Assumes: the hash has no collision between the two keys. A message that is a ticket under the
keys of two hours belongs to one and the same hour, policy, pin and public key. -/
theorem keySource_eq_of_isTicketMessage {crypto : Crypto} {policy1 policy2 : Policy}
    {key1 key2 : crypto.Key} {m n : ℤ} (hm : 0 ≤ m) (hn : 0 ≤ n)
    (hsha : crypto.sha256 (policy1.keySource crypto key1 hm).hashed =
        crypto.sha256 (policy2.keySource crypto key2 hn).hashed →
      (policy1.keySource crypto key1 hm).hashed = (policy2.keySource crypto key2 hn).hashed)
    {message : Bytes} (h1 : IsTicketMessage (policy1.keyId crypto key1 m) message)
    (h2 : IsTicketMessage (policy2.keyId crypto key2 n) message) :
    policy1.keySource crypto key1 hm = policy2.keySource crypto key2 hn :=
  KeySource.hashed_injective (hsha (hexEncode_injective (keyId_eq_of_isTicketMessage h1 h2)))

end QortalRelay.Tickets
