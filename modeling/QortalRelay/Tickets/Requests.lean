import QortalRelay.Tickets.KeyId
import Mathlib.Data.Nat.Digits.Defs

/-!
# Requests to the ticket authority

The parts of the authority that touch neither the lock nor the database: the checks on a request
before and after its descriptor is known, the text a request is bound to, the account proof with
its Base58 key, signature and address, and the checks on a ticket that is presented. JSON and
Base64 decoding are parameters (`Codec`); nothing below depends on what they accept.
-/

set_option autoImplicit false
set_option relaxedAutoImplicit false

namespace QortalRelay.Tickets

open Foundation.Decimal Foundation.Encoding

/-! ### What is sent and what is answered -/

/-- The proof that an account makes an issue request. -/
structure RelayProof where
  type : Text
  relayPin : Text
  policy : Text
  binding : Text
  nonce : Text
  expiresAt : ℤ
  authorAddress : Text
  authorPublicKey : Text
  signature : Text
deriving DecidableEq, Repr

/-- The body of a request to the authority. -/
structure Input where
  descriptor : Option Descriptor
  blinded : List Text
  proof : Option RelayProof
deriving DecidableEq, Repr

/-- A ticket as it is presented on a connection. -/
structure Ticket where
  epoch : ℤ
  keyId : Text
  message : Text
  signature : Text
deriving DecidableEq, Repr

/-- The decoders of the standard library, strict about unknown and duplicate JSON members. -/
structure Codec where
  decodeInput : Bytes → Option Input
  decodeTicket : Bytes → Option Ticket
  base64Encode : Bytes → Text
  base64Decode : Text → Option Bytes

/-- The paths the authority answers. -/
inductive Route
  | catalog
  | challenge
  | issue
  | other
deriving DecidableEq, Repr

/-- An HTTP request as far as the authority reads it. -/
structure Request where
  isPost : Bool
  route : Route
  /-- Missing when the body could not be read. -/
  body : Option Bytes
deriving DecidableEq, Repr

/-- The codes that a refusal carries. -/
inductive ErrorCode
  | rateLimited
  | proofInvalid
  | authUnavailable
  | accessDenied
  | membershipUnavailable
  | authRequired
deriving DecidableEq, Repr

/-- The text of an error answer, which is also the value of its header. -/
def ErrorCode.text : ErrorCode → String
  | rateLimited => "RELAY_AUTH_RATE_LIMITED"
  | proofInvalid => "RELAY_PROOF_INVALID"
  | authUnavailable => "RELAY_AUTH_UNAVAILABLE"
  | accessDenied => "RELAY_ACCESS_DENIED"
  | membershipUnavailable => "RELAY_MEMBERSHIP_UNAVAILABLE"
  | authRequired => "RELAY_AUTH_REQUIRED"

/-- An answer that refuses the request. -/
structure Refusal where
  status : ℕ
  code : ErrorCode
deriving DecidableEq, Repr

/-! ### Before the descriptor is known -/

/-- The checks on a request and its body, each with the status of its refusal. -/
def parseRequest (codec : Codec) (request : Request) : Except Refusal Input :=
  if ¬ request.isPost then .error ⟨405, .proofInvalid⟩
  else
    match request.body with
    | none => .error ⟨400, .proofInvalid⟩
    | some body =>
      if 8192 < (body.take 8193).length then .error ⟨400, .proofInvalid⟩
      else
        match codec.decodeInput (body.take 8193) with
        | none => .error ⟨400, .proofInvalid⟩
        | some input => .ok input

/-! ### Descriptors and what a request is bound to -/

/-- The public description of an hourly key. -/
def descriptorFor (crypto : Crypto) (codec : Codec) (policy : Policy) (epoch : ℤ)
    (key : crypto.Key) : Descriptor where
  epoch := epoch
  expiresAt := (epoch * 3600 + ticketLifetime) * 1000
  publicKey := codec.base64Encode (crypto.marshalPublicKey key)
  keyId := policy.keyId crypto key epoch
  policy := policy.revision
  relayPin := policy.pin

/-- A request whose descriptor and blinded values passed the checks. -/
structure Bound where
  descriptor : Descriptor
  blinded : List Text
  /-- How much had been logged when the descriptor call of the request began; read by nothing. -/
  since : ℕ
deriving DecidableEq, Repr

/-- The checks on a challenge or issue request under the current descriptor. -/
def admitInput (codec : Codec) (policy : Policy) (since : ℕ) (input : Input)
    (descriptor : Descriptor) : Except Refusal Bound :=
  if policy.mode ≠ .groups then .error ⟨403, .accessDenied⟩
  else if input.descriptor ≠ some descriptor ∨ input.blinded.length < 1 ∨ 3 < input.blinded.length
  then .error ⟨403, .proofInvalid⟩
  else if input.blinded.any fun b ↦ (codec.base64Decode b).all fun v ↦ v.length ≠ 256
  then .error ⟨403, .proofInvalid⟩
  else .ok ⟨descriptor, input.blinded, since⟩

theorem admitInput_ok {codec : Codec} {policy : Policy} {since : ℕ} {input : Input}
    {descriptor : Descriptor} {bound : Bound}
    (h : admitInput codec policy since input descriptor = .ok bound) :
    bound = ⟨descriptor, input.blinded, since⟩ ∧
      1 ≤ bound.blinded.length ∧ bound.blinded.length ≤ 3 := by
  unfold admitInput at h
  split_ifs at h with hmode hinput hblinded
  obtain rfl := Except.ok.inj h
  refine ⟨rfl, ?_⟩
  simp only
  omega

/-- A request that passes every check. -/
theorem admitInput_eq_ok {codec : Codec} {policy : Policy} (since : ℕ) {input : Input}
    {descriptor : Descriptor} (hmode : policy.mode = .groups)
    (hdescriptor : input.descriptor = some descriptor)
    (hlength : 1 ≤ input.blinded.length ∧ input.blinded.length ≤ 3)
    (hdecode : ∀ b ∈ input.blinded, ∃ v, codec.base64Decode b = some v ∧ v.length = 256) :
    admitInput codec policy since input descriptor = .ok ⟨descriptor, input.blinded, since⟩ := by
  have hvalues : (input.blinded.any fun b ↦
      (codec.base64Decode b).all fun v ↦ v.length ≠ 256) = false := by
    simp only [List.any_eq_false]
    intro b hb
    obtain ⟨v, hv, hvlength⟩ := hdecode b hb
    simp [hv, hvlength]
  have hinput : ¬ (input.descriptor ≠ some descriptor ∨ input.blinded.length < 1 ∨
      3 < input.blinded.length) := by
    rw [hdescriptor]
    simp only [ne_eq, not_true_eq_false, false_or]
    omega
  rw [admitInput, if_neg (by simp [hmode]), if_neg hinput, hvalues]
  rfl

/-- The JSON text of a key identifier and a list of blinded values. -/
def bindingText (keyId : Text) (blinded : List Text) : Text :=
  "\x7b\"key\":".toList ++ quote keyId ++ ",\"blinded\":".toList ++
    (array quote blinded ++ "\x7d".toList)

theorem bindingText_injective {keyId1 keyId2 : Text} {blinded1 blinded2 : List Text}
    (h : bindingText keyId1 blinded1 = bindingText keyId2 blinded2) :
    keyId1 = keyId2 ∧ blinded1 = blinded2 := by
  obtain ⟨hkey, htail⟩ :=
    readable_quote.enclose "\x7b\"key\":".toList ",\"blinded\":".toList _ _ _ _ h
  exact ⟨hkey, (readable_array_quote _ _ _ _ htail).1⟩

/-- What a challenge is issued for. -/
def Bound.source (bound : Bound) : Bytes :=
  utf8 (bindingText bound.descriptor.keyId bound.blinded)

/-- The hash a challenge is issued for. -/
def Bound.binding (bound : Bound) (crypto : Crypto) : Text :=
  hexEncode (crypto.sha256 bound.source)

/-- Assumes: the hash has no collision between the two. Equal bindings come from one key identifier
and one list of blinded values. -/
theorem Bound.eq_of_binding_eq {crypto : Crypto} {first second : Bound}
    (hsha : crypto.sha256 first.source = crypto.sha256 second.source →
      first.source = second.source) (h : first.binding crypto = second.binding crypto) :
    first.descriptor.keyId = second.descriptor.keyId ∧ first.blinded = second.blinded :=
  bindingText_injective (utf8_injective (hsha (hexEncode_injective h)))

/-! ### Account proofs -/

def base58Alphabet : Text := "123456789ABCDEFGHJKLMNPQRSTUVWXYZabcdefghijkmnopqrstuvwxyz".toList

/-- The value of a Base58 text, most significant digit first. -/
def base58Value (text : Text) : Option ℕ :=
  text.foldlM (fun value c ↦ (base58Alphabet.idxOf? c).map (58 * value + ·)) 0

/-- The big-endian bytes of a number, without leading zeros. -/
def bigEndian (n : ℕ) : Bytes := (Nat.digits 256 n).reverse.map UInt8.ofNat

/-- The bytes that a text writes in base 58, if they are of the expected size. -/
def decodeBase58 (text : Text) (size : ℕ) : Option Bytes :=
  if 100 < (utf8 text).length ∨ text = [] then none
  else do
    let value ← base58Value text
    let bytes := List.replicate (text.takeWhile (· == '1')).length 0 ++ bigEndian value
    if bytes.length ≠ size then none else some bytes

/-- The number with the given big-endian bytes. -/
def bigEndianValue (bytes : Bytes) : ℕ := bytes.foldl (fun value b ↦ 256 * value + b.toNat) 0

/-- The text of the bytes in base 58, with a `1` for each leading zero. -/
def encodeBase58 (bytes : Bytes) : Text :=
  List.replicate (bytes.takeWhile (· == 0)).length '1' ++
    ((Nat.digits 58 (bigEndianValue bytes)).map fun d ↦ base58Alphabet.getD d '1').reverse

/-- The account address of a public key: a version byte, the hash of the key and a checksum. -/
def addressForKey (crypto : Crypto) (key : Bytes) : Text :=
  let body := 58 :: crypto.ripemd160 (crypto.sha256 key)
  encodeBase58 (body ++ (crypto.sha256 (crypto.sha256 body)).take 4)

def issueType : Text := "masque-ticket-issue-v1".toList

/-- The JSON text an account signs, its members in alphabetical order. -/
def proofMessage (type relayPin policy binding nonce : Text) (expiresAt : ℤ)
    (authorAddress authorPublicKey : Text) : Text :=
  "\x7b\"authorAddress\":".toList ++ quote authorAddress ++
    ",\"authorPublicKey\":".toList ++ quote authorPublicKey ++
    ",\"binding\":".toList ++ quote binding ++
    ",\"expiresAt\":".toList ++ formatInt expiresAt ++
    ",\"nonce\":".toList ++ quote nonce ++
    ",\"policy\":".toList ++ quote policy ++
    ",\"relayPin\":".toList ++ quote relayPin ++
    ",\"type\":".toList ++ quote type ++ "\x7d".toList

/-- The answer to a challenge request. -/
structure ChallengeAnswer where
  type : Text
  relayPin : Text
  policy : Text
  binding : Text
  nonce : Text
  expiresAt : ℤ
deriving DecidableEq, Repr

/-- The answer to a request whose challenge was drawn at a time: it names the relay, its policy and
the request, and lasts a minute. -/
def challengeAnswer (crypto : Crypto) (policy : Policy) (bound : Bound) (nonce : Text)
    (created : Time) : ChallengeAnswer :=
  ⟨issueType, policy.pin, policy.revision, bound.binding crypto, nonce,
    (created.add Time.minute).unixMilli⟩

/-- The fields of a proof that repeat the answer to a challenge request. -/
def RelayProof.answer (proof : RelayProof) : ChallengeAnswer :=
  ⟨proof.type, proof.relayPin, proof.policy, proof.binding, proof.nonce, proof.expiresAt⟩

/-- The text a proof is a signature of. -/
def RelayProof.message (proof : RelayProof) : Text :=
  proofMessage proof.type proof.relayPin proof.policy proof.binding proof.nonce proof.expiresAt
    proof.authorAddress proof.authorPublicKey

/-- The key and signature of a proof are well formed, the key has the address, and the signature is
one of the message. -/
def RelayProof.signed (crypto : Crypto) (proof : RelayProof) : Bool :=
  match decodeBase58 proof.authorPublicKey 32, decodeBase58 proof.signature 64 with
  | some key, some signature =>
    decide (addressForKey crypto key = proof.authorAddress) &&
      crypto.ed25519Verify key (utf8 proof.message) signature
  | _, _ => false

theorem length_decodeBase58 {text : Text} {size : ℕ} {bytes : Bytes}
    (h : decodeBase58 text size = some bytes) : bytes.length = size := by
  unfold decodeBase58 at h
  split_ifs at h
  simp only [Option.bind_eq_bind, Option.bind_eq_some_iff] at h
  obtain ⟨value, -, hbytes⟩ := h
  split_ifs at hbytes with hsize
  obtain rfl := Option.some.inj hbytes
  exact not_not.mp hsize

theorem RelayProof.signed_iff {crypto : Crypto} {proof : RelayProof} :
    proof.signed crypto ↔ ∃ key signature,
      decodeBase58 proof.authorPublicKey 32 = some key ∧
      decodeBase58 proof.signature 64 = some signature ∧
      addressForKey crypto key = proof.authorAddress ∧
      crypto.ed25519Verify key (utf8 proof.message) signature := by
  unfold RelayProof.signed
  split
  · rename_i key signature hkey hsignature
    simp [hkey, hsignature]
  · rename_i hnone
    constructor
    · simp
    · rintro ⟨key, signature, hkey, hsignature, -⟩
      exact absurd hsignature (hnone key signature hkey)

/-- A challenge that waits for its issue request. -/
structure Challenge where
  binding : Text
  epoch : ℤ
  expires : Time
deriving DecidableEq, Repr

/-- What the authority keeps of a challenge drawn at a time. -/
def Bound.challenge (bound : Bound) (crypto : Crypto) (created : Time) : Challenge :=
  ⟨bound.binding crypto, bound.descriptor.epoch, created.add Time.minute⟩

/-- A request for tickets: what it is bound to, and the proof that comes with it. -/
structure Application where
  bound : Bound
  proof : RelayProof
deriving DecidableEq, Repr

/-- The comparisons between an issue request and the challenge found under its nonce. -/
def challengeHolds (crypto : Crypto) (policy : Policy) (now : Time) (application : Application) :
    Option Challenge → Bool
  | none => false
  | some challenge =>
    !now.after challenge.expires &&
    decide (challenge.epoch = application.bound.descriptor.epoch) &&
    decide (challenge.binding = application.bound.binding crypto) &&
    decide (application.proof.type = issueType) &&
    decide (application.proof.relayPin = policy.pin) &&
    decide (application.proof.policy = policy.revision) &&
    decide (application.proof.binding = challenge.binding) &&
    decide (application.proof.expiresAt = challenge.expires.unixMilli)

theorem challengeHolds_iff {crypto : Crypto} {policy : Policy} {now : Time}
    {application : Application} {found : Option Challenge} :
    challengeHolds crypto policy now application found ↔
      ∃ challenge, found = some challenge ∧ now.after challenge.expires = false ∧
        challenge.epoch = application.bound.descriptor.epoch ∧
        challenge.binding = application.bound.binding crypto ∧
        application.proof.type = issueType ∧ application.proof.relayPin = policy.pin ∧
        application.proof.policy = policy.revision ∧
        application.proof.binding = challenge.binding ∧
        application.proof.expiresAt = challenge.expires.unixMilli := by
  cases found with
  | none => simp [challengeHolds]
  | some challenge => simp [challengeHolds, and_assoc]

/-! ### Signing -/

/-- The blind signatures on the decoded values, in order. -/
def signAll (crypto : Crypto) (codec : Codec) (key : crypto.Key) (blinded : List Text) :
    Option (List Text) :=
  blinded.mapM fun b ↦
    (crypto.blindSign key ((codec.base64Decode b).getD [])).map codec.base64Encode

/-! ### Presented tickets -/

/-- A ticket of at most 2048 bytes. -/
def parseTicket (codec : Codec) (raw : Bytes) : Option Ticket :=
  if 2048 < raw.length then none else codec.decodeTicket raw

/-- The checks on a ticket under the descriptor and the key of its hour; the message it spends. -/
def verifyTicket (crypto : Crypto) (codec : Codec) (ticket : Ticket) (descriptor : Descriptor)
    (key : crypto.Key) (now : Time) : Option Bytes :=
  if descriptor.keyId ≠ ticket.keyId ∨ descriptor.expiresAt ≤ now.unixMilli then none
  else
    match codec.base64Decode ticket.message, codec.base64Decode ticket.signature with
    | some message, some signature =>
      if IsTicketMessage descriptor.keyId message ∧ signature.length = 256 ∧
          crypto.verify key message signature
      then some message else none
    | _, _ => none

theorem verifyTicket_some {crypto : Crypto} {codec : Codec} {ticket : Ticket}
    {descriptor : Descriptor} {key : crypto.Key} {now : Time} {message : Bytes}
    (h : verifyTicket crypto codec ticket descriptor key now = some message) :
    now.unixMilli < descriptor.expiresAt ∧ IsTicketMessage descriptor.keyId message := by
  unfold verifyTicket at h
  split_ifs at h with hdescriptor
  split at h
  · split_ifs at h with hmessage
    obtain rfl := Option.some.inj h
    exact ⟨by omega, hmessage.1⟩
  · simp at h

/-- A ticket that passes every check. -/
theorem verifyTicket_eq_some {crypto : Crypto} {codec : Codec} {ticket : Ticket}
    {descriptor : Descriptor} {key : crypto.Key} {now : Time} {message signature : Bytes}
    (hkeyId : descriptor.keyId = ticket.keyId) (hnow : now.unixMilli < descriptor.expiresAt)
    (hdecode : codec.base64Decode ticket.message = some message)
    (hsignature : codec.base64Decode ticket.signature = some signature)
    (hmessage : IsTicketMessage descriptor.keyId message) (hlength : signature.length = 256)
    (hverify : crypto.verify key message signature) :
    verifyTicket crypto codec ticket descriptor key now = some message := by
  have hmessage' : IsTicketMessage ticket.keyId message := hkeyId ▸ hmessage
  simp [verifyTicket, hkeyId, not_le.mpr hnow, hdecode, hsignature, hlength, hverify, hmessage']

/-- The identifier of a spent ticket. -/
def ticketId (crypto : Crypto) (message : Bytes) : Text := hexEncode (crypto.sha256 message)

/-- The deadline of a grant. The reading it is added to comes before the reading it is computed
from. -/
def deadline (descriptor : Descriptor) (first second : Time) : Time :=
  first.add (wrap64 (wrap64 (descriptor.expiresAt - second.unixMilli) * Time.millisecond))

end QortalRelay.Tickets
