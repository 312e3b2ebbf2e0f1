import QortalRelay.Foundation.Base128
import QortalRelay.Relay.Start

/-!
# The announcement of a relay

The wire format in which a relay announces itself, as `encode` writes it and `decode` reads it. A
header gives the version, the family of the address, the length of the name and the number of
groups; the address, the port and expiry, the pin of the certificate, the name and the groups
follow; the keys and the signature stand at the end and are found from there. A version 3
announcement, which a relay with a ticket key sends, packs the family into the byte of the name's
length and carries the whole public identity and the ticket key; version 2 carries the signing key
alone.
-/

set_option autoImplicit false
set_option relaxedAutoImplicit false

namespace QortalRelay.Discovery

open Foundation Encoding Binary
open AccessConfig (publicMode groupsMode)

/-! ### The libraries of the announcer -/

/-- An address of the `ipaddress` library. -/
structure IpAddress where
  address : Address
  scope : Option Text
deriving DecidableEq

/-- The `ipaddress` library. The text of an address is read back as that address. -/
structure IpLibrary where
  ipAddress : Text → Option IpAddress
  str : IpAddress → Text
  ipAddress_str : ∀ address, ipAddress (str ⟨address, none⟩) = some ⟨address, none⟩

/-- An identity of the network: the encryption key, the signing key, and signatures. -/
structure Identity where
  publicKey : Bytes
  length_publicKey : publicKey.length = 64
  sign : Bytes → Bytes
  length_sign : ∀ message, (sign message).length = 64

/-- The signing half of the public key. -/
def Identity.signingKey (identity : Identity) : Bytes := identity.publicKey.drop 32

/-- What is raised: by the codec itself, or by a library function it calls. -/
inductive Raised
  | value (message : String)
  | address
  | ascii
  | hex
  | struct
  | signature
deriving DecidableEq, Repr

/-! ### The encoder -/

/-- The largest payload of a Reticulum packet that an announcement may take. -/
def maxPayload : ℕ := 316

/-- What is signed begins with the domain of its version. -/
def domain (version : ℕ) : Bytes :=
  utf8 (if version = 3 then "Qortal-MASQUE-Discovery-v3\x00"
    else "Qortal-MASQUE-Discovery-v2\x00").toList

/-- The alphabet of names: letters, digits, dots and hyphens. -/
def isNameChar (c : Char) : Bool := c.isAlphanum || c = '.' || c = '-'

def sorted (groups : List ℤ) : List ℤ := groups.insertionSort (· ≤ ·)

/-- `struct.pack(">HI", port, expiry)` -/
def packEndpoint (port expiry : ℤ) : Option Bytes :=
  if (0 ≤ port ∧ port < 65536) ∧ 0 ≤ expiry ∧ expiry < 2 ^ 32 then
    some (bigEndian 2 port.toNat ++ bigEndian 4 expiry.toNat)
  else none

/-- The fields in front of the address. -/
structure Header where
  version : ℕ
  family : ℕ
  nameLength : ℕ
  count : ℕ
deriving DecidableEq

/-- Version 3 puts the family and the length of the name in one byte. -/
def Header.bytes (header : Header) : Bytes :=
  if header.version = 3 then
    [3, UInt8.ofNat ((header.nameLength - 1) ||| (if header.family = 6 then 128 else 0)),
      UInt8.ofNat header.count]
  else [2, UInt8.ofNat header.family, UInt8.ofNat header.nameLength, UInt8.ofNat header.count]

/-- The group ids one after the other, each in base 128. -/
def packGroups (groups : List ℕ) : Bytes := groups.flatMap Base128.pack

/-- The arguments of the encoder besides the identity. -/
structure Arguments where
  host : Text
  port : ℤ
  name : Text
  pin : Text
  expiry : ℤ
  mode : Text
  groups : List ℤ
  ticketKey : Option Text

/-- The keys at the end of the announcement. -/
def encodeKeys (identity : Identity) : Option Text → Except Raised Bytes
  | none => .ok identity.signingKey
  | some text => do
    let ticketKey ← require (hexDecode text) .hex
    ensure (ticketKey.length = 32) (.value "invalid ticket key")
    return identity.publicKey ++ ticketKey

/-- `encode` up to its last check. -/
def build (ip : IpLibrary) (identity : Identity) (arguments : Arguments) :
    Except Raised Bytes := do
  let host ← require (ip.ipAddress arguments.host) .address
  let groups := sorted arguments.groups
  ensure ((arguments.mode = publicMode ∨ arguments.mode = groupsMode) ∧ groups.length ≤ 16 ∧
    groups.dedup.length = groups.length) (.value "invalid relay access policy")
  ensure ((arguments.mode = groupsMode ↔ groups ≠ []) ∧ ∀ g ∈ groups, 0 < g ∧ g < 2 ^ 31)
    (.value "invalid relay group IDs")
  let label ← require (asciiEncode arguments.name) .ascii
  ensure ((1 ≤ label.length ∧ label.length ≤ 128) ∧ arguments.name.all isNameChar)
    (.value "invalid relay name")
  ensure (0 < arguments.port ∧ arguments.port ≤ 65535) (.value "invalid relay endpoint")
  let pin ← require (hexDecode arguments.pin) .hex
  ensure (pin.length = 32) (.value "invalid relay endpoint")
  let version := if arguments.ticketKey.isSome then 3 else 2
  let header : Header := ⟨version, host.address.version, label.length, groups.length⟩
  let endpoint ← require (packEndpoint arguments.port arguments.expiry) .struct
  let keys ← encodeKeys identity arguments.ticketKey
  let data := header.bytes ++ host.address.packed ++ endpoint ++ pin ++ label ++
    packGroups (groups.map Int.toNat) ++ keys
  return data ++ identity.sign (domain version ++ data)

def payloadError : Raised :=
  .value ("relay announcement exceeds Reticulum packet budget; " ++
    "shorten server name or group list")

/-- The announcement of a relay, signed, or the exception that the codec raises. -/
def encode (ip : IpLibrary) (identity : Identity) (arguments : Arguments) :
    Except Raised Bytes := do
  let result ← build ip identity arguments
  ensure (result.length ≤ maxPayload) payloadError
  return result

/-! ### The decoder -/

def byteAt (raw : Bytes) (i : ℕ) : ℕ := (raw.getD i 0).toNat

/-- The reader of `Header.bytes`; a missing byte counts as 0, and the length is checked before. -/
def Header.read (raw : Bytes) : Header :=
  if byteAt raw 0 = 3 then
    ⟨3, if byteAt raw 1 &&& 128 ≠ 0 then 6 else 4, (byteAt raw 1 &&& 127) + 1, byteAt raw 2⟩
  else ⟨byteAt raw 0, byteAt raw 1, byteAt raw 2, byteAt raw 3⟩

/-- Where the address begins. -/
def Header.size (header : Header) : ℕ := if header.version = 3 then 3 else 4

def Header.endpointOffset (header : Header) : ℕ := header.size + Address.size header.family

def Header.pinOffset (header : Header) : ℕ := header.endpointOffset + 6

def Header.nameOffset (header : Header) : ℕ := header.pinOffset + 32

def Header.groupsOffset (header : Header) : ℕ := header.nameOffset + header.nameLength

/-- The bytes of the keys and the signature. -/
def Header.tail (header : Header) : ℕ := if header.version = 3 then 160 else 96

def groupError : Base128.ReadError → Raised
  | .truncated => .value "truncated group ID"
  | .nonCanonical => .value "non-canonical group ID"
  | .tooLong => .value "invalid group ID"

/-- The groups from a position on, and the position after them. -/
def readGroups (next : ℕ → Option UInt8) : ℕ → ℕ → Except Raised (List ℕ × ℕ)
  | 0, offset => .ok ([], offset)
  | count + 1, offset => do
    let (value, offset) ← (Base128.read next 5 offset).mapError groupError
    ensure (0 < value ∧ value < 2 ^ 31) (.value "invalid group ID")
    let (groups, offset) ← readGroups next count offset
    return (value :: groups, offset)

/-- `struct.unpack(">HI", raw)` -/
def unpackEndpoint (raw : Bytes) : Option (ℕ × ℕ) :=
  if raw.length = 6 then some (bigEndianValue (raw.take 2), bigEndianValue (raw.drop 2)) else none

/-- The mapping that `decode` returns, under the names of its keys. -/
structure Decoded where
  v : ℕ
  h : Text
  p : ℤ
  s : Text
  c : Text
  x : ℤ
  ticketIdentity : Option Text
  ticketKeyId : Option Text
  relayIdentity : Text
  accessMode : Text
  allowedGroupIds : List ℤ
deriving DecidableEq

/-- The identity of version 3; there is none in version 2, which counts as an empty one. -/
def identityOf (version : ℕ) (raw : Bytes) : Bytes :=
  if version = 3 then slice raw (raw.length - 160) (raw.length - 96) else []

/-- The key before the signature: the ticket key of version 3, the signing key of version 2. -/
def lastKey (raw : Bytes) : Bytes := slice raw (raw.length - 96) (raw.length - 64)

/-- The key of the signature: version 3 takes it from the identity, version 2 from the end. -/
def keyOf (version : ℕ) (raw : Bytes) : Bytes :=
  if identityOf version raw ≠ [] then (identityOf version raw).drop 32 else lastKey raw

/-- The clock is read once for each of the two bounds on the expiry. -/
def decode (ip : IpLibrary) (verify : Bytes → Bytes → Bytes → Bool) (first second : ℤ)
    (raw : Bytes) : Except Raised Decoded := do
  ensure ((108 ≤ raw.length ∧ raw.length ≤ maxPayload) ∧ (byteAt raw 0 = 2 ∨ byteAt raw 0 = 3) ∧
    (byteAt raw 0 = 2 → byteAt raw 1 = 4 ∨ byteAt raw 1 = 6))
    (.value "invalid relay advertisement")
  let header := Header.read raw
  ensure ((1 ≤ header.nameLength ∧ header.nameLength ≤ 128) ∧ header.count ≤ 16)
    (.value "invalid relay advertisement")
  let identity := identityOf header.version raw
  let key := keyOf header.version raw
  ensure (verify key (raw.drop (raw.length - 64))
    (domain header.version ++ raw.take (raw.length - 64)) = true) .signature
  let host ← require (Address.ofBytes (slice raw header.size header.endpointOffset)) .address
  let (port, expiry) ←
    require (unpackEndpoint (slice raw header.endpointOffset header.pinOffset)) .struct
  let pin := hexEncode (slice raw header.pinOffset header.nameOffset)
  let name ← require (asciiDecode (slice raw header.nameOffset header.groupsOffset)) .ascii
  let (groups, offset) ←
    readGroups (sourceBelow raw (raw.length - header.tail)) header.count header.groupsOffset
  ensure (offset + header.tail = raw.length ∧ groups = groups.dedup.insertionSort (· ≤ ·))
    (.value "invalid group list")
  ensure (first < expiry ∧ expiry ≤ second + 3600) (.value "expired relay advertisement")
  return {
    v := header.version
    h := ip.str ⟨host, none⟩
    p := port
    s := name
    c := pin
    x := expiry
    ticketIdentity := if identity ≠ [] then some (hexEncode identity) else none
    ticketKeyId := if identity ≠ [] then some (hexEncode (lastKey raw)) else none
    relayIdentity := hexEncode key
    accessMode := if groups ≠ [] then groupsMode else publicMode
    allowedGroupIds := groups.map (↑) }

end QortalRelay.Discovery
