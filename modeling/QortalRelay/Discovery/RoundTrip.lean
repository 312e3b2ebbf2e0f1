import Mathlib.Data.List.TakeWhile
import QortalRelay.Discovery.Advertisement

/-!
# Round trips of announcements

What the encoder writes is decoded to its arguments, in their canonical form. In the other direction
an advertisement is determined by what it is decoded to (`decoded_injective`), so it has one layout;
but the decoder also accepts advertisements that the encoder does not write. It does not look at the
port, and of the name it only asks that it is ASCII. The encoder gives back exactly the
announcements whose bytes hold a port that is not zero and a name over the alphabet (`Sendable`).
-/

set_option autoImplicit false
set_option relaxedAutoImplicit false

namespace QortalRelay.Discovery

open Foundation Encoding Binary
open AccessConfig (publicMode groupsMode)

variable {ip : IpLibrary} {verify : Bytes → Bytes → Bytes → Bool} {identity : Identity}
  {arguments : Arguments} {ad : Advertisement} {first second : ℤ} {raw : Bytes}

theorem encode_eq_ok_iff : encode ip identity arguments = .ok raw ↔
    (∃ ad, Describes ip identity arguments ad ∧
      raw = ad.layout ++ identity.sign (domain ad.keys.version ++ ad.layout)) ∧
      raw.length ≤ maxPayload := by
  simp only [encode, bind_eq_ok, ensure_eq_ok, pure_eq_ok, exists_const, build_eq_ok_iff]
  constructor
  · rintro ⟨_, had, hsize, rfl⟩
    exact ⟨had, hsize⟩
  · rintro ⟨had, hsize⟩
    exact ⟨_, had, hsize, rfl⟩

/-! ### What is encoded is decoded -/

theorem Keys.Describe.signingKey_eq {keys : Keys} {ticketKey : Option Text}
    (h : keys.Describe identity ticketKey) : keys.signingKey = identity.signingKey := by
  cases ticketKey with
  | none =>
    obtain rfl := h
    rfl
  | some text =>
    obtain ⟨_, _, -, rfl⟩ := h
    rfl

theorem Keys.Describe.identity_eq {keys : Keys} {ticketKey : Option Text}
    (h : keys.Describe identity ticketKey) :
    keys.identity.map hexEncode = ticketKey.map fun _ ↦ hexEncode identity.publicKey := by
  cases ticketKey with
  | none =>
    obtain rfl := h
    rfl
  | some text =>
    obtain ⟨_, _, -, rfl⟩ := h
    rfl

theorem Keys.Describe.ticketKey_eq {keys : Keys} {ticketKey : Option Text}
    (h : keys.Describe identity ticketKey) :
    keys.ticketKey.map hexEncode = ticketKey.map normalized := by
  cases ticketKey with
  | none =>
    obtain rfl := h
    rfl
  | some text =>
    obtain ⟨_, _, hdecode, rfl⟩ := h
    exact congrArg some (hexEncode_of_hexDecode hdecode)

/-- The arguments of the encoder in their canonical form, with the address of the host. -/
def Arguments.canonical (arguments : Arguments) (ip : IpLibrary) (identity : Identity)
    (address : Address) : Decoded where
  v := if arguments.ticketKey.isSome then 3 else 2
  h := ip.str ⟨address, none⟩
  p := arguments.port
  s := arguments.name
  c := normalized arguments.pin
  x := arguments.expiry
  ticketIdentity := arguments.ticketKey.map fun _ ↦ hexEncode identity.publicKey
  ticketKeyId := arguments.ticketKey.map normalized
  relayIdentity := hexEncode identity.signingKey
  accessMode := arguments.mode
  allowedGroupIds := sorted arguments.groups

theorem Describes.decoded_eq (h : Describes ip identity arguments ad) :
    ad.decoded ip = arguments.canonical ip identity ad.host := by
  simp only [Advertisement.decoded, Arguments.canonical, h.keys.version, h.port, h.name,
    hexEncode_of_hexDecode h.pin, h.expiry, h.keys.identity_eq, h.keys.ticketKey_eq,
    h.keys.signingKey_eq, h.mode, h.groups]

/-- What is encoded is decoded, with the address that the host is read as; its scope is lost. -/
theorem exists_decode_of_encode
    (hverify : ∀ message, verify identity.signingKey (identity.sign message) message = true)
    (hencode : encode ip identity arguments = .ok raw) :
    ∃ address scope, ip.ipAddress arguments.host = some ⟨address, scope⟩ ∧
      ∀ first second, first < arguments.expiry → arguments.expiry ≤ second + 3600 →
        decode ip verify first second raw = .ok (arguments.canonical ip identity address) := by
  obtain ⟨⟨ad, had, rfl⟩, hsize⟩ := encode_eq_ok_iff.mp hencode
  obtain ⟨scope, hhost⟩ := had.host
  refine ⟨ad.host, scope, hhost, fun first second hfirst hsecond ↦ ?_⟩
  have hsigned := hverify (domain ad.keys.version ++ ad.layout)
  rw [← had.keys.signingKey_eq] at hsigned
  rw [had.expiry] at hfirst hsecond
  rw [decode_layout ad (identity.length_sign _) hsize hsigned hfirst hsecond, had.decoded_eq]

/-- Assumes: signatures that the library verifies, a host without a zone, arguments that the
encoder accepts, and a time within the hour before the expiry. -/
theorem decode_encode {address : Address}
    (hverify : ∀ message, verify identity.signingKey (identity.sign message) message = true)
    (haddress : ip.ipAddress arguments.host = some ⟨address, none⟩)
    (hencode : encode ip identity arguments = .ok raw) (hfirst : first < arguments.expiry)
    (hsecond : arguments.expiry ≤ second + 3600) :
    decode ip verify first second raw = .ok
      { v := if arguments.ticketKey.isSome then 3 else 2
        h := ip.str ⟨address, none⟩
        p := arguments.port
        s := arguments.name
        c := normalized arguments.pin
        x := arguments.expiry
        ticketIdentity := arguments.ticketKey.map fun _ ↦ hexEncode identity.publicKey
        ticketKeyId := arguments.ticketKey.map normalized
        relayIdentity := hexEncode identity.signingKey
        accessMode := arguments.mode
        allowedGroupIds := sorted arguments.groups } := by
  obtain ⟨found, scope, hfound, hdecode⟩ := exists_decode_of_encode hverify hencode
  obtain rfl : found = address := by
    rw [haddress, Option.some.injEq] at hfound
    exact (congrArg IpAddress.address hfound).symm
  exact hdecode first second hfirst hsecond

/-- Three addresses and their texts. -/
def sampleTexts : List (Text × Address) :=
  [("1.1.1.1".toList, ⟨List.replicate 4 1, Or.inl rfl⟩),
    ("100::1".toList, ⟨1 :: List.replicate 14 0 ++ [1], Or.inr rfl⟩),
    ("2001:4860:4860::8888".toList,
      ⟨[0x20, 0x01] ++ [0x48, 0x60, 0x48, 0x60] ++ List.replicate 8 0 ++ [0x88, 0x88], Or.inr rfl⟩)]

/-- The texts of these addresses; the others are in hexadecimal here. -/
def sampleHost (address : Address) : Text :=
  match sampleTexts.find? fun pair ↦ pair.2 = address with
  | some pair => pair.1
  | none => hexEncode address.packed

def sampleAddress (text : Text) : Option Address :=
  match sampleTexts.find? fun pair ↦ pair.1 = text with
  | some pair => some pair.2
  | none => ((hexDecode text).bind Address.ofBytes).filter fun address ↦
      sampleTexts.all fun pair ↦ pair.2 ≠ address

/-- A scope comes after a percent sign. -/
def sampleText (ip : IpAddress) : Text :=
  sampleHost ip.address ++ (ip.scope.elim [] fun scope ↦ '%' :: scope)

def sampleRead (text : Text) : Option IpAddress :=
  if text.contains '/' then none
  else
    let address := sampleAddress (text.takeWhile (· != '%'))
    match text.dropWhile (· != '%') with
    | [] => address.map (⟨·, none⟩)
    | _ :: scope =>
      if scope.isEmpty || scope.contains '%' then none else address.map (⟨·, some scope⟩)

theorem hexEncode_ne {bytes : Bytes} {c : Char} (hc : c ∈ hexEncode bytes) :
    c ≠ '%' ∧ c ≠ '/' ∧ c ≠ '.' ∧ c ≠ ':' := by
  have hall : ∀ n : Fin 16, hexDigit n ≠ '%' ∧ hexDigit n ≠ '/' ∧ hexDigit n ≠ '.' ∧
      hexDigit n ≠ ':' := by decide +kernel
  obtain ⟨n, rfl⟩ := mem_hexEncode hc
  exact hall n

theorem sampleHost_ne {address : Address} {c : Char} (hc : c ∈ sampleHost address) :
    c ≠ '%' ∧ c ≠ '/' := by
  have hall : (sampleTexts.all fun pair ↦ pair.1.all fun c ↦ c != '%' && c != '/') = true := by
    decide +kernel
  unfold sampleHost at hc
  split at hc
  · next pair hfound =>
    have hpair := List.all_eq_true.mp hall pair (List.mem_of_find?_eq_some hfound)
    simpa using List.all_eq_true.mp hpair c hc
  · exact ⟨(hexEncode_ne hc).1, (hexEncode_ne hc).2.1⟩

theorem sampleAddress_host (address : Address) :
    sampleAddress (sampleHost address) = some address := by
  have hlisted : ∀ pair ∈ sampleTexts,
      sampleTexts.find? (fun other ↦ other.1 = pair.1) = some pair := by decide +kernel
  have hpoint : ∀ pair ∈ sampleTexts, '.' ∈ pair.1 ∨ ':' ∈ pair.1 := by decide +kernel
  unfold sampleHost
  split
  · next pair hfound =>
    have haddress : pair.2 = address := by simpa using List.find?_some hfound
    rw [sampleAddress, hlisted pair (List.mem_of_find?_eq_some hfound)]
    exact congrArg some haddress
  · next hnone =>
    -- A text in hexadecimal is none of the three.
    have hother : sampleTexts.find? (fun pair ↦ pair.1 = hexEncode address.packed) = none := by
      rw [List.find?_eq_none]
      intro pair hpair htext
      have htext : pair.1 = hexEncode address.packed := by simpa using htext
      rcases hpoint pair hpair with hmem | hmem
      · exact (hexEncode_ne (htext ▸ hmem)).2.2.1 rfl
      · exact (hexEncode_ne (htext ▸ hmem)).2.2.2 rfl
    have hunlisted : (sampleTexts.all fun pair ↦ pair.2 ≠ address) = true := by
      rw [List.all_eq_true]
      intro pair hpair
      simpa using List.find?_eq_none.mp hnone pair hpair
    have hread : (hexDecode (hexEncode address.packed)).bind Address.ofBytes = some address := by
      rw [hexDecode_hexEncode]
      exact Address.ofBytes_eq_some_iff.mpr rfl
    rw [sampleAddress, hother]
    simp only [hread, Option.filter_some, hunlisted, if_true]

theorem sampleRead_text (address : Address) (scope : Option Text) :
    sampleRead (sampleText ⟨address, scope⟩) =
      if scope.any fun scope ↦ scope.isEmpty || scope.contains '%' || scope.contains '/' then none
      else some ⟨address, scope⟩ := by
  have hpercent : ∀ c ∈ sampleHost address, (c != '%') = true := by
    intro c hc
    simpa using (sampleHost_ne hc).1
  have hslash : '/' ∉ sampleHost address := fun hc ↦ (sampleHost_ne hc).2 rfl
  have hread := sampleAddress_host address
  cases scope with
  | none =>
    simp only [sampleRead, sampleText, Option.elim_none, List.append_nil, List.contains_iff_mem,
      hslash, if_false, List.takeWhile_eq_self_iff.mpr hpercent, hread]
    rw [List.dropWhile_eq_nil_iff.mpr hpercent]
    rfl
  | some scope =>
    simp only [sampleRead, sampleText, Option.elim_some, List.contains_iff_mem, List.mem_append,
      hslash, List.takeWhile_append_of_pos hpercent, List.dropWhile_append_of_pos hpercent]
    have htake : ('%' :: scope).takeWhile (· != '%') = [] := rfl
    have hdrop : ('%' :: scope).dropWhile (· != '%') = '%' :: scope := rfl
    by_cases hscope : '/' ∈ scope
    · simp [hscope]
    · rw [htake, hdrop, List.append_nil, hread, if_neg (by simp [hscope])]
      simp [hscope]

def sampleLibrary : IpLibrary where
  ipAddress := sampleRead
  str := sampleText
  ipAddress_str address := sampleRead_text address none

def sampleIdentity : Identity :=
  ⟨List.replicate 64 1, by simp, fun _ ↦ List.replicate 64 0, fun _ ↦ by simp⟩

def sampleVerify (_ signature _ : Bytes) : Bool := signature == List.replicate 64 0

theorem sample_verified (message : Bytes) :
    sampleVerify sampleIdentity.signingKey (sampleIdentity.sign message) message = true :=
  beq_self_eq_true _

def sampleArguments : Arguments where
  host := "1.1.1.1".toList
  port := 443
  name := ['r', 'e', 'l', 'a', 'y', '-', '1']
  pin := List.replicate 64 'A'
  expiry := 1000
  mode := groupsMode
  groups := [300, 7]
  ticketKey := some (List.replicate 64 'c')

theorem decode_encode_sample :
    ∃ raw, encode sampleLibrary sampleIdentity sampleArguments = .ok raw ∧
      (decode sampleLibrary sampleVerify 0 0 raw).map Decoded.allowedGroupIds = .ok [7, 300] := by
  obtain ⟨raw, hencode⟩ : ∃ raw, encode sampleLibrary sampleIdentity sampleArguments = .ok raw :=
    exists_ok_of_isOk (by decide +kernel)
  refine ⟨raw, hencode, ?_⟩
  have haddress : sampleLibrary.ipAddress sampleArguments.host =
      some ⟨⟨[1, 1, 1, 1], by simp⟩, none⟩ := by decide +kernel
  rw [decode_encode sample_verified haddress hencode (by decide) (by decide)]
  rfl

/-! ### What is decoded is encoded -/

/-- An advertisement is determined by what it is decoded to. -/
theorem decoded_injective (ip : IpLibrary) :
    Function.Injective fun ad : Advertisement ↦ ad.decoded ip := by
  intro a b h
  simp only [Advertisement.decoded, Decoded.mk.injEq] at h
  obtain ⟨-, hhost, hport, hname, hpin, hexpiry, hidentity, hticketKey, hkey, -, hgroups⟩ := h
  have hhost' : a.host = b.host := by
    have hread := ip.ipAddress_str a.host
    rw [hhost, ip.ipAddress_str, Option.some.injEq] at hread
    exact (congrArg IpAddress.address hread).symm
  have hkeys : a.keys = b.keys := by
    have hidentity' := Option.map_injective hexEncode_injective hidentity
    have hticketKey' := Option.map_injective hexEncode_injective hticketKey
    have hkey' := hexEncode_injective hkey
    cases ha : a.keys <;> cases hb : b.keys <;>
      simp_all [Keys.identity, Keys.ticketKey, Keys.signingKey]
  have hport' : a.port = b.port := Int.natCast_inj.mp hport
  have hexpiry' : a.expiry = b.expiry := Int.natCast_inj.mp hexpiry
  have hname' := (List.map_injective_iff.mpr charOf_injective) hname
  have hpin' := hexEncode_injective hpin
  have hgroups' := (List.map_injective_iff.mpr Nat.cast_injective) hgroups
  cases a
  cases b
  simp_all

/-- The arguments of the encoder that a decoded announcement gives. -/
def Decoded.toArguments (decoded : Decoded) : Arguments :=
  ⟨decoded.h, decoded.p, decoded.s, decoded.c, decoded.x, decoded.accessMode,
    decoded.allowedGroupIds, decoded.ticketKeyId⟩

/-- The identity has the public key of the announcement; version 2 has its signing half alone. -/
def Decoded.IsOf (decoded : Decoded) (identity : Identity) : Prop :=
  decoded.relayIdentity = hexEncode identity.signingKey ∧
    ∀ text, decoded.ticketIdentity = some text → text = hexEncode identity.publicKey

/-- The bytes of the port are not both zero and those of the name are in the alphabet. -/
def Sendable (raw : Bytes) : Prop :=
  let header := Header.read raw
  slice raw header.endpointOffset (header.endpointOffset + 2) ≠ [0, 0] ∧
    (slice raw header.nameOffset header.groupsOffset).all (fun b ↦ isNameChar (charOf b)) = true

theorem Keys.describe_decoded {keys : Keys} (hkey : keys.signingKey = identity.signingKey)
    (hidentity : ∀ bytes, keys.identity = some bytes → bytes = identity.publicKey) :
    keys.Describe identity (keys.ticketKey.map hexEncode) := by
  cases keys with
  | signing key hlength =>
    obtain rfl := hkey
    rfl
  | ticketed bytes hlength ticketKey hticketKey =>
    obtain rfl := hidentity bytes rfl
    exact ⟨ticketKey, hticketKey, hexDecode_hexEncode ticketKey, rfl⟩

/-- The encoder takes back all of an advertisement but its port and its name. -/
theorem describes_decoded (hof : (ad.decoded ip).IsOf identity) (hport : 0 < ad.port)
    (hname : (ad.name.map charOf).all isNameChar = true) :
    Describes ip identity (ad.decoded ip).toArguments ad := by
  obtain ⟨hkey, hidentity⟩ := hof
  refine ⟨⟨none, ip.ipAddress_str ad.host⟩, rfl, hport, rfl, hname, hexDecode_hexEncode ad.pin, rfl,
    rfl, ?_, ?_⟩
  · have hsorted : (ad.groups.map fun g : ℕ ↦ (g : ℤ)).Pairwise (· ≤ ·) :=
      List.pairwise_map.mpr (ad.groups_ascending.imp fun hab ↦ by omega)
    exact hsorted.insertionSort_eq
  · refine Keys.describe_decoded (hexEncode_injective hkey) fun bytes hbytes ↦ ?_
    refine hexEncode_injective (hidentity _ ?_)
    rw [Advertisement.decoded, hbytes]
    rfl

theorem bigEndian_two_eq_zero_iff {n : ℕ} (hn : n < 65536) : bigEndian 2 n = [0, 0] ↔ n = 0 := by
  constructor
  · intro h
    have hvalue : bigEndianValue (bigEndian 2 n) = n := bigEndianValue_bigEndian (by omega)
    rw [h] at hvalue
    exact hvalue.symm
  · rintro rfl
    rfl

theorem sendable_layout_iff (ad : Advertisement) (signature : Bytes) :
    Sendable (ad.layout ++ signature) ↔
      0 < ad.port ∧ (ad.name.map charOf).all isNameChar = true := by
  have hspells := spells_self (ad.layout ++ signature)
  rw [spells_append, Advertisement.spells_layout] at hspells
  obtain ⟨⟨hheader, -, hendpoint, -, hname, -, -⟩, -⟩ := hspells
  have hread := ad.valid_header.read_eq hheader
  have hport : slice (ad.layout ++ signature) ad.header.endpointOffset
      (ad.header.endpointOffset + 2) = bigEndian 2 ad.port :=
    (spells_append.mp hendpoint).1.slice_eq (by simp)
  have hlabel : slice (ad.layout ++ signature) ad.header.nameOffset ad.header.groupsOffset =
      ad.name := hname.slice_eq rfl
  simp only [Sendable, hread, hport, hlabel, ne_eq, bigEndian_two_eq_zero_iff ad.port_lt,
    List.all_map, Function.comp_def, Nat.pos_iff_ne_zero]

/-- Assumes: an announcement that is decoded, and an identity with its public key. -/
theorem encode_decoded_iff {result : Decoded}
    (hdecode : decode ip verify first second raw = .ok result) (hof : result.IsOf identity) :
    ((∃ signature : Bytes, signature.length = 64 ∧
        encode ip identity result.toArguments = .ok (raw.take (raw.length - 64) ++ signature)) ∧
      ∀ first' second' other, decode ip verify first' second' other = .ok result →
        other.take (other.length - 64) = raw.take (raw.length - 64)) ↔ Sendable raw := by
  have htake : ∀ (ad : Advertisement) (signature : Bytes), signature.length = 64 →
      (ad.layout ++ signature).take ((ad.layout ++ signature).length - 64) = ad.layout := by
    intro ad signature hlength
    exact List.take_left' (by rw [List.length_append]; omega)
  obtain ⟨ad, signature, hsignature, rfl, hsize, -, -, rfl⟩ := decode_eq_ok_iff.mp hdecode
  rw [sendable_layout_iff, htake ad signature hsignature]
  constructor
  · rintro ⟨⟨_, -, hencode⟩, -⟩
    obtain ⟨⟨other, hother, -⟩, -⟩ := encode_eq_ok_iff.mp hencode
    have hport : (ad.port : ℤ) = other.port := hother.port
    have hpos := hother.port_pos
    exact ⟨by omega, hother.name_chars⟩
  · rintro ⟨hport, hname⟩
    have hlength := identity.length_sign (domain ad.keys.version ++ ad.layout)
    refine ⟨⟨_, hlength, ?_⟩, ?_⟩
    · refine encode_eq_ok_iff.mpr ⟨⟨ad, describes_decoded hof hport hname, rfl⟩, ?_⟩
      rw [List.length_append] at hsize ⊢
      omega
    · intro first' second' raw' hraw'
      obtain ⟨other, signature', hsignature', rfl, -, -, -, hsame⟩ := decode_eq_ok_iff.mp hraw'
      rw [htake other signature' hsignature', decoded_injective ip hsame]

/-- A public announcement of the address 1.1.1.1 with a name of one letter. -/
def sampleAnnouncement (port : Bytes) (letter : UInt8) : Bytes :=
  [2, 4, 1, 0] ++ [1, 1, 1, 1] ++ port ++ [0, 0, 3, 232] ++ List.replicate 32 0 ++ [letter] ++
    List.replicate 32 1 ++ List.replicate 64 0

def sampleDecoded (port : ℤ) (letter : Char) : Decoded where
  v := 2
  h := "1.1.1.1".toList
  p := port
  s := [letter]
  c := List.replicate 64 '0'
  x := 1000
  ticketIdentity := none
  ticketKeyId := none
  relayIdentity := hexEncode (List.replicate 32 1)
  accessMode := publicMode
  allowedGroupIds := []

theorem encode_decoded_sample : Sendable (sampleAnnouncement [1, 187] 97) ∧
    ∃ signature : Bytes, signature.length = 64 ∧
      encode sampleLibrary sampleIdentity (sampleDecoded 443 'a').toArguments =
        .ok ((sampleAnnouncement [1, 187] 97).take
          ((sampleAnnouncement [1, 187] 97).length - 64) ++ signature) := by
  have hdecode : decode sampleLibrary sampleVerify 0 0 (sampleAnnouncement [1, 187] 97) =
      .ok (sampleDecoded 443 'a') := by decide +kernel
  have hof : (sampleDecoded 443 'a').IsOf sampleIdentity := ⟨rfl, by simp [sampleDecoded]⟩
  have hsendable : Sendable (sampleAnnouncement [1, 187] 97) := by
    unfold Sendable
    decide +kernel
  exact ⟨hsendable, ((encode_decoded_iff hdecode hof).mpr hsendable).1⟩

/-- The port zero and the name `_` are decoded; no identity encodes them. -/
theorem unsendable_decoded :
    (decode sampleLibrary sampleVerify 0 0 (sampleAnnouncement [0, 0] 97) =
        .ok (sampleDecoded 0 'a') ∧
      ∀ identity raw, encode sampleLibrary identity (sampleDecoded 0 'a').toArguments ≠ .ok raw) ∧
    (decode sampleLibrary sampleVerify 0 0 (sampleAnnouncement [1, 187] 95) =
        .ok (sampleDecoded 443 '_') ∧
      ∀ identity raw,
        encode sampleLibrary identity (sampleDecoded 443 '_').toArguments ≠ .ok raw) := by
  refine ⟨⟨by decide +kernel, ?_⟩, by decide +kernel, ?_⟩
  · intro identity raw hencode
    obtain ⟨⟨ad, had, -⟩, -⟩ := encode_eq_ok_iff.mp hencode
    have hport : (0 : ℤ) = ad.port := had.port
    have hpos := had.port_pos
    omega
  · intro identity raw hencode
    obtain ⟨⟨ad, had, -⟩, -⟩ := encode_eq_ok_iff.mp hencode
    exact absurd had.name_chars (by decide)

end QortalRelay.Discovery
