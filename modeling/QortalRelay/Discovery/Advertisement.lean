import QortalRelay.Discovery.Codec

/-!
# Advertisements

`Advertisement` is what the bytes before the signature of an announcement stand for; each has one
layout. The decoder accepts exactly the signed layouts, within their time (`decode_eq_ok_iff`), and
the encoder writes the layout of what its arguments describe (`build_eq_ok_iff`). It describes fewer
advertisements than there are: only those with a port that is not zero and with a name over the
alphabet of names.
-/

set_option autoImplicit false
set_option relaxedAutoImplicit false

namespace QortalRelay.Discovery

open Foundation Encoding Binary
open AccessConfig (publicMode groupsMode)

/-! ### Advertisements -/

/-- The keys at the end of an advertisement. -/
inductive Keys
  | signing (key : Bytes) (length_key : key.length = 32)
  | ticketed (identity : Bytes) (length_identity : identity.length = 64) (ticketKey : Bytes)
    (length_ticketKey : ticketKey.length = 32)

namespace Keys

def version : Keys → ℕ
  | signing _ _ => 2
  | ticketed _ _ _ _ => 3

def bytes : Keys → Bytes
  | signing key _ => key
  | ticketed identity _ ticketKey _ => identity ++ ticketKey

def signingKey : Keys → Bytes
  | signing key _ => key
  | ticketed identity _ _ _ => identity.drop 32

def identity : Keys → Option Bytes
  | signing _ _ => none
  | ticketed identity _ _ _ => some identity

def ticketKey : Keys → Option Bytes
  | signing _ _ => none
  | ticketed _ _ ticketKey _ => some ticketKey

end Keys

/-- What the bytes before the signature of an announcement stand for. -/
structure Advertisement where
  host : Address
  port : ℕ
  port_lt : port < 65536
  expiry : ℕ
  expiry_lt : expiry < 2 ^ 32
  pin : Bytes
  length_pin : pin.length = 32
  name : Bytes
  name_pos : 1 ≤ name.length
  name_le : name.length ≤ 128
  name_ascii : ∀ b ∈ name, b.toNat < 128
  groups : List ℕ
  groups_le : groups.length ≤ 16
  groups_ascending : groups.Pairwise (· < ·)
  groups_valid : ∀ g ∈ groups, 0 < g ∧ g < 2 ^ 31
  keys : Keys

namespace Advertisement

variable (ad : Advertisement)

def header : Header := ⟨ad.keys.version, ad.host.version, ad.name.length, ad.groups.length⟩

/-- The signed part of the announcement, as its format lays it out. -/
def layout : Bytes :=
  ad.header.bytes ++ ad.host.packed ++ (bigEndian 2 ad.port ++ bigEndian 4 ad.expiry) ++ ad.pin ++
    ad.name ++ packGroups ad.groups ++ ad.keys.bytes

/-- The mapping that a client gets from the announcement. -/
def decoded (ip : IpLibrary) : Decoded where
  v := ad.keys.version
  h := ip.str ⟨ad.host, none⟩
  p := ad.port
  s := ad.name.map charOf
  c := hexEncode ad.pin
  x := ad.expiry
  ticketIdentity := ad.keys.identity.map hexEncode
  ticketKeyId := ad.keys.ticketKey.map hexEncode
  relayIdentity := hexEncode ad.keys.signingKey
  accessMode := if ad.groups ≠ [] then groupsMode else publicMode
  allowedGroupIds := ad.groups.map (↑)

end Advertisement

/-! ### Headers -/

theorem byteAt_eq {raw : Bytes} {i : ℕ} {b : UInt8} (h : source raw i = some b) :
    byteAt raw i = b.toNat := by
  rw [byteAt, List.getD_eq_getElem?_getD, show raw[i]? = some b from h]
  rfl

theorem source_eq {raw : Bytes} {i n : ℕ} (hi : i < raw.length) (h : byteAt raw i = n) :
    source raw i = some (UInt8.ofNat n) := by
  rw [byteAt, List.getD_eq_getElem?_getD, List.getElem?_eq_getElem hi, Option.getD_some] at h
  rw [source, List.getElem?_eq_getElem hi, ← h, UInt8.ofNat_toNat]

namespace Header

/-- What both sides of the codec require of a header. -/
structure Valid (header : Header) : Prop where
  version : header.version = 2 ∨ header.version = 3
  family : header.family = 4 ∨ header.family = 6
  nameLength : 1 ≤ header.nameLength ∧ header.nameLength ≤ 128
  count : header.count ≤ 16

variable {header : Header} {raw : Bytes}

theorem length_bytes (header : Header) : header.bytes.length = header.size := by
  unfold bytes size
  split_ifs <;> rfl

/-- The byte of version 3 that holds the family and the length of the name. -/
theorem packed_family (n family : ℕ) (hn : 1 ≤ n ∧ n ≤ 128) (hfamily : family = 4 ∨ family = 6) :
    let byte := (UInt8.ofNat ((n - 1) ||| (if family = 6 then 128 else 0))).toNat
    (if byte &&& 128 ≠ 0 then 6 else 4) = family ∧ (byte &&& 127) + 1 = n := by
  have hall : ∀ k : Fin 128, ∀ family ∈ [4, 6],
      let byte := (UInt8.ofNat (k.val ||| (if family = 6 then 128 else 0))).toNat
      (if byte &&& 128 ≠ 0 then 6 else 4) = family ∧ (byte &&& 127) = k.val := by
    decide +kernel
  obtain ⟨hfam, hlow⟩ := hall ⟨n - 1, by omega⟩ family (by simpa using hfamily)
  exact ⟨hfam, by simp only at hlow ⊢; omega⟩

theorem unpacked_family (byte : ℕ) (hbyte : byte < 256) :
    ((byte &&& 127) + 1 - 1) ||| (if (if byte &&& 128 ≠ 0 then 6 else 4) = 6 then 128 else 0) =
      byte := by
  have hall : ∀ k : Fin 256, ((k.val &&& 127) + 1 - 1) |||
      (if (if k.val &&& 128 ≠ 0 then 6 else 4) = 6 then 128 else 0) = k.val := by
    decide +kernel
  exact hall ⟨byte, hbyte⟩

theorem Valid.read_eq (h : header.Valid) (hbytes : Spells (source raw) 0 header.bytes) :
    read raw = header := by
  obtain ⟨version, family, nameLength, count⟩ := header
  obtain ⟨hversion, hfamily, hname, hcount⟩ := h
  simp only at hversion hfamily hname hcount
  have hsmall : ∀ n, n < 256 → (UInt8.ofNat n).toNat = n := by
    intro n hn
    rw [UInt8.toNat_ofNat']
    omega
  rcases hversion with rfl | rfl
  · obtain ⟨h0, h1, h2, h3, -⟩ := hbytes
    simp [read, byteAt_eq h0, byteAt_eq h1, byteAt_eq h2, byteAt_eq h3, hsmall family (by omega),
      hsmall nameLength (by omega), hsmall count (by omega)]
  · obtain ⟨h0, h1, h2, -⟩ := hbytes
    obtain ⟨hfam, hlow⟩ := packed_family nameLength family hname hfamily
    simp only [read, byteAt_eq h0, byteAt_eq h1, byteAt_eq h2, hfam, hlow]
    simp [hsmall count (by omega)]

theorem version_read (raw : Bytes) : (read raw).version = byteAt raw 0 := by
  by_cases h : byteAt raw 0 = 3 <;> simp [read, h]

theorem family_read (h : byteAt raw 0 = 2) : (read raw).family = byteAt raw 1 := by
  simp [read, h]

/-- The checks of the decoder on the header. -/
theorem valid_read (hversion : byteAt raw 0 = 2 ∨ byteAt raw 0 = 3)
    (hfamily : byteAt raw 0 = 2 → byteAt raw 1 = 4 ∨ byteAt raw 1 = 6)
    (hname : 1 ≤ (read raw).nameLength ∧ (read raw).nameLength ≤ 128)
    (hcount : (read raw).count ≤ 16) : (read raw).Valid := by
  refine ⟨?_, ?_, hname, hcount⟩
  · rcases hversion with h | h <;> simp [read, h]
  · rcases hversion with h | h
    · simpa [read, h] using hfamily h
    · simp only [read, h, if_true]
      split_ifs <;> simp

theorem spells_read (hlength : 4 ≤ raw.length) (hversion : byteAt raw 0 = 2 ∨ byteAt raw 0 = 3) :
    Spells (source raw) 0 (read raw).bytes := by
  rcases hversion with h | h
  · simp only [read, h, bytes, show (2 : ℕ) ≠ 3 by norm_num, if_false]
    exact ⟨source_eq (by omega) h, source_eq (by omega) rfl, source_eq (by omega) rfl,
      source_eq (by omega) rfl, trivial⟩
  · have hbyte : byteAt raw 1 < 256 := by
      rw [byteAt]
      exact UInt8.toNat_lt _
    simp only [read, h, bytes, if_true, unpacked_family _ hbyte]
    exact ⟨source_eq (by omega) h, source_eq (by omega) rfl, source_eq (by omega) rfl, trivial⟩

end Header

/-! ### Groups -/

theorem length_pack_group {g : ℕ} (hg : g < 2 ^ 31) : (Base128.pack g).length ≤ 5 := by
  rw [Base128.length_pack_le_iff]
  omega

theorem readGroups_eq_ok_iff {next : ℕ → Option UInt8} {count offset after : ℕ}
    {groups : List ℕ} : readGroups next count offset = .ok (groups, after) ↔
      groups.length = count ∧ (∀ g ∈ groups, 0 < g ∧ g < 2 ^ 31) ∧
        Spells next offset (packGroups groups) ∧
        after = offset + (packGroups groups).length := by
  induction count generalizing offset groups after with
  | zero =>
    rw [readGroups, List.length_eq_zero_iff, Except.ok.injEq, Prod.mk.injEq]
    constructor
    · rintro ⟨rfl, rfl⟩
      simp [packGroups, Spells]
    · rintro ⟨rfl, -, -, rfl⟩
      simp
  | succ count ih =>
    simp only [readGroups, bind_eq_ok, Prod.exists, mapError_eq_ok, Base128.read_eq_ok_iff,
      ensure_eq_ok, pure_eq_ok, Prod.mk.injEq, ih, exists_const]
    constructor
    · rintro ⟨g, _, ⟨-, hspells, rfl⟩, hg, rest, _, ⟨hcount, hvalid, hrest, rfl⟩, rfl, rfl⟩
      refine ⟨by simp [hcount], ?_, ?_, ?_⟩
      · exact List.forall_mem_cons.mpr ⟨hg, hvalid⟩
      · exact spells_append.mpr ⟨hspells, hrest⟩
      · simp [packGroups, Nat.add_assoc]
    · rintro ⟨hcount, hvalid, hspells, rfl⟩
      obtain ⟨g, rest, rfl⟩ := List.exists_cons_of_length_eq_add_one hcount
      obtain ⟨hg, hrest⟩ := List.forall_mem_cons.mp hvalid
      obtain ⟨hfirst, hspellsRest⟩ := spells_append.mp hspells
      refine ⟨g, _, ⟨length_pack_group hg.2, hfirst, rfl⟩, hg, rest, _,
        ⟨by simpa using hcount, hrest, hspellsRest, rfl⟩, rfl, ?_⟩
      simp [packGroups, Nat.add_assoc]

/-- A list equals its sorted set when it ascends. -/
theorem eq_sorted_dedup_iff (groups : List ℕ) :
    groups = groups.dedup.insertionSort (· ≤ ·) ↔ groups.Pairwise (· < ·) := by
  constructor
  · intro h
    have hnodup : groups.Nodup := by
      rw [h]
      exact (List.perm_insertionSort _ _).nodup_iff.mpr (List.nodup_dedup _)
    have hle : groups.Pairwise (· ≤ ·) := by
      rw [h]
      exact List.pairwise_insertionSort _ _
    exact hle.imp₂ (fun a b hab hne ↦ lt_of_le_of_ne hab hne) hnodup
  · intro h
    have hnodup : groups.Nodup := h.imp fun hab ↦ hab.ne
    rw [hnodup.dedup]
    exact ((h.imp fun hab ↦ hab.le).insertionSort_eq).symm

/-! ### The layout -/

namespace Keys

theorem version_cases (keys : Keys) : keys.version = 2 ∨ keys.version = 3 := by
  cases keys <;> simp [version]

end Keys

namespace Advertisement

variable {ad : Advertisement}

theorem valid_header (ad : Advertisement) : ad.header.Valid :=
  ⟨ad.keys.version_cases, ad.host.version_cases, ⟨ad.name_pos, ad.name_le⟩, ad.groups_le⟩

theorem length_keys (ad : Advertisement) : ad.keys.bytes.length + 64 = ad.header.tail := by
  unfold header Header.tail
  cases ad.keys with
  | signing key hkey => simp [Keys.bytes, Keys.version, hkey]
  | ticketed identity hidentity ticketKey hticketKey =>
    simp [Keys.bytes, Keys.version, hidentity, hticketKey]

/-- Each field stands where the one before it ends. -/
theorem spells_layout {next : ℕ → Option UInt8} : Spells next 0 ad.layout ↔
    Spells next 0 ad.header.bytes ∧ Spells next ad.header.size ad.host.packed ∧
      Spells next ad.header.endpointOffset (bigEndian 2 ad.port ++ bigEndian 4 ad.expiry) ∧
      Spells next ad.header.pinOffset ad.pin ∧
      Spells next ad.header.nameOffset ad.name ∧
      Spells next ad.header.groupsOffset (packGroups ad.groups) ∧
      Spells next (ad.header.groupsOffset + (packGroups ad.groups).length) ad.keys.bytes := by
  have hhost : ad.host.packed.length = Address.size ad.header.family := ad.host.length_eq_size
  have hname : ad.name.length = ad.header.nameLength := rfl
  simp only [layout, spells_append, List.length_append, Header.length_bytes, hhost, hname,
    length_bigEndian, ad.length_pin, and_assoc, zero_add, Header.groupsOffset, Header.nameOffset,
    Header.pinOffset, Header.endpointOffset, ← Nat.add_assoc]

theorem length_layout (ad : Advertisement) : ad.layout.length =
    ad.header.groupsOffset + (packGroups ad.groups).length + ad.keys.bytes.length := by
  have hhost : ad.host.packed.length = Address.size ad.header.family := ad.host.length_eq_size
  have hname : ad.name.length = ad.header.nameLength := rfl
  simp only [layout, List.length_append, Header.length_bytes, hhost, hname, length_bigEndian,
    ad.length_pin, Header.groupsOffset, Header.nameOffset, Header.pinOffset, Header.endpointOffset]

end Advertisement

/-! ### What the decoder accepts -/

section Decoder

variable {ip : IpLibrary} {verify : Bytes → Bytes → Bytes → Bool} {first second : ℤ}

theorem unpackEndpoint_pack {port expiry : ℕ} (hport : port < 65536) (hexpiry : expiry < 2 ^ 32) :
    unpackEndpoint (bigEndian 2 port ++ bigEndian 4 expiry) = some (port, expiry) := by
  have htake : (bigEndian 2 port ++ bigEndian 4 expiry).take 2 = bigEndian 2 port :=
    List.take_left' (length_bigEndian 2 port)
  have hdrop : (bigEndian 2 port ++ bigEndian 4 expiry).drop 2 = bigEndian 4 expiry :=
    List.drop_left' (length_bigEndian 2 port)
  rw [unpackEndpoint, if_pos (by simp), htake, hdrop, bigEndianValue_bigEndian (by omega),
    bigEndianValue_bigEndian (by omega)]

/-- The keys that stand at the end are found from there. -/
theorem Keys.read {keys : Keys} {raw : Bytes} {offset : ℕ}
    (hkeys : Spells (source raw) offset keys.bytes)
    (hoffset : offset + (keys.bytes.length + 64) = raw.length) :
    keyOf keys.version raw = keys.signingKey ∧
      (if identityOf keys.version raw ≠ [] then some (hexEncode (identityOf keys.version raw))
        else none) = keys.identity.map hexEncode ∧
      (if identityOf keys.version raw ≠ [] then some (hexEncode (lastKey raw)) else none) =
        keys.ticketKey.map hexEncode := by
  cases keys with
  | signing key hkey =>
    simp only [Keys.bytes] at hkeys hoffset
    have hlast : lastKey raw = key := by
      rw [lastKey, show raw.length - 96 = offset by omega]
      exact hkeys.slice_eq (by omega)
    simp [Keys.version, Keys.signingKey, Keys.identity, Keys.ticketKey, keyOf, identityOf, hlast]
  | ticketed identity hidentity ticketKey hticketKey =>
    simp only [Keys.bytes, spells_append, List.length_append] at hkeys hoffset
    have hfull : identityOf 3 raw = identity := by
      rw [identityOf, if_pos rfl, show raw.length - 160 = offset by omega]
      exact hkeys.1.slice_eq (by omega)
    have hlast : lastKey raw = ticketKey := by
      rw [lastKey, show raw.length - 96 = offset + identity.length by omega]
      exact hkeys.2.slice_eq (by omega)
    have hne : identity ≠ [] := by
      rintro rfl
      simp at hidentity
    simp [Keys.version, Keys.signingKey, Keys.identity, Keys.ticketKey, keyOf, hfull, hlast, hne]

/-- A signed layout is decoded. -/
theorem decode_layout (ad : Advertisement) {signature : Bytes} (hsignature : signature.length = 64)
    (hsize : (ad.layout ++ signature).length ≤ maxPayload)
    (hverify : verify ad.keys.signingKey signature (domain ad.keys.version ++ ad.layout) = true)
    (hfirst : first < ad.expiry) (hsecond : ad.expiry ≤ second + 3600) :
    decode ip verify first second (ad.layout ++ signature) = .ok (ad.decoded ip) := by
  have hspells := spells_self (ad.layout ++ signature)
  have htake : (ad.layout ++ signature).take ((ad.layout ++ signature).length - 64) = ad.layout :=
    List.take_left' (by rw [List.length_append]; omega)
  have hdrop : (ad.layout ++ signature).drop ((ad.layout ++ signature).length - 64) = signature :=
    List.drop_left' (by rw [List.length_append]; omega)
  have hlength : (ad.layout ++ signature).length = ad.header.groupsOffset +
      (packGroups ad.groups).length + ad.header.tail := by
    rw [List.length_append, hsignature, ad.length_layout, ← ad.length_keys]
    omega
  rw [spells_append] at hspells
  generalize ad.layout ++ signature = raw at hspells hsize htake hdrop hlength ⊢
  rw [Advertisement.spells_layout] at hspells
  obtain ⟨⟨hheader, hhost, hendpoint, hpin, hname, hgroups, hkeys⟩, -⟩ := hspells
  obtain ⟨hkey, hidentity, hticketKey⟩ := Keys.read hkeys (by rw [ad.length_keys, hlength])
  have hvalid := ad.valid_header
  have hread := hvalid.read_eq hheader
  have hoffset : 46 ≤ ad.header.groupsOffset := by
    have := hvalid.nameLength
    have : 3 ≤ ad.header.size := by unfold Header.size; split_ifs <;> omega
    have : 4 ≤ Address.size ad.header.family := by unfold Address.size; split_ifs <;> omega
    simp only [Header.groupsOffset, Header.nameOffset, Header.pinOffset, Header.endpointOffset]
    omega
  have htail : 96 ≤ ad.header.tail := by unfold Header.tail; split_ifs <;> omega
  have hversion : ad.header.version = ad.keys.version := rfl
  simp only [decode, bind_eq_ok, ensure_eq_ok, require_eq_ok, pure_eq_ok, hread, Prod.exists,
    exists_const, htake, hdrop, hversion, hkey, hidentity, hticketKey]
  refine ⟨⟨⟨by omega, hsize⟩, ?_, ?_⟩, ⟨hvalid.nameLength, hvalid.count⟩, hverify, ad.host, ?_,
    ad.port, ad.expiry, ?_, ad.name.map charOf, ?_, ad.groups,
    ad.header.groupsOffset + (packGroups ad.groups).length, ?_, ⟨hlength.symm, ?_⟩,
    ⟨hfirst, hsecond⟩, ?_⟩
  · rw [← Header.version_read, hread]
    exact hvalid.version
  · intro htwo
    rw [← Header.family_read htwo, hread]
    exact hvalid.family
  · exact Address.ofBytes_eq_some_iff.mpr (hhost.slice_eq
      (by rw [ad.host.length_eq_size]; rfl)).symm
  · rw [hendpoint.slice_eq (by simp [Header.pinOffset])]
    exact unpackEndpoint_pack ad.port_lt ad.expiry_lt
  · have hslice : slice raw ad.header.nameOffset ad.header.groupsOffset = ad.name :=
      hname.slice_eq rfl
    rw [hslice]
    exact asciiDecode_eq_some_iff.mpr ⟨ad.name_ascii, rfl⟩
  · refine readGroups_eq_ok_iff.mpr ⟨rfl, ad.groups_valid, ?_, rfl⟩
    exact spells_sourceBelow.mpr ⟨hgroups, Or.inr (by omega)⟩
  · exact (eq_sorted_dedup_iff _).mpr ad.groups_ascending
  · rw [hpin.slice_eq (by rw [ad.length_pin]; rfl)]
    rfl

theorem Header.size_le (header : Header) : header.size ≤ 4 := by
  unfold Header.size
  split_ifs <;> omega

/-- The endpoint is packed as it was. -/
theorem unpackEndpoint_eq_some {raw : Bytes} {port expiry : ℕ}
    (h : unpackEndpoint raw = some (port, expiry)) :
    port < 65536 ∧ expiry < 2 ^ 32 ∧ raw = bigEndian 2 port ++ bigEndian 4 expiry := by
  unfold unpackEndpoint at h
  split_ifs at h with hlength
  obtain ⟨rfl, rfl⟩ := Prod.mk.inj (Option.some.inj h)
  have htake : (raw.take 2).length = 2 := by simp [hlength]
  have hdrop : (raw.drop 2).length = 4 := by simp [hlength]
  have hport := bigEndianValue_lt (raw.take 2)
  have hexpiry := bigEndianValue_lt (raw.drop 2)
  rw [htake] at hport
  rw [hdrop] at hexpiry
  refine ⟨by omega, by omega, ?_⟩
  have hfirst := bigEndian_bigEndianValue (raw.take 2)
  have hsecond := bigEndian_bigEndianValue (raw.drop 2)
  rw [htake] at hfirst
  rw [hdrop] at hsecond
  rw [hfirst, hsecond, List.take_append_drop]

/-- The keys between the groups and the signature. -/
theorem exists_keys {raw : Bytes} {offset version : ℕ} (hversion : version = 2 ∨ version = 3)
    (hoffset : offset + (if version = 3 then 160 else 96) = raw.length) :
    ∃ keys : Keys, keys.version = version ∧ offset + (keys.bytes.length + 64) = raw.length ∧
      Spells (source raw) offset keys.bytes := by
  rcases hversion with rfl | rfl
  · have hlength : (slice raw offset (offset + 32)).length = 32 := by
      rw [length_slice]
      simp at hoffset
      omega
    refine ⟨.signing _ hlength, rfl, ?_, spells_slice _ _ _⟩
    simp only [Keys.bytes, hlength]
    simpa using hoffset
  · have hidentity : (slice raw offset (offset + 64)).length = 64 := by
      rw [length_slice]
      simp at hoffset
      omega
    have hticketKey : (slice raw (offset + 64) (offset + 96)).length = 32 := by
      rw [length_slice]
      simp at hoffset
      omega
    refine ⟨.ticketed _ hidentity _ hticketKey, rfl, ?_, ?_⟩
    · simp only [Keys.bytes, List.length_append, hidentity, hticketKey]
      simpa using hoffset
    · refine spells_append.mpr ⟨spells_slice _ _ _, ?_⟩
      rw [hidentity]
      exact spells_slice _ _ _

/-- What is decoded is a signed layout. -/
theorem exists_of_decode {raw : Bytes} {result : Decoded}
    (h : decode ip verify first second raw = .ok result) :
    ∃ (ad : Advertisement) (signature : Bytes), signature.length = 64 ∧
      raw = ad.layout ++ signature ∧ raw.length ≤ maxPayload ∧
      verify ad.keys.signingKey signature (domain ad.keys.version ++ ad.layout) = true ∧
      first < ad.expiry ∧ ad.expiry ≤ second + 3600 := by
  simp only [decode, bind_eq_ok, ensure_eq_ok, require_eq_ok, Prod.exists, exists_const] at h
  obtain ⟨⟨⟨hmin, hmax⟩, hversion, hfamily⟩, ⟨hname, hcount⟩, hverify, host, hhost, port, expiry,
    hendpoint, name, hlabel, groups, offset, hgroups, ⟨hoffset, hascending⟩, ⟨hfirst, hsecond⟩,
    -⟩ := h
  have hvalid := Header.valid_read hversion hfamily hname hcount
  have hheader := Header.spells_read (by omega) hversion
  generalize Header.read raw = header at *
  obtain ⟨hcountEq, hgroupsValid, hspells, rfl⟩ := readGroups_eq_ok_iff.mp hgroups
  obtain ⟨hgroupBytes, -⟩ := spells_sourceBelow.mp hspells
  obtain ⟨keys, hkeysVersion, hkeysLength, hkeys⟩ := exists_keys hvalid.version hoffset
  obtain ⟨hascii, -⟩ := asciiDecode_eq_some_iff.mp hlabel
  obtain ⟨hport, hexpiry, hendpointBytes⟩ := unpackEndpoint_eq_some hendpoint
  have hpacked := Address.ofBytes_eq_some_iff.mp hhost
  have hsize := header.size_le
  have hsizeHost := Address.size_le header.family
  have hpin : (slice raw header.pinOffset header.nameOffset).length = 32 := by
    simp only [length_slice, Header.nameOffset, Header.pinOffset, Header.endpointOffset]
    omega
  have hlabelLength : (slice raw header.nameOffset header.groupsOffset).length =
      header.nameLength := by
    simp only [length_slice, Header.groupsOffset] at hoffset ⊢
    omega
  have hhostVersion : host.version = header.family := by
    apply Address.version_eq_of_length _ hvalid.family
    simp only [hpacked, length_slice, Header.endpointOffset]
    omega
  let ad : Advertisement :=
    { host, port, port_lt := hport, expiry, expiry_lt := hexpiry
      pin := slice raw header.pinOffset header.nameOffset, length_pin := hpin
      name := slice raw header.nameOffset header.groupsOffset
      name_pos := hlabelLength.symm ▸ hname.1, name_le := hlabelLength.symm ▸ hname.2
      name_ascii := hascii, groups, groups_le := hcountEq.symm ▸ hcount
      groups_ascending := (eq_sorted_dedup_iff _).mp hascending, groups_valid := hgroupsValid,
      keys }
  have hheaderEq : ad.header = header := by
    simp only [Advertisement.header, ad, hkeysVersion, hhostVersion, hlabelLength, hcountEq]
  have hlayout : Spells (source raw) 0 ad.layout := by
    rw [Advertisement.spells_layout, hheaderEq]
    exact ⟨hheader, hpacked ▸ spells_slice _ _ _, hendpointBytes ▸ spells_slice _ _ _,
      spells_slice _ _ _, spells_slice _ _ _, hgroupBytes, hkeys⟩
  have hlength : ad.layout.length = raw.length - 64 := by
    rw [ad.length_layout, hheaderEq]
    simp only [ad]
    omega
  have htake : raw.take (raw.length - 64) = ad.layout := by
    rw [← hlayout.slice_eq rfl, hlength]
    simp [slice]
  obtain ⟨hkey, -⟩ := Keys.read hkeys hkeysLength
  refine ⟨ad, raw.drop (raw.length - 64), by simp; omega, ?_, hmax, ?_, hfirst, hsecond⟩
  · rw [← htake, List.take_append_drop]
  · rw [htake, ← hkeysVersion, hkey] at hverify
    exact hverify

/-- The decoder accepts exactly the signed layouts, within the time of their lease. -/
theorem decode_eq_ok_iff {raw : Bytes} {result : Decoded} :
    decode ip verify first second raw = .ok result ↔
      ∃ (ad : Advertisement) (signature : Bytes), signature.length = 64 ∧
        raw = ad.layout ++ signature ∧ raw.length ≤ maxPayload ∧
        verify ad.keys.signingKey signature (domain ad.keys.version ++ ad.layout) = true ∧
        (first < ad.expiry ∧ ad.expiry ≤ second + 3600) ∧ result = ad.decoded ip := by
  constructor
  · intro h
    obtain ⟨ad, signature, hsignature, rfl, hsize, hverify, hfirst, hsecond⟩ := exists_of_decode h
    rw [decode_layout ad hsignature hsize hverify hfirst hsecond] at h
    exact ⟨ad, signature, hsignature, rfl, hsize, hverify, ⟨hfirst, hsecond⟩,
      (Except.ok.inj h).symm⟩
  · rintro ⟨ad, signature, hsignature, rfl, hsize, hverify, ⟨hfirst, hsecond⟩, rfl⟩
    exact decode_layout ad hsignature hsize hverify hfirst hsecond

end Decoder

/-! ### What the encoder writes -/

section Encoder

variable {ip : IpLibrary} {identity : Identity} {arguments : Arguments} {ad : Advertisement}

theorem Identity.length_signingKey (identity : Identity) : identity.signingKey.length = 32 := by
  simp [Identity.signingKey, identity.length_publicKey]

/-- The keys for an identity and the ticket key that is given. -/
def Keys.Describe (identity : Identity) : Option Text → Keys → Prop
  | none, keys => keys = .signing identity.signingKey identity.length_signingKey
  | some text, keys => ∃ (ticketKey : Bytes) (hlength : ticketKey.length = 32),
      hexDecode text = some ticketKey ∧
        keys = .ticketed identity.publicKey identity.length_publicKey ticketKey hlength

/-- The arguments of the encoder describe an advertisement. -/
structure Describes (ip : IpLibrary) (identity : Identity) (arguments : Arguments)
    (ad : Advertisement) : Prop where
  host : ∃ scope, ip.ipAddress arguments.host = some ⟨ad.host, scope⟩
  port : arguments.port = ad.port
  port_pos : 0 < ad.port
  name : arguments.name = ad.name.map charOf
  name_chars : arguments.name.all isNameChar = true
  pin : hexDecode arguments.pin = some ad.pin
  expiry : arguments.expiry = ad.expiry
  mode : arguments.mode = if ad.groups ≠ [] then groupsMode else publicMode
  groups : sorted arguments.groups = ad.groups.map (↑)
  keys : ad.keys.Describe identity arguments.ticketKey

theorem Keys.Describe.version {keys : Keys} {ticketKey : Option Text}
    (h : keys.Describe identity ticketKey) :
    keys.version = if ticketKey.isSome then 3 else 2 := by
  cases ticketKey with
  | none =>
    obtain rfl := h
    rfl
  | some text =>
    obtain ⟨_, _, -, rfl⟩ := h
    rfl

theorem encodeKeys_eq_ok_iff {ticketKey : Option Text} {bytes : Bytes} :
    encodeKeys identity ticketKey = .ok bytes ↔
      ∃ keys : Keys, keys.Describe identity ticketKey ∧ keys.bytes = bytes := by
  cases ticketKey with
  | none =>
    rw [encodeKeys, Except.ok.injEq]
    constructor
    · rintro rfl
      exact ⟨_, rfl, rfl⟩
    · rintro ⟨_, rfl, rfl⟩
      rfl
  | some text =>
    simp only [encodeKeys, bind_eq_ok, require_eq_ok, ensure_eq_ok, pure_eq_ok, exists_const]
    constructor
    · rintro ⟨ticketKey, hdecode, hlength, rfl⟩
      exact ⟨_, ⟨ticketKey, hlength, hdecode, rfl⟩, rfl⟩
    · rintro ⟨_, ⟨ticketKey, hlength, hdecode, rfl⟩, rfl⟩
      exact ⟨ticketKey, hdecode, hlength, rfl⟩

/-- Sorted groups without repetition ascend. -/
theorem pairwise_sorted {groups : List ℤ}
    (h : (sorted groups).dedup.length = (sorted groups).length) :
    (sorted groups).Pairwise (· < ·) := by
  have hnodup : (sorted groups).Nodup :=
    List.dedup_eq_self.mp ((List.dedup_sublist _).length_eq.mp h)
  have hle : (sorted groups).Pairwise (· ≤ ·) := List.pairwise_insertionSort _ _
  exact hle.imp₂ (fun a b hab hne ↦ lt_of_le_of_ne hab hne) hnodup

theorem publicMode_ne_groupsMode : publicMode ≠ groupsMode := by decide

theorem map_natCast_toNat {groups : List ℤ} (h : ∀ g ∈ groups, 0 < g ∧ g < 2 ^ 31) :
    (groups.map Int.toNat).map (↑) = groups := by
  rw [List.map_map]
  refine (List.map_congr_left fun g hg ↦ ?_).trans (List.map_id' groups)
  exact Int.toNat_of_nonneg (h g hg).1.le

theorem packEndpoint_eq_some {port expiry : ℤ} {bytes : Bytes}
    (h : packEndpoint port expiry = some bytes) : (0 ≤ expiry ∧ expiry < 2 ^ 32) ∧
      bytes = bigEndian 2 port.toNat ++ bigEndian 4 expiry.toNat := by
  unfold packEndpoint at h
  split_ifs at h with hrange
  exact ⟨hrange.2, (Option.some.inj h).symm⟩

theorem packEndpoint_natCast {port expiry : ℕ} (hport : port < 65536)
    (hexpiry : expiry < 2 ^ 32) :
    packEndpoint port expiry = some (bigEndian 2 port ++ bigEndian 4 expiry) := by
  rw [packEndpoint, if_pos (by omega), Int.toNat_natCast, Int.toNat_natCast]

/-- The access mode and the groups of an advertisement go together. -/
theorem mode_eq_ite {mode : Text} {groups : List ℤ} (hmode : mode = publicMode ∨ mode = groupsMode)
    (hgroups : mode = groupsMode ↔ groups ≠ []) :
    mode = if groups.map Int.toNat ≠ [] then groupsMode else publicMode := by
  by_cases h : groups = []
  · rw [if_neg (by simp [h])]
    exact hmode.resolve_right fun hg ↦ hgroups.mp hg h
  · rw [if_pos (by simpa using h)]
    exact hgroups.mpr h

/-- The encoder writes the signed layout of what its arguments describe. -/
theorem build_eq_ok_iff {raw : Bytes} : build ip identity arguments = .ok raw ↔
    ∃ ad, Describes ip identity arguments ad ∧
      raw = ad.layout ++ identity.sign (domain ad.keys.version ++ ad.layout) := by
  simp only [build, bind_eq_ok, require_eq_ok, ensure_eq_ok, pure_eq_ok, exists_const,
    encodeKeys_eq_ok_iff]
  constructor
  · rintro ⟨host, hhost, ⟨hmode, hcount, hnodup⟩, ⟨hgroupsMode, hvalid⟩, label, hlabel,
      ⟨⟨hpos, hle⟩, hchars⟩, ⟨hport, hportLe⟩, pin, hpin, hpinLength, endpoint, hendpoint, _,
      ⟨keys, hkeys, rfl⟩, rfl⟩
    obtain ⟨hascii, hname⟩ := asciiEncode_eq_some_iff.mp hlabel
    obtain ⟨hexpiry, rfl⟩ := packEndpoint_eq_some hendpoint
    have hascending : ((sorted arguments.groups).map Int.toNat).Pairwise (· < ·) := by
      refine List.pairwise_map.mpr ((pairwise_sorted hnodup).imp_of_mem fun ha _ hab ↦ ?_)
      have := (hvalid _ ha).1
      omega
    let ad : Advertisement :=
      { host := host.address, port := arguments.port.toNat, port_lt := by omega
        expiry := arguments.expiry.toNat, expiry_lt := by omega, pin, length_pin := hpinLength
        name := label, name_pos := hpos, name_le := hle, name_ascii := hascii
        groups := (sorted arguments.groups).map Int.toNat, groups_le := by simpa using hcount
        groups_ascending := hascending
        groups_valid := by
          intro g hg
          obtain ⟨k, hk, rfl⟩ := List.mem_map.mp hg
          have := hvalid k hk
          omega
        keys }
    refine ⟨ad, ⟨⟨host.scope, hhost⟩, ?_, ?_, hname, hchars, hpin, ?_,
      mode_eq_ite hmode hgroupsMode,
      (map_natCast_toNat hvalid).symm, hkeys⟩, ?_⟩
    · exact (Int.toNat_of_nonneg hport.le).symm
    · simp only [ad]
      omega
    · exact (Int.toNat_of_nonneg hexpiry.1).symm
    · simp [Advertisement.layout, Advertisement.header, ad, hkeys.version, List.length_map]
  · rintro ⟨ad, h, rfl⟩
    obtain ⟨scope, hhost⟩ := h.host
    have hnil : ad.groups.map (fun g : ℕ ↦ (g : ℤ)) ≠ [] ↔ ad.groups ≠ [] := by simp
    have hdistinct : ad.groups.Nodup := ad.groups_ascending.imp fun hab ↦ hab.ne
    have hnodup : (ad.groups.map fun g : ℕ ↦ (g : ℤ)).Nodup := hdistinct.map Nat.cast_injective
    refine ⟨⟨ad.host, scope⟩, hhost, ?_, ?_, ad.name, ?_, ?_, ?_, ad.pin, h.pin, ad.length_pin,
      bigEndian 2 ad.port ++ bigEndian 4 ad.expiry, ?_, _, ⟨ad.keys, h.keys, rfl⟩, ?_⟩
    · rw [h.mode, h.groups, hnodup.dedup, List.length_map]
      refine ⟨?_, ad.groups_le, rfl⟩
      by_cases hgroups : ad.groups = []
      · exact Or.inl (if_neg (not_not.mpr hgroups))
      · exact Or.inr (if_pos hgroups)
    · rw [h.mode, h.groups, hnil]
      constructor
      · by_cases hgroups : ad.groups = []
        · simp [hgroups, publicMode_ne_groupsMode]
        · simp [hgroups]
      · intro g hg
        obtain ⟨k, hk, rfl⟩ := List.mem_map.mp hg
        have := ad.groups_valid k hk
        omega
    · exact asciiEncode_eq_some_iff.mpr ⟨ad.name_ascii, h.name⟩
    · exact ⟨⟨ad.name_pos, ad.name_le⟩, h.name_chars⟩
    · have := h.port_pos
      have := ad.port_lt
      rw [h.port]
      omega
    · rw [h.port, h.expiry]
      exact packEndpoint_natCast ad.port_lt ad.expiry_lt
    · simp [Advertisement.layout, Advertisement.header, h.groups, h.keys.version, List.map_map,
        Function.comp_def]

end Encoder

end QortalRelay.Discovery
