import QortalRelay.Discovery.Registry
import QortalRelay.Discovery.RoundTrip

/-!
# Configurations that can be announced

The relay process checks its configuration before it starts and passes it to the announcer on the
command line; the announcer checks what it is given once more, and so does the encoder of the
announcement. The size that the relay compares with the capacity of a packet is the length of what
the encoder builds, whenever the encoder builds something (`length_build`). The other checks do not
agree: the relay starts with names, addresses and zones that the announcer refuses.

What stands between the two is the command line. `argparse` takes a name that begins with a hyphen
for an option, unless it is a number, and exits before the announcer has checked anything; the
results here are about the checks, on arguments that have been let through.
-/

set_option autoImplicit false
set_option relaxedAutoImplicit false

namespace QortalRelay.Discovery

open Foundation Encoding Binary
open AccessConfig (publicMode groupsMode)

/-! ### The announcer's command line -/

/-- What the announcer is given of the relay's configuration. -/
structure Args where
  host : Text
  port : ℤ
  serverName : Text
  certSha256 : Text
  allowLocal : Bool
  accessMode : Text
  allowedGroupIds : List ℤ

/-- How the announcer reads what the relay writes on its command line, as far as the texts go: that
`argparse` takes an argument for a value and not for an option is not part of it. The zone of an
address is its scope, which has no percent sign and no slash. Only ASCII bytes are read as ASCII
characters. -/
structure CommandLine (ip : IpLibrary) where
  addrString : Addr → Text
  ipAddress_addrString : ∀ addr, ip.ipAddress (addrString addr) =
    if addr.zone.any (fun c ↦ c = '%' || c = '/') then none
    else some ⟨addr.address, if addr.zone = [] then none else some addr.zone⟩
  argument : Bytes → Text
  argument_eq_iff : ∀ bytes label : Bytes, (∀ b ∈ label, b.toNat < 128) →
    (argument bytes = label.map charOf ↔ bytes = label)

/-- The arguments for what `Start` returned. -/
def announcerArgs {ip : IpLibrary} (line : CommandLine ip) (allowLocal : Bool)
    (prepared : Prepared) : Args where
  host := line.addrString prepared.addr
  port := prepared.port.toNat
  serverName := line.argument prepared.serverName
  certSha256 := hexEncode prepared.pin
  allowLocal := allowLocal
  accessMode := prepared.policy.mode
  allowedGroupIds := prepared.policy.allowedGroupIds.map Int32.toInt

/-! ### The announcer's checks -/

/-- The characters that `str.strip` takes off. -/
def isSpace (c : Char) : Bool :=
  let n := c.toNat
  (0x9 ≤ n && n ≤ 0xd) || (0x1c ≤ n && n ≤ 0x20) || n = 0x85 || n = 0xa0 || n = 0x1680 ||
    (0x2000 ≤ n && n ≤ 0x200a) || n = 0x2028 || n = 0x2029 || n = 0x202f || n = 0x205f || n = 0x3000

def strip (text : Text) : Text :=
  ((text.dropWhile isSpace).reverse.dropWhile isSpace).reverse

def isHexDigit (c : Char) : Bool := ('0' ≤ c && c ≤ '9') || ('a' ≤ c && c ≤ 'f')

/-- `RelayDiscovery.validate`, which keeps the pin in lower case; `isGlobal` is the `is_global` of
the library. -/
def Args.validate (ip : IpLibrary) (isGlobal : Address → Bool) (args : Args) :
    Except Raised Args := do
  let host ← require (ip.ipAddress args.host) .address
  ensure (isGlobal host.address = true ∨
    (args.allowLocal = true ∧ host.address.isLoopback = true))
    (.value "advertised host must be a global literal IP")
  ensure (1 ≤ args.port ∧ args.port ≤ 65535) (.value "advertised port is invalid")
  ensure (args.serverName ≠ [] ∧ args.serverName.length ≤ 128) (.value "server name is invalid")
  ensure (args.serverName.all isNameChar = true)
    (.value "server name contains unsupported characters")
  let pin := (strip args.certSha256).map Char.toLower
  ensure (pin.length = 64 ∧ pin.all isHexDigit = true)
    (.value "certificate pin must be a SHA-256 hex digest")
  return { args with certSha256 := pin }

/-- What the announcer encodes. -/
def Args.arguments (args : Args) (expiry : ℤ) (ticketKey : Option Text) : Arguments :=
  ⟨args.host, args.port, args.serverName, args.certSha256, expiry, args.accessMode,
    args.allowedGroupIds, ticketKey⟩

/-! ### The size of an announcement -/

theorem moreBytes_pack (fuel n : ℕ) (hfuel : n ≤ fuel) :
    1 + moreBytes fuel n = (Base128.pack n).length := by
  induction fuel generalizing n with
  | zero =>
    rw [Base128.pack_of_lt (by omega)]
    rfl
  | succ fuel ih =>
    by_cases hn : n < 128
    · rw [moreBytes, if_neg (by omega), Base128.pack_of_lt hn]
      rfl
    · have hshift : (n : ℤ) >>> (7 : ℕ) = ((n / 128 : ℕ) : ℤ) := by
        rw [Int.shiftRight_eq_div_pow]
        norm_num
      rw [moreBytes, if_pos (by omega), hshift, ih _ (by omega),
        Base128.pack_of_le (not_lt.mp hn), List.length_cons, Nat.add_comm]

theorem idBytes_eq {id : Int32} (hid : 0 < id.toInt) :
    idBytes id = (Base128.pack id.toInt.toNat).length := by
  rw [idBytes, ← moreBytes_pack _ _ le_rfl, Int.toNat_of_nonneg hid.le]

theorem length_packGroups (groups : List ℕ) :
    (packGroups groups).length = (groups.map fun g ↦ (Base128.pack g).length).sum := by
  rw [packGroups, List.length_flatMap]

section Size

variable {ip : IpLibrary} {identity : Identity} {arguments : Arguments} {ad : Advertisement}
  {config : AccessConfig}

theorem length_packGroups_eq (hpositive : ∀ id ∈ config.allowedGroupIds, 0 < id.toInt)
    (hgroups : sorted (config.allowedGroupIds.map Int32.toInt) = ad.groups.map (↑)) :
    (packGroups ad.groups).length = (config.allowedGroupIds.map idBytes).sum := by
  have hback : ad.groups = (sorted (config.allowedGroupIds.map Int32.toInt)).map Int.toNat := by
    rw [hgroups, List.map_map]
    exact (List.map_id' _).symm
  have hperm : (sorted (config.allowedGroupIds.map Int32.toInt)).Perm
      (config.allowedGroupIds.map Int32.toInt) := List.perm_insertionSort _ _
  rw [length_packGroups, hback, List.map_map, (hperm.map _).sum_eq, List.map_map]
  congr 1
  exact List.map_congr_left fun id hid ↦ (idBytes_eq (hpositive id hid)).symm

/-- The relay computes the length of what the encoder builds. -/
theorem length_build (h : Describes ip identity arguments ad) {addr : Addr}
    (hhost : addr.address = ad.host)
    (hpositive : ∀ id ∈ config.allowedGroupIds, 0 < id.toInt)
    (hgroups : arguments.groups = config.allowedGroupIds.map Int32.toInt) (signature : Bytes)
    (hsignature : signature.length = 64) :
    (ad.layout ++ signature).length = announcementSize arguments.ticketKey.isSome addr ad.name
      config.allowedGroupIds := by
  have hsorted := h.groups
  rw [hgroups] at hsorted
  have hversion : ad.header.version = if arguments.ticketKey.isSome then 3 else 2 :=
    h.keys.version
  have hsize : Address.size ad.header.family = ad.host.packed.length :=
    ad.host.length_eq_size.symm
  have hname : ad.header.nameLength = ad.name.length := rfl
  have hkeys := ad.length_keys
  rw [List.length_append, hsignature, ad.length_layout,
    length_packGroups_eq hpositive hsorted, announcementSize, hhost]
  simp only [Header.groupsOffset, Header.nameOffset, Header.pinOffset, Header.endpointOffset,
    Header.size, Header.tail, hversion, hsize, hname] at hkeys ⊢
  by_cases hticket : arguments.ticketKey.isSome = true
  · simp only [hticket, if_true] at hkeys ⊢
    omega
  · simp only [hticket, if_false, Bool.false_eq_true, show (2 : ℕ) ≠ 3 by norm_num] at hkeys ⊢
    omega

/-- A ticket key of 32 bytes is given exactly in groups mode. -/
def TicketKeyFor (mode : Text) (ticketKey : Option Text) : Prop :=
  (mode = groupsMode ∧ ∃ text bytes, ticketKey = some text ∧ hexDecode text = some bytes ∧
    bytes.length = 32) ∨ (mode ≠ groupsMode ∧ ticketKey = none)

theorem TicketKeyFor.isSome {mode : Text} {ticketKey : Option Text}
    (h : TicketKeyFor mode ticketKey) : ticketKey.isSome = decide (mode = groupsMode) := by
  rcases h with ⟨hmode, text, _, rfl, -, -⟩ | ⟨hmode, rfl⟩ <;> simp [hmode]

theorem TicketKeyFor.encodeKeys {mode : Text} {ticketKey : Option Text}
    (h : TicketKeyFor mode ticketKey) (identity : Identity) :
    ∃ keys : Keys, keys.Describe identity ticketKey := by
  rcases h with ⟨-, text, bytes, rfl, hdecode, hlength⟩ | ⟨-, rfl⟩
  · exact ⟨_, bytes, hlength, hdecode, rfl⟩
  · exact ⟨_, rfl⟩

theorem toNat_lt_of_isNameChar {b : UInt8} (h : isNameChar (charOf b) = true) :
    b.toNat < 128 := by
  have hall : ∀ k : Fin 256, isNameChar (Char.ofNat k) = true → k.val < 128 := by decide +kernel
  exact hall ⟨b.toNat, b.toNat_lt⟩ h

/-- The encoder accepts every checked configuration with a name over the alphabet. -/
theorem exists_describes (hsound : config.Sound) (identity : Identity) {host : IpAddress}
    {label pin : Bytes} (hhost : ip.ipAddress arguments.host = some host)
    (hport : 0 < arguments.port ∧ arguments.port ≤ 65535)
    (hname : arguments.name = label.map charOf)
    (hchars : label.all (fun b ↦ isNameChar (charOf b)) = true)
    (hlabel : 1 ≤ label.length ∧ label.length ≤ 128)
    (hpin : hexDecode arguments.pin = some pin) (hpinLength : pin.length = 32)
    (hexpiry : 0 ≤ arguments.expiry ∧ arguments.expiry < 2 ^ 32)
    (hmode : arguments.mode = config.mode)
    (hgroups : arguments.groups = config.allowedGroupIds.map Int32.toInt)
    (hticket : TicketKeyFor config.mode arguments.ticketKey) :
    ∃ ad, Describes ip identity arguments ad ∧ ad.host = host.address ∧ ad.name = label := by
  obtain ⟨keys, hkeys⟩ := hticket.encodeKeys identity
  have hperm : (sorted arguments.groups).Perm (config.allowedGroupIds.map Int32.toInt) :=
    hgroups ▸ List.perm_insertionSort _ _
  have hnodup : (sorted arguments.groups).Nodup :=
    hperm.nodup_iff.mpr (hsound.nodup.map fun a b hab ↦ Int32.toInt_inj.mp hab)
  have hvalid : ∀ g ∈ sorted arguments.groups, 0 < g ∧ g < 2 ^ 31 := by
    intro g hg
    obtain ⟨id, hid, rfl⟩ := List.mem_map.mp (hperm.mem_iff.mp hg)
    exact ⟨hsound.positive id hid, Int32.toInt_lt id⟩
  have hnil : sorted arguments.groups ≠ [] ↔ config.allowedGroupIds ≠ [] := by
    rw [ne_eq, ne_eq, ← List.length_eq_zero_iff, hperm.length_eq, List.length_map,
      List.length_eq_zero_iff]
  have hascii : asciiEncode arguments.name = some label :=
    asciiEncode_eq_some_iff.mpr
      ⟨fun b hb ↦ toNat_lt_of_isNameChar (List.all_eq_true.mp hchars b hb), hname⟩
  have hendpoint : packEndpoint (arguments.port.toNat : ℕ) (arguments.expiry.toNat : ℕ) = some _ :=
    packEndpoint_natCast (by omega) (by omega)
  rw [Int.toNat_of_nonneg hport.1.le, Int.toNat_of_nonneg hexpiry.1] at hendpoint
  have hbuild : ∃ raw, build ip identity arguments = .ok raw := by
    simp only [build, bind_eq_ok, require_eq_ok, ensure_eq_ok, pure_eq_ok, exists_const,
      encodeKeys_eq_ok_iff]
    refine ⟨_, host, hhost, ⟨?_, ?_, ?_⟩, ⟨?_, hvalid⟩, label, hascii, ⟨hlabel, ?_⟩, hport, pin,
      hpin,
      hpinLength, _, hendpoint, _, ⟨keys, hkeys, rfl⟩, rfl⟩
    · rw [hmode]
      exact hsound.mode.imp And.left And.left
    · rw [hperm.length_eq, List.length_map]
      exact hsound.length_le
    · rw [hnodup.dedup]
    · rw [hmode, hnil]
      rcases hsound.mode with ⟨hpublic, hids⟩ | ⟨hgroupsMode, hids⟩
      · simp [hpublic, hids, publicMode_ne_groupsMode]
      · simp [hgroupsMode, hids]
    · rw [hname, List.all_map]
      exact hchars
  obtain ⟨raw, hraw⟩ := hbuild
  obtain ⟨ad, had, -⟩ := build_eq_ok_iff.mp hraw
  refine ⟨ad, had, ?_, ?_⟩
  · obtain ⟨scope, hhost'⟩ := had.host
    rw [hhost, Option.some.injEq] at hhost'
    rw [hhost']
  · exact List.map_injective_iff.mpr charOf_injective (had.name.symm.trans hname)

/-! ### The two checks of the capacity -/

theorem encode_eq_payloadError_iff {raw : Bytes} (h : build ip identity arguments = .ok raw) :
    encode ip identity arguments = .error payloadError ↔ maxPayload < raw.length := by
  simp only [encode, h, bind, Except.bind, ensure]
  by_cases hsize : raw.length ≤ maxPayload
  · simp [hsize, pure, Except.pure]
  · simp [hsize, lt_of_not_ge hsize]

theorem start_eq_capacityError_iff {machine : Machine} {config : Config} {prepared : Prepared}
    (h : configure machine config = .ok prepared) : start machine config = .error capacityError ↔
      316 < announcementSize (decide (prepared.policy.mode = groupsMode)) prepared.addr
        config.serverName config.access.allowedGroupIds := by
  simp only [start, h, bind, Except.bind, ensure]
  split_ifs with hsize
  · simp [pure, Except.pure, hsize]
  · simpa using hsize

theorem announcementSize_perm {ids others : List Int32} (h : ids.Perm others) (tickets : Bool)
    (addr : Addr) (name : Bytes) :
    announcementSize tickets addr name ids = announcementSize tickets addr name others := by
  rw [announcementSize, announcementSize, (h.map idBytes).sum_eq]

/-- A name of nineteen bytes fits with every configuration. -/
theorem announcementSize_le (hsound : config.Sound) (addr : Addr) {name : Bytes}
    (hname : name.length ≤ 19) :
    announcementSize (decide (config.mode = groupsMode)) addr name config.allowedGroupIds
      ≤ 316 := by
  have hids : (config.allowedGroupIds.map idBytes).sum ≤ 5 * config.allowedGroupIds.length := by
    have hbytes : ∀ n ∈ config.allowedGroupIds.map idBytes, n ≤ 5 := by
      intro n hn
      obtain ⟨id, hid, rfl⟩ := List.mem_map.mp hn
      have hlt := Int32.toInt_lt id
      rw [idBytes_eq (hsound.positive id hid)]
      exact length_pack_group (by omega)
    simpa [Nat.mul_comm] using List.sum_le_card_nsmul _ 5 hbytes
  have hlength := hsound.length_le
  have haddr : addr.address.packed.length ≤ 16 := by
    rcases addr.address.length_packed with h | h <;> omega
  unfold announcementSize
  rcases hsound.mode with ⟨hmode, hnil⟩ | ⟨hmode, -⟩
  · simp only [hmode, publicMode_ne_groupsMode, hnil]
    simp
    omega
  · simp only [hmode]
    simp
    omega

/-- Assumes: a configuration that is accepted, a name of 1 to 128 bytes over the alphabet of names,
and for the encoder the text of the address, a port, a pin of 32 bytes, an expiry of 32 bits, the
mode and the groups of the configuration, and a ticket key exactly in groups mode. -/
theorem capacity_checks_agree {parseUrl : Text → Option Url} {access checked : AccessConfig}
    {addr : Addr} {scope : Option Text} {name pin : Bytes}
    (hvalidate : access.validate parseUrl = .ok checked)
    (hlength : 1 ≤ name.length ∧ name.length ≤ 128)
    (hchars : name.all (fun b ↦ isNameChar (charOf b)) = true)
    (hhost : ip.ipAddress arguments.host = some ⟨addr.address, scope⟩)
    (hport : 0 < arguments.port ∧ arguments.port ≤ 65535)
    (hname : arguments.name = name.map charOf)
    (hpin : hexDecode arguments.pin = some pin) (hpinLength : pin.length = 32)
    (hexpiry : 0 ≤ arguments.expiry ∧ arguments.expiry < 2 ^ 32)
    (hmode : arguments.mode = access.mode)
    (hgroups : arguments.groups = access.allowedGroupIds.map Int32.toInt)
    (hticket : TicketKeyFor access.mode arguments.ticketKey) :
    (∃ raw, build ip identity arguments = .ok raw ∧
      announcementSize (decide (access.mode = groupsMode)) addr name access.allowedGroupIds =
        raw.length) ∧
    (∀ machine config prepared, config.access = access → config.serverName = name →
      configure machine config = .ok prepared → prepared.addr = addr →
      (start machine config = .error capacityError ↔
        encode ip identity arguments = .error payloadError)) ∧
    (name.length ≤ 19 →
      announcementSize (decide (access.mode = groupsMode)) addr name access.allowedGroupIds ≤ 316 ∧
        ∃ raw, encode ip identity arguments = .ok raw) := by
  obtain ⟨hsound, -, -⟩ := AccessConfig.validate_eq_ok hvalidate
  obtain ⟨ad, had, hadHost, rfl⟩ := exists_describes hsound identity hhost hport hname hchars
    hlength
    hpin hpinLength hexpiry hmode hgroups hticket
  have hbuild := build_eq_ok_iff.mpr ⟨ad, had, rfl⟩
  have hsize := length_build had hadHost.symm hsound.positive hgroups _
    (identity.length_sign (domain ad.keys.version ++ ad.layout))
  rw [hticket.isSome] at hsize
  refine ⟨⟨_, hbuild, hsize.symm⟩, ?_, ?_⟩
  · rintro machine config prepared rfl hserverName hconfigure rfl
    obtain ⟨-, -, -, -, -, hpolicy⟩ := configure_eq_ok hconfigure
    have hne : config.access.mode ≠ [] := by
      rcases hsound.mode with ⟨h, -⟩ | ⟨h, -⟩ <;> simp [h, publicMode, groupsMode]
    rw [start_eq_capacityError_iff hconfigure, encode_eq_payloadError_iff hbuild, hsize,
      hserverName,
      (AccessConfig.mode_ofPolicy hpolicy).2.2 hne, maxPayload]
  · intro hshort
    have hfits := announcementSize_le hsound addr hshort
    refine ⟨hfits, _, encode_eq_ok_iff.mpr ⟨⟨ad, had, rfl⟩, ?_⟩⟩
    rw [hsize]
    exact hfits

end Size

def sampleAddr : Addr := ⟨⟨[1, 1, 1, 1], by simp⟩, [], fun _ ↦ rfl⟩

def sampleUrls (_ : Text) : Option Url := some ⟨['h', 't', 't', 'p', 's'], ['a'], false, [], []⟩

def sampleMachine (addr : Addr) : Machine where
  parseAddrPort _ := some (addr, 443)
  parseUrl := sampleUrls
  certificate := some ⟨List.replicate 32 0xaa, by simp⟩
  newTicketAuthority := true
  serveTickets := true

def sampleAccess (ids : List Int32) : AccessConfig := ⟨groupsMode, ids, [['a']]⟩

theorem capacity_checks_agree_sample :
    (sampleAccess [300, 7]).validate sampleUrls = .ok (sampleAccess [7, 300]) ∧
      ∃ raw, build sampleLibrary sampleIdentity sampleArguments = .ok raw ∧
        announcementSize true sampleAddr [114, 101, 108, 97, 121, 45, 49] [300, 7] =
          raw.length := by
  have hvalidate : (sampleAccess [300, 7]).validate sampleUrls = .ok (sampleAccess [7, 300]) := by
    decide +kernel
  have hhost : sampleLibrary.ipAddress sampleArguments.host = some ⟨sampleAddr.address, none⟩ := by
    decide +kernel
  have hpin : hexDecode sampleArguments.pin = some (List.replicate 32 0xaa) := by decide +kernel
  have hticket : TicketKeyFor (sampleAccess [300, 7]).mode sampleArguments.ticketKey :=
    Or.inl ⟨rfl, _, List.replicate 32 0xcc, rfl, by decide +kernel, by simp⟩
  exact ⟨hvalidate, (capacity_checks_agree hvalidate (by decide) (by decide) hhost (by decide)
    (by decide) hpin (by simp) (by decide) rfl (by decide) hticket).1⟩

/-- The address 2001:4860:4860::8888. -/
def sampleAddrV6 : Addr :=
  ⟨⟨[0x20, 0x01, 0x48, 0x60, 0x48, 0x60] ++ List.replicate 8 0 ++ [0x88, 0x88], by simp⟩, [],
    fun _ ↦ rfl⟩

/-- Sixteen groups of five bytes. -/
def largestIds : List Int32 := (List.range 16).map fun k ↦ Int32.ofNat (2147483647 - k)

/-- The relay refuses a name of 128 underscores for its length, the encoder for its characters. -/
theorem capacity_checks_differ :
    start (sampleMachine sampleAddrV6)
        ⟨sampleAccess largestIds, [], [], List.replicate 128 95, false⟩ = .error capacityError ∧
      encode sampleLibrary sampleIdentity
        { host := "2001:4860:4860::8888".toList
          port := 443
          name := List.replicate 128 '_'
          pin := List.replicate 64 'a'
          expiry := 1000
          mode := groupsMode
          groups := largestIds.map Int32.toInt
          ticketKey := some (List.replicate 64 'c') } = .error (.value "invalid relay name") := by
  constructor
  · decide +kernel
  · decide +kernel

/-! ### What the announcer takes of a started relay -/

section Announcer

variable {ip : IpLibrary}

theorem hexDigit_spec : ∀ n : Fin 16, isSpace (hexDigit n) = false ∧
    (hexDigit n).toLower = hexDigit n ∧ isHexDigit (hexDigit n) = true := by
  decide +kernel

theorem strip_eq_self {text : Text} (h : ∀ c ∈ text, isSpace c = false) : strip text = text := by
  have hdrop : ∀ l : Text, (∀ c ∈ l, isSpace c = false) → l.dropWhile isSpace = l := by
    intro l hl
    cases l with
    | nil => rfl
    | cons c rest => rw [List.dropWhile_cons_of_neg (by simp [hl c (by simp)])]
  rw [strip, hdrop text h, hdrop _ (by simpa using h), List.reverse_reverse]

/-- The announcer keeps the pin that it is given. -/
theorem pin_validated {pin : Bytes} (hpin : pin.length = 32) :
    (strip (hexEncode pin)).map Char.toLower = hexEncode pin ∧
      (hexEncode pin).length = 64 ∧ (hexEncode pin).all isHexDigit = true := by
  refine ⟨?_, by rw [length_hexEncode, hpin], ?_⟩
  · rw [strip_eq_self]
    · refine (List.map_congr_left fun c hc ↦ ?_).trans (List.map_id' _)
      obtain ⟨n, rfl⟩ := mem_hexEncode hc
      exact (hexDigit_spec n).2.1
    · intro c hc
      obtain ⟨n, rfl⟩ := mem_hexEncode hc
      exact (hexDigit_spec n).1
  · rw [List.all_eq_true]
    intro c hc
    obtain ⟨n, rfl⟩ := mem_hexEncode hc
    exact (hexDigit_spec n).2.2

theorem isNameChar_lt {c : Char} (h : isNameChar c = true) : c.toNat < 128 := by
  delta isNameChar Char.isAlphanum Char.isAlpha Char.isUpper Char.isLower Char.isDigit at h
  simp only [Bool.or_eq_true, Bool.and_eq_true, decide_eq_true_eq, UInt32.le_iff_toNat_le,
    ge_iff_le] at h
  change c.val.toNat < 128
  rcases h with ((((⟨-, h⟩ | ⟨-, h⟩) | ⟨-, h⟩) | rfl) | rfl)
  · exact lt_of_le_of_lt h (by decide)
  · exact lt_of_le_of_lt h (by decide)
  · exact lt_of_le_of_lt h (by decide)
  · decide
  · decide

/-- A name is read over the alphabet only when it is written over it. -/
theorem argument_isName_iff (line : CommandLine ip) (name : Bytes) :
    (line.argument name).all isNameChar = true ↔
      name.all (fun b ↦ isNameChar (charOf b)) = true := by
  constructor
  · intro h
    have hascii : (line.argument name).all fun c ↦ decide (c.toNat < 128) := by
      rw [List.all_eq_true] at h ⊢
      exact fun c hc ↦ decide_eq_true (isNameChar_lt (h c hc))
    have hencode : asciiEncode (line.argument name) = some _ := if_pos hascii
    obtain ⟨hlabel, htext⟩ := asciiEncode_eq_some_iff.mp hencode
    obtain hname := (line.argument_eq_iff name _ hlabel).mp htext
    rw [htext, ← hname, List.all_map] at h
    exact h
  · intro h
    have hascii : ∀ b ∈ name, b.toNat < 128 := by
      rw [List.all_eq_true] at h
      exact fun b hb ↦ toNat_lt_of_isNameChar (h b hb)
    rw [(line.argument_eq_iff name name hascii).mpr rfl, List.all_map]
    exact h

variable {line : CommandLine ip} {isGlobal : Address → Bool} {machine : Machine} {config : Config}
  {prepared : Prepared} {identity : Identity}

/-- A zone that the announcer reads as a scope. -/
def ReadableZone (addr : Addr) : Prop := addr.zone.any (fun c ↦ c = '%' || c = '/') = false

theorem argument_of_isName (line : CommandLine ip) {name : Bytes}
    (h : name.all (fun b ↦ isNameChar (charOf b)) = true) :
    line.argument name = name.map charOf := by
  rw [List.all_eq_true] at h
  exact (line.argument_eq_iff name name fun b hb ↦ toNat_lt_of_isNameChar (h b hb)).mpr rfl

theorem port_range {port : UInt16} (h : port ≠ 0) : 1 ≤ port.toNat ∧ port.toNat ≤ 65535 := by
  have hlt := port.toNat_lt
  have hne : port.toNat ≠ 0 := fun hzero ↦ h (UInt16.toNat_inj.mp hzero)
  omega

/-- What the announcer's own checks ask of a relay that is not on the loopback. -/
theorem validate_eq_ok_iff (hloopback : prepared.addr.address.isLoopback = false)
    (hname : prepared.serverName ≠ [] ∧ prepared.serverName.length ≤ 128)
    (hport : prepared.port ≠ 0) (hpin : prepared.pin.length = 32) {allowLocal : Bool}
    {args : Args} :
    (announcerArgs line allowLocal prepared).validate ip isGlobal = .ok args ↔
      args = announcerArgs line allowLocal prepared ∧
        prepared.serverName.all (fun b ↦ isNameChar (charOf b)) = true ∧
        isGlobal prepared.addr.address = true ∧ ReadableZone prepared.addr := by
  obtain ⟨hlower, hlength, hdigits⟩ := pin_validated hpin
  have hhost := line.ipAddress_addrString prepared.addr
  have hportRange := port_range hport
  simp only [Args.validate, bind_eq_ok, require_eq_ok, ensure_eq_ok, pure_eq_ok, exists_const]
  simp only [announcerArgs, hhost, hlower, argument_isName_iff]
  constructor
  · rintro ⟨host, hsome, hglobal, -, -, hchars, -, rfl⟩
    have hzone : ReadableZone prepared.addr := by
      by_contra hnot
      rw [ReadableZone, Bool.not_eq_false] at hnot
      simp [hnot] at hsome
    rw [if_neg (by simpa [ReadableZone] using hzone)] at hsome
    obtain rfl := Option.some.inj hsome
    exact ⟨rfl, hchars, by simpa [hloopback] using hglobal, hzone⟩
  · rintro ⟨rfl, hchars, hglobal, hzone⟩
    rw [ReadableZone] at hzone
    rw [argument_of_isName line hchars, if_neg (by simp [hzone])]
    refine ⟨_, rfl, Or.inl hglobal, by omega, ⟨by simpa using hname.1, ?_⟩, hchars,
      ⟨hlength, hdigits⟩, rfl⟩
    simpa using hname.2

/-- The announcer announces the relay exactly if its name is over the alphabet of names, its address
is global and its zone can be read. Where `is_global` follows the registries, an address at which
the relay starts is global exactly if it is not one that the server overlooks.

Assumes: a relay that starts at an address off the loopback, an expiry of 32 bits, and a ticket key
exactly in groups mode. -/
theorem started_relay_announced_iff (hstart : start machine config = .ok prepared)
    (hloopback : prepared.addr.address.isLoopback = false) {expiry : ℤ}
    (hexpiry : 0 ≤ expiry ∧ expiry < 2 ^ 32) {ticketKey : Option Text}
    (hticket : TicketKeyFor prepared.policy.mode ticketKey) :
    ((∃ args raw,
      (announcerArgs line config.allowLocalAdvertise prepared).validate ip isGlobal = .ok args ∧
        encode ip identity (args.arguments expiry ticketKey) = .ok raw) ↔
      config.serverName.all (fun b ↦ isNameChar (charOf b)) = true ∧
        isGlobal prepared.addr.address = true ∧ ReadableZone prepared.addr) ∧
    (Registry.isGlobal prepared.addr.address = true ↔ ¬Registry.Overlooked prepared.addr) := by
  simp only [start, bind_eq_ok, ensure_eq_ok, pure_eq_ok, exists_const] at hstart
  obtain ⟨_, hconfigure, hsize, hprepared⟩ := hstart
  rw [hprepared] at hconfigure hsize
  obtain ⟨hname, hnameEq, hport, hroutable, hpin, hpolicy⟩ := configure_eq_ok hconfigure
  obtain ⟨hsound, hperm, -⟩ := AccessConfig.mode_ofPolicy hpolicy
  rw [← hnameEq] at hname hsize ⊢
  simp only [validate_eq_ok_iff hloopback hname hport hpin]
  have hpublic : publiclyRoutable prepared.addr = true := by simpa [hloopback] using hroutable
  refine ⟨?_, by simp [← Registry.routable_not_global_iff, hpublic]⟩
  constructor
  · rintro ⟨args, raw, ⟨-, hconditions⟩, -⟩
    exact hconditions
  · rintro ⟨hchars, hglobal, hzone⟩
    have hhost := line.ipAddress_addrString prepared.addr
    rw [ReadableZone] at hzone
    rw [if_neg (by simp [hzone])] at hhost
    have hportRange := port_range hport
    let arguments := (announcerArgs line config.allowLocalAdvertise prepared).arguments expiry
      ticketKey
    have hargumentsPort : 0 < arguments.port ∧ arguments.port ≤ 65535 := by
      change 0 < (prepared.port.toNat : ℤ) ∧ (prepared.port.toNat : ℤ) ≤ 65535
      omega
    have hdescribed : ∃ ad, Describes ip identity arguments ad ∧
        ad.host = prepared.addr.address ∧ ad.name = prepared.serverName :=
      exists_describes hsound identity hhost hargumentsPort
        (argument_of_isName line hchars) hchars ⟨List.length_pos_iff.mpr hname.1, hname.2⟩
        (hexDecode_hexEncode prepared.pin) hpin hexpiry rfl rfl hticket
    obtain ⟨ad, had, hadHost, hadName⟩ := hdescribed
    refine ⟨_, _, ⟨rfl, hchars, hglobal, hzone⟩, encode_eq_ok_iff.mpr ⟨⟨ad, had, rfl⟩, ?_⟩⟩
    rw [length_build had hadHost.symm hsound.positive rfl _ (identity.length_sign _), hadName,
      announcementSize_perm hperm]
    exact hticket.isSome ▸ hsize

end Announcer

/-- The zone of an address after a percent sign; arguments read byte by byte. -/
def sampleCommandLine : CommandLine sampleLibrary where
  addrString addr := sampleLibrary.str
    ⟨addr.address, if addr.zone = [] then none else some addr.zone⟩
  ipAddress_addrString addr := by
    change sampleRead (sampleText _) = _
    rw [sampleRead_text]
    by_cases hzone : addr.zone = []
    · simp [hzone]
    · have hany : (addr.zone.any fun c ↦ c = '%' || c = '/') =
          (addr.zone.isEmpty || addr.zone.contains '%' || addr.zone.contains '/') := by
        rw [Bool.eq_iff_iff]
        simp [hzone, and_or_left, exists_or]
      simp only [if_neg hzone, Option.any_some, hany]
  argument := List.map charOf
  argument_eq_iff _ _ _ := (List.map_injective_iff.mpr charOf_injective).eq_iff

def sampleConfig (name : Bytes) : Config := ⟨sampleAccess [7, 300], [], [], name, false⟩

def samplePrepared (addr : Addr) (name : Bytes) : Prepared :=
  ⟨addr, 443, name, List.replicate 32 0xaa, sampleAccess [7, 300]⟩

/-- The name `relay`. -/
def sampleName : Bytes := [114, 101, 108, 97, 121]

theorem started_relay_announced_sample :
    start (sampleMachine sampleAddr) (sampleConfig sampleName) =
        .ok (samplePrepared sampleAddr sampleName) ∧
      ∃ args raw, (announcerArgs sampleCommandLine false
          (samplePrepared sampleAddr sampleName)).validate sampleLibrary Registry.isGlobal =
            .ok args ∧
        encode sampleLibrary sampleIdentity
          (args.arguments 1000 (some (List.replicate 64 'c'))) = .ok raw := by
  have hstart : start (sampleMachine sampleAddr) (sampleConfig sampleName) =
      .ok (samplePrepared sampleAddr sampleName) := by decide +kernel
  have hticket : TicketKeyFor (sampleAccess [7, 300]).mode (some (List.replicate 64 'c')) :=
    Or.inl ⟨rfl, _, List.replicate 32 0xcc, rfl, by decide +kernel, by simp⟩
  exact ⟨hstart, (started_relay_announced_iff hstart (by decide) (by decide) hticket).1.mpr
    ⟨by decide, by decide, rfl⟩⟩

/-- The address 100::1, of the discard-only block. -/
def discardAddr : Addr := ⟨⟨[1] ++ List.replicate 14 0 ++ [1], by simp⟩, [], fun _ ↦ rfl⟩

/-- The relay starts with the name `relay_` and at the address 100::1; the announcer refuses the
name, and by the registries it refuses the address. -/
theorem started_relay_refused :
    (start (sampleMachine sampleAddr) (sampleConfig (sampleName ++ [95])) =
        .ok (samplePrepared sampleAddr (sampleName ++ [95])) ∧
      ∀ isGlobal args, (announcerArgs sampleCommandLine false
        (samplePrepared sampleAddr (sampleName ++ [95]))).validate sampleLibrary isGlobal ≠
          .ok args) ∧
    (start (sampleMachine discardAddr) (sampleConfig sampleName) =
        .ok (samplePrepared discardAddr sampleName) ∧
      ∀ args, (announcerArgs sampleCommandLine false
        (samplePrepared discardAddr sampleName)).validate sampleLibrary Registry.isGlobal ≠
          .ok args) := by
  refine ⟨⟨by decide +kernel, ?_⟩, by decide +kernel, ?_⟩
  · intro isGlobal args hvalidate
    obtain ⟨-, hchars, -⟩ := (validate_eq_ok_iff (by decide) (by decide) (by decide)
      (by simp [samplePrepared])).mp hvalidate
    exact absurd hchars (by decide)
  · intro args hvalidate
    obtain ⟨-, -, hglobal, -⟩ := (validate_eq_ok_iff (by decide) (by decide) (by decide)
      (by simp [samplePrepared])).mp hvalidate
    exact absurd hglobal (by decide)

end QortalRelay.Discovery
