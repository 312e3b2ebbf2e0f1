import QortalRelay.Foundation.Binary
import QortalRelay.Relay.Targets

/-!
# The port mapping of the router

`openWithClient` asks a router for its external address, tests it, and maps the port of the relay
there. The address of the mapping then goes to `Start`, which has a test of its own. The two tests
are compared block by block: an address that the first one takes is one that the second one takes,
except in the blocks of `Diverges`. The first test looks for the shared addresses of carriers only
in an IPv4 address and not in the mapped form of one (`gates_agree_iff`, `mapped_shared_accepted`).

The text of the router is parsed by the standard library; `parseAddr` gives what it returns.
-/

set_option autoImplicit false
set_option relaxedAutoImplicit false

namespace QortalRelay.Upnp

open Foundation Encoding Cidr Binary

/-! ### The test on the reported address -/

/-- `netip.Addr.IsGlobalUnicast`; the unspecified address of IPv6 has no zone. -/
def isGlobalUnicast (addr : Addr) : Bool :=
  let addr := addr.unmap
  if addr.address.is4 &&
      (addr.address.packed = [0, 0, 0, 0] || addr.address.packed = [255, 255, 255, 255]) then false
  else
    !(addr.zone = [] && addr.address.packed = List.replicate 16 0) && !addr.address.isLoopback &&
      !addr.address.isMulticast && !addr.address.isLinkLocalUnicast

/-- The test on the address that the router reports, where the shared addresses of carriers are
looked for in an IPv4 address only. -/
def isPublicInternetAddress (addr : Addr) : Bool :=
  if !isGlobalUnicast addr || addr.address.isPrivate || addr.address.isLoopback ||
      addr.address.isLinkLocalUnicast then false
  else if addr.address.is4 && addr.address.octet 0 = 100 && 64 ≤ addr.address.octet 1 &&
      addr.address.octet 1 ≤ 127 then false
  else true

/-! ### Opening a mapping -/

/-- `unicode.IsSpace`. -/
def isSpace (c : Char) : Bool :=
  (0x09 ≤ c.toNat && c.toNat ≤ 0x0d) || (0x2000 ≤ c.toNat && c.toNat ≤ 0x200a) ||
    c.toNat ∈ [0x20, 0x85, 0xa0, 0x1680, 0x2028, 0x2029, 0x202f, 0x205f, 0x3000]

/-- `strings.TrimSpace`. -/
def trimSpace (text : Text) : Text :=
  ((text.dropWhile isSpace).reverse.dropWhile isSpace).reverse

/-- A port mapping on the router, with the public address it was made for. -/
structure Mapping where
  internalPort : UInt16
  externalPort : UInt16
  description : Text
  leaseSeconds : UInt32
  publicIP : Addr
deriving DecidableEq

/-- A router, by what its calls return. -/
structure GatewayClient where
  localAddr : Bytes
  /-- Missing when the call fails. -/
  externalIPAddress : Option Text
  /-- Whether the router takes the mapping of a UDP port to the local address. -/
  addPortMapping : Mapping → Bool

/-- Why no mapping is opened. -/
inductive OpenError
  /-- The external address could not be read. -/
  | readExternal
  | nonPublic (external : Text)
  | noLocalAddress
  /-- The router refused the mapping of a port. -/
  | refused (port : UInt16)
deriving DecidableEq

def defaultLeaseSeconds : UInt32 := 7200

/-- Asks the router for its external address and for a mapping of the port, the same on both sides.
-/
def openWithClient (parseAddr : Text → Option Addr) (client : GatewayClient) (port : UInt16)
    (description : Text) : Except OpenError Mapping := do
  let external ← require client.externalIPAddress .readExternal
  let publicIP ← require (parseAddr (trimSpace external)) (.nonPublic external)
  ensure (isPublicInternetAddress publicIP = true) (.nonPublic external)
  let localIP ← require (Address.ofBytes client.localAddr) .noLocalAddress
  ensure ((Addr.plain localIP).isUnspecified = false) .noLocalAddress
  let mapping : Mapping := ⟨port, port, description, defaultLeaseSeconds, publicIP.unmap⟩
  ensure (client.addPortMapping mapping = true) (.refused port)
  return mapping

/-- The router reports a text. -/
def GatewayClient.reporting (client : GatewayClient) (external : Text) : GatewayClient :=
  { client with externalIPAddress := some external }

/-- The mapping that is asked for. -/
def wanted (port : UInt16) (description : Text) (addr : Addr) : Mapping :=
  ⟨port, port, description, defaultLeaseSeconds, addr.unmap⟩

/-- The local address and the router allow the mapping. -/
def GatewayClient.Ready (client : GatewayClient) (mapping : Mapping) : Prop :=
  (∃ localIP, Address.ofBytes client.localAddr = some localIP ∧
    (Addr.plain localIP).isUnspecified = false) ∧ client.addPortMapping mapping = true

section Opening

variable {parseAddr : Text → Option Addr} {external : Text} {addr : Addr}
  (hparse : parseAddr (trimSpace external) = some addr)

include hparse

theorem openWithClient_eq_ok {client : GatewayClient} {port : UInt16} {description : Text}
    {mapping : Mapping} :
    openWithClient parseAddr (client.reporting external) port description = .ok mapping ↔
      isPublicInternetAddress addr = true ∧ client.Ready (wanted port description addr) ∧
        wanted port description addr = mapping := by
  simp only [openWithClient, GatewayClient.reporting, bind_eq_ok, require_eq_ok, ensure_eq_ok,
    pure_eq_ok, exists_const, Option.some.injEq, exists_eq_left', hparse, GatewayClient.Ready,
    wanted]
  constructor
  · rintro ⟨hpublic, localIP, hlocal, hspecified, _, hadd, rfl⟩
    exact ⟨hpublic, ⟨⟨localIP, hlocal, hspecified⟩, ensure_eq_ok.mp hadd⟩, rfl⟩
  · rintro ⟨hpublic, ⟨⟨localIP, hlocal, hspecified⟩, hadd⟩, rfl⟩
    exact ⟨hpublic, localIP, hlocal, hspecified, (), ensure_eq_ok.mpr hadd, rfl⟩

theorem isOk_openWithClient_iff {client : GatewayClient} {port : UInt16} {description : Text} :
    (openWithClient parseAddr (client.reporting external) port description).isOk = true ↔
      isPublicInternetAddress addr = true ∧ client.Ready (wanted port description addr) := by
  constructor
  · intro h
    obtain ⟨mapping, hok⟩ := exists_ok_of_isOk h
    obtain ⟨hpublic, hready, -⟩ := (openWithClient_eq_ok hparse).mp hok
    exact ⟨hpublic, hready⟩
  · rintro ⟨hpublic, hready⟩
    rw [(openWithClient_eq_ok hparse).mpr ⟨hpublic, hready, rfl⟩]
    rfl

end Opening

/-- A router that takes every mapping, at `192.168.0.2`. -/
def willing : GatewayClient := ⟨[192, 168, 0, 2], none, fun _ ↦ true⟩

theorem ready_willing (mapping : Mapping) : willing.Ready mapping :=
  ⟨⟨⟨[192, 168, 0, 2], by decide⟩, by decide, by decide⟩, rfl⟩

/-! ### The test as blocks -/

def unspecifiedFour : Block := fourBlock 0 0 0 0 32

def broadcastFour : Block := fourBlock 255 255 255 255 32

/-- `100.64.0.0/10`. -/
def sharedFour : Block := fourBlock 100 64 0 0 10

/-- The test without the one on shared addresses. -/
def passes (addr : Addr) : Bool :=
  isGlobalUnicast addr && !addr.address.isPrivate && !addr.address.isLoopback &&
    !addr.address.isLinkLocalUnicast

section Passes

variable {addr : Addr}

theorem unmap_unmap_address (address : Address) (h : address.is4In6 = true) :
    address.unmap.unmap = address.unmap :=
  Addr.address_unmap_of_not (Addr.is4In6_of_length_four
    (Addr.length_unmap_of_mapped (show (Addr.plain address).address.is4In6 = true from h)))

/-- A mapped address is tested as the address it maps. -/
theorem passes_unmap (addr : Addr) : passes addr.unmap = passes addr := by
  by_cases h : addr.address.is4In6 = true
  · have hfour : addr.address.unmap.is4 = true := by
      simp [Address.is4, Addr.length_unmap_of_mapped h]
    have haddress : addr.unmap.address = addr.address.unmap := by
      rw [Addr.unmap_of_mapped h]
      rfl
    have htwice := unmap_unmap_address addr.address h
    simp only [passes, isGlobalUnicast, Addr.unmap_unmap, haddress, Address.isPrivate,
      Address.isLoopback, Address.isLinkLocalUnicast, hfour, htwice, if_true]
  · rw [Bool.not_eq_true] at h
    rw [Addr.unmap_of_not h]

theorem isPublicInternetAddress_iff (addr : Addr) :
    isPublicInternetAddress addr = true ↔
      passes addr = true ∧ sharedFour.contains addr.address.packed = false := by
  have hshared : (addr.address.is4 && addr.address.octet 0 = 100 && 64 ≤ addr.address.octet 1 &&
      addr.address.octet 1 ≤ 127) = sharedFour.contains addr.address.packed := by
    rw [Bool.eq_iff_iff]
    by_cases h : addr.address.packed.length = 4
    · rw [sharedFour, contains_fourBlock_iff h]
      simp [Address.is4, h, octet_div]
      omega
    · have hlength : addr.address.packed.length ≠ sharedFour.base.length := h
      simp [Address.is4, h, Block.contains, hlength]
  simp only [isPublicInternetAddress, passes, hshared]
  grind

/-- The blocks of IPv4 that the test names, without the shared addresses. -/
def namedFour : List Block :=
  [unspecifiedFour, broadcastFour, fourBlock 10 0 0 0 8, fourBlock 127 0 0 0 8,
    fourBlock 169 254 0 0 16, fourBlock 172 16 0 0 12, fourBlock 192 168 0 0 16,
    fourBlock 224 0 0 0 4]

theorem contains_single_iff {address : Address} (h : address.packed.length = 4)
    (a b c d : UInt8) :
    (fourBlock a b c d 32).contains address.packed = true ↔ address.packed = [a, b, c, d] := by
  have hbits : (fourBlock a b c d 32).bits = 8 * 4 := rfl
  rw [Block.contains_bytes_iff hbits]
  simp only [fourBlock, h, List.length_cons, List.length_nil, true_and]
  rw [List.take_of_length_le h.le]
  exact eq_comm

theorem isGlobalUnicast_four_iff (h : addr.address.packed.length = 4) :
    isGlobalUnicast addr = true ↔
      addr.address.packed ≠ [0, 0, 0, 0] ∧ addr.address.packed ≠ [255, 255, 255, 255] ∧
        ¬addr.address.isLoopback = true ∧ ¬addr.address.isMulticast = true ∧
        ¬addr.address.isLinkLocalUnicast = true := by
  have hlong : addr.address.packed ≠ List.replicate 16 0 := by
    intro heq
    rw [heq] at h
    simp at h
  simp only [isGlobalUnicast, Addr.unmap_of_not (Addr.is4In6_of_length_four h), Address.is4, h,
    hlong]
  grind

theorem passes_four_iff (h : addr.address.packed.length = 4) :
    passes addr = true ↔ anyOf namedFour addr.address = false := by
  simp only [passes, Bool.and_eq_true, Bool.not_eq_true', ← Bool.not_eq_true,
    isGlobalUnicast_four_iff h, isLoopback_four_iff h, isMulticast_four_iff h,
    isLinkLocalUnicast_four_iff h, isPrivate_four_iff h, anyOf, namedFour, unspecifiedFour,
    broadcastFour, List.any_cons, List.any_nil, Bool.or_eq_true, contains_single_iff h]
  grind

/-- Assumes: a longer address that maps no other. -/
theorem passes_six_iff (h : addr.address.packed.length = 16)
    (hmapped : addr.address.is4In6 = false) :
    passes addr = true ↔
      addr.isUnspecified = false ∧ addr.address.isLoopback = false ∧
        addr.address.isMulticast = false ∧ addr.address.isLinkLocalUnicast = false ∧
        addr.address.isPrivate = false := by
  simp only [passes, isGlobalUnicast, Addr.unmap_of_not hmapped, Addr.isUnspecified, Address.is4, h]
  grind

/-- The documentation block is the one test of the server more. -/
theorem publiclyRoutable_iff_passes (h : addr.address.packed.length = 16)
    (hmapped : addr.address.is4In6 = false) :
    publiclyRoutable addr = true ↔ passes addr = true ∧ addr.inDocumentation = false := by
  rw [passes_six_iff h hmapped, publiclyRoutable_iff_of_not hmapped]
  simp only [Address.is4, h]
  grind

end Passes

/-! ### Where the two tests differ -/

/-- The blocks of IPv4 that only the server names. -/
def unnamedFour : List Block :=
  [fourBlock 0 0 0 0 8, wideFour, fourBlock 198 18 0 0 15, fourBlock 198 51 100 0 24,
    fourBlock 203 0 113 0 24, fourBlock 240 0 0 0 4]

/-- `2001:db8::/32`. -/
def documentationSix : Block := sixBlock [0x20, 0x01, 0x0d, 0xb8] 32

/-- An address that is mapped on the router and refused by the server. -/
def Diverges (addr : Addr) : Prop :=
  (anyOf [unspecifiedFour, broadcastFour] addr.unmap.address = false ∧
    (anyOf unnamedFour addr.unmap.address = true ∨
      (addr.address.is4In6 = true ∧ sharedFour.contains addr.unmap.address.packed = true))) ∨
  (addr.zone = [] ∧ documentationSix.contains addr.address.packed = true)

section Compare

variable {addr : Addr}

theorem publiclyRoutable_four_iff_unnamed (h : addr.address.packed.length = 4)
    (hpasses : passes addr = true) :
    publiclyRoutable addr = true ↔
      anyOf unnamedFour addr.address = false ∧
        sharedFour.contains addr.address.packed = false := by
  rw [passes_four_iff h] at hpasses
  rw [publiclyRoutable_four_iff h]
  simp only [anyOf, namedFour, unnamedFour, commonFour, sharedFour, List.any_cons, List.any_nil,
    Bool.or_eq_false_iff] at hpasses ⊢
  grind

theorem passes_of_unnamed (h : anyOf (sharedFour :: unnamedFour) addr.address = true)
    (hspecial : anyOf [unspecifiedFour, broadcastFour] addr.address = false) :
    passes addr = true := by
  obtain ⟨block, hblock, hcontains⟩ := List.any_eq_true.mp h
  have hlengths : ∀ block ∈ sharedFour :: unnamedFour, block.base.length = 4 := by decide
  have hmeets : ∀ block ∈ sharedFour :: unnamedFour,
      (namedFour.drop 2).all (fun other ↦ !block.meets other) = true := by
    decide
  rw [passes_four_iff ((length_of_contains hcontains).trans (hlengths block hblock))]
  exact (anyOf_append_eq_false_iff (namedFour.take 2) (namedFour.drop 2)).mpr
    ⟨hspecial, anyOf_eq_false_of_meets (hmeets block hblock) hcontains⟩

/-- A longer address is not in a block of IPv4. -/
theorem contains_four_eq_false {address : Address} (h : address.packed.length = 16) {block : Block}
    (hblock : block.base.length = 4) : block.contains address.packed = false := by
  simp [Block.contains, h, hblock]

/-- An IPv4 address is not in the documentation block, and neither is its mapped form. -/
theorem contains_documentationSix_eq_false (h : addr.unmap.address.packed.length = 4) :
    documentationSix.contains addr.address.packed = false := by
  rw [Bool.eq_false_iff]
  intro hcontains
  have hlength := length_of_contains hcontains
  have hmapped : addr.address.is4In6 = true := by
    by_contra hnot
    rw [Bool.not_eq_true] at hnot
    rw [Addr.unmap_of_not hnot, hlength] at h
    cases h
  have hmeets := Block.meets_of_contains hcontains (contains_mappedForm_iff.mpr hmapped)
  exact absurd hmeets (by decide)

/-- The test on shared addresses is seen only by an address that maps no other. -/
theorem contains_sharedFour_iff (addr : Addr) :
    sharedFour.contains addr.address.packed = true ↔
      addr.address.is4In6 = false ∧ sharedFour.contains addr.unmap.address.packed = true := by
  by_cases hmapped : addr.address.is4In6 = true
  · rw [contains_four_eq_false (Address.length_of_is4In6 hmapped) rfl, hmapped]
    simp
  · rw [Bool.not_eq_true] at hmapped
    rw [Addr.unmap_of_not hmapped, hmapped]
    simp

/-- No address is both shared and in a block that only the server names. -/
theorem unnamedFour_eq_false_of_shared {address : Address}
    (h : sharedFour.contains address.packed = true) : anyOf unnamedFour address = false := by
  have hmeets : unnamedFour.all (fun other ↦ !sharedFour.meets other) = true := by decide
  exact anyOf_eq_false_of_meets hmeets h

/-- An IPv4 address, or a mapped one: the server refuses what passes in the blocks that only it
names. -/
theorem routable_iff_of_four (h : addr.unmap.address.packed.length = 4) :
    (isPublicInternetAddress addr = true → publiclyRoutable addr = true) ↔ ¬Diverges addr := by
  have hpublic := isPublicInternetAddress_iff addr
  rw [← passes_unmap] at hpublic
  constructor
  · rintro hroutable (⟨hspecial, hblocks⟩ | ⟨-, hdocumentation⟩)
    · have hblock : anyOf (sharedFour :: unnamedFour) addr.unmap.address = true := by
        simp only [anyOf, List.any_cons, Bool.or_eq_true]
        exact hblocks.symm.imp_left And.right
      have hpasses := passes_of_unnamed hblock hspecial
      have hrefused := (publiclyRoutable_four_iff_unnamed h hpasses).not.mpr (by grind)
      rw [publiclyRoutable_unmap] at hrefused
      refine hrefused (hroutable (hpublic.mpr ⟨hpasses, ?_⟩))
      rw [Bool.eq_false_iff]
      intro hcontains
      obtain ⟨hnot, hcontains⟩ := (contains_sharedFour_iff addr).mp hcontains
      rcases hblocks with hunnamed | ⟨hmapped, -⟩
      · rw [unnamedFour_eq_false_of_shared hcontains] at hunnamed
        cases hunnamed
      · rw [hmapped] at hnot
        cases hnot
    · rw [contains_documentationSix_eq_false h] at hdocumentation
      cases hdocumentation
  · intro hdiverges haccepted
    obtain ⟨hpasses, hnot⟩ := hpublic.mp haccepted
    have hspecial := ((anyOf_append_eq_false_iff (namedFour.take 2) (namedFour.drop 2)).mp
      ((passes_four_iff h).mp hpasses)).1
    rw [← publiclyRoutable_unmap, publiclyRoutable_four_iff_unnamed h hpasses]
    refine ⟨?_, ?_⟩
    · rw [Bool.eq_false_iff]
      exact fun hunnamed ↦ hdiverges (Or.inl ⟨hspecial, Or.inl hunnamed⟩)
    · rw [Bool.eq_false_iff]
      intro hcontains
      by_cases hmapped : addr.address.is4In6 = true
      · exact hdiverges (Or.inl ⟨hspecial, Or.inr ⟨hmapped, hcontains⟩⟩)
      · rw [Bool.not_eq_true] at hmapped
        rw [(contains_sharedFour_iff addr).mpr ⟨hmapped, hcontains⟩] at hnot
        cases hnot

/-- An address of the documentation block passes. -/
theorem passes_of_inDocumentation (h : addr.address.packed.length = 16)
    (hmapped : addr.address.is4In6 = false) (hdocumentation : addr.inDocumentation = true) :
    passes addr = true := by
  have hzone : addr.zone = [] := by
    simp only [Addr.inDocumentation, Bool.and_eq_true, decide_eq_true_eq] at hdocumentation
    exact hdocumentation.1.1
  rw [inDocumentation_six_iff h hzone] at hdocumentation
  have hothers : anyOf (refusedSix.take 5) addr.address = false :=
    anyOf_eq_false_of_meets (by decide) hdocumentation
  rw [anyOf_eq_false_iff] at hothers
  rw [passes_six_iff h hmapped]
  simp only [← Bool.not_eq_true, isUnspecified_six_iff h hzone, isLoopback_six_iff h hmapped,
    isMulticast_six_iff h hmapped, isLinkLocalUnicast_six_iff h hmapped,
    isPrivate_six_iff h hmapped]
  simp only [Bool.not_eq_true]
  exact ⟨hothers _ (by simp [refusedSix]), hothers _ (by simp [refusedSix]),
    hothers _ (by simp [refusedSix]), hothers _ (by simp [refusedSix]),
    hothers _ (by simp [refusedSix])⟩

/-- A longer address that maps no other: the documentation block decides, if there is no zone. -/
theorem routable_iff_of_six (h : addr.unmap.address.packed.length = 16) :
    (isPublicInternetAddress addr = true → publiclyRoutable addr = true) ↔ ¬Diverges addr := by
  have hmapped : addr.address.is4In6 = false := by
    by_contra hmapped
    rw [Bool.not_eq_false] at hmapped
    rw [Addr.unmap_of_mapped hmapped, Addr.plain, Addr.length_unmap_of_mapped hmapped] at h
    cases h
  have hlength := h
  rw [Addr.unmap_of_not hmapped] at hlength
  have hfour : ∀ blocks : List Block, (∀ block ∈ blocks, block.base.length = 4) →
      anyOf blocks addr.unmap.address = false := fun blocks hblocks ↦
    anyOf_eq_false_iff.mpr fun block hblock ↦ contains_four_eq_false h (hblocks block hblock)
  have hdiverges : Diverges addr ↔ addr.inDocumentation = true := by
    have hunnamed := hfour unnamedFour (by decide)
    simp only [Diverges, hunnamed, hmapped]
    by_cases hzone : addr.zone = []
    · rw [inDocumentation_six_iff hlength hzone, documentationSix]
      simp [hzone]
    · simp [hzone, Addr.inDocumentation]
  rw [hdiverges, publiclyRoutable_iff_passes hlength hmapped, isPublicInternetAddress_iff,
    contains_four_eq_false hlength rfl]
  have hpasses := passes_of_inDocumentation hlength hmapped
  grind

theorem routable_iff (addr : Addr) :
    (isPublicInternetAddress addr = true → publiclyRoutable addr = true) ↔ ¬Diverges addr :=
  addr.unmap.address.length_packed.elim routable_iff_of_four routable_iff_of_six

/-- The two forms of an IPv4 address differ in the test on shared addresses alone. -/
theorem isPublicInternetAddress_mapped_iff (h : addr.address.packed.length = 4) (zone : Text) :
    isPublicInternetAddress (addr.mapped h zone) = true ↔ passes addr = true := by
  have hlength : (addr.mapped h zone).address.packed.length = 16 := by simp [Addr.mapped, h]
  rw [isPublicInternetAddress_iff, contains_four_eq_false hlength rfl, ← passes_unmap,
    Addr.unmap_map]
  simp

end Compare

/-! ### The two gates -/

/-- What is mapped on a router is an address that the server takes for public, exactly if the
address is not one of those on which the tests differ; and a router gets the same answer for the
mapped form of an IPv4 address, exactly if the address is not a shared one. Assumes: the router
reports a text that is read as an address. -/
theorem gates_agree_iff (parseAddr : Text → Option Addr) (external : Text) (addr : Addr)
    (hparse : parseAddr (trimSpace external) = some addr) :
    ((∀ (client : GatewayClient) port description mapping,
        openWithClient parseAddr (client.reporting external) port description = .ok mapping →
          publiclyRoutable mapping.publicIP = true) ↔ ¬Diverges addr) ∧
    ∀ (mappedExternal : Text) (h : addr.address.packed.length = 4) (zone : Text),
      parseAddr (trimSpace mappedExternal) = some (addr.mapped h zone) →
      ((∀ (client : GatewayClient) port description,
        (openWithClient parseAddr (client.reporting mappedExternal) port description).isOk =
          (openWithClient parseAddr (client.reporting external) port description).isOk) ↔
        sharedFour.contains addr.address.packed = false) := by
  refine ⟨?_, fun mappedExternal h zone hmapped ↦ ?_⟩
  · rw [← routable_iff]
    constructor
    · intro hall haccepted
      have hok := (openWithClient_eq_ok hparse).mpr
        ⟨haccepted, ready_willing (wanted 1 [] addr), rfl⟩
      have hroutable := hall willing 1 [] _ hok
      rwa [wanted, publiclyRoutable_unmap] at hroutable
    · intro hroutable client port description mapping hok
      obtain ⟨haccepted, -, rfl⟩ := (openWithClient_eq_ok hparse).mp hok
      rw [wanted, publiclyRoutable_unmap]
      exact hroutable haccepted
  · have hanswer : ∀ (client : GatewayClient) port description,
        (openWithClient parseAddr (client.reporting mappedExternal) port description).isOk = true ↔
          passes addr = true ∧ client.Ready (wanted port description addr) := by
      intro client port description
      have hsame : wanted port description (addr.mapped h zone) = wanted port description addr := by
        rw [wanted, wanted, Addr.unmap_map, Addr.unmap_of_not (Addr.is4In6_of_length_four h)]
      rw [isOk_openWithClient_iff hmapped, isPublicInternetAddress_mapped_iff, hsame]
    constructor
    · intro hall
      rw [Bool.eq_false_iff]
      intro hshared
      have hpasses : passes addr = true := by
        refine passes_of_unnamed ?_ (anyOf_eq_false_of_meets (by decide) hshared)
        simp [anyOf, hshared]
      have hok := (hanswer willing 1 []).mpr ⟨hpasses, ready_willing _⟩
      rw [hall, isOk_openWithClient_iff hparse, isPublicInternetAddress_iff, hshared] at hok
      cases hok.1.2
    · intro hshared client port description
      rw [Bool.eq_iff_iff, hanswer, isOk_openWithClient_iff hparse, isPublicInternetAddress_iff,
        hshared]
      simp

/-- A reader of five texts: three IPv4 addresses, and the mapped forms of two of them. -/
def sampleParse (text : Text) : Option Addr :=
  if text = "8.8.8.8".toList then some (.four 8 8 8 8)
  else if text = "::ffff:8.8.8.8".toList then some ((Addr.four 8 8 8 8).mapped rfl [])
  else if text = "198.18.0.1".toList then some (.four 198 18 0 1)
  else if text = "100.64.0.1".toList then some (.four 100 64 0 1)
  else if text = "::ffff:100.64.0.1".toList then
    some ((Addr.four 100 64 0 1).mapped rfl [])
  else none

theorem gates_agree_iff_sample :
    sampleParse (trimSpace " 8.8.8.8\n".toList) = some (.four 8 8 8 8) ∧
      (∀ (client : GatewayClient) port description mapping,
        openWithClient sampleParse (client.reporting " 8.8.8.8\n".toList) port description =
          .ok mapping → publiclyRoutable mapping.publicIP = true) ∧
      ∀ (client : GatewayClient) port description,
        (openWithClient sampleParse (client.reporting "::ffff:8.8.8.8".toList) port
            description).isOk =
          (openWithClient sampleParse (client.reporting " 8.8.8.8\n".toList) port
            description).isOk := by
  have hparse : sampleParse (trimSpace " 8.8.8.8\n".toList) = some (.four 8 8 8 8) := by decide
  have hmapped : sampleParse (trimSpace "::ffff:8.8.8.8".toList) =
      some ((Addr.four 8 8 8 8).mapped rfl []) := by decide
  obtain ⟨hrouter, hform⟩ := gates_agree_iff sampleParse _ _ hparse
  refine ⟨hparse, hrouter.mpr ?_, (hform _ rfl [] hmapped).mpr (by decide)⟩
  rw [← routable_iff]
  exact fun _ ↦ by decide

/-- A shared address in mapped form is mapped on the router, and refused by the server; as an IPv4
address it is not mapped. An address for benchmarks is mapped, and refused by the server. -/
theorem mapped_shared_accepted :
    openWithClient sampleParse (willing.reporting "::ffff:100.64.0.1".toList) 443 [] =
        .ok ⟨443, 443, [], 7200, .four 100 64 0 1⟩ ∧
      publiclyRoutable (.four 100 64 0 1) = false ∧
      openWithClient sampleParse (willing.reporting "100.64.0.1".toList) 443 [] =
        .error (.nonPublic "100.64.0.1".toList) ∧
      openWithClient sampleParse (willing.reporting "198.18.0.1".toList) 443 [] =
        .ok ⟨443, 443, [], 7200, .four 198 18 0 1⟩ ∧
      publiclyRoutable (.four 198 18 0 1) = false := by
  decide

end QortalRelay.Upnp
