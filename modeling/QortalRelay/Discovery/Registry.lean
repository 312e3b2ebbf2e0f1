import QortalRelay.Relay.Targets

/-!
# Global addresses

The announcer asks the `ipaddress` library whether the address it advertises is global, and the
library goes by the registries of special-purpose addresses: a block that is not globally reachable,
and the blocks within it that are. An IPv4-mapped address is as global as the address it maps. The
server has a test of its own, `publiclyRoutable`. What it takes for public is global if it is an
IPv4 address, mapped or not; `Overlooked` says which of the other addresses are not
(`routable_not_global_iff`).
-/

set_option autoImplicit false
set_option relaxedAutoImplicit false

namespace QortalRelay.Discovery.Registry

open Foundation Encoding Cidr

/-! ### The registries -/

/-- The special-purpose blocks of IPv4 that are not globally reachable. -/
def unreachableFour : List Block :=
  [fourBlock 0 0 0 0 8, fourBlock 10 0 0 0 8, fourBlock 100 64 0 0 10, fourBlock 127 0 0 0 8,
    fourBlock 169 254 0 0 16, fourBlock 172 16 0 0 12, fourBlock 192 0 0 0 24,
    fourBlock 192 0 2 0 24, fourBlock 192 168 0 0 16, fourBlock 198 18 0 0 15,
    fourBlock 198 51 100 0 24, fourBlock 203 0 113 0 24, fourBlock 240 0 0 0 4]

/-- The addresses in them that are reachable: anycast for port control and for relays. -/
def reachableFour : List Block := [fourBlock 192 0 0 9 32, fourBlock 192 0 0 10 32]

/-- `2001:db8::/32`. -/
def documentation : Block := sixBlock [0x20, 0x01, 0x0d, 0xb8] 32

/-- The special-purpose blocks of IPv6 that are not globally reachable, but for the IPv4-mapped
addresses. The registry does not say of 6to4, and the library counts it among them. -/
def unreachableSix : List Block :=
  [loopbackSix, unspecifiedSix, sixBlock [0x00, 0x64, 0xff, 0x9b, 0x00, 0x01] 48,
    sixBlock [0x01, 0x00] 64, sixBlock [0x01, 0x00, 0, 0, 0, 0, 0x00, 0x01] 64,
    sixBlock [0x20, 0x01] 23, documentation, sixBlock [0x20, 0x02] 16, sixBlock [0x3f, 0xff] 20,
    sixBlock [0x5f, 0x00] 16, sixBlock [0xfc, 0x00] 7, sixBlock [0xfe, 0x80] 10]

/-- The blocks in `2001::/23` that are reachable: anycast addresses, multicast tunnelling, reverse
names, and the two that are for identifiers. -/
def reachableSix : List Block :=
  [sixBlock ([0x20, 0x01, 0x00, 0x01] ++ List.replicate 11 0 ++ [1]) 128,
    sixBlock ([0x20, 0x01, 0x00, 0x01] ++ List.replicate 11 0 ++ [2]) 128,
    sixBlock ([0x20, 0x01, 0x00, 0x01] ++ List.replicate 11 0 ++ [3]) 128,
    sixBlock [0x20, 0x01, 0x00, 0x03] 32, sixBlock [0x20, 0x01, 0x00, 0x04, 0x01, 0x12] 48,
    sixBlock [0x20, 0x01, 0x00, 0x20] 28, sixBlock [0x20, 0x01, 0x00, 0x30] 28]

/-- `is_global` of an address. -/
def isGlobal (address : Address) : Bool :=
  if address.unmap.is4 then
    !anyOf unreachableFour address.unmap || anyOf reachableFour address.unmap
  else !anyOf unreachableSix address || anyOf reachableSix address

/-! ### What the server overlooks -/

/-- The blocks of IPv6 that are not globally reachable and that the server does not name. -/
def unnamedSix : List Block :=
  [sixBlock [0x00, 0x64, 0xff, 0x9b, 0x00, 0x01] 48, sixBlock [0x01, 0x00] 64,
    sixBlock [0x01, 0x00, 0, 0, 0, 0, 0x00, 0x01] 64, sixBlock [0x20, 0x01] 23,
    sixBlock [0x20, 0x02] 16, sixBlock [0x3f, 0xff] 20, sixBlock [0x5f, 0x00] 16]

/-- The blocks that the server names, and in which it sees no zoned address. -/
def unzonedSix : List Block := [unspecifiedSix, documentation]

/-- The blocks that the server names, whatever the zone. -/
def namedSix : List Block :=
  [loopbackSix, sixBlock [0xff, 0x00] 8, sixBlock [0xfe, 0x80] 10, sixBlock [0xfc, 0x00] 7]

/-- An address that the server takes for public and that is not global. -/
def Overlooked (addr : Addr) : Prop :=
  (anyOf unnamedSix addr.address = true ∧ anyOf reachableSix addr.address = false) ∨
    (addr.zone ≠ [] ∧ anyOf unzonedSix addr.address = true)

section Blocks

variable {address : Address} {addr : Addr}

/-- Assumes: an address in one of the blocks, all of IPv6 and none with mapped addresses. -/
theorem six_of_anyOf {blocks : List Block} (h : anyOf blocks address = true)
    (hlength : blocks.all (fun block ↦ block.base.length = 16) = true)
    (hmeets : blocks.all (fun block ↦ !block.meets mappedForm.block) = true) :
    address.packed.length = 16 ∧ address.is4In6 = false := by
  obtain ⟨block, hblock, hcontains⟩ := List.any_eq_true.mp h
  have hbase : block.base.length = 16 := by simpa using List.all_eq_true.mp hlength block hblock
  refine ⟨(length_of_contains hcontains).trans hbase, ?_⟩
  rw [Bool.eq_false_iff]
  intro hmapped
  have hnot := List.all_eq_true.mp hmeets block hblock
  rw [Block.meets_of_contains hcontains (contains_mappedForm_iff.mpr hmapped)] at hnot
  cases hnot

/-- Assumes: an address in one of the blocks, none of which meets one of the others. -/
theorem anyOf_eq_false_of_apart {blocks others : List Block}
    (hmeets : blocks.all (fun block ↦ others.all fun other ↦ !block.meets other) = true)
    (h : anyOf blocks address = true) : anyOf others address = false := by
  obtain ⟨block, hblock, hcontains⟩ := List.any_eq_true.mp h
  exact anyOf_eq_false_of_meets (List.all_eq_true.mp hmeets block hblock) hcontains

theorem anyOf_unreachableSix_iff :
    anyOf unreachableSix address = true ↔
      anyOf unnamedSix address = true ∨ anyOf unzonedSix address = true ∨
        anyOf [loopbackSix, sixBlock [0xfe, 0x80] 10, sixBlock [0xfc, 0x00] 7] address = true := by
  simp only [anyOf, unreachableSix, unnamedSix, unzonedSix, List.any_cons, List.any_nil,
    Bool.or_eq_true]
  grind

theorem isGlobal_six_iff (h : address.packed.length = 16) (hmapped : address.is4In6 = false) :
    isGlobal address = false ↔
      anyOf unreachableSix address = true ∧ anyOf reachableSix address = false := by
  rw [isGlobal, is4_unmap_of_not h hmapped]
  simp

theorem isGlobal_four_iff (h : address.unmap.packed.length = 4) :
    isGlobal address = false ↔
      anyOf unreachableFour address.unmap = true ∧ anyOf reachableFour address.unmap = false := by
  rw [isGlobal, if_pos (by simp [Address.is4, h])]
  simp

/-- Assumes: a longer address that maps no other. The server looks for two blocks only if there is
no zone. -/
theorem publiclyRoutable_named_iff (h : addr.address.packed.length = 16)
    (hmapped : addr.address.is4In6 = false) :
    publiclyRoutable addr = true ↔ anyOf namedSix addr.address = false ∧
      (addr.zone = [] → anyOf unzonedSix addr.address = false) := by
  by_cases hzone : addr.zone = []
  · rw [publiclyRoutable_six_iff h hmapped hzone]
    simp only [anyOf, refusedSix, namedSix, unzonedSix, documentation, List.any_cons, List.any_nil,
      Bool.or_eq_false_iff, hzone]
    grind
  · have hunspecified : addr.isUnspecified = false := by simp [Addr.isUnspecified, hzone]
    have hdocumentation : addr.inDocumentation = false := by simp [Addr.inDocumentation, hzone]
    rw [publiclyRoutable_iff_of_not hmapped]
    simp only [← Bool.not_eq_true, isLoopback_six_iff h hmapped, isMulticast_six_iff h hmapped,
      isLinkLocalUnicast_six_iff h hmapped, isPrivate_six_iff h hmapped, hunspecified,
      hdocumentation, anyOf, namedSix, List.any_cons, List.any_nil, Bool.or_eq_true, Address.is4, h,
      hzone]
    grind

end Blocks

/-! ### Where the two tests differ -/

section Differ

variable {addr : Addr}

/-- An IPv4 address, or a mapped one, is global if the server takes it for public. -/
theorem overlooked_iff_of_four (h : addr.unmap.address.packed.length = 4) :
    (publiclyRoutable addr = true ∧ isGlobal addr.address = false) ↔ Overlooked addr := by
  have haddress : addr.unmap.address = addr.address.unmap := by
    unfold Addr.unmap
    split_ifs with hmapped
    · rfl
    · exact (Addr.address_unmap_of_not (by simpa using hmapped)).symm
  have hnot : ∀ {blocks : List Block},
      blocks.all (fun block ↦ block.base.length = 16) = true →
      blocks.all (fun block ↦ !block.meets mappedForm.block) = true →
      anyOf blocks addr.address = false := by
    intro blocks hlength hmeets
    rw [Bool.eq_false_iff]
    intro hany
    obtain ⟨hsix, hmapped⟩ := six_of_anyOf hany hlength hmeets
    rw [Addr.unmap_of_not hmapped, hsix] at h
    cases h
  constructor
  · rintro ⟨hroutable, hglobal⟩
    rw [← publiclyRoutable_unmap, publiclyRoutable_four_iff h] at hroutable
    have hrefused : anyOf (wideFour :: commonFour) addr.unmap.address = false := by
      simp only [anyOf, List.any_cons, Bool.or_eq_false_iff]
      exact ⟨hroutable.2, hroutable.1⟩
    have hreachable : anyOf unreachableFour addr.unmap.address = false :=
      anyOf_eq_false_of_within (by decide) hrefused
    rw [isGlobal_four_iff (haddress ▸ h), ← haddress, hreachable] at hglobal
    cases hglobal.1
  · rintro (⟨hunnamed, -⟩ | ⟨-, hunzoned⟩)
    · rw [hnot (by decide) (by decide)] at hunnamed
      cases hunnamed
    · rw [hnot (by decide) (by decide)] at hunzoned
      cases hunzoned

/-- A longer address that maps no other. -/
theorem overlooked_iff_of_six (h : addr.address.packed.length = 16)
    (hmapped : addr.address.is4In6 = false) :
    (publiclyRoutable addr = true ∧ isGlobal addr.address = false) ↔ Overlooked addr := by
  rw [publiclyRoutable_named_iff h hmapped, isGlobal_six_iff h hmapped, anyOf_unreachableSix_iff]
  constructor
  · rintro ⟨⟨hnamed, hunzoned⟩, hunreachable, hreachable⟩
    rcases hunreachable with hunnamed | hzoned | hother
    · exact Or.inl ⟨hunnamed, hreachable⟩
    · refine Or.inr ⟨fun hzone ↦ ?_, hzoned⟩
      rw [hunzoned hzone] at hzoned
      cases hzoned
    · rw [anyOf_eq_false_of_within (by decide) hnamed] at hother
      cases hother
  · rintro (⟨hunnamed, hreachable⟩ | ⟨hzone, hzoned⟩)
    · exact ⟨⟨anyOf_eq_false_of_apart (by decide) hunnamed,
        fun _ ↦ anyOf_eq_false_of_apart (by decide) hunnamed⟩, Or.inl hunnamed, hreachable⟩
    · exact ⟨⟨anyOf_eq_false_of_apart (by decide) hzoned, fun hnone ↦ absurd hnone hzone⟩,
        Or.inr (Or.inl hzoned), anyOf_eq_false_of_apart (by decide) hzoned⟩

/-- The addresses that the server takes for public and the library does not take for global. -/
theorem routable_not_global_iff (addr : Addr) :
    (publiclyRoutable addr = true ∧ isGlobal addr.address = false) ↔ Overlooked addr := by
  by_cases h : addr.unmap.address.packed.length = 4
  · exact overlooked_iff_of_four h
  · have hmapped : addr.address.is4In6 = false := by
      rw [Bool.eq_false_iff]
      intro hmapped
      rw [Addr.unmap_of_mapped hmapped, Addr.plain] at h
      exact h (Addr.length_unmap_of_mapped hmapped)
    rw [Addr.unmap_of_not hmapped] at h
    exact overlooked_iff_of_six (addr.address.length_packed.resolve_left h) hmapped

end Differ

end QortalRelay.Discovery.Registry
