import QortalRelay.Foundation.Cidr
import QortalRelay.Relay.Address

/-!
# Targets of tunnels

The test of the relay server on the target of a tunnel, `targetAllowed`, with the exceptions that
its configuration lists. The addresses the server takes for public are those in none of a list of
blocks (`publiclyRoutable_four_iff`, `publiclyRoutable_six_iff`), so the differences between them
and other lists of blocks are found by comparing blocks.
-/

set_option autoImplicit false
set_option relaxedAutoImplicit false

namespace QortalRelay

open Foundation Encoding Cidr

/-! ### The server's test -/

/-- `netip.AddrPort`; the address of an invalid one is missing. -/
structure Endpoint where
  addr : Option Addr
  port : UInt16
deriving DecidableEq

def Endpoint.unmap (endpoint : Endpoint) : Endpoint :=
  ⟨endpoint.addr.map Addr.unmap, endpoint.port⟩

/-- The server's part that decides on targets. The map of exceptions is the list of its keys. -/
structure TargetPolicy where
  allowedTargets : List Endpoint
  allowPrivateTargets : Bool

/-- The policy that `Start` builds from a configuration. -/
def TargetPolicy.ofConfig (targets : List Endpoint) (allowPrivateTargets : Bool) : TargetPolicy :=
  ⟨targets.map Endpoint.unmap, allowPrivateTargets⟩

/-- Whether a tunnel may lead to the target: to a public address, or to a private or loopback one
that the policy names or allows. -/
def TargetPolicy.targetAllowed (policy : TargetPolicy) (target : Endpoint) : Bool :=
  if target.port = 0 then false
  else
    let target := target.unmap
    match target.addr with
    | none => false
    | some addr =>
      if addr.isUnspecified || addr.address.isMulticast || addr.zone ≠ [] then false
      else if publiclyRoutable addr then true
      else if addr.address.isPrivate || addr.address.isLoopback then
        target ∈ policy.allowedTargets || policy.allowPrivateTargets
      else false

/-! ### Unmapped addresses -/

namespace Addr

variable {addr : Addr}

/-- An address without a zone. -/
def plain (address : Address) : Addr := ⟨address, [], fun _ ↦ rfl⟩

/-- The mapped form of an IPv4 address, in a zone. -/
def mapped (addr : Addr) (h : addr.address.packed.length = 4) (zone : Text) : Addr :=
  ⟨⟨List.replicate 10 0 ++ [255, 255] ++ addr.address.packed, by simp [h]⟩, zone, by simp [h]⟩

theorem is4In6_of_length_four {address : Address} (h : address.packed.length = 4) :
    address.is4In6 = false := by
  simp [Address.is4In6, h]

theorem address_unmap_of_not {address : Address} (h : address.is4In6 = false) :
    address.unmap = address := by
  simp [Address.unmap, h]

theorem unmap_of_not (h : addr.address.is4In6 = false) : addr.unmap = addr := by
  simp [unmap, h]

theorem unmap_of_mapped (h : addr.address.is4In6 = true) :
    addr.unmap = plain addr.address.unmap := by
  simp [unmap, h, plain]

theorem length_unmap_of_mapped (h : addr.address.is4In6 = true) :
    addr.address.unmap.packed.length = 4 := by
  simp [Address.unmap, h, Address.length_of_is4In6 h]

theorem is4In6_unmap (addr : Addr) : addr.unmap.address.is4In6 = false := by
  by_cases h : addr.address.is4In6 = true
  · rw [unmap_of_mapped h]
    exact is4In6_of_length_four (length_unmap_of_mapped h)
  · rw [Bool.not_eq_true] at h
    rw [unmap_of_not h, h]

theorem unmap_unmap (addr : Addr) : addr.unmap.unmap = addr.unmap :=
  unmap_of_not addr.is4In6_unmap

theorem unmap_map (addr : Addr) (h : addr.address.packed.length = 4) (zone : Text) :
    (addr.mapped h zone).unmap = addr := by
  obtain ⟨⟨packed, hpacked⟩, zone', hzone⟩ := addr
  have hnil : zone' = [] := hzone h
  subst hnil
  simp [unmap, mapped, Address.is4In6, Address.unmap, h]

end Addr

@[simp] theorem publiclyRoutable_unmap (addr : Addr) :
    publiclyRoutable addr.unmap = publiclyRoutable addr := by
  unfold publiclyRoutable
  rw [Addr.unmap_unmap]

theorem Endpoint.unmap_unmap (endpoint : Endpoint) : endpoint.unmap.unmap = endpoint.unmap := by
  obtain ⟨addr, port⟩ := endpoint
  cases addr with
  | none => rfl
  | some addr => simp [unmap, Addr.unmap_unmap]

/-! ### Exceptions -/

namespace TargetPolicy

variable {policy policy' : TargetPolicy} {target : Endpoint}

/-- The handler of requests unmaps a target before the test does. -/
theorem targetAllowed_unmap (policy : TargetPolicy) (target : Endpoint) :
    policy.targetAllowed target.unmap = policy.targetAllowed target := by
  have hport : target.unmap.port = target.port := rfl
  unfold targetAllowed
  rw [Endpoint.unmap_unmap, hport]

/-- What an exception can change: a private or loopback address without a zone. -/
def Excepted (target : Endpoint) : Prop :=
  target.port ≠ 0 ∧ ∃ addr, target.unmap.addr = some addr ∧ addr.zone = [] ∧
    (addr.address.isPrivate = true ∨ addr.address.isLoopback = true)

/-- The answer without exceptions, or an exception that matches. -/
theorem targetAllowed_iff :
    policy.targetAllowed target = true ↔
      (TargetPolicy.mk [] policy.allowPrivateTargets).targetAllowed target = true ∨
        (Excepted target ∧ target.unmap ∈ policy.allowedTargets ∧
          ∀ addr, target.unmap.addr = some addr →
            addr.isUnspecified = false ∧ addr.address.isMulticast = false) := by
  unfold targetAllowed Excepted
  by_cases hport : target.port = 0
  · simp [hport]
  · cases haddr : target.unmap.addr with
    | none => simp [hport, haddr]
    | some addr =>
      simp only [hport, haddr]
      grind

theorem targetAllowed_congr (hallowed : policy.allowedTargets = policy'.allowedTargets)
    (hprivate : policy.allowPrivateTargets = policy'.allowPrivateTargets) :
    policy.targetAllowed target = policy'.targetAllowed target := by
  unfold targetAllowed
  rw [hallowed, hprivate]

/-- A target and its mapped form get the same answer, in whatever form the exceptions were written;
a further exception refuses nothing that was allowed; and it allows nothing but the private or
loopback target without a zone that it names. -/
theorem exceptions_exact (targets : List Endpoint) (extra : Endpoint) (allowPrivate : Bool) :
    (∀ (written : List Endpoint) (addr : Addr) (h : addr.address.packed.length = 4) (zone : Text)
        (port : UInt16), written.map Endpoint.unmap = targets.map Endpoint.unmap →
      (ofConfig written allowPrivate).targetAllowed ⟨some (addr.mapped h zone), port⟩ =
        (ofConfig targets allowPrivate).targetAllowed ⟨some addr, port⟩) ∧
    (∀ target, (ofConfig targets allowPrivate).targetAllowed target = true →
      (ofConfig (targets ++ [extra]) allowPrivate).targetAllowed target = true) ∧
    (∀ target, (ofConfig targets allowPrivate).targetAllowed target = false →
      (ofConfig (targets ++ [extra]) allowPrivate).targetAllowed target = true →
      target.unmap = extra.unmap ∧ Excepted target) := by
  refine ⟨?_, ?_, ?_⟩
  · intro written addr h zone port hwritten
    have hsame : (Endpoint.mk (some (addr.mapped h zone)) port).unmap =
        (Endpoint.mk (some addr) port).unmap := by
      simp only [Endpoint.unmap, Option.map_some, Addr.unmap_map,
        Addr.unmap_of_not (Addr.is4In6_of_length_four h)]
    rw [← targetAllowed_unmap, hsame, targetAllowed_unmap]
    exact targetAllowed_congr hwritten rfl
  · intro target h
    rw [targetAllowed_iff] at h ⊢
    refine h.imp_right fun hexcepted ↦ ⟨hexcepted.1, ?_, hexcepted.2.2⟩
    simp only [ofConfig, List.map_append]
    exact List.mem_append_left _ hexcepted.2.1
  · intro target hrefused hallowed
    rw [Bool.eq_false_iff, Ne, targetAllowed_iff, not_or] at hrefused
    rw [targetAllowed_iff] at hallowed
    obtain ⟨hexcepted, hmem, hkind⟩ := hallowed.resolve_left hrefused.1
    refine ⟨?_, hexcepted⟩
    simp only [ofConfig, List.map_append, List.map_cons, List.map_nil, List.mem_append,
      List.mem_singleton] at hmem
    exact hmem.resolve_left fun hold ↦ hrefused.2 ⟨hexcepted, hold, hkind⟩

end TargetPolicy

/-! ### Public addresses as blocks -/

section Blocks

def fourBlock (a b c d : UInt8) (bits : ℕ) : Block := ⟨[a, b, c, d], bits⟩

/-- A block of the longer addresses, by the bytes its base starts with. -/
def sixBlock (start : Bytes) (bits : ℕ) : Block :=
  ⟨start ++ List.replicate (16 - start.length) 0, bits⟩

/-- The address lies in one of the blocks. -/
def anyOf (blocks : List Block) (address : Address) : Bool :=
  blocks.any fun block ↦ block.contains address.packed

/-- The special-purpose blocks that are refused as a whole and nothing more. -/
def commonFour : List Block :=
  [fourBlock 0 0 0 0 8, fourBlock 10 0 0 0 8, fourBlock 100 64 0 0 10, fourBlock 127 0 0 0 8,
    fourBlock 169 254 0 0 16, fourBlock 172 16 0 0 12, fourBlock 192 168 0 0 16,
    fourBlock 198 18 0 0 15, fourBlock 198 51 100 0 24, fourBlock 203 0 113 0 24,
    fourBlock 224 0 0 0 4, fourBlock 240 0 0 0 4]

/-- The test of the server on `192.0` looks at two octets. -/
def wideFour : Block := fourBlock 192 0 0 0 16

def unspecifiedSix : Block := ⟨List.replicate 16 0, 128⟩

def loopbackSix : Block := ⟨List.replicate 15 0 ++ [1], 128⟩

/-- The IPv6 blocks that are refused. -/
def refusedSix : List Block :=
  [unspecifiedSix, loopbackSix, sixBlock [0xff, 0x00] 8, sixBlock [0xfe, 0x80] 10,
    sixBlock [0xfc, 0x00] 7, sixBlock [0x20, 0x01, 0x0d, 0xb8] 32]

theorem anyOf_eq_false_iff {blocks : List Block} {address : Address} :
    anyOf blocks address = false ↔ ∀ block ∈ blocks, block.contains address.packed = false := by
  simp [anyOf]

theorem exists_four {bytes : Bytes} (h : bytes.length = 4) : ∃ a b c d, bytes = [a, b, c, d] := by
  match bytes, h with
  | [a, b, c, d], _ => exact ⟨a, b, c, d, rfl⟩

theorem exists_two {bytes : Bytes} (h : bytes.length = 16) :
    ∃ a b rest, bytes = a :: b :: rest := by
  match bytes, h with
  | a :: b :: rest, _ => exact ⟨a, b, rest, rfl⟩

/-- The tests on an address that maps no other. -/
theorem publiclyRoutable_iff_of_not {addr : Addr} (h : addr.address.is4In6 = false) :
    publiclyRoutable addr = true ↔
      addr.isUnspecified = false ∧ addr.address.isLoopback = false ∧
      addr.address.isMulticast = false ∧ addr.address.isLinkLocalUnicast = false ∧
      addr.address.isPrivate = false ∧
      (addr.address.is4 = true → reservedOctets addr.address = false) ∧
      addr.inDocumentation = false := by
  simp only [publiclyRoutable, Addr.unmap_of_not h]
  grind

section Four

variable {address : Address}

theorem contains_fourBlock_iff (h : address.packed.length = 4) {a b c d : UInt8} {bits : ℕ} :
    (fourBlock a b c d bits).contains address.packed = true ↔
      a.toNat / 2 ^ (8 - bits) = address.octet 0 / 2 ^ (8 - bits) ∧
      b.toNat / 2 ^ (8 - (bits - 8)) = address.octet 1 / 2 ^ (8 - (bits - 8)) ∧
      c.toNat / 2 ^ (8 - (bits - 8 - 8)) = address.octet 2 / 2 ^ (8 - (bits - 8 - 8)) ∧
      d.toNat / 2 ^ (8 - (bits - 8 - 8 - 8)) = address.octet 3 / 2 ^ (8 - (bits - 8 - 8 - 8)) := by
  obtain ⟨packed, hpacked⟩ := address
  obtain ⟨a', b', c', d', rfl⟩ := exists_four h
  simp [fourBlock, Block.contains, agrees, Address.octet]

theorem octet_lt (address : Address) (i : ℕ) : address.octet i < 2 ^ 8 :=
  (address.packed.getD i 0).toNat_lt

theorem octet_div (address : Address) (i : ℕ) : address.octet i / 256 = 0 :=
  Nat.div_eq_of_lt (octet_lt address i)

theorem octet_and_f0 (address : Address) (i : ℕ) :
    address.octet i &&& 0xf0 = 16 * (address.octet i / 16) :=
  and_highMask 8 4 (octet_lt address i) (by norm_num)

/-- Assumes: the address is an IPv4 one. -/
theorem isLoopback_four_iff (h : address.packed.length = 4) :
    address.isLoopback = true ↔ (fourBlock 127 0 0 0 8).contains address.packed = true := by
  have hunmap := Addr.address_unmap_of_not (Addr.is4In6_of_length_four h)
  rw [contains_fourBlock_iff h]
  simp [Address.isLoopback, hunmap, Address.is4, h, octet_div]
  omega

theorem isMulticast_four_iff (h : address.packed.length = 4) :
    address.isMulticast = true ↔ (fourBlock 224 0 0 0 4).contains address.packed = true := by
  have hunmap := Addr.address_unmap_of_not (Addr.is4In6_of_length_four h)
  rw [contains_fourBlock_iff h]
  simp [Address.isMulticast, hunmap, Address.is4, h, octet_div, octet_and_f0]
  omega

theorem isLinkLocalUnicast_four_iff (h : address.packed.length = 4) :
    address.isLinkLocalUnicast = true ↔
      (fourBlock 169 254 0 0 16).contains address.packed = true := by
  have hunmap := Addr.address_unmap_of_not (Addr.is4In6_of_length_four h)
  rw [contains_fourBlock_iff h]
  simp [Address.isLinkLocalUnicast, hunmap, Address.is4, h, octet_div]
  omega

theorem isPrivate_four_iff (h : address.packed.length = 4) :
    address.isPrivate = true ↔
      (fourBlock 10 0 0 0 8).contains address.packed = true ∨
      (fourBlock 172 16 0 0 12).contains address.packed = true ∨
      (fourBlock 192 168 0 0 16).contains address.packed = true := by
  have hunmap := Addr.address_unmap_of_not (Addr.is4In6_of_length_four h)
  rw [contains_fourBlock_iff h, contains_fourBlock_iff h, contains_fourBlock_iff h]
  simp [Address.isPrivate, hunmap, Address.is4, h, octet_div, octet_and_f0]
  omega

theorem reservedOctets_iff (h : address.packed.length = 4) :
    reservedOctets address = true ↔
      (fourBlock 0 0 0 0 8).contains address.packed = true ∨
      (fourBlock 224 0 0 0 4).contains address.packed = true ∨
      (fourBlock 240 0 0 0 4).contains address.packed = true ∨
      (fourBlock 100 64 0 0 10).contains address.packed = true ∨
      (fourBlock 192 0 0 0 16).contains address.packed = true ∨
      (fourBlock 198 18 0 0 15).contains address.packed = true ∨
      (fourBlock 198 51 100 0 24).contains address.packed = true ∨
      (fourBlock 203 0 113 0 24).contains address.packed = true := by
  have hlt := octet_lt address 0
  have hhigh : 224 ≤ address.octet 0 ↔ 14 = address.octet 0 / 16 ∨ 15 = address.octet 0 / 16 := by
    omega
  have hshared : 64 ≤ address.octet 1 ∧ address.octet 1 ≤ 127 ↔ 1 = address.octet 1 / 64 := by
    omega
  have hbench : address.octet 1 = 18 ∨ address.octet 1 = 19 ↔ 9 = address.octet 1 / 2 := by
    omega
  simp only [contains_fourBlock_iff h]
  simp [reservedOctets, octet_div, hhigh, hbench]
  simp only [or_assoc, and_assoc, hshared, eq_comm]

theorem contains_zero_of_isUnspecified {addr : Addr} (h : addr.address.packed.length = 4)
    (hunspecified : addr.isUnspecified = true) :
    (fourBlock 0 0 0 0 8).contains addr.address.packed = true := by
  simp only [Addr.isUnspecified, h, Bool.and_eq_true, decide_eq_true_eq] at hunspecified
  rw [hunspecified.2]
  decide

theorem publiclyRoutable_four_iff {addr : Addr} (h : addr.address.packed.length = 4) :
    publiclyRoutable addr = true ↔
      anyOf commonFour addr.address = false ∧ wideFour.contains addr.address.packed = false := by
  have hzero := contains_zero_of_isUnspecified h
  have hdocumentation : addr.inDocumentation = false := by
    simp [Addr.inDocumentation, Address.is4, h]
  rw [publiclyRoutable_iff_of_not (Addr.is4In6_of_length_four h)]
  simp only [← Bool.not_eq_true, isLoopback_four_iff h, isMulticast_four_iff h,
    isLinkLocalUnicast_four_iff h, isPrivate_four_iff h, reservedOctets_iff h, hdocumentation,
    anyOf, commonFour, wideFour, List.any_cons, List.any_nil, Bool.or_eq_true, Address.is4, h]
  grind

end Four

/-! ### Public IPv4 endpoints -/

namespace Addr

def four (a b c d : UInt8) : Addr := ⟨⟨[a, b, c, d], Or.inl rfl⟩, [], fun _ ↦ rfl⟩

end Addr

/-- The special-purpose blocks of IPv4. -/
def specialFour : List Block :=
  [fourBlock 0 0 0 0 8, fourBlock 10 0 0 0 8, fourBlock 100 64 0 0 10, fourBlock 127 0 0 0 8,
    fourBlock 169 254 0 0 16, fourBlock 172 16 0 0 12, fourBlock 192 0 0 0 24,
    fourBlock 192 0 2 0 24, fourBlock 192 168 0 0 16, fourBlock 198 18 0 0 15,
    fourBlock 198 51 100 0 24, fourBlock 203 0 113 0 24, fourBlock 224 0 0 0 4,
    fourBlock 240 0 0 0 4]

theorem anyOf_specialFour_iff {address : Address} :
    anyOf specialFour address = false ↔
      anyOf commonFour address = false ∧
      (fourBlock 192 0 0 0 24).contains address.packed = false ∧
      (fourBlock 192 0 2 0 24).contains address.packed = false := by
  simp only [anyOf, specialFour, commonFour, List.any_cons, List.any_nil, Bool.or_eq_false_iff]
  grind

/-- The server takes an IPv4 address for public exactly if it is in no special-purpose block, except
on the rest of `192.0.0.0/16`. -/
theorem publiclyRoutable_special_iff (a b c d : UInt8) :
    (publiclyRoutable (.four a b c d) = true ↔
      anyOf specialFour (Addr.four a b c d).address = false) ↔
      ¬(wideFour.contains [a, b, c, d] = true ∧
        (fourBlock 192 0 0 0 24).contains [a, b, c, d] = false ∧
        (fourBlock 192 0 2 0 24).contains [a, b, c, d] = false) := by
  have hpacked : (Addr.four a b c d).address.packed = [a, b, c, d] := rfl
  rw [publiclyRoutable_four_iff (congrArg List.length hpacked), anyOf_specialFour_iff, hpacked]
  -- The wide block meets no other refused block, and holds the two narrow ones.
  have hcommon : wideFour.contains [a, b, c, d] = true →
      anyOf commonFour (Addr.four a b c d).address = false := by
    intro hwide
    rw [anyOf_eq_false_iff]
    exact Block.not_contains_of_meets (by decide) hwide
  have hprotocol : (fourBlock 192 0 0 0 24).contains [a, b, c, d] = true →
      wideFour.contains [a, b, c, d] = true := Block.contains_of_within (by decide)
  have htest : (fourBlock 192 0 2 0 24).contains [a, b, c, d] = true →
      wideFour.contains [a, b, c, d] = true := Block.contains_of_within (by decide)
  simp only [← Bool.not_eq_true] at hcommon ⊢
  grind

/-- The address of a public site. -/
theorem publiclyRoutable_refuses_public :
    publiclyRoutable (.four 192 0 78 24) = false ∧
      anyOf specialFour (Addr.four 192 0 78 24).address = false := by
  decide

/-! ### Public IPv6 addresses -/

section Six

variable {address : Address}

theorem contains_sixteen_iff (h : address.packed.length = 16) {base : Bytes}
    (hbase : base.length = 16) :
    (Block.mk base 128).contains address.packed = true ↔ address.packed = base := by
  have hbits : (Block.mk base 128).bits = 8 * 16 := rfl
  rw [Block.contains_bytes_iff hbits]
  simp only [h, hbase, true_and]
  rw [List.take_of_length_le hbase.le, List.take_of_length_le h.le]
  exact eq_comm

/-- Assumes: a longer address that maps no other. -/
theorem is4_unmap_of_not (h : address.packed.length = 16) (hmapped : address.is4In6 = false) :
    address.unmap.is4 = false := by
  rw [Addr.address_unmap_of_not hmapped]
  simp [Address.is4, h]

theorem contains_sixBlock_iff (h : address.packed.length = 16) {a b : UInt8} {bits : ℕ}
    (hbits : bits ≤ 16) :
    (sixBlock [a, b] bits).contains address.packed = true ↔
      a.toNat / 2 ^ (8 - bits) = address.octet 0 / 2 ^ (8 - bits) ∧
      b.toNat / 2 ^ (8 - (bits - 8)) = address.octet 1 / 2 ^ (8 - (bits - 8)) := by
  obtain ⟨packed, hpacked⟩ := address
  obtain ⟨a', b', rest, rfl⟩ := exists_two h
  have hrest : bits - 8 - 8 = 0 := by omega
  rw [Block.contains_iff]
  simp only [sixBlock, List.cons_append, List.nil_append, agrees_cons_iff, hrest, agrees_zero,
    and_true, Address.octet, List.getD_cons_zero, List.getD_cons_succ]
  exact and_iff_right h

theorem isMulticast_six_iff (h : address.packed.length = 16) (hmapped : address.is4In6 = false) :
    address.isMulticast = true ↔ (sixBlock [0xff, 0x00] 8).contains address.packed = true := by
  rw [contains_sixBlock_iff h (by norm_num)]
  simp [Address.isMulticast, is4_unmap_of_not h hmapped, octet_div]
  omega

theorem isLinkLocalUnicast_six_iff (h : address.packed.length = 16)
    (hmapped : address.is4In6 = false) :
    address.isLinkLocalUnicast = true ↔
      (sixBlock [0xfe, 0x80] 10).contains address.packed = true := by
  have hfirst := octet_lt address 0
  have hsecond := octet_lt address 1
  have hmask : (address.octet 0 * 256 + address.octet 1) &&& 0xffc0 =
      64 * ((address.octet 0 * 256 + address.octet 1) / 64) :=
    and_highMask 16 6 (by omega) (by norm_num)
  rw [contains_sixBlock_iff h (by norm_num)]
  simp [Address.isLinkLocalUnicast, is4_unmap_of_not h hmapped, hmask]
  omega

theorem isPrivate_six_iff (h : address.packed.length = 16) (hmapped : address.is4In6 = false) :
    address.isPrivate = true ↔ (sixBlock [0xfc, 0x00] 7).contains address.packed = true := by
  have hmask : address.octet 0 &&& 0xfe = 2 * (address.octet 0 / 2) :=
    and_highMask 8 1 (octet_lt address 0) (by norm_num)
  rw [contains_sixBlock_iff h (by norm_num)]
  simp [Address.isPrivate, is4_unmap_of_not h hmapped, hmask, octet_div]
  omega

theorem isLoopback_six_iff (h : address.packed.length = 16) (hmapped : address.is4In6 = false) :
    address.isLoopback = true ↔ loopbackSix.contains address.packed = true := by
  rw [loopbackSix, contains_sixteen_iff h (by simp)]
  simp [Address.isLoopback, is4_unmap_of_not h hmapped]

theorem isUnspecified_six_iff {addr : Addr} (h : addr.address.packed.length = 16)
    (hzone : addr.zone = []) :
    addr.isUnspecified = true ↔ unspecifiedSix.contains addr.address.packed = true := by
  rw [unspecifiedSix, contains_sixteen_iff h (by simp)]
  simp [Addr.isUnspecified, h, hzone]

theorem inDocumentation_six_iff {addr : Addr} (h : addr.address.packed.length = 16)
    (hzone : addr.zone = []) :
    addr.inDocumentation = true ↔
      (sixBlock [0x20, 0x01, 0x0d, 0xb8] 32).contains addr.address.packed = true := by
  have hbits : (sixBlock [0x20, 0x01, 0x0d, 0xb8] 32).bits = 8 * 4 := rfl
  rw [Block.contains_bytes_iff hbits]
  simp [Addr.inDocumentation, Address.is4, sixBlock, h, hzone, eq_comm]

/-- Assumes: a longer address without a zone that maps no other. -/
theorem publiclyRoutable_six_iff {addr : Addr} (h : addr.address.packed.length = 16)
    (hmapped : addr.address.is4In6 = false) (hzone : addr.zone = []) :
    publiclyRoutable addr = true ↔ anyOf refusedSix addr.address = false := by
  rw [publiclyRoutable_iff_of_not hmapped]
  simp only [← Bool.not_eq_true, isUnspecified_six_iff h hzone, isLoopback_six_iff h hmapped,
    isMulticast_six_iff h hmapped, isLinkLocalUnicast_six_iff h hmapped,
    isPrivate_six_iff h hmapped, inDocumentation_six_iff h hzone, anyOf, refusedSix,
    List.any_cons, List.any_nil, Bool.or_eq_true, Address.is4, h]
  grind

end Six

/-! ### Destinations that are not public -/

/-- The blocks of unspecified, loopback, private, link-local, multicast and documentation addresses
of IPv4. -/
def nonPublicFour : List Block :=
  [fourBlock 0 0 0 0 32, fourBlock 127 0 0 0 8, fourBlock 10 0 0 0 8, fourBlock 172 16 0 0 12,
    fourBlock 192 168 0 0 16, fourBlock 169 254 0 0 16, fourBlock 224 0 0 0 4,
    fourBlock 192 0 2 0 24, fourBlock 198 51 100 0 24, fourBlock 203 0 113 0 24]

/-- The blocks of site-local, discard-only and the later documentation addresses: the server names
none of them. -/
def unrefusedSix : List Block :=
  [sixBlock [0xfe, 0xc0] 10, sixBlock [0x01, 0x00] 64, sixBlock [0x3f, 0xff] 20]

def nonPublic : List Block := nonPublicFour ++ refusedSix ++ unrefusedSix

/-- A form in which an IPv6 address embeds an IPv4 address. -/
structure Disguise where
  block : Block
  /-- Where the embedded address starts. -/
  offset : ℕ
deriving DecidableEq

/-- The address that is embedded in this form. -/
def Disguise.uncover (form : Disguise) (address : Address) : Option Address :=
  if form.block.contains address.packed then
    Address.ofBytes ((address.packed.drop form.offset).take 4)
  else none

/-- `::ffff:0:0/96`. -/
def mappedForm : Disguise := ⟨sixBlock (List.replicate 10 0 ++ [0xff, 0xff]) 96, 12⟩

/-- The IPv4-compatible addresses, those of NAT64 and those of 6to4. -/
def unseenForms : List Disguise :=
  [⟨sixBlock [] 96, 12⟩, ⟨sixBlock [0x00, 0x64, 0xff, 0x9b] 96, 12⟩, ⟨sixBlock [0x20, 0x02] 16, 2⟩]

/-- An address that is not public and is taken for a public one. -/
def Slips (addr : Addr) : Prop :=
  addr.zone = [] ∧ anyOf [unspecifiedSix, loopbackSix] addr.address = false ∧
    (anyOf unrefusedSix addr.address = true ∨
      ∃ form ∈ unseenForms, ∃ inner, form.uncover addr.address = some inner ∧
        publiclyRoutable (.plain inner) = false)

section NonPublic

variable {address inner : Address} {addr : Addr} {port : UInt16}

theorem targetAllowed_default_iff :
    (TargetPolicy.ofConfig [] false).targetAllowed ⟨some addr, port⟩ = true ↔
      port ≠ 0 ∧ addr.unmap.zone = [] ∧ publiclyRoutable addr = true := by
  have hpublic := publiclyRoutable_iff_of_not addr.is4In6_unmap
  rw [publiclyRoutable_unmap] at hpublic
  simp only [TargetPolicy.targetAllowed, TargetPolicy.ofConfig, Endpoint.unmap, Option.map_some,
    publiclyRoutable_unmap, List.map_nil, List.not_mem_nil]
  grind

theorem uncover_eq_some {form : Disguise} (h : form.uncover address = some inner) :
    form.block.contains address.packed = true ∧
      inner.packed = (address.packed.drop form.offset).take 4 := by
  unfold Disguise.uncover at h
  split_ifs at h with hcontains
  exact ⟨hcontains, Address.ofBytes_eq_some_iff.mp h⟩

theorem contains_mappedForm_iff :
    mappedForm.block.contains address.packed = true ↔ address.is4In6 = true := by
  have hbits : mappedForm.block.bits = 8 * 12 := rfl
  have hlength : mappedForm.block.base.length = 16 := rfl
  have htake : mappedForm.block.base.take 12 = List.replicate 10 0 ++ [255, 255] := rfl
  rw [Block.contains_bytes_iff hbits, hlength, htake, Address.is4In6, Bool.and_eq_true,
    decide_eq_true_eq, decide_eq_true_eq]
  exact and_congr_right fun _ ↦ eq_comm

theorem length_of_contains {block : Block} (h : block.contains address.packed = true) :
    address.packed.length = block.base.length :=
  (Block.contains_iff.mp h).1

/-- No block of a list of longer blocks contains a shorter address. -/
theorem anyOf_eq_false_of_length {blocks : List Block} {n : ℕ}
    (hblocks : blocks.all (fun block ↦ block.base.length ≠ n) = true)
    (h : address.packed.length = n) : anyOf blocks address = false := by
  rw [anyOf_eq_false_iff]
  intro block hblock
  rw [Bool.eq_false_iff]
  intro hcontains
  rw [List.all_eq_true] at hblocks
  have hne : block.base.length ≠ n := by simpa using hblocks block hblock
  exact hne ((length_of_contains hcontains).symm.trans h)

theorem anyOf_append_eq_false_iff (left right : List Block) :
    anyOf (left ++ right) address = false ↔
      anyOf left address = false ∧ anyOf right address = false := by
  simp [anyOf]

theorem anyOf_eq_false_of_within {blocks others : List Block}
    (hwithin : blocks.all (fun block ↦ others.any fun other ↦ block.within other) = true)
    (h : anyOf others address = false) : anyOf blocks address = false := by
  rw [anyOf_eq_false_iff] at h ⊢
  intro block hblock
  obtain ⟨other, hother, hblocks⟩ := List.any_eq_true.mp (List.all_eq_true.mp hwithin block hblock)
  rw [Bool.eq_false_iff]
  intro hcontains
  exact absurd (Block.contains_of_within hblocks hcontains) (by simp [h other hother])

theorem anyOf_eq_false_of_meets {blocks : List Block} {block : Block}
    (hmeets : blocks.all (fun other ↦ !block.meets other) = true)
    (h : block.contains address.packed = true) : anyOf blocks address = false :=
  anyOf_eq_false_iff.mpr (Block.not_contains_of_meets hmeets h)

/-- Nothing that is not public is taken for public, but for the blocks the server does not name. -/
theorem anyOf_nonPublic_of_publiclyRoutable (hzone : addr.unmap.zone = [])
    (hpublic : publiclyRoutable addr = true)
    (hunrefused : anyOf unrefusedSix addr.address = false) :
    anyOf nonPublic addr.address = false := by
  rw [nonPublic, anyOf_append_eq_false_iff, anyOf_append_eq_false_iff]
  rcases addr.address.length_packed with h | h
  · rw [publiclyRoutable_four_iff h] at hpublic
    have hrefused : anyOf (wideFour :: commonFour) addr.address = false := by
      simp only [anyOf, List.any_cons, Bool.or_eq_false_iff]
      exact ⟨hpublic.2, hpublic.1⟩
    exact ⟨⟨anyOf_eq_false_of_within (by decide) hrefused,
      anyOf_eq_false_of_length (by decide) h⟩, hunrefused⟩
  · refine ⟨⟨anyOf_eq_false_of_length (by decide) h, ?_⟩, hunrefused⟩
    by_cases hmapped : addr.address.is4In6 = true
    · exact anyOf_eq_false_of_meets (by decide) (contains_mappedForm_iff.mpr hmapped)
    · rw [Bool.not_eq_true] at hmapped
      rw [Addr.unmap_of_not hmapped] at hzone
      exact (publiclyRoutable_six_iff h hmapped hzone).mp hpublic

/-- The blocks the server does not look at. -/
def unseenBlocks : List Block := unrefusedSix ++ unseenForms.map Disguise.block

/-- Assumes: an address of a block that is not looked at. -/
theorem not_mapped_of_unseen (h : anyOf unseenBlocks address = true) :
    address.packed.length = 16 ∧ address.is4In6 = false := by
  have hlength : address.packed.length = 16 := by
    rcases address.length_packed with hfour | hsixteen
    · rw [anyOf_eq_false_of_length (by decide) hfour] at h
      cases h
    · exact hsixteen
  refine ⟨hlength, ?_⟩
  rw [Bool.eq_false_iff]
  intro hmapped
  rw [anyOf_eq_false_of_meets (by decide) (contains_mappedForm_iff.mpr hmapped)] at h
  cases h

theorem publiclyRoutable_of_unseen (h : anyOf unseenBlocks addr.address = true)
    (hzone : addr.zone = []) (hspecial : anyOf [unspecifiedSix, loopbackSix] addr.address = false) :
    publiclyRoutable addr = true := by
  obtain ⟨hlength, hmapped⟩ := not_mapped_of_unseen h
  obtain ⟨block, hblock, hcontains⟩ := List.any_eq_true.mp h
  have hmeets : ∀ block ∈ unseenBlocks,
      (refusedSix.drop 2).all (fun other ↦ !block.meets other) = true := by
    decide
  have hrest := anyOf_eq_false_of_meets (hmeets block hblock) hcontains
  rw [publiclyRoutable_six_iff hlength hmapped hzone]
  exact (anyOf_append_eq_false_iff (refusedSix.take 2) (refusedSix.drop 2)).mpr ⟨hspecial, hrest⟩

theorem anyOf_unseen_of_uncover {form : Disguise} (hform : form ∈ unseenForms)
    (h : form.uncover address = some inner) : anyOf unseenBlocks address = true := by
  refine List.any_eq_true.mpr ⟨form.block, ?_, (uncover_eq_some h).1⟩
  exact List.mem_append_right _ (List.mem_map_of_mem hform)

/-- The mapped form is the one the server sees through. -/
theorem uncover_mappedForm (h : mappedForm.uncover addr.address = some inner) :
    addr.unmap = .plain inner := by
  obtain ⟨hcontains, hpacked⟩ := uncover_eq_some h
  have hmapped := contains_mappedForm_iff.mp hcontains
  have hlength := Address.length_of_is4In6 hmapped
  have hinner : inner = addr.address.unmap := by
    obtain ⟨packed, hinner⟩ := inner
    simp only [Address.unmap, hmapped, dif_pos, Address.mk.injEq]
    exact hpacked.trans (List.take_of_length_le (by simp [mappedForm, hlength]))
  rw [Addr.unmap_of_mapped hmapped, hinner]

theorem zone_unmap_plain (inner : Address) : (Addr.plain inner).unmap.zone = [] := by
  unfold Addr.unmap
  split_ifs <;> rfl

/-- Without exceptions the server allows a target only if it is not in a block that is not public,
and only if it allows the IPv4 address the target embeds, exactly if the target is not one that
slips through. -/
theorem nonPublic_refused_iff (addr : Addr) (port : UInt16) (hport : port ≠ 0) :
    ((TargetPolicy.ofConfig [] false).targetAllowed ⟨some addr, port⟩ = true →
      anyOf nonPublic addr.address = false ∧
      ∀ form ∈ mappedForm :: unseenForms, ∀ inner, form.uncover addr.address = some inner →
        (TargetPolicy.ofConfig [] false).targetAllowed ⟨some (.plain inner), port⟩ = true) ↔
      ¬Slips addr := by
  simp only [targetAllowed_default_iff, ne_eq, hport, not_false_eq_true, zone_unmap_plain, true_and]
  constructor
  · rintro hkept ⟨hzone, hspecial, hslips⟩
    have hunseen : anyOf unseenBlocks addr.address = true := by
      rcases hslips with hblock | ⟨form, hform, inner, huncover, -⟩
      · obtain ⟨block, hmem, hcontains⟩ := List.any_eq_true.mp hblock
        exact List.any_eq_true.mpr ⟨block, List.mem_append_left _ hmem, hcontains⟩
      · exact anyOf_unseen_of_uncover hform huncover
    have hunmap := Addr.unmap_of_not (not_mapped_of_unseen hunseen).2
    obtain ⟨hnone, hforms⟩ := hkept ⟨by rw [hunmap, hzone],
      publiclyRoutable_of_unseen hunseen hzone hspecial⟩
    rcases hslips with hblock | ⟨form, hform, inner, huncover, hrefused⟩
    · rw [nonPublic, anyOf_append_eq_false_iff, hblock] at hnone
      cases hnone.2
    · rw [hforms form (List.mem_cons_of_mem _ hform) inner huncover] at hrefused
      cases hrefused
  · rintro hslips ⟨hzone, hpublic⟩
    -- An address of a block that is not looked at is its own unmapped form, and is no other
    -- exception.
    have hunseen : anyOf unseenBlocks addr.address = true →
        addr.zone = [] ∧ anyOf [unspecifiedSix, loopbackSix] addr.address = false := by
      intro h
      obtain ⟨hlength, hmapped⟩ := not_mapped_of_unseen h
      rw [Addr.unmap_of_not hmapped] at hzone
      rw [publiclyRoutable_six_iff hlength hmapped hzone] at hpublic
      have hparts := (anyOf_append_eq_false_iff (refusedSix.take 2) (refusedSix.drop 2)).mp hpublic
      exact ⟨hzone, hparts.1⟩
    refine ⟨anyOf_nonPublic_of_publiclyRoutable hzone hpublic ?_, ?_⟩
    · rw [Bool.eq_false_iff]
      intro hblock
      obtain ⟨block, hmem, hcontains⟩ := List.any_eq_true.mp hblock
      obtain ⟨hnil, hspecial⟩ :=
        hunseen (List.any_eq_true.mpr ⟨block, List.mem_append_left _ hmem, hcontains⟩)
      exact hslips ⟨hnil, hspecial, Or.inl hblock⟩
    · intro form hform inner huncover
      rcases List.mem_cons.mp hform with rfl | hform
      · rw [← uncover_mappedForm huncover, publiclyRoutable_unmap, hpublic]
      · obtain ⟨hnil, hspecial⟩ := hunseen (anyOf_unseen_of_uncover hform huncover)
        rw [← Bool.not_eq_false]
        intro hrefused
        exact hslips ⟨hnil, hspecial, Or.inr ⟨form, hform, inner, huncover, hrefused⟩⟩

theorem nonPublic_refused_iff_sample :
    ¬Slips (.four 8 8 8 8) ∧
      ((TargetPolicy.ofConfig [] false).targetAllowed ⟨some (.four 8 8 8 8), 443⟩ = true →
        anyOf nonPublic (Addr.four 8 8 8 8).address = false ∧
        ∀ form ∈ mappedForm :: unseenForms, ∀ inner,
          form.uncover (Addr.four 8 8 8 8).address = some inner →
          (TargetPolicy.ofConfig [] false).targetAllowed ⟨some (.plain inner), 443⟩ = true) := by
  have hslips : ¬Slips (.four 8 8 8 8) := by
    rintro ⟨-, -, hblock | ⟨form, hform, inner, huncover, -⟩⟩
    · exact absurd hblock (by decide)
    · exact absurd (anyOf_unseen_of_uncover hform huncover) (by decide)
  exact ⟨hslips, (nonPublic_refused_iff (.four 8 8 8 8) 443 (by decide)).mpr hslips⟩

/-- `fec0::1`. -/
def siteLocal : Address := ⟨[0xfe, 0xc0] ++ List.replicate 13 0 ++ [1], by decide⟩

/-- `64:ff9b::a00:1`, which stands for `10.0.0.1`. -/
def translated : Address :=
  ⟨[0x00, 0x64, 0xff, 0x9b] ++ List.replicate 8 0 ++ [10, 0, 0, 1], by decide⟩

/-- A site-local target is allowed, and so is a private one in the form of NAT64. -/
theorem nonPublic_allowed :
    ((TargetPolicy.ofConfig [] false).targetAllowed ⟨some (.plain siteLocal), 80⟩ = true ∧
      anyOf nonPublic siteLocal = true) ∧
    ((TargetPolicy.ofConfig [] false).targetAllowed ⟨some (.plain translated), 80⟩ = true ∧
      (∃ form ∈ unseenForms,
        form.uncover translated = some (Addr.four 10 0 0 1).address) ∧
      (TargetPolicy.ofConfig [] false).targetAllowed ⟨some (.four 10 0 0 1), 80⟩ = false) := by
  decide

end NonPublic

end Blocks

end QortalRelay
