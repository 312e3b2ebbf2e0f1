import QortalRelay.Foundation.Encoding

/-!
# Addresses

An address is four or sixteen bytes, as both halves of the relay pack it; an address of the relay
server may also carry a zone. `publiclyRoutable` is the test of the server on the address it
advertises and on the targets of its tunnels. It looks at an IPv4-mapped address as the IPv4 address
it maps. A zoned address equals no address without one and lies in no block of addresses, so neither
the test against the unspecified address nor the one against the documentation block sees it.
-/

set_option autoImplicit false
set_option relaxedAutoImplicit false

namespace QortalRelay

open Foundation.Encoding

/-- The bytes of an IPv4 or IPv6 address. -/
structure Address where
  packed : Bytes
  length_packed : packed.length = 4 ∨ packed.length = 16
deriving DecidableEq

namespace Address

def ofBytes (bytes : Bytes) : Option Address :=
  if h : bytes.length = 4 ∨ bytes.length = 16 then some ⟨bytes, h⟩ else none

theorem ofBytes_eq_some_iff {bytes : Bytes} {address : Address} :
    ofBytes bytes = some address ↔ address.packed = bytes := by
  unfold ofBytes
  constructor
  · intro h
    split_ifs at h
    obtain rfl := Option.some.inj h
    rfl
  · rintro rfl
    rw [dif_pos address.length_packed]

/-- The bytes of an address of a family. -/
def size (family : ℕ) : ℕ := if family = 4 then 4 else 16

def version (address : Address) : ℕ := if address.packed.length = 4 then 4 else 6

theorem length_eq_size (address : Address) : address.packed.length = size address.version := by
  rcases address.length_packed with h | h <;> simp [size, version, h]

theorem size_le (family : ℕ) : size family ≤ 16 := by
  unfold size
  split_ifs <;> omega

theorem version_eq_of_length {address : Address} {family : ℕ}
    (hlength : address.packed.length = size family) (hfamily : family = 4 ∨ family = 6) :
    address.version = family := by
  rcases hfamily with rfl | rfl <;> simp_all [size, version]

theorem version_cases (address : Address) : address.version = 4 ∨ address.version = 6 := by
  rcases address.length_packed with h | h <;> simp [version, h]

def octet (address : Address) (i : ℕ) : ℕ := (address.packed.getD i 0).toNat

def is4 (address : Address) : Bool := address.packed.length = 4

/-- An IPv4 address written as an IPv6 address. -/
def is4In6 (address : Address) : Bool :=
  address.packed.length = 16 && address.packed.take 12 = List.replicate 10 0 ++ [255, 255]

theorem length_of_is4In6 {address : Address} (h : address.is4In6 = true) :
    address.packed.length = 16 := by
  simp only [is4In6, Bool.and_eq_true, decide_eq_true_eq] at h
  exact h.1

def unmap (address : Address) : Address :=
  if h : address.is4In6 then ⟨address.packed.drop 12, by simp [length_of_is4In6 h]⟩ else address

/-- As `netip` has it, which looks through an IPv4 address in IPv6 form; so do the next three. -/
def isLoopback (address : Address) : Bool :=
  if address.unmap.is4 then address.unmap.octet 0 = 127
  else address.packed = List.replicate 15 0 ++ [1]

def isMulticast (address : Address) : Bool :=
  if address.unmap.is4 then address.unmap.octet 0 &&& 0xf0 = 0xe0 else address.octet 0 = 0xff

def isLinkLocalUnicast (address : Address) : Bool :=
  if address.unmap.is4 then address.unmap.octet 0 = 169 && address.unmap.octet 1 = 254
  else (address.octet 0 * 256 + address.octet 1) &&& 0xffc0 = 0xfe80

def isPrivate (address : Address) : Bool :=
  if address.unmap.is4 then
    address.unmap.octet 0 = 10 ||
      (address.unmap.octet 0 = 172 && address.unmap.octet 1 &&& 0xf0 = 16) ||
      (address.unmap.octet 0 = 192 && address.unmap.octet 1 = 168)
  else address.octet 0 &&& 0xfe = 0xfc

end Address

/-- `netip.Addr`, a valid one: only the longer addresses carry a zone. -/
structure Addr where
  address : Address
  zone : Text
  zone_eq_nil : address.packed.length = 4 → zone = []
deriving DecidableEq

namespace Addr

/-- The zone goes with the IPv6 form. -/
def unmap (addr : Addr) : Addr :=
  if addr.address.is4In6 then ⟨addr.address.unmap, [], fun _ ↦ rfl⟩ else addr

/-- Compared with the unspecified addresses, which have no zone. -/
def isUnspecified (addr : Addr) : Bool :=
  addr.zone = [] && addr.address.packed = List.replicate addr.address.packed.length 0

/-- `2001:db8::/32`; a block contains no zoned address. -/
def inDocumentation (addr : Addr) : Bool :=
  addr.zone = [] && !addr.address.is4 && addr.address.packed.take 4 = [0x20, 0x01, 0x0d, 0xb8]

end Addr

/-- The blocks of IPv4 addresses that are named by the server itself. -/
def reservedOctets (address : Address) : Bool :=
  let octet := address.octet
  octet 0 = 0 || 224 ≤ octet 0 ||
    (octet 0 = 100 && 64 ≤ octet 1 && octet 1 ≤ 127) ||
    (octet 0 = 192 && octet 1 = 0) ||
    (octet 0 = 198 && (octet 1 = 18 || octet 1 = 19)) ||
    (octet 0 = 198 && octet 1 = 51 && octet 2 = 100) ||
    (octet 0 = 203 && octet 1 = 0 && octet 2 = 113)

/-- The test of the server on addresses: not special to `netip`, not in the IPv4 blocks above and
not in the documentation block of IPv6. -/
def publiclyRoutable (addr : Addr) : Bool :=
  let addr := addr.unmap
  let address := addr.address
  if addr.isUnspecified || address.isLoopback || address.isMulticast ||
      address.isLinkLocalUnicast || address.isPrivate then false
  else if address.is4 && reservedOctets address then false
  else if addr.inDocumentation then false
  else true

end QortalRelay
