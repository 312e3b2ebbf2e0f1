import QortalRelay.Foundation.Binary
import QortalRelay.Relay.Address

/-!
# Starting the relay

The checks of `Start` on its configuration, up to the one that the announcement of the relay fits a
packet of the network: the server name, the two endpoints, the certificate, the access policy and
the ticket authority. URLs and endpoints are parsed by library functions, and the certificate and
the ticket authority are calls that may fail; a `Machine` gives what they return.
-/

set_option autoImplicit false
set_option relaxedAutoImplicit false

namespace QortalRelay

open Foundation Encoding Binary

/-! ### The access configuration -/

/-- A URL as the library parses it. -/
structure Url where
  scheme : Text
  hostname : Text
  hasUser : Bool
  rawQuery : Text
  fragment : Text
deriving DecidableEq

/-- Why the relay does not start: a message of its own, or a call that failed. -/
inductive StartError
  | message (text : String)
  | certificate
  | ticketAuthority
  | ticketSocket
deriving DecidableEq, Repr

/-- The access policy of the configuration. -/
structure AccessConfig where
  mode : Text
  allowedGroupIds : List Int32
  coreUrlBases : List Text
deriving DecidableEq

namespace AccessConfig

def publicMode : Text := ['p', 'u', 'b', 'l', 'i', 'c']

def groupsMode : Text := ['g', 'r', 'o', 'u', 'p', 's']

/-- The hosts that may be asked without TLS. -/
def localHosts : List Text :=
  [['1', '2', '7', '.', '0', '.', '0', '.', '1'], ['l', 'o', 'c', 'a', 'l', 'h', 'o', 's', 't'],
    [':', ':', '1']]

/-- The check of one base of a Core URL. -/
def checkBase (parseUrl : Text → Option Url) (base : Text) : Except StartError Unit :=
  match parseUrl base with
  | none => .error (.message "invalid Core URL")
  | some url => do
    ensure (url.hostname ≠ [] ∧ url.hasUser = false ∧ url.rawQuery = [] ∧ url.fragment = [] ∧
      (url.scheme = ['h', 't', 't', 'p', 's'] ∨ url.scheme = ['h', 't', 't', 'p']))
      (.message "invalid Core URL")
    ensure (url.scheme = ['h', 't', 't', 'p'] → url.hostname ∈ localHosts)
      (.message "remote Core URLs must use HTTPS")

/-- The first address that is refused decides. -/
def checkBases (parseUrl : Text → Option Url) : List Text → Except StartError Unit
  | [] => .ok ()
  | base :: rest => do
    checkBase parseUrl base
    checkBases parseUrl rest

def trimSlashes (base : Text) : Text := (base.reverse.dropWhile (· = '/')).reverse

/-- The configuration that is left: the bases without slashes at their ends, the groups sorted. -/
def validate (parseUrl : Text → Option Url) (config : AccessConfig) :
    Except StartError AccessConfig := do
  ensure (config.mode = publicMode ∨ config.mode = groupsMode)
    (.message "access mode must be public or groups")
  ensure (config.mode = publicMode → config.allowedGroupIds = [])
    (.message "public access cannot have group restrictions")
  ensure (config.allowedGroupIds.all (fun id ↦ decide (0 < id.toInt)) = true ∧
    config.allowedGroupIds.Nodup)
    (.message "group IDs must be unique positive integers")
  ensure (config.allowedGroupIds.length ≤ 16 ∧
    (config.mode = groupsMode → config.allowedGroupIds ≠ []))
    (.message "groups mode requires 1 to 16 group IDs")
  ensure (config.coreUrlBases.length ≤ 8 ∧ (config.mode = groupsMode → config.coreUrlBases ≠ []))
    (.message "groups mode requires 1 to 8 Core URLs")
  checkBases parseUrl config.coreUrlBases
  return { config with
    coreUrlBases := config.coreUrlBases.map trimSlashes
    allowedGroupIds := config.allowedGroupIds.insertionSort fun a b ↦ a.toInt ≤ b.toInt }

/-- What a checked configuration says about its mode and its groups. -/
structure Sound (config : AccessConfig) : Prop where
  mode : (config.mode = publicMode ∧ config.allowedGroupIds = []) ∨
    (config.mode = groupsMode ∧ config.allowedGroupIds ≠ [])
  positive : ∀ id ∈ config.allowedGroupIds, 0 < id.toInt
  nodup : config.allowedGroupIds.Nodup
  length_le : config.allowedGroupIds.length ≤ 16

theorem checkBases_eq_ok {parseUrl : Text → Option Url} {bases : List Text} :
    checkBases parseUrl bases = .ok () ↔ ∀ base ∈ bases, checkBase parseUrl base = .ok () := by
  induction bases with
  | nil => simp [checkBases]
  | cons base rest ih =>
    rw [checkBases, bind_eq_ok, List.forall_mem_cons, ← ih]
    exact ⟨fun ⟨_, hbase, hrest⟩ ↦ ⟨hbase, hrest⟩, fun ⟨hbase, hrest⟩ ↦ ⟨(), hbase, hrest⟩⟩

/-- What is checked, and what is left. -/
theorem validate_eq_ok_iff {parseUrl : Text → Option Url} {config checked : AccessConfig} :
    config.validate parseUrl = .ok checked ↔
      config.Sound ∧
      (config.coreUrlBases.length ≤ 8 ∧
        (config.mode = groupsMode → config.coreUrlBases ≠ [])) ∧
      (∀ base ∈ config.coreUrlBases, checkBase parseUrl base = .ok ()) ∧
      checked = { config with
        coreUrlBases := config.coreUrlBases.map trimSlashes
        allowedGroupIds := config.allowedGroupIds.insertionSort fun a b ↦ a.toInt ≤ b.toInt } := by
  simp only [validate, bind_eq_ok, ensure_eq_ok, pure_eq_ok, exists_const, List.all_eq_true,
    decide_eq_true_eq]
  constructor
  · rintro ⟨hmode, hopen, ⟨hpositive, hnodup⟩, ⟨hlength, hgroups⟩, hcount, _, hcheck, rfl⟩
    refine ⟨⟨?_, hpositive, hnodup, hlength⟩, hcount, checkBases_eq_ok.mp hcheck, rfl⟩
    rcases hmode with hmode | hmode
    · exact Or.inl ⟨hmode, hopen hmode⟩
    · exact Or.inr ⟨hmode, hgroups hmode⟩
  · rintro ⟨⟨hmode, hpositive, hnodup, hlength⟩, hcount, hcheck, rfl⟩
    have hdiffer : publicMode ≠ groupsMode := by decide
    refine ⟨hmode.imp And.left And.left, fun hpublic ↦ ?_, ⟨hpositive, hnodup⟩,
      ⟨hlength, fun hgroups ↦ ?_⟩, hcount, (), checkBases_eq_ok.mpr hcheck, rfl⟩
    · exact (hmode.resolve_right fun h ↦ hdiffer (hpublic.symm.trans h.1)).2
    · exact (hmode.resolve_left fun h ↦ hdiffer (h.1.symm.trans hgroups)).2

theorem validate_eq_ok {parseUrl : Text → Option Url} {config checked : AccessConfig}
    (h : config.validate parseUrl = .ok checked) :
    config.Sound ∧ checked.mode = config.mode ∧
      checked.allowedGroupIds.Perm config.allowedGroupIds := by
  obtain ⟨hsound, -, -, rfl⟩ := validate_eq_ok_iff.mp h
  exact ⟨hsound, rfl, List.perm_insertionSort _ _⟩

/-- Checking leaves the groups in ascending order. -/
theorem pairwise_of_validate {parseUrl : Text → Option Url} {config checked : AccessConfig}
    (h : config.validate parseUrl = .ok checked) :
    checked.allowedGroupIds.Pairwise fun a b ↦ a.toInt ≤ b.toInt := by
  obtain ⟨-, -, -, rfl⟩ := validate_eq_ok_iff.mp h
  have htotal : Std.Total fun a b : Int32 ↦ a.toInt ≤ b.toInt := ⟨fun _ _ ↦ le_total _ _⟩
  have htrans : IsTrans Int32 fun a b ↦ a.toInt ≤ b.toInt := ⟨fun _ _ _ ↦ le_trans⟩
  exact List.pairwise_insertionSort _ _

/-- The order of the groups does not matter. -/
theorem Sound.of_perm {config other : AccessConfig} (h : config.Sound)
    (hmode : other.mode = config.mode)
    (hperm : other.allowedGroupIds.Perm config.allowedGroupIds) : other.Sound where
  mode := by
    rw [hmode, ne_eq, ← List.length_eq_zero_iff, hperm.length_eq, List.length_eq_zero_iff]
    exact h.mode
  positive id hid := h.positive id (hperm.mem_iff.mp hid)
  nodup := hperm.nodup_iff.mpr h.nodup
  length_le := hperm.length_eq ▸ h.length_le

/-- The configuration of the policy; without a mode it is public. -/
def ofPolicy (parseUrl : Text → Option Url) (config : AccessConfig) :
    Except StartError AccessConfig :=
  validate parseUrl (if config.mode = [] then { config with mode := publicMode } else config)

end AccessConfig

/-! ### Start -/

/-- The part of the configuration that is checked. -/
structure Config where
  access : AccessConfig
  listenAddress : Text
  publicAddress : Text
  /-- A name is a string of bytes. -/
  serverName : Bytes
  allowLocalAdvertise : Bool

/-- What the calls of `Start` return. -/
structure Machine where
  parseAddrPort : Text → Option (Addr × UInt16)
  parseUrl : Text → Option Url
  /-- The digest of the certificate, of 32 bytes. -/
  certificate : Option { pin : Bytes // pin.length = 32 }
  newTicketAuthority : Bool
  serveTickets : Bool

/-- What the relay starts with. -/
structure Prepared where
  addr : Addr
  port : UInt16
  serverName : Bytes
  pin : Bytes
  policy : AccessConfig
deriving DecidableEq

/-- The endpoint of an address with a port that is not zero. -/
def literalEndpoint (machine : Machine) (text : Text) (error : String) :
    Except StartError (Addr × UInt16) := do
  let endpoint ← require (machine.parseAddrPort text) (.message error)
  ensure (endpoint.2 ≠ 0) (.message error)
  return endpoint

/-- The checks before that of the announcement. -/
def configure (machine : Machine) (config : Config) : Except StartError Prepared := do
  ensure (config.serverName ≠ [] ∧ config.serverName.length ≤ 128)
    (.message "server name is required and must be at most 128 characters")
  let _listen ← literalEndpoint machine config.listenAddress
    "listen address must be a literal IP endpoint"
  let (addr, port) ← literalEndpoint machine config.publicAddress
    "public address must be a literal IP endpoint"
  ensure (publiclyRoutable addr = true ∨
    (config.allowLocalAdvertise = true ∧ addr.address.isLoopback = true))
    (.message "public address must be globally routable")
  let pin ← require machine.certificate .certificate
  let policy ← config.access.ofPolicy machine.parseUrl
  ensure (policy.mode = AccessConfig.groupsMode → machine.newTicketAuthority = true)
    .ticketAuthority
  ensure (policy.mode = AccessConfig.groupsMode → machine.serveTickets = true) .ticketSocket
  return ⟨addr, port, config.serverName, pin.val, policy⟩

/-- The rounds of the loop over one group; a number takes fewer rounds than its value. -/
def moreBytes : ℕ → ℤ → ℕ
  | 0, _ => 0
  | fuel + 1, id => if 128 ≤ id then 1 + moreBytes fuel (id >>> (7 : ℕ)) else 0

/-- The bytes of one group. -/
def idBytes (id : Int32) : ℕ := 1 + moreBytes id.toInt.toNat id.toInt

/-- The size that is compared with the capacity of a packet. -/
def announcementSize (tickets : Bool) (addr : Addr) (serverName : Bytes) (ids : List Int32) : ℕ :=
  (if tickets then 3 else 4) + addr.address.packed.length + 6 + 32 + serverName.length +
    (ids.map idBytes).sum + (if tickets then 160 else 96)

/-- The refusal of an announcement that is too long. -/
def capacityError : StartError :=
  .message "relay name and group list exceed Reticulum announcement capacity"

/-- `Start` through its last check before the socket is opened. -/
def start (machine : Machine) (config : Config) : Except StartError Prepared := do
  let prepared ← configure machine config
  let tickets := decide (prepared.policy.mode = AccessConfig.groupsMode)
  ensure (announcementSize tickets prepared.addr config.serverName
    config.access.allowedGroupIds ≤ 316) capacityError
  return prepared

/-- The policy of a configuration with a mode that is accepted. -/
theorem AccessConfig.mode_ofPolicy {parseUrl : Text → Option Url} {config policy : AccessConfig}
    (h : config.ofPolicy parseUrl = .ok policy) :
    policy.Sound ∧ policy.allowedGroupIds.Perm config.allowedGroupIds ∧
      (config.mode ≠ [] → policy.mode = config.mode) := by
  unfold ofPolicy at h
  split_ifs at h with hmode
  · obtain ⟨hsound, hmodeEq, hperm⟩ := validate_eq_ok h
    exact ⟨hsound.of_perm hmodeEq hperm, hperm, fun hne ↦ absurd hmode hne⟩
  · obtain ⟨hsound, hmodeEq, hperm⟩ := validate_eq_ok h
    exact ⟨hsound.of_perm hmodeEq hperm, hperm, fun _ ↦ hmodeEq⟩

/-- What `configure` has checked. -/
theorem configure_eq_ok {machine : Machine} {config : Config} {prepared : Prepared}
    (h : configure machine config = .ok prepared) :
    (config.serverName ≠ [] ∧ config.serverName.length ≤ 128) ∧
      prepared.serverName = config.serverName ∧ prepared.port ≠ 0 ∧
      (publiclyRoutable prepared.addr = true ∨
        (config.allowLocalAdvertise = true ∧ prepared.addr.address.isLoopback = true)) ∧
      prepared.pin.length = 32 ∧
      config.access.ofPolicy machine.parseUrl = .ok prepared.policy := by
  simp only [configure, literalEndpoint, bind_eq_ok, require_eq_ok, ensure_eq_ok, pure_eq_ok,
    exists_const, Prod.exists] at h
  obtain ⟨hname, _, _, -, addr, port, ⟨_, _, -, hport, hpair⟩, hroutable, pin, -, policy, hpolicy,
    -,
    -, rfl⟩ := h
  obtain ⟨rfl, rfl⟩ := Prod.mk.inj hpair
  exact ⟨hname, rfl, hport, hroutable, pin.property, hpolicy⟩

end QortalRelay
