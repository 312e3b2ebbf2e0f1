import QortalRelay.Foundation.Json
import QortalRelay.Relay.Start

/-!
# Strict JSON

The two readers of JSON that refuse a key given twice: `strictJSON`, for requests to the ticket
authority and for tickets, which looks for such keys at every depth, and `loadAccessConfig`, which
looks at the one object of the file. Both compare keys as they are spelled, and then decode the text
with a decoder that takes a key for a field whose name is the same up to case. So what is accepted
gives no key twice as it is spelled, and its fields are set once exactly if no key of a field has a
second spelling in the same object (`fields_set_once_iff`); a second spelling sets the field again
(`mode_set_twice`).

The text is parsed by the standard library; a `Reader` gives what it returns.
-/

set_option autoImplicit false
set_option relaxedAutoImplicit false

namespace QortalRelay.Access

open Foundation Encoding Binary JsonRecords

/-- The reader of the JSON library, of which only these two functions are used. -/
structure Reader where
  /-- The first JSON value of a text, with the text after it. -/
  read : Bytes → Option (Json × Bytes)
  /-- No value follows. -/
  atEnd : Bytes → Bool

/-! ### The readers -/

mutual

/-- No key is given twice in an object, at any depth. -/
def walk : Json → Bool
  | .array items => walkItems items
  | .object members => walkMembers [] members
  | _ => true

def walkItems : List Json → Bool
  | [] => true
  | json :: rest => walk json && walkItems rest

/-- No member of the object has the name of an earlier one, to any depth. Names are compared
exactly, while the decoder folds their case. -/
def walkMembers (seen : List Text) : Object → Bool
  | [] => true
  | (key, json) :: rest =>
    !seen.contains key && walk json && walkMembers (key :: seen) rest

end

/-- The decoder of requests and tickets. -/
def strictJSON (reader : Reader) (kind : Kind) (raw : Bytes) : Option Value :=
  (reader.read raw).bind fun (json, rest) ↦
    if walk json then
      (decode kind json kind.zero).bind fun value ↦ if reader.atEnd rest then some value else none
    else none

/-- Why an access configuration is not loaded. -/
inductive LoadError
  | message (text : String)
  /-- The text is not JSON, or does not fit the record. -/
  | json
  | invalid (error : StartError)
deriving DecidableEq, Repr

/-- The type of `AccessConfig`, with the names of its JSON tags. -/
def configKind : Kind :=
  .record false
    [("mode".toList, .text), ("allowed_group_ids".toList, .list (.int 32)),
      ("core_url_bases".toList, .list .text)]

/-- The record of a value of `configKind`. -/
def configOf : Value → Option AccessConfig
  | .record [.text mode, .list ids _, .list bases _] => do
    let allowedGroupIds ← ids.mapM fun
      | .int id => some (Int32.ofInt id)
      | _ => none
    let coreUrlBases ← bases.mapM fun
      | .text base => some base
      | _ => none
    return ⟨mode, allowedGroupIds, coreUrlBases⟩
  | _ => none

/-- Reads the file of the access configuration, of which `content` is what it holds. -/
def loadAccessConfig (reader : Reader) (parseUrl : Text → Option Url) (content : Bytes) :
    Except LoadError AccessConfig := do
  let raw := content.take 16385
  ensure (raw.length ≤ 16384) (.message "access configuration exceeds 16 KiB")
  let (json, rest) ← require (reader.read raw) .json
  let members ← match json with
    | .object members => .ok members
    | _ => .error (.message "access configuration must be an object")
  ensure (members.map Prod.fst).Nodup (.message "duplicate access configuration key")
  let value ← require (decode configKind json configKind.zero) .json
  ensure (reader.atEnd rest = true) (.message "access configuration has trailing data")
  let config ← require (configOf value) .json
  (config.validate parseUrl).mapError .invalid

/-! ### The records -/

/-- A pointer to a `ticketDescriptor`, with the names of its JSON tags. -/
def descriptorKind : Kind :=
  .record true
    [("epoch".toList, .int 64), ("expiresAt".toList, .int 64), ("publicKey".toList, .text),
      ("keyId".toList, .text), ("policy".toList, .text), ("relayPin".toList, .text)]

/-- A pointer to a `relayProof`, with the names of its JSON tags. -/
def proofKind : Kind :=
  .record true
    [("type".toList, .text), ("relayPin".toList, .text), ("policy".toList, .text),
      ("binding".toList, .text), ("nonce".toList, .text), ("expiresAt".toList, .int 64),
      ("authorAddress".toList, .text), ("authorPublicKey".toList, .text),
      ("signature".toList, .text)]

/-- A request to the ticket authority. -/
def requestKind : Kind :=
  .record false
    [("descriptor".toList, descriptorKind), ("blinded".toList, .list .text),
      ("proof".toList, proofKind)]

/-- The type of a ticket, with the names of its JSON tags. -/
def ticketKind : Kind :=
  .record false
    [("epoch".toList, .int 64), ("keyId".toList, .text), ("message".toList, .text),
      ("signature".toList, .text)]

theorem clear_kinds :
    [requestKind, ticketKind, configKind].all (fun kind ↦ kind.clear) = true := by
  decide

/-! ### Keys as they are spelled -/

theorem walkMembers_nodup {seen : List Text} {members : Object}
    (h : walkMembers seen members = true) :
    (members.map Prod.fst).Nodup ∧ ∀ key ∈ members.map Prod.fst, key ∉ seen := by
  induction members generalizing seen with
  | nil => simp
  | cons member rest ih =>
    obtain ⟨key, json⟩ := member
    simp only [walkMembers, Bool.and_eq_true, Bool.not_eq_true', List.contains_eq_mem,
      decide_eq_false_iff_not] at h
    obtain ⟨⟨hkey, -⟩, hrest⟩ := h
    obtain ⟨hnodup, hseen⟩ := ih hrest
    rw [List.map_cons, List.nodup_cons]
    refine ⟨⟨fun hmem ↦ hseen key hmem List.mem_cons_self, hnodup⟩, ?_⟩
    intro found hfound
    rcases List.mem_cons.mp hfound with rfl | hfound
    · exact hkey
    · exact fun hmem ↦ hseen found hfound (List.mem_cons_of_mem _ hmem)

mutual

theorem everyRecord_of_walk (kind : Kind) :
    ∀ json, walk json = true → everyRecord spelledOnce kind json = true
  | .array items, h => by
    cases kind with
    | list item => exact everyItem_of_walk item items h
    | text | int | record => rfl
  | .object members, h => by
    cases kind with
    | record pointer fields =>
      rw [everyRecord, Bool.and_eq_true]
      exact ⟨decide_eq_true (walkMembers_nodup h).1, everyMember_of_walk fields [] members h⟩
    | text | int | list => rfl
  | .null, _ | .bool _, _ | .number _, _ | .string _, _ => by
    cases kind <;> rfl

theorem everyItem_of_walk (item : Kind) :
    ∀ items, walkItems items = true → everyItem spelledOnce item items = true
  | [], _ => rfl
  | json :: rest, h => by
    rw [walkItems, Bool.and_eq_true] at h
    rw [everyItem, Bool.and_eq_true]
    exact ⟨everyRecord_of_walk item json h.1, everyItem_of_walk item rest h.2⟩

theorem everyMember_of_walk (fields : Fields) (seen : List Text) :
    ∀ members, walkMembers seen members = true → everyMember spelledOnce fields members = true
  | [], _ => rfl
  | (key, json) :: rest, h => by
    rw [walkMembers, Bool.and_eq_true, Bool.and_eq_true] at h
    rw [everyMember, Bool.and_eq_true]
    refine ⟨?_, everyMember_of_walk fields (key :: seen) rest h.2⟩
    cases matchField fields key with
    | none => rfl
    | some field => exact everyRecord_of_walk field.2 json h.1.2

end

/-! ### What is accepted -/

/-- What is accepted spells no key of an object twice. -/
theorem strictJSON_eq_some {reader : Reader} {kind : Kind} {raw : Bytes} {value : Value}
    (h : strictJSON reader kind raw = some value) :
    ∃ json rest, reader.read raw = some (json, rest) ∧
      everyRecord spelledOnce kind json = true := by
  simp only [strictJSON, Option.bind_eq_some_iff] at h
  obtain ⟨⟨json, rest⟩, hread, hvalue⟩ := h
  by_cases hwalk : walk json = true
  · exact ⟨json, rest, hread, everyRecord_of_walk kind json hwalk⟩
  · simp [hwalk] at hvalue

/-- Only the configuration itself is decoded into a record, so its one check is enough. -/
theorem everyRecord_configKind {members : Object} (h : (members.map Prod.fst).Nodup) :
    everyRecord spelledOnce configKind (.object members) = true := by
  have hleaf : ∀ kind ∈ [Kind.text, .int 32], ∀ json,
      everyRecord spelledOnce kind json = true := by
    intro kind hkind json
    simp only [List.mem_cons, List.not_mem_nil, or_false] at hkind
    rcases hkind with rfl | rfl <;> cases json <;> rfl
  have hlist : ∀ kind ∈ [Kind.text, .int 32], ∀ json,
      everyRecord spelledOnce (.list kind) json = true := by
    intro kind hkind json
    cases json with
    | array items => exact everyItem_of_item (hleaf kind hkind) items
    | _ => rfl
  rw [configKind, everyRecord, Bool.and_eq_true]
  refine ⟨decide_eq_true h, everyMember_of_fields (fun field hfield ↦ ?_) members⟩
  simp only [List.mem_cons, List.not_mem_nil, or_false] at hfield
  rcases hfield with rfl | rfl | rfl
  · exact hleaf .text (by simp)
  · exact hlist (.int 32) (by simp)
  · exact hlist .text (by simp)

theorem loadAccessConfig_eq_ok {reader : Reader} {parseUrl : Text → Option Url} {content : Bytes}
    {config : AccessConfig} (h : loadAccessConfig reader parseUrl content = .ok config) :
    ∃ json rest, reader.read content = some (json, rest) ∧
      everyRecord spelledOnce configKind json = true := by
  simp only [loadAccessConfig, bind_eq_ok, ensure_eq_ok, require_eq_ok, exists_const] at h
  obtain ⟨hlength, ⟨json, rest⟩, hread, hloaded⟩ := h
  have hwhole : content.take 16385 = content := by
    rw [List.length_take] at hlength
    exact List.take_of_length_le (by omega)
  rw [hwhole] at hread
  refine ⟨json, rest, hread, ?_⟩
  cases json with
  | object members =>
    simp only [bind_eq_ok, ensure_eq_ok, Except.ok.injEq, exists_const, exists_eq_left'] at hloaded
    exact everyRecord_configKind hloaded.1
  | _ => cases hloaded

/-- Fields that are set once. In a text that is accepted, for a request, a ticket or an access
configuration, no key is spelled twice in an object that is decoded into a record. So no field at
any depth is set from more than one member of its object exactly if no two members of an object that
set a field have keys that are spelled differently and are the same up to case. -/
theorem fields_set_once_iff (reader : Reader) (parseUrl : Text → Option Url) (raw : Bytes) :
    (∀ kind ∈ [requestKind, ticketKind], ∀ value, strictJSON reader kind raw = some value →
      ∃ json rest, reader.read raw = some (json, rest) ∧
        everyRecord spelledOnce kind json = true ∧
        (setOnce kind json = true ↔ oneSpelling kind json = true)) ∧
    (∀ config, loadAccessConfig reader parseUrl raw = .ok config →
      ∃ json rest, reader.read raw = some (json, rest) ∧
        everyRecord spelledOnce configKind json = true ∧
        (setOnce configKind json = true ↔ oneSpelling configKind json = true)) := by
  have hclear := List.all_eq_true.mp clear_kinds
  constructor
  · intro kind hkind value haccepted
    obtain ⟨json, rest, hread, hspelled⟩ := strictJSON_eq_some haccepted
    have hmem : kind ∈ [requestKind, ticketKind, configKind] :=
      List.mem_append_left [configKind] hkind
    exact ⟨json, rest, hread, hspelled,
      by rw [setOnce_eq_oneSpelling (hclear kind hmem) hspelled]⟩
  · intro config haccepted
    obtain ⟨json, rest, hread, hspelled⟩ := loadAccessConfig_eq_ok haccepted
    have hmem : configKind ∈ [requestKind, ticketKind, configKind] := by simp
    exact ⟨json, rest, hread, hspelled,
      by rw [setOnce_eq_oneSpelling (hclear configKind hmem) hspelled]⟩

/-! ### A second spelling -/

def asciiBytes (text : String) : Bytes := text.toList.map fun c ↦ UInt8.ofNat c.toNat

/-- A configuration with two spellings of its mode. -/
def twoModes : Bytes := asciiBytes "\x7b\"mode\":\"groups\",\"MODE\":\"public\"\x7d"

def twoModesJson : Json :=
  .object [("mode".toList, .string "groups".toList), ("MODE".toList, .string "public".toList)]

/-- A ticket with two spellings of its key. -/
def twoKeys : Bytes :=
  asciiBytes ("\x7b\"epoch\":1,\"keyId\":\"a\",\"message\":\"\"," ++
    "\"signature\":\"\",\"KeyID\":\"b\"\x7d")

def twoKeysJson : Json :=
  .object [("epoch".toList, .number "1".toList), ("keyId".toList, .string "a".toList),
    ("message".toList, .string []), ("signature".toList, .string []),
    ("KeyID".toList, .string "b".toList)]

/-- What the parser returns for the two texts. -/
def sampleReader : Reader where
  read raw :=
    if raw = twoModes then some (twoModesJson, [])
    else if raw = twoKeys then some (twoKeysJson, [])
    else none
  atEnd rest := rest.isEmpty

/-- A configuration for groups is loaded as a public one, and the second key of a ticket counts. -/
theorem mode_set_twice :
    (loadAccessConfig sampleReader (fun _ ↦ none) twoModes = .ok ⟨"public".toList, [], []⟩ ∧
      setOnce configKind twoModesJson = false) ∧
    (strictJSON sampleReader ticketKind twoKeys =
        some (.record [.int 1, .text "b".toList, .text [], .text []]) ∧
      setOnce ticketKind twoKeysJson = false) := by
  refine ⟨⟨by rfl, by decide⟩, by rfl, by decide⟩

end QortalRelay.Access
