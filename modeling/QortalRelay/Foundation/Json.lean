import QortalRelay.Foundation.Decimal
import QortalRelay.Foundation.Encoding

/-!
# Decoding JSON into records

A decoder that fills a record from a JSON object, member after member. A member goes to the field
with its key as name or, without one, to the first field whose name is the same up to case; a later
member overwrites what an earlier one has set. `null` leaves a text, a number or a record as it is,
and clears a list or a pointer. A list keeps its storage when it is filled again, so an element that
is given as `null` has the value the storage had.

A record can be walked with the objects it is filled from (`everyRecord`). Where the names of its
fields differ up to case and no key is spelled twice in an object, no field is set twice exactly if
no two members that set one have keys that are spelled differently and are the same up to case
(`setOnce_eq_oneSpelling`).
-/

set_option autoImplicit false
set_option relaxedAutoImplicit false

namespace QortalRelay.Foundation.JsonRecords

open Encoding Decimal

/-! ### Trees, kinds and values -/

/-- A JSON value as it is written: members in their order, with repetitions. -/
inductive Json
  | null
  | bool (value : Bool)
  | number (text : Text)
  | string (text : Text)
  | array (items : List Json)
  | object (members : List (Text × Json))

/-- What a value is decoded into. -/
inductive Kind
  | text
  /-- A signed number of so many bits. -/
  | int (bits : ℕ)
  | list (item : Kind)
  /-- A record or, if so marked, a pointer to one. -/
  | record (pointer : Bool) (fields : List (Text × Kind))

abbrev Fields := List (Text × Kind)

abbrev Object := List (Text × Json)

/-- A decoded value. -/
inductive Value
  | text (text : Text)
  | int (value : ℤ)
  /-- The elements, and what is left in the storage behind them. -/
  | list (items spare : List Value)
  /-- A pointer to nothing. -/
  | absent
  | record (fields : List Value)

mutual

def Kind.zero : Kind → Value
  | .text => .text []
  | .int _ => .int 0
  | .list _ => .list [] []
  | .record true _ => .absent
  | .record false fields => .record (zeros fields)

def zeros : Fields → List Value
  | [] => []
  | (_, kind) :: rest => kind.zero :: zeros rest

end

/-- What the storage of a list holds. -/
def Value.cells : Value → List Value
  | .list items spare => items ++ spare
  | _ => []

/-! ### Names of fields -/

/-- The least character that is the same up to case; of those outside ASCII two are the same as a
letter of ASCII, the long s and the sign of the kelvin. -/
def foldRune (c : Char) : Char :=
  if 'a' ≤ c ∧ c ≤ 'z' then Char.ofNat (c.toNat - 32)
  else if c = '\u017f' then 'S'
  else if c = '\u212a' then 'K'
  else c

def fold (key : Text) : Text := key.map foldRune

/-- The field that a key names, with its index. -/
def matchField (fields : Fields) (key : Text) : Option (ℕ × Kind) :=
  ((fields.findIdx? fun field ↦ field.1 = key).or
    (fields.findIdx? fun field ↦ fold field.1 = fold key)).bind fun i ↦
      fields[i]?.map fun field ↦ (i, field.2)

/-! ### Decoding -/

mutual

/-- The value after a JSON value has been decoded over the current one; none if it does not fit. -/
def decode : Kind → Json → Value → Option Value
  | .list _, .null, _ => some (.list [] [])
  | .record true _, .null, _ => some .absent
  | _, .null, current => some current
  | .text, .string text, _ => some (.text text)
  | .int bits, .number text, _ =>
    (parseInt text).toOption.bind fun n ↦
      if -2 ^ (bits - 1) ≤ n ∧ n < 2 ^ (bits - 1) then some (.int n) else none
  | .list item, .array items, current =>
    (decodeItems item items current.cells).map fun decoded ↦
      if decoded.1.isEmpty then .list [] [] else .list decoded.1 decoded.2
  | .record _ fields, .object members, .record current =>
    (decodeMembers fields members current).map .record
  | .record _ fields, .object members, _ =>
    (decodeMembers fields members (zeros fields)).map .record
  | _, _, _ => none

def decodeItems (item : Kind) : List Json → List Value → Option (List Value × List Value)
  | [], cells => some ([], cells)
  | json :: rest, cells =>
    (decode item json (cells.headD item.zero)).bind fun value ↦
      (decodeItems item rest cells.tail).map fun decoded ↦ (value :: decoded.1, decoded.2)

/-- A member with a key that names no field is refused. -/
def decodeMembers (fields : Fields) : Object → List Value → Option (List Value)
  | [], current => some current
  | (key, json) :: rest, current =>
    (matchField fields key).bind fun field ↦
      (decode field.2 json (current.getD field.1 field.2.zero)).bind fun value ↦
        decodeMembers fields rest (current.set field.1 value)

end

/-! ### What sets a field -/

/-- A member sets its field unless it is null, and null clears lists and pointers. -/
def assigns : Kind → Json → Bool
  | .list _, .null | .record true _, .null => true
  | _, .null => false
  | _, _ => true

/-- The fields that the members of an object set, each with the key. -/
def assignments (fields : Fields) (members : Object) : List (ℕ × Text) :=
  members.filterMap fun member ↦ (matchField fields member.1).bind fun field ↦
    if assigns field.2 member.2 then some (field.1, member.1) else none

mutual

/-- A check of every object that is decoded into a record, at any depth. -/
def everyRecord (check : Fields → Object → Bool) : Kind → Json → Bool
  | .list item, .array items => everyItem check item items
  | .record _ fields, .object members => check fields members && everyMember check fields members
  | _, _ => true

def everyItem (check : Fields → Object → Bool) (item : Kind) : List Json → Bool
  | [] => true
  | json :: rest => everyRecord check item json && everyItem check item rest

def everyMember (check : Fields → Object → Bool) (fields : Fields) : Object → Bool
  | [] => true
  | (key, json) :: rest =>
    (matchField fields key).all (fun field ↦ everyRecord check field.2 json) &&
      everyMember check fields rest

end

/-- No field is set from more than one member of its object. -/
def setOnce (kind : Kind) (json : Json) : Bool :=
  everyRecord (fun fields members ↦ ((assignments fields members).map Prod.fst).Nodup) kind json

/-- The keys of an object differ as they are spelled. -/
def spelledOnce (_ : Fields) (members : Object) : Bool := (members.map Prod.fst).Nodup

/-- No two members of an object that set a field have keys that are spelled differently and are the
same up to case. -/
def oneSpelling (kind : Kind) (json : Json) : Bool :=
  everyRecord (fun fields members ↦ (assignments fields members).Pairwise fun first second ↦
    first.2 ≠ second.2 → fold first.2 ≠ fold second.2) kind json

mutual

/-- The names of the fields of a record differ up to case, at any depth. -/
def Kind.clear : Kind → Bool
  | .list item => item.clear
  | .record _ fields => decide (fields.map fun field ↦ fold field.1).Nodup && clearFields fields
  | _ => true

def clearFields : Fields → Bool
  | [] => true
  | (_, kind) :: rest => kind.clear && clearFields rest

end

/-! ### Fields that are set once -/

section SetOnce

variable {fields : Fields} {key : Text} {i : ℕ} {kind : Kind}

theorem matchField_eq_some (h : matchField fields key = some (i, kind)) :
    ∃ name, fields[i]? = some (name, kind) ∧ fold name = fold key := by
  simp only [matchField, Option.bind_eq_some_iff, Option.map_eq_some_iff, Option.or_eq_some_iff,
    Prod.mk.injEq] at h
  obtain ⟨j, hj, ⟨name, kind'⟩, hfield, rfl, rfl⟩ := h
  refine ⟨name, hfield, ?_⟩
  rcases hj with hexact | ⟨-, hfolded⟩
  · obtain ⟨hlt, hname, -⟩ := List.findIdx?_eq_some_iff_getElem.mp hexact
    rw [List.getElem?_eq_getElem hlt, Option.some.injEq] at hfield
    simp only [hfield, decide_eq_true_eq] at hname
    rw [hname]
  · obtain ⟨hlt, hname, -⟩ := List.findIdx?_eq_some_iff_getElem.mp hfolded
    rw [List.getElem?_eq_getElem hlt, Option.some.injEq] at hfield
    simpa only [hfield, decide_eq_true_eq] using hname

/-- Assumes: the names of the fields differ up to case. Keys name the same field exactly if they are
the same up to case. -/
theorem matchField_index_eq_iff (hnames : (fields.map fun field ↦ fold field.1).Nodup)
    {key' : Text} {i' : ℕ} {kind' : Kind} (h : matchField fields key = some (i, kind))
    (h' : matchField fields key' = some (i', kind')) : i = i' ↔ fold key = fold key' := by
  obtain ⟨name, hname, hfold⟩ := matchField_eq_some h
  obtain ⟨name', hname', hfold'⟩ := matchField_eq_some h'
  constructor
  · rintro rfl
    rw [hname, Option.some.injEq, Prod.mk.injEq] at hname'
    rw [← hfold, ← hfold', hname'.1]
  · intro hkeys
    have hlt := (List.getElem?_eq_some_iff.mp hname).1
    refine (List.getElem?_inj (by simpa using hlt) hnames).mp ?_
    simp only [List.getElem?_map, hname, hname', Option.map_some]
    rw [hfold, hfold', hkeys]

theorem mem_assignments {members : Object} {assignment : ℕ × Text}
    (h : assignment ∈ assignments fields members) :
    ∃ kind, matchField fields assignment.2 = some (assignment.1, kind) := by
  simp only [assignments, List.mem_filterMap, Option.bind_eq_some_iff] at h
  obtain ⟨member, -, ⟨index, kind⟩, hmatch, hassigns⟩ := h
  split_ifs at hassigns
  obtain rfl := Option.some.inj hassigns
  exact ⟨kind, hmatch⟩

theorem keys_assignments_sublist (fields : Fields) (members : Object) :
    ((assignments fields members).map Prod.snd).Sublist (members.map Prod.fst) := by
  induction members with
  | nil => exact List.Sublist.refl _
  | cons member rest ih =>
    simp only [assignments, List.filterMap_cons] at ih ⊢
    split
    · exact ih.cons _
    · rename_i assignment hassignment
      simp only [Option.bind_eq_some_iff] at hassignment
      obtain ⟨field, -, hassigns⟩ := hassignment
      split_ifs at hassigns
      cases hassigns
      exact ih.cons_cons _

/-- Assumes: the names of the fields differ up to case, and the keys of the object as they are
spelled. -/
theorem nodup_assignments_iff (hnames : (fields.map fun field ↦ fold field.1).Nodup)
    {members : Object} (hkeys : (members.map Prod.fst).Nodup) :
    ((assignments fields members).map Prod.fst).Nodup ↔
      (assignments fields members).Pairwise fun first second ↦
        first.2 ≠ second.2 → fold first.2 ≠ fold second.2 := by
  have hspelled := hkeys.sublist (keys_assignments_sublist fields members)
  unfold List.Nodup at hspelled ⊢
  rw [List.pairwise_map] at hspelled ⊢
  constructor
  · intro hindices
    refine hindices.imp_of_mem fun {first second} hfirst hsecond hindex _ ↦ ?_
    obtain ⟨kind, hkind⟩ := mem_assignments hfirst
    obtain ⟨kind', hkind'⟩ := mem_assignments hsecond
    exact fun hfold ↦ hindex ((matchField_index_eq_iff hnames hkind hkind').mpr hfold)
  · intro hfolds
    refine (hfolds.and hspelled).imp_of_mem fun {first second} hfirst hsecond hboth ↦ ?_
    obtain ⟨kind, hkind⟩ := mem_assignments hfirst
    obtain ⟨kind', hkind'⟩ := mem_assignments hsecond
    exact fun hindex ↦
      hboth.1 hboth.2 ((matchField_index_eq_iff hnames hkind hkind').mp hindex)

theorem clear_of_mem (hclear : clearFields fields = true) {field : Text × Kind}
    (hfield : field ∈ fields) : field.2.clear = true := by
  induction fields with
  | nil => cases hfield
  | cons head rest ih =>
    simp only [clearFields, Bool.and_eq_true] at hclear
    rcases List.mem_cons.mp hfield with rfl | hrest
    · exact hclear.1
    · exact ih hclear.2 hrest

theorem clear_of_matchField (hclear : clearFields fields = true)
    (h : matchField fields key = some (i, kind)) : kind.clear = true := by
  obtain ⟨name, hname, -⟩ := matchField_eq_some h
  exact clear_of_mem hclear (List.mem_of_getElem? hname)

/-- On records whose names differ up to case, the checks give the same answer about the objects
that pass a third one. -/
def Agree (side check check' : Fields → Object → Bool) : Prop :=
  ∀ fields members, (fields.map fun field ↦ fold field.1).Nodup → side fields members = true →
    check fields members = check' fields members

section Congr

variable {side check check' : Fields → Object → Bool}

mutual

theorem everyRecord_congr (hagree : Agree side check check') (kind : Kind)
    (hclear : kind.clear = true) :
    ∀ json, everyRecord side kind json = true →
      everyRecord check kind json = everyRecord check' kind json
  | .array items, hside => by
    cases kind with
    | list item => exact everyItem_congr hagree item hclear items hside
    | text | int | record => rfl
  | .object members, hside => by
    cases kind with
    | record pointer fields =>
      simp only [Kind.clear, Bool.and_eq_true, decide_eq_true_eq] at hclear
      simp only [everyRecord, Bool.and_eq_true] at hside ⊢
      rw [hagree fields members hclear.1 hside.1,
        everyMember_congr hagree fields hclear.2 members hside.2]
    | text | int | list => rfl
  | .null, _ | .bool _, _ | .number _, _ | .string _, _ => by
    cases kind <;> rfl

theorem everyItem_congr (hagree : Agree side check check') (item : Kind)
    (hclear : item.clear = true) :
    ∀ items, everyItem side item items = true →
      everyItem check item items = everyItem check' item items
  | [], _ => rfl
  | json :: rest, hside => by
    simp only [everyItem, Bool.and_eq_true] at hside ⊢
    rw [everyRecord_congr hagree item hclear json hside.1,
      everyItem_congr hagree item hclear rest hside.2]

theorem everyMember_congr (hagree : Agree side check check') (fields : Fields)
    (hclear : clearFields fields = true) :
    ∀ members, everyMember side fields members = true →
      everyMember check fields members = everyMember check' fields members
  | [], _ => rfl
  | (key, json) :: rest, hside => by
    simp only [everyMember, Bool.and_eq_true] at hside ⊢
    rw [everyMember_congr hagree fields hclear rest hside.2]
    cases hmatch : matchField fields key with
    | none => rfl
    | some field =>
      simp only [hmatch, Option.all_some] at hside ⊢
      rw [everyRecord_congr hagree field.2 (clear_of_matchField hclear hmatch) json hside.1]

end

end Congr

/-- Assumes: the names of the fields differ up to case, and no key is spelled twice in an object. No
field is set twice exactly if no two members that set one have different spellings of one key. -/
theorem setOnce_eq_oneSpelling {kind : Kind} (hclear : kind.clear = true) {json : Json}
    (hspelled : everyRecord spelledOnce kind json = true) :
    setOnce kind json = oneSpelling kind json := by
  refine everyRecord_congr (fun fields members hnames hkeys ↦ ?_) kind hclear json hspelled
  exact decide_eq_decide.mpr (nodup_assignments_iff hnames (of_decide_eq_true hkeys))

/-- Assumes: nothing inside the items is decoded into a record. -/
theorem everyItem_of_item {check : Fields → Object → Bool} {item : Kind}
    (h : ∀ json, everyRecord check item json = true) (items : List Json) :
    everyItem check item items = true := by
  induction items with
  | nil => rfl
  | cons json rest ih => rw [everyItem, h json, ih, Bool.and_self]

/-- Assumes: no field of the record is, or holds, a record. -/
theorem everyMember_of_fields {check : Fields → Object → Bool} {fields : Fields}
    (h : ∀ field ∈ fields, ∀ json, everyRecord check field.2 json = true) (members : Object) :
    everyMember check fields members = true := by
  induction members with
  | nil => rfl
  | cons member rest ih =>
    rw [everyMember, ih, Bool.and_true]
    cases hmatch : matchField fields member.1 with
    | none => rfl
    | some field =>
      obtain ⟨name, hname, -⟩ := matchField_eq_some hmatch
      exact h _ (List.mem_of_getElem? hname) member.2

end SetOnce

end QortalRelay.Foundation.JsonRecords
