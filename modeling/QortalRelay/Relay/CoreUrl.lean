import QortalRelay.Foundation.Decimal
import QortalRelay.Foundation.Uri
import QortalRelay.Relay.Start

/-!
# The URLs a Core is asked at

The checks of `validate` look at the parts of a parsed base, and `checkGroup` puts the path of the
membership endpoint behind the text of the base, from which `validate` has taken the slashes at the
end. The two views agree for a base without `?` and `#` (`membership_endpoint_iff`); parsing does
not report these characters at the end of a base, and the endpoint is then a query or a fragment
(`endpoint_in_query`). A path that ends in an escaped slash keeps it. Checking a checked
configuration again changes nothing.
-/

set_option autoImplicit false
set_option relaxedAutoImplicit false

namespace QortalRelay

open Foundation Encoding Binary Decimal

namespace AccessConfig

/-- The parts of a URL that are checked. -/
def toUrl (uri : Uri.Parsed) : Url :=
  ⟨uri.scheme, uri.authority.hostname, uri.authority.hasUser, uri.rawQuery, uri.fragment⟩

/-- `url.Parse` for a way to read authorities, as far as the relay reads its result. -/
def parseUrl (reader : Uri.AuthorityReader) (text : Text) : Option Url :=
  (Uri.read reader text).map toUrl

/-- The path that `checkGroup` puts behind a base. -/
def memberPath (id : Int32) : Text :=
  ['/', 'g', 'r', 'o', 'u', 'p', 's', '/', 'm', 'e', 'm', 'b', 'e', 'r', 's', '/'] ++
    formatInt id.toInt ++ ['/', 'v', 'a', 'l', 'i', 'd', 'a', 't', 'e']

def requestUrl (base : Text) (id : Int32) : Text := base ++ memberPath id

/-- The request goes to the endpoint of a group, below the path of the configured base. -/
structure IsMembershipEndpoint (configured requested : Uri.Parsed) (id : Int32) : Prop where
  scheme : requested.scheme = configured.scheme
  authority : requested.authority = configured.authority
  escapedPath : requested.escapedPath = trimSlashes configured.escapedPath ++ memberPath id
  rawQuery : requested.rawQuery = []
  fragment : requested.fragment = []

/-- The decoded path is that of the configured base without its slashes, and of the endpoint. -/
def KeepsPath (configured requested : Uri.Parsed) (id : Int32) : Prop :=
  requested.path = configured.path.rdropWhile (· = 0x2f) ++ utf8 (memberPath id)

/-- A path that ends, but for slashes, in an escaped slash. -/
def EndsEscaped (escapedPath : Text) : Prop :=
  ∃ slash ∈ Uri.escapedSlashes, slash <:+ utf8 (trimSlashes escapedPath)

/-! ### One base -/

section Base

variable {reader : Uri.AuthorityReader} {base : Text}

/-- The text has no character that ends a path. -/
def Undelimited (base : Text) : Prop := '?' ∉ base ∧ '#' ∉ base

/-- What the checks of a base ask for. -/
structure Admissible (uri : Uri.Parsed) : Prop where
  hostname : uri.authority.hostname ≠ []
  hasUser : uri.authority.hasUser = false
  rawQuery : uri.rawQuery = []
  fragment : uri.fragment = []
  scheme : uri.scheme = ['h', 't', 't', 'p', 's'] ∨
    uri.scheme = ['h', 't', 't', 'p'] ∧ uri.authority.hostname ∈ localHosts

theorem checkBase_eq_ok :
    checkBase (parseUrl reader) base = .ok () ↔
      ∃ uri, Uri.read reader base = some uri ∧ Admissible uri := by
  rw [checkBase, parseUrl]
  cases hread : Uri.read reader base with
  | none => simp
  | some uri =>
    simp only [Option.map_some, bind_eq_ok, ensure_eq_ok, exists_const, Option.some.injEq,
      exists_eq_left', toUrl]
    constructor
    · rintro ⟨⟨hhostname, huser, hquery, hfragment, hscheme⟩, hlocal⟩
      exact ⟨hhostname, huser, hquery, hfragment, hscheme.imp_right fun h ↦ ⟨h, hlocal h⟩⟩
    · rintro ⟨hhostname, huser, hquery, hfragment, hscheme⟩
      refine ⟨⟨hhostname, huser, hquery, hfragment, hscheme.imp_right And.left⟩, fun hhttp ↦ ?_⟩
      exact (hscheme.resolve_left fun hhttps ↦ absurd (hhttp.symm.trans hhttps) (by decide)).2

theorem Admissible.scheme_ne_nil {uri : Uri.Parsed} (h : Admissible uri) : uri.scheme ≠ [] := by
  rcases h.scheme with hscheme | ⟨hscheme, -⟩
  · rw [hscheme]
    exact List.cons_ne_nil _ _
  · rw [hscheme]
    exact List.cons_ne_nil _ _

def isPathChar (c : Char) : Bool := c.isAlpha || Uri.isSchemeSign c || c = '/'

/-- The path of the endpoint is of letters, digits, signs and slashes. -/
theorem all_isPathChar_memberPath (id : Int32) : (memberPath id).all isPathChar = true := by
  have hnumber : (formatInt id.toInt).all isPathChar = true := by
    rw [List.all_eq_true]
    intro c hc
    rcases isDigit_of_mem_formatInt hc with hdigit | rfl
    · simp [isPathChar, Uri.isSchemeSign, hdigit]
    · rfl
  rw [memberPath, List.all_append, List.all_append, hnumber]
  rfl

theorem plain_of_mem_memberPath {id : Int32} {c : Char} (hc : c ∈ memberPath id) :
    Uri.Plain c := by
  have hchar := List.all_eq_true.mp (all_isPathChar_memberPath id) c hc
  rw [isPathChar, Bool.or_eq_true, Bool.or_eq_true, decide_eq_true_eq] at hchar
  rcases hchar with hchar | rfl
  · exact Uri.plain_of_schemeChar hchar
  · decide

theorem percent_not_mem_memberPath (id : Int32) : '%' ∉ memberPath id := fun hc ↦
  absurd (List.all_eq_true.mp (all_isPathChar_memberPath id) _ hc) (by decide)

theorem head?_memberPath (id : Int32) : (memberPath id).head? = some '/' := rfl

/-- A base with a delimiter ends in it, and has no slashes to lose. -/
theorem trimSlashes_of_delimited {uri : Uri.Parsed} (hread : Uri.read reader base = some uri)
    (h : Admissible uri) (hdelimited : ¬Undelimited base) : trimSlashes base = base := by
  refine Uri.rdropWhile_eq_self_iff.mpr ?_
  have hends := Uri.getLast?_of_read hread h.rawQuery h.fragment
  rcases hends.resolve_left hdelimited with hlast | hlast
  · rw [hlast]
    decide
  · rw [hlast]
    decide

/-- The text that is kept of a base passes the checks that the base has passed. -/
theorem checkBase_trimSlashes (h : checkBase (parseUrl reader) base = .ok ()) :
    checkBase (parseUrl reader) (trimSlashes base) = .ok () := by
  obtain ⟨uri, hread, hadmissible⟩ := checkBase_eq_ok.mp h
  by_cases hbase : Undelimited base
  · obtain ⟨lead, n, -, -, hextend⟩ :=
      Uri.read_extend hread hadmissible.scheme_ne_nil hadmissible.hostname hbase.1 hbase.2
    have htrim := hextend [] (Or.inl rfl) (by simp) (by simp)
    rw [List.append_nil] at htrim
    refine checkBase_eq_ok.mpr ⟨_, htrim, ?_⟩
    exact ⟨hadmissible.hostname, hadmissible.hasUser, hadmissible.rawQuery, hadmissible.fragment,
      hadmissible.scheme⟩
  · rwa [trimSlashes_of_delimited hread hadmissible hbase]

theorem trimSlashes_trimSlashes (base : Text) : trimSlashes (trimSlashes base) = trimSlashes base :=
  List.rdropWhile_idempotent _ _

/-- A request below a base with a delimiter is read with a query or a fragment. -/
theorem undelimited_of_request {uri : Uri.Parsed} {id : Int32}
    (hread : Uri.read reader (requestUrl base id) = some uri) (hquery : uri.rawQuery = [])
    (hfragment : uri.fragment = []) : Undelimited base := by
  by_contra hdelimited
  rw [Undelimited, not_and_or, not_not, not_not] at hdelimited
  have hhash : '#' ∉ memberPath id := fun hmem ↦ (plain_of_mem_memberPath hmem).2.1 rfl
  have hnil := Uri.eq_nil_of_read_append hread hdelimited hhash hquery hfragment
  have hhead := head?_memberPath id
  rw [hnil] at hhead
  exact absurd hhead (by simp)

theorem getLast?_trimSlashes (text : Text) : (trimSlashes text).getLast? ≠ some '/' :=
  Uri.rdropWhile_eq_self_iff.mp (trimSlashes_trimSlashes text)

/-- A request below a base without delimiters goes to the endpoint, and keeps the path unless that
ends in an escaped slash. -/
theorem read_requestUrl {configured : Uri.Parsed} (hread : Uri.read reader base = some configured)
    (h : Admissible configured) (hbase : Undelimited base) (id : Int32) :
    ∃ requested, Uri.read reader (requestUrl (trimSlashes base) id) = some requested ∧
      IsMembershipEndpoint configured requested id ∧
      (KeepsPath configured requested id ↔ ¬EndsEscaped configured.escapedPath) := by
  obtain ⟨lead, n, hlead, hpath, hextend⟩ :=
    Uri.read_extend hread h.scheme_ne_nil h.hostname hbase.1 hbase.2
  refine ⟨_, hextend (memberPath id) (Or.inr (head?_memberPath id))
    (fun c hc ↦ plain_of_mem_memberPath hc) (percent_not_mem_memberPath id),
    ⟨rfl, rfl, rfl, h.rawQuery, h.fragment⟩, ?_⟩
  have hlast : (utf8 (trimSlashes configured.escapedPath)).getLast? ≠ some 0x2f := fun hslash ↦
    getLast?_trimSlashes _ (getLast?_of_getLast?_utf8 (d := '/') (by decide) hslash)
  calc KeepsPath configured _ id
      ↔ lead ++ utf8 (memberPath id) =
          lead.rdropWhile (· = 0x2f) ++ utf8 (memberPath id) := by
        rw [KeepsPath, hpath, Uri.rdropWhile_append_replicate]
    _ ↔ lead.rdropWhile (· = 0x2f) = lead := by
        rw [List.append_cancel_right_eq, eq_comm]
    _ ↔ ¬lead.getLast? = some 0x2f := Uri.rdropWhile_eq_self_iff
    _ ↔ ¬EndsEscaped configured.escapedPath := not_congr (hlead.getLast?_eq_slash hlast)

end Base

/-! ### The whole configuration -/

/-- Checking a checked configuration again changes nothing. -/
theorem validate_validate {reader : Uri.AuthorityReader} {config checked : AccessConfig}
    (h : config.validate (parseUrl reader) = .ok checked) :
    checked.validate (parseUrl reader) = .ok checked := by
  have hsorted := (pairwise_of_validate h).insertionSort_eq
  obtain ⟨hsound, hmode, hperm⟩ := validate_eq_ok h
  obtain ⟨-, ⟨hlength, hcores⟩, hcheck, hchecked⟩ := validate_eq_ok_iff.mp h
  have hbases : checked.coreUrlBases = config.coreUrlBases.map trimSlashes := by rw [hchecked]
  refine validate_eq_ok_iff.mpr ⟨hsound.of_perm hmode hperm, ⟨?_, fun hgroups ↦ ?_⟩, ?_, ?_⟩
  · rwa [hbases, List.length_map]
  · rw [hbases]
    exact mt List.map_eq_nil_iff.mp (hcores (hmode ▸ hgroups))
  · rw [hbases, List.forall_mem_map]
    exact fun base hmem ↦ checkBase_trimSlashes (hcheck base hmem)
  · have htrim : checked.coreUrlBases.map trimSlashes = checked.coreUrlBases := by
      rw [hbases, List.map_map]
      exact List.map_congr_left fun base _ ↦ trimSlashes_trimSlashes base
    rw [hsorted, htrim]

/-- Every base that is accepted is read, and its request goes to the membership endpoint exactly if
the base has no delimiter; the decoded path is kept exactly if it does not, moreover, end in an
escaped slash. A checked configuration passes the checks again and stays the same.
Assumes: the configuration is accepted. -/
theorem membership_endpoint_iff {reader : Uri.AuthorityReader} {config checked : AccessConfig}
    (h : config.validate (parseUrl reader) = .ok checked) :
    checked.validate (parseUrl reader) = .ok checked ∧
      List.Forall₂ (fun base stored ↦ ∃ configured, Uri.read reader base = some configured ∧
          ∀ id,
            ((∃ requested, Uri.read reader (requestUrl stored id) = some requested ∧
                IsMembershipEndpoint configured requested id) ↔ Undelimited base) ∧
            ((∃ requested, Uri.read reader (requestUrl stored id) = some requested ∧
                IsMembershipEndpoint configured requested id ∧
                KeepsPath configured requested id) ↔
              Undelimited base ∧ ¬EndsEscaped configured.escapedPath))
        config.coreUrlBases checked.coreUrlBases := by
  refine ⟨validate_validate h, ?_⟩
  obtain ⟨-, -, hcheck, rfl⟩ := validate_eq_ok_iff.mp h
  rw [List.forall₂_map_right_iff, List.forall₂_same]
  intro base hmem
  obtain ⟨configured, hread, hadmissible⟩ := checkBase_eq_ok.mp (hcheck base hmem)
  refine ⟨configured, hread, fun id ↦ ?_⟩
  by_cases hbase : Undelimited base
  · obtain ⟨requested, hrequest, hendpoint, hkeeps⟩ := read_requestUrl hread hadmissible hbase id
    refine ⟨iff_of_true ⟨requested, hrequest, hendpoint⟩ hbase, ?_⟩
    rw [and_iff_right hbase, ← hkeeps]
    constructor
    · rintro ⟨other, hother, -, hpath⟩
      obtain rfl := Option.some.inj (hrequest.symm.trans hother)
      exact hpath
    · exact fun hpath ↦ ⟨requested, hrequest, hendpoint, hpath⟩
  · have hnone {requested : Uri.Parsed}
        (hrequest : Uri.read reader (requestUrl (trimSlashes base) id) = some requested)
        (hendpoint : IsMembershipEndpoint configured requested id) : False := by
      rw [trimSlashes_of_delimited hread hadmissible hbase] at hrequest
      exact hbase (undelimited_of_request hrequest hendpoint.rawQuery hendpoint.fragment)
    exact ⟨iff_of_false (fun ⟨_, hrequest, hendpoint⟩ ↦ hnone hrequest hendpoint) hbase,
      iff_of_false (fun ⟨_, hrequest, hendpoint, _⟩ ↦ hnone hrequest hendpoint)
        fun h ↦ hbase h.1⟩

/-- A reader that takes every authority for a host. -/
def sampleReader : Uri.AuthorityReader where
  read := fun _ text ↦ some ⟨false, text, text⟩
  hostname_nil := by
    intro scheme authority h
    rw [← Option.some.inj h]

def sampleBase : Text :=
  ['h', 't', 't', 'p', 's', ':', '/', '/', 'c', 'o', 'r', 'e', '.', 't', 'e', 's', 't']

/-- A relay for one group that asks one Core. -/
def sampleAccess (base : Text) : AccessConfig := ⟨groupsMode, [7], [base]⟩

theorem membership_endpoint_sample :
    (sampleAccess (sampleBase ++ ['/'])).validate (parseUrl sampleReader) =
        .ok (sampleAccess sampleBase) ∧
      ∃ configured requested,
        Uri.read sampleReader (sampleBase ++ ['/']) = some configured ∧
        Uri.read sampleReader (requestUrl sampleBase 7) = some requested ∧
        IsMembershipEndpoint configured requested 7 := by
  have hvalidate : (sampleAccess (sampleBase ++ ['/'])).validate (parseUrl sampleReader) =
      .ok (sampleAccess sampleBase) := by
    decide +kernel
  refine ⟨hvalidate, ?_⟩
  obtain ⟨-, hbases⟩ := membership_endpoint_iff hvalidate
  obtain ⟨configured, hread, hiff⟩ := (List.forall₂_cons.mp hbases).1
  obtain ⟨requested, hrequest, hendpoint⟩ := (hiff 7).1.mpr ⟨by decide, by decide⟩
  exact ⟨configured, requested, hread, hrequest, hendpoint⟩

/-- A base that ends in a delimiter is accepted as it is, and the path of the endpoint is read as a
query or as a fragment: the Core is asked at its root. -/
theorem endpoint_in_query :
    (sampleAccess (sampleBase ++ ['?'])).validate (parseUrl sampleReader) =
        .ok (sampleAccess (sampleBase ++ ['?'])) ∧
      (Uri.read sampleReader (requestUrl (sampleBase ++ ['?']) 7)).map
          (fun uri ↦ (uri.escapedPath, uri.rawQuery)) = some ([], memberPath 7) ∧
      (sampleAccess (sampleBase ++ ['#'])).validate (parseUrl sampleReader) =
        .ok (sampleAccess (sampleBase ++ ['#'])) ∧
      (Uri.read sampleReader (requestUrl (sampleBase ++ ['#']) 7)).map
          (fun uri ↦ (uri.escapedPath, uri.fragment)) = some ([], memberPath 7) := by
  refine ⟨?_, ?_, ?_, ?_⟩
  all_goals decide +kernel

end AccessConfig

end QortalRelay
