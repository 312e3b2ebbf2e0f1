import QortalRelay.Foundation.Decimal
import QortalRelay.Relay.Start

/-!
# The revision of an access policy

The tickets of a relay are bound to a revision of its access policy, the hash of a JSON text with
the mode and the groups of the checked configuration. Checking sorts the groups, so the revision is
a function of their set (`revision_eq_iff`): neither their order in the file nor the Core URLs
matter.
-/

set_option autoImplicit false
set_option relaxedAutoImplicit false

namespace QortalRelay.AccessConfig

open Foundation Decimal Encoding Binary

/-- The number of a group as JSON. -/
def groupText (id : Int32) : Text := formatInt id.toInt

/-- The JSON text of a mode and groups. For a policy without groups the list may also be written as
null; such a policy issues no tickets. -/
def documentText (mode : Text) (ids : List Int32) : Text :=
  "\x7b\"Mode\":".toList ++ quote mode ++ ",\"Groups\":".toList ++
    (array groupText ids ++ "\x7d".toList)

/-- The JSON text that the revision is the hash of. -/
def document (policy : AccessConfig) : Text := documentText policy.mode policy.allowedGroupIds

/-- The revision of the access policy that tickets are bound to. -/
def revision (sha256 : Bytes → Bytes) (policy : AccessConfig) : Text :=
  hexEncode (sha256 (utf8 policy.document))

theorem groupText_injective : Function.Injective groupText :=
  formatInt_injective.comp fun _ _ ↦ Int32.toInt_inj.mp

theorem readable_groups : Readable (array groupText) := by
  refine readable_array_of_clean groupText_injective (fun id hnil ↦ ?_) fun id c hc ↦ ?_
  · have hneg : ∀ n : ℤ, formatInt n ≠ [] := by
      intro n hn
      rw [formatInt] at hn
      split_ifs at hn
      · exact Nat.toDigits_ne_nil hn
    exact hneg _ hnil
  · rcases isDigit_of_mem_formatInt hc with hdigit | rfl
    · rw [Bool.eq_false_iff]
      intro hstop
      rw [Bool.or_eq_true, beq_iff_eq, beq_iff_eq] at hstop
      rcases hstop with rfl | rfl
      · exact absurd hdigit (by decide)
      · exact absurd hdigit (by decide)
    · decide

/-- The document names the mode and the groups in their order. -/
theorem documentText_injective {mode mode' : Text} {ids ids' : List Int32}
    (h : documentText mode ids = documentText mode' ids') : mode = mode' ∧ ids = ids' := by
  obtain ⟨hmode, htail⟩ :=
    readable_quote.enclose "\x7b\"Mode\":".toList ",\"Groups\":".toList _ _ _ _ h
  exact ⟨hmode, (readable_groups _ _ _ _ htail).1⟩

/-! ### The order of the groups -/

section Groups

variable {parseUrl parseUrl' : Text → Option Url} {config config' policy policy' : AccessConfig}

theorem pairwise_of_ofPolicy (h : config.ofPolicy parseUrl = .ok policy) :
    policy.allowedGroupIds.Pairwise fun a b ↦ a.toInt ≤ b.toInt := by
  unfold ofPolicy at h
  split_ifs at h
  · exact pairwise_of_validate h
  · exact pairwise_of_validate h

/-- Two checked lists of groups are equal if they are of one set. -/
theorem allowedGroupIds_eq_iff (h : config.ofPolicy parseUrl = .ok policy)
    (h' : config'.ofPolicy parseUrl' = .ok policy') :
    policy.allowedGroupIds = policy'.allowedGroupIds ↔
      ∀ id, id ∈ config.allowedGroupIds ↔ id ∈ config'.allowedGroupIds := by
  obtain ⟨hsound, hperm, -⟩ := mode_ofPolicy h
  obtain ⟨hsound', hperm', -⟩ := mode_ofPolicy h'
  have hset : (∀ id, id ∈ config.allowedGroupIds ↔ id ∈ config'.allowedGroupIds) ↔
      policy.allowedGroupIds.Perm policy'.allowedGroupIds := by
    rw [List.perm_ext_iff_of_nodup hsound.nodup hsound'.nodup]
    simp only [hperm.mem_iff, hperm'.mem_iff]
  rw [hset]
  constructor
  · exact fun heq ↦ heq ▸ List.Perm.refl _
  · refine List.Perm.eq_of_pairwise (fun a b _ _ hab hba ↦ ?_) (pairwise_of_ofPolicy h)
      (pairwise_of_ofPolicy h')
    exact Int32.toInt_inj.mp (le_antisymm hab hba)

/-- Assumes: two configurations of groups that are accepted, and no collision of the hash between
their documents. They have one revision exactly if they list the same groups. -/
theorem revision_eq_iff {sha256 : Bytes → Bytes} (h : config.ofPolicy parseUrl = .ok policy)
    (h' : config'.ofPolicy parseUrl' = .ok policy') (hmode : config.mode = groupsMode)
    (hmode' : config'.mode = groupsMode)
    (hsha : sha256 (utf8 policy.document) = sha256 (utf8 policy'.document) →
      utf8 policy.document = utf8 policy'.document) :
    policy.revision sha256 = policy'.revision sha256 ↔
      ∀ id, id ∈ config.allowedGroupIds ↔ id ∈ config'.allowedGroupIds := by
  rw [← allowedGroupIds_eq_iff h h']
  constructor
  · intro heq
    exact (documentText_injective (utf8_injective (hsha (hexEncode_injective heq)))).2
  · intro heq
    obtain ⟨-, -, hpolicy⟩ := mode_ofPolicy h
    obtain ⟨-, -, hpolicy'⟩ := mode_ofPolicy h'
    have hne : groupsMode ≠ [] := by decide
    have hsame : policy.mode = policy'.mode := by
      rw [hpolicy (hmode ▸ hne), hpolicy' (hmode' ▸ hne), hmode, hmode']
    have hdocument : policy.document = policy'.document := by
      rw [document, document, hsame, heq]
    rw [revision, revision, hdocument]

end Groups

/-- Two orders of the groups and two Core URLs, of which every text is one. -/
theorem revision_eq_iff_sample :
    let parseUrl : Text → Option Url := fun _ ↦ some ⟨"https".toList, ['h'], false, [], []⟩
    ofPolicy parseUrl ⟨groupsMode, [300, 7], [['a', '/']]⟩ = .ok ⟨groupsMode, [7, 300], [['a']]⟩ ∧
      ofPolicy parseUrl ⟨groupsMode, [7, 300], [['b']]⟩ = .ok ⟨groupsMode, [7, 300], [['b']]⟩ ∧
      revision id ⟨groupsMode, [7, 300], [['a']]⟩ =
        revision id ⟨groupsMode, [7, 300], [['b']]⟩ := by
  intro parseUrl
  have hfirst : ofPolicy parseUrl ⟨groupsMode, [300, 7], [['a', '/']]⟩ =
      .ok ⟨groupsMode, [7, 300], [['a']]⟩ := by decide +kernel
  have hsecond : ofPolicy parseUrl ⟨groupsMode, [7, 300], [['b']]⟩ =
      .ok ⟨groupsMode, [7, 300], [['b']]⟩ := by decide +kernel
  refine ⟨hfirst, hsecond, (revision_eq_iff hfirst hsecond rfl rfl ?_).mpr fun id ↦ ?_⟩
  · simp only [id_eq, imp_self]
  · simp [or_comm]

end QortalRelay.AccessConfig
