/-
Which drafts the graph tells apart by their parties.

# Party fields

The registry names the fields of the two sides as each type has them, and
the projection takes a field for that of a party if its name contains
`party`. The two sides of a non-disclosure agreement are such fields, the
client and the provider of a service agreement are not: all service
agreements have one key, and no edges from their parties (`ToldApart`,
`told_apart_iff`).

# Fingerprints

The names of the parties are joined with `|`, which a name may contain.
Without it, and with a party in each draft, the fingerprint says which
names there are (`fingerprint_names`).
-/
import LegalBot.Proofs.DraftedContracts

namespace LegalBot.Memory

open Contracts (ContractType contractTypes fieldText)
open Json (getMember)
open Programs

-- ============================================================== statements

/-- The required fields that hold the legal names of the two sides. -/
def contractingFields (ct : ContractType) : List String :=
  (ct.requiredFields.filter fun f =>
    startsWith f.description "Legal name of").map (·.name)

example : contractingFields Contracts.nda
    = ["disclosing_party", "receiving_party"] := by decide +kernel

example : contractingFields Contracts.serviceAgreement
    = ["client_name", "provider_name"] := by decide +kernel

/-- The names of the two sides. -/
def contractingNames (rt : Runtime) (ct : ContractType)
    (values : Attributes) : List String :=
  (contractingFields ct).map (fieldText rt values)

/-- They differ as sets of normalised names. -/
def PartiesDiffer (rt : Runtime) (tx : Texts) (ct : ContractType)
    (values values' : Attributes) : Prop :=
  ¬ ∀ name, name ∈ (contractingNames rt ct values).map (normalizeName tx)
    ↔ name ∈ (contractingNames rt ct values').map (normalizeName tx)

/-- What an entity of that name is kept under. -/
def partyBucket (tx : Texts) (name : String) : EntityType × String :=
  (inferEntityTypeFromName tx name, "name:" ++ normalizeName tx name)

/-- An edge from what is kept under `src` to the party's contract. -/
def GraphProjection.PartyTo (p : GraphProjection)
    (src dst : EntityType × String) : Prop :=
  ∃ e ∈ p.edges, e.relation = .partyTo ∧ e.src = src ∧ e.dst = dst

/-- The contract of the draft is there, and both sides are linked to
it. -/
def ShowsParties (rt : Runtime) (tx : Texts) (ct : ContractType)
    (values : Attributes) (p : GraphProjection) : Prop :=
  p.Holds (.contract, draftKey rt tx ct values)
    ∧ ∀ name ∈ contractingNames rt ct values,
      p.PartyTo (partyBucket tx name) (.contract, draftKey rt tx ct values)

/-- Both bundles are projected, the two contracts have different keys and
show their parties. -/
def ToldApart (rt : Runtime) (tx : Texts) (ct : ContractType)
    (artifacts values artifacts' values' : Attributes) : Prop :=
  ∃ p p', buildProjectionFromArtifacts rt tx artifacts = .ok p
    ∧ buildProjectionFromArtifacts rt tx artifacts' = .ok p'
    ∧ draftKey rt tx ct values ≠ draftKey rt tx ct values'
    ∧ ShowsParties rt tx ct values p ∧ ShowsParties rt tx ct values' p'

/-- The names in the party fields, normalised. -/
def sideNames (rt : Runtime) (tx : Texts) (values : Attributes) :
    List String :=
  (((partyFields rt tx values).map (·.2)).filter fun name =>
    strip name ≠ "").map (normalizeName tx)

/-- How they stand in a contract's key. -/
def fingerprint (rt : Runtime) (tx : Texts) (values : Attributes) :
    String :=
  "|".intercalate
    ((sideNames rt tx values).dedup.insertionSort (· ≤ ·))

/-- A party field of the draft, or of a request with its key, holds the
name. -/
def InPartyField (rt : Runtime) (tx : Texts) (artifacts : Attributes)
    (ct : ContractType) (values : Attributes) (name : String) : Prop :=
  (∃ field ∈ partyFields rt tx values,
      partyBucket tx field.2 = partyBucket tx name)
    ∨ ∃ report payload,
      getOr artifacts "analysis/report" (.obj []) = .obj report
        ∧ requestPayload rt report = some payload
        ∧ (requestContract rt tx payload).canonicalKey
          = draftKey rt tx ct values
        ∧ ∃ field ∈ requestFields rt tx payload,
          partyBucket tx field.2 = partyBucket tx name

-- =================================================================== edges

section Edges

variable {rt : Runtime} {tx : Texts} {artifacts report draft : Attributes}
  {parts more : List GraphProjection} {src dst : EntityType × String}

theorem partyEntity_bucket {snippets : Bool} {field : String × String} :
    (partyEntity tx snippets field).bucket = partyBucket tx field.2 := by
  unfold ProjectionEntity.bucket partyEntity partyBucket
    inferEntityTypeFromName
  dsimp only
  split <;> rfl

theorem partyTo_append :
    (GraphProjection.concat (parts ++ more)).PartyTo src dst
      ↔ (GraphProjection.concat parts).PartyTo src dst
        ∨ (GraphProjection.concat more).PartyTo src dst := by
  unfold GraphProjection.PartyTo GraphProjection.concat
  simp only [List.flatMap_append, List.mem_append, or_and_right, exists_or]

theorem partyTo_entities (ents : List ProjectionEntity) :
    ¬ (GraphProjection.concat (ents.map entityPart)).PartyTo src dst := by
  rintro ⟨e, he, -⟩
  obtain ⟨part, hpart, he⟩ := List.mem_flatMap.mp he
  obtain ⟨ent, -, rfl⟩ := List.mem_map.mp hpart
  cases he

/-- The links of the parties to a contract. -/
theorem partyTo_links {ents : List ProjectionEntity}
    {contract : ProjectionEntity} :
    (GraphProjection.concat (partyParts ents contract)).PartyTo src dst
      ↔ contract.bucket = dst ∧ ∃ ent ∈ ents, ent.bucket = src := by
  constructor
  · rintro ⟨e, he, -, hsrc, hdst⟩
    obtain ⟨part, hpart, he⟩ := List.mem_flatMap.mp he
    obtain ⟨ent, hent, rfl⟩ := List.mem_map.mp hpart
    rw [List.mem_singleton.mp he] at hsrc hdst
    exact ⟨hdst, ent, hent, hsrc⟩
  · rintro ⟨rfl, ent, hent, rfl⟩
    refine ⟨_, List.mem_flatMap.mpr ⟨_, List.mem_map_of_mem hent,
      List.mem_singleton_self _⟩, rfl, rfl, rfl⟩

/-- The edges of a contract with its parties, and of none besides. -/
theorem partyTo_contract {snippets : Bool}
    {fields : List (String × String)} {contract : ProjectionEntity} :
    (GraphProjection.concat
        ((fields.map (partyEntity tx snippets)).map entityPart
          ++ [entityPart contract]
          ++ partyParts (fields.map (partyEntity tx snippets))
            contract)).PartyTo src dst
      ↔ contract.bucket = dst
        ∧ ∃ field ∈ fields, partyBucket tx field.2 = src := by
  have hone : ¬ (GraphProjection.concat [entityPart contract]).PartyTo
      src dst := partyTo_entities [contract]
  rw [partyTo_append, partyTo_append, partyTo_links]
  simp only [partyTo_entities, hone, false_or, List.mem_map,
    exists_exists_and_eq_and, partyEntity_bucket]

theorem partyTo_flatMap {α : Type} {f : α → List GraphProjection}
    {xs : List α} :
    (GraphProjection.concat (xs.flatMap f)).PartyTo src dst
      ↔ ∃ x ∈ xs, (GraphProjection.concat (f x)).PartyTo src dst := by
  induction xs with
  | nil => simp [GraphProjection.PartyTo, GraphProjection.concat]
  | cons x rest ih =>
      rw [List.flatMap_cons, partyTo_append, ih]
      simp only [List.exists_mem_cons_iff]

/-- An entity, and an edge of another kind. -/
theorem partyTo_added {ent : ProjectionEntity} {edge : ProjectionEdge}
    (h : edge.relation ≠ .partyTo) :
    ¬ (GraphProjection.concat
      [entityPart ent, GraphProjection.empty.edge edge]).PartyTo
        src dst := by
  rintro ⟨e, he, hrelation, -⟩
  have he : e = edge := List.mem_singleton.mp he
  exact h (he ▸ hrelation)

theorem partyTo_nil :
    ¬ (GraphProjection.concat []).PartyTo src dst := by
  rintro ⟨e, he, -⟩
  cases he

theorem partyTo_extracted :
    ¬ (GraphProjection.concat
      (artifacts.flatMap (extractedParts rt tx))).PartyTo src dst := by
  rw [partyTo_flatMap]
  rintro ⟨⟨file, content⟩, -, h⟩
  unfold extractedParts at h
  split at h
  · split at h
    · obtain ⟨raw, -, h⟩ := partyTo_flatMap.mp h
      unfold entryParts at h
      split at h
      · exact partyTo_nil h
      · exact partyTo_added (by simp) h
    · exact partyTo_nil h
  · exact partyTo_nil h

theorem partyTo_intention :
    ¬ (GraphProjection.concat
      (intentionParts rt tx report)).PartyTo src dst := by
  unfold intentionParts
  simp only
  split
  · exact partyTo_nil
  · exact partyTo_added (by simp)

theorem partyTo_request :
    (GraphProjection.concat (requestParts rt tx report)).PartyTo src dst
      ↔ ∃ payload, requestPayload rt report = some payload
        ∧ (requestContract rt tx payload).bucket = dst
        ∧ ∃ field ∈ requestFields rt tx payload,
          partyBucket tx field.2 = src := by
  unfold requestParts
  cases requestPayload rt report with
  | none =>
      refine ⟨fun h => absurd h partyTo_nil, ?_⟩
      rintro ⟨payload, ⟨⟩, -⟩
  | some payload =>
      simp only [Option.some.injEq, exists_eq_left']
      split
      · have hreference : ¬ (GraphProjection.concat
            [GraphProjection.empty.linkEmail (requestContract rt tx payload)
              .references]).PartyTo src dst := by
          rintro ⟨e, he, hrelation, -⟩
          rw [List.mem_singleton.mp he] at hrelation
          cases hrelation
        rw [partyTo_append, partyTo_contract, or_iff_left hreference]
      · rename_i hnone
        have hfields : requestFields rt tx payload = [] := by
          by_contra hne
          exact hnone (.inl (by simpa using hne))
        rw [hfields]
        refine ⟨fun h => absurd h partyTo_nil, ?_⟩
        rintro ⟨-, field, hfield, -⟩
        cases hfield

theorem partyTo_draft :
    (GraphProjection.concat (draftParts rt tx draft)).PartyTo src dst
      ↔ (draftContract rt tx draft).bucket = dst
        ∧ ∃ field ∈ draftFields rt tx draft,
          partyBucket tx field.2 = src := by
  have hgoverned : ¬ (GraphProjection.concat
      (jurisdictionParts rt tx draft)).PartyTo src dst := by
    unfold jurisdictionParts
    simp only
    split
    · exact partyTo_added (by simp)
    · exact partyTo_nil
  unfold draftParts
  simp only
  rw [partyTo_append, partyTo_contract, or_iff_left hgoverned]

end Edges

-- ================================================================== drafts

section Drafts

variable {rt : Runtime} {tx : Texts} {ct : ContractType}
  {artifacts values draft : Attributes} {name : String}

/-- Which names are linked to the contract of a draft. -/
theorem linked_iff
    (hstored : getMember artifacts "contracts/draft" = some (.obj draft))
    (hfilled : Filled rt ct values draft) :
    (mergeProjections .empty
        (.concat (artifactParts rt tx artifacts))).PartyTo
          (partyBucket tx name) (.contract, draftKey rt tx ct values)
      ↔ InPartyField rt tx artifacts ct values name := by
  have hdraft : (draftContract rt tx draft).bucket
      = (.contract, draftKey rt tx ct values) := by
    rw [hfilled.contract_eq]
    rfl
  have hfields : draftFields rt tx draft = partyFields rt tx values := by
    rw [draftFields, hfilled.values_eq]
  have hreport : (GraphProjection.concat (reportParts rt tx
      (getOr artifacts "analysis/report" (.obj [])))).PartyTo
        (partyBucket tx name) (.contract, draftKey rt tx ct values)
      ↔ ∃ report payload,
        getOr artifacts "analysis/report" (.obj []) = .obj report
          ∧ requestPayload rt report = some payload
          ∧ (requestContract rt tx payload).canonicalKey
            = draftKey rt tx ct values
          ∧ ∃ field ∈ requestFields rt tx payload,
            partyBucket tx field.2 = partyBucket tx name := by
    unfold reportParts
    split
    · rename_i report hreport
      rw [partyTo_append, or_iff_right partyTo_intention, partyTo_request]
      constructor
      · rintro ⟨payload, hpayload, hkey, hfield⟩
        exact ⟨report, payload, hreport, hpayload,
          (Prod.mk.inj hkey).2, hfield⟩
      · rintro ⟨other, payload, hother, hpayload, hkey, hfield⟩
        rw [hreport] at hother
        cases hother
        exact ⟨payload, hpayload, Prod.ext rfl hkey, hfield⟩
    · rename_i hnot
      refine ⟨fun h => absurd h partyTo_nil, ?_⟩
      rintro ⟨report, payload, hreport, -⟩
      exact absurd hreport (hnot report)
  have hedges : (mergeProjections .empty
      (.concat (artifactParts rt tx artifacts))).PartyTo
        (partyBucket tx name) (.contract, draftKey rt tx ct values)
      ↔ (GraphProjection.concat (artifactParts rt tx artifacts)).PartyTo
        (partyBucket tx name) (.contract, draftKey rt tx ct values) :=
    Iff.rfl
  rw [hedges]
  unfold artifactParts InPartyField
  rw [partyTo_append, partyTo_append, or_iff_right partyTo_extracted,
    hreport, hstored]
  unfold contractParts
  rw [partyTo_draft, hfields, or_comm]
  simp only [hdraft, true_and]

/-- The contract of a draft is always there. -/
theorem draft_held
    (hstored : getMember artifacts "contracts/draft" = some (.obj draft))
    (hfilled : Filled rt ct values draft) :
    (mergeProjections .empty
      (.concat (artifactParts rt tx artifacts))).Holds
        (.contract, draftKey rt tx ct values) := by
  have hkept : (mergeProjections .empty
      (.concat (artifactParts rt tx artifacts))).entities.filter
        (fun e => e.bucket = (.contract, draftKey rt tx ct values)) ≠ [] := by
    rw [draft_kept hstored hfilled]
    exact List.cons_ne_nil _ _
  obtain ⟨e, he⟩ := List.exists_mem_of_ne_nil _ hkept
  obtain ⟨hmem, hbucket⟩ := List.mem_filter.mp he
  exact ⟨e, hmem, by simpa using hbucket⟩

/-- Two keys of a type differ by their fingerprints. -/
theorem draftKey_inj {values' : Attributes} :
    draftKey rt tx ct values = draftKey rt tx ct values'
      ↔ fingerprint rt tx values = fingerprint rt tx values' :=
  String.append_right_inj _

/-- Without a party field in either, the keys are equal. -/
theorem same_key_of_none {values' : Attributes}
    (hnone : partyFields rt tx values = [])
    (hnone' : partyFields rt tx values' = []) :
    draftKey rt tx ct values = draftKey rt tx ct values' := by
  unfold draftKey
  rw [hnone, hnone']

/-- A party field holds its own name. -/
theorem inPartyField_own {f : String} (hparty : isPartyFieldName tx f)
    (hgiven : fieldText rt values f ≠ "") :
    InPartyField rt tx artifacts ct values (fieldText rt values f) := by
  refine .inl ⟨(f, fieldText rt values f), ?_, rfl⟩
  unfold fieldText at hgiven ⊢
  cases hfield : getMember values f with
  | none =>
      rw [hfield] at hgiven
      exact absurd rfl hgiven
  | some v =>
      rw [hfield] at hgiven
      exact List.mem_filterMap.mpr ⟨(f, v), Json.getMember_mem hfield,
        if_pos ⟨hparty, hgiven⟩⟩

/-- The two sides of a non-disclosure agreement are in party fields. -/
theorem nda_inPartyField (hlower : tx.LowersAscii)
    (hfilled : Filled rt Contracts.nda values draft) :
    ∀ name ∈ contractingNames rt Contracts.nda values,
      InPartyField rt tx artifacts Contracts.nda values name := by
  have hfields : ∀ f ∈ contractingFields Contracts.nda,
      f ∈ Contracts.nda.fieldNames
        ∧ (f.toList.all fun c => c.toNat < 128) = true
        ∧ contains (String.ofList (f.toList.map Char.toLower)) "party" := by
    decide +kernel
  intro name hname
  obtain ⟨f, hf, rfl⟩ := List.mem_map.mp hname
  obtain ⟨hrequired, hascii, hcontains⟩ := hfields f hf
  refine inPartyField_own ?_ fun hblank => ?_
  · unfold isPartyFieldName
    dsimp only
    rw [lower_of_ascii hlower hascii, hcontains]
    rfl
  · have hmissing : f ∈ Contracts.nda.missingFields rt values :=
      List.mem_filter.mpr ⟨hrequired, decide_eq_true hblank⟩
    rw [hfilled.complete] at hmissing
    cases hmissing

/-- Where no name contains the separator, a fingerprint says which names
there are. -/
theorem fingerprint_names {values' : Attributes}
    (hsome : sideNames rt tx values ≠ [])
    (hsome' : sideNames rt tx values' ≠ [])
    (hplain : ∀ n ∈ sideNames rt tx values, '|' ∉ n.toList)
    (hplain' : ∀ n ∈ sideNames rt tx values', '|' ∉ n.toList)
    (h : fingerprint rt tx values = fingerprint rt tx values')
    (n : String) :
    n ∈ sideNames rt tx values ↔ n ∈ sideNames rt tx values' := by
  have hsplit : ∀ names : List String, names ≠ [] →
      (∀ n ∈ names, '|' ∉ n.toList) →
        ("|".intercalate (names.dedup.insertionSort (· ≤ ·))).toList.splitOn
          '|' = (names.dedup.insertionSort (· ≤ ·)).map String.toList := by
    intro names hne hbar
    rw [String.toList_intercalate]
    refine List.splitOn_intercalate '|' (fun l hl => ?_) fun hnil => hne ?_
    · obtain ⟨n, hn, rfl⟩ := List.mem_map.mp hl
      rw [List.mem_insertionSort, List.mem_dedup] at hn
      exact hbar n hn
    · rw [List.map_eq_nil_iff, ← List.length_eq_zero_iff,
        List.length_insertionSort, List.length_eq_zero_iff] at hnil
      exact (List.dedup_eq_nil names).mp hnil
  have hlists := congrArg (fun s => s.toList.splitOn '|') h
  unfold fingerprint at hlists
  rw [hsplit _ hsome hplain, hsplit _ hsome' hplain'] at hlists
  have hsorted := List.map_injective_iff.mpr (fun _ _ => String.toList_injective)
    hlists
  rw [← List.mem_dedup, ← List.mem_insertionSort (· ≤ ·), hsorted,
    List.mem_insertionSort, List.mem_dedup]

/-- What tells two drafts apart. -/
theorem toldApart_iff {artifacts' values' draft' : Attributes}
    (hstored : getMember artifacts "contracts/draft" = some (.obj draft))
    (hfilled : Filled rt ct values draft)
    (hstored' : getMember artifacts' "contracts/draft"
      = some (.obj draft'))
    (hfilled' : Filled rt ct values' draft') :
    ToldApart rt tx ct artifacts values artifacts' values'
      ↔ Projectable rt artifacts ∧ Projectable rt artifacts'
        ∧ fingerprint rt tx values ≠ fingerprint rt tx values'
        ∧ (∀ name ∈ contractingNames rt ct values,
          InPartyField rt tx artifacts ct values name)
        ∧ ∀ name ∈ contractingNames rt ct values',
          InPartyField rt tx artifacts' ct values' name := by
  constructor
  · rintro ⟨p, p', hp, hp', hkeys, ⟨-, hlinks⟩, -, hlinks'⟩
    have hshape := buildProjection_succeeds.mp ⟨p, hp⟩
    have hshape' := buildProjection_succeeds.mp ⟨p', hp'⟩
    rw [buildProjection_eq hshape] at hp
    rw [buildProjection_eq hshape'] at hp'
    cases hp
    cases hp'
    exact ⟨hshape, hshape', mt draftKey_inj.mpr hkeys,
      fun name hname => (linked_iff hstored hfilled).mp (hlinks name hname),
      fun name hname =>
        (linked_iff hstored' hfilled').mp (hlinks' name hname)⟩
  · rintro ⟨hshape, hshape', hkeys, hnames, hnames'⟩
    exact ⟨_, _, buildProjection_eq hshape, buildProjection_eq hshape',
      mt draftKey_inj.mp hkeys,
      ⟨draft_held hstored hfilled, fun name hname =>
        (linked_iff hstored hfilled).mpr (hnames name hname)⟩,
      draft_held hstored' hfilled', fun name hname =>
        (linked_iff hstored' hfilled').mpr (hnames' name hname)⟩

/-- Non-disclosure agreements are told apart by names that do not contain
the separator. -/
theorem nda_toldApart {artifacts' values' draft' : Attributes}
    (hlower : tx.LowersAscii)
    (hstored : getMember artifacts "contracts/draft" = some (.obj draft))
    (hfilled : Filled rt Contracts.nda values draft)
    (hstored' : getMember artifacts' "contracts/draft"
      = some (.obj draft'))
    (hfilled' : Filled rt Contracts.nda values' draft')
    (hshape : Projectable rt artifacts) (hshape' : Projectable rt artifacts')
    (hplain : ∀ n ∈ sideNames rt tx values, '|' ∉ n.toList)
    (hplain' : ∀ n ∈ sideNames rt tx values', '|' ∉ n.toList)
    (hsome : sideNames rt tx values ≠ [])
    (hsome' : sideNames rt tx values' ≠ [])
    (hdiffer : ¬ ∀ n, n ∈ sideNames rt tx values
      ↔ n ∈ sideNames rt tx values') :
    ToldApart rt tx Contracts.nda artifacts values artifacts' values' :=
  (toldApart_iff hstored hfilled hstored' hfilled').mpr
    ⟨hshape, hshape', fun h => hdiffer
        (fingerprint_names hsome hsome' hplain hplain' h),
      nda_inPartyField hlower hfilled, nda_inPartyField hlower hfilled'⟩

end Drafts

/-- Two drafts of a type are told apart by their parties exactly where
both bundles can be projected, the names in the party fields have
different fingerprints, and these fields hold the names of both sides. -/
theorem told_apart_iff {rt : Runtime} {tx : Texts} {ct : ContractType}
    {artifacts artifacts' values values' draft draft' : Attributes}
    (hstored : getMember artifacts "contracts/draft" = some (.obj draft))
    (hfilled : Filled rt ct values draft)
    (hstored' : getMember artifacts' "contracts/draft"
      = some (.obj draft'))
    (hfilled' : Filled rt ct values' draft') :
    (PartiesDiffer rt tx ct values values' →
        ToldApart rt tx ct artifacts values artifacts' values')
      ↔ (PartiesDiffer rt tx ct values values' →
        Projectable rt artifacts ∧ Projectable rt artifacts'
          ∧ fingerprint rt tx values ≠ fingerprint rt tx values'
          ∧ (∀ name ∈ contractingNames rt ct values,
            InPartyField rt tx artifacts ct values name)
          ∧ ∀ name ∈ contractingNames rt ct values',
            InPartyField rt tx artifacts' ct values' name) :=
  imp_congr_right fun _ =>
    toldApart_iff hstored hfilled hstored' hfilled'

-- =============================================================== scenarios

theorem ndas_told_apart :
    ToldApart .sample .sample Contracts.nda
      [("contracts/draft", .obj (ndaDraft "Acme Corp." "Beta LLC"))]
      (ndaFields "Acme Corp." "Beta LLC")
      [("contracts/draft", .obj (ndaDraft "Acme Corp." "Delta"))]
      (ndaFields "Acme Corp." "Delta") := by
  have hfilled : Filled .sample Contracts.nda
      (ndaFields "Acme Corp." "Delta") (ndaDraft "Acme Corp." "Delta") :=
    ⟨List.mem_cons_self, by decide +kernel, "text", rfl⟩
  refine (told_apart_iff rfl ndaDraft_filled rfl hfilled).mpr (fun _ => ?_)
    fun hsame => ?_
  · exact ⟨draft_projectable ndaDraft_filled, draft_projectable hfilled,
      by decide +kernel, nda_inPartyField sample_lowersAscii ndaDraft_filled,
      nda_inPartyField sample_lowersAscii hfilled⟩
  · have hmem := (hsame "delta").mpr (by decide +kernel)
    exact absurd hmem (by decide +kernel)

/-- The fields of a services agreement. -/
def serviceFields (client provider : String) : Attributes :=
  [("client_name", .str client), ("provider_name", .str provider),
    ("effective_date", .str "January 1, 2026"),
    ("services_description", .str "bookkeeping"),
    ("fee_amount", .str "USD 5,000"), ("payment_terms", .str "net 30"),
    ("term_months", .int 12), ("governing_law", .str "State of Delaware")]

def serviceDraft (client provider : String) : Attributes :=
  draftContent Contracts.serviceAgreement (serviceFields client provider)
    "text"

/-- Two services agreements, with no one in common. -/
theorem services_not_apart :
    ¬ ∀ artifacts artifacts' values values' draft draft',
      getMember artifacts "contracts/draft" = some (.obj draft) →
        Filled .sample Contracts.serviceAgreement values draft →
        getMember artifacts' "contracts/draft" = some (.obj draft') →
        Filled .sample Contracts.serviceAgreement values' draft' →
        PartiesDiffer .sample .sample Contracts.serviceAgreement values
          values' →
          ToldApart .sample .sample Contracts.serviceAgreement artifacts
            values artifacts' values' := by
  intro h
  have hmissing : ∀ pair ∈ [("Acme", "Beta"), ("Gamma", "Delta")],
      Contracts.serviceAgreement.missingFields .sample
        (serviceFields pair.1 pair.2) = [] := by decide +kernel
  have hdiffer : PartiesDiffer .sample .sample Contracts.serviceAgreement
      (serviceFields "Acme" "Beta") (serviceFields "Gamma" "Delta") := by
    intro hsame
    have hmem := (hsame "acme").mp (by decide +kernel)
    exact absurd hmem (by decide +kernel)
  obtain ⟨p, p', -, -, hkeys, -⟩ := h
    [("contracts/draft", .obj (serviceDraft "Acme" "Beta"))]
    [("contracts/draft", .obj (serviceDraft "Gamma" "Delta"))]
    (serviceFields "Acme" "Beta") (serviceFields "Gamma" "Delta") _ _ rfl
    ⟨List.mem_cons_of_mem _ List.mem_cons_self,
      hmissing ("Acme", "Beta") (by decide), "text", rfl⟩ rfl
    ⟨List.mem_cons_of_mem _ List.mem_cons_self,
      hmissing ("Gamma", "Delta") (by decide), "text", rfl⟩
    hdiffer
  exact hkeys (same_key_of_none (by decide +kernel) (by decide +kernel))

end LegalBot.Memory
