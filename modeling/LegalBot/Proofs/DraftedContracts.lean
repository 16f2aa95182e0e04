/-
The contract that a projection shows for a draft.

# One key, two sources

A report that asks for a contract and the draft of a contract are each
projected to a contract, under the type and the names in the party fields
of each. The report comes first, and what is kept of a key is its first
entity. So the draft is shown unless the report asks for a contract that
has its key (`Hidden`): then the graph goes on calling it requested.
-/
import LegalBot.Memory.Parts
import LegalBot.Proofs.ContractDrafts

namespace LegalBot.Memory

open Contracts (ContractType contractTypes)
open Json (getMember truthy)
open Programs
open Raising (run)
open Tools (ToolEnv ToolState Caller draftArgs WritesDraft
  fillContractTemplate)

-- ============================================================== statements

/-- What `fill_contract_template` stores. -/
def draftContent (ct : ContractType) (values : Attributes)
    (markdown : String) : Attributes :=
  [("contract_type", .str ct.typeId), ("display_name", .str ct.displayName),
    ("field_values", .obj values), ("markdown", .str markdown)]

/-- A draft of a supported type with values for all its fields. -/
structure Filled (rt : Runtime) (ct : ContractType)
    (values draft : Attributes) : Prop where
  supported : ct ∈ contractTypes
  complete : ct.missingFields rt values = []
  content : ∃ markdown, draft = draftContent ct values markdown

/-- The key of a draft: its type and the names in its party fields. -/
def draftKey (rt : Runtime) (tx : Texts) (ct : ContractType)
    (values : Attributes) : String :=
  contractCanonicalKey tx ct.typeId ((partyFields rt tx values).map (·.2))

/-- The one contract under the key of the draft is the draft. -/
def ShowsDraft (rt : Runtime) (tx : Texts) (ct : ContractType)
    (values : Attributes) (p : GraphProjection) : Prop :=
  ∃ e, p.entities.filter
      (fun e => e.bucket = (.contract, draftKey rt tx ct values)) = [e]
    ∧ e.canonicalName = ct.displayName
    ∧ getMember e.attributes "status" = some (.str "draft")
    ∧ getMember e.attributes "field_values" = some (.obj values)

/-- The report asks for a contract under the key. -/
def Hidden (rt : Runtime) (tx : Texts) (artifacts : Attributes)
    (key : String) : Prop :=
  ∃ report payload,
    getOr artifacts "analysis/report" (.obj []) = .obj report
      ∧ requestPayload rt report = some payload
      ∧ (requestContract rt tx payload).canonicalKey = key

-- ================================================================== drafts

section Drafts

variable {rt : Runtime} {tx : Texts} {ct : ContractType}
  {values draft : Attributes}

/-- What the tool writes is a filled draft. -/
theorem writes_filled {env : ToolEnv} {caller : Caller}
    {t markdown : String} {s s' : ToolState} {result : Json}
    {row : Artifact}
    (hrun : run (fillContractTemplate env caller t values) s
      = (.ok result, s'))
    (h : WritesDraft env caller t values s s' ct markdown row) :
    ∃ draft, (draftArgs caller ct values markdown).content
        = .value (.obj draft) ∧ Filled env.rt ct values draft := by
  obtain ⟨hct, heffects, -⟩ := h
  refine ⟨_, rfl, Tools.mem_contractTypes hct, ?_, markdown, rfl⟩
  by_contra hmissing
  rw [Tools.run_fill_missing hct hmissing] at hrun
  rw [← (Prod.mk.inj hrun).2] at heffects
  simpa using congrArg List.length heffects

/-- The types are what they are called. -/
theorem contractTypes_texts (h : ct ∈ contractTypes) :
    ct.typeId ≠ "" ∧ strip ct.typeId = ct.typeId
      ∧ ct.displayName ≠ "" ∧ strip ct.displayName = ct.displayName := by
  have hall : ∀ ct ∈ contractTypes,
      ct.typeId ≠ "" ∧ strip ct.typeId = ct.typeId
        ∧ ct.displayName ≠ "" ∧ strip ct.displayName = ct.displayName := by
    decide +kernel
  exact hall ct h

theorem getOr_str {d : Attributes} {k s : String} {default : Json}
    (h : getMember d k = some (.str s)) (hs : s ≠ "") :
    getOr d k default = .str s := by
  unfold getOr
  rw [h]
  simp [truthy, hs]

theorem Filled.values_eq (h : Filled rt ct values draft) :
    draftValues draft = values := by
  obtain ⟨markdown, rfl⟩ := h.content
  unfold draftValues getOr
  rw [show getMember (draftContent ct values markdown) "field_values"
    = some (.obj values) from rfl]
  cases values <;> rfl

theorem Filled.type_eq (h : Filled rt ct values draft) :
    draftType rt draft = ct.typeId := by
  obtain ⟨hne, hstrip, -⟩ := contractTypes_texts h.supported
  obtain ⟨markdown, rfl⟩ := h.content
  unfold draftType
  rw [getOr_str (s := ct.typeId) rfl hne]
  exact hstrip

theorem Filled.contract_eq (h : Filled rt ct values draft) :
    draftContract rt tx draft =
      { entityType := .contract
        canonicalKey := draftKey rt tx ct values
        canonicalName := ct.displayName
        attributes := [("contract_type", .str ct.typeId),
          ("parties", .arr
            (((partyFields rt tx values).map (·.2)).map .str)),
          ("field_values", .obj values), ("status", .str "draft")]
        aliases := [], snippet := none, confidence := 95 / 100
        origin := "artifact" } := by
  obtain ⟨-, -, hne, hstrip⟩ := contractTypes_texts h.supported
  have hname : strip (strOf rt (getOr draft "display_name"
      (.str (draftType rt draft)))) = ct.displayName := by
    obtain ⟨markdown, rfl⟩ := h.content
    rw [getOr_str (s := ct.displayName) rfl hne]
    exact hstrip
  unfold draftContract draftFields
  rw [hname, h.type_eq, h.values_eq]
  rfl

/-- A bundle of a draft alone. -/
theorem draft_projectable (h : Filled rt ct values draft) :
    Projectable rt [("contracts/draft", .obj draft)] := by
  refine ⟨?_, ?_, ?_⟩
  · intro a ha content _ hkey
    rw [List.mem_singleton.mp ha] at hkey
    have hkey : startsWith "contracts/draft" "extracted_data/" := hkey
    exact absurd hkey (by decide +kernel)
  · rintro report payload ⟨⟩ ⟨⟩
  · rintro draft ⟨⟩
    obtain ⟨markdown, rfl⟩ := h.content
    unfold getOr
    rw [show getMember (draftContent ct values markdown) "field_values"
      = some (.obj values) from rfl]
    dsimp only
    split <;> trivial

end Drafts

-- =============================================================== contracts

/-- The contracts of some parts. -/
def contractsOf (parts : List GraphProjection) : List ProjectionEntity :=
  (GraphProjection.concat parts).entities.filter
    (·.entityType = .contract)

section Contracts

variable {rt : Runtime} {tx : Texts} {artifacts report draft : Attributes}
  {parts more : List GraphProjection} {key : String}

theorem contractsOf_append :
    contractsOf (parts ++ more) = contractsOf parts ++ contractsOf more := by
  unfold contractsOf GraphProjection.concat
  rw [List.flatMap_append, List.filter_append]

theorem partyEntity_type {snippets : Bool} {field : String × String} :
    (partyEntity tx snippets field).entityType ≠ .contract := by
  unfold partyEntity inferEntityTypeFromName
  dsimp only
  split <;> simp

theorem contractsOf_parties {snippets : Bool}
    {fields : List (String × String)} :
    contractsOf ((fields.map (partyEntity tx snippets)).map entityPart)
      = [] := by
  refine List.filter_eq_nil_iff.mpr fun e he => ?_
  obtain ⟨part, hpart, he⟩ := List.mem_flatMap.mp he
  obtain ⟨ent, hent, rfl⟩ := List.mem_map.mp hpart
  obtain ⟨field, -, rfl⟩ := List.mem_map.mp hent
  rw [List.mem_singleton.mp he]
  simpa using partyEntity_type

theorem contractsOf_links {ents : List ProjectionEntity}
    {contract : ProjectionEntity} :
    contractsOf (partyParts ents contract) = [] := by
  refine List.filter_eq_nil_iff.mpr fun e he => ?_
  obtain ⟨part, hpart, he⟩ := List.mem_flatMap.mp he
  obtain ⟨ent, -, rfl⟩ := List.mem_map.mp hpart
  exact absurd he List.not_mem_nil

theorem contractsOf_entity {ent : ProjectionEntity}
    (h : ent.entityType = .contract) : contractsOf [entityPart ent] = [ent] :=
  List.filter_cons_of_pos (by simpa using h)

/-- The parties come before the contract, their links after it. -/
theorem contractsOf_contract {snippets : Bool}
    {fields : List (String × String)} {contract : ProjectionEntity}
    (h : contract.entityType = .contract) :
    contractsOf ((fields.map (partyEntity tx snippets)).map entityPart
      ++ [entityPart contract]
      ++ partyParts (fields.map (partyEntity tx snippets)) contract)
      = [contract] := by
  rw [contractsOf_append, contractsOf_append, contractsOf_parties,
    contractsOf_entity h, contractsOf_links]
  rfl

theorem contractsOf_draft :
    contractsOf (draftParts rt tx draft) = [draftContract rt tx draft] := by
  unfold draftParts
  simp only
  rw [contractsOf_append, contractsOf_contract rfl]
  unfold jurisdictionParts
  simp only
  split <;> rfl

theorem contractsOf_intention :
    contractsOf (intentionParts rt tx report) = [] := by
  unfold intentionParts
  simp only
  split <;> rfl

/-- A contract of the report is the one it asks for. -/
theorem contractsOf_request {e : ProjectionEntity}
    (he : e ∈ contractsOf (requestParts rt tx report)) :
    ∃ payload, requestPayload rt report = some payload
      ∧ e = requestContract rt tx payload := by
  unfold requestParts at he
  cases hpayload : requestPayload rt report with
  | none =>
      rw [hpayload] at he
      cases he
  | some payload =>
      simp only [hpayload] at he
      split at he
      · rw [contractsOf_append, contractsOf_contract rfl] at he
        exact ⟨payload, rfl, List.mem_singleton.mp he⟩
      · cases he

/-- It is there, unless it has neither a type nor a party. -/
theorem request_mem {payload : Attributes}
    (hpayload : requestPayload rt report = some payload)
    (hasked : requestFields rt tx payload ≠ []
      ∨ requestType rt payload ≠ "") :
    requestContract rt tx payload
      ∈ contractsOf (requestParts rt tx report) := by
  unfold requestParts
  rw [hpayload]
  dsimp only
  rw [if_pos (by simpa using hasked), contractsOf_append,
    contractsOf_contract rfl]
  exact List.mem_append_left _ (List.mem_singleton_self _)

/-- An entry that is a contract names neither type nor parties. -/
theorem contractsOf_extracted {e : ProjectionEntity}
    (he : e ∈ contractsOf (artifacts.flatMap (extractedParts rt tx))) :
    e.canonicalKey = contractCanonicalKey tx "unknown" [] := by
  obtain ⟨hmem, htype⟩ := List.mem_filter.mp he
  have htype : e.entityType = .contract := by simpa using htype
  obtain ⟨part, hpart, he⟩ := List.mem_flatMap.mp hmem
  obtain ⟨⟨file, content⟩, -, hpart⟩ := List.mem_flatMap.mp hpart
  unfold extractedParts at hpart
  split at hpart
  · split at hpart
    · obtain ⟨raw, -, hpart⟩ := List.mem_flatMap.mp hpart
      unfold entryParts at hpart
      split at hpart
      · cases hpart
      · rename_i etype name _
        rcases List.mem_cons.mp hpart with rfl | hpart
        · have hent := List.mem_singleton.mp he
          rw [hent] at htype ⊢
          have htype : etype = .contract := htype
          subst htype
          rfl
        · rw [List.mem_singleton.mp hpart] at he
          cases he
    · cases hpart
  · cases hpart

/-- What is kept under a contract's key. -/
theorem contract_kept :
    (mergeProjections .empty (.concat parts)).entities.filter
        (fun e => e.bucket = (.contract, key))
      = ((contractsOf parts).find? (·.canonicalKey = key)).toList := by
  rw [kept_under]
  unfold contractsOf
  rw [List.find?_filter]
  simp only [ProjectionEntity.bucket, Prod.mk.injEq, Bool.decide_and,
    decide_eq_true_eq]

/-- `str.lower` on a text that is seen to be ASCII. -/
theorem lower_of_ascii (hlower : tx.LowersAscii) {s : String}
    (h : (s.toList.all fun c => c.toNat < 128) = true) :
    tx.lower s = String.ofList (s.toList.map Char.toLower) :=
  hlower s fun c hc => of_decide_eq_true (List.all_eq_true.mp h c hc)

/-- The type of a draft is part of its key. -/
theorem draftKey_ne {ct : ContractType} {values : Attributes}
    {names : List String} (hlower : tx.LowersAscii)
    (hct : ct ∈ contractTypes) :
    contractCanonicalKey tx "unknown" names ≠ draftKey rt tx ct values := by
  have hall : ∀ type ∈ ["unknown", "nda", "service_agreement"],
      type ≠ "" ∧ tx.lower (strip type) = type := by
    intro type htype
    have hascii : ∀ type ∈ ["unknown", "nda", "service_agreement"],
        type ≠ ""
          ∧ ((strip type).toList.all fun c => c.toNat < 128) = true
          ∧ String.ofList ((strip type).toList.map Char.toLower)
            = type := by decide +kernel
    obtain ⟨hne, hchars, htext⟩ := hascii type htype
    exact ⟨hne, (lower_of_ascii hlower hchars).trans htext⟩
  have hids : ct.typeId ∈ ["nda", "service_agreement"] := by
    rcases List.mem_pair.mp hct with rfl | rfl <;> decide
  intro h
  unfold draftKey contractCanonicalKey at h
  rw [if_neg (hall "unknown" (by simp)).1,
    if_neg (hall ct.typeId (List.mem_cons_of_mem _ hids)).1,
    (hall "unknown" (by simp)).2,
    (hall ct.typeId (List.mem_cons_of_mem _ hids)).2] at h
  have hchars := congrArg String.toList h
  simp only [List.mem_cons, List.not_mem_nil, or_false] at hids
  rcases hids with hid | hid <;> simp [hid] at hchars

/-- A request without a type and parties has the key of no draft. -/
theorem request_asked {ct : ContractType} {values payload : Attributes}
    (hlower : tx.LowersAscii) (hct : ct ∈ contractTypes)
    (hkey : (requestContract rt tx payload).canonicalKey
      = draftKey rt tx ct values) :
    requestFields rt tx payload ≠ [] ∨ requestType rt payload ≠ "" := by
  by_contra hnot
  obtain ⟨hfields, htype⟩ := not_or.mp hnot
  have hunknown : (requestContract rt tx payload).canonicalKey
      = contractCanonicalKey tx "unknown" [] := by
    unfold requestContract
    dsimp only
    rw [not_not.mp hfields, not_not.mp htype]
    rfl
  exact draftKey_ne hlower hct (hunknown.symm.trans hkey)

/-- The contracts before the draft. -/
def earlier (rt : Runtime) (tx : Texts) (artifacts : Attributes) :
    List ProjectionEntity :=
  contractsOf (artifacts.flatMap (extractedParts rt tx)
    ++ reportParts rt tx (getOr artifacts "analysis/report" (.obj [])))

/-- One that has the draft's key is what the report asks for. -/
theorem earlier_request {ct : ContractType} {values : Attributes}
    {e : ProjectionEntity} (hlower : tx.LowersAscii)
    (hct : ct ∈ contractTypes) (he : e ∈ earlier rt tx artifacts)
    (hkey : e.canonicalKey = draftKey rt tx ct values) :
    ∃ report payload,
      getOr artifacts "analysis/report" (.obj []) = .obj report
        ∧ requestPayload rt report = some payload
        ∧ e = requestContract rt tx payload := by
  unfold earlier at he
  rw [contractsOf_append] at he
  rcases List.mem_append.mp he with he | he
  · rw [contractsOf_extracted he] at hkey
    exact absurd hkey (draftKey_ne hlower hct)
  · unfold reportParts at he
    split at he
    · rename_i report hreport
      rw [contractsOf_append, contractsOf_intention] at he
      obtain ⟨payload, hpayload, hent⟩ := contractsOf_request he
      exact ⟨report, payload, hreport, hpayload, hent⟩
    · cases he

theorem hidden_mem {ct : ContractType} {values : Attributes}
    (hlower : tx.LowersAscii) (hct : ct ∈ contractTypes)
    (h : Hidden rt tx artifacts (draftKey rt tx ct values)) :
    ∃ e ∈ earlier rt tx artifacts,
      e.canonicalKey = draftKey rt tx ct values := by
  obtain ⟨report, payload, hreport, hpayload, hkey⟩ := h
  refine ⟨requestContract rt tx payload, ?_, hkey⟩
  unfold earlier
  rw [hreport, contractsOf_append]
  unfold reportParts
  rw [contractsOf_append]
  exact List.mem_append_right _ (List.mem_append_right _
    (request_mem hpayload (request_asked hlower hct hkey)))

/-- What is kept under the key of a draft. -/
theorem draft_kept {ct : ContractType} {values : Attributes}
    (hstored : getMember artifacts "contracts/draft" = some (.obj draft))
    (hfilled : Filled rt ct values draft) :
    (mergeProjections .empty
        (.concat (artifactParts rt tx artifacts))).entities.filter
          (fun e => e.bucket = (.contract, draftKey rt tx ct values))
      = [((earlier rt tx artifacts).find?
          (·.canonicalKey = draftKey rt tx ct values)).getD
            (draftContract rt tx draft)] := by
  rw [contract_kept]
  unfold artifactParts
  rw [contractsOf_append, List.find?_append, hstored]
  unfold contractParts
  rw [contractsOf_draft, List.find?_cons_of_pos
    (by simp [hfilled.contract_eq])]
  unfold earlier
  cases List.find? _ _ <;> rfl

end Contracts

/-- A projection shows the draft exactly where it can be built and the
report asks for no contract under the draft's key. -/
theorem draft_shown_iff {rt : Runtime} {tx : Texts} {ct : ContractType}
    {artifacts values draft : Attributes} (hlower : tx.LowersAscii)
    (hstored : getMember artifacts "contracts/draft" = some (.obj draft))
    (hfilled : Filled rt ct values draft) :
    (∃ p, buildProjectionFromArtifacts rt tx artifacts = .ok p
      ∧ ShowsDraft rt tx ct values p)
      ↔ Projectable rt artifacts
        ∧ ¬ Hidden rt tx artifacts (draftKey rt tx ct values) := by
  constructor
  · rintro ⟨p, hp, e, hone, -, hstatus, -⟩
    have hshape := buildProjection_succeeds.mp ⟨p, hp⟩
    refine ⟨hshape, fun hhidden => ?_⟩
    rw [buildProjection_eq hshape] at hp
    cases hp
    rw [draft_kept hstored hfilled] at hone
    obtain ⟨found, hfound, hkey⟩ :=
      hidden_mem hlower hfilled.supported hhidden
    have hsome : ((earlier rt tx artifacts).find?
        (·.canonicalKey = draftKey rt tx ct values)).isSome :=
      List.find?_isSome.mpr ⟨found, hfound, decide_eq_true hkey⟩
    obtain ⟨first, hfirst⟩ := Option.isSome_iff_exists.mp hsome
    rw [hfirst] at hone
    have hsame : first = e := (List.cons.inj hone).1
    subst hsame
    obtain ⟨report, payload, -, -, rfl⟩ := earlier_request hlower
      hfilled.supported (List.mem_of_find?_eq_some hfirst)
      (by simpa using List.find?_some hfirst)
    have hrequested : some (Json.str "requested") = some (.str "draft") :=
      hstatus
    simp at hrequested
  · rintro ⟨hshape, hnot⟩
    have hnone : (earlier rt tx artifacts).find?
        (·.canonicalKey = draftKey rt tx ct values) = none := by
      refine List.find?_eq_none.mpr fun e he hkey => hnot ?_
      have hkey : e.canonicalKey = draftKey rt tx ct values := by
        simpa using hkey
      obtain ⟨report, payload, hreport, hpayload, rfl⟩ :=
        earlier_request hlower hfilled.supported he hkey
      exact ⟨report, payload, hreport, hpayload, hkey⟩
    refine ⟨_, buildProjection_eq hshape, draftContract rt tx draft, ?_⟩
    rw [draft_kept hstored hfilled, hnone, hfilled.contract_eq]
    exact ⟨rfl, rfl, rfl, rfl⟩

-- =============================================================== scenarios

/-- The fields of a non-disclosure agreement. -/
def ndaFields (disclosing receiving : String) : Attributes :=
  [("disclosing_party", .str disclosing),
    ("receiving_party", .str receiving),
    ("effective_date", .str "January 1, 2026"),
    ("purpose", .str "evaluating a partnership"),
    ("term_months", .int 24), ("governing_law", .str "State of Delaware")]

def ndaDraft (disclosing receiving : String) : Attributes :=
  draftContent Contracts.nda (ndaFields disclosing receiving) "text"

theorem ndaDraft_filled : Filled .sample Contracts.nda
    (ndaFields "Acme Corp." "Beta LLC")
    (ndaDraft "Acme Corp." "Beta LLC") :=
  ⟨List.mem_cons_self, by decide +kernel, "text", rfl⟩

theorem nda_draft_shown :
    ∃ p, buildProjectionFromArtifacts .sample .sample
        [("contracts/draft", .obj (ndaDraft "Acme Corp." "Beta LLC"))]
          = .ok p
      ∧ ShowsDraft .sample .sample Contracts.nda
        (ndaFields "Acme Corp." "Beta LLC") p := by
  refine (draft_shown_iff sample_lowersAscii rfl ndaDraft_filled).mpr
    ⟨draft_projectable ndaDraft_filled, ?_⟩
  rintro ⟨report, payload, ⟨⟩, ⟨⟩, -⟩

/-- A report that asks for the agreement of the draft. -/
def askedAndDrafted : Attributes :=
  [("analysis/report", .obj [("action", .str "create_contract"),
      ("action_payload", .obj [("contract_type_hint", .str "NDA"),
        ("provided_fields", .obj [("disclosing_party", .str "ACME corp."),
          ("receiving_party", .str "Beta LLC")])])]),
    ("contracts/draft", .obj (ndaDraft "Acme Corp." "Beta LLC"))]

/-- The agreement that was drafted is shown as requested. -/
theorem asked_draft_hidden :
    ¬ ∀ artifacts values draft,
      getMember artifacts "contracts/draft" = some (.obj draft) →
        Filled .sample Contracts.nda values draft →
          ∃ p, buildProjectionFromArtifacts .sample .sample artifacts
              = .ok p
            ∧ ShowsDraft .sample .sample Contracts.nda values p := by
  intro h
  obtain ⟨p, hp, e, hone, -, hstatus, -⟩ :=
    h askedAndDrafted _ _ rfl ndaDraft_filled
  have hshown : (buildProjectionFromArtifacts .sample .sample
      askedAndDrafted).map (fun p => (p.entities.filter
        (fun e => e.bucket = (.contract, draftKey .sample .sample
          Contracts.nda (ndaFields "Acme Corp." "Beta LLC")))).map
            fun e => getMember e.attributes "status")
      = .ok [some (.str "requested")] := by decide +kernel
  rw [hp] at hshown
  injection hshown with hshown
  dsimp only at hshown
  rw [hone, List.map_singleton, hstatus] at hshown
  simp at hshown

end LegalBot.Memory
