/-
What the analyze stage records and reports: the steps of
`agents/analyze_graph.py`, the models of
`agents/schemas/analyze_report.py` and `agents/analyze_report.py`.

# Steps

A tool message becomes a `ResearchStep`, with what it found as a text of
at most 4000 characters. The resources of the report are read back out
of these texts (`resourcesFromResearch`).

`none` is an exception: a `keys` that cannot be sliced, `results` that
cannot be iterated over.

`seen` is the set of the type and the reference of the resources so far;
it is read off them here (`addResource`).
-/
import LegalBot.Agents.StageResult

namespace LegalBot.Stages

open Tools (orText prefixOf jsonText)

-- ==================================================================== models

/-- `ResearchStep`. -/
structure ResearchStep where
  tool : String
  target : String
  finding : String
  deriving DecidableEq, Repr

/-- The types of a resource. -/
inductive ResourceType where
  | artifact | kgHit | ingestionItem | thread
  deriving DecidableEq, Repr

/-- `ResourceRef`. -/
structure ResourceRef where
  type : ResourceType
  ref : String
  relevance : String
  deriving DecidableEq, Repr

/-- `AnalyzeAction`. -/
inductive AnalyzeAction where
  | draftResponse | createContract | other
  deriving DecidableEq, Repr

/-- `MissingInformation`. -/
structure MissingInformation where
  field : String
  question : String
  whyNeeded : String
  deriving DecidableEq, Repr

/-- `DraftResponsePayload`. -/
structure DraftResponsePayload where
  responseOutline : String
  tone : Option String
  deriving DecidableEq, Repr

/-- `CreateContractPayload`. -/
structure CreateContractPayload where
  contractTypeHint : String
  providedFields : List (String × String)
  missingFields : List String
  evidenceRefs : List String
  deriving DecidableEq, Repr

/-- `AnalyzeDecision`. -/
structure AnalyzeDecision where
  intention : String
  confidence : String
  informationSufficient : Bool
  action : Option AnalyzeAction
  missingInformation : List MissingInformation
  blockers : List String
  draftResponse : Option DraftResponsePayload
  createContract : Option CreateContractPayload
  otherReason : Option String
  deriving DecidableEq, Repr

/-- `AnalyzeReport`. -/
structure AnalyzeReport where
  userInput : List (String × Json)
  intention : String
  research : List ResearchStep
  relevantResources : List ResourceRef
  action : Option AnalyzeAction
  actionPayload : List (String × Json)
  confidence : String
  blockers : List String
  missingInformation : List MissingInformation
  deriving DecidableEq, Repr

-- ===================================================================== steps

section Research

variable (rt : Runtime) (floatRepr : String → String)

/-- `str(v or default)`. -/
def strOr (v : Json) (default : String) : String :=
  if v.truthy then strOf rt v else default

/-- `d.get(k)`. -/
def getOrNone (members : List (String × Json)) (k : String) : Json :=
  (Json.getMember members k).getD .null

/-- `(v or [])[:n]` of a `keys`, as a value of its kind. -/
def sliced (n : Nat) (v : Json) : Option Json :=
  if v.truthy then
    match v with
    | .arr items => some (.arr (items.take n))
    | .str s => some (.str (prefixOf n s))
    | _ => none
  else some (.arr [])

/-- `_research_step_from_tool_message`. -/
def researchStepFromToolMessage (msg : Message) : Option ResearchStep :=
  let name := strOr rt msg.name "unknown"
  let content := strOr rt msg.content ""
  let finding := prefixOf 4000 content
  match Json.loads floatRepr content with
  | some (.obj data) =>
      if name = "read_artifact" then
        some ⟨name, strOr rt (getOrNone data "key") "", finding⟩
      else if name = "list_artifacts" then
        (sliced 30 (getOrNone data "keys")).map fun keys =>
          ⟨name, strOr rt (getOrNone data "key_prefix") "", Json.dumps keys⟩
      else if name = "search_related_docs" then
        some ⟨name, strOr rt (getOrNone data "query") "", finding⟩
      else some ⟨name, "", finding⟩
  | _ => some ⟨name, "", finding⟩

/-- The steps of messages. -/
def researchSteps : List Message → Option (List ResearchStep)
  | [] => some []
  | msg :: rest => do
      let step ← researchStepFromToolMessage rt floatRepr msg
      let steps ← researchSteps rest
      pure (step :: steps)

-- ================================================================= resources

/-- The hits of a finding. -/
def hitsOf (finding : String) : Option (List Json) :=
  let payload :=
    if "\x7b".toList.isPrefixOf finding.toList then
      ((Json.loads floatRepr finding).getD (.obj [])).members
    else []
  let results := getOrNone payload "results"
  if results.truthy then
    match results with
    | .arr hits => some hits
    -- what is iterated over are texts, and no hit is a text
    | .str _ | .obj _ => some []
    | _ => none
  else some []

/-- The resource of a hit. -/
def hitResource : Json → Option ResourceRef
  | .obj hit =>
      let itemId :=
        if (getOrNone hit "ingestion_item_id").truthy then
          getOrNone hit "ingestion_item_id"
        else getOrNone hit "source_id"
      if itemId.truthy then
        some ⟨.ingestionItem, strOf rt itemId,
          prefixOf 200 (strOr rt (getOrNone hit "snippet")
            (strOr rt (getOrNone hit "title") ""))⟩
      else none
  | _ => none

/-- The resources of a step. -/
def stepResources (step : ResearchStep) : Option (List ResourceRef) :=
  if step.tool = "search_related_docs" then
    (hitsOf floatRepr step.finding).map (List.filterMap (hitResource rt))
  else if (step.tool = "read_artifact" ∨ step.tool = "list_artifacts")
      ∧ step.target ≠ "" then
    some [⟨.artifact, step.target, prefixOf 200 step.finding⟩]
  else some []

/-- A resource that is not there yet is added. -/
def addResource (resources : List ResourceRef) (r : ResourceRef) :
    List ResourceRef :=
  if ∃ s ∈ resources, s.type = r.type ∧ s.ref = r.ref then resources
  else resources ++ [r]

/-- The loop of `resources_from_research`, over the resources so far. -/
def resourcesFrom (resources : List ResourceRef) :
    List ResearchStep → Option (List ResourceRef)
  | [] => some resources
  | step :: rest => do
      let found ← stepResources rt floatRepr step
      resourcesFrom (found.foldl addResource resources) rest

/-- `resources_from_research`. -/
def resourcesFromResearch (steps : List ResearchStep) :
    Option (List ResourceRef) :=
  resourcesFrom rt floatRepr [] steps

-- ==================================================================== report

/-- `build_action_payload`. -/
def buildActionPayload (decision : AnalyzeDecision) :
    List (String × Json) :=
  match decision.action, decision.draftResponse, decision.createContract with
  | some .draftResponse, some payload, _ =>
      [("response_outline", .str payload.responseOutline),
        ("tone", jsonText payload.tone)]
  | some .createContract, _, some payload =>
      [("contract_type_hint", .str payload.contractTypeHint),
        ("provided_fields",
          .obj (payload.providedFields.map fun f => (f.1, .str f.2))),
        ("missing_fields", .arr (payload.missingFields.map .str)),
        ("evidence_refs", .arr (payload.evidenceRefs.map .str))]
  | some .other, _, _ => [("reason", .str (orText decision.otherReason ""))]
  | _, _, _ => []

/-- `build_analyze_report`, with the resources of the research. -/
def buildAnalyzeReport (userInput : List (String × Json))
    (research : List ResearchStep) (decision : AnalyzeDecision) :
    Option AnalyzeReport :=
  (resourcesFromResearch rt floatRepr research).map fun resources =>
    { userInput := userInput
      intention := decision.intention
      research := research
      relevantResources := resources
      action := decision.action
      actionPayload := buildActionPayload decision
      confidence := decision.confidence
      blockers := decision.blockers
      missingInformation := decision.missingInformation }

end Research

-- ==================================================================== lemmas

section Steps

variable {rt : Runtime} {floatRepr : String → String}

/-- The steps are those of the messages, one each. -/
theorem researchSteps_some {messages : List Message}
    {steps : List ResearchStep} :
    researchSteps rt floatRepr messages = some steps
      ↔ messages.map (researchStepFromToolMessage rt floatRepr)
        = steps.map some := by
  induction messages generalizing steps with
  | nil =>
      cases steps with
      | nil => exact iff_of_true rfl rfl
      | cons step steps =>
          refine iff_of_false (fun h => ?_) fun h => ?_
          · cases h
          · cases h
  | cons msg rest ih =>
      rw [researchSteps]
      cases steps with
      | nil =>
          refine iff_of_false (fun h => ?_) fun h => ?_
          · obtain ⟨step, -, h⟩ := Option.bind_eq_some_iff.mp h
            obtain ⟨found, -, h⟩ := Option.bind_eq_some_iff.mp h
            cases h
          · cases h
      | cons step steps =>
          rw [List.map_cons, List.map_cons, List.cons.injEq]
          constructor
          · intro h
            obtain ⟨step', hstep, h⟩ := Option.bind_eq_some_iff.mp h
            obtain ⟨found, hrest, h⟩ := Option.bind_eq_some_iff.mp h
            injection h with h
            injection h with hhead htail
            exact ⟨hhead ▸ hstep, htail ▸ ih.mp hrest⟩
          · rintro ⟨hstep, hrest⟩
            rw [hstep, ih.mpr hrest]
            rfl

end Steps

end LegalBot.Stages
