/-
`agents/tools/contract_tools.py`: the tools of the contract stage, over
`Contracts/Registry.lean`.

`fill_contract_template` looks the type up twice more after it has found
it, in `missing_fields` and in `render_template`; the type is found
again, so the functions of the type that was found are used here
(`missingFields_found`).
-/
import LegalBot.Agents.Domain
import LegalBot.Contracts.Registry

namespace LegalBot.Tools

open Contracts

/-- `CONTRACT_DRAFT_KEY`. -/
def contractDraftKey : String := "contracts/draft"

/-- `[t["type_id"] for t in list_contract_types()]`. -/
def supportedTypes : Json :=
  .arr (contractTypes.map fun ct => .str ct.typeId)

/-- The tool `list_contract_types`. -/
def contractTypesResult : Json :=
  .obj [("contract_types", listContractTypes)]

/-- `get_contract_requirements`. -/
def getContractRequirements (env : ToolEnv) (contractType : String) : Json :=
  match getContractType env.lower contractType with
  | none =>
      .obj [("error", .str "unsupported_type"),
        ("contract_type", .str contractType),
        ("supported", supportedTypes)]
  | some ct =>
      .obj [("type_id", .str ct.typeId),
        ("display_name", .str ct.displayName),
        ("required_fields", ct.fieldsJson),
        ("template_placeholders",
          .arr (ct.templatePlaceholders.map .str))]

/-- What `fill_contract_template` hands to `write`. -/
def draftArgs (caller : Caller) (ct : ContractType)
    (fieldValues : List (String × Json)) (markdown : String) : WriteArgs :=
  { sessionId := caller.sessionId
    key := contractDraftKey
    content := .value (.obj [("contract_type", .str ct.typeId),
      ("display_name", .str ct.displayName),
      ("field_values", .obj fieldValues), ("markdown", .str markdown)])
    kind := "contract"
    producer := "agent"
    runId := caller.runId
    mime := "application/json"
    metadata := some [("contract_type", .str ct.typeId),
      ("display_name", .str ct.displayName)]
    createdBy := none }

/-- `fill_contract_template`. -/
def fillContractTemplate (env : ToolEnv) (caller : Caller)
    (contractType : String) (fieldValues : List (String × Json)) :
    ToolM Json :=
  match getContractType env.lower contractType with
  | none =>
      pure (.obj [("status", .str "unsupported_type"),
        ("contract_type", .str contractType),
        ("supported", supportedTypes)])
  | some ct =>
      let missing := ct.missingFields env.rt fieldValues
      if missing ≠ [] then
        pure (.obj [("status", .str "missing_fields"),
          ("contract_type", .str contractType),
          ("missing", .arr (missing.map .str)),
          ("required_fields", ct.fieldsJson)])
      else
        match ct.render env.rt env.repr contractType fieldValues with
        | .error detail =>
            pure (.obj [("status", .str "render_error"),
              ("contract_type", .str contractType),
              ("detail", .str detail)])
        | .ok markdown => do
            let row ← writeArtifact env
              (draftArgs caller ct fieldValues markdown) caller.firstId
            emit .commit
            pure (.obj [("status", .str "filled"),
              ("contract_type", .str ct.typeId),
              ("artifact_key", .str row.key),
              ("artifact_id", .str (toString row.id)),
              ("version", .int row.version)])

theorem missingFields_found {rt : Runtime} {lower : String → String}
    {typeId : String} {provided : List (String × Json)} {ct : ContractType}
    (h : getContractType lower typeId = some ct) :
    missingFields rt lower typeId provided
      = some (ct.missingFields rt provided) := by
  unfold missingFields
  rw [h]
  rfl

end LegalBot.Tools
