/-
The resolution bodies of `interrupts/schemas.py` and what
`InterruptService` computes from them without the database: the resume
value, the decision label, the checks that refuse a body.

`None` and JSON `null` are the same value here, as they are once the
value has travelled through the broker's JSON serializer.
-/
import LegalBot.Db.Models

namespace LegalBot

-- ================================================================== bodies

/-- `ArtifactEditSchema`. -/
structure ArtifactEdit where
  key : String
  content : Json
  patch : Option (List (String × Json))
  merge : String
  mime : Option String
  metadata : Option (List (String × Json))
  deriving DecidableEq

/-- `InterruptResolutionTool.decision`. -/
inductive ToolDecision where
  | approve | edit | reject
  deriving DecidableEq, Repr

/-- `InterruptResolutionReview.decision`. -/
inductive ReviewDecision where
  | accept | revise | reject
  deriving DecidableEq, Repr

/-- `InterruptResolution`, discriminated by `kind`. -/
inductive InterruptResolution where
  | tool (decision : ToolDecision)
      (editedArgs : Option (List (String × Json))) (reason : Option String)
      (artifactEdits : List ArtifactEdit)
  | info (answer : Option (List (String × Json))) (skipped : Bool)
      (reason : Option String) (artifactEdits : List ArtifactEdit)
  | review (decision : ReviewDecision) (revisionNotes : Option String)
      (artifactEdits : List ArtifactEdit)
  deriving DecidableEq

namespace InterruptResolution

/-- The discriminator. -/
def kind : InterruptResolution → InterruptKind
  | .tool .. => .toolApproval
  | .info .. => .informationRequest
  | .review .. => .reviewDraft

/-- The piggy-backed edits. -/
def artifactEdits : InterruptResolution → List ArtifactEdit
  | .tool _ _ _ edits => edits
  | .info _ _ _ edits => edits
  | .review _ _ edits => edits

/-- An information request that is neither skipped nor answered. -/
def answerless : InterruptResolution → Bool
  | .info none false _ _ => true
  | _ => false

/-- The `skipped` flag; only an information request has one. -/
def skipped : InterruptResolution → Bool
  | .info _ skipped _ _ => skipped
  | _ => false

end InterruptResolution

-- ==================================================== serialized bodies

/-- An optional string as JSON. -/
def jsonOfString? (s : Option String) : Json :=
  (s.map Json.str).getD .null

/-- An optional dict as JSON. -/
def jsonOfDict? (d : Option (List (String × Json))) : Json :=
  (d.map Json.obj).getD .null

def ToolDecision.value : ToolDecision → String
  | .approve => "approve"
  | .edit => "edit"
  | .reject => "reject"

def ReviewDecision.value : ReviewDecision → String
  | .accept => "accept"
  | .revise => "revise"
  | .reject => "reject"

/-- `ArtifactEditSchema.model_dump(mode="json")`. -/
def ArtifactEdit.modelDump (e : ArtifactEdit) : Json :=
  .obj [("key", .str e.key), ("content", e.content),
    ("patch", jsonOfDict? e.patch), ("merge", .str e.merge),
    ("mime", jsonOfString? e.mime), ("metadata", jsonOfDict? e.metadata)]

/-- `resolution.model_dump(mode="json")`. -/
def InterruptResolution.modelDump : InterruptResolution → Json
  | .tool d args reason edits =>
      .obj [("kind", .str "tool_approval"), ("decision", .str d.value),
        ("edited_args", jsonOfDict? args), ("reason", jsonOfString? reason),
        ("artifact_edits", .arr (edits.map ArtifactEdit.modelDump))]
  | .info answer skipped reason edits =>
      .obj [("kind", .str "information_request"),
        ("answer", jsonOfDict? answer), ("skipped", .bool skipped),
        ("reason", jsonOfString? reason),
        ("artifact_edits", .arr (edits.map ArtifactEdit.modelDump))]
  | .review d notes edits =>
      .obj [("kind", .str "review_draft"), ("decision", .str d.value),
        ("revision_notes", jsonOfString? notes),
        ("artifact_edits", .arr (edits.map ArtifactEdit.modelDump))]

-- ============================================================ resume value

/-- `_first_action_name`: `action_requests[0].name` of a persisted
payload, when it is a string. -/
def firstActionName (request : InterruptRequest) : Option String :=
  match Json.getMember request.payload.members "action_requests" with
  | some (.arr (.obj first :: _)) =>
      match Json.getMember first "name" with
      | some (.str name) => some name
      | _ => none
  | _ => none

/-- `_tool_approval_resume_value`. -/
def toolApprovalResumeValue (decision : ToolDecision)
    (editedArgs : Option (List (String × Json))) (reason : Option String)
    (request : InterruptRequest) : Json :=
  let entry : List (String × Json) :=
    match decision with
    | .approve => [("type", .str "approve")]
    | .edit =>
        [("type", .str "edit"),
          ("edited_action", .obj
            [("name", .str ((firstActionName request).getD "")),
              ("args", .obj (editedArgs.getD []))])]
    | .reject =>
        -- `if resolution.reason`: an empty reason adds no message
        match reason with
        | some r =>
            if r = "" then [("type", .str "reject")]
            else [("type", .str "reject"), ("message", .str r)]
        | none => [("type", .str "reject")]
  .obj [("decisions", .arr [.obj entry])]

/-- `_resume_value`: what `Command(resume=…)` will carry. -/
def resumeValue (resolution : InterruptResolution)
    (request : InterruptRequest) : Json :=
  match resolution with
  | .tool decision editedArgs reason _ =>
      toolApprovalResumeValue decision editedArgs reason request
  | .info answer skipped reason _ =>
      if skipped then
        .obj [("skipped", .bool true), ("reason", jsonOfString? reason)]
      else jsonOfDict? answer
  | .review decision notes _ =>
      .obj [("decision", .str decision.value),
        ("revision_notes", jsonOfString? notes)]

/-- The resume value is `None` for an answerless body only. -/
theorem resumeValue_eq_null {resolution : InterruptResolution}
    {request : InterruptRequest} :
    resumeValue resolution request = .null
      ↔ resolution.answerless = true := by
  cases resolution with
  | tool decision editedArgs reason edits =>
      simp [resumeValue, toolApprovalResumeValue,
        InterruptResolution.answerless]
  | info answer skipped reason edits =>
      cases skipped with
      | true => simp [resumeValue, InterruptResolution.answerless]
      | false =>
          cases answer with
          | none =>
              simp [resumeValue, jsonOfDict?,
                InterruptResolution.answerless]
          | some ms =>
              simp [resumeValue, jsonOfDict?,
                InterruptResolution.answerless]
  | review decision notes edits =>
      simp [resumeValue, InterruptResolution.answerless]

/-- `_decision_label`. -/
def decisionLabel : InterruptResolution → String
  | .tool decision .. => decision.value
  | .info _ skipped _ _ => if skipped then "skipped" else "answered"
  | .review decision .. => decision.value

-- ================================================================== checks

/-- The errors `resolve` raises: 404, 409 and 422. -/
inductive ResolveError where
  | noPendingInterrupt
  | interruptMismatch (active payload : InterruptKind)
  | answerDoesNotMatchSchema
  deriving DecidableEq, Repr

/-- The checks of `resolve` on the pending row it read, and the resume
value it computes. `valid schema answer` stands for
`Draft202012Validator(schema).validate(answer)`; an empty schema object
is falsy and skips the validation. -/
def checkResolution (valid : Json → Json → Bool)
    (current : Option InterruptRequest) (resolution : InterruptResolution) :
    Except ResolveError (InterruptRequest × Json) :=
  match current with
  | none => .error .noPendingInterrupt
  | some request =>
      if request.kind ≠ resolution.kind then
        .error (.interruptMismatch request.kind resolution.kind)
      else
        let value := resumeValue resolution request
        match resolution, request.schema with
        | .info (some answer) false _ _, some schema =>
            if schema.truthy && !valid schema (.obj answer) then
              .error .answerDoesNotMatchSchema
            else .ok (request, value)
        | _, _ => .ok (request, value)

/-- An accepted resolution answers the pending row that was read. -/
theorem checkResolution_ok {valid : Json → Json → Bool}
    {current : Option InterruptRequest} {resolution : InterruptResolution}
    {request : InterruptRequest} {value : Json}
    (h : checkResolution valid current resolution = .ok (request, value)) :
    current = some request ∧ value = resumeValue resolution request := by
  unfold checkResolution at h
  cases current with
  | none => cases h
  | some request' =>
      simp only at h
      split at h
      · cases h
      · split at h
        · split at h
          · cases h
          · injection h with h
            injection h with h₁ h₂
            exact ⟨congrArg some h₁, by rw [← h₂, h₁]⟩
        · injection h with h
          injection h with h₁ h₂
          exact ⟨congrArg some h₁, by rw [← h₂, h₁]⟩

end LegalBot
