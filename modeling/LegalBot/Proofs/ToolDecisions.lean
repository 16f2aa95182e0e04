/-
Does the resume value of a tool approval answer the paused request?

# What the middleware expects

`HumanInTheLoopMiddleware` pauses with one action request and one review
config for each tool call it gates, and reads one decision for each of
them from `decisions` of the resume value: a decision type the config
allows, and for an `edit` the action to run instead.

# What goes wrong

A resolution carries a single decision. `_tool_approval_resume_value`
puts it into a list of one, whatever the number of actions, and nothing
compares its type with what the review config allows. So the value fits
when the model asked for one action and the decision is among those
allowed for it, and at no other time.
-/
import LegalBot.Proofs.ValidatedInput

namespace LegalBot

open Relational (HasKey Table)

-- ============================================================== statements

/-- An action the graph is paused at: the tool it calls and the decision
types its review config allows. -/
structure ReviewedAction where
  name : String
  allowed : List String
  deriving DecidableEq, Repr

/-- A string item. -/
def stringItem : Json → Option String
  | .str s => some s
  | _ => none

/-- An action request with its review config. -/
def reviewedAction : Json → Json → Option ReviewedAction
  | .obj request, .obj config =>
      match Json.getMember request "name",
        Json.getMember config "allowed_decisions" with
      | some (.str name), some (.arr allowed) =>
          some ⟨name, allowed.filterMap stringItem⟩
      | _, _ => none
  | _, _ => none

/-- Action requests and review configs, which the middleware lines up. -/
def reviewedActions : List Json → List Json → Option (List ReviewedAction)
  | [], [] => some []
  | request :: requests, config :: configs => do
      let action ← reviewedAction request config
      let rest ← reviewedActions requests configs
      return action :: rest
  | _, _ => none

/-- The actions a persisted payload lists. -/
def listedActions (payload : Json) : Option (List ReviewedAction) :=
  match Json.getMember payload.members "action_requests",
    Json.getMember payload.members "review_configs" with
  | some (.arr requests), some (.arr configs) =>
      reviewedActions requests configs
  | _, _ => none

/-- A decision the middleware takes for an action; an `edit` runs the
action's own tool with the arguments of the human. -/
structure Decides (editedArgs : Option (List (String × Json)))
    (action : ReviewedAction) (decision : Json) : Prop where
  allowed : ∃ type, Json.getMember decision.members "type"
      = some (.str type) ∧ type ∈ action.allowed
  edited : Json.getMember decision.members "type" = some (.str "edit") →
    Json.getMember decision.members "edited_action"
      = some (.obj [("name", .str action.name),
        ("args", .obj (editedArgs.getD []))])

/-- The resume value holds one decision for each action, in order. -/
def AnswersActions (editedArgs : Option (List (String × Json)))
    (actions : List ReviewedAction) (value : Json) : Prop :=
  ∃ decisions, Json.getMember value.members "decisions"
      = some (.arr decisions)
    ∧ List.Forall₂ (Decides editedArgs) actions decisions

/-- The model asked for one action, and the decision is allowed for
it. -/
def SingleAllowed (decision : ToolDecision)
    (actions : List ReviewedAction) : Prop :=
  ∃ action, actions = [action] ∧ decision.value ∈ action.allowed

-- ================================================================ one value

section Value

variable {actions rest : List ReviewedAction} {action : ReviewedAction}
  {request : InterruptRequest} {decision : ToolDecision}
  {editedArgs : Option (List (String × Json))} {reason : Option String}

/-- The first listed action is the one `_first_action_name` names. -/
theorem firstActionName_listed
    (h : listedActions request.payload = some (action :: rest)) :
    firstActionName request = some action.name := by
  unfold listedActions at h
  split at h
  · rename_i requests configs hrequests hconfigs
    cases requests with
    | nil =>
        cases configs with
        | nil => cases h
        | cons c cs => cases h
    | cons r rs =>
        cases configs with
        | nil => cases h
        | cons c cs =>
            unfold reviewedActions at h
            obtain ⟨a, ha, h⟩ := Option.bind_eq_some_iff.mp h
            obtain ⟨as, -, h⟩ := Option.bind_eq_some_iff.mp h
            injection h with h
            injection h with h
            subst h
            unfold reviewedAction at ha
            split at ha
            · split at ha
              · rename_i hname _
                injection ha with ha
                subst ha
                unfold firstActionName
                rw [hrequests]
                simp only [hname]
              · cases ha
            · cases ha
  · cases h

/-- The one entry of the value. -/
theorem toolApprovalResumeValue_entry :
    ∃ entry, toolApprovalResumeValue decision editedArgs reason request
        = .obj [("decisions", .arr [.obj entry])]
      ∧ Json.getMember entry "type" = some (.str decision.value)
      ∧ (decision = .edit → Json.getMember entry "edited_action"
        = some (.obj [("name", .str ((firstActionName request).getD "")),
          ("args", .obj (editedArgs.getD []))])) := by
  cases decision with
  | approve => exact ⟨_, rfl, rfl, fun h => by cases h⟩
  | edit => exact ⟨_, rfl, rfl, fun _ => rfl⟩
  | reject =>
      cases reason with
      | none => exact ⟨_, rfl, rfl, fun h => by cases h⟩
      | some r =>
          by_cases hr : r = ""
          · refine ⟨[("type", .str "reject")], ?_, rfl, fun h => by cases h⟩
            simp [toolApprovalResumeValue, hr]
          · refine ⟨[("type", .str "reject"), ("message", .str r)], ?_, rfl,
              fun h => by cases h⟩
            simp [toolApprovalResumeValue, hr]

/-- Only the type `edit` is that of an edit. -/
theorem ToolDecision.edit_of_value (h : decision.value = "edit") :
    decision = .edit := by
  cases decision with
  | edit => rfl
  | approve => exact absurd h (by decide)
  | reject => exact absurd h (by decide)

/-- The value answers the listed actions exactly when there is one and
its config allows the decision. -/
theorem toolApproval_answers_iff
    (hlisted : listedActions request.payload = some actions)
    (hne : actions ≠ []) :
    AnswersActions editedArgs actions
        (toolApprovalResumeValue decision editedArgs reason request)
      ↔ SingleAllowed decision actions := by
  obtain ⟨entry, hvalue, htype, hedit⟩ :=
    @toolApprovalResumeValue_entry request decision editedArgs reason
  rw [hvalue]
  constructor
  · rintro ⟨decisions, hdecisions, hall⟩
    obtain rfl : [Json.obj entry] = decisions := by
      simpa [Json.members, Json.getMember] using hdecisions
    cases hall with
    | @cons action _ rest _ hone hrest =>
        cases hrest
        obtain ⟨type, htype', hallowed⟩ := hone.allowed
        refine ⟨action, rfl, ?_⟩
        have hsame : decision.value = type := by
          have heq := htype.symm.trans htype'
          simpa using heq
        rw [hsame]
        exact hallowed
  · rintro ⟨action, rfl, hallowed⟩
    refine ⟨[.obj entry], rfl, List.Forall₂.cons ⟨⟨decision.value, htype,
      hallowed⟩, fun hisedit => ?_⟩ List.Forall₂.nil⟩
    have hval : decision.value = "edit" := by
      have heq := htype.symm.trans hisedit
      simpa using heq
    have hfirst := hedit (ToolDecision.edit_of_value hval)
    rw [firstActionName_listed hlisted] at hfirst
    exact hfirst

end Value

-- ================================================================= the result

/-- Whatever tool approval `resolve` accepts for a pending interrupt that
lists actions, the resume value answers them exactly when there is a
single one and the decision is allowed for it. -/
theorem tool_resume_answers_iff {valid : Json → Json → Bool} {rt : Runtime}
    {svc : ArtifactService}
    {dictOf : Json → Option (List (String × Json))}
    {interrupts : Table InterruptRequest} {artifacts : Table Artifact}
    {blobs : Blobs} {sid : Uuid} {decision : ToolDecision}
    {editedArgs : Option (List (String × Json))} {reason : Option String}
    {edits : List ArtifactEdit} {resolvedBy : Option String}
    {draw : Nat → Uuid} {out : Resolved} {actions : List ReviewedAction}
    (h : resolveBody valid rt svc dictOf interrupts artifacts blobs sid
      (.tool decision editedArgs reason edits) resolvedBy draw = .ok out)
    (hlisted : listedActions out.current.payload = some actions)
    (hne : actions ≠ []) :
    AnswersActions editedArgs actions out.resumeValue
      ↔ SingleAllowed decision actions := by
  obtain ⟨-, hvalue⟩ := checkResolution_ok (resolveBody_checked h)
  rw [hvalue]
  exact toolApproval_answers_iff hlisted hne

-- =============================================================== scenarios

/-- A call of `send_draft`, and the config the graph gives it. -/
def sendDraftRequest (id : String) : Json :=
  .obj [("name", .str "send_draft"),
    ("args", .obj [("draft_id", .str id)])]

def sendDraftConfig : Json :=
  .obj [("action_name", .str "send_draft"),
    ("allowed_decisions", .arr [.str "approve", .str "reject"])]

/-- The model asks to send one draft. -/
def oneDraft : Json :=
  .obj [("action_requests", .arr [sendDraftRequest "d1"]),
    ("review_configs", .arr [sendDraftConfig])]

/-- The model asks to send two drafts in one message. -/
def twoDrafts : Json :=
  .obj [("action_requests",
      .arr [sendDraftRequest "d1", sendDraftRequest "d2"]),
    ("review_configs", .arr [sendDraftConfig, sendDraftConfig])]

/-- The body of an approval. -/
def approval : InterruptResolution := .tool .approve none none []

/-- Session 10 after run 11 paused with this envelope: what is accepted
of an approval, and the actions that are listed. -/
theorem approval_accepted {envelope : Json}
    {actions : List ReviewedAction}
    (h : ((Lts.run (apply Env.required) State.init
      (askedWith envelope)).bind fun s => (checkFirst s approval).map
        fun r => listedActions r.payload) = some (some actions)) :
    ∃ s out, Lts.run (apply Env.required) State.init (askedWith envelope)
        = some s
      ∧ resolveFirst s approval = .ok out
      ∧ listedActions out.current.payload = some actions := by
  obtain ⟨s, hs, hcheck⟩ := Option.bind_eq_some_iff.mp h
  obtain ⟨current, hcurrent, hlisted⟩ := Option.map_eq_some_iff.mp hcheck
  obtain ⟨out, hout, rfl⟩ := resolveFirst_accepts hcurrent rfl
  exact ⟨s, out, hs, hout, hlisted⟩

/-- One draft, approved. -/
theorem one_draft_answered : ∃ s out actions,
    Lts.run (apply Env.required) State.init (askedWith oneDraft) = some s
    ∧ resolveFirst s approval = .ok out
    ∧ listedActions out.current.payload = some actions
    ∧ AnswersActions none actions out.resumeValue := by
  obtain ⟨s, out, hs, hout, hlisted⟩ := @approval_accepted oneDraft
    [⟨"send_draft", ["approve", "reject"]⟩] (by decide +kernel)
  refine ⟨s, out, _, hs, hout, hlisted, ?_⟩
  exact (tool_resume_answers_iff hout hlisted (by decide)).mpr
    ⟨_, rfl, by decide⟩

/-- Two drafts, one approval. -/
theorem two_drafts_unanswered :
    ¬ ∀ s out actions, Reaches Env.required Lts.Always s →
      resolveFirst s approval = .ok out →
      listedActions out.current.payload = some actions → actions ≠ [] →
      AnswersActions none actions out.resumeValue := by
  intro hall
  obtain ⟨s, out, hs, hout, hlisted⟩ := @approval_accepted twoDrafts
    [⟨"send_draft", ["approve", "reject"]⟩,
      ⟨"send_draft", ["approve", "reject"]⟩] (by decide +kernel)
  have hans := hall s out _ (Lts.reachable_of_run .init hs) hout hlisted
    (by decide)
  obtain ⟨-, hvalue⟩ := checkResolution_ok (resolveBody_checked hout)
  rw [hvalue] at hans
  have hone : AnswersActions none _
      (toolApprovalResumeValue .approve none none out.current) := hans
  obtain ⟨action, hsingle, -⟩ :=
    (toolApproval_answers_iff hlisted (by decide)).mp hone
  simp at hsingle

end LegalBot
