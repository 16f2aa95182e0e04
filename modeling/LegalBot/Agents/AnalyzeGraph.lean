/-
`agents/analyze_graph.py`: the graph of the analyze stage.

# A super-step

One node runs, and the graph goes on from what the state is then
(`successor`). What a node is given from outside is in the event: the
artifact that `load_context` reads, the reply of the research model, the
answers of the tool node, what the decision model makes of the research.
A reply is a message of the model; the tool node answers each call of the
last message with one tool message; messages are appended to the channel
(`AnalyzeEvent.fits`).

`none` is a node that raises, or an event of another node.

# Channels

A channel that is not set reads as its empty value, as the `or` of the
nodes has it. `written` has what the nodes write to the artifact store.
-/
import LegalBot.Agents.ResearchReport
import LegalBot.Lib.System

namespace LegalBot.Stages

-- ===================================================================== state

inductive Node where
  | loadContext | research | tools | recordResearch | decide
  | writeReport | unsupported | prepareHitl | finalize | done
  deriving DecidableEq, Repr

/-- What a node writes: `analysis/report`, or `act/outcome` with its
reason. -/
inductive AnalyzeWrite where
  | report (report : AnalyzeReport)
  | unsupportedOutcome (reason : String)
  deriving DecidableEq, Repr

/-- The channels the graph reads, and the node that is next. -/
structure AnalyzeState where
  next : Node
  messages : List Message
  artifactIndex : List String
  userInput : List (String × Json)
  research : List ResearchStep
  recorded : Nat
  decision : Option AnalyzeDecision
  needsHitl : Bool
  loadFailed : Bool
  blockers : List String
  written : List AnalyzeWrite
  stageResult : Option StageResult
  deriving DecidableEq, Repr

inductive AnalyzeEvent where
  | loadContext (content : Option Content)
  | research (reply : Message)
  | tools (answers : List Message)
  | recordResearch
  | decide (outcome : Except String AnalyzeDecision)
  | writeReport
  | unsupported
  | prepareHitl
  | finalize

/-- The node of an event. -/
def AnalyzeEvent.node : AnalyzeEvent → Node
  | .loadContext _ => .loadContext
  | .research _ => .research
  | .tools _ => .tools
  | .recordResearch => .recordResearch
  | .decide _ => .decide
  | .writeReport => .writeReport
  | .unsupported => .unsupported
  | .prepareHitl => .prepareHitl
  | .finalize => .finalize

-- =================================================================== loading

/-- The members of the user input. -/
def userInputFields : List String :=
  ["subject", "from_addr", "received_at", "body_summary", "body_preview",
    "body_chars", "action_requested", "sender_trust", "deadline",
    "referenced_documents", "provided_overview", "attachment_count",
    "attachments_processed", "attachments_failed", "attachments",
    "thread_attachments"]

/-- The members that are an empty list when they are not given. -/
def listFields : List String :=
  ["referenced_documents", "attachments", "thread_attachments"]

/-- `load_extracted_user_input`; `none` is an artifact that was not found
or is no dict. -/
def loadExtractedUserInput : Option Content → Option (List (String × Json))
  | some (.value (.obj content)) =>
      some (userInputFields.map fun field =>
        let v := getOrNone content field
        (field, if field ∈ listFields ∧ v.truthy = false then .arr []
          else v))
  | _ => none

def AnalyzeState.loadContext (content : Option Content)
    (s : AnalyzeState) : AnalyzeState :=
  match loadExtractedUserInput content with
  | none =>
      { s with
        loadFailed := true
        needsHitl := true
        blockers := ["analysis/extracted is missing or invalid"] }
  | some userInput =>
      { s with userInput := userInput, research := [], recorded := 0 }

-- ================================================================== research

/-- `[m for m in messages if m.type == "tool"]`. -/
def toolMessages (messages : List Message) : List Message :=
  messages.filter fun m => m.type = some "tool"

/-- One tool message for each call of the last message. -/
def answersLast (messages answers : List Message) : Bool :=
  match messages.getLast? with
  | none => false
  | some last =>
      answers.map (fun m => (m.type, m.toolCallId))
        = last.toolCalls.map fun call => (some "tool", call.id)

section Graph

variable (rt : Runtime) (floatRepr : String → String)

/-- `record_research_node`. -/
def AnalyzeState.recordResearch (s : AnalyzeState) :
    Option AnalyzeState :=
  (researchSteps rt floatRepr ((toolMessages s.messages).drop s.recorded)).map
    fun newSteps =>
      { s with
        research := s.research ++ newSteps
        recorded := (toolMessages s.messages).length }

-- ================================================================= decisions

/-- `decide_node`. -/
def AnalyzeState.decide (outcome : Except String AnalyzeDecision)
    (s : AnalyzeState) : AnalyzeState :=
  match outcome with
  | .ok decision => { s with decision := some decision }
  | .error text =>
      { s with
        needsHitl := true
        blockers := ["structured decision failed: " ++ text] }

/-- `write_report_node`; without a decision `model_validate` raises. -/
def AnalyzeState.writeReport (s : AnalyzeState) : Option AnalyzeState := do
  let decision ← s.decision
  let report ← buildAnalyzeReport rt floatRepr s.userInput s.research decision
  pure { s with written := s.written ++ [.report report] }

/-- `unsupported_outcome_node`. -/
def AnalyzeState.unsupported (s : AnalyzeState) : Option AnalyzeState := do
  let decision ← s.decision
  let report ← buildAnalyzeReport rt floatRepr s.userInput s.research decision
  let reason :=
    Tools.orText decision.otherReason "Request is outside supported actions."
  pure { s with
    written := s.written ++ [.report report, .unsupportedOutcome reason] }

/-- What `prepare_hitl_node` reports when there is no decision. -/
def undecided (blockers : List String) : AnalyzeDecision :=
  { intention := "unknown"
    confidence := "low"
    informationSufficient := false
    action := none
    missingInformation := []
    blockers :=
      if blockers = [] then ["Insufficient information to proceed"]
      else blockers
    draftResponse := none
    createContract := none
    otherReason := none }

/-- The decision that `prepare_hitl_node` reports. -/
def AnalyzeState.hitlDecision (s : AnalyzeState) : AnalyzeDecision :=
  match s.decision with
  | some decision =>
      { decision with blockers := decision.blockers ++ s.blockers }
  | none => undecided s.blockers

/-- `prepare_hitl_node`. -/
def AnalyzeState.prepareHitl (s : AnalyzeState) : Option AnalyzeState :=
  (buildAnalyzeReport rt floatRepr s.userInput s.research s.hitlDecision).map
    fun report =>
      { s with needsHitl := true, written := s.written ++ [.report report] }

-- =================================================================== handoff

/-- `hitl_summary`. -/
def AnalyzeState.hitlSummary (s : AnalyzeState) : String :=
  let missing := (s.decision.map (·.missingInformation)).getD []
  let parts :=
    (if s.blockers = [] then []
      else ["Blockers: " ++ "; ".intercalate s.blockers])
    ++ if missing = [] then []
      else ["Missing: " ++ "; ".intercalate
        (missing.map fun m => m.field ++ ": " ++ m.question)]
  if parts = [] then "Analyze stage needs human input."
  else " | ".intercalate parts

/-- The keys of `build_analyze_stage_result`. -/
def AnalyzeState.artifactKeys (s : AnalyzeState) : List String :=
  let named := artifactKeysFromMessages floatRepr s.messages
    ∪ s.artifactIndex.toFinset
  if s.decision ≠ none ∨ s.needsHitl ∨ s.userInput ≠ [] then
    sorted (named ∪ {"analysis/report"})
  else sorted named

/-- `build_analyze_stage_result`. -/
def buildAnalyzeStageResult (s : AnalyzeState) : StageResult :=
  let keys := s.artifactKeys floatRepr
  let action := s.decision.bind (·.action)
  if s.needsHitl ∨ s.loadFailed then
    { buildStageResult floatRepr s.messages "analyze"
        (some ["analysis/report"]) none with
      status := "awaiting_human"
      needsHuman := true
      nextStage := none
      summary := s.hitlSummary
      artifactKeys := keys
      primaryArtifactKey :=
        if "analysis/report" ∈ keys then some "analysis/report" else none }
  else
    let next :=
      match action with
      | some .createContract => some "draft_contract"
      | some .other => none
      | _ => some "act"
    let result := buildStageResult floatRepr s.messages "analyze"
      (some ["analysis/report"]) next
    { result with
      artifactKeys := keys
      primaryArtifactKey :=
        if "analysis/report" ∈ keys then some "analysis/report"
        else result.primaryArtifactKey }

-- ==================================================================== routing

/-- `route_after_load`. -/
def AnalyzeState.routeAfterLoad (s : AnalyzeState) : Node :=
  if s.loadFailed then .prepareHitl else .research

/-- `should_continue_research`, for `ANALYZE_MAX_RESEARCH_STEPS`. -/
def AnalyzeState.shouldContinueResearch (maxSteps : Nat)
    (s : AnalyzeState) : Node :=
  if s.research.length ≥ maxSteps then .decide
  else
    match s.messages.getLast? with
    | none => .decide
    | some last => if last.toolCalls ≠ [] then .tools else .decide

/-- `route_after_decide`. -/
def AnalyzeState.routeAfterDecide (s : AnalyzeState) : Node :=
  match s.decision with
  -- no decision: either of the two tests sends it to a person
  | none => .prepareHitl
  | some decision =>
      if decision.informationSufficient = false then .prepareHitl
      else if decision.action = some .other then .unsupported
      else .writeReport

/-- The edges of the graph. -/
def AnalyzeState.successor (maxSteps : Nat) (s : AnalyzeState) :
    Node → Node
  | .loadContext => s.routeAfterLoad
  | .research => s.shouldContinueResearch maxSteps
  | .tools => .recordResearch
  | .recordResearch => .research
  | .decide => s.routeAfterDecide
  | .writeReport | .unsupported | .prepareHitl => .finalize
  | .finalize | .done => .done

-- ====================================================================== steps

/-- The event is one of the next node, with what this node can be
given. -/
def AnalyzeEvent.fits (e : AnalyzeEvent) (s : AnalyzeState) : Bool :=
  e.node = s.next && match e with
    | .research reply => reply.type = some "ai"
    | .tools answers => answersLast s.messages answers
    | _ => true

/-- What a node makes of the channels. -/
def AnalyzeEvent.perform (e : AnalyzeEvent) (s : AnalyzeState) :
    Option AnalyzeState :=
  match e with
  | .loadContext content => some (s.loadContext content)
  | .research reply => some { s with messages := s.messages ++ [reply] }
  | .tools answers => some { s with messages := s.messages ++ answers }
  | .recordResearch => s.recordResearch rt floatRepr
  | .decide outcome => some (s.decide outcome)
  | .writeReport => s.writeReport rt floatRepr
  | .unsupported => s.unsupported rt floatRepr
  | .prepareHitl => s.prepareHitl rt floatRepr
  | .finalize =>
      some { s with stageResult := some (buildAnalyzeStageResult floatRepr s) }

/-- A super-step. -/
def AnalyzeState.step (maxSteps : Nat) (e : AnalyzeEvent)
    (s : AnalyzeState) : Option AnalyzeState :=
  if e.fits s then
    (e.perform rt floatRepr s).map fun s' =>
      { s' with next := s'.successor maxSteps e.node }
  else none

end Graph

end LegalBot.Stages
