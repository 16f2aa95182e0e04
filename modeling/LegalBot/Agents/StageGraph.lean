/-
The loops of the stage graphs: `act_graph.py`, `contract_graph.py`,
`contract_validation_graph.py`, `reflect_graph.py` and `extract_graph.py`
of `agents/`.

# A graph

The five have one shape (`StageGraph`): the model node, the tool node
while the last message calls tools, then `finalize`. They differ in what
the model is told and may call, and in what they hand off.

# A super-step

One node runs. A reply is a message of the model. The tool node answers
each call of the last message with one tool message: by running a tool of
the stage (a call that returns or raises), or else with any message: of a
tool that is not modelled, or about a call it does not run. The steps of
the messages and the tools are those of `StageHistory`. `finalize` of the
extract stage first writes the inventory, and may raise; the others only
make the handoff.

# Ghost state

`requests` has what the model was given, request by request.
-/
import LegalBot.Agents.ExtractInventory
import LegalBot.Agents.StageHistory
import LegalBot.Agents.Subagents

namespace LegalBot.Stages

open Tools (ToolState)

-- ==================================================================== graphs

/-- What the graphs differ in. -/
structure StageGraph where
  stage : Subagent
  tools : List String
  fallbackHuman : String
  primaryArtifactKey : Option (List String)
  nextStage : Option String
  deriving DecidableEq, Repr

/-- `build_act_graph`. -/
def actGraph : StageGraph :=
  { stage := .act
    tools := ["read_artifact", "write_artifact", "update_artifact",
      "list_artifacts", "write_draft", "schedule_followup"]
    fallbackHuman :=
      "Execute actions: draft replies, schedule follow-ups, or ask "
        ++ "the user."
    primaryArtifactKey := some ["act/outcome", "drafts/reply"]
    nextStage := some "reflection" }

/-- `build_contract_graph`. -/
def contractGraph : StageGraph :=
  { stage := .draftContract
    tools := ["list_contract_types", "get_contract_requirements",
      "read_artifact", "list_artifacts", "fill_contract_template"]
    fallbackHuman :=
      "Validate the contract type and fill the template if all fields "
        ++ "are present."
    primaryArtifactKey := some ["contracts/draft"]
    nextStage := some "validate_contract" }

/-- `build_contract_validation_graph`. -/
def contractValidationGraph : StageGraph :=
  { stage := .validateContract
    tools := ["read_artifact", "search_contract_examples", "write_artifact"]
    fallbackHuman :=
      "Validate the drafted contract against example contracts and "
        ++ "record observations."
    primaryArtifactKey := some ["contracts/review"]
    nextStage := none }

/-- `build_reflect_graph`. -/
def reflectGraph : StageGraph :=
  { stage := .reflection
    tools := ["read_artifact", "list_artifacts", "manage_memory_episodes",
      "search_memory_episodes"]
    fallbackHuman :=
      "Distill the completed task into a durable episode for future runs."
    primaryArtifactKey := none
    nextStage := none }

/-- `build_extract_graph`. -/
def extractGraph : StageGraph :=
  { stage := .extract
    tools := ["fetch_email", "run_attachment_extraction", "analyze_image",
      "write_artifact", "read_artifact"]
    fallbackHuman :=
      "Extract structured facts from the email and attachments."
    primaryArtifactKey := some ["analysis/extracted"]
    nextStage := some "analyze" }

/-- The graphs with such a loop. -/
def stageGraphs : List StageGraph :=
  [actGraph, contractGraph, contractValidationGraph, reflectGraph,
    extractGraph]

-- =================================================================== routing

inductive LoopNode where
  | model | tools | finalize | done
  deriving DecidableEq, Repr

/-- `should_continue`. -/
def shouldContinue (messages : List Message) : LoopNode :=
  match messages.getLast? with
  | none => .finalize
  | some last => if last.toolCalls ≠ [] then .tools else .finalize

-- =================================================================== answers

/-- The event answers the call, with one tool message. -/
def answersCall (tools : List String) (call : ToolCall) :
    StageEvent → Bool
  | .message m =>
      m.type = some "tool" ∧ m.toolCallId = call.id ∧ m.name = call.name
  | .call _ _ callId c | .raised _ _ callId c _ =>
      c.name ∈ tools ∧ call.id = .str callId ∧ call.name = .str c.name

/-- One event for each call, in order. -/
def answersCalls (tools : List String) :
    List ToolCall → List StageEvent → Bool
  | [], [] => true
  | call :: calls, e :: events =>
      answersCall tools call e && answersCalls tools calls events
  | _, _ => false

/-- The calls the tool node runs. -/
def pendingCalls (messages : List Message) : List ToolCall :=
  match messages.getLast? with
  | none => []
  | some last => last.toolCalls

-- ===================================================================== steps

/-- A graph under way. -/
structure LoopState where
  next : LoopNode
  stage : StageState
  requests : List (List Message)
  handoff : Option StageResult

/-- Before the first node. -/
def LoopState.start (tools : ToolState) (messages : List Message) :
    LoopState :=
  ⟨.model, .start tools messages, [], none⟩

inductive LoopEvent where
  | reply (m : Message)
  | tools (answers : List StageEvent)
  | finalize (id : Uuid)

section Steps

variable (g : StageGraph) (st : Stage) (prompt : Subagent → String)
  (emails : Uuid → Option Inventory.EmailRow)

/-- The messages of `model.invoke`. -/
def StageGraph.request (messages : List Message) : List Message :=
  prepareStageMessages st.env.rt messages (prompt g.stage) g.fallbackHuman

/-- `finalize_node`: what it leaves, and the handoff. -/
def StageGraph.finalize (id : Uuid) (s : StageState) :
    Option (StageState × StageResult) :=
  if g.stage = .extract then
    match Inventory.finalizeNode st.env.rt st.floatRepr st.env.svc
        ⟨s.tools.t.db, s.tools.blobs, emails⟩ s.messages st.sessionId
        st.runId id with
    | .ok done =>
        some ({ s with tools := { s.tools with
                  t := { s.tools.t with db := { s.tools.t.db with
                    artifacts := done.artifacts } }
                  blobs := done.blobs } }, done.stageResult)
    | .error _ => none
  else
    some (s, s.result st g.stage.checkpointNs g.primaryArtifactKey
      g.nextStage)

/-- A super-step; `none` is an event of another node. -/
def LoopState.step (e : LoopEvent) (s : LoopState) : Option LoopState :=
  match e with
  | .reply m =>
      if s.next = .model ∧ m.type = some "ai" then
        (s.stage.step st (.message m)).map fun stage =>
          { s with
            next := shouldContinue stage.messages
            stage := stage
            requests := s.requests
              ++ [g.request st prompt s.stage.messages] }
      else none
  | .tools answers =>
      if s.next = .tools ∧ answersCalls g.tools
          (pendingCalls s.stage.messages) answers then
        (Lts.run (StageState.step st) s.stage answers).map fun stage =>
          { s with next := .model, stage := stage }
      else none
  | .finalize id =>
      if s.next = .finalize then
        (g.finalize st emails id s.stage).map fun done =>
          { s with
            next := .done, stage := done.1, handoff := some done.2 }
      else none

/-- The states of an invocation. -/
abbrev LoopReaches (init : LoopState) : LoopState → Prop :=
  Lts.Reachable (LoopState.step g st prompt emails) Lts.Always init

end Steps

end LegalBot.Stages
