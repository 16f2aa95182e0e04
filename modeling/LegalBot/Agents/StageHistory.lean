/-
The message history of a stage graph: any messages, with calls of the
stage tools in between.

# A call

The tool node runs the tool with the session and the run of the state,
and answers with one tool message (`toolMessage`): the JSON of what the
tool returned, or the text of an exception. A call that raises leaves the
tables as they were; what it put into the blob store stays.

Messages of the model, of people and of other tools are `message` events,
with nothing assumed of them. No order of calls is assumed either.

# Ghost state

`log` has what each call returned and the keys it wrote; `others` has the
messages that are not from the stage tools.
-/
import LegalBot.Agents.ArtifactTools
import LegalBot.Agents.ContractTools
import LegalBot.Agents.StageResult
import LegalBot.Json.Printed
import LegalBot.Lib.System

namespace LegalBot.Stages

open Tools

-- ===================================================================== calls

/-- A call of a stage tool. -/
inductive StageCall where
  | writeArtifact (input : ArtifactInput)
  | updateArtifact (input : ArtifactInput) (merge : String)
  | readArtifact (key : String) (version : Option Int)
  | listArtifacts (keyPrefix : Option String)
  | runAttachmentExtraction (attachmentId : String)
  | analyzeImage (attachmentId : String)
  | writeDraft (input : DraftInput)
  | fillContractTemplate (contractType : String)
      (fieldValues : List (String × Json))
  | listContractTypes
  | getContractRequirements (contractType : String)

/-- The name of the tool. -/
def StageCall.name : StageCall → String
  | .writeArtifact _ => "write_artifact"
  | .updateArtifact _ _ => "update_artifact"
  | .readArtifact _ _ => "read_artifact"
  | .listArtifacts _ => "list_artifacts"
  | .runAttachmentExtraction _ => "run_attachment_extraction"
  | .analyzeImage _ => "analyze_image"
  | .writeDraft _ => "write_draft"
  | .fillContractTemplate _ _ => "fill_contract_template"
  | .listContractTypes => "list_contract_types"
  | .getContractRequirements _ => "get_contract_requirements"

/-- Where a stage runs: what its tools call, the injected ids, and the
limit of `read_artifact`. -/
structure Stage where
  env : ToolEnv
  floatRepr : String → String
  sessionId : Uuid
  runId : Option Uuid
  maxBytes : Nat

/-- The code of the tool. -/
def StageCall.perform (st : Stage) (caller : Caller) :
    StageCall → ToolM ToolOutput
  | .writeArtifact input => writeArtifactTool st.env caller input
  | .updateArtifact input merge =>
      updateArtifactTool st.env caller input merge
  | .readArtifact key version =>
      readArtifactTool st.env st.maxBytes caller key version
  | .listArtifacts keyPrefix => listArtifactsTool caller keyPrefix
  | .runAttachmentExtraction attachmentId =>
      .json <$> Tools.runAttachmentExtraction st.env caller attachmentId
  | .analyzeImage attachmentId =>
      .json <$> Tools.analyzeImage st.env caller attachmentId
  | .writeDraft input => Tools.writeDraft st.env caller input
  | .fillContractTemplate contractType fieldValues =>
      .json <$> Tools.fillContractTemplate st.env caller contractType
        fieldValues
  | .listContractTypes => pure (.json contractTypesResult)
  | .getContractRequirements contractType =>
      pure (.json (Tools.getContractRequirements st.env contractType))

-- ================================================================== messages

/-- The content of a tool message. A list without items counts as one of
content blocks. -/
def outputContent : ToolOutput → Json
  | .json (.arr []) => .arr []
  | .json v => .str (Json.dumps v)
  | .text s => .str s

/-- `ToolMessage`. -/
def toolMessage (name callId : String) (content : Json) : Message :=
  ⟨some "tool", content, .str name, .str callId, []⟩

/-- The content of the answer to a call that raised. -/
def errorContent (text : String) : Json := .str ("Error: " ++ text)

-- =================================================================== history

/-- A call that returned. -/
structure LogEntry where
  call : StageCall
  output : ToolOutput
  written : List String

/-- A stage under way. -/
structure StageState where
  tools : ToolState
  messages : List Message
  log : List LogEntry
  others : List Message

/-- Before the first call. -/
def StageState.start (tools : ToolState) (messages : List Message) :
    StageState :=
  ⟨tools, messages, [], messages⟩

inductive StageEvent where
  | message (m : Message)
  | call (firstId secondId : Uuid) (callId : String) (call : StageCall)
  | raised (firstId secondId : Uuid) (callId : String) (call : StageCall)
      (text : String)

/-- The key of a version that is written. -/
def writtenKey : Effect → Option String
  | .write _ row => some row.key
  | _ => none

/-- The keys a call wrote. -/
def writtenBetween (s s' : ToolState) : List String :=
  (s'.effects.drop s.effects.length).filterMap writtenKey

/-- What a call may return: a value that Python has. -/
def OutputIsPython (floatRepr : String → String) : ToolOutput → Prop
  | .json v => Json.IsPython floatRepr v
  | .text _ => True

instance (floatRepr : String → String) (output : ToolOutput) :
    Decidable (OutputIsPython floatRepr output) :=
  match output with
  | .json v => inferInstanceAs (Decidable (Json.IsPython floatRepr v))
  | .text _ => isTrue trivial

def StageState.step (st : Stage) (e : StageEvent) (s : StageState) :
    Option StageState :=
  match e with
  | .message m =>
      some { s with messages := s.messages ++ [m], others := s.others ++ [m] }
  | .call firstId secondId callId call =>
      match Raising.run
          (call.perform st ⟨st.sessionId, st.runId, firstId, secondId⟩)
          s.tools with
      | (.ok output, tools) =>
          if OutputIsPython st.floatRepr output then
            some { s with
              tools := tools
              messages := s.messages
                ++ [toolMessage call.name callId (outputContent output)]
              log := s.log
                ++ [⟨call, output, writtenBetween s.tools tools⟩] }
          else none
      | (.error _, _) => none
  | .raised firstId secondId callId call text =>
      match Raising.run
          (call.perform st ⟨st.sessionId, st.runId, firstId, secondId⟩)
          s.tools with
      | (.ok _, _) => none
      | (.error _, tools) =>
          some { s with
            tools := { s.tools with blobs := tools.blobs }
            messages := s.messages
              ++ [toolMessage call.name callId (errorContent text)] }

/-- The states of a stage, from where it was started. -/
abbrev StageReaches (st : Stage) (init : StageState) : StageState → Prop :=
  Lts.Reachable (StageState.step st) Lts.Always init

/-- The result `build_stage_result` makes of the history. -/
def StageState.result (st : Stage) (s : StageState) (stage : String)
    (candidates : Option (List String)) (next : Option String) :
    StageResult :=
  buildStageResult st.floatRepr s.messages stage candidates next

end LegalBot.Stages
