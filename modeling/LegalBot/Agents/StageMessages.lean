/-
`agents/stage_messages.py`, and the `messages` value of a replay fork
(`services/replay.py`).

# Messages

A message is what the helpers read of it by `getattr`: an attribute that
is missing reads as `None`, which is `.null` here, and a `type` that is
no text compares equal to no text, as `none` does. Ids are compared as
`str(…)`.

# The channel

`_replay_fork_messages` returns an update of the `messages` channel; the
reducer clears the channel at the remove-all message and appends what
comes after it (`applyUpdate`).
-/
import LegalBot.Artifacts.Service
import Mathlib.Data.Finset.Erase
import Mathlib.Data.Finset.Image

namespace LegalBot.Stages

-- ================================================================== messages

/-- An entry of `tool_calls`, a dict or an object. -/
structure ToolCall where
  id : Json
  name : Json
  deriving DecidableEq, Repr

/-- A message, by its attributes. -/
structure Message where
  type : Option String
  content : Json
  name : Json
  toolCallId : Json
  toolCalls : List ToolCall
  deriving DecidableEq, Repr

/-- `SystemMessage(content=…)`. -/
def systemMessage (content : String) : Message :=
  ⟨some "system", .str content, .null, .null, []⟩

/-- `HumanMessage(content=…)`. -/
def humanMessage (content : String) : Message :=
  ⟨some "human", .str content, .null, .null, []⟩

-- ================================================================ validation

section Validation

variable (rt : Runtime)

/-- The id of a tool call as a text, when there is one. -/
def ToolCall.usableId (tc : ToolCall) : Option String :=
  if tc.id = .null ∨ strOf rt tc.id = "" then none else some (strOf rt tc.id)

/-- `_tool_call_ids_from_ai`. -/
def toolCallIdsFromAi (msg : Message) : Finset String :=
  (msg.toolCalls.filterMap fun tc => tc.usableId rt).toFinset

/-- The loop of `_openai_tool_chain_valid`; `none` is a `return False`. -/
def pendingAfter : Finset String → List Message → Option (Finset String)
  | pending, [] => some pending
  | pending, msg :: rest =>
      if msg.type = some "tool" then
        if msg.toolCallId = .null ∨ strOf rt msg.toolCallId ∉ pending then
          none
        else pendingAfter (pending.erase (strOf rt msg.toolCallId)) rest
      else if msg.type = some "ai" then
        if pending ≠ ∅ then none
        -- without ids `pending` stays as it is, which is empty
        else pendingAfter (toolCallIdsFromAi rt msg) rest
      else if pending ≠ ∅ then none
      else pendingAfter pending rest

/-- `_openai_tool_chain_valid`. -/
def openaiToolChainValid (messages : List Message) : Bool :=
  pendingAfter rt ∅ messages = some ∅

-- =============================================================== preparation

/-- `sanitize_messages_for_openai_chat`: the first of `messages[start:]`
that is valid. -/
def sanitizeMessagesForOpenaiChat : List Message → List Message
  | [] => []
  | msg :: rest =>
      if openaiToolChainValid rt (msg :: rest) then msg :: rest
      else sanitizeMessagesForOpenaiChat rest

/-- `prepare_stage_messages`. -/
def prepareStageMessages (messages : List Message)
    (systemPrompt fallbackHuman : String) : List Message :=
  if messages = [] then
    [systemMessage systemPrompt, humanMessage fallbackHuman]
  else
    let cleaned := sanitizeMessagesForOpenaiChat rt messages
    if cleaned = [] then
      [systemMessage systemPrompt, humanMessage fallbackHuman]
    else if cleaned.any fun message =>
        message.type = some "system"
          ∧ message.content = .str systemPrompt then cleaned
    else systemMessage systemPrompt :: cleaned

-- ==================================================================== replay

/-- An entry of an update of the channel. -/
inductive Update where
  | removeAll
  | message (m : Message)
  deriving DecidableEq, Repr

/-- `_replay_fork_messages`. -/
def replayForkMessages (existing : List Message) (extraContext : String) :
    List Update :=
  .removeAll
    :: (sanitizeMessagesForOpenaiChat rt existing).map .message
    ++ [.message (humanMessage extraContext)]

/-- `add_messages`, entry by entry. -/
def applyUpdate : List Message → List Update → List Message
  | channel, [] => channel
  | _, .removeAll :: rest => applyUpdate [] rest
  | channel, .message m :: rest => applyUpdate (channel ++ [m]) rest

end Validation

end LegalBot.Stages
