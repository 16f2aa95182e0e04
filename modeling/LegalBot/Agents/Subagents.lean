/-
`agents/subagents.py`: the config under which a compiled stage graph is
invoked.

A stage is invoked with the state of its parent graph, a dict. What the
config takes from it are the thread, the run for the checkpoint
namespace, and what the recursion limit depends on. `int()` of a text or
a float is `parse`, which may raise.
-/
import LegalBot.Artifacts.Service
import LegalBot.Json.Members

namespace LegalBot

-- ================================================================= settings

/-- The settings that bound a stage. -/
structure StageLimits where
  default : Int
  extractNone : Int
  extractSmall : Int
  extractLarge : Int
  analyzeMaxResearchSteps : Int
  deriving DecidableEq, Repr

/-- `core/config.py`. -/
def StageLimits.shipped : StageLimits := ⟨25, 8, 12, 20, 12⟩

/-- The stages of `build_compiled_subagents`. -/
inductive Subagent where
  | extract | analyze | act | draftContract | validateContract | reflection
  deriving DecidableEq, Repr

/-- Their `checkpoint_ns`. -/
def Subagent.checkpointNs : Subagent → String
  | .extract => "extract"
  | .analyze => "analyze"
  | .act => "act"
  | .draftContract => "draft_contract"
  | .validateContract => "validate_contract"
  | .reflection => "reflection"

-- =================================================================== limits

/-- `int(v)`. -/
def intOf (parse : Json → Option Int) : Json → Option Int
  | .int n => some n
  | .bool b => some (if b then 1 else 0)
  | .null | .arr _ | .obj _ => none
  | v => parse v

/-- `int(state.get("attachment_count") or 0)`. -/
def attachmentCountOf (parse : Json → Option Int)
    (state : List (String × Json)) : Option Int :=
  match Json.getMember state "attachment_count" with
  | none => some 0
  | some v => if v.truthy then intOf parse v else some 0

/-- `_recursion_limit`; `none` when `int()` raises. -/
def recursionLimit (limits : StageLimits) (parse : Json → Option Int)
    (stage : Subagent) (state : List (String × Json)) : Option Int :=
  match stage with
  | .extract =>
      if Json.getMember state "has_attachments" = some (.bool false) then
        some limits.extractNone
      else
        (attachmentCountOf parse state).map fun count =>
          if count ≤ 2 then limits.extractSmall else limits.extractLarge
  | .analyze =>
      -- load, N × (research, tools, record), decide and the ends
      some (8 + 3 * limits.analyzeMaxResearchSteps)
  | _ => some limits.default

-- =================================================================== config

/-- A `RunnableConfig`: `other` are the members that no stage sets. -/
structure RunnableConfig where
  configurable : List (String × Json)
  recursionLimit : Option Int
  other : List (String × Json)
  deriving DecidableEq

/-- `str(state.get("run_id") or "").strip() or "norun"`. -/
def runSlug (rt : Runtime) (state : List (String × Json)) : String :=
  let text := match Json.getMember state "run_id" with
    | none => ""
    | some v => if v.truthy then strip (strOf rt v) else ""
  if text = "" then "norun" else text

/-- `configurable["thread_id"] = thread_id`, when the state has one. -/
def bindThread (configurable state : List (String × Json)) :
    List (String × Json) :=
  match Json.getMember state "graph_thread_id" with
  | none => configurable
  | some threadId =>
      if threadId.truthy then
        Json.setMember configurable "thread_id" threadId
      else configurable

/-- `_stage_config`. -/
def stageConfig (rt : Runtime) (limits : StageLimits)
    (parse : Json → Option Int) (stage : Subagent)
    (state : List (String × Json)) (config : RunnableConfig)
    (attemptId : String) : Option RunnableConfig :=
  (recursionLimit limits parse stage state).map fun limit =>
    { config with
      configurable :=
        Json.setMember (bindThread config.configurable state)
          "checkpoint_ns"
          (.str (stage.checkpointNs ++ ":" ++ runSlug rt state ++ ":"
            ++ attemptId))
      recursionLimit := some limit }

-- =================================================================== extract

section Extract

variable {limits : StageLimits} {parse : Json → Option Int}
  {state : List (String × Json)}

/-- A state without a count never gets the large limit. -/
theorem recursionLimit_extract
    (hcount : Json.getMember state "attachment_count" = none) :
    recursionLimit limits parse .extract state
      = some (if Json.getMember state "has_attachments"
          = some (.bool false)
        then limits.extractNone else limits.extractSmall) := by
  unfold recursionLimit attachmentCountOf
  simp only [hcount]
  split
  · rfl
  · rfl

end Extract

end LegalBot
