/-
A LangGraph thread, the input of a graph call and the calls that enter the
graph.

# The input

`_invoke_graph` is shared by three tasks. It is given the ids of the run
and of the session, the resume payload and what its caller knows of the
attachments; everything else it reads from the rows of the session and
its job, between its reads and `graph.ainvoke`. The input is the state,
or the `Command`, that it builds (`graphInput`).

# What a graph keeps

A compiled graph has the channels its state schema declares
(`LegalEmailState`), and takes from its input and from the checkpoint of
its thread these keys only. A `Command` brings no values: the call goes
on from the checkpoint, after `_ensure_resume_has_attachments`.

# Who enters it

Three tasks call `_invoke_graph`, each with what it knows of the
attachments (`GraphEntry`): `run_pipeline` starts a job, `resume_run`
answers an interrupt or, without a payload, runs a replay, and
`continue_session` serves a follow-up or a schedule.

# Calls

A call works on values of its own, loaded when it enters, and saves them
to the checkpoint with each write. No node of the graph writes
`has_attachments`.
-/
import LegalBot.Json.Members
import LegalBot.Lib.System
import LegalBot.Workers.Invocation

namespace LegalBot

open Relational (HasKey Table)

-- ==================================================================== input

/-- `HumanMessage(content=…)`. -/
structure HumanMessage where
  content : String
  deriving DecidableEq, Repr

/-- `initial_state`; the optional members are left out when `none`. -/
structure InitialState where
  sessionId : String
  runId : String
  userId : String
  graphThreadId : String
  messages : List HumanMessage
  jobId : Option String
  emailId : Option String
  hasAttachments : Option Bool
  attachmentCount : Option Nat
  deriving DecidableEq, Repr

/-- What `ainvoke` is called with. -/
inductive GraphInput where
  | command (resume : Json)
  | state (initial : InitialState)
  deriving DecidableEq

/-- The content of the one message of `initial_state`. -/
def processEmailPrompt : String :=
  "Process the inbound email for this job end-to-end. "
    ++ "Your first action must be task('extract', ...)."

/-- The input that `_invoke_graph` builds; `none` when the session is not
there. -/
def graphInput (db : Db) (inv : Invocation)
    (attachmentCount : Option Nat) : Option GraphInput :=
  (db.sessions.get inv.sessionId).map fun session =>
    if inv.resumes then .command inv.resumePayload
    else
      let job := db.jobs.get session.jobId
      .state
        { sessionId := toString inv.sessionId
          runId := toString inv.runId
          userId := session.ownerUserId
          graphThreadId := session.threadId
          messages := [⟨processEmailPrompt⟩]
          jobId := job.map fun job => toString job.id
          emailId := job.map fun job => toString job.ingestionItemId
          hasAttachments := inv.hasAttachments
          attachmentCount := attachmentCount }

/-- The human messages that an input adds to the thread. -/
def GraphInput.humanMessages : GraphInput → List HumanMessage
  | .command _ => []
  | .state initial => initial.messages

/-- A call that does not resume adds the prompt and nothing else. -/
theorem graphInput_fresh {db : Db} {inv : Invocation} {session : Session}
    {attachmentCount : Option Nat}
    (hsession : db.sessions.get inv.sessionId = some session)
    (hfresh : inv.resumes = false) :
    ∃ input, graphInput db inv attachmentCount = some input
      ∧ input.humanMessages = [⟨processEmailPrompt⟩] := by
  unfold graphInput
  rw [hsession]
  simp only [Option.map_some, hfresh, Bool.false_eq_true, if_false]
  exact ⟨_, rfl, rfl⟩

-- ================================================================= channels

/-- The keys of `LegalEmailState`. -/
def legalEmailStateKeys : List String :=
  ["messages", "plan", "files", "artifact_index", "job_id", "session_id",
    "run_id", "user_id", "graph_thread_id", "email_id", "has_attachments",
    "ask_human_count", "stage_result", "raw_llm_reasoning",
    "intermediate_tool_outputs", "scratchpad", "analyze_user_input",
    "analyze_research", "analyze_research_recorded", "analyze_decision",
    "analyze_needs_hitl", "analyze_load_failed", "analyze_blockers",
    "extracted_info", "analysis", "action", "draft", "reflection"]

/-- The members of a dict that have a channel. -/
def declared (values : List (String × Json)) : List (String × Json) :=
  values.filter fun m => decide (m.1 ∈ legalEmailStateKeys)

/-- `add_messages`, for messages without an id. -/
def addMessages (old : Option Json) (new : List Json) : Json :=
  match old with
  | some (.arr messages) => .arr (messages ++ new)
  | _ => .arr new

/-- A human message in the state. -/
def HumanMessage.value (m : HumanMessage) : Json :=
  .obj [("type", .str "human"), ("content", .str m.content)]

/-- `initial_state` without its messages. -/
def InitialState.values (s : InitialState) : List (String × Json) :=
  [("session_id", .str s.sessionId), ("run_id", .str s.runId),
    ("user_id", .str s.userId), ("graph_thread_id", .str s.graphThreadId)]
    ++ (s.jobId.map fun id => ("job_id", Json.str id)).toList
    ++ (s.emailId.map fun id => ("email_id", Json.str id)).toList
    ++ (s.hasAttachments.map fun b => ("has_attachments", Json.bool b)).toList
    ++ (s.attachmentCount.map fun n =>
      ("attachment_count", Json.int n)).toList

/-- The values of a graph that is given an input on a checkpoint. -/
def takeInput (checkpoint : List (String × Json)) (input : InitialState) :
    List (String × Json) :=
  let values := Json.assignAll (declared checkpoint)
    (declared input.values)
  Json.setMember values "messages"
    (addMessages (Json.getMember values "messages")
      (input.messages.map HumanMessage.value))

-- ================================================================== entries

/-- The task that calls `_invoke_graph`. -/
inductive GraphEntry where
  | runPipeline (runId : Uuid)
  | continueSession (runId : Uuid)
  | resumeRun (runId : Uuid) (kind : RunKind) (payload : Json)
  deriving DecidableEq

/-- Its call, for an email with that many attachments. -/
def GraphEntry.invocation (sessionId : Uuid) (count : Nat) :
    GraphEntry → Invocation
  | .runPipeline runId => ⟨runId, sessionId, .null, some (0 < count), none⟩
  | .continueSession runId => ⟨runId, sessionId, .null, none, none⟩
  | .resumeRun runId _ payload =>
      ⟨runId, sessionId, payload, some (0 < count), none⟩

/-- The `attachment_count` of its call. -/
def GraphEntry.attachmentCount (count : Nat) : GraphEntry → Option Nat
  | .runPipeline _ => some count
  | .continueSession _ => none
  | .resumeRun _ kind _ => if kind = .pipeline then some count else none

/-- `_ensure_resume_has_attachments`. -/
def ensureResumeHasAttachments (checkpoint : List (String × Json))
    (hasAttachments : Bool) : List (String × Json) :=
  match Json.getMember checkpoint "has_attachments" with
  | none | some .null =>
      Json.setMember checkpoint "has_attachments" (.bool hasAttachments)
  | some _ => checkpoint

/-- The attachments of the email that a session works on. -/
def sessionAttachmentCount (db : Db) (sessionId : Uuid) : Nat :=
  match (db.sessions.get sessionId).bind fun s => db.jobs.get s.jobId with
  | some job => ingestionItemAttachmentCount db job.ingestionItemId
  | none => 0

/-- The values a call starts from. -/
def entered (db : Db) (sessionId : Uuid)
    (checkpoint : List (String × Json)) (e : GraphEntry) :
    Option (List (String × Json)) :=
  let count := sessionAttachmentCount db sessionId
  let inv := e.invocation sessionId count
  (graphInput db inv (e.attachmentCount count)).map fun input =>
    match input with
    | .state initial => takeInput checkpoint initial
    | .command _ =>
        let values := declared checkpoint
        match inv.hasAttachments with
        | some b => ensureResumeHasAttachments values b
        | none => values

-- =================================================================== threads

/-- A call of the graph: how it entered, the checkpoint it found, and
the values it works on. -/
structure GraphCall where
  entry : GraphEntry
  found : List (String × Json)
  values : List (String × Json)
  deriving DecidableEq

/-- A thread with the calls in progress on it. -/
structure GraphThread where
  checkpoint : List (String × Json)
  calls : List GraphCall
  deriving DecidableEq

/-- A thread whose checkpoint is from before these calls. -/
def GraphThread.init (older : List (String × Json)) : GraphThread :=
  ⟨older, []⟩

/-- What may happen on a thread: a task enters the graph, a node of a
call writes a channel (the value is the one its reducer leaves), a call
returns. -/
inductive ThreadAction where
  | enter (e : GraphEntry)
  | write (i : Nat) (key : String) (v : Json)
  | leave (i : Nat)
  deriving DecidableEq

/-- Take one step on the thread of a session. -/
def GraphThread.step (db : Db) (sessionId : Uuid) (a : ThreadAction)
    (t : GraphThread) : Option GraphThread :=
  match a with
  | .enter e =>
      (entered db sessionId t.checkpoint e).map fun values =>
        ⟨values, ⟨e, t.checkpoint, values⟩ :: t.calls⟩
  | .write i key v =>
      if key ∈ legalEmailStateKeys ∧ key ≠ "has_attachments" then
        (t.calls[i]?).map fun call =>
          let values := Json.setMember call.values key v
          ⟨values, t.calls.set i { call with values := values }⟩
      else none
  | .leave i => some { t with calls := t.calls.eraseIdx i }

end LegalBot
