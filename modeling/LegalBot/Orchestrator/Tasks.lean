/-
The program points of every actor and what each does there: `Handler`
for the API requests and the cron passes, `Worker` for the Celery tasks
of `workers/runs.py`.

A service method whose `UPDATE` depends on a row it read before is two
points, the second carrying that row; a method that publishes after its
commit is followed by `publish`. A worker task reaches `_invoke_graph`
through `invoke`, which carries the budget slot to release when the call
is over. An actor that ends, with an answer or an exception, is `done`.
-/
import LegalBot.Workers.Invocation

namespace LegalBot

open Relational (HasKey Table)

/-- What the code under verification is configured with. `valid` is
`Draft202012Validator(schema).validate`. -/
structure Env where
  cfg : Settings
  valid : Json → Json → Bool

-- ================================================================ handlers

/-- The program points of requests and cron passes. -/
inductive Handler where
  | done
  | publish (message : Message)
  -- ingestion and cron
  | ingest (mapped : MappedItem) (ownerUserId : String)
  | reapStuck
  | expireStalled
  | dispatchOnce
  | dispatchPick (limit : Nat)
  | acquireNext (jobs : List Uuid)
  | enqueueNext (job : Uuid) (rest : List Uuid)
  -- job operations
  | retry (jobId : Uuid)
  | retryUpdate (job : ProcessingJob)
  | cancel (jobId : Uuid) (reason : String)
  | cancelUpdate (job : ProcessingJob) (reason : String)
  | archive (jobId : Uuid)
  | archiveUpdate (job : ProcessingJob)
  | markFailed (jobId : Uuid) (fromState : JobState)
      (error errorKind : String)
  -- session operations
  | postMessage (sessionId : Uuid) (content : String)
  | postMessageIndex (sessionId : Uuid) (content : String)
  | postMessageInsert (sessionId : Uuid) (content : String) (index : Int)
  | reminder (sessionId : Uuid) (message : String) (wake : Bool)
      (payload : Json)
  | reminderInsert (sessionId : Uuid) (message : String) (wake : Bool)
      (payload : Json) (index : Int)
  | replay (sessionId fromRunId : Uuid) (fromStep extraContext : String)
  | replayInsert (sessionId fromRunId : Uuid)
      (fromStep extraContext checkpointId : String)
  | cancelRun (sessionId : Uuid)
  | cancelRunUpdate (sessionId : Uuid) (locked : List Uuid)
  | archiveSession (sessionId : Uuid)
  | resolve (sessionId : Uuid) (resolution : InterruptResolution)
      (resolvedBy : Option String)
  | resolveUpdate (sessionId : Uuid) (current : InterruptRequest)
      (resolution : InterruptResolution) (resumeValue : Json)
      (resolvedBy : Option String)

/-- Where a request or a cron pass starts. -/
def Handler.isEntry : Handler → Bool
  | .ingest .. | .reapStuck | .expireStalled | .dispatchOnce
  | .retry .. | .cancel .. | .archive .. | .markFailed ..
  | .postMessage .. | .reminder .. | .replay .. | .cancelRun ..
  | .archiveSession .. | .resolve .. => true
  | _ => false

/-- What follows the commit of a resolution: a run to resume is
published. -/
def afterResolve (current : InterruptRequest) (resumeValue : Json) :
    Handler :=
  match current.runId with
  | some r => .publish (.resumeRun r resumeValue (some current.id))
  | none => .done

/-- What a handler does at each point; `none` when the answer does not
fit the point. -/
def Handler.request (env : Env) (now : Time) (db : Db)
    (inFlight : Finset Uuid) (reply : Reply) :
    Handler → Option (Request Handler)
  | .done => none
  | .publish message =>
      match reply with
      | .ok => some (.send message .done)
      | .raised _ => some (.goto .done)
      | _ => none
  | .ingest mapped owner =>
      match reply with
      | .fresh (itemId :: jobId :: ids) _ =>
          some (.commit (.upsert mapped owner itemId jobId ids) .done
            fun _ => .done)
      | _ => none
  | .reapStuck => some (.commit .reapStuck .done fun _ => .done)
  | .expireStalled => some (.commit .expireStalled .done fun _ => .done)
  | .dispatchOnce =>
      let b := budgetCurrent env.cfg inFlight
      some (.goto (if b = 0 then .done else .dispatchPick b))
  | .dispatchPick limit =>
      match reply with
      | .locked ids =>
          some (.commit (.dispatchOnce limit ids)
            (.acquireNext (dispatchRows now
              (pickReadyJobs db.jobs limit ids) db.jobs).2)
            fun _ => .done)
      | _ => none
  | .acquireNext jobs =>
      match jobs with
      | [] => some (.goto .done)
      | job :: rest => some (.acquire job (.enqueueNext job rest))
  | .enqueueNext job rest =>
      match reply with
      | .ok => some (.send (.runPipeline job) (.acquireNext rest))
      | .raised _ => some (.goto .done)
      | _ => none
  | .retry j =>
      match db.jobs.get j with
      | some job => some (.goto (.retryUpdate job))
      | none => some (.goto .done)
  | .retryUpdate job => some (.commit (.retry job) .done fun _ => .done)
  | .cancel j reason =>
      match db.jobs.get j with
      | some job => some (.goto (.cancelUpdate job reason))
      | none => some (.goto .done)
  | .cancelUpdate job reason =>
      some (.commit (.cancel job reason) .done fun _ => .done)
  | .archive j =>
      match db.jobs.get j with
      | some job => some (.goto (.archiveUpdate job))
      | none => some (.goto .done)
  | .archiveUpdate job =>
      some (.commit (.archive job) .done fun _ => .done)
  | .markFailed j f error errorKind =>
      some (.commit (.markFailed j f error errorKind) .done
        fun _ => .done)
  | .postMessage sid content =>
      match db.sessions.get sid with
      | none => some (.goto .done)
      | some session =>
          match ensureAcceptingMessages session with
          | .ok _ => some (.goto (.postMessageIndex sid content))
          | .error _ => some (.goto .done)
  | .postMessageIndex sid content =>
      some (.goto (.postMessageInsert sid content
        (nextMessageIndex db.messages sid)))
  | .postMessageInsert sid content index =>
      match reply with
      | .fresh (msgId :: runId :: _) _ =>
          some (.commit (.postMessage sid content index msgId runId)
            (.publish (.continueSession runId)) fun _ => .done)
      | _ => none
  | .reminder sid message wake payload =>
      some (.goto (.reminderInsert sid message wake payload
        (nextMessageIndex db.messages sid)))
  | .reminderInsert sid message wake payload index =>
      match reply with
      | .fresh (msgId :: runId :: _) _ =>
          some (.commit
            (.handleReminder sid message wake payload index msgId runId)
            (if wake then .publish (.continueSession runId) else .done)
            fun _ => .done)
      | _ => none
  | .replay sid fromRun step ctx =>
      -- the step row with the checkpoint to fork from, or a 404
      match reply with
      | .checkpoint id => some (.goto (.replayInsert sid fromRun step ctx id))
      | .raised _ => some (.goto .done)
      | _ => none
  | .replayInsert sid fromRun step ctx cp =>
      match reply with
      | .fresh (childId :: runId :: _) hex =>
          some (.commit
            (.replay sid fromRun step ctx cp childId runId hex)
            (.publish (.resumeRun runId .null none)) fun _ => .done)
      | _ => none
  | .cancelRun sid =>
      some (.goto (.cancelRunUpdate sid (runningRuns db.runs sid)))
  | .cancelRunUpdate sid locked =>
      some (.commit (.cancelActiveRun sid locked) .done fun _ => .done)
  | .archiveSession sid =>
      some (.commit (.archiveSession sid) .done fun _ => .done)
  | .resolve sid resolution resolvedBy =>
      match checkResolution env.valid (currentForSession db.interrupts sid)
          resolution with
      | .ok (current, value) =>
          some (.goto (.resolveUpdate sid current resolution value
            resolvedBy))
      | .error _ => some (.goto .done)
  | .resolveUpdate sid current resolution value resolvedBy =>
      match reply with
      | .fresh (interventionId :: _) _ =>
          some (.commit
            (.resolve sid current resolution resolvedBy interventionId)
            (afterResolve current value) fun _ => .done)
      | .raised _ => some (.goto .done)  -- an artifact edit raised
      | _ => none

-- ================================================================= workers

/-- The program points of the Celery tasks. -/
inductive Worker where
  | done
  | runPipeline (jobId : Uuid)
  | continueSession (runId : Uuid)
  | resumeRun (runId : Uuid) (payload : Json) (interrupt : Option Uuid)
  | graphIndexRun (runId : Uuid)
  | invoke (inv : Invocation) (slot : Option Uuid) (stage : Stage)
  | release (jobId : Uuid)

/-- Where the task of a message starts. -/
def Message.entry : Message → Worker
  | .runPipeline j => .runPipeline j
  | .continueSession r => .continueSession r
  | .resumeRun r payload i => .resumeRun r payload i
  | .graphIndexRun r => .graphIndexRun r

/-- `_ingestion_item_has_attachments` for a job's item. -/
def jobHasAttachments (db : Db) (jobId : Uuid) : Option Bool :=
  (db.jobs.get jobId).map fun job =>
    decide (0 < ingestionItemAttachmentCount db job.ingestionItemId)

/-- The caller of `_invoke_graph` once it is over. -/
def afterInvoke : Option Uuid → Worker
  | some j => .release j
  | none => .done

/-- `_invoke_graph` has returned or raised. -/
def Stage.isOver : Stage → Bool
  | .returned _ | .escaped => true
  | _ => false

/-- What a worker task does at each point. -/
def Worker.request (env : Env) (db : Db) (reply : Reply) :
    Worker → Option (Request Worker)
  | .done => none
  | .runPipeline j =>
      match reply with
      | .fresh (sid :: rid :: _) hex =>
          some (.commit (.startPipeline j sid rid hex)
            (.invoke ⟨rid, sid, .null, jobHasAttachments db j, none⟩
              (some j) .enter) fun _ => .done)
      | _ => none
  | .continueSession rid =>
      match db.runs.get rid with
      | some run =>
          some (.goto (.invoke ⟨rid, run.sessionId, .null, none, none⟩ none
            .enter))
      | none => some (.goto .done)
  | .resumeRun rid payload interrupt =>
      match db.runs.get rid with
      | some run =>
          some (.commit (.resumeTransition rid)
            (.invoke ⟨rid, run.sessionId, payload,
              jobHasAttachments db run.jobId, interrupt⟩ none .enter)
            fun _ => .done)
      | none => some (.goto .done)
  | .graphIndexRun _ => some (.goto .done)
  | .invoke inv slot stage =>
      if stage.isOver then some (.goto (afterInvoke slot))
      else
        (stage.request env.cfg db inv reply).map
          (Request.map (Worker.invoke inv slot))
  | .release j =>
      match reply with
      | .ok => some (.release j .done)
      | .raised _ => some (.goto .done)
      | _ => none

-- ================================================================== actors

/-- A program point of an actor. -/
inductive Pc where
  | handler (h : Handler)
  | worker (w : Worker)

def Pc.idle : Pc := .handler .done

def Pc.isIdle : Pc → Bool
  | .handler .done | .worker .done => true
  | _ => false

/-- What an actor asks for. -/
def Pc.request (env : Env) (now : Time) (db : Db) (inFlight : Finset Uuid)
    (reply : Reply) : Pc → Option (Request Pc)
  | .handler h =>
      (h.request env now db inFlight reply).map (Request.map .handler)
  | .worker w => (w.request env db reply).map (Request.map .worker)

end LegalBot
