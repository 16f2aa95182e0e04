/-
Every transaction that writes the orchestration tables, as one data
type, with what each of them commits and what it does to each table.

# The log

`Tx.events` is ghost data: what a committed transaction did to a job or
an interrupt, in the terms the safety claims are about. No modelled
function reads it. `Committed`, in `Orchestrator/Commits.lean`, ties it
to the rows.
-/
import LegalBot.Services.Starters

namespace LegalBot

open Relational (HasKey Table)

-- ================================================================ the log

/-- What a run of the system records. `invoked` is a graph invocation:
`resume` tells `Command(resume=…)` from the initial state, `interrupt`
names the resolved interrupt it answers. -/
inductive Event where
  | entered (job run : Uuid)
  | finished (job run : Uuid) (kind : SessionKind) (toState : JobState)
  | closed (interrupt : Uuid) (status : InterruptStatus)
  | invoked (run : Uuid) (resume : Bool) (interrupt : Option Uuid)
  deriving DecidableEq, Repr

-- =========================================================== transactions

/-- A status `_mark_run_status` is called with: a run never becomes
`running` again. -/
abbrev MarkedStatus := { st : RunStatus // st ≠ .running }

/-- The transactions, under the names of the functions that run them. -/
inductive Tx where
  | upsert (mapped : MappedItem) (ownerUserId : String)
      (itemId jobId : Uuid) (attachmentIds : List Uuid)
  | dispatchOnce (limit : Nat) (locked : List Uuid)
  | reapStuck
  | retry (job : ProcessingJob)
  | cancel (job : ProcessingJob) (reason : String)
  | archive (job : ProcessingJob)
  | markFailed (jobId : Uuid) (fromState : JobState)
      (error errorKind : String)
  | startPipeline (jobId sessionId runId : Uuid) (hex : String)
  | resumeTransition (runId : Uuid)
  | markRunStatus (runId : Uuid) (status : MarkedStatus)
  | finalizeJob (sessionId runId : Uuid)
  | failJob (runId : Uuid) (exc : String)
  | pauseJob (sessionId runId : Uuid)
  | writeProjection (sessionId runId : Uuid) (output : GraphOutput)
      (ids : List Uuid)
  | openInterrupt (id sessionId : Uuid) (runId : Option Uuid)
      (kind : InterruptKind) (payload : Json) (schema : Option Json)
  | resolve (sessionId : Uuid) (current : InterruptRequest)
      (resolution : InterruptResolution) (resolvedBy : Option String)
      (interventionId : Uuid)
  | expireStalled
  | postMessage (sessionId : Uuid) (content : String) (index : Int)
      (msgId runId : Uuid)
  | handleReminder (sessionId : Uuid) (message : String) (wake : Bool)
      (triggerPayload : Json) (index : Int) (msgId runId : Uuid)
  | replay (sessionId fromRunId : Uuid)
      (fromStep extraContext checkpointId : String)
      (childId runId : Uuid) (hex : String)
  | cancelActiveRun (sessionId : Uuid) (locked : List Uuid)
  | archiveSession (sessionId : Uuid)

/-- A transition of a service method that commits nothing else. -/
def withJobs (db : Db) (jobs : Except InvalidJobTransition
    (Table ProcessingJob)) : Except TxError Db :=
  (guarded jobs).map fun jobs => { db with jobs := jobs }

/-- The database a transaction commits. -/
def Tx.commit (cfg : Settings) (now : Time) (db : Db) :
    Tx → Except TxError Db
  | .upsert mapped owner itemId jobId ids =>
      LegalBot.upsert db now mapped owner itemId jobId ids
  | .dispatchOnce limit locked =>
      .ok { db with
        jobs := (dispatchRows now (pickReadyJobs db.jobs limit locked)
          db.jobs).1 }
  | .reapStuck => .ok { db with jobs := LegalBot.reapStuck cfg db.jobs now }
  | .retry job => withJobs db (LegalBot.retry job db.jobs now)
  | .cancel job reason => withJobs db (LegalBot.cancel job reason db.jobs now)
  | .archive job => withJobs db (LegalBot.archive job db.jobs now)
  | .markFailed j f error errorKind =>
      withJobs db (LegalBot.markFailed db.jobs now j f error errorKind)
  | .startPipeline j sid rid hex =>
      LegalBot.startPipeline db now j sid rid hex
  | .resumeTransition rid => LegalBot.resumeTransition db now rid
  | .markRunStatus rid st => LegalBot.markRunStatus db now rid st
  | .finalizeJob sid rid => finalizeJobIfPrimary db now sid rid
  | .failJob rid exc => failPipelineJobForGraphError db now rid exc
  | .pauseJob sid rid =>
      transitionPipelineJob db now sid rid .processing .awaitingHuman
  | .writeProjection sid rid output ids =>
      writeSessionProjection db now sid rid output ids
  | .openInterrupt id sid rid kind payload schema =>
      flushed (LegalBot.openInterrupt db
        (newInterrupt cfg id sid rid kind payload schema none now))
  | .resolve sid current resolution resolvedBy interventionId =>
      flushed (LegalBot.resolve db now sid current resolution resolvedBy
        interventionId)
  | .expireStalled => .ok (LegalBot.expireStalled db now)
  | .postMessage sid content index msgId rid =>
      LegalBot.postMessage db now sid content index msgId rid
  | .handleReminder sid message wake payload index msgId rid =>
      LegalBot.handleReminder db now sid message wake payload index msgId
        rid
  | .replay sid fromRun step ctx cp childId rid hex =>
      LegalBot.replay db now sid fromRun step ctx cp childId rid hex
  | .cancelActiveRun sid locked =>
      .ok (LegalBot.cancelActiveRun db now sid locked)
  | .archiveSession sid =>
      .ok { db with sessions := setSessionStatus db.sessions sid .archived }

/-- The state of a job, if it is there. -/
def jobState (db : Db) (jobId : Uuid) : Option JobState :=
  (db.jobs.get jobId).map (·.state)

/-- The status of a run, if it is there. -/
def runStatus (db : Db) (rid : Uuid) : Option RunStatus :=
  (db.runs.get rid).map (·.status)

/-- The job of a run's row. -/
def runJob (db : Db) (rid : Uuid) : Option Uuid :=
  (db.runs.get rid).map (·.jobId)

/-- What the log records when a transaction commits on `db`. -/
def Tx.events (now : Time) (db : Db) : Tx → List Event
  | .startPipeline j _ rid _ => [.entered j rid]
  | .resumeTransition rid =>
      match db.runs.get rid with
      | none => []
      | some run =>
          match db.sessions.get run.sessionId with
          | none => []
          | some session =>
              if run.kind = .pipeline
                  ∧ jobState db session.jobId = some .awaitingHuman then
                [.entered session.jobId rid]
              else []
  | .finalizeJob sid rid =>
      match db.runs.get rid, db.sessions.get sid with
      | some run, some session =>
          if run.kind = .pipeline then
            [.finished session.jobId rid session.kind .completed]
          else []
      | _, _ => []
  | .failJob rid _ =>
      match db.runs.get rid with
      | none => []
      | some run =>
          match db.sessions.get run.sessionId with
          | none => []
          | some session =>
              if run.kind = .pipeline
                  ∧ jobState db run.jobId = some .processing then
                [.finished run.jobId rid session.kind .failed]
              else []
  | .resolve _ current _ _ _ => [.closed current.id .resolved]
  | .expireStalled =>
      (db.interrupts.rows.filter (isStalled now)).map fun r =>
        .closed r.id .expired
  | _ => []

/-- A transaction calls no graph. -/
theorem invoked_not_logged {tx : Tx} {now : Time} {db : Db} {run : Uuid}
    {resume : Bool} {k : Option Uuid} :
    Event.invoked run resume k ∉ tx.events now db := by
  intro he
  cases tx with
  | expireStalled =>
      obtain ⟨_, -, he⟩ := List.mem_map.mp he
      cases he
  | _ =>
      unfold Tx.events at he
      grind

end LegalBot
