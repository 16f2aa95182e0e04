/-
The rows of `db/models.py` and the database as one record of tables.

A row keeps the columns some modelled function reads or writes, under
the ORM class's names. Primary keys are carried by `Relational.Table`;
the other unique constraints (`uq_artifact_session_key_version`,
`uq_artifact_latest`, `uq_session_message_idx`, one job per ingestion
item) are checked where a row is inserted, as Postgres checks them.
-/
import LegalBot.Json
import LegalBot.Db.Types
import LegalBot.Lib.Table

namespace LegalBot

open Relational (HasKey Table)

-- ============================================================== ingestion

/-- `ingestion_item`. -/
structure IngestionItem where
  id : Uuid
  source : String
  externalId : String
  ownerUserId : String
  deriving DecidableEq, Repr

/-- `email_metadata`, keyed by the item it belongs to. -/
structure EmailMetadata where
  ingestionItemId : Uuid
  providerThreadId : Option String
  deriving DecidableEq, Repr

/-- `ingestion_attachment`. -/
structure IngestionAttachment where
  id : Uuid
  ingestionItemId : Uuid
  name : String
  deriving DecidableEq, Repr

-- =================================================== jobs, sessions, runs

/-- `processing_job`. -/
structure ProcessingJob where
  id : Uuid
  ingestionItemId : Uuid
  state : JobState
  priority : Int
  attempts : Nat
  lastError : Option String
  errorKind : Option String
  dispatchedAt : Option Time
  processingStartedAt : Option Time
  finishedAt : Option Time
  currentSessionId : Option Uuid
  ownerUserId : String
  createdAt : Time
  updatedAt : Time
  deriving DecidableEq, Repr

/-- `session`. -/
structure Session where
  id : Uuid
  jobId : Uuid
  threadId : String
  kind : SessionKind
  parentSessionId : Option Uuid
  branchFromRunId : Option Uuid
  branchFromCheckpointId : Option String
  status : SessionStatus
  interruptKind : Option InterruptKind
  activeInterruptId : Option Uuid
  messageCount : Nat
  lastActivityAt : Option Time
  ownerUserId : String
  createdAt : Time
  deriving DecidableEq, Repr

/-- `run`. -/
structure Run where
  id : Uuid
  sessionId : Uuid
  jobId : Uuid
  kind : RunKind
  status : RunStatus
  startedAt : Time
  finishedAt : Option Time
  trigger : String
  triggerPayload : Json
  deriving DecidableEq

/-- `run_step`. -/
structure RunStep where
  id : Uuid
  runId : Uuid
  stepName : String
  checkpointId : Option String
  checkpointNs : Option String
  status : String
  summary : Option String
  startedAt : Time
  deriving DecidableEq, Repr

/-- `session_message`. -/
structure SessionMessage where
  id : Uuid
  sessionId : Uuid
  runId : Option Uuid
  role : String
  content : String
  messageIndex : Int
  deriving DecidableEq, Repr

-- ============================================================ interrupts

/-- `interrupt_request`. -/
structure InterruptRequest where
  id : Uuid
  sessionId : Uuid
  runId : Option Uuid
  kind : InterruptKind
  payload : Json
  schema : Option Json
  status : InterruptStatus
  resolution : Option Json
  resolvedBy : Option String
  resolvedAt : Option Time
  createdAt : Time
  expiresAt : Option Time
  deriving DecidableEq

/-- `user_intervention`. -/
structure UserIntervention where
  id : Uuid
  interruptRequestId : Uuid
  runId : Option Uuid
  decision : String
  editedPayload : Json
  decidedBy : Option String
  deriving DecidableEq

-- ============================================================= artifacts

/-- `artifact`: one stored version under `(session_id, key)`. -/
structure Artifact where
  id : Uuid
  sessionId : Uuid
  runId : Option Uuid
  producer : String
  kind : String
  key : String
  version : Nat
  mime : String
  storage : ArtifactStorage
  contentInline : Option Json
  blobRef : Option String
  checksum : String
  sizeBytes : Nat
  metadata : Json
  supersedesArtifactId : Option Uuid
  isLatest : Bool
  createdBy : Option String
  deriving DecidableEq

-- ============================================================= schedules

/-- `scheduled_job`. -/
structure ScheduledJob where
  id : Uuid
  kind : String
  payload : Json
  scheduleKind : ScheduledJobScheduleKind
  status : ScheduledJobStatus
  nextRunAt : Option Time
  ownerUserId : String
  sessionId : Option Uuid
  jobId : Option Uuid
  runId : Option Uuid
  parentRunId : Option Uuid
  deriving DecidableEq

instance : HasKey IngestionItem Uuid := ⟨IngestionItem.id⟩
instance : HasKey EmailMetadata Uuid := ⟨EmailMetadata.ingestionItemId⟩
instance : HasKey IngestionAttachment Uuid := ⟨IngestionAttachment.id⟩
instance : HasKey ProcessingJob Uuid := ⟨ProcessingJob.id⟩
instance : HasKey Session Uuid := ⟨Session.id⟩
instance : HasKey Run Uuid := ⟨Run.id⟩
instance : HasKey RunStep Uuid := ⟨RunStep.id⟩
instance : HasKey ScheduledJob Uuid := ⟨ScheduledJob.id⟩
instance : HasKey SessionMessage Uuid := ⟨SessionMessage.id⟩
instance : HasKey InterruptRequest Uuid := ⟨InterruptRequest.id⟩
instance : HasKey UserIntervention Uuid := ⟨UserIntervention.id⟩
instance : HasKey Artifact Uuid := ⟨Artifact.id⟩

/-- The committed database. `run_step` and `scheduled_job`, of which the
orchestration sees no more than a replay does, are kept next to it
(`Orchestrator/Replays.lean`). -/
structure Db where
  items : Table IngestionItem
  emailMetadata : Table EmailMetadata
  attachments : Table IngestionAttachment
  jobs : Table ProcessingJob
  sessions : Table Session
  runs : Table Run
  messages : Table SessionMessage
  interrupts : Table InterruptRequest
  interventions : Table UserIntervention
  artifacts : Table Artifact

/-- The database before the first ingestion. -/
def Db.empty : Db :=
  { items := .empty, emailMetadata := .empty, attachments := .empty
    jobs := .empty, sessions := .empty, runs := .empty
    messages := .empty, interrupts := .empty, interventions := .empty
    artifacts := .empty }

end LegalBot
