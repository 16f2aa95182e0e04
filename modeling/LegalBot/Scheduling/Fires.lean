/-
One fire of `workers/scheduled.py`, statement by statement: the task
`_run_scheduled_job`, the three handlers and the service methods they
call, on one `AsyncSession`.

# The session

The handler works in the transaction of the task, and commits it where a
service method does. A statement, a flush or a commit that fails leaves
the session of no more use: every later one raises as well, and what was
not committed is lost. An exception of the Python code in between leaves
it as it is, and the task goes on from there. The code's sessions do not
autoflush: a row is inserted where `flush` is called.

# Where a fire can fail

`Point` names the calls that leave the process; `Env.fault` says what
each of them raises. The other failures are the code's own: a payload of
the wrong shape, a row that is not there.

`_fork_thread` catches whatever it raises and writes the checkpoints
alone; the entries of redbeat are not rows. Both are left out.
-/
import LegalBot.Lib.Raising
import LegalBot.Scheduling.Firing

namespace LegalBot.Fires

open Relational (HasKey Table)
open Firing (payloadMembers payloadGet parseUuid asText)

-- =================================================================== rows

/-- What `mark_fired` writes to a row: `last_run_at`, `last_result`. -/
structure Mark where
  lastRunAt : Option Time
  lastResult : Option Json
  deriving DecidableEq

/-- The tables a fire reads or writes. -/
structure Store where
  db : Db
  schedules : Table ScheduledJob
  steps : Table RunStep
  marks : Uuid → Mark

/-- The tasks a fire may publish. -/
inductive Message where
  | continueSession (runId : Uuid)
  | resumeRun (runId : Uuid)
  | pollMailbox (mailboxId : Uuid)
  deriving DecidableEq, Repr

/-- A session: the rows that are committed, those its transaction sees,
whether the transaction has failed; and what was published. -/
structure DbSession where
  committed : Store
  working : Store
  broken : Bool
  sent : List Message

/-- A new session. -/
def DbSession.fresh (store : Store) : DbSession :=
  { committed := store, working := store, broken := false, sent := [] }

/-- The calls of a fire that leave the process. -/
inductive Point where
  | selectJob
  | selectIndex
  | updateSession
  | insertMessage
  | selectSession
  | selectRun
  | selectStep
  | insertSession
  | selectFollowUps
  | cancelFollowUp (id : Uuid)
  | insertRun
  | commitRun
  | enqueue
  | markFired
  | expire
  | commitFired
  deriving DecidableEq, Repr

/-- What the outside answers: what a call raises, the clock, the uuid4
values drawn, which of the latest steps comes first when they tie, and
the texts of what Python and the driver raise on a wrong value. -/
structure Env where
  fault : Point → Option String
  now : Time
  msgId : Uuid
  runId : Uuid
  childId : Uuid
  hex : String
  tie : Nat
  wrongValue : Json → String

/-- The code of a fire. -/
abbrev FireM := ExceptT String (StateM DbSession)

-- ============================================================= statements

/-- A statement of the open transaction, or a flush. -/
def execute {α : Type} (env : Env) (p : Point)
    (f : Store → Except String (α × Store)) : FireM α := do
  let s ← get
  if s.broken then
    throw "This Session's transaction has been rolled back"
  else
    match env.fault p with
    | some e => do
        set { s with broken := true }
        throw e
    | none =>
        match f s.working with
        | .error e => do
            set { s with broken := true }
            throw e
        | .ok (a, working) => do
            set { s with working := working }
            pure a

/-- A `SELECT`. -/
def query {α : Type} (env : Env) (p : Point) (f : Store → α) : FireM α :=
  execute env p fun st => .ok (f st, st)

/-- An `UPDATE`. -/
def update (env : Env) (p : Point) (f : Store → Store) : FireM Unit :=
  execute env p fun st => .ok ((), f st)

/-- `flush` of one row: an insert can only violate a key. -/
def flush (env : Env) (p : Point) (f : Store → Option Store) :
    FireM Unit :=
  execute env p fun st =>
    match f st with
    | some st' => .ok ((), st')
    | none => .error TxError.integrityError.message

/-- `db.commit()`. -/
def commit (env : Env) (p : Point) : FireM Unit := do
  let s ← get
  if s.broken then
    throw "This Session's transaction has been rolled back"
  else
    match env.fault p with
    | some e => do
        set { s with broken := true }
        throw e
    | none => set { s with committed := s.working }

/-- `task.delay(…)`. -/
def delay (env : Env) (message : Message) : FireM Unit :=
  match env.fault .enqueue with
  | some e => throw e
  | none => modify fun s => { s with sent := message :: s.sent }

-- ================================================================ services

theorem counted_key (now : Time) : ∀ r : Session,
    HasKey.key
      { r with
        messageCount := r.messageCount + 1
        lastActivityAt := some now } = HasKey.key r := fun _ => rfl

/-- The `UPDATE` of `post_system_message`. -/
def countMessage (db : Db) (now : Time) (sessionId : Uuid) : Db :=
  { db with
    sessions := db.sessions.updateWhere (fun r => r.id = sessionId)
      (fun r =>
        { r with
          messageCount := r.messageCount + 1
          lastActivityAt := some now }) (counted_key now) }

/-- The insert of a `session_message` row. -/
def insertMessage (db : Db) (row : SessionMessage) : Option Db :=
  if (db.sessions.get row.sessionId).isNone then none
  else if db.messages.rows.any fun m =>
      m.sessionId = row.sessionId ∧ m.messageIndex = row.messageIndex then
    none
  else (db.messages.insert row).map fun messages =>
    { db with messages := messages }

/-- The insert of a `run` row. -/
def insertRun (db : Db) (row : Run) : Option Db :=
  if (db.sessions.get row.sessionId).isSome
      ∧ (db.jobs.get row.jobId).isSome then
    (db.runs.insert row).map fun runs => { db with runs := runs }
  else none

/-- The insert of a `session` row. -/
def insertSession (db : Db) (row : Session) : Option Db :=
  if (db.jobs.get row.jobId).isSome
      ∧ refers db.sessions row.parentSessionId
      ∧ refers db.runs row.branchFromRunId
      ∧ db.sessions.rows.all (fun r => r.threadId ≠ row.threadId) then
    (db.sessions.insert row).map fun sessions =>
      { db with sessions := sessions }
  else none

/-- `SessionService.get`. -/
def getSession (env : Env) (sessionId : Uuid) : FireM Session := do
  let row ← query env .selectSession fun st => st.db.sessions.get sessionId
  match row with
  | some session => pure session
  | none => throw (toString sessionId)  -- `SessionNotFound`

/-- `post_system_message`; the driver takes a `str` for the content. -/
def postSystemMessage (env : Env) (sessionId : Uuid) (content : Json) :
    FireM Unit := do
  let index ← query env .selectIndex fun st =>
    nextMessageIndex st.db.messages sessionId
  update env .updateSession fun st =>
    { st with db := countMessage st.db env.now sessionId }
  flush env .insertMessage fun st => do
    let text ← asText content
    let db ← insertMessage st.db
      { id := env.msgId, sessionId := sessionId, runId := none
        role := "system", content := text, messageIndex := index }
    pure { st with db := db }

/-- `RunService.start`. -/
def startRun (env : Env) (row : Run) : FireM Unit :=
  flush env .insertRun fun st =>
    (insertRun st.db row).map fun db => { st with db := db }

/-- `wake_agent_from_schedule`. -/
def wakeAgentFromSchedule (env : Env) (sessionId : Uuid)
    (triggerPayload : Json) : FireM Uuid := do
  let session ← getSession env sessionId
  startRun env (newRun env.runId session.id session.jobId .scheduled
    "scheduled_job" triggerPayload env.now)
  commit env .commitRun
  delay env (.continueSession env.runId)
  pure env.runId

/-- The row that `ORDER BY started_at DESC LIMIT 1` returns. -/
def latestStep (env : Env) (steps : Table RunStep) (runId : Uuid)
    (stepName : String) : Option RunStep :=
  let rows := latestSteps steps runId stepName
  rows[env.tie % rows.length]?

/-- `step_row is None or not step_row.checkpoint_id`. -/
def checkpointOf : Option RunStep → Option String
  | none => none
  | some row =>
      match row.checkpointId with
      | none => none
      | some cp => if cp = "" then none else some cp

/-- `cascade_cancel(run_id=…)`. -/
def cascadeCancelRun (env : Env) (runId : Uuid) : FireM Unit := do
  let ids ← query env .selectFollowUps fun st =>
    cascadeSelect st.schedules (some runId) none
  ids.forM fun k => update env (.cancelFollowUp k) fun st =>
    { st with schedules := cancelScheduled st.schedules k }

/-- The run of `replay`. -/
def replayRun (env : Env) (parent child : Session) (fromRunId : Uuid)
    (fromStep : String) (extraContext : Json) : Run :=
  newRun env.runId child.id parent.jobId .pipeline "replay"
    (.obj [("from_run_id", .str (toString fromRunId)),
      ("from_step", .str fromStep), ("extra_context", extraContext),
      ("parent_session_id", .str (toString parent.id))]) env.now

/-- `ReplayService.replay`. -/
def replay (env : Env) (sessionId fromRunId : Uuid)
    (fromStep extraContext : Json) : FireM Session := do
  let parent ← getSession env sessionId
  let run ← query env .selectRun fun st => st.db.runs.get fromRunId
  match run with
  | none => throw TxError.noResultFound.message
  | some _ => do
      let found ← execute env .selectStep fun st =>
        match asText fromStep with
        | none => .error (env.wrongValue fromStep)
        | some step =>
            .ok ((step, latestStep env st.steps fromRunId step), st)
      match checkpointOf found.2 with
      | none =>
          throw ("no checkpoint for run=" ++ toString fromRunId
            ++ " step=" ++ found.1)
      | some cp => do
          let child := createReplay parent fromRunId cp env.childId env.hex
            env.now
          flush env .insertSession fun st =>
            (insertSession st.db child).map fun db => { st with db := db }
          cascadeCancelRun env fromRunId
          startRun env
            (replayRun env parent child fromRunId found.1 extraContext)
          commit env .commitRun
          delay env (.resumeRun env.runId)
          pure child

-- ================================================================ handlers

/-- `{"ok": False, "error": …}`. -/
def failure (error : String) : Json :=
  .obj [("ok", .bool false), ("error", .str error)]

/-- `{"ok": True, …}`. -/
def success (rest : List (String × Json)) : Json :=
  .obj (("ok", .bool true) :: rest)

/-- `job.payload or {}`, where a handler takes members of it. -/
def payloadOf (env : Env) (job : ScheduledJob) :
    FireM (List (String × Json)) :=
  match payloadMembers job.payload with
  | some members => pure members
  | none => throw (env.wrongValue job.payload)

/-- `uuid.UUID(…)`. -/
def uuidOf (env : Env) (value : Json) : FireM Uuid :=
  match parseUuid value with
  | some id => pure id
  | none => throw (env.wrongValue value)

/-- `handle_reminder`. -/
def handleReminder (env : Env) (job : ScheduledJob) : FireM Json := do
  let payload ← payloadOf env job
  let sessionIdRaw := payloadGet payload "session_id"
  if sessionIdRaw = .null then pure (failure "missing session_id")
  else do
    let sessionId ← uuidOf env sessionIdRaw
    let message := payloadGet payload "message"
    postSystemMessage env sessionId
      (if message.truthy then message else .str "Reminder")
    if (payloadGet payload "wake_agent").truthy then do
      let runId ← wakeAgentFromSchedule env sessionId (.obj payload)
      pure (success [("run_id", .str (toString runId))])
    else pure (success [])

/-- `handle_replay_trigger`. -/
def handleReplayTrigger (env : Env) (job : ScheduledJob) :
    FireM Json := do
  let payload ← payloadOf env job
  let sessionId := payloadGet payload "session_id"
  let fromRunId := payloadGet payload "from_run_id"
  let fromStep := payloadGet payload "from_step"
  let context := payloadGet payload "extra_context"
  if sessionId.truthy ∧ fromRunId.truthy ∧ fromStep.truthy then do
    let sid ← uuidOf env sessionId
    let rid ← uuidOf env fromRunId
    let child ← replay env sid rid fromStep
      (if context.truthy then context else .str "")
    pure (success [("child_session_id", .str (toString child.id))])
  else pure (failure "missing replay fields")

/-- `handle_poll_mailbox_once`. -/
def handlePollMailboxOnce (env : Env) (job : ScheduledJob) :
    FireM Json := do
  let payload ← payloadOf env job
  let mailboxId := payloadGet payload "mailbox_id"
  if mailboxId.truthy then do
    let id ← uuidOf env mailboxId
    delay env (.pollMailbox id)
    pure (success [])
  else pure (failure "missing mailbox_id")

/-- `JOB_KIND_REGISTRY.get(…)`. -/
def jobKindHandler (env : Env) (job : ScheduledJob) :
    Option (FireM Json) :=
  if job.kind = "poll_mailbox_once" then
    some (handlePollMailboxOnce env job)
  else if job.kind = "reminder" then some (handleReminder env job)
  else if job.kind = "replay_trigger" then
    some (handleReplayTrigger env job)
  else none

-- ================================================================ the task

/-- What `_run_scheduled_job` returns. -/
inductive Outcome where
  | skipped (reason : String)
  | fired (result : Json)
  deriving DecidableEq

/-- `mark_fired`. -/
def markFired (store : Store) (now : Time) (id : Uuid) (result : Json) :
    Store :=
  { store with
    marks := fun k =>
      if k = id ∧ (store.schedules.get id).isSome then
        ⟨some now, some result⟩
      else store.marks k }

/-- What the task writes once its handler is over; no result of a
handler is empty, so `or {}` keeps them all. -/
def recordFired (env : Env) (job : ScheduledJob) (result : Json) :
    FireM Unit := do
  update env .markFired fun st => markFired st env.now job.id result
  if job.scheduleKind = .oneShot then
    update env .expire fun st =>
      { st with schedules := expireOneShot st.schedules job.id }
  else pure ()
  commit env .commitFired

/-- `_run_scheduled_job`. -/
def runScheduledJob (env : Env) (id : Uuid) : FireM Outcome := do
  let row ← query env .selectJob fun st => st.schedules.get id
  match row with
  | none => pure (.skipped "not_active_or_missing")
  | some job =>
      if job.status ≠ .active then
        pure (.skipped "not_active_or_missing")
      else
        match jobKindHandler env job with
        | none => pure (.skipped "unknown_kind")
        | some handler => do
            let result ← tryCatch handler fun e => pure (failure e)
            recordFired env job result
            pure (.fired result)

/-- A fire of the schedule `id` on a committed store: how it ends and
the session it leaves. -/
def fire (env : Env) (id : Uuid) (before : Store) :
    Except String Outcome × DbSession :=
  Raising.run (runScheduledJob env id) (.fresh before)

end LegalBot.Fires
