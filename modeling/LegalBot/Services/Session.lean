/-
`services/session.py` and `services/run.py`: sessions, their runs and
their transcript, as functions on the database.

A method that reads before it writes is given in its two halves, as in
`Jobs/Service.lean`: `nextMessageIndex` is the `SELECT max(…)` of
`append_message`, `appendMessageAt` the insert that follows it, and the
unique index on `(session_id, message_index)` decides at insert time
whether the index read earlier is still free.
-/
import LegalBot.Jobs.Service

namespace LegalBot

open Relational (HasKey Table)

-- ================================================================ sessions

/-- `SessionService.create_primary`; `hex` is the random suffix of the
thread id. -/
def createPrimary (job : ProcessingJob) (id : Uuid) (hex : String)
    (now : Time) : Session :=
  { id := id, jobId := job.id
    threadId := "job-" ++ toString job.id ++ "-primary-" ++ hex
    kind := .primary, parentSessionId := none, branchFromRunId := none
    branchFromCheckpointId := none, status := .idle
    interruptKind := none, activeInterruptId := none, messageCount := 0
    lastActivityAt := none, ownerUserId := job.ownerUserId
    createdAt := now }

/-- `SessionService.create_replay`. -/
def createReplay (parent : Session) (branchFromRunId : Uuid)
    (branchFromCheckpointId : String) (id : Uuid) (hex : String)
    (now : Time) : Session :=
  { id := id, jobId := parent.jobId
    threadId := "session-" ++ toString parent.id ++ "-replay-" ++ hex
    kind := .replay, parentSessionId := some parent.id
    branchFromRunId := some branchFromRunId
    branchFromCheckpointId := some branchFromCheckpointId, status := .idle
    interruptKind := none, activeInterruptId := none, messageCount := 0
    lastActivityAt := none, ownerUserId := parent.ownerUserId
    createdAt := now }

/-- `ensure_accepting_messages` on the row it read: `ConcurrentRun` (409)
for an archived or running session. -/
def ensureAcceptingMessages (session : Session) : Except String Session :=
  if session.status = .archived then .error "session is archived"
  else if session.status = .running then
    .error "a run is already executing on this session"
  else .ok session

/-- `UPDATE session SET status = … WHERE id = …`. -/
def setSessionStatus (sessions : Table Session) (sessionId : Uuid)
    (status : SessionStatus) : Table Session :=
  sessions.updateWhere (fun r => r.id = sessionId)
    fun r => { r with status := status }

-- ==================================================================== runs

/-- The row `RunService.start` inserts: every run starts `running`. -/
def newRun (id sessionId jobId : Uuid) (kind : RunKind) (trigger : String)
    (triggerPayload : Json) (now : Time) : Run :=
  { id := id, sessionId := sessionId, jobId := jobId, kind := kind
    status := .running, startedAt := now, finishedAt := none
    trigger := trigger, triggerPayload := triggerPayload }

/-- The ids `cancel_active_run`'s first `UPDATE` matches and locks. -/
def runningRuns (runs : Table Run) (sessionId : Uuid) : List Uuid :=
  (runs.rows.filter fun r =>
    r.sessionId = sessionId ∧ r.status = .running).map (·.id)

/-- `cancel_active_run` at commit: the locked runs become `cancelled`
and the session `idle`. -/
def cancelActiveRun (db : Db) (now : Time) (sessionId : Uuid)
    (locked : List Uuid) : Db :=
  { db with
    runs := db.runs.updateWhere
      (fun r => r.id ∈ locked ∧ r.sessionId = sessionId
        ∧ r.status = .running)
      fun r => { r with status := .cancelled, finishedAt := some now }
    sessions := setSessionStatus db.sessions sessionId .idle }

-- ============================================================== transcript

/-- `_next_message_index`: `coalesce(max(message_index), -1) + 1`. -/
def nextMessageIndex (messages : Table SessionMessage)
    (sessionId : Uuid) : Int :=
  ((messages.rows.filter fun m => m.sessionId = sessionId).map
    (·.messageIndex)).foldl max (-1) + 1

/-- The insert and the counter update of `append_message`, at an index
read earlier. `none`: the id is taken or `uq_session_message_idx` is
violated, and the transaction rolls back. -/
def appendMessageAt (db : Db) (now : Time) (id sessionId : Uuid)
    (role content : String) (runId : Option Uuid) (index : Int) :
    Option Db :=
  if db.messages.rows.any fun m =>
      m.sessionId = sessionId ∧ m.messageIndex = index then none
  else
    (db.messages.insert
      { id := id, sessionId := sessionId, runId := runId, role := role
        content := content, messageIndex := index }).map fun messages =>
      { db with
        messages := messages
        sessions := db.sessions.updateWhere (fun r => r.id = sessionId)
          fun r =>
            { r with
              messageCount := r.messageCount + 1
              lastActivityAt := some now } }

/-- `append_message` with no statement of another transaction between
its read and its insert. -/
def appendMessage (db : Db) (now : Time) (id sessionId : Uuid)
    (role content : String) (runId : Option Uuid) : Option Db :=
  appendMessageAt db now id sessionId role content runId
    (nextMessageIndex db.messages sessionId)

-- ========================================= what no statement may rewrite

/-- The columns of a session that no `UPDATE` sets. -/
structure SessionKept (r r' : Session) : Prop where
  id : r'.id = r.id
  jobId : r'.jobId = r.jobId
  threadId : r'.threadId = r.threadId
  kind : r'.kind = r.kind
  ownerUserId : r'.ownerUserId = r.ownerUserId

/-- What may happen to a run: its identity stays, and a run that has
left `running` never returns to it. -/
structure RunMove (r r' : Run) : Prop where
  id : r'.id = r.id
  sessionId : r'.sessionId = r.sessionId
  jobId : r'.jobId = r.jobId
  kind : r'.kind = r.kind
  running : r'.status = .running → r.status = .running

theorem SessionKept.refl (r : Session) : SessionKept r r :=
  ⟨rfl, rfl, rfl, rfl, rfl⟩

theorem SessionKept.trans {a b c : Session} (h₁ : SessionKept a b)
    (h₂ : SessionKept b c) : SessionKept a c :=
  ⟨h₂.id.trans h₁.id, h₂.jobId.trans h₁.jobId,
    h₂.threadId.trans h₁.threadId, h₂.kind.trans h₁.kind,
    h₂.ownerUserId.trans h₁.ownerUserId⟩

theorem RunMove.refl (r : Run) : RunMove r r :=
  ⟨rfl, rfl, rfl, rfl, fun h => h⟩

/-- How the session table changes: rows are added, never re-pointed. -/
def SessionsEvolve (sessions sessions' : Table Session) : Prop :=
  Table.Evolves SessionKept (fun _ => True) sessions sessions'

theorem SessionsEvolve.refl (sessions : Table Session) :
    SessionsEvolve sessions sessions :=
  Table.Evolves.refl SessionKept.refl sessions

theorem SessionsEvolve.trans {s₁ s₂ s₃ : Table Session}
    (h₁ : SessionsEvolve s₁ s₂) (h₂ : SessionsEvolve s₂ s₃) :
    SessionsEvolve s₁ s₃ :=
  Table.Evolves.trans (fun _ _ _ => SessionKept.trans)
    (fun _ _ _ _ => trivial) h₁ h₂

theorem SessionsEvolve.insert {sessions sessions' : Table Session}
    {r : Session} (h : sessions.insert r = some sessions') :
    SessionsEvolve sessions sessions' :=
  Table.Evolves.insert SessionKept.refl h trivial

/-- Every session `UPDATE` of the code keeps the fixed columns. -/
theorem SessionsEvolve.updateWhere (sessions : Table Session)
    {p : Session → Bool} {f : Session → Session}
    (h : ∀ r, SessionKept r (f r)) :
    SessionsEvolve sessions
      (sessions.updateWhere p f fun r => (h r).id) :=
  Table.Evolves.updateWhere SessionKept.refl sessions fun r _ _ => h r

theorem setSessionStatus_evolves (sessions : Table Session) (sid : Uuid)
    (st : SessionStatus) :
    SessionsEvolve sessions (setSessionStatus sessions sid st) := by
  unfold setSessionStatus
  refine SessionsEvolve.updateWhere sessions fun r => ?_
  exact ⟨rfl, rfl, rfl, rfl, rfl⟩

/-- What a transcript write does to a session: its counters change. -/
def Counted (r r' : Session) : Prop :=
  ∃ count activity,
    r' = { r with messageCount := count, lastActivityAt := activity }

/-- Sessions are counted, and none appears. -/
def SessionsCounted (sessions sessions' : Table Session) : Prop :=
  Table.Evolves Counted (fun _ => False) sessions sessions'

theorem SessionsCounted.refl (sessions : Table Session) :
    SessionsCounted sessions sessions :=
  Table.Evolves.refl (fun _ => ⟨_, _, rfl⟩) sessions

theorem SessionsCounted.trans {s₁ s₂ s₃ : Table Session}
    (h₁ : SessionsCounted s₁ s₂) (h₂ : SessionsCounted s₂ s₃) :
    SessionsCounted s₁ s₃ := by
  refine Table.Evolves.trans (fun a b c hab hbc => ?_)
    (fun _ _ hb _ => hb) h₁ h₂
  obtain ⟨_, _, rfl⟩ := hab
  obtain ⟨count, activity, rfl⟩ := hbc
  exact ⟨count, activity, rfl⟩

/-- Whatever the counters have no part in is as it was. -/
theorem SessionsCounted.mono {R : Session → Session → Prop}
    {B : Session → Prop} {sessions sessions' : Table Session}
    (h : SessionsCounted sessions sessions')
    (hR : ∀ r count activity, R r
      { r with messageCount := count, lastActivityAt := activity }) :
    Table.Evolves R B sessions sessions' := by
  refine Table.Evolves.mono (fun r r' hr => ?_) (fun _ hb => hb.elim) h
  obtain ⟨count, activity, rfl⟩ := hr
  exact hR r count activity

theorem SessionsCounted.get_none {sessions sessions' : Table Session}
    (h : SessionsCounted sessions sessions') {k : Uuid}
    (h₀ : sessions.get k = none) : sessions'.get k = none := by
  cases hk : sessions'.get k with
  | none => rfl
  | some r => exact (h.born h₀ hk).elim

theorem SessionsCounted.evolves {sessions sessions' : Table Session}
    (h : SessionsCounted sessions sessions') :
    SessionsEvolve sessions sessions' :=
  h.mono fun _ _ _ => ⟨rfl, rfl, rfl, rfl, rfl⟩

/-- A transcript write touches messages and one session's counters. -/
theorem appendMessageAt_ok {db db' : Db} {now : Time}
    {id sid : Uuid} {role content : String} {rid : Option Uuid} {i : Int}
    (h : appendMessageAt db now id sid role content rid i = some db') :
    ∃ messages sessions,
      db' = { db with messages := messages, sessions := sessions }
      ∧ SessionsCounted db.sessions sessions := by
  unfold appendMessageAt at h
  split at h
  · cases h
  · obtain ⟨messages, -, rfl⟩ := Option.map_eq_some_iff.mp h
    exact ⟨messages, _, rfl, Table.Evolves.updateWhere
      (fun _ => ⟨_, _, rfl⟩) db.sessions fun _ _ _ => ⟨_, _, rfl⟩⟩

end LegalBot
