/-
The transactions that start a run outside `run_pipeline`: `post_message`
of `api/routers/sessions.py`, the reminder handler with
`wake_agent_from_schedule`, and `ReplayService.replay`.

None of them writes `session.status`. `post_message` is the only one
that reads it, through `ensure_accepting_messages`, in an earlier
statement than the insert below.

The session row a starter read earlier serves it for `id`, `job_id`,
`thread_id` and `owner_user_id`, which no statement rewrites; the
functions below read those columns from the committed row.
-/
import LegalBot.Workers.Runs

namespace LegalBot

open Relational (HasKey Table)

/-- The transaction of `post_message` from its insert on, at the message
index read before. -/
def postMessage (db : Db) (now : Time) (sessionId : Uuid)
    (content : String) (index : Int) (msgId runId : Uuid) :
    Except TxError Db := do
  let session ← scalarOne (db.sessions.get sessionId)
  let db₁ ← flushed (appendMessageAt db now msgId sessionId "user" content
    none index)
  let runs ← flushed (db₁.runs.insert
    (newRun runId sessionId session.jobId .userFollowup "user_message"
      (.obj [("message_id", .str (toString msgId))]) now))
  pure { db₁ with runs := runs }

/-- `handle_reminder`: the system message and, when the payload asks to
wake the agent, the run of `wake_agent_from_schedule`. -/
def handleReminder (db : Db) (now : Time) (sessionId : Uuid)
    (message : String) (wake : Bool) (triggerPayload : Json) (index : Int)
    (msgId runId : Uuid) : Except TxError Db := do
  let db₁ ← flushed (appendMessageAt db now msgId sessionId "system"
    message none index)
  if wake then do
    let session ← scalarOne (db₁.sessions.get sessionId)
    let runs ← flushed (db₁.runs.insert
      (newRun runId sessionId session.jobId .scheduled "scheduled_job"
        triggerPayload now))
    pure { db₁ with runs := runs }
  else pure db₁

/-- The transaction of `replay`: the child session and its run.
`checkpointId` is the `checkpoint_id` of the step row it found. -/
def replay (db : Db) (now : Time) (sessionId fromRunId : Uuid)
    (fromStep extraContext checkpointId : String)
    (childId runId : Uuid) (hex : String) : Except TxError Db := do
  let parent ← scalarOne (db.sessions.get sessionId)
  let _ ← scalarOne (db.runs.get fromRunId)
  let sessions ← flushed (db.sessions.insert
    (createReplay parent fromRunId checkpointId childId hex now))
  let runs ← flushed (db.runs.insert
    (newRun runId childId parent.jobId .pipeline "replay"
      (.obj [("from_run_id", .str (toString fromRunId)),
        ("from_step", .str fromStep), ("extra_context", .str extraContext),
        ("parent_session_id", .str (toString parent.id))]) now))
  pure { db with sessions := sessions, runs := runs }

section Commits

variable {db db' : Db} {now : Time} {sid rid : Uuid}

theorem postMessage_ok {content : String} {index : Int} {msgId : Uuid}
    (h : postMessage db now sid content index msgId rid = .ok db') :
    ∃ session payload messages sessions runs,
      db.sessions.get sid = some session
      ∧ SessionsCounted db.sessions sessions
      ∧ db.runs.insert (newRun rid sid session.jobId .userFollowup
          "user_message" payload now) = some runs
      ∧ db' = { db with
          messages := messages, sessions := sessions, runs := runs } := by
  unfold postMessage at h
  simp only [bind_ok, scalarOne_ok, flushed_ok, pure_ok] at h
  obtain ⟨session, hsession, db₁, hdb₁, runs, hruns, rfl⟩ := h
  obtain ⟨messages, sessions, rfl, hs⟩ := appendMessageAt_ok hdb₁
  exact ⟨session, _, messages, sessions, runs, hsession, hs, hruns, rfl⟩

theorem handleReminder_ok {message : String} {wake : Bool}
    {payload : Json} {index : Int} {msgId : Uuid}
    (h : handleReminder db now sid message wake payload index msgId rid
      = .ok db') :
    ∃ messages sessions, SessionsCounted db.sessions sessions
      ∧ ((wake = false
          ∧ db' = { db with messages := messages, sessions := sessions })
        ∨ (wake = true ∧ ∃ session runs,
            sessions.get sid = some session
            ∧ db.runs.insert (newRun rid sid session.jobId .scheduled
                "scheduled_job" payload now) = some runs
            ∧ db' = { db with
                messages := messages, sessions := sessions
                runs := runs })) := by
  unfold handleReminder at h
  obtain ⟨db₁, hdb₁, h⟩ := bind_ok.mp h
  rw [flushed_ok] at hdb₁
  obtain ⟨messages, sessions, rfl, hs⟩ := appendMessageAt_ok hdb₁
  refine ⟨messages, sessions, hs, ?_⟩
  cases wake with
  | false => exact Or.inl ⟨rfl, (pure_ok.mp h).symm⟩
  | true =>
      simp only [bind_ok, scalarOne_ok, flushed_ok, pure_ok, if_true] at h
      obtain ⟨session, hsession, runs, hruns, rfl⟩ := h
      exact Or.inr ⟨rfl, session, runs, hsession, hruns, rfl⟩

theorem replay_ok {fromRun childId : Uuid} {step ctx cp hex : String}
    (h : replay db now sid fromRun step ctx cp childId rid hex
      = .ok db') :
    ∃ parent payload sessions runs,
      db.sessions.get sid = some parent
      ∧ db.sessions.insert (createReplay parent fromRun cp childId hex now)
        = some sessions
      ∧ db.runs.insert (newRun rid childId parent.jobId .pipeline "replay"
          payload now) = some runs
      ∧ db' = { db with sessions := sessions, runs := runs } := by
  unfold replay at h
  simp only [bind_ok, scalarOne_ok, flushed_ok, pure_ok] at h
  obtain ⟨parent, hparent, _, _, sessions, hs, runs, hruns, rfl⟩ := h
  exact ⟨parent, _, sessions, runs, hparent, hs, hruns, rfl⟩

end Commits

end LegalBot
