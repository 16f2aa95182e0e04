/-
`scheduling/service.py` and the step rows of `services/run.py`, as
functions on the tables `scheduled_job` and `run_step`.

`cascade_cancel` is a `SELECT` of the active rows followed by one
`UPDATE` by id a row; it is given in these two halves, since the status
of a row may change between them. `schedule_spec`, the redbeat entry and
what `mark_fired` writes are read by the beat process alone and left
out.
-/
import LegalBot.Db.Transaction

namespace LegalBot

open Relational (HasKey Table)

-- ============================================================== scheduling

/-- The kinds that `register_kind` registers. -/
def jobKindRegistry : List String :=
  ["poll_mailbox_once", "reminder", "replay_trigger"]

/-- What the two `schedule_*` methods raise. -/
inductive ScheduleError where
  | unknownJobKind (kind : String)
  | notRecurring
  | db (error : TxError)
  deriving DecidableEq, Repr

/-- A nullable foreign key of an inserted row. -/
def refers {ρ : Type} [HasKey ρ Uuid] (t : Table ρ) : Option Uuid → Bool
  | some k => (t.get k).isSome
  | none => true

/-- The insert of a `scheduled_job` row, with its foreign keys. -/
def insertScheduled (db : Db) (schedules : Table ScheduledJob)
    (row : ScheduledJob) : Except ScheduleError (Table ScheduledJob) :=
  if refers db.sessions row.sessionId ∧ refers db.jobs row.jobId
      ∧ refers db.runs row.runId ∧ refers db.runs row.parentRunId then
    match schedules.insert row with
    | some schedules' => .ok schedules'
    | none => .error (.db .integrityError)
  else .error (.db .integrityError)

/-- `schedule_one_shot`. -/
def scheduleOneShot (db : Db) (schedules : Table ScheduledJob)
    (id : Uuid) (kind : String) (payload : Json) (runAt : Time)
    (ownerUserId : String)
    (sessionId jobId runId parentRunId : Option Uuid) :
    Except ScheduleError (Table ScheduledJob) :=
  if kind ∉ jobKindRegistry then .error (.unknownJobKind kind)
  else
    insertScheduled db schedules
      { id := id, kind := kind, payload := payload
        scheduleKind := .oneShot, status := .active
        nextRunAt := some runAt, ownerUserId := ownerUserId
        sessionId := sessionId, jobId := jobId, runId := runId
        parentRunId := parentRunId }

/-- `schedule_recurring`. -/
def scheduleRecurring (db : Db) (schedules : Table ScheduledJob)
    (id : Uuid) (kind : String) (payload : Json)
    (spec : ScheduledJobScheduleKind) (ownerUserId : String)
    (sessionId jobId runId : Option Uuid) :
    Except ScheduleError (Table ScheduledJob) :=
  if kind ∉ jobKindRegistry then .error (.unknownJobKind kind)
  else if spec = .oneShot then .error .notRecurring
  else
    insertScheduled db schedules
      { id := id, kind := kind, payload := payload
        scheduleKind := spec, status := .active
        nextRunAt := none, ownerUserId := ownerUserId
        sessionId := sessionId, jobId := jobId, runId := runId
        parentRunId := none }

-- =================================================================== status

/-- `update(ScheduledJob).where(id == job_id).values(status=…)`. -/
def setScheduledStatus (schedules : Table ScheduledJob) (id : Uuid)
    (status : ScheduledJobStatus) : Table ScheduledJob :=
  schedules.updateWhere (fun r => r.id = id)
    fun r => { r with status := status }

/-- `SchedulingService.pause`. -/
def pauseScheduled (schedules : Table ScheduledJob) (id : Uuid) :
    Table ScheduledJob := setScheduledStatus schedules id .paused

/-- `SchedulingService.resume`: raises when the row is missing. -/
def resumeScheduled (schedules : Table ScheduledJob) (id : Uuid) :
    Except TxError (Table ScheduledJob) := do
  let schedules' := setScheduledStatus schedules id .active
  let _ ← scalarOne (schedules'.get id)
  pure schedules'

/-- `SchedulingService.cancel`. -/
def cancelScheduled (schedules : Table ScheduledJob) (id : Uuid) :
    Table ScheduledJob := setScheduledStatus schedules id .cancelled

/-- `expire_one_shot`. -/
def expireOneShot (schedules : Table ScheduledJob) (id : Uuid) :
    Table ScheduledJob := setScheduledStatus schedules id .expired

/-- The `SELECT` of `cascade_cancel`. -/
def cascadeSelect (schedules : Table ScheduledJob)
    (runId sessionId : Option Uuid) : List Uuid :=
  (schedules.rows.filter fun r =>
    r.status = .active ∧ (runId.isSome → r.runId = runId)
      ∧ (sessionId.isSome → r.sessionId = sessionId)).map (·.id)

/-- Its loop: `cancel` for each row selected. -/
def cascadeCancel (schedules : Table ScheduledJob) (ids : List Uuid) :
    Table ScheduledJob :=
  ids.foldl cancelScheduled schedules

-- ==================================================================== steps

/-- `RunService.add_step`; `none`: the id is taken or there is no such
run. -/
def addStep (db : Db) (steps : Table RunStep) (now : Time)
    (id runId : Uuid) (stepName : String)
    (checkpointId checkpointNs summary : Option String) :
    Option (Table RunStep) :=
  if (db.runs.get runId).isSome then
    steps.insert
      { id := id, runId := runId, stepName := stepName
        checkpointId := checkpointId, checkpointNs := checkpointNs
        status := "running", summary := summary, startedAt := now }
  else none

/-- The rows that `ORDER BY started_at DESC LIMIT 1` may return. -/
def latestSteps (steps : Table RunStep) (runId : Uuid)
    (stepName : String) : List RunStep :=
  let rows := steps.rows.filter fun r =>
    r.runId = runId ∧ r.stepName = stepName
  rows.filter fun r => rows.all fun r' => r'.startedAt ≤ r.startedAt

-- ======================================================== what is rewritten

section Rules

variable {db : Db} {schedules schedules' : Table ScheduledJob}
  {k : Uuid} {row : ScheduledJob}

/-- The same row, but for its status. -/
def SameSchedule (r r' : ScheduledJob) : Prop :=
  r' = { r with status := r'.status }

theorem SameSchedule.refl (r : ScheduledJob) : SameSchedule r r := rfl

theorem SameSchedule.runId {r r' : ScheduledJob} (h : SameSchedule r r') :
    r'.runId = r.runId := by
  rw [h]

theorem setScheduledStatus_get (st : ScheduledJobStatus) (id : Uuid)
    (h : schedules.get k = some row) :
    ∃ row', (setScheduledStatus schedules id st).get k = some row'
      ∧ SameSchedule row row' := by
  unfold setScheduledStatus
  rw [Table.get_updateWhere, h]
  by_cases hid : row.id = id
  · exact ⟨{ row with status := st }, by simp [hid], rfl⟩
  · exact ⟨row, by simp [hid], rfl⟩

theorem cascadeCancel_get (ids : List Uuid) :
    ∀ {schedules : Table ScheduledJob} {row : ScheduledJob},
      schedules.get k = some row →
      ∃ row', (cascadeCancel schedules ids).get k = some row'
        ∧ SameSchedule row row' := by
  unfold cascadeCancel
  induction ids with
  | nil => exact fun {_ row} h => ⟨row, h, rfl⟩
  | cons id rest ih =>
      intro schedules row h
      obtain ⟨row₁, h₁, hsame₁⟩ :=
        setScheduledStatus_get .cancelled id h
      obtain ⟨row₂, h₂, hsame₂⟩ := ih h₁
      refine ⟨row₂, h₂, ?_⟩
      unfold SameSchedule at hsame₁ hsame₂ ⊢
      rw [hsame₁] at hsame₂
      exact hsame₂

theorem resumeScheduled_ok {id : Uuid}
    (h : resumeScheduled schedules id = .ok schedules') :
    schedules' = setScheduledStatus schedules id .active := by
  unfold resumeScheduled at h
  simp only [bind_ok, scalarOne_ok, pure_ok] at h
  obtain ⟨_, -, rfl⟩ := h
  rfl

theorem insertScheduled_get {new : ScheduledJob}
    (h : insertScheduled db schedules new = .ok schedules')
    (hk : schedules.get k = some row) : schedules'.get k = some row := by
  unfold insertScheduled at h
  split at h
  · split at h
    · rename_i hins
      injection h with h
      subst h
      exact Table.get_insert_of_some hins hk
    · cases h
  · cases h

theorem scheduleOneShot_get {id : Uuid} {kind : String} {payload : Json}
    {runAt : Time} {owner : String}
    {sessionId jobId runId parentRunId : Option Uuid}
    (h : scheduleOneShot db schedules id kind payload runAt owner sessionId
      jobId runId parentRunId = .ok schedules')
    (hk : schedules.get k = some row) : schedules'.get k = some row := by
  unfold scheduleOneShot at h
  split at h
  · cases h
  · exact insertScheduled_get h hk

theorem scheduleRecurring_get {id : Uuid} {kind : String} {payload : Json}
    {spec : ScheduledJobScheduleKind} {owner : String}
    {sessionId jobId runId : Option Uuid}
    (h : scheduleRecurring db schedules id kind payload spec owner sessionId
      jobId runId = .ok schedules')
    (hk : schedules.get k = some row) : schedules'.get k = some row := by
  unfold scheduleRecurring at h
  split at h
  · cases h
  · split at h
    · cases h
    · exact insertScheduled_get h hk

/-- The rows selected for a run are rows of that run. -/
theorem mem_cascadeSelect {runId : Uuid}
    (h : k ∈ cascadeSelect schedules (some runId) none) :
    ∃ row, schedules.get k = some row ∧ row.runId = some runId := by
  unfold cascadeSelect at h
  obtain ⟨row, hrow, rfl⟩ := List.mem_map.mp h
  obtain ⟨hmem, hp⟩ := List.mem_filter.mp hrow
  simp only [decide_eq_true_eq] at hp
  exact ⟨row, Table.get_of_mem hmem, hp.2.1 rfl⟩

end Rules

end LegalBot
