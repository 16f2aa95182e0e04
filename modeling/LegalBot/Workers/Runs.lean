/-
The transactions of `workers/runs.py`: what each helper of a worker task
commits, one function on the database per `async with sm() as db` block.

# Which failures are caught

`_run_pipeline` and `_finalize_job_if_primary` let
`InvalidJobTransition` escape; `_resume_run`, `_transition_pipeline_job`
and `_fail_pipeline_job_for_graph_error` log it and go on
(`skipInvalid`). `_mark_run_status` is no transition at all: it writes
the run by id, whatever status the row has.

# The transcript

`_write_session_projection` appends every message of the returned state
in one transaction. Each append reads the next index just before its
insert; a writer that takes the index first makes the insert violate
`uq_session_message_idx` and the transaction raise, so a committed
projection is one that read the committed maximum.
-/
import LegalBot.Ingestion.Items
import LegalBot.Interrupts.Service

namespace LegalBot

open Relational (HasKey Table)

-- ============================================================== transitions

/-- An uncaught `JobService.transition`. -/
def guarded {α : Type} (r : Except InvalidJobTransition α) :
    Except TxError α :=
  match r with
  | .ok a => .ok a
  | .error e => .error (.invalidJobTransition e.message)

/-- A transition whose `InvalidJobTransition` is caught and logged. -/
def skipInvalid (jobs : Table ProcessingJob)
    (r : Except InvalidJobTransition (Table ProcessingJob)) :
    Table ProcessingJob :=
  match r with
  | .ok jobs' => jobs'
  | .error _ => jobs

-- ============================================================ run_pipeline

/-- `_ingestion_item_attachment_count`. -/
def ingestionItemAttachmentCount (db : Db) (itemId : Uuid) : Nat :=
  (db.attachments.rows.filter fun a => a.ingestionItemId = itemId).length

/-- The first transaction of `_run_pipeline`: the guarded transition,
the primary session, the run. -/
def startPipeline (db : Db) (now : Time) (jobId sessionId runId : Uuid)
    (hex : String) : Except TxError Db := do
  let job ← scalarOne (db.jobs.get jobId)
  let jobs ← guarded (transition db.jobs now job.id .dispatched
    .processing JobExtra.none)
  let sessions ← flushed (db.sessions.insert
    (createPrimary job sessionId hex now))
  let runs ← flushed (db.runs.insert
    (newRun runId sessionId job.id .pipeline "ingestion"
      (.obj [("job_id", .str (toString job.id))]) now))
  pure { db with
    jobs := setCurrentSession jobs job.id sessionId
    sessions := sessions, runs := runs }

-- ============================================================== resume_run

/-- The transaction of `_resume_run`: for a pipeline run, the transition
back to `processing`, skipped when the job has moved on. -/
def resumeTransition (db : Db) (now : Time) (runId : Uuid) :
    Except TxError Db := do
  let run ← scalarOne (db.runs.get runId)
  let session ← scalarOne (db.sessions.get run.sessionId)
  let _ ← scalarOne (db.jobs.get run.jobId)
  if run.kind = .pipeline then
    pure { db with
      jobs := skipInvalid db.jobs (transition db.jobs now session.jobId
        .awaitingHuman .processing JobExtra.none) }
  else pure db

-- ======================================================== run and job marks

/-- `update(Run).where(Run.id == run_id)` of `_mark_run_status`. -/
def setRunStatus (runs : Table Run) (now : Time) (runId : Uuid)
    (status : RunStatus) : Table Run :=
  runs.updateWhere (fun r => r.id = runId)
    fun r => { r with status := status, finishedAt := some now }

/-- `_mark_run_status`: the session becomes idle unless the run waits
for a human. -/
def markRunStatus (db : Db) (now : Time) (runId : Uuid)
    (status : RunStatus) : Except TxError Db := do
  let sessionStatus : SessionStatus :=
    if status = .awaitingHuman then .awaitingHuman else .idle
  let runs := setRunStatus db.runs now runId status
  let run ← scalarOne (runs.get runId)
  pure { db with
    runs := runs
    sessions := setSessionStatus db.sessions run.sessionId sessionStatus }

/-- `_finalize_job_if_primary`: for a pipeline run, `processing ->
completed`, uncaught. -/
def finalizeJobIfPrimary (db : Db) (now : Time) (sessionId runId : Uuid) :
    Except TxError Db := do
  let run ← scalarOne (db.runs.get runId)
  if run.kind ≠ .pipeline then pure db
  else do
    let session ← scalarOne (db.sessions.get sessionId)
    let jobs ← guarded (transition db.jobs now session.jobId .processing
      .completed JobExtra.none)
    pure { db with jobs := jobs }

/-- `_fail_pipeline_job_for_graph_error`. -/
def failPipelineJobForGraphError (db : Db) (now : Time) (runId : Uuid)
    (exc : String) : Except TxError Db := do
  let err := String.ofList (exc.toList.take 12000)
  let run ← scalarOne (db.runs.get runId)
  if run.kind ≠ .pipeline then pure db
  else
    pure { db with
      jobs := skipInvalid db.jobs (transition db.jobs now run.jobId
        .processing .failed ⟨none, some (some err), none⟩) }

/-- `_transition_pipeline_job`. -/
def transitionPipelineJob (db : Db) (now : Time) (sessionId runId : Uuid)
    (fromState toState : JobState) : Except TxError Db := do
  let run ← scalarOne (db.runs.get runId)
  if run.kind ≠ .pipeline then pure db
  else do
    let session ← scalarOne (db.sessions.get sessionId)
    pure { db with
      jobs := skipInvalid db.jobs (transition db.jobs now session.jobId
        fromState toState JobExtra.none) }

-- ============================================================== projection

/-- What `content` of a LangChain message may be; a block keeps
`str(block["text"])` when it is a dict with a `text`. -/
inductive MessageContent where
  | text (s : String)
  | blocks (texts : List (Option String))
  | other
  deriving DecidableEq, Repr

/-- An entry of `output_state["messages"]`. -/
inductive GraphMessage where
  | none
  | plain (s : String)
  | message (type : Option String) (content : MessageContent)
  deriving DecidableEq, Repr

/-- `output_state`; `stageResult` is `json.dumps(stage_result,
sort_keys=True)` when `stage_result` is truthy. -/
structure GraphOutput where
  messages : List GraphMessage
  stageResult : Option String
  deriving DecidableEq, Repr

/-- `getattr(msg, "type", "unknown")`. -/
def GraphMessage.role : GraphMessage → String
  | .message (some type) _ => type
  | _ => "unknown"

/-- `_extract_text_from_message`. -/
def extractTextFromMessage : GraphMessage → Option String
  | .none => none
  | .plain s => some s
  | .message _ (.text s) => some s
  | .message _ (.blocks texts) =>
      let out := texts.filterMap id
      if out.isEmpty then none else some ("\n".intercalate out)
  | .message _ .other => none

/-- The `(role, content)` pairs the projection appends, in order; empty
contents are skipped. -/
def projectedMessages (output : GraphOutput) : List (String × String) :=
  (output.messages.filterMap fun msg =>
    match extractTextFromMessage msg with
    | some content => if content = "" then none else some (msg.role, content)
    | none => none)
  ++ (output.stageResult.toList.map fun content =>
    ("stage_result", content))

/-- The loop of `_write_session_projection`, one fresh id a message. -/
def appendProjected (now : Time) (sessionId runId : Uuid) :
    List (Uuid × String × String) → Db → Option Db
  | [], db => some db
  | (id, role, content) :: rest, db =>
      match appendMessage db now id sessionId role content (some runId) with
      | some db' => appendProjected now sessionId runId rest db'
      | none => none

/-- `_write_session_projection`; `ids` are the uuid4 values drawn, one
for each message, and nothing is committed without them. -/
def writeSessionProjection (db : Db) (now : Time) (sessionId runId : Uuid)
    (output : GraphOutput) (ids : List Uuid) : Except TxError Db :=
  flushed (if (projectedMessages output).length ≤ ids.length then
      appendProjected now sessionId runId
        (ids.zip (projectedMessages output)) db
    else none)

-- ==================================================== interrupt envelopes

/-- `InterruptKind(kind_str)` for a member, else `information_request`. -/
def interruptKindOf (kind : Json) : InterruptKind :=
  match kind with
  | .str "tool_approval" => .toolApproval
  | .str "review_draft" => .reviewDraft
  | _ => .informationRequest

/-- `d.get(k)` as a value: a missing member is `None`. -/
def memberOrNull (members : List (String × Json)) (k : String) : Json :=
  (Json.getMember members k).getD .null

/-- A member that is a dict. -/
def memberDict? (members : List (String × Json)) (k : String) :
    Option Json :=
  match Json.getMember members k with
  | some (.obj ms) => some (.obj ms)
  | _ => none

/-- `str(exc)` of `v[0]` on a value that is no list or string. -/
def notSubscriptable : Json → String
  | .obj _ => "0"  -- `KeyError(0)`: the keys of a JSON object are strings
  | .bool _ => "'bool' object is not subscriptable"
  | .int _ => "'int' object is not subscriptable"
  | _ => "'float' object is not subscriptable"

/-- `review_configs[0] if review_configs else None`. -/
def firstConfig : Json → Except String Json
  | .arr [] => .ok .null
  | .arr (first :: _) => .ok first
  | .str s =>
      .ok (if s = "" then .null else .str (String.ofList (s.toList.take 1)))
  | v => if v.truthy then .error (notSubscriptable v) else .ok .null

/-- `_normalize_interrupt_envelope`; the error is `str(exc)`. -/
def normalizeInterruptEnvelope (envelope : List (String × Json)) :
    Except String (InterruptKind × Json × Option Json) :=
  match Json.getMember envelope "action_requests" with
  | some requests =>
      -- `… or []`: a falsy value is replaced by the empty list
      let actionRequests := if requests.truthy then requests else .arr []
      let configs := memberOrNull envelope "review_configs"
      let reviewConfigs := if configs.truthy then configs else .arr []
      (firstConfig reviewConfigs).map fun first =>
        (.toolApproval,
          .obj [("action_requests", actionRequests),
            ("review_configs", reviewConfigs)],
          memberDict? first.members "args_schema")
  | none =>
      let kind := (Json.getMember envelope "kind").getD
        (.str "information_request")
      let payload :=
        match Json.getMember envelope "payload" with
        | some (.obj ms) => ms
        | _ => []
      .ok (interruptKindOf kind, .obj payload, memberDict? payload "schema")

-- ======================================================== what they commit

section Commits

variable {db db' : Db} {now : Time} {sid rid : Uuid}

@[simp] theorem guarded_ok {α : Type} {r : Except InvalidJobTransition α}
    {a : α} : guarded r = .ok a ↔ r = .ok a := by
  cases r <;> simp [guarded]

/-- A caught transition moves along its pair or not at all. -/
theorem skipInvalid_evolves {jobs : Table ProcessingJob} {j : Uuid}
    {f t : JobState} {extra : JobExtra} :
    JobsEvolve (PairMove j f t) jobs
      (skipInvalid jobs (transition jobs now j f t extra)) := by
  cases ht : transition jobs now j f t extra with
  | error e => exact JobsEvolve.refl jobs
  | ok jobs' => exact transition_evolves ht

theorem startPipeline_ok {j : Uuid} {hex : String}
    (h : startPipeline db now j sid rid hex = .ok db') :
    ∃ job jobs sessions runs,
      db.jobs.get j = some job
      ∧ transition db.jobs now j .dispatched .processing JobExtra.none
        = .ok jobs
      ∧ db.sessions.insert (createPrimary job sid hex now)
        = some sessions
      ∧ db.runs.insert (newRun rid sid j .pipeline "ingestion"
          (.obj [("job_id", .str (toString j))]) now) = some runs
      ∧ db' = { db with
          jobs := setCurrentSession jobs j sid
          sessions := sessions, runs := runs } := by
  unfold startPipeline at h
  simp only [bind_ok, scalarOne_ok, guarded_ok, flushed_ok, pure_ok] at h
  obtain ⟨job, hjob, jobs, hjobs, sessions, hsessions, runs, hruns, rfl⟩ := h
  have hid : job.id = j := Table.key_of_get hjob
  rw [hid] at hjobs hruns
  exact ⟨job, jobs, sessions, runs, hjob, hjobs, hsessions, hruns,
    by rw [hid]⟩

theorem resumeTransition_ok (h : resumeTransition db now rid = .ok db') :
    ∃ run session job,
      db.runs.get rid = some run
      ∧ db.sessions.get run.sessionId = some session
      ∧ db.jobs.get run.jobId = some job
      ∧ db' = if run.kind = .pipeline then
          { db with
            jobs := skipInvalid db.jobs (transition db.jobs now
              session.jobId .awaitingHuman .processing JobExtra.none) }
        else db := by
  unfold resumeTransition at h
  simp only [bind_ok, scalarOne_ok] at h
  obtain ⟨run, hrun, session, hsession, job, hjob, h⟩ := h
  refine ⟨run, session, job, hrun, hsession, hjob, ?_⟩
  split at h
  · rename_i hk
    rw [if_pos hk]
    exact (pure_ok.mp h).symm
  · rename_i hk
    rw [if_neg hk]
    exact (pure_ok.mp h).symm

theorem markRunStatus_ok {st : RunStatus}
    (h : markRunStatus db now rid st = .ok db') :
    ∃ run, db.runs.get rid = some run
      ∧ db' = { db with
          runs := setRunStatus db.runs now rid st
          sessions := setSessionStatus db.sessions run.sessionId
            (if st = .awaitingHuman then .awaitingHuman else .idle) } := by
  unfold markRunStatus at h
  simp only [bind_ok, scalarOne_ok, pure_ok] at h
  obtain ⟨run', hrun', rfl⟩ := h
  unfold setRunStatus at hrun'
  rw [Table.get_updateWhere] at hrun'
  obtain ⟨run, hrun, rfl⟩ := Option.map_eq_some_iff.mp hrun'
  refine ⟨run, hrun, ?_⟩
  have hid : run.id = rid := Table.key_of_get hrun
  simp [hid]

theorem finalizeJobIfPrimary_ok
    (h : finalizeJobIfPrimary db now sid rid = .ok db') :
    ∃ run, db.runs.get rid = some run
      ∧ ((run.kind ≠ .pipeline ∧ db' = db)
        ∨ (run.kind = .pipeline ∧ ∃ session jobs,
            db.sessions.get sid = some session
            ∧ transition db.jobs now session.jobId .processing .completed
              JobExtra.none = .ok jobs
            ∧ db' = { db with jobs := jobs })) := by
  unfold finalizeJobIfPrimary at h
  obtain ⟨run, hrun, h⟩ := bind_ok.mp h
  refine ⟨run, scalarOne_ok.mp hrun, ?_⟩
  split at h
  · rename_i hk
    exact Or.inl ⟨hk, (pure_ok.mp h).symm⟩
  · rename_i hk
    simp only [bind_ok, scalarOne_ok, guarded_ok, pure_ok] at h
    obtain ⟨session, hsession, jobs, hjobs, rfl⟩ := h
    exact Or.inr ⟨not_not.mp hk, session, jobs, hsession, hjobs, rfl⟩

theorem failPipelineJobForGraphError_ok {exc : String}
    (h : failPipelineJobForGraphError db now rid exc = .ok db') :
    ∃ run, db.runs.get rid = some run
      ∧ ((run.kind ≠ .pipeline ∧ db' = db)
        ∨ (run.kind = .pipeline
          ∧ db' = { db with
              jobs := skipInvalid db.jobs (transition db.jobs now
                run.jobId .processing .failed
                ⟨none, some (some (String.ofList (exc.toList.take 12000))),
                  none⟩) })) := by
  unfold failPipelineJobForGraphError at h
  obtain ⟨run, hrun, h⟩ := bind_ok.mp h
  refine ⟨run, scalarOne_ok.mp hrun, ?_⟩
  split at h
  · rename_i hk
    exact Or.inl ⟨hk, (pure_ok.mp h).symm⟩
  · rename_i hk
    exact Or.inr ⟨not_not.mp hk, (pure_ok.mp h).symm⟩

theorem transitionPipelineJob_ok {f t : JobState}
    (h : transitionPipelineJob db now sid rid f t = .ok db') :
    ∃ run, db.runs.get rid = some run
      ∧ ((run.kind ≠ .pipeline ∧ db' = db)
        ∨ (run.kind = .pipeline ∧ ∃ session,
            db.sessions.get sid = some session
            ∧ db' = { db with
                jobs := skipInvalid db.jobs (transition db.jobs now
                  session.jobId f t JobExtra.none) })) := by
  unfold transitionPipelineJob at h
  obtain ⟨run, hrun, h⟩ := bind_ok.mp h
  refine ⟨run, scalarOne_ok.mp hrun, ?_⟩
  split at h
  · rename_i hk
    exact Or.inl ⟨hk, (pure_ok.mp h).symm⟩
  · rename_i hk
    simp only [bind_ok, scalarOne_ok, pure_ok] at h
    obtain ⟨session, hsession, rfl⟩ := h
    exact Or.inr ⟨not_not.mp hk, session, hsession, rfl⟩

/-- A committed projection has appended every message. -/
theorem writeSessionProjection_appends {output : GraphOutput}
    {ids : List Uuid}
    (h : writeSessionProjection db now sid rid output ids = .ok db') :
    (projectedMessages output).length ≤ ids.length
      ∧ appendProjected now sid rid (ids.zip (projectedMessages output)) db
        = some db' := by
  unfold writeSessionProjection at h
  rw [flushed_ok] at h
  split at h
  · exact ⟨‹_›, h⟩
  · cases h

/-- The loop touches messages and session counters only. -/
theorem appendProjected_ok :
    ∀ {msgs : List (Uuid × String × String)} {db db' : Db},
      appendProjected now sid rid msgs db = some db' →
      ∃ messages sessions,
        db' = { db with messages := messages, sessions := sessions }
        ∧ SessionsCounted db.sessions sessions := by
  intro msgs
  induction msgs with
  | nil =>
      intro db db' h
      injection h with h
      exact ⟨db.messages, db.sessions, h.symm,
        SessionsCounted.refl db.sessions⟩
  | cons m rest ih =>
      intro db db' h
      obtain ⟨id, role, content⟩ := m
      unfold appendProjected at h
      cases ha : appendMessage db now id sid role content (some rid) with
      | none => simp [ha] at h
      | some db₁ =>
          rw [ha] at h
          obtain ⟨messages₁, sessions₁, rfl, hs₁⟩ := appendMessageAt_ok ha
          obtain ⟨messages, sessions, rfl, hs⟩ := ih h
          exact ⟨messages, sessions, rfl, hs₁.trans hs⟩

/-- A projection touches messages and session counters only. -/
theorem writeSessionProjection_ok {output : GraphOutput} {ids : List Uuid}
    (h : writeSessionProjection db now sid rid output ids = .ok db') :
    ∃ messages sessions,
      db' = { db with messages := messages, sessions := sessions }
      ∧ SessionsCounted db.sessions sessions :=
  appendProjected_ok (writeSessionProjection_appends h).2

end Commits

end LegalBot
