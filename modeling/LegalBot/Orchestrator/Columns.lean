/-
What each transaction writes to the columns that count and point:
`attempts`, `current_session_id` and `processing_started_at` of a job,
and what a session was created as.

# Jobs

`attempts` and `current_session_id` are functions of the transaction and
the old row (`Tx.attempts`, `Tx.currentSession`); only `retry` and
`startPipeline` change one. `processing_started_at` changes when a job
enters `processing`.

# Sessions

Only `startPipeline` and `replay` insert a session (`Tx.Creates`), and
what they write about its kind and its origin is never written again.
-/
import LegalBot.Orchestrator.Effects

namespace LegalBot

open Relational (HasKey Table)

variable {cfg : Settings} {now : Time} {db db' : Db} {tx : Tx}

-- ==================================================================== jobs

/-- The `attempts` a transaction leaves on a job. -/
def Tx.attempts (tx : Tx) (r : ProcessingJob) : Nat :=
  match tx with
  | .retry job => if r.id = job.id then job.attempts + 1 else r.attempts
  | _ => r.attempts

/-- The `current_session_id` a transaction leaves on a job. -/
def Tx.currentSession (tx : Tx) (r : ProcessingJob) : Option Uuid :=
  match tx with
  | .startPipeline j sid _ _ =>
      if r.id = j then some sid else r.currentSessionId
  | _ => r.currentSessionId

/-- What a transaction does to these columns of a job that is there. -/
structure JobColumns (tx : Tx) (r r' : ProcessingJob) : Prop where
  attempts : r'.attempts = tx.attempts r
  currentSession : r'.currentSessionId = tx.currentSession r
  started : r'.processingStartedAt = r.processingStartedAt
    ∨ (r.state ≠ .processing ∧ r'.state = .processing)

/-- None of the three columns is set. -/
structure BlankJob (r : ProcessingJob) : Prop where
  attempts : r.attempts = 0
  currentSession : r.currentSessionId = none
  started : r.processingStartedAt = none

/-- How the job table changes. -/
def JobColumnsEvolve (tx : Tx) (jobs jobs' : Table ProcessingJob) : Prop :=
  Table.Evolves (JobColumns tx) BlankJob jobs jobs'

/-- A writer that leaves the three columns alone. -/
structure ColumnsKept (r r' : ProcessingJob) : Prop where
  attempts : r'.attempts = r.attempts
  currentSession : r'.currentSessionId = r.currentSessionId
  started : r'.processingStartedAt = r.processingStartedAt
    ∨ (r.state ≠ .processing ∧ r'.state = .processing)

theorem ColumnsKept.refl (r : ProcessingJob) : ColumnsKept r r :=
  ⟨rfl, rfl, Or.inl rfl⟩

/-- A transaction that is no retry and no start keeps them. -/
theorem ColumnsKept.jobColumns (ha : ∀ r, tx.attempts r = r.attempts)
    (hs : ∀ r, tx.currentSession r = r.currentSessionId)
    {jobs jobs' : Table ProcessingJob}
    (h : Table.Evolves ColumnsKept BlankJob jobs jobs') :
    JobColumnsEvolve tx jobs jobs' := by
  refine Table.Evolves.mono (fun r r' hk => ?_) (fun _ hb => hb) h
  exact ⟨hk.attempts.trans (ha r).symm,
    hk.currentSession.trans (hs r).symm, hk.started⟩

-- ============================================================= the writers

/-- A transition rewrites its row and no other. -/
theorem transition_rows {jobs jobs' : Table ProcessingJob} {j : Uuid}
    {f t : JobState} {extra : JobExtra}
    (h : transition jobs now j f t extra = .ok jobs') :
    Table.Evolves (fun r r' => if r.id = j
        then r.state = f ∧ r' = transitionValues t now extra r
        else r' = r) (fun _ => False) jobs jobs' := by
  obtain ⟨-, row, hrow, hstate, hget⟩ := transition_ok h
  refine ⟨fun {k r} hk => ?_, fun {k r'} h₀ hk => ?_⟩
  · have hid : r.id = k := Table.key_of_get hk
    by_cases hkj : k = j
    · rw [hkj, hrow] at hk
      injection hk with hk
      subst hk
      refine ⟨transitionValues t now extra row, ?_, ?_⟩
      · rw [hget k, if_pos hkj]
      · rw [if_pos (hid.trans hkj)]
        exact ⟨hstate, rfl⟩
    · refine ⟨r, ?_, ?_⟩
      · rw [hget k, if_neg hkj]
        exact hk
      · rw [if_neg fun e => hkj (hid.symm.trans e)]
  · have hkj : k ≠ j := by
      rintro rfl
      rw [hrow] at h₀
      cases h₀
    rw [hget k, if_neg hkj, h₀] at hk
    cases hk

/-- A pass over the table that moves no row into `processing`. -/
structure PassKept (r r' : ProcessingJob) : Prop where
  attempts : r'.attempts = r.attempts
  currentSession : r'.currentSessionId = r.currentSessionId
  started : r'.processingStartedAt = r.processingStartedAt

theorem PassKept.refl (r : ProcessingJob) : PassKept r r :=
  ⟨rfl, rfl, rfl⟩

theorem PassKept.trans {a b c : ProcessingJob} (h₁ : PassKept a b)
    (h₂ : PassKept b c) : PassKept a c :=
  ⟨h₂.attempts.trans h₁.attempts,
    h₂.currentSession.trans h₁.currentSession, h₂.started.trans h₁.started⟩

theorem PassKept.blank {a b : ProcessingJob} (ha : BlankJob a)
    (h : PassKept a b) : BlankJob b :=
  ⟨h.attempts.trans ha.attempts, h.currentSession.trans ha.currentSession,
    h.started.trans ha.started⟩

/-- How the job table changes under such passes. -/
def PassEvolve (jobs jobs' : Table ProcessingJob) : Prop :=
  Table.Evolves PassKept BlankJob jobs jobs'

theorem PassEvolve.refl (jobs : Table ProcessingJob) :
    PassEvolve jobs jobs := Table.Evolves.refl PassKept.refl jobs

theorem PassEvolve.trans {jobs₁ jobs₂ jobs₃ : Table ProcessingJob}
    (h₁ : PassEvolve jobs₁ jobs₂) (h₂ : PassEvolve jobs₂ jobs₃) :
    PassEvolve jobs₁ jobs₃ :=
  Table.Evolves.trans (fun _ _ _ => PassKept.trans)
    (fun _ _ => PassKept.blank) h₁ h₂

theorem PassEvolve.columnsKept {jobs jobs' : Table ProcessingJob}
    (h : PassEvolve jobs jobs') :
    Table.Evolves ColumnsKept BlankJob jobs jobs' :=
  Table.Evolves.mono (fun _ _ hk =>
    ⟨hk.attempts, hk.currentSession, Or.inl hk.started⟩) (fun _ => id) h

/-- A transition to another state than `processing`, without an
`attempts` override. -/
theorem transition_pass {jobs jobs' : Table ProcessingJob} {j : Uuid}
    {f t : JobState} {extra : JobExtra} (ha : extra.attempts = none)
    (ht : t ≠ .processing)
    (h : transition jobs now j f t extra = .ok jobs') :
    PassEvolve jobs jobs' := by
  refine Table.Evolves.mono (fun r r' hr => ?_) (fun _ hb => hb.elim)
    (transition_rows h)
  split at hr
  · obtain ⟨-, rfl⟩ := hr
    refine ⟨?_, rfl, if_neg ht⟩
    unfold transitionValues
    rw [ha]
    rfl
  · exact hr ▸ PassKept.refl r

/-- A transition to any state. -/
theorem transition_kept {jobs jobs' : Table ProcessingJob} {j : Uuid}
    {f t : JobState} {extra : JobExtra} (ha : extra.attempts = none)
    (h : transition jobs now j f t extra = .ok jobs') :
    Table.Evolves ColumnsKept BlankJob jobs jobs' := by
  by_cases ht : t = .processing
  · have hallowed := (transition_ok h).1
    refine Table.Evolves.mono (fun r r' hr => ?_) (fun _ hb => hb.elim)
      (transition_rows h)
    split at hr
    · obtain ⟨hf, rfl⟩ := hr
      refine ⟨?_, rfl, Or.inr ⟨?_, ht⟩⟩
      · unfold transitionValues
        rw [ha]
        rfl
      · -- no allowed pair stays in `processing`
        rw [hf]
        rintro rfl
        rw [ht] at hallowed
        revert hallowed
        decide
    · exact hr ▸ ColumnsKept.refl r
  · exact (transition_pass ha ht h).columnsKept

theorem skipInvalid_kept {jobs : Table ProcessingJob} {j : Uuid}
    {f t : JobState} {extra : JobExtra} (ha : extra.attempts = none) :
    Table.Evolves ColumnsKept BlankJob jobs
      (skipInvalid jobs (transition jobs now j f t extra)) := by
  cases ht : transition jobs now j f t extra with
  | error e => exact Table.Evolves.refl ColumnsKept.refl jobs
  | ok jobs' => exact transition_kept ha ht

theorem dispatchRows_pass (now : Time) :
    ∀ (rows : List ProcessingJob) (jobs : Table ProcessingJob),
      PassEvolve jobs (dispatchRows now rows jobs).1 := by
  intro rows
  induction rows with
  | nil => exact PassEvolve.refl
  | cons job rest ih =>
      intro jobs
      unfold dispatchRows
      cases ht : transition jobs now job.id .ready .dispatched
          JobExtra.none with
      | error e => exact ih jobs
      | ok jobs' =>
          have hfirst : PassEvolve jobs jobs' :=
            transition_pass rfl (by decide) ht
          exact hfirst.trans (ih jobs')

theorem reapStuck_pass (cfg : Settings) (jobs : Table ProcessingJob)
    (now : Time) : PassEvolve jobs (reapStuck cfg jobs now) := by
  unfold reapStuck
  refine PassEvolve.trans
    (Table.Evolves.updateWhere PassKept.refl jobs fun r _ _ => ?_)
    (Table.Evolves.updateWhere PassKept.refl _ fun r _ _ => ?_)
  · exact ⟨rfl, rfl, rfl⟩
  · exact ⟨rfl, rfl, rfl⟩

/-- A job that ingestion adds is blank. -/
theorem promoteToReady_pass {jobs jobs' : Table ProcessingJob}
    {id itemId : Uuid} {owner : String}
    (h : promoteToReady jobs now id itemId owner = some jobs') :
    PassEvolve jobs jobs' := by
  rcases promoteToReady_cases h with rfl | ⟨job, ht⟩ | ⟨jobs₁, hins, ht⟩
  · exact PassEvolve.refl jobs'
  · exact transition_pass rfl (by decide) ht
  · have hcreated : PassEvolve jobs jobs₁ :=
      Table.Evolves.insert PassKept.refl hins ⟨rfl, rfl, rfl⟩
    exact hcreated.trans (transition_pass rfl (by decide) ht)

-- ==================================================== every transaction

/-- The start's transition, and its session written to the job. -/
theorem startPipeline_columns {jobs : Table ProcessingJob}
    {j sid rid : Uuid} {hex : String}
    (h : transition db.jobs now j .dispatched .processing JobExtra.none
      = .ok jobs) :
    JobColumnsEvolve (.startPipeline j sid rid hex) db.jobs
      (setCurrentSession jobs j sid) := by
  have hset : Table.Evolves (fun r r' => r' = if r.id = j
      then { r with currentSessionId := some sid } else r)
      (fun _ => False) jobs (setCurrentSession jobs j sid) := by
    refine Table.Evolves.updateWhere_cases jobs (fun r hp => ?_)
      (fun r hn => ?_)
    · exact (if_pos (of_decide_eq_true hp)).symm
    · exact (if_neg (of_decide_eq_false hn)).symm
  refine ((transition_rows h).comp hset).mono ?_ ?_
  · rintro r r' ⟨r₁, hr₁, rfl⟩
    split at hr₁
    · rename_i hj
      obtain ⟨hstate, rfl⟩ := hr₁
      have hj₁ : (transitionValues .processing now JobExtra.none r).id
          = j := hj
      rw [if_pos hj₁]
      refine ⟨rfl, (if_pos hj).symm, Or.inr ⟨?_, rfl⟩⟩
      rw [hstate]
      decide
    · rename_i hj
      subst hr₁
      rw [if_neg hj]
      exact ⟨rfl, (if_neg hj).symm, Or.inl rfl⟩
  · rintro r (⟨_, hb, -⟩ | hb)
    · exact hb.elim
    · exact hb.elim

/-- The retry's transition. -/
theorem retry_columns {jobs : Table ProcessingJob} {job : ProcessingJob}
    (h : retry job db.jobs now = .ok jobs) :
    JobColumnsEvolve (.retry job) db.jobs jobs := by
  refine Table.Evolves.mono (fun r r' hr => ?_) (fun _ hb => hb.elim)
    (transition_rows h)
  split at hr
  · rename_i hj
    obtain ⟨-, rfl⟩ := hr
    exact ⟨(if_pos hj).symm, rfl, Or.inl rfl⟩
  · rename_i hj
    subst hr
    exact ⟨(if_neg hj).symm, rfl, Or.inl rfl⟩

theorem jobColumns_refl (ha : ∀ r, tx.attempts r = r.attempts)
    (hs : ∀ r, tx.currentSession r = r.currentSessionId)
    (jobs : Table ProcessingJob) : JobColumnsEvolve tx jobs jobs :=
  ColumnsKept.jobColumns ha hs (Table.Evolves.refl ColumnsKept.refl jobs)

/-- Every committed transaction does this to the jobs. -/
theorem commit_jobColumns (h : tx.commit cfg now db = .ok db') :
    JobColumnsEvolve tx db.jobs db'.jobs := by
  cases tx with
  | upsert mapped owner itemId jobId ids =>
      refine ColumnsKept.jobColumns (fun _ => rfl) (fun _ => rfl) ?_
      rcases upsert_ok h with rfl | ⟨_, _, _, jobs, hjobs, rfl⟩
      · exact Table.Evolves.refl ColumnsKept.refl _
      · exact (promoteToReady_pass hjobs).columnsKept
  | dispatchOnce limit locked =>
      injection h with h
      subst h
      exact ColumnsKept.jobColumns (fun _ => rfl) (fun _ => rfl)
        (dispatchRows_pass now _ db.jobs).columnsKept
  | reapStuck =>
      injection h with h
      subst h
      exact ColumnsKept.jobColumns (fun _ => rfl) (fun _ => rfl)
        (reapStuck_pass cfg db.jobs now).columnsKept
  | retry job =>
      obtain ⟨jobs, hjobs, rfl⟩ := withJobs_ok h
      exact retry_columns hjobs
  | cancel job reason =>
      obtain ⟨jobs, hjobs, rfl⟩ := withJobs_ok h
      exact ColumnsKept.jobColumns (fun _ => rfl) (fun _ => rfl)
        (transition_kept rfl hjobs)
  | archive job =>
      obtain ⟨jobs, hjobs, rfl⟩ := withJobs_ok h
      exact ColumnsKept.jobColumns (fun _ => rfl) (fun _ => rfl)
        (transition_kept rfl hjobs)
  | markFailed j f error errorKind =>
      obtain ⟨jobs, hjobs, rfl⟩ := withJobs_ok h
      exact ColumnsKept.jobColumns (fun _ => rfl) (fun _ => rfl)
        (transition_kept rfl hjobs)
  | startPipeline j sid rid hex =>
      obtain ⟨job, jobs, sessions, runs, -, hjobs, -, -, rfl⟩ :=
        startPipeline_ok h
      exact startPipeline_columns hjobs
  | resumeTransition rid =>
      refine ColumnsKept.jobColumns (fun _ => rfl) (fun _ => rfl) ?_
      obtain ⟨run, session, job, -, -, -, rfl⟩ := resumeTransition_ok h
      split
      · exact skipInvalid_kept rfl
      · exact Table.Evolves.refl ColumnsKept.refl _
  | finalizeJob sid rid =>
      refine ColumnsKept.jobColumns (fun _ => rfl) (fun _ => rfl) ?_
      obtain ⟨run, -, ⟨-, rfl⟩ | ⟨-, session, jobs, -, hjobs, rfl⟩⟩ :=
        finalizeJobIfPrimary_ok h
      · exact Table.Evolves.refl ColumnsKept.refl _
      · exact transition_kept rfl hjobs
  | failJob rid exc =>
      refine ColumnsKept.jobColumns (fun _ => rfl) (fun _ => rfl) ?_
      obtain ⟨run, -, ⟨-, rfl⟩ | ⟨-, rfl⟩⟩ :=
        failPipelineJobForGraphError_ok h
      · exact Table.Evolves.refl ColumnsKept.refl _
      · exact skipInvalid_kept rfl
  | pauseJob sid rid =>
      refine ColumnsKept.jobColumns (fun _ => rfl) (fun _ => rfl) ?_
      obtain ⟨run, -, ⟨-, rfl⟩ | ⟨-, session, -, rfl⟩⟩ :=
        transitionPipelineJob_ok h
      · exact Table.Evolves.refl ColumnsKept.refl _
      · exact skipInvalid_kept rfl
  | markRunStatus rid st =>
      obtain ⟨run, -, rfl⟩ := markRunStatus_ok h
      exact jobColumns_refl (fun _ => rfl) (fun _ => rfl) _
  | writeProjection sid rid output ids =>
      obtain ⟨_, _, rfl, -⟩ := writeSessionProjection_ok h
      exact jobColumns_refl (fun _ => rfl) (fun _ => rfl) _
  | openInterrupt id sid rid kind payload schema =>
      obtain ⟨interrupts, -, rfl⟩ :=
        Option.map_eq_some_iff.mp (flushed_ok.mp h)
      exact jobColumns_refl (fun _ => rfl) (fun _ => rfl) _
  | resolve sid current resolution resolvedBy iid =>
      obtain ⟨interventions, -, rfl⟩ :=
        Option.map_eq_some_iff.mp (flushed_ok.mp h)
      exact jobColumns_refl (fun _ => rfl) (fun _ => rfl) _
  | expireStalled =>
      injection h with h
      subst h
      exact jobColumns_refl (fun _ => rfl) (fun _ => rfl) _
  | postMessage sid content index msgId rid =>
      obtain ⟨_, _, _, _, runs, -, -, -, rfl⟩ := postMessage_ok h
      exact jobColumns_refl (fun _ => rfl) (fun _ => rfl) _
  | handleReminder sid message wake payload index msgId rid =>
      obtain ⟨_, _, -, ⟨-, rfl⟩ | ⟨-, _, _, -, -, rfl⟩⟩ :=
        handleReminder_ok h
      · exact jobColumns_refl (fun _ => rfl) (fun _ => rfl) _
      · exact jobColumns_refl (fun _ => rfl) (fun _ => rfl) _
  | replay sid fromRun step ctx cp childId rid hex =>
      obtain ⟨parent, _, sessions, runs, -, -, -, rfl⟩ := replay_ok h
      exact jobColumns_refl (fun _ => rfl) (fun _ => rfl) _
  | cancelActiveRun sid locked =>
      injection h with h
      subst h
      exact jobColumns_refl (fun _ => rfl) (fun _ => rfl) _
  | archiveSession sid =>
      injection h with h
      subst h
      exact jobColumns_refl (fun _ => rfl) (fun _ => rfl) _

-- ================================================================ sessions

/-- What `create_replay` writes once and for all. -/
structure OriginKept (r r' : Session) : Prop where
  parentSessionId : r'.parentSessionId = r.parentSessionId
  branchFromRunId : r'.branchFromRunId = r.branchFromRunId

theorem OriginKept.refl (r : Session) : OriginKept r r := ⟨rfl, rfl⟩

theorem OriginKept.trans {a b c : Session} (h₁ : OriginKept a b)
    (h₂ : OriginKept b c) : OriginKept a c :=
  ⟨h₂.parentSessionId.trans h₁.parentSessionId,
    h₂.branchFromRunId.trans h₁.branchFromRunId⟩

/-- The session a transaction inserts. -/
def Tx.Creates (db : Db) : Tx → Session → Prop
  | .startPipeline j sid _ hex, s => ∃ now job, db.jobs.get j = some job
      ∧ s = createPrimary job sid hex now
  | .replay sid fromRun _ _ cp childId _ hex, s => ∃ now parent run,
      db.sessions.get sid = some parent ∧ db.runs.get fromRun = some run
        ∧ s = createReplay parent fromRun cp childId hex now
  | _, _ => False

/-- How the session table changes. -/
def OriginsEvolve (B : Session → Prop) (sessions sessions' : Table Session) :
    Prop := Table.Evolves OriginKept B sessions sessions'

theorem OriginsEvolve.refl {B : Session → Prop} (sessions : Table Session) :
    OriginsEvolve B sessions sessions :=
  Table.Evolves.refl OriginKept.refl sessions

theorem OriginsEvolve.updateWhere {B : Session → Prop}
    (sessions : Table Session) {p : Session → Bool} {f : Session → Session}
    (h : ∀ r, OriginKept r (f r))
    (hf : ∀ r, HasKey.key (f r) = HasKey.key r := by
      intro _; exact Relational.keyKept rfl) :
    OriginsEvolve B sessions (sessions.updateWhere p f hf) :=
  Table.Evolves.updateWhere OriginKept.refl sessions fun r _ _ => h r

/-- A transcript write leaves every origin alone. -/
theorem SessionsCounted.origins {B : Session → Prop}
    {sessions sessions' : Table Session}
    (h : SessionsCounted sessions sessions') :
    OriginsEvolve B sessions sessions' :=
  h.mono fun _ _ _ => ⟨rfl, rfl⟩

/-- A replay finds the run it is asked to branch from. -/
theorem replay_fromRun {sid fromRun childId rid : Uuid}
    {step ctx cp hex : String}
    (h : replay db now sid fromRun step ctx cp childId rid hex
      = .ok db') : ∃ run, db.runs.get fromRun = some run := by
  unfold replay at h
  simp only [bind_ok, scalarOne_ok] at h
  obtain ⟨_, -, run, hrun, -⟩ := h
  exact ⟨run, hrun⟩

/-- Every committed transaction does this to the sessions. -/
theorem commit_origins (h : tx.commit cfg now db = .ok db') :
    OriginsEvolve (tx.Creates db) db.sessions db'.sessions := by
  cases tx with
  | upsert mapped owner itemId jobId ids =>
      rcases upsert_ok h with rfl | ⟨_, _, _, jobs, -, rfl⟩
      · exact OriginsEvolve.refl _
      · exact OriginsEvolve.refl _
  | dispatchOnce limit locked =>
      injection h with h
      subst h
      exact OriginsEvolve.refl _
  | reapStuck =>
      injection h with h
      subst h
      exact OriginsEvolve.refl _
  | retry job =>
      obtain ⟨jobs, -, rfl⟩ := withJobs_ok h
      exact OriginsEvolve.refl _
  | cancel job reason =>
      obtain ⟨jobs, -, rfl⟩ := withJobs_ok h
      exact OriginsEvolve.refl _
  | archive job =>
      obtain ⟨jobs, -, rfl⟩ := withJobs_ok h
      exact OriginsEvolve.refl _
  | markFailed j f error errorKind =>
      obtain ⟨jobs, -, rfl⟩ := withJobs_ok h
      exact OriginsEvolve.refl _
  | startPipeline j sid rid hex =>
      obtain ⟨job, jobs, sessions, runs, hjob, -, hs, -, rfl⟩ :=
        startPipeline_ok h
      exact Table.Evolves.insert OriginKept.refl hs ⟨now, job, hjob, rfl⟩
  | resumeTransition rid =>
      obtain ⟨run, session, job, -, -, -, rfl⟩ := resumeTransition_ok h
      split
      · exact OriginsEvolve.refl _
      · exact OriginsEvolve.refl _
  | markRunStatus rid st =>
      obtain ⟨run, -, rfl⟩ := markRunStatus_ok h
      refine OriginsEvolve.updateWhere db.sessions fun _ => ?_
      exact ⟨rfl, rfl⟩
  | finalizeJob sid rid =>
      obtain ⟨run, -, ⟨-, rfl⟩ | ⟨-, session, jobs, -, -, rfl⟩⟩ :=
        finalizeJobIfPrimary_ok h
      · exact OriginsEvolve.refl _
      · exact OriginsEvolve.refl _
  | failJob rid exc =>
      obtain ⟨run, -, ⟨-, rfl⟩ | ⟨-, rfl⟩⟩ :=
        failPipelineJobForGraphError_ok h
      · exact OriginsEvolve.refl _
      · exact OriginsEvolve.refl _
  | pauseJob sid rid =>
      obtain ⟨run, -, ⟨-, rfl⟩ | ⟨-, session, -, rfl⟩⟩ :=
        transitionPipelineJob_ok h
      · exact OriginsEvolve.refl _
      · exact OriginsEvolve.refl _
  | writeProjection sid rid output ids =>
      obtain ⟨_, _, rfl, hs⟩ := writeSessionProjection_ok h
      exact hs.origins
  | openInterrupt id sid rid kind payload schema =>
      obtain ⟨interrupts, -, rfl⟩ :=
        Option.map_eq_some_iff.mp (flushed_ok.mp h)
      refine OriginsEvolve.updateWhere db.sessions fun _ => ?_
      exact ⟨rfl, rfl⟩
  | resolve sid current resolution resolvedBy iid =>
      obtain ⟨interventions, -, rfl⟩ :=
        Option.map_eq_some_iff.mp (flushed_ok.mp h)
      refine OriginsEvolve.updateWhere db.sessions fun _ => ?_
      exact ⟨rfl, rfl⟩
  | expireStalled =>
      injection h with h
      subst h
      refine OriginsEvolve.updateWhere db.sessions fun _ => ?_
      exact ⟨rfl, rfl⟩
  | postMessage sid content index msgId rid =>
      obtain ⟨_, _, _, _, runs, -, hs, -, rfl⟩ := postMessage_ok h
      exact hs.origins
  | handleReminder sid message wake payload index msgId rid =>
      obtain ⟨_, _, hs, ⟨-, rfl⟩ | ⟨-, _, runs, -, -, rfl⟩⟩ :=
        handleReminder_ok h
      · exact hs.origins
      · exact hs.origins
  | replay sid fromRun step ctx cp childId rid hex =>
      obtain ⟨run, hrun⟩ := replay_fromRun h
      obtain ⟨parent, _, sessions, runs, hparent, hs, -, rfl⟩ := replay_ok h
      exact Table.Evolves.insert OriginKept.refl hs
        ⟨now, parent, run, hparent, hrun, rfl⟩
  | cancelActiveRun sid locked =>
      injection h with h
      subst h
      refine OriginsEvolve.updateWhere db.sessions fun _ => ?_
      exact ⟨rfl, rfl⟩
  | archiveSession sid =>
      injection h with h
      subst h
      refine OriginsEvolve.updateWhere db.sessions fun _ => ?_
      exact ⟨rfl, rfl⟩

end LegalBot
