/-
What any committed transaction does to each orchestration table.

`Committed` collects it: a changed job state or interrupt status is read
against the log, sessions and runs are added and never re-pointed, a new
run is the one the transaction starts. `commit_spec` proves it, one case
a transaction; the invariants of the system are derived from its fields
and none of them opens a transaction again.

A field a transaction does not mention defaults to "unchanged".
-/
import LegalBot.Orchestrator.Tx

namespace LegalBot

open Relational (HasKey Table)

variable {cfg : Settings} {now : Time} {db db' : Db} {tx : Tx}

-- ==================================================================== jobs

/-- What a committed transaction may do to the state of a job, given
what it logged. -/
def LoggedMove (log : List Event) : Uuid → JobState → JobState → Prop :=
  fun k f t => (f, t) ∈ allowedTransitions
    ∧ (t = .processing → ∃ run, Event.entered k run ∈ log)
    ∧ (t = .completed → ∃ run kind, .finished k run kind .completed ∈ log)

theorem withJobs_ok {r : Except InvalidJobTransition (Table ProcessingJob)}
    (h : withJobs db r = .ok db') :
    ∃ jobs, r = .ok jobs ∧ db' = { db with jobs := jobs } := by
  unfold withJobs guarded at h
  cases r with
  | error e => simp [Except.map] at h
  | ok jobs =>
      injection h with h
      exact ⟨jobs, rfl, h.symm⟩

/-- A transition whose target needs no entry in the log. -/
theorem transition_loggedMove {jobs jobs' : Table ProcessingJob}
    {j : Uuid} {f t : JobState} {extra : JobExtra} {log : List Event}
    (h : transition jobs now j f t extra = .ok jobs')
    (hp : t = .processing → ∃ run, Event.entered j run ∈ log)
    (hc : t = .completed →
      ∃ run kind, Event.finished j run kind .completed ∈ log) :
    JobsEvolve (LoggedMove log) jobs jobs' := by
  have hallowed := (transition_ok h).1
  refine (transition_evolves h).mono ?_
  rintro k a b ⟨rfl, rfl, rfl⟩
  exact ⟨hallowed, hp, hc⟩

/-- The same for a transition that is skipped when its guard misses. -/
theorem skipInvalid_loggedMove {jobs : Table ProcessingJob}
    {j : Uuid} {f t : JobState} {extra : JobExtra} {log : List Event}
    (hp : t = .processing →
      (jobs.get j).map (·.state) = some f →
      ∃ run, Event.entered j run ∈ log) (hc : t ≠ .completed) :
    JobsEvolve (LoggedMove log) jobs
      (skipInvalid jobs (transition jobs now j f t extra)) := by
  cases ht : transition jobs now j f t extra with
  | error e => exact JobsEvolve.refl jobs
  | ok jobs' =>
      obtain ⟨-, row, hrow, hstate, -⟩ := transition_ok ht
      have hmapped : (jobs.get j).map (·.state) = some f := by
        rw [hrow, ← hstate]
        rfl
      exact transition_loggedMove ht (fun e => hp e hmapped)
        fun e => absurd e hc

-- ==================================================================== runs

/-- The run a transaction inserts. The session of a pipeline start or a
replay is new as well. -/
def Tx.Starts (db : Db) : Tx → Run → Prop
  | .startPipeline _ sid rid _, r =>
      r.id = rid ∧ r.sessionId = sid ∧ db.sessions.get sid = none
  | .replay _ _ _ _ _ childId rid _, r =>
      r.id = rid ∧ r.sessionId = childId ∧ db.sessions.get childId = none
  | .postMessage sid _ _ _ rid, r => r.id = rid ∧ r.sessionId = sid
  | .handleReminder sid _ wake _ _ _ rid, r =>
      wake = true ∧ r.id = rid ∧ r.sessionId = sid
  | _, _ => False

/-- The session of a run is there, on the run's job. -/
def Linked (sessions : Table Session) (r : Run) : Prop :=
  ∃ s, sessions.get r.sessionId = some s ∧ s.jobId = r.jobId

/-- How the run table changes. -/
def RunsEvolve (starts : Run → Prop) (sessions : Table Session)
    (runs runs' : Table Run) : Prop :=
  Table.Evolves RunMove (fun r => starts r ∧ Linked sessions r) runs runs'

theorem RunsEvolve.refl {starts : Run → Prop} {sessions : Table Session}
    (runs : Table Run) : RunsEvolve starts sessions runs runs :=
  Table.Evolves.refl RunMove.refl runs

/-- No `UPDATE` makes a run `running`. -/
theorem RunsEvolve.updateWhere {starts : Run → Prop}
    {sessions : Table Session} (runs : Table Run) {p : Run → Bool}
    {f : Run → Run} (h : ∀ r, RunMove r (f r)) :
    RunsEvolve starts sessions runs
      (runs.updateWhere p f fun r => (h r).id) :=
  Table.Evolves.updateWhere RunMove.refl runs fun r _ _ => h r

theorem RunsEvolve.insert {starts : Run → Prop}
    {sessions : Table Session} {runs runs' : Table Run} {r : Run}
    (h : runs.insert r = some runs') (hs : starts r)
    (hl : Linked sessions r) : RunsEvolve starts sessions runs runs' :=
  Table.Evolves.insert RunMove.refl h ⟨hs, hl⟩

/-- A new session is there after its insert. -/
theorem get_inserted {sessions sessions' : Table Session} {s : Session}
    (h : sessions.insert s = some sessions') :
    sessions'.get s.id = some s := by
  rw [Table.get_insert h]
  exact if_pos rfl

-- ============================================================== interrupts

/-- A status changes only as logged. -/
structure InterruptMove (log : List Event) (r r' : InterruptRequest) :
    Prop where
  id : r'.id = r.id
  sessionId : r'.sessionId = r.sessionId
  runId : r'.runId = r.runId
  kind : r'.kind = r.kind
  payload : r'.payload = r.payload
  status : r'.status = r.status ∨ .closed r.id r'.status ∈ log

/-- How the interrupt table changes: a new interrupt is pending. -/
def InterruptsEvolve (log : List Event)
    (interrupts interrupts' : Table InterruptRequest) : Prop :=
  Table.Evolves (InterruptMove log) (fun r => r.status = .pending)
    interrupts interrupts'

theorem InterruptMove.refl {log : List Event} (r : InterruptRequest) :
    InterruptMove log r r :=
  ⟨rfl, rfl, rfl, rfl, rfl, Or.inl rfl⟩

theorem InterruptsEvolve.refl {log : List Event}
    (interrupts : Table InterruptRequest) :
    InterruptsEvolve log interrupts interrupts :=
  Table.Evolves.refl InterruptMove.refl interrupts

theorem InterruptsEvolve.updateWhere {log : List Event}
    (interrupts : Table InterruptRequest) {p : InterruptRequest → Bool}
    {f : InterruptRequest → InterruptRequest}
    (hf : ∀ r, (f r).id = r.id)
    (h : ∀ r, r ∈ interrupts.rows → p r → InterruptMove log r (f r)) :
    InterruptsEvolve log interrupts (interrupts.updateWhere p f hf) :=
  Table.Evolves.updateWhere InterruptMove.refl interrupts h

/-- The rows a transaction adds to `user_intervention`: one for each
resolution it logged. -/
def InterventionsAdd (log : List Event)
    (rows rows' : List UserIntervention) : Prop :=
  rows' = rows ∨ ∃ row, rows' = rows ++ [row]
    ∧ log = [.closed row.interruptRequestId .resolved]

-- ====================================================== every transaction

/-- What a transaction committed. -/
structure Committed (tx : Tx) (now : Time) (db db' : Db) : Prop where
  jobs : JobsEvolve (LoggedMove (tx.events now db)) db.jobs db'.jobs := by
    exact JobsEvolve.refl _
  sessions : SessionsEvolve db.sessions db'.sessions := by
    exact SessionsEvolve.refl _
  runs : RunsEvolve (tx.Starts db) db'.sessions db.runs db'.runs := by
    exact RunsEvolve.refl _
  interrupts : InterruptsEvolve (tx.events now db) db.interrupts
      db'.interrupts := by
    exact InterruptsEvolve.refl _
  interventions : InterventionsAdd (tx.events now db)
      db.interventions.rows db'.interventions.rows := by
    exact Or.inl rfl

/-- A transaction that leaves the database as it was. -/
theorem Committed.unchanged : Committed tx now db db := {}

/-- `startPipeline` moves its job and then points it at the session. -/
theorem startPipeline_jobs {jobs : Table ProcessingJob} {j sid rid : Uuid}
    (h : transition db.jobs now j .dispatched .processing JobExtra.none
      = .ok jobs) :
    JobsEvolve (LoggedMove [.entered j rid]) db.jobs
      (setCurrentSession jobs j sid) := by
  have hmove : JobsEvolve (LoggedMove [.entered j rid]) db.jobs jobs :=
    transition_loggedMove h (fun _ => ⟨rid, List.mem_singleton_self _⟩)
      (fun h => by cases h)
  have hset := setCurrentSession_evolves jobs j sid
  refine ⟨fun hk => ?_, fun {k r'} h₀ hk => ?_⟩
  · obtain ⟨r₁, hr₁, hm₁⟩ := hmove.persists hk
    obtain ⟨r₂, hr₂, hm₂⟩ := hset.persists hr₁
    have hs₂ : r₂.state = r₁.state := hm₂.state.resolve_right id
    refine ⟨r₂, hr₂, hm₂.id.trans hm₁.id,
      hm₂.ingestionItemId.trans hm₁.ingestionItemId,
      hm₂.ownerUserId.trans hm₁.ownerUserId,
      hm₂.createdAt.trans hm₁.createdAt,
      hm₂.priority.trans hm₁.priority, ?_⟩
    rw [hs₂]
    exact hm₁.state
  · rcases hset.origin hk with ⟨r₁, hr₁, hm⟩ | ⟨-, hr⟩
    · exact (hm.state.resolve_right id).trans (hmove.born h₀ hr₁)
    · exact hr

/-- Every committed transaction meets the specification. -/
theorem commit_spec (h : tx.commit cfg now db = .ok db') :
    Committed tx now db db' := by
  cases tx with
  | upsert mapped owner itemId jobId ids =>
      rcases upsert_ok h with rfl | ⟨_, _, _, jobs, hjobs, rfl⟩
      · exact .unchanged
      · refine { jobs := (promoteToReady_evolves hjobs).mono ?_ }
        rintro k a b ⟨rfl, rfl⟩
        exact ⟨by decide, (fun h => by cases h), (fun h => by cases h)⟩
  | dispatchOnce limit locked =>
      injection h with h
      subst h
      refine { jobs := (dispatchRows_evolves now _ db.jobs).mono ?_ }
      rintro k a b ⟨rfl, rfl⟩
      exact ⟨by decide, (fun h => by cases h), (fun h => by cases h)⟩
  | reapStuck =>
      injection h with h
      subst h
      refine { jobs := (reapStuck_evolves cfg db.jobs now).mono ?_ }
      rintro k a b (⟨rfl, rfl⟩ | ⟨rfl, rfl⟩)
      · exact ⟨by decide, (fun h => by cases h), (fun h => by cases h)⟩
      · exact ⟨by decide, (fun h => by cases h), (fun h => by cases h)⟩
  | retry job =>
      obtain ⟨jobs, hjobs, rfl⟩ := withJobs_ok h
      exact
        { jobs := transition_loggedMove hjobs (fun h => by cases h)
            fun h => by cases h }
  | cancel job reason =>
      obtain ⟨jobs, hjobs, rfl⟩ := withJobs_ok h
      exact
        { jobs := transition_loggedMove hjobs (fun h => by cases h)
            fun h => by cases h }
  | archive job =>
      obtain ⟨jobs, hjobs, rfl⟩ := withJobs_ok h
      exact
        { jobs := transition_loggedMove hjobs (fun h => by cases h)
            fun h => by cases h }
  | markFailed j f error errorKind =>
      obtain ⟨jobs, hjobs, rfl⟩ := withJobs_ok h
      exact
        { jobs := transition_loggedMove hjobs (fun h => by cases h)
            fun h => by cases h }
  | startPipeline j sid rid hex =>
      obtain ⟨job, jobs, sessions, runs, hjob, hjobs, hs, hr, rfl⟩ :=
        startPipeline_ok h
      have hid : job.id = j := Table.key_of_get hjob
      exact
        { jobs := startPipeline_jobs hjobs
          sessions := SessionsEvolve.insert hs
          runs := RunsEvolve.insert hr
            ⟨rfl, rfl, Table.insert_fresh hs⟩
            ⟨_, get_inserted hs, hid⟩ }
  | resumeTransition rid =>
      obtain ⟨run, session, job, hrun, hsession, -, rfl⟩ :=
        resumeTransition_ok h
      by_cases hk : run.kind = .pipeline
      · rw [if_pos hk]
        refine
          { jobs := skipInvalid_loggedMove (fun _ hstate => ⟨rid, ?_⟩)
              fun h => by cases h }
        unfold Tx.events
        simp only [hrun, hsession]
        rw [if_pos ⟨hk, hstate⟩]
        exact List.mem_singleton_self _
      · rw [if_neg hk]
        exact .unchanged
  | markRunStatus rid st =>
      obtain ⟨run, -, rfl⟩ := markRunStatus_ok h
      refine
        { sessions := setSessionStatus_evolves db.sessions _ _
          runs := RunsEvolve.updateWhere db.runs fun r => ?_ }
      exact ⟨rfl, rfl, rfl, rfl, fun e => absurd e st.property⟩
  | finalizeJob sid rid =>
      obtain ⟨run, hrun, ⟨-, rfl⟩ | ⟨hk, session, jobs, hs, hjobs, rfl⟩⟩ :=
        finalizeJobIfPrimary_ok h
      · exact .unchanged
      · refine
          { jobs := transition_loggedMove hjobs (fun h => by cases h)
              fun _ => ⟨rid, session.kind, ?_⟩ }
        unfold Tx.events
        simp only [hrun, hs]
        rw [if_pos hk]
        exact List.mem_singleton_self _
  | failJob rid exc =>
      obtain ⟨run, -, ⟨-, rfl⟩ | ⟨-, rfl⟩⟩ :=
        failPipelineJobForGraphError_ok h
      · exact .unchanged
      · exact
          { jobs := skipInvalid_loggedMove (fun h => by cases h)
              fun h => by cases h }
  | pauseJob sid rid =>
      obtain ⟨run, -, ⟨-, rfl⟩ | ⟨-, session, -, rfl⟩⟩ :=
        transitionPipelineJob_ok h
      · exact .unchanged
      · exact
          { jobs := skipInvalid_loggedMove (fun h => by cases h)
              fun h => by cases h }
  | writeProjection sid rid output ids =>
      obtain ⟨_, _, rfl, hs⟩ := writeSessionProjection_ok h
      exact { sessions := hs.evolves }
  | openInterrupt id sid rid kind payload schema =>
      obtain ⟨interrupts, hi, rfl⟩ :=
        Option.map_eq_some_iff.mp (flushed_ok.mp h)
      refine
        { sessions := SessionsEvolve.updateWhere db.sessions fun r => ?_
          interrupts := Table.Evolves.insert InterruptMove.refl hi rfl }
      exact ⟨rfl, rfl, rfl, rfl, rfl⟩
  | resolve sid current resolution resolvedBy iid =>
      obtain ⟨interventions, hi, rfl⟩ :=
        Option.map_eq_some_iff.mp (flushed_ok.mp h)
      refine
        { sessions := SessionsEvolve.updateWhere db.sessions fun r => ?_
          interrupts := InterruptsEvolve.updateWhere db.interrupts
            (fun r => ?_) fun r _ hp => ?_
          interventions := Or.inr ⟨_, Table.insert_rows hi, rfl⟩ }
      · exact ⟨rfl, rfl, rfl, rfl, rfl⟩
      · rfl
      · have hid : r.id = current.id := of_decide_eq_true hp
        refine ⟨rfl, rfl, rfl, rfl, rfl, Or.inr ?_⟩
        rw [hid]
        exact List.mem_singleton_self _
  | expireStalled =>
      injection h with h
      subst h
      refine
        { sessions := SessionsEvolve.updateWhere db.sessions fun r => ?_
          interrupts := InterruptsEvolve.updateWhere db.interrupts
            (fun r => ?_) fun r hr hp => ?_ }
      · exact ⟨rfl, rfl, rfl, rfl, rfl⟩
      · rfl
      · refine ⟨rfl, rfl, rfl, rfl, rfl, Or.inr ?_⟩
        exact List.mem_map.mpr ⟨r, List.mem_filter.mpr ⟨hr, hp⟩, rfl⟩
  | postMessage sid content index msgId rid =>
      obtain ⟨session, _, _, sessions, runs, hget, hs, hr, rfl⟩ :=
        postMessage_ok h
      obtain ⟨s', hs', hkept⟩ := hs.evolves.persists hget
      exact
        { sessions := hs.evolves
          runs := RunsEvolve.insert hr ⟨rfl, rfl⟩ ⟨s', hs', hkept.jobId⟩ }
  | handleReminder sid message wake payload index msgId rid =>
      obtain ⟨_, sessions, hs,
        ⟨-, rfl⟩ | ⟨hwake, session, runs, hget, hr, rfl⟩⟩ :=
        handleReminder_ok h
      · exact { sessions := hs.evolves }
      · exact
          { sessions := hs.evolves
            runs := RunsEvolve.insert hr ⟨hwake, rfl, rfl⟩
              ⟨session, hget, rfl⟩ }
  | replay sid fromRun step ctx cp childId rid hex =>
      obtain ⟨parent, _, sessions, runs, -, hs, hr, rfl⟩ := replay_ok h
      exact
        { sessions := SessionsEvolve.insert hs
          runs := RunsEvolve.insert hr
            ⟨rfl, rfl, Table.insert_fresh hs⟩
            ⟨_, get_inserted hs, rfl⟩ }
  | cancelActiveRun sid locked =>
      injection h with h
      subst h
      refine
        { sessions := setSessionStatus_evolves db.sessions _ _
          runs := RunsEvolve.updateWhere db.runs fun r => ?_ }
      exact ⟨rfl, rfl, rfl, rfl, (fun h => by cases h)⟩
  | archiveSession sid =>
      injection h with h
      subst h
      exact { sessions := setSessionStatus_evolves db.sessions _ _ }

/-- Marking a stored run. -/
theorem markRunStatus_commits (cfg : Settings) (now : Time) {rid : Uuid}
    {run : Run} (hrun : db.runs.get rid = some run) (st : MarkedStatus) :
    ∃ db', Tx.commit cfg now db (.markRunStatus rid st) = .ok db'
      ∧ db'.runs.get rid
        = some { run with status := st.val, finishedAt := some now }
      ∧ db'.jobs = db.jobs
      ∧ SessionsEvolve db.sessions db'.sessions := by
  have hid : run.id = rid := Table.key_of_get hrun
  have hget : (setRunStatus db.runs now rid st.val).get rid
      = some { run with status := st.val, finishedAt := some now } := by
    unfold setRunStatus
    rw [Table.get_updateWhere, hrun]
    simp [hid]
  refine ⟨{ db with
    runs := setRunStatus db.runs now rid st.val
    sessions := setSessionStatus db.sessions run.sessionId
      (if st.val = .awaitingHuman then .awaitingHuman else .idle) },
    ?_, hget, rfl, setSessionStatus_evolves db.sessions _ _⟩
  exact bind_ok.mpr ⟨_, scalarOne_ok.mpr hget, rfl⟩

-- ============================================================ foreign keys

/-- Every run's session is there, on the run's job. -/
def RunsLinked (db : Db) : Prop :=
  ∀ k r, db.runs.get k = some r → Linked db.sessions r

/-- Every transaction keeps it. -/
theorem Committed.runsLinked (h : Committed tx now db db')
    (hl : RunsLinked db) : RunsLinked db' := by
  intro k r' hk
  rcases h.runs.origin hk with ⟨r, hr, hmove⟩ | ⟨-, -, hlinked⟩
  · obtain ⟨s, hs, hjob⟩ := hl k r hr
    obtain ⟨s', hs', hkept⟩ := h.sessions.persists hs
    refine ⟨s', ?_, ?_⟩
    · rw [hmove.sessionId]
      exact hs'
    · rw [hkept.jobId, hjob, hmove.jobId]
  · exact hlinked

/-- The job of a session is there. -/
def JobStored (jobs : Table ProcessingJob) (s : Session) : Prop :=
  ∃ job, jobs.get s.jobId = some job

/-- A new session is on a stored job, or on the job of another
session. -/
structure NewSessions (db db' : Db) : Prop where
  born : ∀ {k s}, db.sessions.get k = none →
      db'.sessions.get k = some s → JobStored db.jobs s
        ∨ ∃ k' parent, db.sessions.get k' = some parent
          ∧ s.jobId = parent.jobId := by
    intro k s h₀ hk
    cases h₀.symm.trans hk

theorem NewSessions.of_none
    (h : ∀ {k}, db.sessions.get k = none → db'.sessions.get k = none) :
    NewSessions db db' := by
  refine ⟨fun h₀ hk => ?_⟩
  rw [h h₀] at hk
  cases hk

/-- A session is only inserted by a pipeline start or a replay. -/
theorem commit_newSessions (h : tx.commit cfg now db = .ok db') :
    NewSessions db db' := by
  cases tx with
  | upsert mapped owner itemId jobId ids =>
      rcases upsert_ok h with rfl | ⟨_, _, _, jobs, -, rfl⟩
      · exact {}
      · exact {}
  | dispatchOnce limit locked =>
      injection h with h
      subst h
      exact {}
  | reapStuck =>
      injection h with h
      subst h
      exact {}
  | retry job =>
      obtain ⟨jobs, -, rfl⟩ := withJobs_ok h
      exact {}
  | cancel job reason =>
      obtain ⟨jobs, -, rfl⟩ := withJobs_ok h
      exact {}
  | archive job =>
      obtain ⟨jobs, -, rfl⟩ := withJobs_ok h
      exact {}
  | markFailed j f error errorKind =>
      obtain ⟨jobs, -, rfl⟩ := withJobs_ok h
      exact {}
  | startPipeline j sid rid hex =>
      obtain ⟨job, jobs, sessions, runs, hjob, -, hs, -, rfl⟩ :=
        startPipeline_ok h
      refine ⟨fun {k s} h₀ hk => Or.inl ?_⟩
      have hk' : sessions.get k = some s := hk
      rw [Table.get_insert hs k, h₀] at hk'
      split at hk'
      · injection hk' with hk'
        have hid : s.jobId = j := by
          rw [← hk']
          exact Table.key_of_get hjob
        exact ⟨job, hid ▸ hjob⟩
      · cases hk'
  | resumeTransition rid =>
      obtain ⟨run, session, job, -, -, -, rfl⟩ := resumeTransition_ok h
      split
      · exact {}
      · exact {}
  | markRunStatus rid st =>
      obtain ⟨run, -, rfl⟩ := markRunStatus_ok h
      exact .of_none Table.get_updateWhere_none
  | finalizeJob sid rid =>
      obtain ⟨run, -, ⟨-, rfl⟩ | ⟨-, session, jobs, -, -, rfl⟩⟩ :=
        finalizeJobIfPrimary_ok h
      · exact {}
      · exact {}
  | failJob rid exc =>
      obtain ⟨run, -, ⟨-, rfl⟩ | ⟨-, rfl⟩⟩ :=
        failPipelineJobForGraphError_ok h
      · exact {}
      · exact {}
  | pauseJob sid rid =>
      obtain ⟨run, -, ⟨-, rfl⟩ | ⟨-, session, -, rfl⟩⟩ :=
        transitionPipelineJob_ok h
      · exact {}
      · exact {}
  | writeProjection sid rid output ids =>
      obtain ⟨_, _, rfl, hs⟩ := writeSessionProjection_ok h
      exact .of_none hs.get_none
  | openInterrupt id sid rid kind payload schema =>
      obtain ⟨interrupts, -, rfl⟩ :=
        Option.map_eq_some_iff.mp (flushed_ok.mp h)
      exact .of_none Table.get_updateWhere_none
  | resolve sid current resolution resolvedBy iid =>
      obtain ⟨interventions, -, rfl⟩ :=
        Option.map_eq_some_iff.mp (flushed_ok.mp h)
      exact .of_none Table.get_updateWhere_none
  | expireStalled =>
      injection h with h
      subst h
      exact .of_none Table.get_updateWhere_none
  | postMessage sid content index msgId rid =>
      obtain ⟨_, _, _, _, runs, -, hs, -, rfl⟩ := postMessage_ok h
      exact .of_none hs.get_none
  | handleReminder sid message wake payload index msgId rid =>
      obtain ⟨_, _, hs, ⟨-, rfl⟩ | ⟨-, _, runs, -, -, rfl⟩⟩ :=
        handleReminder_ok h
      · exact .of_none hs.get_none
      · exact .of_none hs.get_none
  | replay sid fromRun step ctx cp childId rid hex =>
      obtain ⟨parent, _, sessions, runs, hparent, hs, -, rfl⟩ :=
        replay_ok h
      refine ⟨fun {k s} h₀ hk => Or.inr ⟨sid, parent, hparent, ?_⟩⟩
      have hk' : sessions.get k = some s := hk
      rw [Table.get_insert hs k, h₀] at hk'
      split at hk'
      · injection hk' with hk'
        rw [← hk']
        rfl
      · cases hk'
  | cancelActiveRun sid locked =>
      injection h with h
      subst h
      exact .of_none Table.get_updateWhere_none
  | archiveSession sid =>
      injection h with h
      subst h
      exact .of_none Table.get_updateWhere_none

/-- Every session's job is there. -/
def SessionsLinked (db : Db) : Prop :=
  ∀ k s, db.sessions.get k = some s → JobStored db.jobs s

theorem commit_sessionsLinked (h : tx.commit cfg now db = .ok db')
    (hl : SessionsLinked db) : SessionsLinked db' := by
  have hc := commit_spec h
  -- a job that is stored stays stored
  have hkeep : ∀ s, JobStored db.jobs s → JobStored db'.jobs s := by
    rintro s ⟨job, hjob⟩
    obtain ⟨job', hjob', -⟩ := hc.jobs.persists hjob
    exact ⟨job', hjob'⟩
  intro k s' hk
  rcases hc.sessions.origin hk with ⟨s, hs, hkept⟩ | ⟨h₀, -⟩
  · have hstored := hkeep s (hl k s hs)
    unfold JobStored at hstored ⊢
    rw [hkept.jobId]
    exact hstored
  · rcases (commit_newSessions h).born h₀ hk with hstored | ⟨k', p, hp, hj⟩
    · exact hkeep s' hstored
    · have hstored := hkeep p (hl k' p hp)
      unfold JobStored at hstored ⊢
      rw [hj]
      exact hstored

end LegalBot
