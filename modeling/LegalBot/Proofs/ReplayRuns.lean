/-
The runs of replay sessions and the state of the job.

A replay session is on its parent's job, and its run is of kind
`pipeline` like the parent's. The four helpers that move the job
(`_resume_run`, `_transition_pipeline_job`, `_finalize_job_if_primary`,
`_fail_pipeline_job_for_graph_error`) look at `run.kind` and not at
`session.kind`, so a run of a replay session moves the job exactly as
the primary run does: whenever it finds the job in the state its
transition starts from.

`FindsJobElsewhere` says that it never does. The two are compared step
by step, in both directions, and with that along every run.
-/
import LegalBot.Orchestrator.Invariants
import LegalBot.Orchestrator.Effects

namespace LegalBot

open Relational (HasKey Table)

-- ============================================================== statements

/-- The run for which a worker runs a transaction. -/
def Tx.ofRun : Tx → Option Uuid
  | .resumeTransition rid | .markRunStatus rid _ | .finalizeJob _ rid
  | .failJob rid _ | .pauseJob _ rid | .writeProjection _ rid _ _ => some rid
  | .openInterrupt _ _ rid _ _ _ => rid
  | _ => none

/-- The pair along which it moves the job of a pipeline run. -/
def Tx.drives : Tx → Option (JobState × JobState)
  | .resumeTransition _ => some (.awaitingHuman, .processing)
  | .pauseJob .. => some (.processing, .awaitingHuman)
  | .finalizeJob .. => some (.processing, .completed)
  | .failJob .. => some (.processing, .failed)
  | _ => none

/-- A stored run of a replay session. -/
def IsReplayRun (db : Db) (rid : Uuid) : Prop :=
  (((db.runs.get rid).bind fun run => db.sessions.get run.sessionId).map
    (·.kind)) = some .replay

instance (db : Db) (rid : Uuid) : Decidable (IsReplayRun db rid) := by
  unfold IsReplayRun
  infer_instance

/-- The job of a pipeline run. -/
def drivenJob (db : Db) (rid : Uuid) : Option Uuid :=
  match db.runs.get rid with
  | some run => if run.kind = .pipeline then some run.jobId else none
  | none => none

/-- A step for a run of a replay session leaves the state of every job
alone. -/
def ReplaySparesJobs (env : Env) (a : Action) (s s' : State) : Prop :=
  ∀ tx ∈ committing env a s, ∀ rid ∈ tx.ofRun, IsReplayRun s.db rid →
    ∀ j st, jobState s.db j = some st → jobState s'.db j = some st

/-- A run of a replay session does not find its job in the state from
which its transaction moves it. -/
def FindsJobElsewhere (env : Env) (a : Action) (s : State) : Prop :=
  ∀ tx ∈ committing env a s, ∀ rid ∈ tx.ofRun, IsReplayRun s.db rid →
    ∀ j ∈ drivenJob s.db rid, ∀ pair ∈ tx.drives,
      jobState s.db j ≠ some pair.1

instance (env : Env) (a : Action) (s : State) :
    Decidable (FindsJobElsewhere env a s) := by
  unfold FindsJobElsewhere
  infer_instance

-- ============================================================ transactions

section Transactions

variable {cfg : Settings} {now : Time} {db db' : Db} {tx : Tx}
  {rid j : Uuid}

/-- The transaction names the session of its run. -/
def Tx.OnOwnSession (db : Db) : Tx → Prop
  | .finalizeJob sid rid | .pauseJob sid rid => sessionOf db rid = some sid
  | _ => True

/-- The session of a run is on the job of the run. -/
theorem RunsLinked.jobOf (hl : RunsLinked db) {run : Run}
    (hrun : db.runs.get rid = some run) :
    LegalBot.jobOf db run.sessionId = some run.jobId := by
  obtain ⟨session, hsession, hjob⟩ := hl rid run hrun
  unfold LegalBot.jobOf
  rw [hsession, ← hjob]
  rfl

theorem drivenJob_of_run {run : Run} (hrun : db.runs.get rid = some run)
    (hkind : run.kind = .pipeline) : drivenJob db rid = some run.jobId := by
  unfold drivenJob
  simp only [hrun]
  exact if_pos hkind

theorem drivenJob_some (h : drivenJob db rid = some j) :
    ∃ run, db.runs.get rid = some run ∧ run.kind = .pipeline
      ∧ run.jobId = j := by
  unfold drivenJob at h
  split at h
  · rename_i run hrun
    split at h
    · rename_i hkind
      exact ⟨run, hrun, hkind, Option.some.inj h⟩
    · cases h
  · cases h

/-- The job that a transaction on the session of its run moves is the
job of the run. -/
theorem driven_of_session {run : Run} {sid k : Uuid} (hl : RunsLinked db)
    (hrun : db.runs.get rid = some run) (hkind : run.kind = .pipeline)
    (hsid : sessionOf db rid = some sid) (hk : jobOf db sid = some k) :
    drivenJob db rid = some k := by
  unfold sessionOf at hsid
  rw [hrun] at hsid
  cases hsid
  rw [hl.jobOf hrun] at hk
  rw [drivenJob_of_run hrun hkind]
  exact hk

/-- A transaction for a run moves the job of a pipeline run along its
pair, and no other. -/
theorem jobMove_driven {k : Uuid} {f t : JobState} (hl : RunsLinked db)
    (hof : tx.ofRun = some rid) (hown : tx.OnOwnSession db)
    (hm : tx.jobMove now db k f t) :
    drivenJob db rid = some k ∧ tx.drives = some (f, t) := by
  cases tx with
  | resumeTransition rid₀ =>
      cases hof
      obtain ⟨⟨hkind, hk⟩, rfl, rfl⟩ := hm
      obtain ⟨run, hrun, hpipe⟩ := Option.map_eq_some_iff.mp hkind
      obtain ⟨sid, hsid, hk⟩ := Option.bind_eq_some_iff.mp hk
      exact ⟨driven_of_session hl hrun hpipe hsid hk, rfl⟩
  | finalizeJob sid rid₀ =>
      cases hof
      obtain ⟨⟨hkind, hk⟩, rfl, rfl⟩ := hm
      obtain ⟨run, hrun, hpipe⟩ := Option.map_eq_some_iff.mp hkind
      exact ⟨driven_of_session hl hrun hpipe hown hk, rfl⟩
  | pauseJob sid rid₀ =>
      cases hof
      obtain ⟨⟨hkind, hk⟩, rfl, rfl⟩ := hm
      obtain ⟨run, hrun, hpipe⟩ := Option.map_eq_some_iff.mp hkind
      exact ⟨driven_of_session hl hrun hpipe hown hk, rfl⟩
  | failJob rid₀ exc =>
      cases hof
      obtain ⟨⟨hkind, hk⟩, rfl, rfl⟩ := hm
      obtain ⟨run, hrun, hpipe⟩ := Option.map_eq_some_iff.mp hkind
      rw [hrun] at hk
      rw [drivenJob_of_run hrun hpipe]
      exact ⟨hk, rfl⟩
  | markRunStatus rid₀ st => cases hm
  | writeProjection sid rid₀ output ids => cases hm
  | openInterrupt id sid rid₀ kind payload schema => cases hm
  | _ => cases hof

theorem drives_moves {pair : JobState × JobState}
    (h : tx.drives = some pair) : pair.1 ≠ pair.2 := by
  cases tx with
  | _ => first | (cases h; decide) | cases h

/-- A legal transition of a job that is in its first state gets it into
the second. -/
theorem transition_moves {jobs : Table ProcessingJob} {row : ProcessingJob}
    {f t : JobState} (hrow : jobs.get j = some row) (hstate : row.state = f)
    (hft : (f, t) ∈ allowedTransitions) (now : Time) (extra : JobExtra) :
    ∃ jobs', transition jobs now j f t extra = .ok jobs'
      ∧ (jobs'.get j).map (·.state) = some t := by
  obtain ⟨jobs', hjobs⟩ :=
    (transition_succeeds hrow hft now extra).mpr hstate
  obtain ⟨-, _, -, -, hget⟩ := transition_ok hjobs
  refine ⟨jobs', hjobs, ?_⟩
  rw [hget j, if_pos rfl]
  rfl

/-- If the job is in the first state of the pair, the transaction
commits and moves it. -/
theorem driven_moves {f t : JobState} (hl : RunsLinked db)
    (hof : tx.ofRun = some rid) (hown : tx.OnOwnSession db)
    (hj : drivenJob db rid = some j) (hpair : tx.drives = some (f, t))
    (hstate : jobState db j = some f) :
    ∃ db', tx.commit cfg now db = .ok db' ∧ jobState db' j = some t := by
  obtain ⟨run, hrun, hkind, rfl⟩ := drivenJob_some hj
  obtain ⟨job, hjob, hjobState⟩ := Option.map_eq_some_iff.mp hstate
  obtain ⟨session, hsession, hsjob⟩ := hl rid run hrun
  cases tx with
  | resumeTransition rid₀ =>
      cases hof
      cases hpair
      obtain ⟨jobs', ht, hmoved⟩ := transition_moves hjob hjobState
        (t := .processing) (by decide) now JobExtra.none
      refine ⟨{ db with jobs := jobs' }, ?_, hmoved⟩
      unfold Tx.commit resumeTransition
      simp only [hrun, hsession, hjob, hsjob, hkind, ht, scalarOne, bind,
        Except.bind, if_true, skipInvalid]
      rfl
  | finalizeJob sid rid₀ =>
      cases hof
      cases hpair
      obtain rfl : run.sessionId = sid := by
        unfold Tx.OnOwnSession sessionOf at hown
        simpa [hrun] using hown
      obtain ⟨jobs', ht, hmoved⟩ := transition_moves hjob hjobState
        (t := .completed) (by decide) now JobExtra.none
      refine ⟨{ db with jobs := jobs' }, ?_, hmoved⟩
      unfold Tx.commit finalizeJobIfPrimary
      simp only [hrun, hsession, hsjob, hkind, ht, scalarOne, bind,
        Except.bind, ne_eq, not_true_eq_false, if_false, guarded]
      rfl
  | pauseJob sid rid₀ =>
      cases hof
      cases hpair
      obtain rfl : run.sessionId = sid := by
        unfold Tx.OnOwnSession sessionOf at hown
        simpa [hrun] using hown
      obtain ⟨jobs', ht, hmoved⟩ := transition_moves hjob hjobState
        (t := .awaitingHuman) (by decide) now JobExtra.none
      refine ⟨{ db with jobs := jobs' }, ?_, hmoved⟩
      unfold Tx.commit transitionPipelineJob
      simp only [hrun, hsession, hsjob, hkind, ht, scalarOne, bind,
        Except.bind, ne_eq, not_true_eq_false, if_false, skipInvalid]
      rfl
  | failJob rid₀ exc =>
      cases hof
      cases hpair
      obtain ⟨jobs', ht, hmoved⟩ := transition_moves hjob hjobState
        (t := .failed) (by decide) now
        ⟨none, some (some (String.ofList (exc.toList.take 12000))), none⟩
      refine ⟨{ db with jobs := jobs' }, ?_, hmoved⟩
      unfold Tx.commit failPipelineJobForGraphError
      simp only [hrun, hkind, ht, scalarOne, bind, Except.bind, ne_eq,
        not_true_eq_false, if_false, skipInvalid]
      rfl
  | _ => cases hpair

end Transactions

-- ==================================================================== step

section Step

variable {env : Env} {a : Action} {s s' : State} {tx : Tx}

/-- A worker names the session of its run. -/
theorem committing_onOwnSession {G : Action → State → Prop}
    (h : Reaches env G s) (htx : committing env a s = some tx) :
    tx.OnOwnSession s.db := by
  obtain ⟨tid, reply, ok, raised, -, hr⟩ := committing_request htx
  -- the call that runs it is on a stored run and its session
  have hlinked : ∀ inv slot stage,
      (s.tasks tid).pc = .worker (.invoke inv slot stage) →
      tx.ofInvocation inv →
      sessionOf s.db inv.runId = some inv.sessionId := by
    intro inv slot stage hpc _
    obtain ⟨run, hrun, hsid⟩ := invocation_linked h hpc
    unfold sessionOf
    rw [hrun, ← hsid]
    rfl
  rcases request_commit hr with
    hby | ⟨_, _, _, _, -, rfl⟩ | ⟨_, _, _, -, rfl⟩
      | ⟨inv, slot, stage, hpc, -, hof⟩
  · cases tx with
    | finalizeJob sid rid => cases hby
    | pauseJob sid rid => cases hby
    | _ => trivial
  · trivial
  · trivial
  · have hsid := hlinked inv slot stage hpc hof
    cases tx with
    | finalizeJob sid rid =>
        obtain ⟨rfl, rfl⟩ := hof
        exact hsid
    | pauseJob sid rid =>
        obtain ⟨rfl, rfl⟩ := hof
        exact hsid
    | _ => trivial

/-- A run that finds its job elsewhere moves no job. -/
theorem jobState_kept {rid : Uuid} (hl : RunsLinked s.db)
    (hstep : apply env a s = some s') (htx : committing env a s = some tx)
    (hof : tx.ofRun = some rid) (hown : tx.OnOwnSession s.db)
    (helse : ∀ j ∈ drivenJob s.db rid, ∀ pair ∈ tx.drives,
      jobState s.db j ≠ some pair.1) {j : Uuid} {st : JobState}
    (hst : jobState s.db j = some st) : jobState s'.db j = some st := by
  rcases apply_db hstep with
    ⟨hdb, -⟩ | ⟨tx', htx', ⟨hdb, -⟩ | ⟨hc, -⟩⟩
  · rw [hdb, hst]
  · rw [hdb, hst]
  rw [htx, Option.some.injEq] at htx'
  subst htx'
  obtain ⟨job, hjob, rfl⟩ := Option.map_eq_some_iff.mp hst
  obtain ⟨job', hjob', hmove⟩ := (commit_effects hc).jobs.persists hjob
  have hid : job.id = j := Table.key_of_get hjob
  unfold jobState
  rw [hjob']
  rcases hmove.state with hsame | hm
  · exact congrArg some hsame
  · -- it would have found its job in the first state of its pair
    rw [hid] at hm
    obtain ⟨hj, hpair⟩ := jobMove_driven hl hof hown hm
    exact absurd hst (helse j hj _ hpair)

/-- The two conditions agree in every state reached. -/
theorem replaySparesJobs_iff {G : Action → State → Prop}
    (h : Reaches env G s) (hstep : apply env a s = some s') :
    ReplaySparesJobs env a s s' ↔ FindsJobElsewhere env a s := by
  have hl := reaches_runsLinked h
  refine ⟨fun hspare tx htx rid hof hreplay j hj pair hpair hat => ?_,
    fun helse tx htx rid hof hreplay => ?_⟩
  · have hown := committing_onOwnSession h htx
    obtain ⟨db', hc, hmoved⟩ : ∃ db', tx.commit env.cfg s.now s.db
        = .ok db' ∧ jobState db' j = some pair.2 :=
      driven_moves hl hof hown hj hpair hat
    have hsame := hspare tx htx rid hof hreplay j pair.1 hat
    rw [(apply_commits hstep htx hc).1, hmoved] at hsame
    exact drives_moves hpair (Option.some.inj hsame).symm
  · intro j st hst
    exact jobState_kept hl hstep htx hof (committing_onOwnSession h htx)
      (helse tx htx rid hof hreplay) hst

end Step

-- ===================================================================== runs

/-- Along every run of the system the runs of replay sessions leave the
state of the job alone if and only if none of them ever finds the job in
the state from which it moves it. -/
theorem replay_runs_spare_jobs (env : Env) (acts : List Action) :
    Lts.Along (apply env) (ReplaySparesJobs env) State.init acts
      ↔ Lts.Along (apply env) (fun a s _ => FindsJobElsewhere env a s)
        State.init acts :=
  Lts.along_congr (fun _ _ _ h hstep => replaySparesJobs_iff h hstep)
    .init

-- =============================================================== scenarios

/-- Run 11 has asked its question and job 2 waits for a human; the
session is replayed from that run, and run 21 of the replay session 20
is resumed. -/
def replayedWhileWaiting : List Action :=
  asked ++
  [.start 2 (.replay 10 11 "classify" ""), .advance 2 (.checkpoint "cp"),
    .advance 2 (.fresh [20, 21] "c"), .advance 2 .ok,
    .deliver 3 1]

/-- The start of the replay run takes the job out of `awaiting_human`. -/
theorem replay_unpauses_job :
    ¬ ∀ acts, Lts.Along (apply Env.default)
      (ReplaySparesJobs Env.default) State.init acts := by
  intro h
  obtain ⟨s, hs⟩ := Option.isSome_iff_exists.mp
    (show (Lts.run (apply Env.default) State.init
      replayedWhileWaiting).isSome by decide +kernel)
  have hfinds : ((Lts.run (apply Env.default) State.init
      replayedWhileWaiting).map fun s =>
        ((apply Env.default (.advance 3 .ok) s).isSome,
          decide (FindsJobElsewhere Env.default (.advance 3 .ok) s)))
      = some (true, false) := by decide +kernel
  rw [hs, Option.map_some, Option.some.injEq, Prod.mk.injEq] at hfinds
  obtain ⟨s', hs'⟩ := Option.isSome_iff_exists.mp hfinds.1
  have hspares := Lts.along_snoc (h (replayedWhileWaiting ++
    [.advance 3 .ok])) hs hs'
  have hreach : Reaches Env.default Lts.Always s :=
    Lts.reachable_of_run .init hs
  exact of_decide_eq_false hfinds.2
    ((replaySparesJobs_iff hreach hs').mp hspares)

end LegalBot
