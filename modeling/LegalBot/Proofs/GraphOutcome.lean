/-
What `_invoke_graph` records when its graph has finished cleanly.

# The call from the graph's return

`finishInvoke` drives one worker from the return of `graph.ainvoke` to
the end of the call; what the other actors did before is in the state it
starts from, which is any state reached. `CleanFinish` is what the
environment answers on the way when nothing raises but, perhaps, the
publish at the end.

# The result

`_mark_run_status(completed)`, `_finalize_job_if_primary` and the
publish share one `try` block with the graph call, and its handler marks
the run `failed`. So the call records `completed` exactly when the two
later steps go through (`FinishAccepted`): the run is no pipeline run,
or its job is in `processing` and the publish does not raise.
-/
import LegalBot.Orchestrator.Invariants

namespace LegalBot

open Relational (HasKey Table)

-- ================================================================ the call

/-- Drive a worker to the end of its `_invoke_graph` call. -/
def finishInvoke (env : Env) (tid : Nat) (reply : Stage → Reply) :
    Nat → State → Option State
  | 0, _ => none
  | fuel + 1, s =>
      match (s.tasks tid).pc with
      | .worker (.invoke _ _ stage) =>
          if stage.isOver then some s
          else
            match apply env (.advance tid (reply stage)) s with
            | some s' => finishInvoke env tid reply fuel s'
            | none => none
      | _ => none

/-- Enough for every path from the graph's return to the end. -/
def finishFuel : Nat := 9

/-- What the environment answers after a clean graph call: the output of
the graph, the uuid4 values drawn for the projection, whether the
checkpoint could be read (it holds no interrupt), and what the publish
of the follow-on task raised, if anything. -/
structure CleanFinish where
  output : GraphOutput
  ids : List Uuid
  unreadable : Option String
  publishError : Option String

/-- Its answers, stage by stage. -/
def CleanFinish.reply (f : CleanFinish) : Stage → Reply
  | .running => .output f.output
  | .project _ => .fresh f.ids ""
  | .inspect =>
      match f.unreadable with
      | none => .interrupts []
      | some e => .raised e
  | .enqueueIndex =>
      match f.publishError with
      | none => .ok
      | some e => .raised e
  | _ => .ok

-- ============================================================== statements

/-- The state of the job of a session. -/
def sessionJobState (db : Db) (sid : Uuid) : Option JobState :=
  (db.sessions.get sid).bind fun session => jobState db session.jobId

/-- The finish goes through: only a pipeline run has a job to complete
and a graph to index. -/
def FinishAccepted (env : Env) (db : Db) (inv : Invocation)
    (f : CleanFinish) : Prop :=
  (db.runs.get inv.runId).map (·.kind) = some .pipeline →
    sessionJobState db inv.sessionId = some .processing
      ∧ (env.cfg.kgEnabled = true → f.publishError = none)

/-- The call ends, returns `ok`, and leaves the run with a status. -/
def Records (env : Env) (tid : Nat) (inv : Invocation)
    (slot : Option Uuid) (f : CleanFinish) (fuel : Nat) (s : State)
    (ok : Bool) (status : RunStatus) : Prop :=
  ∃ s', finishInvoke env tid f.reply fuel s = some s'
    ∧ (s'.tasks tid).pc = .worker (.invoke inv slot (.returned ok))
    ∧ runStatus s'.db inv.runId = some status

-- ================================================================ one step

/-- The database a request leaves. -/
def Request.leaves {P : Type} (run : Tx → Except TxError Db) (db : Db) :
    Request P → Db
  | .commit tx _ _ =>
      match run tx with
      | .ok db' => db'
      | .error _ => db
  | _ => db

/-- The messages a request sends. -/
def Request.sends {P : Type} : Request P → List Message
  | .send m _ => [m]
  | _ => []

section Step

variable {env : Env} {tid : Nat} {reply : Stage → Reply} {s : State}
  {inv : Invocation} {slot : Option Uuid} {stage : Stage}
  {r : Request Stage}

theorem perform_sends (r : Request Pc) :
    (s.perform env tid r).sent = s.sent ++ r.sends := by
  cases r with
  | commit tx ok raised =>
      unfold State.perform Request.sends
      simp only [List.append_nil]
      cases tx.commit env.cfg s.now s.db with
      | ok db => exact continueAt_sent _
      | error e => exact continueAt_sent _
  | send m next => exact continueAt_sent _
  | _ => exact (continueAt_sent _).trans (List.append_nil _).symm

theorem Request.sends_map {P Q : Type} (f : P → Q) (r : Request P) :
    (r.map f).sends = r.sends := by
  cases r <;> rfl

theorem perform_leaves (r : Request Pc) :
    (s.perform env tid r).db
        = r.leaves (Tx.commit env.cfg s.now s.db) s.db
      ∧ (s.perform env tid r).now = s.now := by
  cases r with
  | commit tx ok raised =>
      unfold State.perform Request.leaves
      simp only
      cases tx.commit env.cfg s.now s.db with
      | ok db => exact ⟨continueAt_db _, continueAt_now _⟩
      | error e => exact ⟨continueAt_db _, continueAt_now _⟩
  | _ => exact ⟨continueAt_db _, continueAt_now _⟩

theorem Request.leaves_map {P Q : Type} {run : Tx → Except TxError Db}
    {db : Db} (f : P → Q) (r : Request P) :
    (r.map f).leaves run db = r.leaves run db := by
  cases r <;> rfl

/-- The call goes on where its request lands. -/
theorem finishInvoke_step (n : Nat)
    (hpc : (s.tasks tid).pc = .worker (.invoke inv slot stage))
    (hlive : stage.isOver = false)
    (hr : stage.request env.cfg s.db inv (reply stage) = some r) :
    ∃ s', finishInvoke env tid reply (n + 1) s
        = finishInvoke env tid reply n s'
      ∧ (s'.tasks tid).pc = .worker (.invoke inv slot
          (r.landing (Tx.commit env.cfg s.now s.db)))
      ∧ s'.db = r.leaves (Tx.commit env.cfg s.now s.db) s.db
      ∧ s'.now = s.now ∧ s'.sent = s.sent ++ r.sends := by
  have hreq : s.request env tid (reply stage)
      = some ((r.map (Worker.invoke inv slot)).map Pc.worker) := by
    unfold State.request Pc.request
    rw [hpc]
    simp only [Worker.request, hlive, hr]
    rfl
  refine ⟨s.perform env tid ((r.map (Worker.invoke inv slot)).map
    Pc.worker), ?_, ?_, ?_, ?_, ?_⟩
  · show finishInvoke env tid reply (n + 1) s = _
    rw [finishInvoke, hpc]
    simp only [hlive, apply, hreq, Option.map_some]
    rfl
  · rw [perform_pc, Request.landing_map, Request.landing_map]
  · rw [(perform_leaves _).1, Request.leaves_map, Request.leaves_map]
  · exact (perform_leaves _).2
  · rw [perform_sends, Request.sends_map, Request.sends_map]

/-- A call that is over has ended. -/
theorem finishInvoke_over (n : Nat)
    (hpc : (s.tasks tid).pc = .worker (.invoke inv slot stage))
    (hover : stage.isOver = true) :
    finishInvoke env tid reply (n + 1) s = some s := by
  rw [finishInvoke, hpc]
  simp only [hover, if_true]

end Step

-- ============================================================ transactions

section Transactions

variable (cfg : Settings) (now : Time) {db : Db} {rid sid : Uuid}
  {run : Run} {session : Session}

/-- The job of a stored session. -/
theorem sessionJobState_of_get (h : db.sessions.get sid = some session) :
    sessionJobState db sid = jobState db session.jobId := by
  unfold sessionJobState
  rw [h]
  rfl

/-- A run without a job to complete is left alone. -/
theorem finalizeJob_other (hrun : db.runs.get rid = some run)
    (hk : run.kind ≠ .pipeline) :
    Tx.commit cfg now db (.finalizeJob sid rid) = .ok db := by
  refine bind_ok.mpr ⟨run, scalarOne_ok.mpr hrun, ?_⟩
  rw [if_pos hk]
  rfl

/-- A processing job is completed. -/
theorem finalizeJob_processing (hrun : db.runs.get rid = some run)
    (hk : run.kind = .pipeline)
    (hjob : sessionJobState db sid = some .processing) :
    ∃ jobs, Tx.commit cfg now db (.finalizeJob sid rid)
      = .ok { db with jobs := jobs } := by
  obtain ⟨session, hsession, hstate⟩ := Option.bind_eq_some_iff.mp hjob
  obtain ⟨row, hrow, hprocessing⟩ := Option.map_eq_some_iff.mp hstate
  have hallowed : (JobState.processing, JobState.completed)
      ∈ allowedTransitions := by decide
  obtain ⟨jobs, hjobs⟩ := (transition_succeeds hrow hallowed now
    JobExtra.none).mpr hprocessing
  refine ⟨jobs, bind_ok.mpr ⟨run, scalarOne_ok.mpr hrun, ?_⟩⟩
  rw [if_neg (not_not.mpr hk)]
  refine bind_ok.mpr ⟨session, scalarOne_ok.mpr hsession, ?_⟩
  exact bind_ok.mpr ⟨jobs, guarded_ok.mpr hjobs, rfl⟩

/-- Any other state of the job raises. -/
theorem finalizeJob_raises (hrun : db.runs.get rid = some run)
    (hk : run.kind = .pipeline)
    (hjob : sessionJobState db sid ≠ some .processing) :
    ∃ e, Tx.commit cfg now db (.finalizeJob sid rid) = .error e := by
  cases hc : Tx.commit cfg now db (.finalizeJob sid rid) with
  | error e => exact ⟨e, rfl⟩
  | ok db' =>
      obtain ⟨run', hrun', ⟨hk', -⟩ | ⟨-, session, jobs, hs, hjobs, -⟩⟩ :=
        finalizeJobIfPrimary_ok hc
      · obtain rfl : run = run' := Option.some.inj (hrun.symm.trans hrun')
        exact absurd hk hk'
      · obtain ⟨-, row, hrow, hstate, -⟩ := transition_ok hjobs
        refine absurd ?_ hjob
        rw [sessionJobState_of_get hs]
        unfold jobState
        rw [hrow, ← hstate]
        rfl

/-- The failure path leaves the runs alone. -/
theorem failJob_commits (hrun : db.runs.get rid = some run)
    (exc : String) :
    ∃ db', Tx.commit cfg now db (.failJob rid exc) = .ok db'
      ∧ db'.runs = db.runs := by
  by_cases hk : run.kind = .pipeline
  · refine ⟨_, bind_ok.mpr ⟨run, scalarOne_ok.mpr hrun,
      if_neg (not_not.mpr hk)⟩, rfl⟩
  · refine ⟨_, bind_ok.mpr ⟨run, scalarOne_ok.mpr hrun, if_pos hk⟩, rfl⟩

/-- A session keeps its job. -/
theorem sessionJobState_kept {db' : Db} (hjobs : db'.jobs = db.jobs)
    (hs : SessionsEvolve db.sessions db'.sessions)
    (hsession : db.sessions.get sid = some session) :
    sessionJobState db' sid = sessionJobState db sid := by
  obtain ⟨session', hsession', hkept⟩ := hs.persists hsession
  rw [sessionJobState_of_get hsession, sessionJobState_of_get hsession',
    hkept.jobId]
  unfold jobState
  rw [hjobs]

end Transactions

-- ============================================================ the last steps

section Tail

variable {env : Env} {tid : Nat} {s : State} {inv : Invocation}
  {slot : Option Uuid} {f : CleanFinish} {run : Run} {n : Nat}

/-- A call that takes one step records what the rest of it records. -/
theorem Records.step {stage : Stage} {r : Request Stage} {ok : Bool}
    {status : RunStatus}
    (hpc : (s.tasks tid).pc = .worker (.invoke inv slot stage))
    (hlive : stage.isOver = false)
    (hr : stage.request env.cfg s.db inv (f.reply stage) = some r)
    (hrest : ∀ s', (s'.tasks tid).pc = .worker (.invoke inv slot
        (r.landing (Tx.commit env.cfg s.now s.db))) →
      s'.db = r.leaves (Tx.commit env.cfg s.now s.db) s.db →
      s'.now = s.now → Records env tid inv slot f n s' ok status) :
    Records env tid inv slot f (n + 1) s ok status := by
  obtain ⟨s', hfinish, hpc', hdb', hnow', -⟩ :=
    finishInvoke_step n hpc hlive hr
  obtain ⟨s'', hend, hpc'', hstatus⟩ := hrest s' hpc' hdb' hnow'
  exact ⟨s'', hfinish.trans hend, hpc'', hstatus⟩

/-- A call that has returned records what is stored. -/
theorem Records.over {ok : Bool} {status : RunStatus}
    (hpc : (s.tasks tid).pc = .worker (.invoke inv slot (.returned ok)))
    (hstatus : runStatus s.db inv.runId = some status) :
    Records env tid inv slot f (n + 1) s ok status :=
  ⟨s, finishInvoke_over n hpc rfl, hpc, hstatus⟩

/-- The handler of the `try` block: the run is marked `failed`. -/
theorem records_of_failRun {e : String}
    (hpc : (s.tasks tid).pc = .worker (.invoke inv slot (.failRun e)))
    (hrun : s.db.runs.get inv.runId = some run) :
    Records env tid inv slot f (n + 3) s false .failed := by
  obtain ⟨db₁, hc₁, hrun₁, -, -⟩ :=
    markRunStatus_commits env.cfg s.now hrun .failed
  refine Records.step hpc rfl rfl fun s₁ hpc₁ hdb₁ _ => ?_
  simp only [Request.landing, Request.leaves, hc₁] at hpc₁ hdb₁
  subst hdb₁
  obtain ⟨db₂, hc₂, hruns⟩ := failJob_commits env.cfg s₁.now hrun₁ e
  refine Records.step hpc₁ rfl rfl fun s₂ hpc₂ hdb₂ _ => ?_
  simp only [Request.landing, Request.leaves, hc₂] at hpc₂ hdb₂
  refine Records.over hpc₂ ?_
  unfold runStatus
  rw [hdb₂, hruns, hrun₁]
  rfl

/-- The publish, once the job is settled: only a pipeline run has a
graph to index. -/
theorem records_of_enqueueIndex
    (hpc : (s.tasks tid).pc = .worker (.invoke inv slot .enqueueIndex))
    (hrun : s.db.runs.get inv.runId = some run)
    (hcompleted : run.status = .completed) :
    ((run.kind = .pipeline → env.cfg.kgEnabled = true →
        f.publishError = none) →
      Records env tid inv slot f (n + 4) s true .completed)
    ∧ ((run.kind = .pipeline ∧ env.cfg.kgEnabled = true
        ∧ f.publishError ≠ none) →
      Records env tid inv slot f (n + 4) s false .failed) := by
  have hstatus : ∀ {db : Db}, db = s.db →
      runStatus db inv.runId = some .completed := by
    rintro db rfl
    unfold runStatus
    rw [hrun, ← hcompleted]
    rfl
  have henqueues : enqueuesIndex env.cfg s.db inv.runId
      = (env.cfg.kgEnabled && decide (run.kind = .pipeline)) := by
    unfold enqueuesIndex
    rw [hrun]
  constructor
  · intro hok
    by_cases hpub : enqueuesIndex env.cfg s.db inv.runId = true
    · have hboth := hpub
      rw [henqueues, Bool.and_eq_true, decide_eq_true_iff] at hboth
      have hnone := hok hboth.2 hboth.1
      refine Records.step (r := .send (.graphIndexRun inv.runId)
        (.returned true)) hpc rfl ?_ fun s' hpc' hdb' _ =>
          Records.over hpc' (hstatus hdb')
      simp [Stage.request, CleanFinish.reply, hpub, hnone]
    · refine Records.step (r := .goto (.returned true)) hpc rfl ?_
        fun s' hpc' hdb' _ => Records.over hpc' (hstatus hdb')
      simp [Stage.request, hpub]
  · rintro ⟨hk, hkg, hraised⟩
    obtain ⟨e, he⟩ := Option.ne_none_iff_exists'.mp hraised
    refine Records.step (r := .goto (.failRun e)) hpc rfl ?_
      fun s' hpc' hdb' _ => ?_
    · simp [Stage.request, CleanFinish.reply, henqueues, hk, hkg, he]
    · have hrun' : s'.db.runs.get inv.runId = some run := by
        rw [hdb']
        exact hrun
      exact records_of_failRun hpc' hrun'

/-- The finalization and what follows it. -/
theorem records_of_finalize
    (hpc : (s.tasks tid).pc = .worker (.invoke inv slot .finalize))
    (hrun : s.db.runs.get inv.runId = some run)
    (hcompleted : run.status = .completed) :
    (FinishAccepted env s.db inv f →
      Records env tid inv slot f (n + 5) s true .completed)
    ∧ (¬ FinishAccepted env s.db inv f →
      Records env tid inv slot f (n + 5) s false .failed) := by
  have haccepted : FinishAccepted env s.db inv f ↔
      (run.kind = .pipeline →
        sessionJobState s.db inv.sessionId = some .processing
          ∧ (env.cfg.kgEnabled = true → f.publishError = none)) := by
    unfold FinishAccepted
    rw [hrun, Option.map_some, Option.some.injEq]
  rw [haccepted]
  by_cases hk : run.kind = .pipeline
  · by_cases hjob : sessionJobState s.db inv.sessionId = some .processing
    · -- the job is completed: the publish decides
      obtain ⟨jobs, hc⟩ :=
        finalizeJob_processing env.cfg s.now hrun hk hjob
      have hnext : ∀ {ok status}, (∀ s' : State,
          (s'.tasks tid).pc = .worker (.invoke inv slot .enqueueIndex) →
          s'.db.runs.get inv.runId = some run →
          Records env tid inv slot f (n + 4) s' ok status) →
          Records env tid inv slot f (n + 5) s ok status := by
        intro ok status hrest
        refine Records.step hpc rfl rfl fun s' hpc' hdb' _ => ?_
        simp only [Request.landing, Request.leaves, hc] at hpc' hdb'
        exact hrest s' hpc' (by rw [hdb']; exact hrun)
      constructor
      · intro hok
        refine hnext fun s' hpc' hrun' => ?_
        exact (records_of_enqueueIndex hpc' hrun' hcompleted).1
          fun _ => (hok hk).2
      · intro hno
        have hraised : env.cfg.kgEnabled = true ∧ f.publishError ≠ none :=
          Classical.not_imp.mp fun hok => hno fun _ => ⟨hjob, hok⟩
        refine hnext fun s' hpc' hrun' => ?_
        exact (records_of_enqueueIndex hpc' hrun' hcompleted).2
          ⟨hk, hraised⟩
    · -- the transition raises into the handler of the `try` block
      refine ⟨fun hok => absurd (hok hk).1 hjob, fun _ => ?_⟩
      obtain ⟨e, hc⟩ := finalizeJob_raises env.cfg s.now hrun hk hjob
      refine Records.step hpc rfl rfl fun s' hpc' hdb' _ => ?_
      simp only [Request.landing, Request.leaves, hc] at hpc' hdb'
      exact records_of_failRun hpc' (by rw [hdb']; exact hrun)
  · -- no job to complete and no graph to index
    refine ⟨fun _ => ?_, fun hno => absurd (fun h => absurd h hk) hno⟩
    have hc : Tx.commit env.cfg s.now s.db
        (.finalizeJob inv.sessionId inv.runId) = .ok s.db :=
      finalizeJob_other env.cfg s.now hrun hk
    refine Records.step hpc rfl rfl fun s' hpc' hdb' _ => ?_
    simp only [Request.landing, Request.leaves, hc] at hpc' hdb'
    exact (records_of_enqueueIndex hpc' (by rw [hdb']; exact hrun)
      hcompleted).1 fun h => absurd h hk

/-- The call from the return of the graph to its finalization: the run
is marked `completed`, its kind and the job are as they were. -/
theorem records_to_finalize {ok : Bool} {status : RunStatus} {db₁ : Db}
    (hpc : (s.tasks tid).pc = .worker (.invoke inv slot .running))
    (hrun : s.db.runs.get inv.runId = some run)
    (hproj : Tx.commit env.cfg s.now s.db (.writeProjection inv.sessionId
      inv.runId f.output f.ids) = .ok db₁)
    (hrest : ∀ s' run',
      (s'.tasks tid).pc = .worker (.invoke inv slot .finalize) →
      s'.db.runs.get inv.runId = some run' → run'.status = .completed →
      run'.kind = run.kind → s'.db.jobs = s.db.jobs →
      SessionsEvolve s.db.sessions s'.db.sessions →
      Records env tid inv slot f n s' ok status) :
    Records env tid inv slot f (n + 4) s ok status := by
  obtain ⟨messages, sessions, rfl, hs⟩ := writeSessionProjection_ok hproj
  refine Records.step (r := .goto (.project f.output)) hpc rfl rfl
    fun s₁ hpc₁ hdb₁ hnow₁ => ?_
  have he₁ : s₁.db = s.db := hdb₁
  rw [← he₁, ← hnow₁] at hproj
  refine Records.step hpc₁ rfl rfl fun s₂ hpc₂ hdb₂ _ => ?_
  simp only [Request.landing, Request.leaves, hproj] at hpc₂ hdb₂
  refine Records.step (r := .goto .completeRun) hpc₂ rfl ?_
    fun s₃ hpc₃ hdb₃ _ => ?_
  · -- a checkpoint that cannot be read counts as one without interrupts
    cases hu : f.unreadable with
    | none => simp [Stage.request, CleanFinish.reply, hu]
    | some e => simp [Stage.request, CleanFinish.reply, hu]
  have hrun₃ : s₃.db.runs.get inv.runId = some run := by
    rw [show s₃.db = s₂.db from hdb₃, hdb₂]
    show s₁.db.runs.get inv.runId = some run
    rw [he₁]
    exact hrun
  obtain ⟨db₄, hc₄, hrun₄, hjobs₄, hs₄⟩ :=
    markRunStatus_commits env.cfg s₃.now hrun₃ .completed
  refine Records.step hpc₃ rfl rfl fun s₄ hpc₄ hdb₄ _ => ?_
  simp only [Request.landing, Request.leaves, hc₄] at hpc₄ hdb₄
  subst hdb₄
  refine hrest s₄ _ hpc₄ hrun₄ rfl rfl ?_ ?_
  · rw [hjobs₄, show s₃.db = s₂.db from hdb₃, hdb₂]
    show s₁.db.jobs = s.db.jobs
    rw [he₁]
  · rw [show s₃.db = s₂.db from hdb₃, hdb₂] at hs₄
    exact hs.evolves.trans hs₄

/-- The kind of the run and the job are what the condition reads. -/
theorem finishAccepted_kept {s' : State} {run' : Run} {session : Session}
    (hrun : s.db.runs.get inv.runId = some run)
    (hsession : s.db.sessions.get inv.sessionId = some session)
    (hrun' : s'.db.runs.get inv.runId = some run')
    (hkind : run'.kind = run.kind) (hjobs : s'.db.jobs = s.db.jobs)
    (hs : SessionsEvolve s.db.sessions s'.db.sessions) :
    FinishAccepted env s'.db inv f ↔ FinishAccepted env s.db inv f := by
  unfold FinishAccepted
  rw [hrun, hrun', sessionJobState_kept hjobs hs hsession]
  simp only [Option.map_some, hkind]

/-- What a call that finished cleanly records. -/
theorem records_of_running {session : Session} {db₁ : Db}
    (hpc : (s.tasks tid).pc = .worker (.invoke inv slot .running))
    (hrun : s.db.runs.get inv.runId = some run)
    (hsession : s.db.sessions.get inv.sessionId = some session)
    (hproj : Tx.commit env.cfg s.now s.db (.writeProjection inv.sessionId
      inv.runId f.output f.ids) = .ok db₁) :
    (FinishAccepted env s.db inv f →
      Records env tid inv slot f finishFuel s true .completed)
    ∧ (¬ FinishAccepted env s.db inv f →
      Records env tid inv slot f finishFuel s false .failed) := by
  constructor
  · intro hok
    refine records_to_finalize hpc hrun hproj
      fun s' run' hpc' hrun' hcompleted hkind hjobs hs => ?_
    exact (records_of_finalize hpc' hrun' hcompleted).1
      ((finishAccepted_kept hrun hsession hrun' hkind hjobs hs).mpr hok)
  · intro hno
    refine records_to_finalize hpc hrun hproj
      fun s' run' hpc' hrun' hcompleted hkind hjobs hs => ?_
    exact (records_of_finalize hpc' hrun' hcompleted).2 fun hok =>
      hno ((finishAccepted_kept hrun hsession hrun' hkind hjobs hs).mp hok)

/-- A call ends in one way. -/
theorem Records.unique {fuel : Nat} {ok ok' : Bool}
    {status status' : RunStatus}
    (h : Records env tid inv slot f fuel s ok status)
    (h' : Records env tid inv slot f fuel s ok' status') :
    ok = ok' ∧ status = status' := by
  obtain ⟨s₁, hend, hpc, hstatus⟩ := h
  obtain ⟨s₂, hend', hpc', hstatus'⟩ := h'
  obtain rfl : s₁ = s₂ := Option.some.inj (hend.symm.trans hend')
  rw [hpc] at hpc'
  rw [hstatus] at hstatus'
  exact ⟨by simpa using hpc', by simpa using hstatus'⟩

end Tail

-- ================================================================= the result

/-- Worker 1 calls the graph of its first run. -/
def firstCall : List Action :=
  firstStart ++ [.advance 1 .ok, .advance 1 .ok, .advance 1 .ok]

/-- Actor 2 replays the completed run 11 on a new session, and worker 3
calls the graph of the replay's run 51. -/
def replayCall : List Action :=
  firstStart ++ cleanFinish ++
  [.start 2 (.replay 10 11 "extract" ""), .advance 2 (.checkpoint "c"),
    .advance 2 (.fresh [50, 51] "b"), .advance 2 .ok,
    .deliver 3 2, .advance 3 .ok, .advance 3 .ok, .advance 3 .ok,
    .advance 3 .ok]

/-- A graph call without output. -/
def quietFinish : CleanFinish := ⟨⟨[], none⟩, [], none, none⟩

end LegalBot
