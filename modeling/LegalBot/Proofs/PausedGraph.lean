/-
What `_invoke_graph` records when its graph has paused at an interrupt.

# The two reads

After `graph.ainvoke` the checkpoint is read twice: whether it holds an
interrupt, and, if so, which one. `PausedFinish` is what the environment
answers on the way: the interrupts are there, each read may raise.

# The result

`_graph_has_pending_interrupts` catches whatever its read raises and
answers `False`, so the call goes on as if the graph had finished: the
run is completed, its job too. Only a pipeline run whose job has left
`processing` is saved by the transition that raises. A second read that
raises is logged and nothing reports it. So the pause is recorded as one
exactly when the projection raises before any read, when both reads
succeed, or when the first one fails and the completion does not go
through (`PauseRecorded`).

# The proof

`Quiet` is what every step of the call keeps but the completion of the
job; `QuietEnd` is where a path of the call ends under it, one lemma a
stage from the end backwards.
-/
import LegalBot.Proofs.GraphOutcome

namespace LegalBot

open Relational (HasKey Table)

-- ================================================================ the call

/-- What the environment answers after a graph call that paused: the
output, what the projection raised or the uuid4 values drawn for it, the
interrupts on the checkpoint, what each read of it raised, the id drawn
for the interrupt row, what the publish raised. -/
structure PausedFinish where
  output : GraphOutput
  ids : List Uuid
  projectionError : Option String
  pending : List Json
  paused : pending ≠ []
  undecided : Option String
  unreadable : Option String
  interruptId : Uuid
  publishError : Option String

/-- What a read of the checkpoint answers. -/
def checkpointRead (raised : Option String) (values : List Json) : Reply :=
  match raised with
  | none => .interrupts values
  | some e => .raised e

/-- Its answers, stage by stage. -/
def PausedFinish.reply (p : PausedFinish) : Stage → Reply
  | .running => .output p.output
  | .project _ =>
      match p.projectionError with
      | none => .fresh p.ids ""
      | some e => .raised e
  | .inspect => checkpointRead p.undecided p.pending
  | .readInterrupts => checkpointRead p.unreadable p.pending
  | .openInterrupt _ _ _ => .fresh [p.interruptId] ""
  | .enqueueIndex =>
      match p.publishError with
      | none => .ok
      | some e => .raised e
  | _ => .ok

-- ============================================================== statements

/-- `s'` has not finished what `s` had not: the run is not completed, no
job has been completed, and the run is not sent to be indexed. -/
structure NotFinished (inv : Invocation) (s s' : State) : Prop where
  run : runStatus s'.db inv.runId ≠ some .completed
  jobs : ∀ j, jobState s'.db j = some .completed →
    jobState s.db j = some .completed
  index : ∃ sent, s'.sent = s.sent ++ sent
    ∧ Message.graphIndexRun inv.runId ∉ sent

/-- A read of the checkpoint fails. -/
def PausedFinish.unread (p : PausedFinish) : Prop :=
  p.undecided ≠ none ∨ p.unreadable ≠ none

/-- The call ends without having finished anything, and reports a failure
if it could not read the checkpoint. -/
def PauseKept (env : Env) (tid : Nat) (inv : Invocation)
    (slot : Option Uuid) (p : PausedFinish) (s : State) : Prop :=
  ∃ s' ok, finishInvoke env tid p.reply finishFuel s = some s'
    ∧ (s'.tasks tid).pc = .worker (.invoke inv slot (.returned ok))
    ∧ NotFinished inv s s'
    ∧ (p.unread → ok = false
      ∧ runStatus s'.db inv.runId = some .failed)

/-- The projection raises: its message write, or its commit. -/
def ProjectionRaises (env : Env) (s : State) (inv : Invocation)
    (p : PausedFinish) : Prop :=
  p.projectionError ≠ none ∨ ∃ e, Tx.commit env.cfg s.now s.db
    (.writeProjection inv.sessionId inv.runId p.output p.ids) = .error e

/-- The pause is recorded: no read is made, both are made, or the
completion that follows a failed first read does not go through. -/
def PauseRecorded (env : Env) (s : State) (inv : Invocation)
    (p : PausedFinish) : Prop :=
  ProjectionRaises env s inv p
    ∨ (p.undecided = none ∧ p.unreadable = none)
    ∨ (p.undecided ≠ none
      ∧ (s.db.runs.get inv.runId).map (·.kind) = some .pipeline
      ∧ sessionJobState s.db inv.sessionId ≠ some .processing)

-- ============================================================== quiet steps

/-- The transaction that completes a job. -/
def Tx.completes : Tx → Bool
  | .finalizeJob .. => true
  | _ => false

/-- A request that neither completes a job nor sends anything. -/
def Request.quiet {P : Type} : Request P → Bool
  | .goto _ => true
  | .commit tx _ _ => !tx.completes
  | _ => false

/-- What the call keeps until it completes a job: the kind of its run,
the sessions, the jobs that were not completed, and the broker. -/
structure Quiet (inv : Invocation) (kind : RunKind) (s₀ s : State) :
    Prop where
  run : (s.db.runs.get inv.runId).map (·.kind) = some kind
  sessions : SessionsEvolve s₀.db.sessions s.db.sessions
  jobs : ∀ j, jobState s.db j = some .completed →
    jobState s₀.db j = some .completed
  sent : s.sent = s₀.sent

section QuietSteps

variable {env : Env} {inv : Invocation} {kind : RunKind} {s₀ s s' : State}

/-- Only one transaction logs a completion. -/
theorem completes_of_logged {tx : Tx} {now : Time} {db : Db}
    {j run : Uuid} {sk : SessionKind}
    (h : Event.finished j run sk .completed ∈ tx.events now db) :
    tx.completes = true := by
  cases tx with
  | finalizeJob sid rid => rfl
  | expireStalled =>
      obtain ⟨_, -, he⟩ := List.mem_map.mp h
      cases he
  | _ =>
      unfold Tx.events at h
      grind

/-- Any other transaction completes no job. -/
theorem commit_jobs_kept {tx : Tx} {now : Time} {db db' : Db}
    (hc : tx.commit env.cfg now db = .ok db')
    (hquiet : tx.completes = false) {j : Uuid}
    (h : jobState db' j = some .completed) :
    jobState db j = some .completed := by
  obtain ⟨row', hrow', hstate'⟩ := Option.map_eq_some_iff.mp h
  unfold jobState
  rcases (commit_spec hc).jobs.origin hrow' with ⟨row, hrow, hmove⟩
    | ⟨-, hready⟩
  · rw [hrow, Option.map_some]
    rcases hmove.state with hsame | ⟨-, -, hlogged⟩
    · rw [← hsame, hstate']
    · obtain ⟨run, sk, hlogged⟩ := hlogged hstate'
      rw [completes_of_logged hlogged] at hquiet
      cases hquiet
  · rw [hstate'] at hready
    cases hready

/-- A quiet request keeps what is quiet. -/
theorem Quiet.step {P : Type} {r : Request P} (h : Quiet inv kind s₀ s)
    (hr : r.quiet = true)
    (hdb : s'.db = r.leaves (Tx.commit env.cfg s.now s.db) s.db)
    (hsent : s'.sent = s.sent ++ r.sends) : Quiet inv kind s₀ s' := by
  cases r with
  | goto next =>
      have hdb' : s'.db = s.db := hdb
      have hsent' : s'.sent = s.sent := hsent.trans (List.append_nil _)
      exact ⟨by rw [hdb']; exact h.run, by rw [hdb']; exact h.sessions,
        fun j hj => h.jobs j (by rw [← hdb']; exact hj),
        hsent'.trans h.sent⟩
  | commit tx ok raised =>
      have hsent' : s'.sent = s.sent := hsent.trans (List.append_nil _)
      simp only [Request.leaves] at hdb
      cases hc : tx.commit env.cfg s.now s.db with
      | error e =>
          simp only [hc] at hdb
          exact ⟨by rw [hdb]; exact h.run, by rw [hdb]; exact h.sessions,
            fun j hj => h.jobs j (by rw [← hdb]; exact hj),
            hsent'.trans h.sent⟩
      | ok db' =>
          simp only [hc] at hdb
          have hspec := commit_spec hc
          have hquiet : tx.completes = false := by
            simpa [Request.quiet] using hr
          refine ⟨?_, ?_, fun j hj => ?_, hsent'.trans h.sent⟩
          · obtain ⟨run, hrun, hkind⟩ := Option.map_eq_some_iff.mp h.run
            obtain ⟨run', hrun', hmove⟩ := hspec.runs.persists hrun
            rw [hdb, hrun', Option.map_some, hmove.kind, hkind]
          · rw [hdb]
            exact h.sessions.trans hspec.sessions
          · rw [hdb] at hj
            exact h.jobs j (commit_jobs_kept hc hquiet hj)
  | send m next => cases hr
  | note e next => cases hr
  | acquire j next => cases hr
  | release j next => cases hr

/-- The run of a quiet call is there. -/
theorem Quiet.stored (h : Quiet inv kind s₀ s) :
    ∃ run, s.db.runs.get inv.runId = some run ∧ run.kind = kind :=
  Option.map_eq_some_iff.mp h.run

end QuietSteps

-- =================================================================== paths

/-- The call ends in a state that meets `Q`. -/
def CallEnds (env : Env) (tid : Nat) (p : PausedFinish) (n : Nat)
    (s : State) (Q : State → Prop) : Prop :=
  ∃ s', finishInvoke env tid p.reply n s = some s' ∧ Q s'

/-- The call ends in this way, and nothing was finished on it. -/
def QuietEnd (env : Env) (tid : Nat) (inv : Invocation)
    (slot : Option Uuid) (p : PausedFinish) (kind : RunKind) (s₀ : State)
    (n : Nat) (s : State) (ok : Bool) (status : RunStatus) : Prop :=
  CallEnds env tid p n s fun s' =>
    (s'.tasks tid).pc = .worker (.invoke inv slot (.returned ok))
      ∧ runStatus s'.db inv.runId = some status ∧ Quiet inv kind s₀ s'

section Paths

variable {env : Env} {tid : Nat} {inv : Invocation} {slot : Option Uuid}
  {p : PausedFinish} {kind : RunKind} {s₀ s : State} {n : Nat}
  {ok : Bool} {status : RunStatus} {Q : State → Prop}

/-- One request, and the rest of the path. -/
theorem CallEnds.move {stage : Stage} {r : Request Stage}
    (hpc : (s.tasks tid).pc = .worker (.invoke inv slot stage))
    (hlive : stage.isOver = false)
    (hr : stage.request env.cfg s.db inv (p.reply stage) = some r)
    (hrest : ∀ s', (s'.tasks tid).pc = .worker (.invoke inv slot
        (r.landing (Tx.commit env.cfg s.now s.db))) →
      s'.db = r.leaves (Tx.commit env.cfg s.now s.db) s.db →
      s'.now = s.now → s'.sent = s.sent ++ r.sends →
      CallEnds env tid p n s' Q) :
    CallEnds env tid p (n + 1) s Q := by
  obtain ⟨s', hfinish, hpc', hdb', hnow', hsent'⟩ :=
    finishInvoke_step n hpc hlive hr
  obtain ⟨s'', hend, hQ⟩ := hrest s' hpc' hdb' hnow' hsent'
  exact ⟨s'', hfinish.trans hend, hQ⟩

/-- A call that has returned ends where it is. -/
theorem CallEnds.over
    (hpc : (s.tasks tid).pc = .worker (.invoke inv slot (.returned ok)))
    (hQ : Q s) : CallEnds env tid p (n + 1) s Q :=
  ⟨s, finishInvoke_over n hpc rfl, hQ⟩

/-- A quiet request, and the rest of the path. -/
theorem CallEnds.step {stage : Stage} {r : Request Stage}
    (hpc : (s.tasks tid).pc = .worker (.invoke inv slot stage))
    (hlive : stage.isOver = false)
    (hr : stage.request env.cfg s.db inv (p.reply stage) = some r)
    (hquiet : r.quiet = true) (hq : Quiet inv kind s₀ s)
    (hrest : ∀ s', (s'.tasks tid).pc = .worker (.invoke inv slot
        (r.landing (Tx.commit env.cfg s.now s.db))) →
      s'.db = r.leaves (Tx.commit env.cfg s.now s.db) s.db →
      s'.now = s.now → Quiet inv kind s₀ s' →
      CallEnds env tid p n s' Q) :
    CallEnds env tid p (n + 1) s Q :=
  CallEnds.move hpc hlive hr fun s' hpc' hdb' hnow' hsent' =>
    hrest s' hpc' hdb' hnow' (hq.step hquiet hdb' hsent')

/-- A call that has returned. -/
theorem QuietEnd.over
    (hpc : (s.tasks tid).pc = .worker (.invoke inv slot (.returned ok)))
    (hstatus : runStatus s.db inv.runId = some status)
    (hq : Quiet inv kind s₀ s) :
    QuietEnd env tid inv slot p kind s₀ (n + 1) s ok status :=
  CallEnds.over hpc ⟨hpc, hstatus, hq⟩

/-- The handler of the `try` block. -/
theorem quietEnd_failRun {e : String}
    (hpc : (s.tasks tid).pc = .worker (.invoke inv slot (.failRun e)))
    (hq : Quiet inv kind s₀ s) :
    QuietEnd env tid inv slot p kind s₀ (n + 3) s false .failed := by
  obtain ⟨run, hrun, -⟩ := hq.stored
  obtain ⟨db₁, hc₁, hrun₁, -, -⟩ :=
    markRunStatus_commits env.cfg s.now hrun .failed
  refine CallEnds.step hpc rfl rfl rfl hq fun s₁ hpc₁ hdb₁ _ hq₁ => ?_
  simp only [Request.landing, Request.leaves, hc₁] at hpc₁ hdb₁
  subst hdb₁
  obtain ⟨db₂, hc₂, hruns⟩ := failJob_commits env.cfg s₁.now hrun₁ e
  refine CallEnds.step hpc₁ rfl rfl rfl hq₁ fun s₂ hpc₂ hdb₂ _ hq₂ => ?_
  simp only [Request.landing, Request.leaves, hc₂] at hpc₂ hdb₂
  refine QuietEnd.over hpc₂ ?_ hq₂
  unfold runStatus
  rw [hdb₂, hruns, hrun₁]
  rfl

/-- The job waits: no run is touched. -/
theorem pauseJob_commits (cfg : Settings) (now : Time) {db : Db}
    {rid sid : Uuid} {run : Run} {session : Session}
    (hrun : db.runs.get rid = some run)
    (hsession : db.sessions.get sid = some session) :
    ∃ db', Tx.commit cfg now db (.pauseJob sid rid) = .ok db'
      ∧ db'.runs = db.runs := by
  by_cases hk : run.kind = .pipeline
  · have hc : Tx.commit cfg now db (.pauseJob sid rid)
        = .ok { db with jobs := skipInvalid db.jobs (transition db.jobs now
          session.jobId .processing .awaitingHuman JobExtra.none) } := by
      refine bind_ok.mpr ⟨run, scalarOne_ok.mpr hrun, ?_⟩
      rw [if_neg (not_not.mpr hk)]
      exact bind_ok.mpr ⟨session, scalarOne_ok.mpr hsession, rfl⟩
    exact ⟨_, hc, rfl⟩
  · exact ⟨_, bind_ok.mpr ⟨run, scalarOne_ok.mpr hrun, if_pos hk⟩, rfl⟩

/-- The last step of a pause. -/
theorem quietEnd_pauseJob {session : Session}
    (hsession : s₀.db.sessions.get inv.sessionId = some session)
    (hpc : (s.tasks tid).pc = .worker (.invoke inv slot .pauseJob))
    (hq : Quiet inv kind s₀ s)
    (hwaits : runStatus s.db inv.runId = some .awaitingHuman) :
    QuietEnd env tid inv slot p kind s₀ (n + 2) s true .awaitingHuman := by
  obtain ⟨run, hrun, -⟩ := hq.stored
  obtain ⟨session', hsession', -⟩ := hq.sessions.persists hsession
  obtain ⟨db₁, hc₁, hruns⟩ :=
    pauseJob_commits env.cfg s.now hrun hsession'
  refine CallEnds.step hpc rfl rfl rfl hq fun s₁ hpc₁ hdb₁ _ hq₁ => ?_
  simp only [Request.landing, Request.leaves, hc₁] at hpc₁ hdb₁
  refine QuietEnd.over hpc₁ ?_ hq₁
  rw [← hwaits]
  unfold runStatus
  rw [hdb₁, hruns]

/-- The second read raises: nothing reports it. -/
theorem quietEnd_unreadable {session : Session}
    (hsession : s₀.db.sessions.get inv.sessionId = some session)
    (hpc : (s.tasks tid).pc = .worker (.invoke inv slot .readInterrupts))
    (hq : Quiet inv kind s₀ s)
    (hwaits : runStatus s.db inv.runId = some .awaitingHuman)
    (hraised : p.unreadable ≠ none) :
    QuietEnd env tid inv slot p kind s₀ (n + 3) s true .awaitingHuman := by
  obtain ⟨e, he⟩ := Option.ne_none_iff_exists'.mp hraised
  refine CallEnds.step (r := .goto .pauseJob) hpc rfl ?_ rfl hq
    fun s₁ hpc₁ hdb₁ _ hq₁ => quietEnd_pauseJob hsession hpc₁ hq₁ ?_
  · simp [Stage.request, PausedFinish.reply, checkpointRead, he]
  · rw [show s₁.db = s.db from hdb₁]
    exact hwaits

/-- The insert of the interrupt row touches no run. -/
theorem openInterrupt_runs {cfg : Settings} {now : Time} {db db' : Db}
    {id sid : Uuid} {rid : Option Uuid} {k : InterruptKind}
    {payload : Json} {schema : Option Json}
    (h : Tx.commit cfg now db (.openInterrupt id sid rid k payload schema)
      = .ok db') : db'.runs = db.runs := by
  obtain ⟨interrupts, -, rfl⟩ :=
    Option.map_eq_some_iff.mp (flushed_ok.mp h)
  rfl

/-- The second read returns: the call pauses or fails. -/
theorem quietEnd_readable {session : Session}
    (hsession : s₀.db.sessions.get inv.sessionId = some session)
    (hpc : (s.tasks tid).pc = .worker (.invoke inv slot .readInterrupts))
    (hq : Quiet inv kind s₀ s)
    (hwaits : runStatus s.db inv.runId = some .awaitingHuman)
    (hread : p.unreadable = none) :
    ∃ ok status, status ≠ .completed
      ∧ QuietEnd env tid inv slot p kind s₀ (n + 5) s ok status := by
  have hr : Stage.request env.cfg s.db inv (p.reply .readInterrupts)
      .readInterrupts
      = some (.goto (persistInterrupt s.db inv.sessionId p.pending)) := by
    simp [Stage.request, PausedFinish.reply, checkpointRead, hread]
  have hkept : ∀ {s' : State}, s'.db = s.db →
      runStatus s'.db inv.runId = some .awaitingHuman := by
    intro s' hdb
    rw [hdb]
    exact hwaits
  -- where the values lead
  cases hstage : persistInterrupt s.db inv.sessionId p.pending with
  | pauseJob =>
      refine ⟨true, .awaitingHuman, by decide,
        CallEnds.step hpc rfl hr rfl hq fun s₁ hpc₁ hdb₁ _ hq₁ => ?_⟩
      rw [Request.landing, hstage] at hpc₁
      exact quietEnd_pauseJob hsession hpc₁ hq₁ (hkept hdb₁)
  | failRun e =>
      refine ⟨false, .failed, by decide,
        CallEnds.step hpc rfl hr rfl hq fun s₁ hpc₁ hdb₁ _ hq₁ => ?_⟩
      rw [Request.landing, hstage] at hpc₁
      exact quietEnd_failRun hpc₁ hq₁
  | openInterrupt k payload schema =>
      cases hc : Tx.commit env.cfg s.now s.db (.openInterrupt p.interruptId
          inv.sessionId (some inv.runId) k payload schema) with
      | ok db₂ =>
          refine ⟨true, .awaitingHuman, by decide,
            CallEnds.step hpc rfl hr rfl hq
              fun s₁ hpc₁ hdb₁ hnow₁ hq₁ => ?_⟩
          rw [Request.landing, hstage] at hpc₁
          have he₁ : s₁.db = s.db := hdb₁
          rw [← he₁, ← hnow₁] at hc
          refine CallEnds.step hpc₁ rfl rfl rfl hq₁
            fun s₂ hpc₂ hdb₂ _ hq₂ => ?_
          simp only [Request.landing, Request.leaves, hc] at hpc₂ hdb₂
          refine quietEnd_pauseJob hsession hpc₂ hq₂ ?_
          rw [← hkept he₁]
          unfold runStatus
          rw [hdb₂, openInterrupt_runs hc]
      | error e =>
          refine ⟨false, .failed, by decide,
            CallEnds.step hpc rfl hr rfl hq
              fun s₁ hpc₁ hdb₁ hnow₁ hq₁ => ?_⟩
          rw [Request.landing, hstage] at hpc₁
          have he₁ : s₁.db = s.db := hdb₁
          rw [← he₁, ← hnow₁] at hc
          refine CallEnds.step hpc₁ rfl rfl rfl hq₁
            fun s₂ hpc₂ hdb₂ _ hq₂ => ?_
          simp only [Request.landing, hc] at hpc₂
          exact quietEnd_failRun hpc₂ hq₂
  | _ =>
      unfold persistInterrupt at hstage
      grind

/-- What the projection asks for. -/
theorem project_request (cfg : Settings) (db : Db) (output : GraphOutput) :
    Stage.request cfg db inv (p.reply (.project output)) (.project output)
      = some (match p.projectionError with
        | none => .commit (.writeProjection inv.sessionId inv.runId output
            p.ids) .inspect .failRun
        | some e => .goto (.failRun e)) := by
  cases hp : p.projectionError with
  | none => simp [Stage.request, PausedFinish.reply, hp]
  | some e => simp [Stage.request, PausedFinish.reply, hp]

/-- The call from the return of the graph to the first read. -/
theorem callEnds_to_inspect {db₁ : Db}
    (hpc : (s.tasks tid).pc = .worker (.invoke inv slot .running))
    (hq : Quiet inv kind s₀ s) (hnone : p.projectionError = none)
    (hproj : Tx.commit env.cfg s.now s.db (.writeProjection inv.sessionId
      inv.runId p.output p.ids) = .ok db₁)
    (hrest : ∀ s', (s'.tasks tid).pc
        = .worker (.invoke inv slot .inspect) →
      s'.db.jobs = s.db.jobs → Quiet inv kind s₀ s' →
      CallEnds env tid p n s' Q) :
    CallEnds env tid p (n + 2) s Q := by
  obtain ⟨messages, sessions, rfl, -⟩ := writeSessionProjection_ok hproj
  refine CallEnds.step (r := .goto (.project p.output)) hpc rfl rfl rfl hq
    fun s₁ hpc₁ hdb₁ hnow₁ hq₁ => ?_
  have he₁ : s₁.db = s.db := hdb₁
  rw [← he₁, ← hnow₁] at hproj
  have hr := @project_request inv p env.cfg s₁.db p.output
  simp only [hnone] at hr
  refine CallEnds.step hpc₁ rfl hr rfl hq₁ fun s₂ hpc₂ hdb₂ _ hq₂ => ?_
  simp only [Request.landing, Request.leaves, hproj] at hpc₂ hdb₂
  refine hrest s₂ hpc₂ ?_ hq₂
  rw [hdb₂]
  show s₁.db.jobs = s.db.jobs
  rw [he₁]

/-- A projection that raises fails the call before any read. -/
theorem quietEnd_projectionRaises
    (hpc : (s.tasks tid).pc = .worker (.invoke inv slot .running))
    (hq : Quiet inv kind s₀ s) (hraises : ProjectionRaises env s inv p) :
    QuietEnd env tid inv slot p kind s₀ (n + 5) s false .failed := by
  refine CallEnds.step (r := .goto (.project p.output)) hpc rfl rfl rfl hq
    fun s₁ hpc₁ hdb₁ hnow₁ hq₁ => ?_
  have he₁ : s₁.db = s.db := hdb₁
  have hr := @project_request inv p env.cfg s₁.db p.output
  cases hp : p.projectionError with
  | some e =>
      simp only [hp] at hr
      exact CallEnds.step hpc₁ rfl hr rfl hq₁ fun s₂ hpc₂ _ _ hq₂ =>
        quietEnd_failRun hpc₂ hq₂
  | none =>
      simp only [hp] at hr
      obtain ⟨e, hproj⟩ := hraises.resolve_left fun h => h hp
      rw [← he₁, ← hnow₁] at hproj
      refine CallEnds.step hpc₁ rfl hr rfl hq₁
        fun s₂ hpc₂ hdb₂ _ hq₂ => ?_
      simp only [Request.landing, hproj] at hpc₂
      exact quietEnd_failRun hpc₂ hq₂

/-- The first read returns: the run waits, and the second read is next. -/
theorem callEnds_to_readInterrupts
    (hpc : (s.tasks tid).pc = .worker (.invoke inv slot .inspect))
    (hq : Quiet inv kind s₀ s) (hread : p.undecided = none)
    (hrest : ∀ s', (s'.tasks tid).pc
        = .worker (.invoke inv slot .readInterrupts) →
      runStatus s'.db inv.runId = some .awaitingHuman →
      Quiet inv kind s₀ s' → CallEnds env tid p n s' Q) :
    CallEnds env tid p (n + 2) s Q := by
  refine CallEnds.step (r := .goto .pauseRun) hpc rfl ?_ rfl hq
    fun s₁ hpc₁ _ _ hq₁ => ?_
  · simp [Stage.request, PausedFinish.reply, checkpointRead, hread,
      p.paused]
  · obtain ⟨run, hrun, -⟩ := hq₁.stored
    obtain ⟨db₂, hc₂, hrun₂, -, -⟩ :=
      markRunStatus_commits env.cfg s₁.now hrun .awaitingHuman
    refine CallEnds.step hpc₁ rfl rfl rfl hq₁ fun s₂ hpc₂ hdb₂ _ hq₂ => ?_
    simp only [Request.landing, Request.leaves, hc₂] at hpc₂ hdb₂
    refine hrest s₂ hpc₂ ?_ hq₂
    unfold runStatus
    rw [hdb₂, hrun₂]
    rfl

-- ======================================================= taken as finished

/-- The first read raises: the run is completed, and the finalization is
next. -/
theorem callEnds_to_finalize
    (hpc : (s.tasks tid).pc = .worker (.invoke inv slot .inspect))
    (hq : Quiet inv kind s₀ s) (hraised : p.undecided ≠ none)
    (hrest : ∀ s', (s'.tasks tid).pc
        = .worker (.invoke inv slot .finalize) →
      runStatus s'.db inv.runId = some .completed →
      s'.db.jobs = s.db.jobs → Quiet inv kind s₀ s' →
      CallEnds env tid p n s' Q) :
    CallEnds env tid p (n + 2) s Q := by
  obtain ⟨e, he⟩ := Option.ne_none_iff_exists'.mp hraised
  refine CallEnds.step (r := .goto .completeRun) hpc rfl ?_ rfl hq
    fun s₁ hpc₁ hdb₁ _ hq₁ => ?_
  · simp [Stage.request, PausedFinish.reply, checkpointRead, he]
  · obtain ⟨run, hrun, -⟩ := hq₁.stored
    obtain ⟨db₂, hc₂, hrun₂, hjobs₂, -⟩ :=
      markRunStatus_commits env.cfg s₁.now hrun .completed
    refine CallEnds.step hpc₁ rfl rfl rfl hq₁ fun s₂ hpc₂ hdb₂ _ hq₂ => ?_
    simp only [Request.landing, Request.leaves, hc₂] at hpc₂ hdb₂
    refine hrest s₂ hpc₂ ?_ ?_ hq₂
    · unfold runStatus
      rw [hdb₂, hrun₂]
      rfl
    · rw [hdb₂, hjobs₂, show s₁.db = s.db from hdb₁]

/-- A run without a job to complete stays completed. -/
theorem callEnds_other
    (hpc : (s.tasks tid).pc = .worker (.invoke inv slot .finalize))
    (hq : Quiet inv kind s₀ s) (hk : kind ≠ .pipeline)
    (hdone : runStatus s.db inv.runId = some .completed) :
    CallEnds env tid p (n + 3) s fun s' =>
      runStatus s'.db inv.runId = some .completed := by
  obtain ⟨run, hrun, hkind⟩ := hq.stored
  have hc : Tx.commit env.cfg s.now s.db
      (.finalizeJob inv.sessionId inv.runId) = .ok s.db :=
    finalizeJob_other env.cfg s.now hrun (by rw [hkind]; exact hk)
  refine CallEnds.move hpc rfl rfl fun s₁ hpc₁ hdb₁ _ _ => ?_
  simp only [Request.landing, Request.leaves, hc] at hpc₁ hdb₁
  refine CallEnds.move (r := .goto (.returned true)) hpc₁ rfl ?_
    fun s₂ hpc₂ hdb₂ _ _ => ?_
  · have hpub : enqueuesIndex env.cfg s₁.db inv.runId = false := by
      unfold enqueuesIndex
      rw [hdb₁, hrun]
      simp [hkind, hk]
    simp [Stage.request, hpub]
  · refine CallEnds.over hpc₂ ?_
    show runStatus s₂.db inv.runId = _
    rw [show s₂.db = s.db from Eq.trans hdb₂ hdb₁]
    exact hdone

/-- A job that has left `processing` makes the finalization raise. -/
theorem quietEnd_refused
    (hpc : (s.tasks tid).pc = .worker (.invoke inv slot .finalize))
    (hq : Quiet inv kind s₀ s) (hk : kind = .pipeline)
    (hjob : sessionJobState s.db inv.sessionId ≠ some .processing) :
    QuietEnd env tid inv slot p kind s₀ (n + 4) s false .failed := by
  obtain ⟨run, hrun, hkind⟩ := hq.stored
  obtain ⟨e, hc⟩ := finalizeJob_raises env.cfg s.now hrun
    (by rw [hkind]; exact hk) hjob
  refine CallEnds.move hpc rfl rfl fun s₁ hpc₁ hdb₁ _ hsent₁ => ?_
  simp only [Request.landing, Request.leaves, hc] at hpc₁ hdb₁
  -- a transaction that raises leaves no more behind than a jump
  exact quietEnd_failRun hpc₁ (@Quiet.step env inv kind s₀ s s₁ Stage
    (.goto (.failRun e.message)) hq rfl hdb₁ hsent₁)

/-- A completed job stays completed when the call fails afterwards. -/
theorem failJob_keeps {cfg : Settings} {now : Time} {db db' : Db}
    {rid j : Uuid} {exc : String}
    (hc : Tx.commit cfg now db (.failJob rid exc) = .ok db')
    (h : jobState db j = some .completed) :
    jobState db' j = some .completed := by
  obtain ⟨run, -, ⟨-, rfl⟩ | ⟨-, rfl⟩⟩ := failPipelineJobForGraphError_ok hc
  · exact h
  · obtain ⟨row, hrow, hstate⟩ := Option.map_eq_some_iff.mp h
    obtain ⟨row', hrow', hmove⟩ :=
      (@skipInvalid_evolves now db.jobs run.jobId .processing .failed
        _).persists hrow
    unfold jobState
    rw [hrow', Option.map_some]
    rcases hmove.state with hsame | ⟨-, hfrom, -⟩
    · rw [hsame, hstate]
    · rw [hstate] at hfrom
      cases hfrom

/-- The end of a call whose job is completed. -/
theorem callEnds_completed {j : Uuid}
    (hpc : (s.tasks tid).pc = .worker (.invoke inv slot .enqueueIndex))
    (hrun : (s.db.runs.get inv.runId).isSome)
    (hjob : jobState s.db j = some .completed) :
    CallEnds env tid p (n + 4) s fun s' =>
      jobState s'.db j = some .completed := by
  have hover : ∀ {m s'}, (s'.tasks tid).pc
      = .worker (.invoke inv slot (.returned true)) → s'.db = s.db →
      CallEnds env tid p (m + 1) s' fun s' =>
        jobState s'.db j = some .completed := by
    intro m s' hpc' hdb'
    refine CallEnds.over hpc' ?_
    show jobState s'.db j = _
    rw [hdb']
    exact hjob
  by_cases hpub : enqueuesIndex env.cfg s.db inv.runId = true
  · cases hp : p.publishError with
    | none =>
        refine CallEnds.move (r := .send (.graphIndexRun inv.runId)
          (.returned true)) hpc rfl ?_ fun s₁ hpc₁ hdb₁ _ _ =>
            hover hpc₁ hdb₁
        simp [Stage.request, PausedFinish.reply, hpub, hp]
    | some e =>
        -- the run fails, but the job is completed already
        refine CallEnds.move (r := .goto (.failRun e)) hpc rfl ?_
          fun s₁ hpc₁ hdb₁ _ _ => ?_
        · simp [Stage.request, PausedFinish.reply, hpub, hp]
        · obtain ⟨run, hrun⟩ := Option.isSome_iff_exists.mp hrun
          rw [← show s₁.db = s.db from hdb₁] at hrun hjob
          obtain ⟨db₂, hc₂, hrun₂, hjobs₂, -⟩ :=
            markRunStatus_commits env.cfg s₁.now hrun .failed
          refine CallEnds.move hpc₁ rfl rfl fun s₂ hpc₂ hdb₂ _ _ => ?_
          simp only [Request.landing, Request.leaves, hc₂] at hpc₂ hdb₂
          subst hdb₂
          obtain ⟨db₃, hc₃, -⟩ := failJob_commits env.cfg s₂.now hrun₂ e
          refine CallEnds.move hpc₂ rfl rfl fun s₃ hpc₃ hdb₃ _ _ => ?_
          simp only [Request.landing, Request.leaves, hc₃] at hpc₃ hdb₃
          have hkept : jobState s₂.db j = some .completed := by
            unfold jobState
            rw [hjobs₂]
            exact hjob
          refine CallEnds.over hpc₃ ?_
          show jobState s₃.db j = _
          rw [hdb₃]
          exact failJob_keeps hc₃ hkept
  · refine CallEnds.move (r := .goto (.returned true)) hpc rfl ?_
      fun s₁ hpc₁ hdb₁ _ _ => hover hpc₁ hdb₁
    simp [Stage.request, hpub]

/-- A processing job is completed. -/
theorem callEnds_completes {session : Session}
    (hpc : (s.tasks tid).pc = .worker (.invoke inv slot .finalize))
    (hq : Quiet inv kind s₀ s) (hk : kind = .pipeline)
    (hsession : s.db.sessions.get inv.sessionId = some session)
    (hjob : jobState s.db session.jobId = some .processing) :
    CallEnds env tid p (n + 5) s fun s' =>
      jobState s'.db session.jobId = some .completed := by
  obtain ⟨run, hrun, hkind⟩ := hq.stored
  obtain ⟨jobs, hc⟩ := finalizeJob_processing env.cfg s.now hrun
    (by rw [hkind]; exact hk)
    ((sessionJobState_of_get hsession).trans hjob)
  have hdone : jobState { s.db with jobs := jobs } session.jobId
      = some .completed := by
    obtain ⟨run', hrun', ⟨hk', -⟩ | ⟨-, session', jobs', hs, hjobs, hdb⟩⟩ :=
      finalizeJobIfPrimary_ok hc
    · rw [hrun] at hrun'
      injection hrun' with hrun'
      exact absurd (hrun' ▸ hkind.trans hk) hk'
    · rw [hsession] at hs
      injection hs with hs
      obtain ⟨-, row, hrow, -, hget⟩ := transition_ok hjobs
      rw [hdb, hs]
      unfold jobState
      rw [hget, if_pos rfl]
      rfl
  refine CallEnds.move hpc rfl rfl fun s₁ hpc₁ hdb₁ _ _ => ?_
  simp only [Request.landing, Request.leaves, hc] at hpc₁ hdb₁
  refine callEnds_completed hpc₁ ?_ ?_
  · rw [hdb₁]
    exact Option.isSome_iff_exists.mpr ⟨run, hrun⟩
  · rw [hdb₁]
    exact hdone

end Paths

-- ================================================================= the result

section Result

variable {env : Env} {tid : Nat} {inv : Invocation} {slot : Option Uuid}
  {p : PausedFinish} {kind : RunKind} {s : State} {ok : Bool}
  {status : RunStatus}

/-- What a quiet end keeps. -/
theorem pauseKept_of_quietEnd
    (h : QuietEnd env tid inv slot p kind s finishFuel s ok status)
    (hstatus : status ≠ .completed)
    (hreported : p.unread → ok = false ∧ status = .failed) :
    PauseKept env tid inv slot p s := by
  obtain ⟨s', hend, hpc, hrun, hq⟩ := h
  refine ⟨s', ok, hend, hpc, ⟨?_, hq.jobs, [], ?_, List.not_mem_nil⟩,
    fun hunread => ?_⟩
  · rw [hrun]
    exact fun h => hstatus (Option.some.inj h)
  · rw [hq.sent, List.append_nil]
  · obtain ⟨hok, hfailed⟩ := hreported hunread
    exact ⟨hok, by rw [hrun, hfailed]⟩

/-- A call ends in one state. -/
theorem PauseKept.ends {Q : State → Prop}
    (h : PauseKept env tid inv slot p s)
    (hQ : CallEnds env tid p finishFuel s Q) :
    ∃ s' ok, Q s'
      ∧ (s'.tasks tid).pc = .worker (.invoke inv slot (.returned ok))
      ∧ NotFinished inv s s'
      ∧ (p.unread → ok = false
        ∧ runStatus s'.db inv.runId = some .failed) := by
  obtain ⟨s₁, ok, hend, hpc, hkept, hreported⟩ := h
  obtain ⟨s₂, hend', hQ⟩ := hQ
  obtain rfl : s₁ = s₂ := Option.some.inj (hend.symm.trans hend')
  exact ⟨s₁, ok, hQ, hpc, hkept, hreported⟩

/-- A projection that does not raise commits. -/
theorem projection_commits (h : ¬ ProjectionRaises env s inv p) :
    p.projectionError = none ∧ ∃ db₁, Tx.commit env.cfg s.now s.db
      (.writeProjection inv.sessionId inv.runId p.output p.ids)
      = .ok db₁ := by
  constructor
  · by_contra hne
    exact h (Or.inl hne)
  · cases hc : Tx.commit env.cfg s.now s.db
        (.writeProjection inv.sessionId inv.runId p.output p.ids) with
    | ok db₁ => exact ⟨db₁, rfl⟩
    | error e => exact absurd (Or.inr ⟨e, hc⟩) h

/-- A recorded pause finishes nothing. -/
theorem pauseKept_of_recorded {session : Session}
    (hpc : (s.tasks tid).pc = .worker (.invoke inv slot .running))
    (hq : Quiet inv kind s s)
    (hsession : s.db.sessions.get inv.sessionId = some session)
    (h : PauseRecorded env s inv p) : PauseKept env tid inv slot p s := by
  by_cases hraises : ProjectionRaises env s inv p
  · exact pauseKept_of_quietEnd (quietEnd_projectionRaises hpc hq hraises)
      (by decide) fun _ => ⟨rfl, rfl⟩
  obtain ⟨hnone, db₁, hproj⟩ := projection_commits hraises
  rcases h.resolve_left hraises with ⟨hread, hread'⟩
    | ⟨hraised, hkind, hjob⟩
  · -- both reads succeed
    have hends : CallEnds env tid p finishFuel s fun s' =>
        ∃ ok status, status ≠ .completed
          ∧ (s'.tasks tid).pc = .worker (.invoke inv slot (.returned ok))
          ∧ runStatus s'.db inv.runId = some status
          ∧ Quiet inv kind s s' := by
      refine callEnds_to_inspect hpc hq hnone hproj
        fun s₁ hpc₁ _ hq₁ => ?_
      refine callEnds_to_readInterrupts hpc₁ hq₁ hread
        fun s₂ hpc₂ hwaits hq₂ => ?_
      obtain ⟨ok, status, hne, s', hend, hrest⟩ :=
        quietEnd_readable hsession hpc₂ hq₂ hwaits hread'
      exact ⟨s', hend, ok, status, hne, hrest⟩
    obtain ⟨s', hend, ok, status, hne, hrest⟩ := hends
    refine pauseKept_of_quietEnd ⟨s', hend, hrest⟩ hne fun hunread => ?_
    rcases hunread with hfirst | hsecond
    · exact absurd hread hfirst
    · exact absurd hread' hsecond
  · -- the job has left `processing`
    have hpipeline : kind = .pipeline := by
      rw [hq.run] at hkind
      injection hkind
    suffices hends : QuietEnd env tid inv slot p kind s finishFuel s false
        .failed from
      pauseKept_of_quietEnd hends (by decide) fun _ => ⟨rfl, rfl⟩
    refine callEnds_to_inspect hpc hq hnone hproj
      fun s₁ hpc₁ hjobs₁ hq₁ => ?_
    refine callEnds_to_finalize hpc₁ hq₁ hraised
      fun s₂ hpc₂ _ hjobs₂ hq₂ => ?_
    refine quietEnd_refused hpc₂ hq₂ hpipeline ?_
    rw [sessionJobState_kept (hjobs₂.trans hjobs₁) hq₂.sessions hsession]
    exact hjob

/-- A first read that raises is taken for a finish. -/
theorem recorded_of_undecided {session : Session}
    (hpc : (s.tasks tid).pc = .worker (.invoke inv slot .running))
    (hq : Quiet inv kind s s)
    (hsession : s.db.sessions.get inv.sessionId = some session)
    (hnone : p.projectionError = none) {db₁ : Db}
    (hproj : Tx.commit env.cfg s.now s.db (.writeProjection inv.sessionId
      inv.runId p.output p.ids) = .ok db₁)
    (hraised : p.undecided ≠ none)
    (h : PauseKept env tid inv slot p s) :
    kind = .pipeline
      ∧ sessionJobState s.db inv.sessionId ≠ some .processing := by
  by_cases hk : kind = .pipeline
  · refine ⟨hk, fun hjob => ?_⟩
    rw [sessionJobState_of_get hsession] at hjob
    -- the job is completed by the call
    have hends : CallEnds env tid p finishFuel s fun s' =>
        jobState s'.db session.jobId = some .completed := by
      refine callEnds_to_inspect hpc hq hnone hproj
        fun s₁ hpc₁ hjobs₁ hq₁ => ?_
      refine callEnds_to_finalize hpc₁ hq₁ hraised
        fun s₂ hpc₂ _ hjobs₂ hq₂ => ?_
      obtain ⟨session₂, hsession₂, hkept⟩ := hq₂.sessions.persists hsession
      rw [← hkept.jobId]
      refine callEnds_completes hpc₂ hq₂ hk hsession₂ ?_
      rw [hkept.jobId]
      unfold jobState
      rw [hjobs₂, hjobs₁]
      exact hjob
    obtain ⟨s', ok, hdone, -, hkept, -⟩ := h.ends hends
    have hbefore := hkept.jobs _ hdone
    rw [hjob] at hbefore
    cases hbefore
  · -- the run is completed by the call
    have hends : CallEnds env tid p finishFuel s fun s' =>
        runStatus s'.db inv.runId = some .completed := by
      refine callEnds_to_inspect hpc hq hnone hproj
        fun s₁ hpc₁ _ hq₁ => ?_
      exact callEnds_to_finalize hpc₁ hq₁ hraised
        fun s₂ hpc₂ hdone _ hq₂ => callEnds_other hpc₂ hq₂ hk hdone
    obtain ⟨s', ok, hdone, -, hkept, -⟩ := h.ends hends
    exact absurd hdone hkept.run

/-- A second read that raises is reported by nothing. -/
theorem readable_of_kept {session : Session}
    (hpc : (s.tasks tid).pc = .worker (.invoke inv slot .running))
    (hq : Quiet inv kind s s)
    (hsession : s.db.sessions.get inv.sessionId = some session)
    (hnone : p.projectionError = none) {db₁ : Db}
    (hproj : Tx.commit env.cfg s.now s.db (.writeProjection inv.sessionId
      inv.runId p.output p.ids) = .ok db₁)
    (hread : p.undecided = none)
    (h : PauseKept env tid inv slot p s) : p.unreadable = none := by
  by_contra hraised
  have hends : QuietEnd env tid inv slot p kind s finishFuel s true
      .awaitingHuman := by
    refine callEnds_to_inspect hpc hq hnone hproj fun s₁ hpc₁ _ hq₁ => ?_
    exact callEnds_to_readInterrupts hpc₁ hq₁ hread
      fun s₂ hpc₂ hwaits hq₂ =>
        quietEnd_unreadable hsession hpc₂ hq₂ hwaits hraised
  obtain ⟨s', ok, ⟨-, hwaits, -⟩, -, -, hreported⟩ := h.ends hends
  have hfailed := (hreported (Or.inr hraised)).2
  rw [hwaits] at hfailed
  cases hfailed

/-- In every state reached in which a worker's graph call is about to
return from a graph that paused at an interrupt, whatever the two reads
of the checkpoint and the steps around them raise: the call finishes
neither the run nor its job, sends nothing to be indexed and reports a
read that failed, exactly when the pause is recorded. -/
theorem paused_graph_kept_iff (hr : Reaches env Lts.Always s)
    (hpc : (s.tasks tid).pc = .worker (.invoke inv slot .running))
    (p : PausedFinish) :
    PauseKept env tid inv slot p s ↔ PauseRecorded env s inv p := by
  obtain ⟨run, hrun, hsess⟩ := invocation_linked hr hpc
  obtain ⟨session, hsession, -⟩ := reaches_runsLinked hr _ _ hrun
  rw [hsess] at hsession
  have hq : Quiet inv run.kind s s :=
    ⟨by rw [hrun]; rfl, SessionsEvolve.refl _, fun _ h => h, rfl⟩
  refine ⟨fun h => ?_, pauseKept_of_recorded hpc hq hsession⟩
  by_cases hraises : ProjectionRaises env s inv p
  · exact Or.inl hraises
  obtain ⟨hnone, db₁, hproj⟩ := projection_commits hraises
  by_cases hread : p.undecided = none
  · exact Or.inr (Or.inl ⟨hread,
      readable_of_kept hpc hq hsession hnone hproj hread h⟩)
  · obtain ⟨hk, hjob⟩ :=
      recorded_of_undecided hpc hq hsession hnone hproj hread h
    refine Or.inr (Or.inr ⟨hread, ?_, hjob⟩)
    rw [hrun, Option.map_some, hk]

end Result

-- =============================================================== scenarios

/-- The graph asks a question, and the first read of its checkpoint
raises this. -/
def pausedOnce (undecided : Option String) : PausedFinish :=
  { output := ⟨[], none⟩, ids := [], projectionError := none
    pending := [.obj [("kind", .str "information_request")]]
    paused := List.cons_ne_nil _ _
    undecided := undecided, unreadable := none, interruptId := 30
    publishError := none }

/-- The first run of a deployment pauses. -/
theorem first_pause_kept :
    ∃ s, Lts.run (apply Env.default) State.init firstCall = some s
      ∧ PauseKept Env.default 1 ⟨11, 10, .null, some false, none⟩ (some 2)
        (pausedOnce none) s := by
  obtain ⟨s, hs⟩ := Option.isSome_iff_exists.mp
    (show (Lts.run (apply Env.default) State.init firstCall).isSome
      by decide)
  have hpc : (Lts.run (apply Env.default) State.init firstCall).map
      (fun s => (s.tasks 1).pc) = some (.worker (.invoke
        ⟨11, 10, .null, some false, none⟩ (some 2) .running)) := rfl
  rw [hs] at hpc
  exact ⟨s, hs, (paused_graph_kept_iff (Lts.reachable_of_run .init hs)
    (Option.some.inj hpc) (pausedOnce none)).mpr (Or.inr (Or.inl
      ⟨rfl, rfl⟩))⟩

/-- The checkpoint cannot be read once: the paused run is completed. -/
theorem unread_pause_completed :
    ¬ ∀ (env : Env) (s : State) (tid : Nat) (inv : Invocation)
      (slot : Option Uuid) (p : PausedFinish),
      Reaches env Lts.Always s →
      (s.tasks tid).pc = .worker (.invoke inv slot .running) →
      PauseKept env tid inv slot p s := by
  intro h
  obtain ⟨s, hs⟩ := Option.isSome_iff_exists.mp
    (show (Lts.run (apply Env.default) State.init firstCall).isSome
      by decide)
  have hpc : (Lts.run (apply Env.default) State.init firstCall).map
      (fun s => (s.tasks 1).pc) = some (.worker (.invoke
        ⟨11, 10, .null, some false, none⟩ (some 2) .running)) := rfl
  have hend : (Lts.run (apply Env.default) State.init firstCall).map
      (fun s => (finishInvoke Env.default 1
        (pausedOnce (some "connection reset")).reply finishFuel s).map
          fun s' => runStatus s'.db 11)
      = some (some (some .completed)) := by decide
  rw [hs] at hpc hend
  obtain ⟨s', ok, hs', -, hkept, -⟩ := h Env.default s 1 _ (some 2)
    (pausedOnce (some "connection reset")) (Lts.reachable_of_run .init hs)
    (Option.some.inj hpc)
  rw [Option.map_some, hs', Option.map_some, Option.some.injEq,
    Option.some.injEq] at hend
  exact hkept.run hend

end LegalBot
