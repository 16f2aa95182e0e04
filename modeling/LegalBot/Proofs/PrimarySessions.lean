/-
The primary sessions of a job.

`_run_pipeline` inserts a primary session at every start, and a job is
started once per dispatch: after a failure and an operator retry it is
dispatched and started again. What the code needs and does not check is
`FirstStart`: the job it starts has no primary session yet.

# The invariant

`PrimaryLinked` has three parts: two primary sessions of one job are the
same; the job of any session points to a primary session of its own; a
job with a `processing_started_at` has a session. A start is the only
transaction that inserts a primary session, and a replay inherits the
job of a session that is there.
-/
import LegalBot.Orchestrator.Columns
import LegalBot.Orchestrator.System

namespace LegalBot

open Relational (HasKey Table)

-- ============================================================== statements

/-- The primary sessions of a job. -/
def primarySessions (db : Db) (jobId : Uuid) : List Uuid :=
  (db.sessions.rows.filter fun s =>
    s.jobId = jobId ∧ s.kind = .primary).map (·.id)

/-- At most one primary session a job; a job that has been started has
one, and `current_session_id` points to it. -/
def OnePrimary (db : Db) : Prop :=
  ∀ j job, db.jobs.get j = some job →
    (primarySessions db j).length ≤ 1
      ∧ (job.processingStartedAt ≠ none →
        ∃ sid, primarySessions db j = [sid]
          ∧ job.currentSessionId = some sid)

/-- A start that finds its job dispatched finds it without a primary
session. -/
def FirstStart (env : Env) (a : Action) (s : State) : Prop :=
  match committing env a s with
  | some (.startPipeline j _ _ _) =>
      jobState s.db j = some .dispatched → primarySessions s.db j = []
  | _ => True

instance (env : Env) (a : Action) (s : State) :
    Decidable (FirstStart env a s) := by
  dsimp only [FirstStart]
  generalize committing env a s = tx
  induction tx using Option.casesOn with
  | none => infer_instance
  | some tx => induction tx using Tx.casesOn <;> infer_instance

-- =========================================================== the invariant

/-- A primary session of a job. -/
def IsPrimary (db : Db) (jobId k : Uuid) : Prop :=
  ∃ s, db.sessions.get k = some s ∧ s.jobId = jobId ∧ s.kind = .primary

/-- The job points to a primary session of its own. -/
def PointsToPrimary (db : Db) (jobId : Uuid) : Prop :=
  ∃ job k, db.jobs.get jobId = some job ∧ IsPrimary db jobId k
    ∧ job.currentSessionId = some k

structure PrimaryLinked (db : Db) : Prop where
  unique : ∀ {j k₁ k₂}, IsPrimary db j k₁ → IsPrimary db j k₂ → k₁ = k₂
  pointed : ∀ {k s}, db.sessions.get k = some s →
    PointsToPrimary db s.jobId
  started : ∀ {j job}, db.jobs.get j = some job →
    job.processingStartedAt ≠ none →
    ∃ k s, db.sessions.get k = some s ∧ s.jobId = j

theorem mem_primarySessions {db : Db} {j k : Uuid} :
    k ∈ primarySessions db j ↔ IsPrimary db j k := by
  unfold primarySessions IsPrimary
  rw [List.mem_map]
  constructor
  · rintro ⟨s, hs, rfl⟩
    obtain ⟨hmem, hcols⟩ := List.mem_filter.mp hs
    exact ⟨s, Table.get_of_mem hmem, by simpa using hcols⟩
  · rintro ⟨s, hget, hcols⟩
    obtain ⟨hmem, hid⟩ := Table.get_some hget
    exact ⟨s, List.mem_filter.mpr ⟨hmem, by simpa using hcols⟩, hid⟩

/-- The invariant gives the law. -/
theorem PrimaryLinked.onePrimary {db : Db} (h : PrimaryLinked db) :
    OnePrimary db := by
  intro j job hjob
  have hone : (primarySessions db j).length ≤ 1 := by
    unfold primarySessions
    rw [List.length_map]
    refine Table.length_filter_le_one fun hr₁ hr₂ hp₁ hp₂ => ?_
    exact h.unique ⟨_, hr₁, of_decide_eq_true hp₁⟩
      ⟨_, hr₂, of_decide_eq_true hp₂⟩
  refine ⟨hone, fun hstarted => ?_⟩
  obtain ⟨k, s, hs, rfl⟩ := h.started hjob hstarted
  obtain ⟨job', p, hjob', hp, hcurrent⟩ := h.pointed hs
  rw [hjob] at hjob'
  injection hjob' with hjob'
  have hmem := mem_primarySessions.mpr hp
  have hlen : (primarySessions db s.jobId).length = 1 :=
    le_antisymm hone (List.length_pos_of_mem hmem)
  obtain ⟨x, hx⟩ := List.length_eq_one_iff.mp hlen
  rw [hx, List.mem_singleton] at hmem
  exact ⟨x, hx, by rw [hjob', hcurrent, hmem]⟩

-- ==================================================================== step

section Step

variable {env : Env} {a : Action} {s s' : State} {tx : Tx} {db db' : Db}
  {cfg : Settings} {now : Time} {j k : Uuid}

/-- A primary session stays one. -/
theorem IsPrimary.kept (h : IsPrimary db j k)
    (hs : SessionsEvolve db.sessions db'.sessions) :
    IsPrimary db' j k := by
  obtain ⟨r, hr, hjob, hkind⟩ := h
  obtain ⟨r', hr', hkept⟩ := hs.persists hr
  exact ⟨r', hr', hkept.jobId.trans hjob, hkept.kind.trans hkind⟩

/-- A primary session was one before, or its start has just inserted
it. -/
theorem IsPrimary.origin (hc : tx.commit cfg now db = .ok db')
    (h : IsPrimary db' j k) :
    IsPrimary db j k ∨ ∃ rid hex, tx = .startPipeline j k rid hex := by
  obtain ⟨r', hr', hjob, hkind⟩ := h
  have hid : r'.id = k := Table.key_of_get hr'
  rcases (commit_spec hc).sessions.origin hr' with
    ⟨r, hr, hkept⟩ | ⟨hnone, -⟩
  · exact Or.inl ⟨r, hr, hkept.jobId.symm.trans hjob,
      hkept.kind.symm.trans hkind⟩
  · have hcreated := (commit_origins hc).born hnone hr'
    cases tx with
    | startPipeline j' sid rid hex =>
        obtain ⟨now', job, hget, rfl⟩ := hcreated
        have hj : j' = j := (Table.key_of_get hget).symm.trans hjob
        have hk : sid = k := hid
        exact Or.inr ⟨rid, hex, by rw [hj, hk]⟩
    | replay sid fromRun step ctx cp childId rid hex =>
        obtain ⟨now', parent, run, -, -, rfl⟩ := hcreated
        cases hkind
    | _ => exact hcreated.elim

/-- A start that commits leaves its job pointing to the session it
inserts. -/
theorem startPipeline_points {sid rid : Uuid} {hex : String}
    (h : startPipeline db now j sid rid hex = .ok db') :
    jobState db j = some .dispatched ∧ PointsToPrimary db' j := by
  obtain ⟨job, jobs, sessions, runs, hjob, hjobs, hs, -, rfl⟩ :=
    startPipeline_ok h
  obtain ⟨-, row, hrow, hstate, hget⟩ := transition_ok hjobs
  have hid : job.id = j := Table.key_of_get hjob
  refine ⟨?_, { transitionValues .processing now JobExtra.none row with
      currentSessionId := some sid }, sid, ?_,
    ⟨_, get_inserted hs, hid, rfl⟩, rfl⟩
  · unfold jobState
    rw [hrow, ← hstate]
    rfl
  · have hrowid : (transitionValues .processing now JobExtra.none row).id
        = j := Table.key_of_get hrow
    show (setCurrentSession jobs j sid).get j = _
    unfold setCurrentSession
    rw [Table.get_updateWhere, hget j, if_pos rfl, Option.map_some]
    simp only [hrowid, decide_true, if_true]

/-- The start that the guard lets through found no primary session. -/
theorem FirstStart.none_before (hg : FirstStart env a s)
    {sid rid : Uuid} {hex : String}
    (htx : committing env a s = some (.startPipeline j sid rid hex))
    (hc : Tx.commit env.cfg s.now s.db (.startPipeline j sid rid hex)
      = .ok db') : ¬ IsPrimary s.db j k := by
  intro hk
  unfold FirstStart at hg
  rw [htx] at hg
  have hempty := hg (startPipeline_points hc).1
  have hmem := mem_primarySessions.mpr hk
  rw [hempty] at hmem
  cases hmem

/-- A job that points to a primary session goes on doing so. -/
theorem PointsToPrimary.kept (h : PointsToPrimary s.db j)
    (hg : FirstStart env a s) (htx : committing env a s = some tx)
    (hc : tx.commit env.cfg s.now s.db = .ok db') :
    PointsToPrimary db' j := by
  obtain ⟨job, k, hjob, hk, hcurrent⟩ := h
  obtain ⟨job', hjob', hcols⟩ := (commit_jobColumns hc).persists hjob
  refine ⟨job', k, hjob', hk.kept (commit_spec hc).sessions, ?_⟩
  rw [hcols.currentSession]
  cases tx with
  | startPipeline j' sid rid hex =>
      have hne : job.id ≠ j' := by
        intro he
        have hj : j = j' := (Table.key_of_get hjob).symm.trans he
        subst hj
        exact hg.none_before htx hc hk
      exact (if_neg hne).trans hcurrent
  | _ => exact hcurrent

/-- One committed transaction keeps the invariant. -/
theorem PrimaryLinked.commit (h : PrimaryLinked s.db)
    (hg : FirstStart env a s) (htx : committing env a s = some tx)
    (hc : tx.commit env.cfg s.now s.db = .ok db') :
    PrimaryLinked db' where
  unique {j k₁ k₂} h₁ h₂ := by
    rcases h₁.origin hc with h₁ | ⟨rid₁, hex₁, rfl⟩
    · rcases h₂.origin hc with h₂ | ⟨rid₂, hex₂, rfl⟩
      · exact h.unique h₁ h₂
      · exact absurd h₁ (hg.none_before htx hc)
    · rcases h₂.origin hc with h₂ | ⟨rid₂, hex₂, heq⟩
      · exact absurd h₂ (hg.none_before htx hc)
      · injection heq with _ heq
  pointed {k r'} hk := by
    rcases (commit_spec hc).sessions.origin hk with
      ⟨r, hr, hkept⟩ | ⟨hnone, -⟩
    · rw [hkept.jobId]
      exact (h.pointed hr).kept hg htx hc
    · have hcreated := (commit_origins hc).born hnone hk
      cases tx with
      | startPipeline j sid rid hex =>
          obtain ⟨now', job, hget, rfl⟩ := hcreated
          have hj : job.id = j := Table.key_of_get hget
          show PointsToPrimary db' job.id
          rw [hj]
          exact (startPipeline_points hc).2
      | replay sid fromRun step ctx cp childId rid hex =>
          obtain ⟨now', parent, run, hparent, -, rfl⟩ := hcreated
          exact (h.pointed hparent).kept hg htx hc
      | _ => exact hcreated.elim
  started {j job'} hjob' hstarted := by
    have hkeep : (∃ k r, s.db.sessions.get k = some r ∧ r.jobId = j) →
        ∃ k r, db'.sessions.get k = some r ∧ r.jobId = j := by
      rintro ⟨k, r, hr, hj⟩
      obtain ⟨r', hr', hkept⟩ := (commit_spec hc).sessions.persists hr
      exact ⟨k, r', hr', hkept.jobId.trans hj⟩
    rcases (commit_jobColumns hc).origin hjob' with
      ⟨job, hjob, hcols⟩ | ⟨-, hblank⟩
    · have hid : job.id = j := Table.key_of_get hjob
      rcases hcols.started with hsame | ⟨hbefore, hafter⟩
      · rw [hsame] at hstarted
        exact hkeep (h.started hjob hstarted)
      · -- it has just entered `processing`
        obtain ⟨job₁, hjob₁, hmove⟩ := (commit_effects hc).jobs.persists hjob
        rw [hjob'] at hjob₁
        injection hjob₁ with hjob₁
        subst hjob₁
        rcases hmove.state with hsame | hmove
        · exact absurd (hsame.symm.trans hafter) hbefore
        · rw [hafter, hid] at hmove
          rcases jobMove_processing hmove with
            ⟨sid, rid, hex, rfl⟩ | ⟨rid, rfl, hsession⟩
          · obtain ⟨_, p, -, ⟨r, hr, hj, -⟩, -⟩ :=
              (startPipeline_points hc).2
            exact ⟨p, r, hr, hj⟩
          · obtain ⟨sid, -, hjobOf⟩ := Option.bind_eq_some_iff.mp hsession
            obtain ⟨r, hr, hj⟩ := Option.map_eq_some_iff.mp hjobOf
            exact hkeep ⟨sid, r, hr, hj⟩
    · exact absurd hblank.started hstarted

end Step

-- ===================================================================== runs

/-- In every run whose starts are of jobs without a primary session, each
job has at most one, and a started job points to it. -/
theorem one_primary_of_first_starts {env : Env} {s : State}
    (h : Reaches env (FirstStart env) s) : OnePrimary s.db := by
  refine PrimaryLinked.onePrimary ?_
  refine Lts.Reachable.invariant (P := fun s => PrimaryLinked s.db) ?_ ?_ h
  · refine ⟨?_, ?_, ?_⟩
    · rintro j k₁ k₂ ⟨_, hr, -⟩
      cases hr
    · intro k r hr
      cases hr
    · intro j job hjob
      cases hjob
  · intro s a s' _ hl hg hstep
    rcases apply_db hstep with ⟨hdb, -⟩ | ⟨tx, htx, ⟨hdb, -⟩ | ⟨hc, -⟩⟩
    · rw [hdb]
      exact hl
    · rw [hdb]
      exact hl
    · exact hl.commit hg htx hc

/-- The condition is exact: a start that commits on a job with a primary
session leaves two. -/
theorem second_start_breaks {env : Env} {a : Action} {s s' : State}
    (hg : ¬ FirstStart env a s) (hstep : apply env a s = some s')
    (hdb : s'.db ≠ s.db) : ¬ OnePrimary s'.db := by
  intro hone
  rcases apply_db hstep with ⟨he, -⟩ | ⟨tx, htx, ⟨he, -⟩ | ⟨hc, -⟩⟩
  · exact hdb he
  · exact hdb he
  unfold FirstStart at hg
  rw [htx] at hg
  cases tx with
  | startPipeline j sid rid hex =>
      obtain ⟨-, hne⟩ := Classical.not_imp.mp hg
      obtain ⟨k, hk⟩ := List.exists_mem_of_ne_nil _ hne
      have hold := mem_primarySessions.mp hk
      obtain ⟨job, jobs, sessions, runs, hjob, -, hs, -, heq⟩ :=
        startPipeline_ok hc
      have hid : job.id = j := Table.key_of_get hjob
      have hget : s'.db.sessions.get sid
          = some (createPrimary job sid hex s.now) := by
        rw [heq]
        exact get_inserted hs
      obtain ⟨job', -, hjob', -, -⟩ := (startPipeline_points hc).2
      have hsame : k = sid := Table.eq_of_mem_short (hone j job' hjob').1
        (mem_primarySessions.mpr (hold.kept (commit_spec hc).sessions))
        (mem_primarySessions.mpr ⟨_, hget, hid, rfl⟩)
      -- but the session a start inserts is new
      obtain ⟨r, hr, -⟩ := hold
      have hfresh : s.db.sessions.get sid = none := Table.insert_fresh hs
      rw [hsame, hfresh] at hr
      cases hr
  | _ => exact hg trivial

-- =============================================================== scenarios

/-- One start of job 2, and its primary session 10. -/
theorem first_start_one_primary :
    ∃ s, Lts.run (Lts.guarded (apply Env.default) (FirstStart Env.default))
        State.init (firstStart ++ cleanFinish) = some s
      ∧ OnePrimary s.db := by
  obtain ⟨s, hs⟩ := Option.isSome_iff_exists.mp
    (show (Lts.run (Lts.guarded (apply Env.default)
      (FirstStart Env.default)) State.init
      (firstStart ++ cleanFinish)).isSome by decide +kernel)
  exact ⟨s, hs, one_primary_of_first_starts
    (Lts.reachable_of_guarded_run .init hs)⟩

/-- The operator cancels job 2 and retries it, and it is dispatched and
started again. -/
def restarted : List Action :=
  firstStart ++
  [.start 0 (.cancel 2 "wrong template"), .advance 0 .ok, .advance 0 .ok,
    .start 0 (.retry 2), .advance 0 .ok, .advance 0 .ok,
    .start 0 .dispatchOnce, .advance 0 .ok, .advance 0 (.locked []),
    .advance 0 .ok, .advance 0 .ok, .advance 0 .ok,
    .deliver 2 1, .advance 2 (.fresh [20, 21] "b")]

/-- Job 2 has the primary sessions 10 and 20. -/
theorem retried_job_has_two_primaries :
    ¬ ∀ s, Reaches Env.default Lts.Always s → OnePrimary s.db := by
  intro h
  obtain ⟨s, hs⟩ := Option.isSome_iff_exists.mp
    (show (Lts.run (apply Env.default) State.init restarted).isSome by
      decide +kernel)
  have hjob : ((Lts.run (apply Env.default) State.init restarted).bind
      fun s => s.db.jobs.get 2).isSome := by decide +kernel
  have htwo : (Lts.run (apply Env.default) State.init restarted).map
      (fun s => primarySessions s.db 2) = some [10, 20] := by
    decide +kernel
  rw [hs] at hjob htwo
  obtain ⟨job, hjob⟩ := Option.isSome_iff_exists.mp hjob
  have hone := (h s (Lts.reachable_of_run .init hs) 2 job hjob).1
  have hlist : primarySessions s.db 2 = [10, 20] := Option.some.inj htwo
  rw [hlist] at hone
  simp at hone

end LegalBot
