/-
A run finishes only the processing episode it started.

# What goes wrong

`_finalize_job_if_primary` and `_fail_pipeline_job_for_graph_error`
compare the state column, not the run: `processing` may be another run's
by the time a slow worker gets there (the sweeper failed the job, an
operator retried it, a second worker started it), and a resume whose
guard misses runs the graph all the same.

# The condition and the invariant

`OwnEpisode` asks of the steps that bring the trouble about: a start or
a resume moves a job into `processing` only while no worker is inside
the graph call of another primary run of the job, and a primary run is
resumed past a missed guard only if the episode in progress is its own.
Under it, `Owned` is invariant: while a job is processing, every worker
inside a call of one of its primary runs is inside the call of the run
that entered the episode.
-/
import LegalBot.Orchestrator.Invariants

namespace LegalBot

open Relational (HasKey Table)

-- ============================================================== statements

/-- The run of the latest transition of a job into `processing`. -/
def lastEntered (j : Uuid) : List Event → Option Uuid
  | [] => none
  | .entered k r :: older => if k = j then some r else lastEntered j older
  | _ :: older => lastEntered j older

/-- Every completion or failure of a job by a run of its primary session
was by the run that had entered `processing` last. -/
def EpisodesOwned : List Event → Prop
  | [] => True
  | e :: older =>
      (∀ j r t, e = .finished j r .primary t →
        lastEntered j older = some r)
      ∧ EpisodesOwned older

/-- A pipeline run of a job's primary session. -/
def IsPrimaryRun (db : Db) (j rid : Uuid) : Prop :=
  ∃ run session, db.runs.get rid = some run ∧ run.kind = .pipeline
    ∧ run.jobId = j ∧ db.sessions.get run.sessionId = some session
    ∧ session.kind = .primary

/-- A worker is inside the graph call of a primary run of a job. -/
def Executes (s : State) (j rid : Uuid) : Prop :=
  IsPrimaryRun s.db j rid ∧ ∃ tid inv slot stage,
    (s.tasks tid).pc = .worker (.invoke inv slot stage)
      ∧ stage.isOver = false ∧ inv.runId = rid

/-- The condition on one step. -/
def OwnEpisode (env : Env) (a : Action) (s : State) : Prop :=
  match committing env a s with
  | some (.startPipeline j _ _ _) => ∀ rid, ¬ Executes s j rid
  | some (.resumeTransition rid) =>
      ∀ run session, s.db.runs.get rid = some run →
        s.db.sessions.get run.sessionId = some session →
        run.kind = .pipeline →
        (jobState s.db session.jobId = some .awaitingHuman →
          ∀ rid', Executes s session.jobId rid' → rid' = rid)
        ∧ (jobState s.db session.jobId = some .processing →
          session.kind = .primary →
          lastEntered session.jobId s.log = some rid)
  | _ => True

-- ================================================================= the log

section Log

variable {j r : Uuid} {log evs : List Event}

theorem lastEntered_append (h : ∀ r, Event.entered j r ∉ evs) :
    lastEntered j (evs ++ log) = lastEntered j log := by
  induction evs with
  | nil => rfl
  | cons e rest ih =>
      have hrest := ih fun r hr => h r (List.mem_cons_of_mem e hr)
      rw [List.cons_append]
      cases e with
      | entered k r =>
          have hk : k ≠ j := by
            rintro rfl
            exact h r List.mem_cons_self
          show (if k = j then some r else lastEntered j (rest ++ log)) = _
          rw [if_neg hk]
          exact hrest
      | _ => exact hrest

theorem lastEntered_entered :
    lastEntered j (.entered j r :: log) = some r :=
  if_pos rfl

/-- Logging events that finish no primary episode. -/
theorem EpisodesOwned.append (hlog : EpisodesOwned log)
    (h : ∀ j r t, Event.finished j r .primary t ∉ evs) :
    EpisodesOwned (evs ++ log) := by
  induction evs with
  | nil => exact hlog
  | cons e rest ih =>
      refine ⟨fun j r t he => ?_,
        ih fun j r t hr => h j r t (List.mem_cons_of_mem e hr)⟩
      subst he
      exact absurd List.mem_cons_self (h j r t)

end Log

-- ======================================================= what commits log

section Events

variable {cfg : Settings} {now : Time} {db db' : Db} {tx : Tx}
  {j r : Uuid}

theorem jobState_of_transition {jobs : Table ProcessingJob}
    {f t : JobState} {extra : JobExtra}
    (h : transition db.jobs now j f t extra = .ok jobs) :
    jobState db j = some f := by
  obtain ⟨-, row, hrow, hstate, -⟩ := transition_ok h
  unfold jobState
  rw [hrow, ← hstate]
  rfl

/-- Where an `entered` comes from: the one event of a start or of a
resume, on a job that was not processing. -/
theorem entered_logged (hc : tx.commit cfg now db = .ok db')
    (h : Event.entered j r ∈ tx.events now db) :
    tx.events now db = [.entered j r]
      ∧ ((∃ sid hex, tx = .startPipeline j sid r hex
          ∧ jobState db j = some .dispatched)
        ∨ (tx = .resumeTransition r ∧ ∃ run session,
            db.runs.get r = some run
            ∧ db.sessions.get run.sessionId = some session
            ∧ run.kind = .pipeline ∧ session.jobId = j
            ∧ jobState db j = some .awaitingHuman)) := by
  cases tx with
  | startPipeline j' sid rid hex =>
      have he := List.mem_singleton.mp h
      injection he with h₁ h₂
      subst h₁
      subst h₂
      obtain ⟨_, jobs, _, _, -, hjobs, -, -, -⟩ := startPipeline_ok hc
      exact ⟨rfl, Or.inl ⟨sid, hex, rfl, jobState_of_transition hjobs⟩⟩
  | resumeTransition rid =>
      obtain ⟨run, session, -, hrun, hsession, -, -⟩ :=
        resumeTransition_ok hc
      unfold Tx.events at h ⊢
      simp only [hrun, hsession] at h ⊢
      split at h
      · rename_i hg
        rw [if_pos hg]
        have he := List.mem_singleton.mp h
        injection he with h₁ h₂
        subst h₁
        subst h₂
        exact ⟨rfl, Or.inr
          ⟨rfl, run, session, hrun, hsession, hg.1, rfl, hg.2⟩⟩
      · cases h
  | finalizeJob sid rid =>
      unfold Tx.events at h
      simp only at h
      split at h
      · split at h
        · cases List.mem_singleton.mp h
        · cases h
      · cases h
  | failJob rid exc =>
      unfold Tx.events at h
      simp only at h
      split at h
      · cases h
      · split at h
        · cases h
        · split at h
          · cases List.mem_singleton.mp h
          · cases h
  | resolve sid current resolution resolvedBy iid =>
      cases List.mem_singleton.mp h
  | expireStalled =>
      obtain ⟨_, -, he⟩ := List.mem_map.mp h
      cases he
  | _ => cases h

/-- Where a primary `finished` comes from: the one event of a finalize
or of a failure, by a primary run of a job that was processing. -/
theorem finished_logged {t : JobState}
    (hl : RunsLinked db) {inv : Invocation} (hinv : tx.ofInvocation inv)
    (hrow : ∃ run, db.runs.get inv.runId = some run
      ∧ run.sessionId = inv.sessionId)
    (hc : tx.commit cfg now db = .ok db')
    (h : Event.finished j r .primary t ∈ tx.events now db) :
    tx.events now db = [.finished j r .primary t]
      ∧ r = inv.runId ∧ IsPrimaryRun db j r
      ∧ jobState db j = some .processing := by
  obtain ⟨run, hrun, hsess⟩ := hrow
  obtain ⟨session, hsession, hjob⟩ := hl _ _ hrun
  cases tx with
  | finalizeJob sid rid =>
      obtain ⟨rfl, rfl⟩ := hinv
      rw [hsess] at hsession
      unfold Tx.events at h ⊢
      simp only [hrun, hsession] at h ⊢
      split at h
      · rename_i hk
        rw [if_pos hk]
        have he := List.mem_singleton.mp h
        injection he with h₁ h₂ h₃ h₄
        subst h₁
        subst h₂
        subst h₄
        rw [← h₃]
        obtain ⟨run', hrun', ⟨hne, -⟩ | ⟨-, session', jobs, hs', hjobs, -⟩⟩
          := finalizeJobIfPrimary_ok hc
        · rw [hrun] at hrun'
          injection hrun' with hrun'
          exact absurd (hrun' ▸ hk) hne
        · rw [hsession] at hs'
          injection hs' with hs'
          subst hs'
          refine ⟨rfl, rfl, ⟨run, session, hrun, hk, hjob.symm, ?_,
            h₃.symm⟩, jobState_of_transition hjobs⟩
          rw [hsess]
          exact hsession
      · cases h
  | failJob rid exc =>
      have hrid : rid = inv.runId := hinv
      subst hrid
      unfold Tx.events at h ⊢
      simp only [hrun, hsession] at h ⊢
      split at h
      · rename_i hg
        rw [if_pos hg]
        have he := List.mem_singleton.mp h
        injection he with h₁ h₂ h₃ h₄
        subst h₁
        subst h₂
        subst h₄
        rw [← h₃]
        exact ⟨rfl, rfl, ⟨run, session, hrun, hg.1, rfl, hsession,
          h₃.symm⟩, hg.2⟩
      · cases h
  | markRunStatus rid st => cases h
  | pauseJob sid rid => cases h
  | writeProjection sid rid output ids => cases h
  | openInterrupt id sid rid kind payload schema => cases h
  | _ => exact hinv.elim

/-- A handler's transaction finishes no episode. -/
theorem handler_not_finished (h : tx.byHandler = true) {kind : SessionKind}
    {t : JobState} : Event.finished j r kind t ∉ tx.events now db := by
  intro hm
  cases tx with
  | resolve sid current resolution resolvedBy iid =>
      cases List.mem_singleton.mp hm
  | expireStalled =>
      obtain ⟨_, -, he⟩ := List.mem_map.mp hm
      cases he
  | finalizeJob sid rid => cases h
  | failJob rid exc => cases h
  | startPipeline j sid rid hex => cases h
  | resumeTransition rid => cases h
  | _ => cases hm

/-- Neither does a resume. -/
theorem resume_not_finished {rid : Uuid} {kind : SessionKind}
    {t : JobState} :
    Event.finished j r kind t ∉ (Tx.resumeTransition rid).events now db := by
  intro hm
  unfold Tx.events at hm
  simp only at hm
  split at hm
  · cases hm
  · split at hm
    · cases hm
    · split at hm
      · cases List.mem_singleton.mp hm
      · cases hm

end Events

-- ============================================================== the worker

section Steps

variable {env : Env} {s s' : State} {a : Action} {j rid : Uuid}

/-- A stored run is primary after a step only if it was before. -/
theorem primaryRun_before (h : apply env a s = some s')
    (hl : RunsLinked s.db) {run : Run}
    (hrun : s.db.runs.get rid = some run)
    (hp : IsPrimaryRun s'.db j rid) : IsPrimaryRun s.db j rid := by
  obtain ⟨run', session', hrun', hk, hj, hs', hkind⟩ := hp
  obtain ⟨run₁, hrun₁, hmove⟩ := apply_run h hrun
  rw [hrun'] at hrun₁
  injection hrun₁ with hrun₁
  subst hrun₁
  obtain ⟨session, hsession, -⟩ := hl _ _ hrun
  obtain ⟨session₁, hsession₁, hkept⟩ := apply_session h hsession
  rw [hmove.sessionId, hsession₁] at hs'
  injection hs' with hs'
  subst hs'
  exact ⟨run, session, hrun, hmove.kind ▸ hk, hmove.jobId ▸ hj, hsession,
    hkept.kind ▸ hkind⟩

/-- How a step puts a worker inside the graph call of a primary run: it
was there, it started the job, or it resumed the run. -/
theorem executes_before {G : Action → State → Prop}
    (hr : Reaches env G s) (h : apply env a s = some s')
    (he : Executes s' j rid) :
    Executes s j rid
      ∨ (∃ j' sid hex, committing env a s
            = some (.startPipeline j' sid rid hex)
          ∧ s'.log = .entered j' rid :: s.log ∧ j = j')
      ∨ (committing env a s = some (.resumeTransition rid)
          ∧ IsPrimaryRun s.db j rid) := by
  have hl := reaches_runsLinked hr
  obtain ⟨hp, tid, inv, slot, stage, hpc, hlive, rfl⟩ := he
  rcases apply_invoke h hpc with
    hpc | ⟨reply, w, r, rfl, hw, hreq, rfl, hb⟩
  · obtain ⟨run, hrun, -⟩ := invocation_linked hr hpc
    exact Or.inl ⟨primaryRun_before h hl hrun hp, tid, inv, slot, stage,
      hpc, hlive, rfl⟩
  · cases hb with
    | within stage₀ _ hlive₀ =>
        obtain ⟨run, hrun, -⟩ := invocation_linked hr hw
        exact Or.inl ⟨primaryRun_before h hl hrun hp, tid, inv, slot,
          stage₀, hw, hlive₀, rfl⟩
    | started j' hex db' hc hfresh =>
        refine Or.inr (Or.inl
          ⟨j', inv.sessionId, hex, ?_, (perform_commit_map hc).2, ?_⟩)
        · unfold committing
          simp only [hreq, Request.map]
        · obtain ⟨run, hrun, -, hj'⟩ := startPipeline_run hc
          obtain ⟨run', _, hrun', -, hj, -⟩ := hp
          rw [(perform_commit_map hc).1, hrun] at hrun'
          injection hrun' with hrun'
          rw [← hj, ← hrun', hj']
    | continued row found session hfresh =>
        -- a follow-up is no pipeline run
        obtain ⟨run, hrun, hne⟩ :=
          (reaches_followUpsKnown hr).1 tid inv.runId (by rw [hw]; rfl)
        obtain ⟨run', _, hrun', hk, -⟩ := primaryRun_before h hl hrun hp
        rw [hrun] at hrun'
        injection hrun' with hrun'
        exact absurd (hrun' ▸ hk) hne
    | resumed row db' found session hc =>
        refine Or.inr (Or.inr ⟨?_, primaryRun_before h hl found hp⟩)
        unfold committing
        simp only [hreq, Request.map]

/-- How a step leaves a job processing: it was, and nothing entered it;
or the transaction logged the entry. -/
theorem processing_before (h : apply env a s = some s')
    (hs : jobState s'.db j = some .processing) :
    (jobState s.db j = some .processing
        ∧ lastEntered j s'.log = lastEntered j s.log)
      ∨ ∃ tx r, committing env a s = some tx
        ∧ tx.commit env.cfg s.now s.db = .ok s'.db
        ∧ Event.entered j r ∈ tx.events s.now s.db
        ∧ s'.log = tx.events s.now s.db ++ s.log := by
  rcases apply_db h with
    ⟨hdb, -, hlog | ⟨tid, reply, e, next, hreq, -, hlog⟩⟩
      | ⟨tx, htx, ⟨hdb, hlog⟩ | ⟨hc, hlog⟩⟩
  · exact Or.inl ⟨hdb ▸ hs, by rw [hlog]⟩
  · obtain ⟨inv, slot, -, -, rfl⟩ := request_note hreq
    exact Or.inl ⟨hdb ▸ hs, by rw [hlog]; rfl⟩
  · exact Or.inl ⟨hdb ▸ hs, by rw [hlog]⟩
  · by_cases hex : ∃ r, Event.entered j r ∈ tx.events s.now s.db
    · obtain ⟨r, hr⟩ := hex
      exact Or.inr ⟨tx, r, htx, hc, hr, hlog⟩
    · refine Or.inl ⟨?_, ?_⟩
      · unfold jobState at hs ⊢
        obtain ⟨row', hrow', hstate⟩ := Option.map_eq_some_iff.mp hs
        rcases (commit_spec hc).jobs.origin hrow' with
          ⟨row, hrow, hmove⟩ | ⟨-, hready⟩
        · rcases hmove.state with heq | ⟨-, hentered, -⟩
          · rw [hrow, Option.map_some, ← heq, hstate]
          · have hid : row.id = j := Table.key_of_get hrow
            rw [hid] at hentered
            exact absurd (hentered hstate) hex
        · rw [hready] at hstate
          cases hstate
      · rw [hlog]
        exact lastEntered_append fun r hr => hex ⟨r, hr⟩

-- =========================================================== the invariant

/-- While a job is processing, a worker inside the graph call of one of
its primary runs is inside the call of the run that entered last. -/
structure Owned (s : State) : Prop where
  owner : ∀ j rid, Executes s j rid →
    jobState s.db j = some .processing → lastEntered j s.log = some rid
  log : EpisodesOwned s.log

theorem owner_step (hr : Reaches env (OwnEpisode env) s) (ho : Owned s)
    (hg : OwnEpisode env a s) (h : apply env a s = some s')
    (he : Executes s' j rid)
    (hs : jobState s'.db j = some .processing) :
    lastEntered j s'.log = some rid := by
  unfold OwnEpisode at hg
  rcases executes_before hr h he with
    he₀ | ⟨j', sid, hex, -, hlog, rfl⟩ | ⟨htx, hp⟩
  · -- it was inside: nobody entered the job, or the guard names it
    rcases processing_before h hs with
      ⟨hs₀, hlast⟩ | ⟨tx, r, htx, hc, hent, hlog⟩
    · rw [hlast]
      exact ho.owner j rid he₀ hs₀
    · obtain ⟨hevs, ⟨sid, hex, rfl, -⟩ |
        ⟨rfl, run, session, hrun, hsess, hk, rfl, hawait⟩⟩ :=
        entered_logged hc hent
      · rw [htx] at hg
        exact absurd he₀ (hg rid)
      · rw [htx] at hg
        rw [hlog, hevs, (hg run session hrun hsess hk).1 hawait rid he₀]
        exact lastEntered_entered
  · -- it started the job
    rw [hlog]
    exact lastEntered_entered
  · -- it was resumed
    rw [htx] at hg
    obtain ⟨run, session, hrun, hk, hj, hsess, hkind⟩ := hp
    obtain ⟨session', hsess', hjob⟩ := reaches_runsLinked hr _ _ hrun
    rw [hsess] at hsess'
    injection hsess' with hsess'
    subst hsess'
    rw [hj] at hjob
    rcases processing_before h hs with
      ⟨hs₀, hlast⟩ | ⟨tx, r, htx', hc, hent, hlog⟩
    · rw [hlast]
      have hmiss := (hg run session hrun hsess hk).2
      rw [hjob] at hmiss
      exact hmiss hs₀ hkind
    · rw [htx] at htx'
      injection htx' with htx'
      subst htx'
      obtain ⟨hevs, ⟨_, _, hne, -⟩ | ⟨heq, -⟩⟩ := entered_logged hc hent
      · cases hne
      · injection heq with heq
        rw [hlog, hevs, heq]
        exact lastEntered_entered

theorem log_step (hr : Reaches env (OwnEpisode env) s) (ho : Owned s)
    (h : apply env a s = some s') : EpisodesOwned s'.log := by
  rcases apply_db h with
    ⟨-, -, hlog | ⟨tid, reply, e, next, hreq, -, hlog⟩⟩
      | ⟨tx, htx, ⟨-, hlog⟩ | ⟨hc, hlog⟩⟩
  · rw [hlog]
    exact ho.log
  · obtain ⟨inv, slot, -, -, rfl⟩ := request_note hreq
    rw [hlog]
    exact ⟨(fun _ _ _ h => by cases h), ho.log⟩
  · rw [hlog]
    exact ho.log
  · rw [hlog]
    by_cases hfin : ∃ j r t,
        Event.finished j r .primary t ∈ tx.events s.now s.db
    · obtain ⟨j, r, t, hmem⟩ := hfin
      obtain ⟨tid, reply, ok, raised, -, hreq⟩ := committing_request htx
      rcases request_commit hreq with
        hh | ⟨_, _, _, _, -, rfl⟩ | ⟨_, _, _, -, rfl⟩
          | ⟨inv, slot, stage, hpc, hlive, hinv⟩
      · exact absurd hmem (handler_not_finished hh)
      · cases List.mem_singleton.mp hmem
      · exact absurd hmem resume_not_finished
      · obtain ⟨hevs, rfl, hp, hproc⟩ := finished_logged
          (reaches_runsLinked hr) hinv (invocation_linked hr hpc) hc hmem
        have howner := ho.owner j inv.runId
          ⟨hp, tid, inv, slot, stage, hpc, hlive, rfl⟩ hproc
        rw [hevs]
        refine ⟨fun j' r' t' heq => ?_, ho.log⟩
        injection heq with h₁ h₂
        subst h₁
        subst h₂
        exact howner
    · exact ho.log.append fun j r t hmem => hfin ⟨j, r, t, hmem⟩

end Steps

-- ===================================================================== runs

/-- A decidable case of the condition: the only start is the first run
of the deployment, and nothing is resumed. -/
def SoleStart (env : Env) (a : Action) (s : State) : Prop :=
  match committing env a s with
  | some (.startPipeline _ _ _ _) => s.db.runs.rows.isEmpty = true
  | some (.resumeTransition _) => False
  | _ => True

instance (env : Env) (a : Action) (s : State) :
    Decidable (SoleStart env a s) := by
  dsimp only [SoleStart]
  generalize committing env a s = tx
  induction tx using Option.casesOn with
  | none => infer_instance
  | some tx => induction tx using Tx.casesOn <;> infer_instance

theorem SoleStart.ownEpisode {env : Env} {a : Action} {s : State}
    (h : SoleStart env a s) : OwnEpisode env a s := by
  unfold SoleStart at h
  unfold OwnEpisode
  split at h
  · rintro rid ⟨⟨run, _, hrun, -⟩, -⟩
    have hmem := (Table.get_some hrun).1
    rw [List.isEmpty_iff.mp h] at hmem
    cases hmem
  · exact h.elim
  · trivial

/-- Run 11 is still in its graph call when the sweeper fails job 2, an
operator retries it and worker 3 starts run 31 on it; then run 11 ends
well and completes the job. -/
def overtaken : List Action :=
  firstStart ++
  [.advance 1 .ok, .advance 1 .ok, .advance 1 .ok,
    .tick 1801, .start 0 .reapStuck, .advance 0 .ok,
    .start 0 (.retry 2), .advance 0 .ok, .advance 0 .ok,
    .start 0 .dispatchOnce, .advance 0 .ok, .advance 0 (.locked []),
    .advance 0 .ok, .advance 0 .ok, .advance 0 .ok,
    .deliver 3 1, .advance 3 (.fresh [30, 31] "b"),
    .advance 1 (.output ⟨[], none⟩), .advance 1 (.fresh [] ""),
    .advance 1 (.interrupts []), .advance 1 .ok, .advance 1 .ok]

end LegalBot
