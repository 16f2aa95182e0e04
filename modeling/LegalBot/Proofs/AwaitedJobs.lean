/-
A job in `awaiting_human` waits for a request somebody can answer.

The pause of a pipeline run is three commits: the run's mark, the
request, the job's transition. From the second on an operator can answer,
and the third does not look whether somebody did.

# What goes wrong

- The answer comes between the second and the third commit: `resume_run`
  finds the job in `processing`, logs that and goes on; then the third
  commit moves the job to `awaiting_human`, and the end of the resumed
  run, guarded by `processing`, fails.
- The second reading of the checkpoint opens no request, or finds one of
  a follow-up run: the job waits all the same.
- A request expires, or the `resume_run` of an answer is lost: the job
  stays.

# The invariant

Whenever the job waits, or a call is about to make it wait, one of its
pipeline runs has a pending request, or a `resume_run` of one is on its
way to the transition back (`AwaitedJobs`).
-/
import LegalBot.Orchestrator.Owed

namespace LegalBot

open Relational (HasKey Table)

-- ============================================================== statements

/-- The job a message is for. -/
def Message.job (db : Db) : Message → Option Uuid
  | .runPipeline j => some j
  | .continueSession r | .resumeRun r _ _ | .graphIndexRun r => runJob db r

/-- The job a worker executes a task of. -/
def Worker.job (db : Db) : Worker → Option Uuid
  | .done => none
  | .runPipeline j | .release j => some j
  | .continueSession r | .resumeRun r _ _ | .graphIndexRun r => runJob db r
  | .invoke inv _ _ => runJob db inv.runId

/-- A worker task of the job is queued or executing. -/
def State.JobBusy (s : State) (j : Uuid) : Prop :=
  (∃ mid m, s.sent[mid]? = some m ∧ mid ∉ s.acked ∧ m.job s.db = some j)
    ∨ (∃ tid m, (s.tasks tid).pc = .handler (.publish m)
      ∧ m.job s.db = some j)
    ∨ ∃ tid w, (s.tasks tid).pc = .worker w ∧ w.job s.db = some j

/-- A request is pending on a session of the job. -/
def HasRequest (db : Db) (j : Uuid) : Prop :=
  ∃ i session, db.interrupts.get i.id = some i ∧ i.status = .pending
    ∧ db.sessions.get i.sessionId = some session ∧ session.jobId = j

/-- No job is stranded in `awaiting_human`. -/
def NoneStranded (s : State) : Prop :=
  ∀ j, jobState s.db j = some .awaitingHuman → ¬ s.JobBusy j →
    HasRequest s.db j

/-- A pipeline run of the job. -/
def PipelineOf (db : Db) (rid j : Uuid) : Prop :=
  ∃ run, db.runs.get rid = some run ∧ run.kind = .pipeline
    ∧ run.jobId = j

/-- A pipeline run of the job has a pending request. -/
def Asked (db : Db) (j : Uuid) : Prop :=
  ∃ rid i, PipelineOf db rid j ∧ Asks db rid i

/-- A `resume_run` of one is published, delivered or executed next. -/
def State.Coming (s : State) (j : Uuid) : Prop :=
  ∃ rid value k, PipelineOf s.db rid j
    ∧ s.Waits (.resumeRun rid value k)

/-- A call of one is about to move the job to `awaiting_human`. -/
def State.Pausing (s : State) (j : Uuid) : Prop :=
  ∃ tid inv slot, (s.tasks tid).pc = .worker (.invoke inv slot .pauseJob)
    ∧ PipelineOf s.db inv.runId j

/-- The job waits, or is about to. -/
def State.Needs (s : State) (j : Uuid) : Prop :=
  jobState s.db j = some .awaitingHuman ∨ s.Pausing j

/-- The condition on a step. -/
structure KeepsAwaited (env : Env) (a : Action) (s : State) : Prop where
  expires : committing env a s = some .expireStalled →
    ∀ j, s.Needs j → s.Coming j ∨ ∃ rid i, PipelineOf s.db rid j
      ∧ Asks s.db rid i ∧ isStalled s.now i = false
  resumes : ∀ rid, committing env a s = some (.resumeTransition rid) →
    ∀ j, PipelineOf s.db rid j → s.Pausing j → Asked s.db j
  reads : ∀ tid reply inv slot, a = .advance tid reply →
    (s.tasks tid).pc = .worker (.invoke inv slot .readInterrupts) →
    ∀ j, PipelineOf s.db inv.runId j → ¬ Asked s.db j → ¬ s.Coming j →
    (s.tasks tid).pc.Pursues s.db reply
  delivers : ∀ j rid value k, s.Needs j → ¬ Asked s.db j →
    PipelineOf s.db rid j → KeepsMessage (.resumeRun rid value k) a s

/-- The invariant. -/
def AwaitedJobs (s : State) : Prop :=
  ∀ j, s.Needs j → Asked s.db j ∨ s.Coming j

-- ============================================================== the tables

section Tables

variable {env : Env} {G : Action → State → Prop} {s s' : State}
  {a : Action} {j rid : Uuid}

theorem pipelineOf_step (h : apply env a s = some s')
    (hp : PipelineOf s.db rid j) : PipelineOf s'.db rid j := by
  obtain ⟨run, hrun, hkind, hjob⟩ := hp
  obtain ⟨run', hrun', hmove⟩ := apply_run h hrun
  exact ⟨run', hrun', hmove.kind.trans hkind, hmove.jobId.trans hjob⟩

/-- A run that was there was a pipeline run then. -/
theorem pipelineOf_before (h : apply env a s = some s')
    (hp : PipelineOf s'.db rid j) {run : Run}
    (hrun : s.db.runs.get rid = some run) : PipelineOf s.db rid j := by
  obtain ⟨run₁, hrun₁, hkind, hjob⟩ := hp
  obtain ⟨run', hrun', hmove⟩ := apply_run h hrun
  rw [hrun'] at hrun₁
  injection hrun₁ with hrun₁
  subst hrun₁
  exact ⟨run, hrun, hmove.kind.symm.trans hkind,
    hmove.jobId.symm.trans hjob⟩

theorem runJob_of_pipelineOf (hp : PipelineOf s.db rid j) :
    runJob s.db rid = some j := by
  obtain ⟨run, hrun, -, hjob⟩ := hp
  unfold runJob
  rw [hrun, ← hjob]
  rfl

/-- Only the last transaction of a pause moves a job to
`awaiting_human`. -/
theorem jobMove_awaiting {tx : Tx} {now : Time} {db : Db} {f : JobState}
    (h : tx.jobMove now db j f .awaitingHuman) :
    ∃ sid rid, tx = .pauseJob sid rid
      ∧ (db.runs.get rid).map (·.kind) = some .pipeline
      ∧ jobOf db sid = some j := by
  cases tx with
  | pauseJob sid rid => exact ⟨sid, rid, rfl, h.1⟩
  | reapStuck =>
      rcases h with ⟨-, h⟩ | ⟨-, h⟩
      · cases h
      · cases h
  | upsert mapped owner itemId jobId ids => cases h.2
  | dispatchOnce limit locked => cases h.2.2
  | retry job => cases h.2.2
  | cancel job reason => cases h.2.2
  | archive job => cases h.2.2
  | markFailed k f' error errorKind => cases h.2.2
  | startPipeline k sid rid hex => cases h.2.2
  | resumeTransition rid => cases h.2.2
  | finalizeJob sid rid => cases h.2.2
  | failJob rid exc => cases h.2.2
  | _ => cases h

/-- A job that comes to wait is moved by a call of one of its pipeline
runs. -/
theorem awaiting_origin (hr : Reaches env G s)
    (h : apply env a s = some s')
    (hj : jobState s'.db j = some .awaitingHuman) : s.Needs j := by
  rcases apply_effects h with hdb | ⟨tx, htx, hc⟩
  · exact Or.inl (hdb ▸ hj)
  obtain ⟨row', hrow', hst'⟩ := Option.map_eq_some_iff.mp hj
  rcases (commit_effects hc).jobs.origin hrow' with
    ⟨row, hrow, hmove⟩ | ⟨-, hnew⟩
  · rcases hmove.state with heq | hmoved
    · refine Or.inl ?_
      unfold jobState
      rw [hrow, ← hst', heq]
      rfl
    · rw [hst', show row.id = j from Table.key_of_get hrow] at hmoved
      obtain ⟨sid, rid, rfl, hkind, hjob⟩ := jobMove_awaiting hmoved
      obtain ⟨tid, reply, ok, raised, rfl, hreq⟩ := committing_request htx
      obtain ⟨inv, slot, stage, ok₀, raised₀, hpc, hr₀, rfl⟩ :=
        request_call_commit hreq rfl
      obtain ⟨rfl, rfl, rfl⟩ := Stage.request_pauseJob hr₀
      obtain ⟨run, hrun, hsid⟩ := invocation_linked hr hpc
      obtain ⟨session, hsession, hlinked⟩ :=
        reaches_runsLinked hr _ _ hrun
      refine Or.inr ⟨tid, inv, slot, hpc, run, hrun, ?_, ?_⟩
      · rw [hrun] at hkind
        exact Option.some.inj hkind
      · unfold jobOf at hjob
        rw [← hsid, hsession] at hjob
        rw [← hlinked]
        exact Option.some.inj hjob
  · rw [hst'] at hnew
    cases hnew

/-- A committed `resume_run` leaves its job out of `awaiting_human`. -/
theorem resumeTransition_leaves {db db' : Db} {now : Time}
    (hl : RunsLinked db) (hp : PipelineOf db rid j)
    (h : resumeTransition db now rid = .ok db') :
    jobState db' j ≠ some .awaitingHuman := by
  obtain ⟨run, hrun, hkind, hjob⟩ := hp
  obtain ⟨run₁, session, job, hrun₁, hsession, hjob₁, rfl⟩ :=
    resumeTransition_ok h
  rw [hrun] at hrun₁
  injection hrun₁ with hrun₁
  subst hrun₁
  obtain ⟨session₁, hsession₁, hlinked⟩ := hl rid run hrun
  rw [hsession] at hsession₁
  injection hsession₁ with hsession₁
  subst hsession₁
  rw [if_pos hkind, hlinked, hjob]
  rw [hjob] at hjob₁
  intro hawait
  obtain ⟨row, hrow, hst⟩ := Option.map_eq_some_iff.mp hawait
  cases ht : transition db.jobs now j .awaitingHuman .processing
      JobExtra.none with
  | ok jobs' =>
      rw [ht] at hrow
      obtain ⟨-, row₀, -, -, hget⟩ := transition_ok ht
      have hmoved : jobs'.get j = some row := hrow
      rw [hget j, if_pos rfl] at hmoved
      injection hmoved with hmoved
      rw [← hmoved] at hst
      cases hst
  | error e =>
      rw [ht] at hrow
      have hkept : db.jobs.get j = some row := hrow
      obtain ⟨jobs', ht'⟩ := (transition_succeeds hkept
        (by decide : (JobState.awaitingHuman, JobState.processing)
          ∈ allowedTransitions) now JobExtra.none).mpr hst
      rw [ht] at ht'
      cases ht'

end Tables

-- ================================================================== a step

section Step

variable {env : Env} {G : Action → State → Prop} {s s' : State}
  {a : Action} {j : Uuid}

/-- A step that commits publishes nothing. -/
theorem keepsMessage_of_committing {tx : Tx} {m : Message}
    (h : committing env a s = some tx) : KeepsMessage m a s := by
  obtain ⟨tid, reply, ok, raised, rfl, hreq⟩ := committing_request h
  cases reply with
  | raised e =>
      intro hpc
      unfold State.request at hreq
      rw [hpc] at hreq
      cases hreq
  | _ => trivial

/-- The `resume_run` of a pipeline run goes on coming, or begins. -/
theorem coming_step (hr : Reaches env G s) (h : apply env a s = some s')
    (hc : s.Coming j)
    (hg : ∀ rid value k, PipelineOf s.db rid j →
      KeepsMessage (.resumeRun rid value k) a s) :
    s'.Coming j ∨ ∃ tid reply r rid value k, a = .advance tid reply
      ∧ PipelineOf s.db rid j
      ∧ (s.tasks tid).pc = .worker (.resumeRun rid value k)
      ∧ s.request env tid reply = some r
      ∧ s' = s.perform env tid r := by
  obtain ⟨rid, value, k, hp, hw⟩ := hc
  rcases waits_step (reaches_brokerBounded hr) h (hg rid value k hp) hw with
    hw' | ⟨tid, reply, r, ha, hpc, hreq, hs'⟩
  · exact Or.inl ⟨rid, value, k, pipelineOf_step h hp, hw'⟩
  · exact Or.inr ⟨tid, reply, r, rid, value, k, ha, hp, hpc, hreq, hs'⟩

/-- A pending request stays, is answered by a `resume_run`, or
expires. -/
theorem asked_step (hr : Reaches env G s) (h : apply env a s = some s')
    {rid : Uuid} {i : InterruptRequest} (hp : PipelineOf s.db rid j)
    (hi : Asks s.db rid i) :
    Asked s'.db j ∨ s'.Coming j
      ∨ (committing env a s = some .expireStalled
        ∧ isStalled s.now i = true) := by
  have hp' := pipelineOf_step h hp
  rcases asks_step hr h hi with
    ⟨i', hi'⟩ | ⟨tid, value, k, hpc⟩ | hexpires
  · exact Or.inl ⟨rid, i', hp', hi'⟩
  · refine Or.inr (Or.inl ⟨rid, value, some k, hp', Or.inr ⟨tid, ?_⟩⟩)
    rw [hpc]
    rfl
  · exact Or.inr (Or.inr hexpires)

/-- A call that is about to make the job wait was so before, or comes
there from the reading of its requests or the insert of one. -/
theorem pausing_origin (hr : Reaches env G s)
    (h : apply env a s = some s') (hp : s'.Pausing j) :
    s.Pausing j
      ∨ (Asked s'.db j ∧ ∀ rid, committing env a s
        ≠ some (.resumeTransition rid))
      ∨ ∃ tid reply inv slot, a = .advance tid reply
        ∧ s.request env tid reply
          = some (.goto (.worker (.invoke inv slot .pauseJob)))
        ∧ (s.tasks tid).pc = .worker (.invoke inv slot .readInterrupts)
        ∧ PipelineOf s.db inv.runId j
        ∧ ((∃ e, reply = .raised e) ∨ ∃ values,
          reply = .interrupts values
            ∧ persistInterrupt s.db inv.sessionId values = .pauseJob) := by
  obtain ⟨tid, inv, slot, hpc, hrun⟩ := hp
  rcases apply_call h hpc with
    heq | ⟨reply, w, r, rfl, hw, hr₀, rfl, ⟨stage₀, r₀, rfl, hlive, hreq,
      rfl, hl⟩ | ⟨hstage, -⟩⟩
  · rw [heq] at hpc
    obtain ⟨run, hget, -⟩ := invocation_linked hr hpc
    exact Or.inl ⟨tid, inv, slot, hpc, pipelineOf_before h hrun hget⟩
  · obtain ⟨run, hget, -⟩ := invocation_linked hr hw
    have hbefore := pipelineOf_before h hrun hget
    rcases Stage.lands_pauseJob hreq hl with
      ⟨rfl, rfl, hread⟩ | ⟨id, kind, payload, schema, db', rfl, hc⟩
    · refine Or.inr (Or.inr ⟨tid, reply, inv, slot, rfl, ?_, hw, hbefore,
        hread⟩)
      unfold State.request Pc.request
      rw [hw]
      simp only [hr₀]
      rfl
    · refine Or.inr (Or.inl ⟨⟨inv.runId, newInterrupt env.cfg id
        inv.sessionId (some inv.runId) kind payload schema none s.now,
        hrun, ?_, rfl, rfl⟩, fun k htx => ?_⟩)
      · have hdb' : (s.perform env tid (Request.map Pc.worker
            (Request.map (Worker.invoke inv slot)
              (Request.commit _ Stage.pauseJob Stage.failRun)))).db
            = db' := (perform_commit hc).1
        obtain ⟨interrupts, hins, hdb⟩ :=
          Option.map_eq_some_iff.mp (flushed_ok.mp hc)
        rw [hdb', ← hdb]
        exact (Table.get_insert hins _).trans (if_pos rfl)
      · unfold committing State.request Pc.request at htx
        simp only [hw, hr₀, Option.map_some, Request.map] at htx
        cases htx
  · cases hstage

/-- When the transition back is made, the job needs nothing any more. -/
theorem resumed_step (hr : Reaches env G s)
    (h : apply env a s = some s') (hg : KeepsAwaited env a s)
    (ha : ¬ Asked s.db j) {tid : Nat} {reply : Reply} {r : Request Pc}
    {rid : Uuid} {value : Json} {k : Option Uuid}
    (hact : a = .advance tid reply) (hp : PipelineOf s.db rid j)
    (hpc : (s.tasks tid).pc = .worker (.resumeRun rid value k))
    (hreq : s.request env tid reply = some r)
    (hs' : s' = s.perform env tid r) : ¬ s'.Needs j := by
  have hl := reaches_runsLinked hr
  obtain ⟨run, hrun, hkind, hjob⟩ := hp
  obtain ⟨db', hc⟩ : ∃ db', Tx.commit env.cfg s.now s.db
      (.resumeTransition rid) = .ok db' :=
    resumeTransition_commits hl (reaches_sessionsLinked hr) hrun
  -- the request is the transaction of `_resume_run`
  have hr₀ : r = .commit (.resumeTransition rid)
      (.worker (.invoke ⟨rid, run.sessionId, value,
        jobHasAttachments s.db run.jobId, k⟩ none .enter))
      fun _ => .worker .done := by
    unfold State.request at hreq
    rw [hpc] at hreq
    simp only [Pc.request, Worker.request, hrun, Option.map_some] at hreq
    injection hreq with hreq
    exact hreq.symm
  subst hr₀
  have hdb : s'.db = db' := by
    rw [hs']
    exact (perform_commit hc).1
  rintro (hawait | hpausing)
  · rw [hdb] at hawait
    exact resumeTransition_leaves hl ⟨run, hrun, hkind, hjob⟩ hc hawait
  · have htx : committing env a s = some (.resumeTransition rid) := by
      unfold committing
      rw [hact]
      simp only [hreq]
    rcases pausing_origin hr h hpausing with
      hbefore | ⟨-, hno⟩ | ⟨tid', reply', inv, slot, hact', hreq', -⟩
    · exact ha (hg.resumes rid htx j ⟨run, hrun, hkind, hjob⟩ hbefore)
    · exact hno rid htx
    · rw [hact] at hact'
      injection hact' with ht hrep
      rw [← ht, ← hrep, hreq] at hreq'
      cases hreq'

/-- A job in need keeps somebody who answers for it. -/
theorem AwaitedJobs.kept (h : AwaitedJobs s) (hr : Reaches env G s)
    (hg : KeepsAwaited env a s) (hstep : apply env a s = some s')
    (hn : s.Needs j) (hn' : s'.Needs j) :
    Asked s'.db j ∨ s'.Coming j := by
  by_cases ha : Asked s.db j
  · obtain ⟨rid, i, hp, hi⟩ := ha
    rcases asked_step hr hstep hp hi with
      hasked | hcoming | ⟨htx, -⟩
    · exact Or.inl hasked
    · exact Or.inr hcoming
    · rcases hg.expires htx j hn with hcoming | ⟨rid', i', hp', hi', hst⟩
      · rcases coming_step hr hstep hcoming
          (fun _ _ _ _ => keepsMessage_of_committing htx) with
          hc | ⟨tid, reply, r, rid', value, k, rfl, -, hpc, -, -⟩
        · exact Or.inr hc
        · -- an expiry pass is no worker's step
          obtain ⟨tid', _, hd, _, _, hact, hhd, -⟩ :=
            committing_handler htx rfl
          injection hact with ht
          rw [← ht, hpc] at hhd
          cases hhd
      · -- the pass leaves a request that is not stalled
        rcases asked_step hr hstep hp' hi' with
          hasked | hcoming | ⟨-, hst'⟩
        · exact Or.inl hasked
        · exact Or.inr hcoming
        · rw [hst] at hst'
          cases hst'
  · have hcoming : s.Coming j := (h j hn).resolve_left ha
    rcases coming_step hr hstep hcoming
      (fun rid value k hp => hg.delivers j rid value k hn ha hp) with
      hc | ⟨tid, reply, r, rid, value, k, hact, hp, hpc, hreq, hs'⟩
    · exact Or.inr hc
    · exact absurd hn' (resumed_step hr hstep hg ha hact hp hpc hreq hs')

/-- So does a job that comes into need. -/
theorem AwaitedJobs.begun (hr : Reaches env G s)
    (hg : KeepsAwaited env a s) (hstep : apply env a s = some s')
    (hn : ¬ s.Needs j) (hn' : s'.Needs j) :
    Asked s'.db j ∨ s'.Coming j := by
  rcases hn' with hawait | hpausing
  · exact absurd (awaiting_origin hr hstep hawait) hn
  rcases pausing_origin hr hstep hpausing with
    hbefore | ⟨hasked, -⟩
      | ⟨tid, reply, inv, slot, rfl, hreq, hpc, hp, hread⟩
  · exact absurd (Or.inr hbefore) hn
  · exact Or.inl hasked
  -- the reading opened no request: there is one already, or an answer
  have hdb : s'.db = s.db := by
    obtain ⟨r, hr₀, rfl⟩ := Option.map_eq_some_iff.mp hstep
    rw [hreq] at hr₀
    injection hr₀ with hr₀
    subst hr₀
    exact continueAt_db _
  by_cases ha : Asked s.db j
  · rw [hdb]
    exact Or.inl ha
  by_cases hc : s.Coming j
  · have hkeeps : ∀ m, KeepsMessage m (.advance tid reply) s := by
      intro m
      cases reply with
      | raised e =>
          intro hpub
          rw [hpc] at hpub
          cases hpub
      | _ => trivial
    rcases coming_step hr hstep hc (fun _ _ _ _ => hkeeps _) with
      hc' | ⟨tid', _, _, _, _, _, he, -, hentry, -⟩
    · exact Or.inr hc'
    · injection he with he
      rw [← he, hpc] at hentry
      cases hentry
  · have hpursues := hg.reads tid reply inv slot rfl hpc j hp ha hc
    rw [hpc] at hpursues
    rcases hread with ⟨e, rfl⟩ | ⟨values, rfl, hpause⟩
    · exact absurd rfl (hpursues.1 e)
    · exact absurd hpause (opensRequest_pauses (hpursues.2 values rfl))

/-- Every step that meets the condition keeps the invariant. -/
theorem reaches_awaitedJobs (h : Reaches env (KeepsAwaited env) s) :
    AwaitedJobs s := by
  refine Lts.Reachable.invariant (P := AwaitedJobs) ?_ ?_ h
  · rintro j (hawait | ⟨tid, inv, slot, hpc, -⟩)
    · cases hawait
    · cases hpc
  · intro s a s' hr hj hg hstep j hn'
    by_cases hn : s.Needs j
    · exact hj.kept hr hg hstep hn hn'
    · exact AwaitedJobs.begun hr hg hstep hn hn'

end Step

/-- A `resume_run` that is on its way is a task of the job. -/
theorem jobBusy_of_coming {s : State} {j : Uuid} (h : s.Coming j) :
    s.JobBusy j := by
  obtain ⟨rid, value, k, hp, hw⟩ := h
  have hjob : (Message.resumeRun rid value k).job s.db = some j :=
    runJob_of_pipelineOf hp
  rcases hw with ⟨mid, hsent, hack, -⟩ | ⟨tid, hc⟩
  · exact Or.inl ⟨mid, _, hsent, hack, hjob⟩
  · rcases carries_cases hc with hpc | hpc
    · exact Or.inr (Or.inl ⟨tid, _, hpc, hjob⟩)
    · exact Or.inr (Or.inr ⟨tid, _, hpc, hjob⟩)

theorem State.Quiet.not_jobBusy {s : State} (h : s.Quiet) (j : Uuid) :
    ¬ s.JobBusy j := by
  rintro (⟨mid, m, hsent, hack, -⟩ | ⟨tid, m, hpc, -⟩ | ⟨tid, w, hpc, hw⟩)
  · exact hack (h.sent_acked hsent)
  · exact h.not_publishing hpc
  · rw [h.worker_done hpc] at hw
    cases hw

/-- The request of a pipeline run is pending on a session of its job. -/
theorem hasRequest_of_asked {db : Db} {j : Uuid} (hr : RunsLinked db)
    (hl : RequestsLinked db) (h : Asked db j) : HasRequest db j := by
  obtain ⟨rid, i, ⟨run, hrun, -, hjob⟩, hi⟩ := h
  obtain ⟨run', hrun', hsid⟩ := hl hi.stored rid hi.runId
  rw [hrun] at hrun'
  injection hrun' with hrun'
  obtain ⟨session, hsession, hlinked⟩ := hr rid run hrun
  rw [hrun', hsid] at hsession
  exact ⟨i, session, hi.stored, hi.pending, hsession,
    hlinked.trans hjob⟩

/-- In every run whose steps all meet the condition, no job is stranded
in `awaiting_human`. -/
theorem none_stranded {env : Env} {s : State}
    (h : Reaches env (KeepsAwaited env) s) : NoneStranded s := by
  intro j hawait hidle
  rcases reaches_awaitedJobs h j (Or.inl hawait) with hasked | hcoming
  · exact hasRequest_of_asked (reaches_runsLinked h)
      (reaches_requestsLinked h) hasked
  · exact absurd (jobBusy_of_coming hcoming) hidle

-- =============================================================== scenarios

/-- No failure, no expiry pass and no `resume_run`. -/
def Unanswered (env : Env) (a : Action) (s : State) : Prop :=
  (match committing env a s with
    | some .expireStalled | some (.resumeTransition _) => False
    | _ => True)
  ∧ Calm a s

instance (env : Env) (a : Action) (s : State) :
    Decidable (Unanswered env a s) := by
  refine @instDecidableAnd _ _ ?_ inferInstance
  generalize committing env a s = tx
  induction tx using Option.casesOn with
  | none => infer_instance
  | some tx => induction tx using Tx.casesOn <;> infer_instance

theorem keepsAwaited_of_unanswered {env : Env} {a : Action} {s : State}
    (h : Unanswered env a s) : KeepsAwaited env a s where
  expires htx := by
    have hno := h.1
    rw [htx] at hno
    exact hno.elim
  resumes rid htx := by
    have hno := h.1
    rw [htx] at hno
    exact hno.elim
  reads tid reply inv slot ha _ _ _ _ _ := by
    subst ha
    exact h.2.pursues
  delivers _ _ _ _ _ _ _ := h.2.keepsMessage

/-- Job 2 waits for the answer to the request of its run 11. -/
theorem asked_not_stranded : ∃ s,
    Lts.run (Lts.guarded (apply Env.default) (Unanswered Env.default))
      State.init asked = some s
    ∧ jobState s.db 2 = some .awaitingHuman ∧ NoneStranded s := by
  obtain ⟨s, hs⟩ := Option.isSome_iff_exists.mp
    (show (Lts.run (Lts.guarded (apply Env.default)
      (Unanswered Env.default)) State.init asked).isSome by decide +kernel)
  have hawait : (Lts.run (Lts.guarded (apply Env.default)
      (Unanswered Env.default)) State.init asked).map
      (fun s => jobState s.db 2) = some (some .awaitingHuman) := by
    decide +kernel
  rw [hs] at hawait
  exact ⟨s, hs, Option.some.inj hawait, none_stranded
    ((Lts.reachable_of_guarded_run .init hs).mono fun _ _ =>
      keepsAwaited_of_unanswered)⟩

/-- Request 30 is answered, and its run resumed, while worker 1 is about
to move job 2 to `awaiting_human`; then both workers go to their end. -/
def answeredEarly : List Action :=
  firstStart ++
  [.advance 1 .ok, .advance 1 .ok, .advance 1 .ok,
    .advance 1 (.output ⟨[], none⟩), .advance 1 (.fresh [] ""),
    .advance 1 (.interrupts [.obj []]), .advance 1 .ok,
    .advance 1 (.interrupts [.obj []]), .advance 1 (.fresh [30] "")] ++
  answered ++
  [.advance 1 .ok, .advance 1 .ok, .advance 1 .ok,
    .advance 3 (.output ⟨[], none⟩), .advance 3 (.fresh [] ""),
    .advance 3 (.interrupts []), .advance 3 .ok, .advance 3 .ok,
    .advance 3 .ok, .advance 3 .ok, .advance 3 .ok]

/-- The job waits for a human, and there is nothing to answer. -/
theorem answered_early_strands :
    ¬ ∀ s, Reaches Env.default Lts.Always s → NoneStranded s := by
  intro h
  obtain ⟨s, hs⟩ := Option.isSome_iff_exists.mp
    (show (Lts.run (apply Env.default) State.init answeredEarly).isSome by
      decide +kernel)
  have hend : (Lts.run (apply Env.default) State.init answeredEarly).map
      (fun s => (jobState s.db 2,
        s.db.interrupts.rows.all (·.status ≠ .pending),
        (List.range 4).all (fun tid => (s.tasks tid).pc.isIdle),
        (List.range s.sent.length).all (· ∈ s.acked)))
      = some (some .awaitingHuman, true, true, true) := by
    decide +kernel
  rw [hs] at hend
  injection hend with hend
  injection hend with hawait hend
  injection hend with hnone hend
  injection hend with hidle hacked
  have hquiet : s.Quiet := quiet_of_run hs (by decide) hidle hacked
  obtain ⟨i, session, hi, hp, -⟩ :=
    h s (Lts.reachable_of_run .init hs) 2 hawait (hquiet.not_jobBusy 2)
  -- no request is pending
  have hclosed := List.all_eq_true.mp hnone i (Table.get_some hi).1
  exact of_decide_eq_true hclosed hp

end LegalBot
