/-
What a cancelled job still starts.

`JobService.cancel` moves the job to `failed` and touches no other row.
`_run_pipeline` is stopped by its guarded transition; `_resume_run` logs
the failed one and goes on.

# What goes wrong

A request of the job that is pending at the cancellation is answered
later, or its answer is already on its way: the task resumes the graph
of a cancelled job. A task that is past its transaction calls the graph
whatever happened to the job in between.

# The two phases

`Clear` is the condition at the cancellation. From the commit on, while
no retry moves the job back, `Stopped` is an invariant: the job stays
`failed` or `archived`, and neither a request of the job nor an answer to
one nor a call that is still before its graph call appears.
-/
import LegalBot.Orchestrator.Owed

namespace LegalBot

open Relational (HasKey Table)

-- ============================================================== statements

/-- A request of a run of the job. -/
def JobRequest (db : Db) (j k : Uuid) : Prop :=
  ∃ row r, db.interrupts.get k = some row ∧ row.runId = some r
    ∧ runJob db r = some j

/-- The step is the graph call of a `run_pipeline` of the job, or of a
`resume_run` that answers one of the requests. -/
def CallsGraph (env : Env) (requests : Uuid → Prop) (j : Uuid)
    (a : Action) (s : State) : Prop :=
  ∃ tid reply inv slot next, a = .advance tid reply
    ∧ (s.tasks tid).pc = .worker (.invoke inv slot .ainvoke)
    ∧ s.request env tid reply
      = some (.note (.invoked inv.runId inv.resumes inv.interrupt) next)
    ∧ (slot = some j ∨ ∃ k, inv.interrupt = some k ∧ requests k)

/-- The step is no operator retry that moves the job back. -/
def NotRetried (env : Env) (j : Uuid) (a : Action) (s : State) : Prop :=
  match committing env a s with
  | some (.retry job) => job.id = j → jobState s.db j ≠ some .failed
  | _ => True

/-- From this state on, and until a retry, no step calls the graph for
the job. -/
def CancellationHolds (env : Env) (j : Uuid) (s : State) : Prop :=
  ∀ s', Lts.Reachable (apply env) (NotRetried env j) s s' →
    ∀ a s'', NotRetried env j a s' → apply env a s' = some s'' →
      ¬ CallsGraph env (JobRequest s.db j) j a s'

/-- The message is in the broker, or an actor carries it. -/
def State.Live (s : State) (m : Message) : Prop :=
  (∃ mid, s.sent[mid]? = some m ∧ mid ∉ s.acked)
    ∨ ∃ tid, (s.tasks tid).pc.carries = some m

/-- No such request is pending, being resolved or answered, and no task
of the job is between its transaction and its graph call. -/
structure Clear (requests : Uuid → Prop) (j : Uuid) (s : State) :
    Prop where
  closed : ∀ {k row}, requests k → s.db.interrupts.get k = some row →
    row.status ≠ .pending
  resolving : ∀ {tid sid current resolution value resolvedBy},
    (s.tasks tid).pc = .handler
      (.resolveUpdate sid current resolution value resolvedBy) →
    ¬ requests current.id
  answers : ∀ {k r value}, requests k →
    ¬ s.Live (.resumeRun r value (some k))
  calls : ∀ {tid inv slot stage},
    (s.tasks tid).pc = .worker (.invoke inv slot stage) →
    stage.beforeCall = true →
    slot ≠ some j ∧ ∀ k, inv.interrupt = some k → ¬ requests k

/-- What holds from the cancellation on. -/
structure Stopped (requests : Uuid → Prop) (j : Uuid) (s : State) :
    Prop extends Clear requests j s where
  stored : ∀ {k}, requests k → ∃ row, s.db.interrupts.get k = some row
  state : jobState s.db j = some .failed
    ∨ jobState s.db j = some .archived

-- ================================================================== a step

section Step

variable {env : Env} {G : Action → State → Prop} {s s' : State}
  {a : Action} {requests : Uuid → Prop} {j : Uuid}

/-- A message is live by being sent, published or answered. -/
theorem live_origin (h : apply env a s = some s') {r k : Uuid}
    {value : Json} (hl : s'.Live (.resumeRun r value (some k))) :
    s.Live (.resumeRun r value (some k))
      ∨ ∃ tid sid current resolution resolvedBy,
        (s.tasks tid).pc = .handler
          (.resolveUpdate sid current resolution value resolvedBy)
        ∧ current.id = k := by
  rcases hl with ⟨mid, hsent, hack⟩ | ⟨tid, hc⟩
  · have hack' : mid ∉ s.acked := by
      intro hin
      apply hack
      rcases apply_acked h with hsame | ⟨_, _, _, _, -, -, -, -, -, hins⟩
      · rw [hsame]
        exact hin
      · rw [hins]
        exact Finset.mem_insert_of_mem hin
    rcases apply_sent h with heq | ⟨tid, reply, m, next, -, hreq, -, heq⟩
    · rw [heq] at hsent
      exact Or.inl (Or.inl ⟨mid, hsent, hack'⟩)
    · rw [heq] at hsent
      by_cases hlt : mid < s.sent.length
      · rw [List.getElem?_append_left hlt] at hsent
        exact Or.inl (Or.inl ⟨mid, hsent, hack'⟩)
      · -- the message was sent by its publisher
        rw [List.getElem?_append_right (by omega)] at hsent
        have hm : m = .resumeRun r value (some k) := by
          rw [List.getElem?_singleton] at hsent
          split at hsent
          · exact Option.some.inj hsent
          · cases hsent
        subst hm
        rcases request_cases hreq with
          ⟨hd, r₀, hpc, hr₀, hm⟩ | ⟨w, r₀, hpc, hr₀, hm⟩
        · cases r₀ with
          | send m₀ next₀ =>
              cases hm
              rcases Handler.request_send hr₀ with ⟨rfl, -⟩ | ⟨_, he⟩
              · refine Or.inl (Or.inr ⟨tid, ?_⟩)
                rw [hpc]
                rfl
              · cases he
          | _ => cases hm
        · cases r₀ with
          | send m₀ next₀ =>
              cases hm
              obtain ⟨_, he⟩ := Worker.request_send hr₀
              cases he
          | _ => cases hm
  · rcases carrying_origin h hc with
      hc | ⟨mid, rfl, hsent⟩ | ⟨reply, hd, r₀, -, hpc, hr₀, hl, -⟩
    · exact Or.inl (Or.inr ⟨tid, hc⟩)
    · obtain ⟨-, hack, -⟩ := deliver_sent h
      exact Or.inl (Or.inl ⟨mid, hsent, hack⟩)
    · obtain ⟨sid, current, resolution, by', iid, rfl, hid, -⟩ :=
        Handler.request_answer hr₀ hl
      exact Or.inr ⟨tid, sid, current, resolution, by', hpc, hid⟩

/-- A request that is closed stays closed. -/
theorem Clear.closed_step (h : Clear requests j s)
    (hstored : ∀ {k}, requests k → ∃ row, s.db.interrupts.get k = some row)
    (hstep : apply env a s = some s') {k : Uuid} {row' : InterruptRequest}
    (hk : requests k) (hrow' : s'.db.interrupts.get k = some row') :
    row'.status ≠ .pending := by
  obtain ⟨row, hrow⟩ := hstored hk
  rcases apply_effects hstep with hdb | ⟨tx, -, hc⟩
  · rw [hdb] at hrow'
    exact h.closed hk hrow'
  · obtain ⟨row₁, hrow₁, hmove⟩ := (commit_effects hc).interrupts.persists
      hrow
    rw [hrow'] at hrow₁
    injection hrow₁ with hrow₁
    subst hrow₁
    intro hp
    rw [hmove.status] at hp
    exact h.closed hk hrow (interruptStatus_pending hp).1

/-- An operator only comes to resolve a request that is pending. -/
theorem Clear.resolving_step (h : Clear requests j s)
    (hstep : apply env a s = some s') {tid : Nat} {sid : Uuid}
    {current : InterruptRequest} {resolution : InterruptResolution}
    {value : Json} {resolvedBy : Option String}
    (hpc : (s'.tasks tid).pc = .handler
      (.resolveUpdate sid current resolution value resolvedBy)) :
    ¬ requests current.id := by
  rcases apply_handler hstep hpc rfl Handler.noConfusion with
    heq | ⟨reply, hd, r, -, -, hr, -, -, hl⟩
  · rw [heq] at hpc
    exact h.resolving hpc
  · obtain ⟨-, hcheck, -⟩ := Handler.request_resolveUpdate hr hl
    obtain ⟨hcur, -⟩ := checkResolution_ok hcheck
    obtain ⟨hget, -, hp⟩ := currentForSession_some hcur
    exact fun hk => h.closed hk hget hp

/-- A job that is not dispatched starts no pipeline. -/
theorem startPipeline_dispatched {db db' : Db} {now : Time}
    {sid rid : Uuid} {hex : String}
    (h : startPipeline db now j sid rid hex = .ok db') :
    jobState db j = some .dispatched := by
  obtain ⟨job, jobs, _, _, -, hjobs, -, -, -⟩ := startPipeline_ok h
  obtain ⟨-, row, hrow, hst, -⟩ := transition_ok hjobs
  unfold jobState
  rw [hrow, ← hst]
  rfl

/-- What a `run_pipeline` asks for. -/
theorem runPipeline_committing {tid : Nat} {reply : Reply}
    {r : Request Worker}
    (hpc : (s.tasks tid).pc = .worker (.runPipeline j))
    (hr : (Worker.runPipeline j).request env s.db reply = some r) :
    ∃ sid rid hex, committing env (.advance tid reply) s
      = some (.startPipeline j sid rid hex) := by
  have hr' := hr
  simp only [Worker.request] at hr'
  split at hr'
  · rename_i sid rid _ hex
    injection hr' with hr'
    subst hr'
    refine ⟨sid, rid, hex, ?_⟩
    unfold committing State.request Pc.request
    simp only [hpc, hr, Option.map_some, Request.map]
  · cases hr'

/-- No call of the job begins, unless its `run_pipeline` starts one. -/
theorem Clear.calls_step (h : Clear requests j s)
    (hno : ∀ sid rid hex, committing env a s
      = some (.startPipeline j sid rid hex) →
      jobState s.db j ≠ some .dispatched)
    (hstep : apply env a s = some s') {tid : Nat} {inv : Invocation}
    {slot : Option Uuid} {stage : Stage}
    (hpc : (s'.tasks tid).pc = .worker (.invoke inv slot stage))
    (hbefore : stage.beforeCall = true) :
    slot ≠ some j ∧ ∀ k, inv.interrupt = some k → ¬ requests k := by
  rcases apply_call hstep hpc with
    heq | ⟨reply, w, r, rfl, hw, hr₀, -, ⟨stage₀, r₀, rfl, -, hreq, -,
      hl⟩ | ⟨-, henters⟩⟩
  · rw [heq] at hpc
    exact h.calls hpc hbefore
  · exact h.calls hw (Stage.request_beforeCall hreq (hl ▸ hbefore))
  · cases henters with
    | started k hex db' hc hfresh =>
        refine ⟨?_, fun k hk => ?_⟩
        · intro he
          injection he with he
          subst he
          obtain ⟨sid, rid, hex', htx⟩ := runPipeline_committing hw hr₀
          exact hno sid rid hex' htx (startPipeline_dispatched hc)
        · rw [hfresh] at hk
          cases hk
    | continued row found session hfresh =>
        refine ⟨(fun h => by cases h), fun k hk => ?_⟩
        rw [hfresh] at hk
        cases hk
    | resumed row db' found session hc =>
        refine ⟨(fun h => by cases h), fun k hk hreq => ?_⟩
        rw [hk] at hw
        exact h.answers hreq (Or.inr ⟨tid, by rw [hw]; rfl⟩)

/-- A step of which the job's `run_pipeline` starts nothing keeps the
requests closed and the calls away. -/
theorem Clear.step (h : Clear requests j s)
    (hstored : ∀ {k}, requests k → ∃ row, s.db.interrupts.get k = some row)
    (hno : ∀ sid rid hex, committing env a s
      = some (.startPipeline j sid rid hex) →
      jobState s.db j ≠ some .dispatched)
    (hstep : apply env a s = some s') : Clear requests j s' where
  closed hk hrow := h.closed_step hstored hstep hk hrow
  resolving hpc := h.resolving_step hstep hpc
  answers := by
    intro k r value hk hl
    rcases live_origin hstep hl with
      hl | ⟨tid, sid, current, resolution, by', hpc, hid⟩
    · exact h.answers hk hl
    · exact h.resolving hpc (hid ▸ hk)
  calls hpc hbefore := h.calls_step hno hstep hpc hbefore

/-- A failed job stays failed, or is archived for good. -/
theorem Stopped.state_step (h : Stopped requests j s)
    (hg : NotRetried env j a s) (hstep : apply env a s = some s') :
    jobState s'.db j = some .failed ∨ jobState s'.db j = some .archived := by
  rcases apply_effects hstep with hdb | ⟨tx, htx, hc⟩
  · rw [hdb]
    exact h.state
  have hrow : ∃ row, s.db.jobs.get j = some row := by
    rcases h.state with hst | hst
    · obtain ⟨row, hrow, -⟩ := Option.map_eq_some_iff.mp hst
      exact ⟨row, hrow⟩
    · obtain ⟨row, hrow, -⟩ := Option.map_eq_some_iff.mp hst
      exact ⟨row, hrow⟩
  obtain ⟨row, hrow⟩ := hrow
  obtain ⟨row', hrow', hmove⟩ := (commit_effects hc).jobs.persists hrow
  obtain ⟨row₁, hrow₁, hlogged⟩ := (commit_spec hc).jobs.persists hrow
  rw [hrow'] at hrow₁
  injection hrow₁ with hrow₁
  subst hrow₁
  have hid : row.id = j := Table.key_of_get hrow
  have hstate : row.state = .failed ∨ row.state = .archived := by
    rcases h.state with hst | hst
    · rw [jobState, hrow] at hst
      exact Or.inl (Option.some.inj hst)
    · rw [jobState, hrow] at hst
      exact Or.inr (Option.some.inj hst)
  have hafter : row'.state = .failed ∨ row'.state = .archived := by
    rcases hmove.state with heq | hm
    · rw [heq]
      exact hstate
    rcases hlogged.state with heq | ⟨hallowed, -⟩
    · rw [heq]
      exact hstate
    rcases hstate with hf | ha
    · rw [hf] at hallowed hm
      cases hs' : row'.state with
      | failed => exact Or.inl rfl
      | archived => exact Or.inr rfl
      | ready =>
          rw [hs'] at hm
          obtain ⟨job, rfl, hjob⟩ := jobMove_retry hm
          unfold NotRetried at hg
          rw [htx] at hg
          refine absurd ?_ (hg (hjob.trans hid))
          rw [jobState, hrow, ← hf]
          rfl
      | _ =>
          rw [hs'] at hallowed
          exact absurd hallowed (by decide)
    · rw [ha] at hallowed
      cases hs' : row'.state with
      | archived => exact Or.inr rfl
      | _ =>
          rw [hs'] at hallowed
          exact absurd hallowed (by decide)
  unfold jobState
  rw [hrow']
  exact hafter.imp (congrArg some) (congrArg some)

theorem Stopped.step (h : Stopped requests j s)
    (hg : NotRetried env j a s) (hstep : apply env a s = some s') :
    Stopped requests j s' where
  toClear := by
    refine h.toClear.step h.stored (fun sid rid hex _ hst => ?_) hstep
    rcases h.state with hf | ha
    · rw [hf] at hst
      cases hst
    · rw [ha] at hst
      cases hst
  stored hk := by
    obtain ⟨row, hrow⟩ := h.stored hk
    obtain ⟨row', hrow', -⟩ := apply_interrupt hstep hrow
    exact ⟨row', hrow'⟩
  state := h.state_step hg hstep

/-- It is stopped for as long as nobody retries it. -/
theorem Stopped.reachable (h : Stopped requests j s)
    (hr : Lts.Reachable (apply env) (NotRetried env j) s s') :
    Stopped requests j s' := by
  refine Lts.Reachable.invariant (P := Stopped requests j) h ?_ hr
  intro s₁ a₁ s₂ _ hs hg hstep
  exact hs.step hg hstep

/-- The cancellation stops the job. -/
theorem stopped_of_cancel {job : ProcessingJob} {reason : String}
    (hclear : Clear (JobRequest s.db job.id) job.id s)
    (htx : committing env a s = some (.cancel job reason))
    (hc : Tx.commit env.cfg s.now s.db (.cancel job reason) = .ok s'.db)
    (hstep : apply env a s = some s') :
    Stopped (JobRequest s'.db job.id) job.id s' := by
  obtain ⟨jobs, hjobs, hdb⟩ := withJobs_ok hc
  have hsame : JobRequest s'.db job.id = JobRequest s.db job.id := by
    unfold JobRequest runJob
    rw [hdb]
  rw [hsame]
  have hstored : ∀ {k}, JobRequest s.db job.id k →
      ∃ row, s.db.interrupts.get k = some row :=
    fun ⟨row, _, hrow, _⟩ => ⟨row, hrow⟩
  refine ⟨hclear.step hstored (fun sid rid hex hst => ?_) hstep,
    fun hk => ?_, Or.inl ?_⟩
  · rw [htx] at hst
    cases hst
  · obtain ⟨row, hrow⟩ := hstored hk
    rw [hdb]
    exact ⟨row, hrow⟩
  · obtain ⟨-, row, -, -, hget⟩ := transition_ok hjobs
    unfold jobState
    rw [hdb]
    simp only [hget, if_pos]
    rfl

end Step

/-- A cancellation of a job that is clear is effective: until a retry, no
later step of its `run_pipeline` or of the answer to one of its requests
calls the graph. -/
theorem cancellation_holds {env : Env} {s s' : State} {a : Action}
    {job : ProcessingJob} {reason : String}
    (htx : committing env a s = some (.cancel job reason))
    (hstep : apply env a s = some s')
    (hc : Tx.commit env.cfg s.now s.db (.cancel job reason) = .ok s'.db)
    (hclear : Clear (JobRequest s.db job.id) job.id s) :
    CancellationHolds env job.id s' := by
  rintro s₁ hs₁ a₁ s₂ - - ⟨tid, reply, inv, slot, next, rfl, hpc, -, hfor⟩
  have hstopped := (stopped_of_cancel hclear htx hc hstep).reachable hs₁
  obtain ⟨hslot, hrequest⟩ := hstopped.calls hpc rfl
  rcases hfor with he | ⟨k, hk, hjob⟩
  · exact hslot he
  · exact hrequest k hk hjob

-- =============================================================== scenarios

instance (env : Env) (j : Uuid) (a : Action) (s : State) :
    Decidable (NotRetried env j a s) := by
  dsimp only [NotRetried]
  generalize committing env a s = tx
  induction tx using Option.casesOn with
  | none => infer_instance
  | some tx => induction tx using Tx.casesOn <;> infer_instance

/-- The job whose cancellation a step is about to commit. -/
def cancelling (env : Env) (a : Action) (s : State) : Option Uuid :=
  match committing env a s with
  | some (.cancel job _) => some job.id
  | _ => none

/-- The call an actor is in. -/
def Pc.call : Pc → Option (Invocation × Option Uuid × Stage)
  | .worker (.invoke inv slot stage) => some (inv, slot, stage)
  | _ => none

theorem pc_of_call {pc : Pc} {inv : Invocation} {slot : Option Uuid}
    {stage : Stage} (h : pc.call = some (inv, slot, stage)) :
    pc = .worker (.invoke inv slot stage) := by
  unfold Pc.call at h
  split at h
  · cases h
    rfl
  · cases h

/-- A cancellation that moved the job was committed. -/
theorem commit_of_cancelling {env : Env} {a : Action} {s s' : State}
    {j : Uuid} (hj : cancelling env a s = some j)
    (hstep : apply env a s = some s') (hbefore : jobState s.db j ≠ some .failed)
    (hafter : jobState s'.db j = some .failed) :
    ∃ job reason, job.id = j
      ∧ committing env a s = some (.cancel job reason)
      ∧ Tx.commit env.cfg s.now s.db (.cancel job reason) = .ok s'.db := by
  unfold cancelling at hj
  split at hj
  · rename_i job reason htx
    injection hj with hj
    rcases apply_effects hstep with hdb | ⟨tx, htx', hc⟩
    · rw [hdb] at hafter
      exact absurd hafter hbefore
    · rw [htx] at htx'
      injection htx' with htx'
      subst htx'
      exact ⟨job, reason, hj, htx, hc⟩
  · cases hj

/-- Job 2 is dispatched, and actor 1 is about to cancel it. -/
def cancelledInQueue : List Action :=
  firstStart.take 8 ++ [.start 1 (.cancel 2 "stop"), .advance 1 .ok]

/-- The `run_pipeline` of a job that is cancelled in the queue never
calls the graph. -/
theorem cancelled_in_queue_holds : ∃ s s',
    Lts.run (apply Env.default) State.init cancelledInQueue = some s
    ∧ apply Env.default (.advance 1 .ok) s = some s'
    ∧ s.sent = [.runPipeline 2]
    ∧ CancellationHolds Env.default 2 s' := by
  have hend : ((Lts.run (apply Env.default) State.init
      cancelledInQueue).bind fun s =>
        (apply Env.default (.advance 1 .ok) s).map fun s' =>
          ((cancelling Env.default (.advance 1 .ok) s, jobState s.db 2,
            jobState s'.db 2), s.db.interrupts.rows.map (·.id), s.sent,
            (List.range 2).all fun tid => (s.tasks tid).pc.call = none))
      = some ((some 2, some .dispatched, some .failed), [],
        [.runPipeline 2], true) := by
    decide +kernel
  obtain ⟨s, hs, hend⟩ := Option.bind_eq_some_iff.mp hend
  obtain ⟨s', hs', hend⟩ := Option.map_eq_some_iff.mp hend
  injection hend with hcancel hend
  injection hcancel with hj hcancel
  injection hcancel with hbefore hafter
  injection hend with hnone hend
  injection hend with hsent hcalls
  obtain ⟨job, reason, hid, htx, hc⟩ :=
    commit_of_cancelling hj hs' (by rw [hbefore]; decide) hafter
  refine ⟨s, s', hs, hs', hsent, hid ▸ cancellation_holds htx hs' hc ?_⟩
  -- there is no request, and no worker is in a call
  have hempty : ∀ k, ¬ JobRequest s.db job.id k := by
    rintro k ⟨row, _, hrow, -⟩
    have hmem : row.id ∈ s.db.interrupts.rows.map (·.id) :=
      List.mem_map_of_mem (Table.get_some hrow).1
    rw [hnone] at hmem
    cases hmem
  refine ⟨fun hk => absurd hk (hempty _), fun _ => hempty _,
    fun hk => absurd hk (hempty _), fun {tid _ _ _} hpc _ => ?_⟩
  by_cases ht : tid < 2
  · have hnocall := List.all_eq_true.mp hcalls tid (List.mem_range.mpr ht)
    rw [hpc] at hnocall
    cases hnocall
  · have hidle := run_idle (n := 2) hs (by decide) (fun _ _ => rfl) tid
      (by omega)
    rw [hpc] at hidle
    cases hidle

/-- Job 2 waits for the answer to request 30, and actor 4 is about to
cancel it. -/
def cancelledWhileAsked : List Action :=
  asked ++ [.start 4 (.cancel 2 "stop"), .advance 4 .ok]

/-- Request 30 is answered all the same, and run 11 is resumed. -/
theorem cancelled_job_resumes :
    ¬ ∀ s s' a job reason, Reaches Env.default Lts.Always s →
      committing Env.default a s = some (.cancel job reason) →
      apply Env.default a s = some s' →
      Tx.commit Env.default.cfg s.now s.db (.cancel job reason)
        = .ok s'.db →
      CancellationHolds Env.default job.id s' := by
  intro h
  have hend : ((Lts.run (apply Env.default) State.init
      cancelledWhileAsked).bind fun s =>
        (apply Env.default (.advance 4 .ok) s).bind fun s' =>
          (Lts.run (Lts.guarded (apply Env.default)
            (NotRetried Env.default 2)) s' answered.dropLast).bind fun s₁ =>
            (Lts.guarded (apply Env.default) (NotRetried Env.default 2)
              (.advance 3 .ok) s₁).map fun _ =>
              ((cancelling Env.default (.advance 4 .ok) s,
                jobState s.db 2, jobState s'.db 2),
                ((s'.db.interrupts.get 30).bind (·.runId)).bind
                  (runJob s'.db),
                (s₁.tasks 3).pc.call.map fun c =>
                  (c.1.interrupt, decide (c.2.2 = .ainvoke))))
      = some ((some 2, some .awaitingHuman, some .failed), some 2,
        some (some 30, true)) := by
    decide +kernel
  obtain ⟨s, hs, hend⟩ := Option.bind_eq_some_iff.mp hend
  obtain ⟨s', hs', hend⟩ := Option.bind_eq_some_iff.mp hend
  obtain ⟨s₁, hs₁, hend⟩ := Option.bind_eq_some_iff.mp hend
  obtain ⟨s₂, hs₂, hend⟩ := Option.map_eq_some_iff.mp hend
  injection hend with hcancel hend
  injection hcancel with hj hcancel
  injection hcancel with hbefore hafter
  injection hend with hjob hcall
  unfold Lts.guarded at hs₂
  split at hs₂
  case isFalse => cases hs₂
  rename_i hguard
  obtain ⟨job, reason, hid, htx, hc⟩ :=
    commit_of_cancelling hj hs' (by rw [hbefore]; decide) hafter
  have hholds := h s s' _ job reason (Lts.reachable_of_run .init hs) htx hs'
    hc
  rw [hid] at hholds
  refine hholds s₁ (Lts.reachable_of_guarded_run .init hs₁) _ s₂
    hguard hs₂ ?_
  obtain ⟨⟨inv, slot, stage⟩, hpc, hc⟩ := Option.map_eq_some_iff.mp hcall
  injection hc with hinterrupt hstage
  obtain rfl : stage = .ainvoke := of_decide_eq_true hstage
  obtain ⟨r, hr, hjob⟩ := Option.bind_eq_some_iff.mp hjob
  obtain ⟨row, hrow, hrid⟩ := Option.bind_eq_some_iff.mp hr
  refine ⟨3, .ok, inv, slot, .worker (.invoke inv slot .running), rfl,
    pc_of_call hpc, ?_, Or.inr ⟨30, hinterrupt, row, r, hrow, hrid, hjob⟩⟩
  unfold State.request
  rw [pc_of_call hpc]
  rfl

end LegalBot
