/-
At most one pipeline start per dispatch, whatever the broker does.

The broker here may also deliver a message again after it was
acknowledged (`Delivery.duplicate`): nothing in `_run_pipeline` but the
guarded transition decides whether an execution goes on.

# The two counts

- A start takes the job out of `dispatched`, and only a dispatch puts it
  there: the starts so far, plus one while the job is `dispatched`, are
  at most the dispatches so far.
- A `run_pipeline` calls its graph once: the graph calls so far, plus the
  executions that are past their guard and still before their call, are
  at most the starts so far.
-/
import LegalBot.Proofs.JobLifecycle
import LegalBot.Orchestrator.Owed

namespace LegalBot

open Relational (HasKey Table)

-- ============================================================== statements

/-- What happens next: a step of the system, or a message that was sent
is in the broker once more. -/
inductive Delivery where
  | act (a : Action)
  | duplicate (mid : Nat)

/-- One step under a broker that duplicates. -/
def applyDuplicating (env : Env) (d : Delivery) (s : State) :
    Option State :=
  match d with
  | .act a => apply env a s
  | .duplicate mid =>
      (s.sent[mid]?).map fun m => { s with sent := s.sent ++ [m] }

/-- A committed `ready -> dispatched` transition of the job. -/
def dispatchesJob (j : Uuid) (_ : Delivery) (s s' : State) : Bool :=
  decide (jobState s.db j = some .ready
    ∧ jobState s'.db j = some .dispatched)

/-- A `run_pipeline` of the job gets past its guard. -/
def startsJob (j : Uuid) (d : Delivery) (s s' : State) : Bool :=
  match d with
  | .act (.advance tid _) =>
      match (s.tasks tid).pc, (s'.tasks tid).pc with
      | .worker (.runPipeline k), .worker (.invoke _ _ _) => decide (k = j)
      | _, _ => false
  | _ => false

/-- A `run_pipeline` of the job calls its graph. -/
def callsGraphOf (j : Uuid) (d : Delivery) (s s' : State) : Bool :=
  match d with
  | .act (.advance tid _) =>
      match (s.tasks tid).pc, (s'.tasks tid).pc with
      | .worker (.invoke _ (some k) .ainvoke),
          .worker (.invoke _ _ .running) => decide (k = j)
      | _, _ => false
  | _ => false

/-- What a start does: the job moves on, one session and one run are
inserted, and the task goes on to call `_invoke_graph` on them. -/
structure PipelineStarted (s s' : State) (tid : Nat) (j : Uuid)
    (session : Session) (run : Run) (inv : Invocation) : Prop where
  was : jobState s.db j = some .dispatched
  is : jobState s'.db j = some .processing
  sessions : s.db.sessions.insert session = some s'.db.sessions
  runs : s.db.runs.insert run = some s'.db.runs
  ofJob : session.jobId = j ∧ run.jobId = j ∧ run.sessionId = session.id
  calls : (s'.tasks tid).pc = .worker (.invoke inv (some j) .enter)
  onRun : inv.runId = run.id ∧ inv.sessionId = session.id

-- ================================================================= a start

section Step

variable {env : Env} {s s' : State} {tid : Nat} {j : Uuid} {reply : Reply}

/-- The first transaction of `_run_pipeline` is a start. -/
theorem startPipeline_started {sid rid : Uuid} {hex : String}
    {db' : Db} (has : Option Bool)
    (hc : startPipeline s.db s.now j sid rid hex = .ok db')
    (hdb : s'.db = db')
    (hpc : (s'.tasks tid).pc = .worker (.invoke
      ⟨rid, sid, .null, has, none⟩ (some j) .enter)) :
    ∃ session run inv, PipelineStarted s s' tid j session run inv := by
  obtain ⟨job, jobs, sessions, runs, hjob, hjobs, hsession, hrun, rfl⟩ :=
    startPipeline_ok hc
  obtain ⟨-, row, hrow, hst, hget⟩ := transition_ok hjobs
  have hid : job.id = j := Table.key_of_get hjob
  refine ⟨createPrimary job sid hex s.now,
    newRun rid sid j .pipeline "ingestion"
      (.obj [("job_id", .str (toString j))]) s.now, _,
    ⟨?_, ?_, ?_, ?_, ⟨hid, rfl, rfl⟩, hpc, rfl, rfl⟩⟩
  · unfold jobState
    rw [hrow, ← hst]
    rfl
  · rw [hdb]
    unfold jobState setCurrentSession
    simp only [Table.get_updateWhere, hget j, if_true, Option.map_some]
    split
    · rfl
    · rfl
  · rw [hdb]
    exact hsession
  · rw [hdb]
    exact hrun

/-- An execution of `run_pipeline` starts the pipeline, or ends without a
change. -/
theorem runPipeline_step
    (hpc : (s.tasks tid).pc = .worker (.runPipeline j))
    (h : apply env (.advance tid reply) s = some s') :
    (∃ session run inv, PipelineStarted s s' tid j session run inv)
      ∨ (s'.db = s.db ∧ (s'.tasks tid).pc = .worker .done) := by
  obtain ⟨r, hreq, rfl⟩ := Option.map_eq_some_iff.mp h
  rcases request_cases hreq with
    ⟨hd, r₀, hpc', -, -⟩ | ⟨w, r₀, hpc', hr₀, rfl⟩
  · rw [hpc] at hpc'
    cases hpc'
  rw [hpc] at hpc'
  injection hpc' with hw
  subst hw
  simp only [Worker.request] at hr₀
  split at hr₀
  · rename_i sid rid _ hex
    injection hr₀ with hr₀
    subst hr₀
    cases hc : Tx.commit env.cfg s.now s.db
        (.startPipeline j sid rid hex) with
    | ok db' =>
        refine Or.inl (startPipeline_started (jobHasAttachments s.db j)
          hc (perform_commit_map hc).1 ?_)
        rw [perform_pc, Request.landing_map]
        unfold Request.landing
        simp only [hc]
    | error e =>
        refine Or.inr ⟨?_, ?_⟩
        · unfold Request.map State.perform
          simp only [hc]
          exact continueAt_db _
        · rw [perform_pc, Request.landing_map]
          unfold Request.landing
          simp only [hc]
  · cases hr₀

theorem startsJob_iff
    (hpc : (s.tasks tid).pc = .worker (.runPipeline j))
    (h : apply env (.advance tid reply) s = some s') :
    (startsJob j (.act (.advance tid reply)) s s' = true
        ∧ ∃ session run inv, PipelineStarted s s' tid j session run inv)
      ∨ (startsJob j (.act (.advance tid reply)) s s' = false
        ∧ s'.db = s.db ∧ (s'.tasks tid).pc = .worker .done) := by
  unfold startsJob
  rcases runPipeline_step hpc h with
    ⟨session, run, inv, hstart⟩ | ⟨hdb, hdone⟩
  · refine Or.inl ⟨?_, session, run, inv, hstart⟩
    simp only [hpc, hstart.calls, decide_true]
  · refine Or.inr ⟨?_, hdb, hdone⟩
    simp only [hpc, hdone]

/-- The step that is counted as a start is one. -/
theorem started_of_counted {d : Delivery}
    (h : applyDuplicating env d s = some s')
    (hstart : startsJob j d s s' = true) :
    ∃ tid reply, d = .act (.advance tid reply)
      ∧ (s.tasks tid).pc = .worker (.runPipeline j)
      ∧ ∃ session run inv,
        PipelineStarted s s' tid j session run inv := by
  have hcounted := hstart
  unfold startsJob at hstart
  split at hstart
  · rename_i tid reply
    split at hstart
    · rename_i k _ _ _ hpc _
      obtain rfl : k = j := of_decide_eq_true hstart
      rcases startsJob_iff hpc h with ⟨-, hstarted⟩ | ⟨hnot, -⟩
      · exact ⟨tid, reply, rfl, hpc, hstarted⟩
      · rw [hnot] at hcounted
        cases hcounted
    · cases hstart
  · cases hstart

end Step

-- ============================================================ the two counts

section Counts

variable {env : Env} {s s' : State} {d : Delivery} {j : Uuid} {m n : Nat}

/-- One while the job is `dispatched`. -/
def isDispatched (j : Uuid) (s : State) : Nat :=
  (decide (jobState s.db j = some .dispatched)).toNat

/-- The starts so far, and one more to come. -/
def StartsBounded (j : Uuid) (s : State) (starts dispatches : Nat) :
    Prop :=
  starts + isDispatched j s ≤ dispatches

/-- A job is `dispatched` because it was, or because it was dispatched
from `ready`. -/
theorem dispatched_origin {a : Action} (h : apply env a s = some s')
    (hj : jobState s'.db j = some .dispatched) :
    jobState s.db j = some .dispatched
      ∨ jobState s.db j = some .ready := by
  cases hf : jobState s.db j with
  | none => cases apply_jobBorn h hf hj
  | some f =>
      obtain ⟨t, ht, hmove⟩ := apply_jobState h hf
      rw [hj] at ht
      injection ht with ht
      subst ht
      rcases hmove with rfl | hallowed
      · exact Or.inl rfl
      · refine Or.inr (congrArg some ?_)
        revert hallowed
        cases f <;> decide

theorem starts_step (hb : StartsBounded j s m n)
    (h : applyDuplicating env d s = some s') :
    StartsBounded j s' (m + (startsJob j d s s').toNat)
      (n + (dispatchesJob j d s s').toNat) := by
  unfold StartsBounded isDispatched at hb ⊢
  by_cases hstart : startsJob j d s s' = true
  · -- the job leaves `dispatched`
    obtain ⟨_, _, -, -, _, _, _, hstarted⟩ := started_of_counted h hstart
    rw [hstarted.was] at hb
    rw [hstart, hstarted.is]
    simp only [decide_true, Bool.toNat_true] at hb ⊢
    exact hb.trans (Nat.le_add_right _ _)
  · rw [Bool.not_eq_true] at hstart
    rw [hstart, Bool.toNat_false, Nat.add_zero]
    by_cases hj : jobState s'.db j = some .dispatched
    · have horigin : jobState s.db j = some .dispatched
          ∨ jobState s.db j = some .ready := by
        cases d with
        | act a => exact dispatched_origin h hj
        | duplicate mid =>
            obtain ⟨_, -, rfl⟩ := Option.map_eq_some_iff.mp h
            exact Or.inl hj
      rcases horigin with hwas | hready
      · rw [hwas] at hb
        rw [hj]
        exact hb.trans (Nat.le_add_right _ _)
      · have hdispatch : dispatchesJob j d s s' = true :=
          decide_eq_true ⟨hready, hj⟩
        rw [hdispatch, hj]
        simp only [decide_true, Bool.toNat_true]
        omega
    · rw [decide_eq_false hj, Bool.toNat_false]
      omega

/-- The calls so far, and those of the executions in `before` that are
past their guard. -/
def CallsBounded (j : Uuid) (s : State) (calls starts : Nat) : Prop :=
  ∃ before : Finset Nat,
    (∀ {tid inv stage},
      (s.tasks tid).pc = .worker (.invoke inv (some j) stage) →
      stage.beforeCall = true → tid ∈ before)
    ∧ calls + before.card ≤ starts

/-- An execution is before its call because it was, or because it just
got past its guard. -/
theorem beforeCall_origin {tid : Nat} {inv : Invocation} {stage : Stage}
    (h : applyDuplicating env d s = some s')
    (hpc : (s'.tasks tid).pc = .worker (.invoke inv (some j) stage))
    (hbefore : stage.beforeCall = true) :
    (∃ stage₀, (s.tasks tid).pc = .worker (.invoke inv (some j) stage₀)
        ∧ stage₀.beforeCall = true)
      ∨ (startsJob j d s s' = true
        ∧ ∃ reply, d = .act (.advance tid reply)) := by
  cases d with
  | duplicate mid =>
      obtain ⟨_, -, rfl⟩ := Option.map_eq_some_iff.mp h
      exact Or.inl ⟨stage, hpc, hbefore⟩
  | act a =>
      rcases apply_call h hpc with
        heq | ⟨reply, w, r, rfl, hw, -, -, hstage⟩
      · rw [heq] at hpc
        exact Or.inl ⟨stage, hpc, hbefore⟩
      rcases hstage with
        ⟨stage₀, r₀, rfl, -, hr₀, -, hl⟩ | ⟨-, henters⟩
      · rw [← hl] at hbefore
        exact Or.inl ⟨stage₀, hw, Stage.request_beforeCall hr₀ hbefore⟩
      · cases henters with
        | started j hex db' hc hfresh =>
            refine Or.inr ⟨?_, reply, rfl⟩
            unfold startsJob
            simp only [hw, hpc, decide_true]

theorem calls_step (hb : CallsBounded j s m n)
    (h : applyDuplicating env d s = some s') :
    CallsBounded j s' (m + (callsGraphOf j d s s').toNat)
      (n + (startsJob j d s s').toNat) := by
  obtain ⟨before, hmem, hcard⟩ := hb
  by_cases hstart : startsJob j d s s' = true
  · -- one more execution is before its call
    obtain ⟨tid, reply, rfl, hpc, -⟩ := started_of_counted h hstart
    have hnocall :
        callsGraphOf j (.act (.advance tid reply)) s s' = false := by
      unfold callsGraphOf
      simp only [hpc]
    refine ⟨insert tid before, fun hpc' hbefore => ?_, ?_⟩
    · rcases beforeCall_origin h hpc' hbefore with
        ⟨stage₀, hpc₀, hbefore₀⟩ | ⟨-, reply', ha⟩
      · exact Finset.mem_insert_of_mem (hmem hpc₀ hbefore₀)
      · injection ha with ha
        injection ha with ha
        exact ha ▸ Finset.mem_insert_self _ _
    · have hle := Finset.card_insert_le tid before
      rw [hstart, hnocall, Bool.toNat_true, Bool.toNat_false]
      omega
  have hkept : ∀ {tid inv stage},
      (s'.tasks tid).pc = .worker (.invoke inv (some j) stage) →
      stage.beforeCall = true → tid ∈ before := by
    intro tid inv stage hpc hbefore
    rcases beforeCall_origin h hpc hbefore with
      ⟨stage₀, hpc₀, hbefore₀⟩ | ⟨hcounted, -⟩
    · exact hmem hpc₀ hbefore₀
    · exact absurd hcounted hstart
  rw [Bool.not_eq_true] at hstart
  rw [hstart, Bool.toNat_false, Nat.add_zero]
  by_cases hcall : callsGraphOf j d s s' = true
  · -- one of them is past its call
    rw [hcall, Bool.toNat_true]
    unfold callsGraphOf at hcall
    split at hcall
    case h_2 => cases hcall
    rename_i tid reply
    split at hcall
    case h_2 => cases hcall
    rename_i inv k inv' slot' hpc hpc'
    obtain rfl : k = j := of_decide_eq_true hcall
    have hin : tid ∈ before := hmem hpc rfl
    refine ⟨before.erase tid, fun {tid' _ _} hpc₁ hbefore => ?_, ?_⟩
    · refine Finset.mem_erase.mpr ⟨?_, hkept hpc₁ hbefore⟩
      rintro rfl
      rw [hpc'] at hpc₁
      cases hpc₁
      cases hbefore
    · have hpos := Finset.card_pos.mpr ⟨tid, hin⟩
      rw [Finset.card_erase_of_mem hin]
      omega
  · rw [Bool.not_eq_true] at hcall
    rw [hcall, Bool.toNat_false, Nat.add_zero]
    exact ⟨before, hkept, hcard⟩

end Counts

/-- At most one pipeline start per dispatch, for any schedule of any
number of actors and any duplication of messages: the starts of a job
are bounded by its dispatches and the graph calls of its `run_pipeline`s
by the starts; and an execution of `run_pipeline` is a start, or it
ends without changing any row. -/
theorem one_start_per_dispatch {env : Env} {ds : List Delivery}
    {s : State} (j : Uuid)
    (h : Lts.run (applyDuplicating env) State.init ds = some s) :
    Lts.countSteps (applyDuplicating env) (startsJob j) State.init ds
        ≤ Lts.countSteps (applyDuplicating env) (dispatchesJob j)
          State.init ds
      ∧ Lts.countSteps (applyDuplicating env) (callsGraphOf j)
          State.init ds
        ≤ Lts.countSteps (applyDuplicating env) (startsJob j)
          State.init ds
      ∧ (∀ tid mid s', s.sent[mid]? = some (.runPipeline j) →
        apply env (.deliver tid mid) s = some s' →
        s'.db = s.db ∧ (s'.tasks tid).pc = .worker (.runPipeline j))
      ∧ ∀ tid reply s', (s.tasks tid).pc = .worker (.runPipeline j) →
        apply env (.advance tid reply) s = some s' →
        (startsJob j (.act (.advance tid reply)) s s' = true
            ∧ ∃ session run inv,
              PipelineStarted s s' tid j session run inv)
          ∨ (startsJob j (.act (.advance tid reply)) s s' = false
            ∧ s'.db = s.db ∧ (s'.tasks tid).pc = .worker .done) := by
  refine ⟨?_, ?_, ?_, fun tid reply s' hpc hstep =>
    startsJob_iff hpc hstep⟩
  · have hinit : StartsBounded j State.init 0 0 := Nat.le_refl 0
    have hstarts : StartsBounded j s
        (0 + Lts.countSteps (applyDuplicating env) (startsJob j)
          State.init ds)
        (0 + Lts.countSteps (applyDuplicating env) (dispatchesJob j)
          State.init ds) :=
      Lts.countSteps_invariant (fun _ _ _ _ _ => starts_step) hinit h
    unfold StartsBounded at hstarts
    omega
  · have hinit : CallsBounded j State.init 0 0 := by
      refine ⟨∅, fun {tid inv stage} hpc => ?_, Nat.le_refl 0⟩
      cases hpc
    have hcalls : CallsBounded j s
        (0 + Lts.countSteps (applyDuplicating env) (callsGraphOf j)
          State.init ds)
        (0 + Lts.countSteps (applyDuplicating env) (startsJob j)
          State.init ds) :=
      Lts.countSteps_invariant (fun _ _ _ _ _ => calls_step) hinit h
    obtain ⟨before, -, hcard⟩ := hcalls
    omega
  · intro tid mid s' hsent hstep
    unfold apply at hstep
    simp only at hstep
    split at hstep
    · rw [hsent] at hstep
      injection hstep with hstep
      subst hstep
      exact ⟨rfl, by simp [Message.entry]⟩
    · cases hstep

-- =============================================================== scenarios

/-- Job 2 is dispatched, reverted by the sweeper and dispatched again;
both messages are executed, that of the first dispatch first. -/
def redispatched : List Action :=
  firstStart.take 8 ++
  [.tick 200, .start 0 .reapStuck, .advance 0 .ok,
    .start 0 .dispatchOnce, .advance 0 .ok, .advance 0 (.locked []),
    .advance 0 .ok, .advance 0 .ok, .advance 0 .ok,
    .deliver 1 0, .advance 1 (.fresh [10, 11] "a"),
    .deliver 2 1, .advance 2 (.fresh [20, 21] "b")]

/-- After that, so is a duplicate of the first. -/
def staleMessages : List Delivery :=
  redispatched.map .act ++
  [.duplicate 0, .act (.deliver 2 2),
    .act (.advance 2 (.fresh [30, 31] "c"))]

/-- Only one of the three executions starts the pipeline. -/
theorem stale_messages_start_once : ∃ s,
    Lts.run (applyDuplicating Env.default) State.init staleMessages
        = some s
      ∧ Lts.countSteps (applyDuplicating Env.default) (startsJob 2)
        State.init staleMessages = 1
      ∧ Lts.countSteps (applyDuplicating Env.default) (startsJob 2)
          State.init staleMessages
        ≤ Lts.countSteps (applyDuplicating Env.default)
          (dispatchesJob 2) State.init staleMessages := by
  obtain ⟨s, hs⟩ := Option.isSome_iff_exists.mp
    (show (Lts.run (applyDuplicating Env.default) State.init
      staleMessages).isSome by decide +kernel)
  refine ⟨s, hs, ?_, (one_start_per_dispatch 2 hs).1⟩
  decide +kernel

end LegalBot
