/-
Replays and the session they are asked for.

`ReplayService.replay` takes a session and a run from its caller and
looks both up by id. Its comment says that the run is looked up within
the parent session; the query does not say so, and what follows (the
step row, the child's `branch_from_run_id`, the cascade of
cancellations) goes by the run alone.

`ScopedCall` says that the lookup of a call whose run belongs to another
session finds no checkpoint. Then such a call is rejected
(`ForeignRejected`), and every replay stays inside its session
(`InSession`).

# The invariant

Between the lookup and the commit of a call other transactions run, so
`Scope` carries what the call relies on through them: its run is a run
of its session, and the rows it has selected are rows of its run. Runs
keep their session and schedules keep their run.
-/
import LegalBot.Orchestrator.Columns
import LegalBot.Orchestrator.Replays

namespace LegalBot.Replays

open Relational (HasKey Table)

-- ============================================================== statements

/-- The run belongs to another session. -/
def foreign (db : Db) (sessionId runId : Uuid) : Bool :=
  (db.runs.get runId).any fun run => run.sessionId ≠ sessionId

/-- The session branches from a run of its parent, of the same job and
owner. -/
def BranchesInside (db : Db) (child : Session) : Prop :=
  ∃ p parent r run, child.parentSessionId = some p
    ∧ child.branchFromRunId = some r
    ∧ db.sessions.get p = some parent
    ∧ db.runs.get r = some run ∧ run.sessionId = p
    ∧ run.jobId = child.jobId ∧ parent.jobId = child.jobId
    ∧ parent.ownerUserId = child.ownerUserId

/-- A run of a session. -/
def OnSession (db : Db) (runId sid : Uuid) : Prop :=
  ∃ run, db.runs.get runId = some run ∧ run.sessionId = sid

/-- Every replay session branches inside its parent; a schedule that a
replay cancelled was created by a run of the session that was
replayed. -/
structure InSession (s : State) : Prop where
  branch : ∀ c child, s.base.db.sessions.get c = some child →
    child.kind = .replay → BranchesInside s.base.db child
  cancelled : ∀ sid k, (sid, k) ∈ s.cancelled →
    ∃ row r, s.schedules.get k = some row ∧ row.runId = some r
      ∧ OnSession s.base.db r sid

/-- A call whose run belongs to another session ends at its lookup and
has changed nothing. -/
def ForeignRejected (a : Action) (s s' : State) : Prop :=
  ∀ tid reply, a = .base (.advance tid reply) →
    ∀ sid fromRun step ctx,
      (s.base.tasks tid).pc = .handler (.replay sid fromRun step ctx) →
      foreign s.base.db sid fromRun = true →
      (s'.base.tasks tid).pc = .idle ∧ s'.base.db = s.base.db
        ∧ s'.base.sent = s.base.sent ∧ s'.schedules = s.schedules
        ∧ s'.steps = s.steps

/-- The lookup of a call whose run belongs to another session finds no
checkpoint. -/
def ScopedCall (a : Action) (s : State) : Prop :=
  match a with
  | .base (.advance tid _) =>
      match (s.base.tasks tid).pc with
      | .handler (.replay sid fromRun step _) =>
          foreign s.base.db sid fromRun = true →
            lookup s.base.db s.steps sid fromRun step = []
      | _ => True
  | _ => True

instance (a : Action) (s : State) : Decidable (ScopedCall a s) := by
  unfold ScopedCall
  split
  · split
    · infer_instance
    · infer_instance
  · infer_instance

-- =========================================================== the invariant

/-- A schedule of a run. -/
def OfRun (schedules : Table ScheduledJob) (k runId : Uuid) : Prop :=
  ∃ row, schedules.get k = some row ∧ row.runId = some runId

theorem OfRun.kept {t t' : Table ScheduledJob} {k runId : Uuid}
    (h : OfRun t k runId) (hkept : SchedulesKept t t') :
    OfRun t' k runId := by
  obtain ⟨row, hrow, hrun⟩ := h
  obtain ⟨row', hrow', hsame⟩ := hkept k row hrow
  exact ⟨row', hrow', hsame.runId.trans hrun⟩

/-- What a call relies on between its lookup and its commit. -/
structure Scope (env : Env) (s : State) : Prop where
  base : Reaches env Lts.Always s.base
  inserting : ∀ {tid sid fromRun step ctx cp},
    (s.base.tasks tid).pc
      = .handler (.replayInsert sid fromRun step ctx cp) →
    OnSession s.base.db fromRun sid
  selected : ∀ {tid ids}, s.selected tid = some ids →
    ∃ sid fromRun step ctx cp, (s.base.tasks tid).pc
        = .handler (.replayInsert sid fromRun step ctx cp)
      ∧ ∀ k ∈ ids, OfRun s.schedules k fromRun
  inSession : InSession s

section Step

variable {env : Env} {b : LegalBot.Action} {s s' : State}

theorem OnSession.step {t t' : LegalBot.State} {runId sid : Uuid}
    (h : OnSession t.db runId sid)
    (hstep : LegalBot.apply env b t = some t') :
    OnSession t'.db runId sid := by
  obtain ⟨run, hrun, hsid⟩ := h
  obtain ⟨run', hrun', hmove⟩ := apply_run hstep hrun
  exact ⟨run', hrun', hmove.sessionId.trans hsid⟩

/-- A run that does not belong to another session belongs to this one. -/
theorem onSession_of_not_foreign {db : Db} {runId sid : Uuid} {run : Run}
    (hrun : db.runs.get runId = some run)
    (h : foreign db sid runId = false) : OnSession db runId sid := by
  unfold foreign at h
  rw [hrun] at h
  refine ⟨run, hrun, ?_⟩
  simpa using h

/-- A call that has found its checkpoint has a run of its session. -/
theorem inserting_step (hs : Scope env s) (hg : ScopedCall (.base b) s)
    (hstep : apply env (.base b) s = some s')
    {tid : Nat} {sid fromRun : Uuid} {step ctx cp : String}
    (hpc : (s'.base.tasks tid).pc
      = .handler (.replayInsert sid fromRun step ctx cp)) :
    OnSession s'.base.db fromRun sid := by
  obtain ⟨hadmits, hbase, -⟩ := apply_base hstep
  refine OnSession.step ?_ hbase
  rcases apply_handler hbase hpc rfl (by nofun) with
    heq | ⟨reply, hd, r, rfl, hpc₀, hr, -, -, hl⟩
  · rw [heq] at hpc
    exact hs.inserting hpc
  · obtain ⟨rfl, rfl⟩ := request_replayInsert hr hl
    unfold State.admits at hadmits
    simp only [hpc₀] at hadmits
    have hfound : cp ∈ lookup s.base.db s.steps sid fromRun step :=
      of_decide_eq_true hadmits
    obtain ⟨run, hrun⟩ := mem_lookup hfound
    refine onSession_of_not_foreign hrun ?_
    unfold ScopedCall at hg
    simp only [hpc₀] at hg
    by_contra hforeign
    rw [hg (by simpa using hforeign)] at hfound
    cases hfound

/-- Schedules keep their rows along a step of the base system. -/
theorem schedules_step (hstep : apply env (.base b) s = some s') :
    SchedulesKept s.schedules s'.schedules := by
  obtain ⟨-, -, -, -, ⟨-, heq, -⟩ | ⟨sid, ids, -, heq, -⟩⟩ :=
    apply_base hstep
  · rw [heq]
    exact SchedulesKept.refl _
  · rw [heq]
    exact fun _ _ hk => cascadeCancel_get ids hk

/-- What an actor has selected is still of its run. -/
theorem selected_step (hs : Scope env s)
    (hstep : apply env (.base b) s = some s') {tid : Nat}
    {ids : List Uuid} (hsel : s'.selected tid = some ids) :
    ∃ sid fromRun step ctx cp, (s'.base.tasks tid).pc
        = .handler (.replayInsert sid fromRun step ctx cp)
      ∧ ∀ k ∈ ids, OfRun s'.schedules k fromRun := by
  obtain ⟨-, hbase, -, hselected, -⟩ := apply_base hstep
  rw [hselected tid] at hsel
  split at hsel
  · cases hsel
  · rename_i hactor
    obtain ⟨sid, fromRun, step, ctx, cp, hpc, hof⟩ := hs.selected hsel
    refine ⟨sid, fromRun, step, ctx, cp, ?_, fun k hk => ?_⟩
    · rw [apply_other hbase hactor]
      exact hpc
    · exact (hof k hk).kept (schedules_step hstep)

/-- Runs and sessions keep what a branch depends on. -/
theorem BranchesInside.step {t t' : LegalBot.State} {child : Session}
    (h : BranchesInside t.db child)
    (hstep : LegalBot.apply env b t = some t') :
    BranchesInside t'.db child := by
  obtain ⟨p, parent, r, run, hp, hr, hparent, hrun, hsid, hjob, hpjob,
    howner⟩ := h
  obtain ⟨parent', hparent', hkept⟩ := apply_session hstep hparent
  obtain ⟨run', hrun', hmove⟩ := apply_run hstep hrun
  exact ⟨p, parent', r, run', hp, hr, hparent', hrun',
    hmove.sessionId.trans hsid, hmove.jobId.trans hjob,
    hkept.jobId.trans hpjob, hkept.ownerUserId.trans howner⟩

/-- The session that a replay inserts branches inside its parent, when
its run belongs to the parent. -/
theorem createReplay_branches {db : Db} {now : Time} {sid fromRun : Uuid}
    {cp hex : String} {childId : Uuid} {parent : Session}
    (hl : RunsLinked db) (hparent : db.sessions.get sid = some parent)
    (hon : OnSession db fromRun sid) :
    BranchesInside db (createReplay parent fromRun cp childId hex now) := by
  obtain ⟨run, hrun, hsid⟩ := hon
  have hid : parent.id = sid := Table.key_of_get hparent
  obtain ⟨session, hsession, hjob⟩ := hl fromRun run hrun
  rw [hsid, hparent] at hsession
  cases hsession
  exact ⟨sid, parent, fromRun, run, congrArg some hid, rfl, hparent, hrun,
    hsid, hjob.symm, rfl, rfl⟩

/-- Every replay session branches inside its parent after a step. -/
theorem branch_step (hs : Scope env s)
    (hstep : apply env (.base b) s = some s') {c : Uuid} {child : Session}
    (hchild : s'.base.db.sessions.get c = some child)
    (hkind : child.kind = .replay) : BranchesInside s'.base.db child := by
  obtain ⟨-, hbase, -⟩ := apply_base hstep
  refine BranchesInside.step ?_ hbase
  have hold : ∀ old, s.base.db.sessions.get c = some old →
      OriginKept old child → BranchesInside s.base.db child := by
    intro old hget horigin
    obtain ⟨child', hchild', hkept⟩ := apply_session hbase hget
    rw [hchild] at hchild'
    cases hchild'
    rw [hkept.kind] at hkind
    obtain ⟨p, parent, r, run, hp, hr, hrest⟩ :=
      hs.inSession.branch c old hget hkind
    refine ⟨p, parent, r, run, horigin.parentSessionId.trans hp,
      horigin.branchFromRunId.trans hr, ?_⟩
    rw [hkept.jobId, hkept.ownerUserId]
    exact hrest
  rcases apply_db hbase with ⟨hdb, -⟩ | ⟨tx, htx, ⟨hdb, -⟩ | ⟨hc, -⟩⟩
  · rw [hdb] at hchild
    exact hs.inSession.branch c child hchild hkind
  · rw [hdb] at hchild
    exact hs.inSession.branch c child hchild hkind
  · rcases (commit_origins hc).origin hchild with
      ⟨old, hget, horigin⟩ | ⟨-, hcreates⟩
    · exact hold old hget horigin
    · cases tx with
      | startPipeline j sid rid hex =>
          obtain ⟨_, _, -, rfl⟩ := hcreates
          cases hkind
      | replay sid fromRun step ctx cp childId rid hex =>
          obtain ⟨_, parent, _, hparent, -, rfl⟩ := hcreates
          obtain ⟨tid, _, -, hpc⟩ := committing_replay htx
          exact createReplay_branches (reaches_runsLinked hs.base) hparent
            (hs.inserting hpc)
      | _ => cases hcreates

/-- What was cancelled was created by a run of the session. -/
theorem cancelled_step (hs : Scope env s)
    (hstep : apply env (.base b) s = some s') {sid k : Uuid}
    (hk : (sid, k) ∈ s'.cancelled) :
    ∃ row r, s'.schedules.get k = some row ∧ row.runId = some r
      ∧ OnSession s'.base.db r sid := by
  have hkept := schedules_step hstep
  obtain ⟨-, hbase, -, -, hwrites⟩ := apply_base hstep
  have hold : (sid, k) ∈ s.cancelled →
      ∃ row r, s'.schedules.get k = some row ∧ row.runId = some r
        ∧ OnSession s'.base.db r sid := by
    intro hmem
    obtain ⟨row, r, hrow, hr, hon⟩ := hs.inSession.cancelled sid k hmem
    obtain ⟨row', hrow', hr'⟩ := OfRun.kept ⟨row, hrow, hr⟩ hkept
    exact ⟨row', r, hrow', hr', hon.step hbase⟩
  rcases hwrites with ⟨-, -, heq⟩ | ⟨sid₀, ids, hc, -, heq⟩
  · rw [heq] at hk
    exact hold hk
  · rw [heq] at hk
    rcases List.mem_append.mp hk with hnew | hmem
    · -- the rows of this replay were selected for its own run
      obtain ⟨k₀, hk₀, he⟩ := List.mem_map.mp hnew
      cases he
      obtain ⟨tid, reply, fromRun, step, ctx, cp, -, hpc, hsel⟩ :=
        commits_some hc
      obtain ⟨_, fromRun', _, _, _, hpc', hof⟩ := hs.selected hsel
      rw [hpc] at hpc'
      cases hpc'
      obtain ⟨row, hrow, hr⟩ := (hof k hk₀).kept hkept
      exact ⟨row, fromRun, hrow, hr, (hs.inserting hpc).step hbase⟩
    · exact hold hmem

/-- One step keeps the invariant. -/
theorem Scope.step {a : Action} (hs : Scope env s) (hg : ScopedCall a s)
    (hstep : apply env a s = some s') : Scope env s' := by
  by_cases hb : ∃ b, a = .base b
  · obtain ⟨b, rfl⟩ := hb
    obtain ⟨-, hbase, -⟩ := apply_base hstep
    exact
      { base := .step b hs.base trivial hbase
        inserting := inserting_step hs hg hstep
        selected := selected_step hs hstep
        inSession :=
          ⟨fun c child => branch_step hs hstep,
            fun sid k => cancelled_step hs hstep⟩ }
  · obtain ⟨hbase, hcancelled, hkept, hselected⟩ :=
      apply_tables hstep fun b hab => hb ⟨b, hab⟩
    refine
      { base := by rw [hbase]; exact hs.base
        inserting := by rw [hbase]; exact hs.inserting
        selected := fun {tid ids} hsel => ?_
        inSession := ⟨by rw [hbase]; exact hs.inSession.branch,
          fun sid k hk => ?_⟩ }
    · rw [hbase]
      rcases hselected with heq | ⟨t, sid, fromRun, step, ctx, cp, hpc,
        hsched, heq⟩
      · rw [heq] at hsel
        obtain ⟨sid, fromRun, step, ctx, cp, hpc, hof⟩ := hs.selected hsel
        exact ⟨sid, fromRun, step, ctx, cp, hpc,
          fun k hk => (hof k hk).kept hkept⟩
      · rw [heq] at hsel
        by_cases ht : tid = t
        · subst ht
          rw [Function.update_self, Option.some.injEq] at hsel
          subst hsel
          refine ⟨sid, fromRun, step, ctx, cp, hpc, fun k hk => ?_⟩
          rw [hsched]
          exact mem_cascadeSelect hk
        · rw [Function.update_of_ne ht] at hsel
          obtain ⟨sid, fromRun, step, ctx, cp, hpc, hof⟩ :=
            hs.selected hsel
          exact ⟨sid, fromRun, step, ctx, cp, hpc,
            fun k hk => (hof k hk).kept hkept⟩
    · rw [hcancelled] at hk
      rw [hbase]
      obtain ⟨row, r, hrow, hr, hon⟩ := hs.inSession.cancelled sid k hk
      obtain ⟨row', hrow', hr'⟩ := OfRun.kept ⟨row, hrow, hr⟩ hkept
      exact ⟨row', r, hrow', hr', hon⟩

/-- A scoped call whose run belongs to another session is rejected. -/
theorem ScopedCall.rejects {a : Action} (hg : ScopedCall a s)
    (hstep : apply env a s = some s') : ForeignRejected a s s' := by
  rintro tid reply rfl sid fromRun step ctx hpc hforeign
  obtain ⟨hadmits, hbase, hsteps, -, hwrites⟩ := apply_base hstep
  unfold ScopedCall at hg
  simp only [hpc] at hg
  unfold State.admits at hadmits
  simp only [hpc, hg hforeign] at hadmits
  have hschedules : s'.schedules = s.schedules := by
    rcases hwrites with ⟨-, heq, -⟩ | ⟨_, _, hc, -⟩
    · exact heq
    · -- the call is not at its insert yet
      obtain ⟨_, _, _, _, _, _, hb, hpc', -⟩ := commits_some hc
      cases hb
      rw [hpc] at hpc'
      cases hpc'
  obtain ⟨r, hr, hperform⟩ := Option.map_eq_some_iff.mp hbase
  unfold LegalBot.State.request at hr
  rw [hpc] at hr
  cases reply with
  | checkpoint cp => simp at hadmits
  | raised e =>
      cases hr
      rw [← hperform]
      exact ⟨continueAt_pc _, continueAt_db _, continueAt_sent _,
        hschedules, hsteps⟩
  | _ => cases hr

/-- The condition is exact: where it fails, the call may find the
checkpoint of the other session, and goes on. -/
theorem unscoped_call_accepted {tid : Nat} {reply : Reply}
    (hg : ¬ ScopedCall (.base (.advance tid reply)) s) :
    ∃ cp s', apply env (.base (.advance tid (.checkpoint cp))) s = some s'
      ∧ ¬ ForeignRejected (.base (.advance tid (.checkpoint cp))) s s' := by
  unfold ScopedCall at hg
  simp only at hg
  split at hg
  · rename_i sid fromRun step ctx hpc
    obtain ⟨hforeign, hfound⟩ := Classical.not_imp.mp hg
    obtain ⟨cp, hcp⟩ := List.exists_mem_of_ne_nil _ hfound
    have hadmits : s.admits (.advance tid (.checkpoint cp)) = true := by
      unfold State.admits
      simp only [hpc]
      exact decide_eq_true hcp
    have hreq : s.base.request env tid (.checkpoint cp) = some
        (.goto (.handler (.replayInsert sid fromRun step ctx cp))) := by
      unfold LegalBot.State.request
      rw [hpc]
      rfl
    have hbase : LegalBot.apply env (.advance tid (.checkpoint cp)) s.base
        = some (s.base.continueAt tid
          (.handler (.replayInsert sid fromRun step ctx cp))) := by
      show (s.base.request env tid (.checkpoint cp)).map _ = _
      rw [hreq]
      rfl
    have hsome : (apply env (.base (.advance tid (.checkpoint cp)))
        s).isSome = true := by
      unfold apply
      simp only [hadmits, if_true, hbase, Option.map_some,
        Option.isSome_some]
    obtain ⟨s', hs'⟩ := Option.isSome_iff_exists.mp hsome
    refine ⟨cp, s', hs', fun hrejected => ?_⟩
    obtain ⟨hidle, -⟩ :=
      hrejected tid _ rfl sid fromRun step ctx hpc hforeign
    obtain ⟨-, hbase', -⟩ := apply_base hs'
    rw [hbase, Option.some.injEq] at hbase'
    rw [← hbase', continueAt_pc] at hidle
    cases hidle
  · exact absurd trivial hg

end Step

-- ===================================================================== runs

theorem scope_init (env : Env) : Scope env State.init where
  base := .init
  inserting := by
    intro tid sid fromRun step ctx cp hpc
    cases hpc
  selected := by
    intro tid ids hsel
    cases hsel
  inSession := by
    refine ⟨fun c child hchild => ?_, fun sid k hk => ?_⟩
    · cases hchild
    · cases hk

/-- In every run whose calls are scoped, every replay stays inside its
session, and the next call for another session's run is rejected and
changes nothing. -/
theorem replays_stay_in_session {env : Env} {s : State}
    (h : Lts.Reachable (apply env) ScopedCall State.init s) :
    InSession s ∧ ∀ a s', ScopedCall a s → apply env a s = some s' →
      ForeignRejected a s s' := by
  have hscope : Scope env s := by
    refine Lts.Reachable.invariant (P := Scope env) (scope_init env) ?_ h
    intro s a s' _ hs hg hstep
    exact hs.step hg hstep
  exact ⟨hscope.inSession, fun _ _ hg hstep => hg.rejects hstep⟩

-- =============================================================== scenarios

/-- Run 11 has recorded a step and scheduled a reminder, and session 10
is replayed from it. -/
def ownReplay : List Action :=
  firstStart.map .base ++
  [.addStep 70 11 "extract" (some "cp") none none,
    .scheduleOneShot 80 "reminder" .null 0 "alice" (some 10) (some 2)
      (some 11) none,
    .base (.start 5 (.replay 10 11 "extract" "again")),
    .base (.advance 5 (.checkpoint "cp")), .select 5,
    .base (.advance 5 (.fresh [30, 31] "r"))]

theorem own_replay_in_session : ∃ s,
    Lts.run (Lts.guarded (apply Env.default) ScopedCall) State.init
        ownReplay = some s
      ∧ s.cancelled = [(10, 80)]
      ∧ InSession s ∧ ∀ a s', ScopedCall a s →
        apply Env.default a s = some s' → ForeignRejected a s s' := by
  obtain ⟨s, hs⟩ := Option.isSome_iff_exists.mp
    (show (Lts.run (Lts.guarded (apply Env.default) ScopedCall) State.init
      ownReplay).isSome by decide +kernel)
  have hcancelled : (Lts.run (Lts.guarded (apply Env.default) ScopedCall)
      State.init ownReplay).map (·.cancelled) = some [(10, 80)] := by
    decide +kernel
  rw [hs] at hcancelled
  exact ⟨s, hs, Option.some.inj hcancelled, replays_stay_in_session
    (Lts.reachable_of_guarded_run .init hs)⟩

/-- Bob's job 4 is ingested and dispatched, and worker 2 starts run 21 on
session 20. -/
def secondStart : List LegalBot.Action :=
  [.start 0 (.ingest ⟨"email", "m2", none, []⟩ "bob"),
    .advance 0 (.fresh [3, 4] ""),
    .start 0 .dispatchOnce, .advance 0 .ok, .advance 0 (.locked []),
    .advance 0 .ok, .advance 0 .ok, .advance 0 .ok,
    .deliver 2 1, .advance 2 (.fresh [20, 21] "b")]

/-- Bob's run has recorded a step and scheduled a reminder; Alice's
session 10 is replayed from it. -/
def foreignReplay : List Action :=
  (firstStart ++ secondStart).map .base ++
  [.addStep 70 21 "extract" (some "cp") none none,
    .scheduleOneShot 80 "reminder" .null 0 "bob" (some 20) (some 4)
      (some 21) none,
    .base (.start 5 (.replay 10 21 "extract" "again")),
    .base (.advance 5 (.checkpoint "cp")), .select 5,
    .base (.advance 5 (.fresh [30, 31] "r"))]

/-- The child of Alice's session branches from Bob's run, and Bob's
reminder is cancelled. -/
theorem foreign_replay_accepted :
    ¬ ∀ s, Lts.Reachable (apply Env.default) Lts.Always State.init s →
      InSession s ∧ ∀ a s', apply Env.default a s = some s' →
        ForeignRejected a s s' := by
  intro h
  obtain ⟨s, hs⟩ := Option.isSome_iff_exists.mp
    (show (Lts.run (apply Env.default) State.init foreignReplay).isSome by
      decide +kernel)
  have hcancelled : (Lts.run (apply Env.default) State.init
      foreignReplay).map (·.cancelled) = some [(10, 80)] := by
    decide +kernel
  have hrow : (Lts.run (apply Env.default) State.init
      foreignReplay).bind (fun s => (s.schedules.get 80).map (·.runId))
      = some (some 21) := by decide +kernel
  have hrun : (Lts.run (apply Env.default) State.init
      foreignReplay).bind (fun s => sessionOf s.base.db 21)
      = some 20 := by decide +kernel
  rw [hs] at hcancelled hrow hrun
  have hmem : s.cancelled = [(10, 80)] := Option.some.inj hcancelled
  obtain ⟨hinside, -⟩ := h s (Lts.reachable_of_run .init hs)
  obtain ⟨row, r, hget, hr, run, hget', hsid⟩ :=
    hinside.cancelled 10 80 (by rw [hmem]; exact List.mem_singleton_self _)
  rw [Option.bind_some, hget, Option.map_some, hr] at hrow
  cases hrow
  unfold sessionOf at hrun
  rw [Option.bind_some, hget', Option.map_some, hsid] at hrun
  cases hrun

end LegalBot.Replays
