/-
What one `dispatch_once` pass does, and that two passes which overlap
share no job.

# A pass on its own

`runAlone` drives one actor of the system by its own steps only, with no
row locked by others and no call to the broker or to Redis raising. From
any state, a pass that starts ends as `Dispatches` says: it has moved the
first jobs in dispatch order that the budget allows, and nothing else.

# Two passes

The system of `Orchestrator/System.lean` runs the `SELECT … FOR UPDATE`
and the commit of a pass as one step. Here they are two (`passStep`), so
that the other pass may come in between: it skips the rows that are
locked. What a pass holds is what the one-step transaction would pick
with the other rows locked (`held_repicked`).
-/
import LegalBot.Jobs.Dispatcher
import LegalBot.Orchestrator.System

namespace LegalBot

open Relational (HasKey Table)
open Selection (First)

-- ============================================================== statements

/-- What the environment answers a pass that nothing disturbs. -/
def undisturbed : Handler → Reply
  | .dispatchPick _ => .locked []
  | _ => .ok

/-- The state after `n` steps of one handler, or at its end. -/
def runAlone (env : Env) (tid : Nat) : Nat → State → Option State
  | 0, s => some s
  | n + 1, s =>
      match (s.tasks tid).pc with
      | .handler .done => some s
      | .handler h =>
          match apply env (.advance tid (undisturbed h)) s with
          | some s' => runAlone env tid n s'
          | none => none
      | .worker _ => none

/-- `s'` is `s` after a pass that dispatched `rows`. -/
structure Dispatches (env : Env) (rows : List ProcessingJob)
    (s s' : State) : Prop where
  selected : First dispatchOrder (readyRows s.db.jobs [])
    (budgetCurrent env.cfg s.inFlight) rows
  once : (rows.map (·.id)).Nodup
  ready : ∀ r ∈ rows, s.db.jobs.get r.id = some r ∧ r.state = .ready
  written : ∀ k, s'.db.jobs.get k = if k ∈ rows.map (·.id)
    then (s.db.jobs.get k).map (dispatchedRow s.now)
    else s.db.jobs.get k
  others : s'.db = { s.db with jobs := s'.db.jobs }
  inFlight : s'.inFlight = s.inFlight ∪ (rows.map (·.id)).toFinset
  sent : s'.sent = s.sent ++ (rows.map (·.id)).map .runPipeline
  size : s'.inFlight.card
    ≤ max env.cfg.maxConcurrentRuns s.inFlight.card

/-- The steps of a pass that dispatches all its budget allows. -/
def passLength (env : Env) : Nat := 2 * env.cfg.maxConcurrentRuns + 3

-- ========================================================== the pass alone

section Alone

variable {env : Env} {tid : Nat} {s : State} {h : Handler}
  {r : Request Handler}

/-- A pass that goes on. -/
theorem runAlone_step (n : Nat) (hpc : (s.tasks tid).pc = .handler h)
    (hr : h.request env s.now s.db s.inFlight (undisturbed h) = some r) :
    runAlone env tid (n + 1) s
      = runAlone env tid n (s.perform env tid (r.map .handler)) := by
  have happly : apply env (.advance tid (undisturbed h)) s
      = some (s.perform env tid (r.map .handler)) := by
    unfold apply State.request Pc.request
    simp only [hpc, hr, Option.map_some]
  rw [runAlone, hpc]
  cases h with
  | done => cases hr
  | _ => simp only [happly]

/-- A pass that is over. -/
theorem runAlone_done (n : Nat)
    (hpc : (s.tasks tid).pc = .handler .done) :
    runAlone env tid n s = some s := by
  cases n with
  | zero => rfl
  | succ n => rw [runAlone, hpc]

/-- The calls after the commit: each dispatched job enters the in-flight
set and is published, in order. -/
theorem runAlone_drains : ∀ {ids : List Uuid} {s : State},
    (s.tasks tid).pc = .handler (.acquireNext ids) →
    ∃ s', (∀ n, 2 * ids.length + 1 ≤ n →
          runAlone env tid n s = some s')
      ∧ (s'.tasks tid).pc = .handler .done
      ∧ s'.db = s.db
      ∧ s'.inFlight = s.inFlight ∪ ids.toFinset
      ∧ s'.sent = s.sent ++ ids.map .runPipeline := by
  intro ids
  induction ids with
  | nil =>
      intro s hpc
      have hdone : ((s.perform env tid ((Request.goto Handler.done).map
          Pc.handler)).tasks tid).pc = .handler .done := perform_pc _
      refine ⟨_, fun n hn => ?_, hdone, continueAt_db _,
        (continueAt_inFlight _).trans (Finset.union_empty _).symm,
        (continueAt_sent _).trans (List.append_nil _).symm⟩
      obtain ⟨m, rfl⟩ : ∃ m, n = m + 1 := ⟨n - 1, by
        simp only [List.length_nil] at hn
        omega⟩
      rw [runAlone_step m hpc rfl]
      exact runAlone_done m hdone
  | cons j rest ih =>
      intro s hpc
      -- `budget.acquire`, then `enqueue_run_pipeline`
      let s₁ := s.perform env tid
        ((Request.acquire j (Handler.enqueueNext j rest)).map Pc.handler)
      have hpc₁ : (s₁.tasks tid).pc = .handler (.enqueueNext j rest) :=
        perform_pc _
      let s₂ := s₁.perform env tid
        ((Request.send (.runPipeline j) (Handler.acquireNext rest)).map
          Pc.handler)
      have hpc₂ : (s₂.tasks tid).pc = .handler (.acquireNext rest) :=
        perform_pc _
      have hdb : s₂.db = s.db := (continueAt_db _).trans (continueAt_db _)
      have hfl : s₂.inFlight = insert j s.inFlight :=
        (continueAt_inFlight _).trans (continueAt_inFlight _)
      have hsent : s₂.sent = s.sent ++ [.runPipeline j] := by
        have hkept : s₁.sent = s.sent := continueAt_sent _
        rw [← hkept]
        exact continueAt_sent _
      obtain ⟨s', hend, hdone, hdb', hfl', hsent'⟩ := ih hpc₂
      refine ⟨s', fun n hn => ?_, hdone, hdb'.trans hdb, ?_, ?_⟩
      · obtain ⟨m, rfl⟩ : ∃ m, n = m + 1 + 1 := ⟨n - 2, by
          simp only [List.length_cons] at hn
          omega⟩
        rw [runAlone_step (m + 1) hpc rfl, runAlone_step m hpc₁ rfl]
        refine hend m ?_
        simp only [List.length_cons] at hn
        omega
      · rw [hfl', hfl, List.toFinset_cons, Finset.insert_union,
          Finset.union_insert]
      · rw [hsent', hsent, List.append_assoc]
        rfl

/-- The commit of a pass, once it has read its budget. -/
theorem runAlone_commits {limit : Nat}
    (hpc : (s.tasks tid).pc = .handler (.dispatchPick limit)) :
    let rows := pickReadyJobs s.db.jobs limit []
    let s₁ := s.perform env tid ((Request.commit (.dispatchOnce limit [])
      (Handler.acquireNext (dispatchRows s.now rows s.db.jobs).2)
      fun _ => .done).map Pc.handler)
    (∀ n, runAlone env tid (n + 1) s = runAlone env tid n s₁)
      ∧ (s₁.tasks tid).pc = .handler (.acquireNext (rows.map (·.id)))
      ∧ s₁.db = { s.db with
          jobs := (dispatchRows s.now rows s.db.jobs).1 }
      ∧ s₁.inFlight = s.inFlight ∧ s₁.sent = s.sent := by
  refine ⟨fun n => runAlone_step n hpc rfl, ?_, continueAt_db _,
    continueAt_inFlight _, continueAt_sent _⟩
  rw [← (dispatch_writes s.now s.db.jobs limit []).1]
  exact perform_pc _

/-- Where a pass is once it has committed. -/
def Handler.afterDispatch : Handler → Bool
  | .acquireNext _ | .enqueueNext .. | .done => true
  | _ => false

/-- From its commit on a pass leaves the database alone. -/
theorem runAlone_db : ∀ {n : Nat} {s s₁ : State} {h : Handler},
    (s.tasks tid).pc = .handler h → h.afterDispatch = true →
    runAlone env tid n s = some s₁ → s₁.db = s.db := by
  intro n
  induction n with
  | zero =>
      rintro s s₁ h - - hrun
      rw [runAlone, Option.some.injEq] at hrun
      rw [hrun]
  | succ n ih =>
      intro s s₁ h hpc hafter hrun
      cases h with
      | done =>
          rw [runAlone_done _ hpc, Option.some.injEq] at hrun
          rw [hrun]
      | acquireNext ids =>
          cases ids with
          | nil =>
              rw [runAlone_step n hpc rfl] at hrun
              exact (ih (perform_pc _) rfl hrun).trans (continueAt_db _)
          | cons j rest =>
              rw [runAlone_step n hpc rfl] at hrun
              exact (ih (perform_pc _) rfl hrun).trans (continueAt_db _)
      | enqueueNext j rest =>
          rw [runAlone_step n hpc rfl] at hrun
          exact (ih (perform_pc _) rfl hrun).trans (continueAt_db _)
      | _ => cases hafter

/-- A selection within the budget keeps the in-flight set within its
bound. -/
theorem inFlight_bounded {cfg : Settings} {inFlight : Finset Uuid}
    {ids : List Uuid} (h : ids.length ≤ budgetCurrent cfg inFlight) :
    (inFlight ∪ ids.toFinset).card
      ≤ max cfg.maxConcurrentRuns inFlight.card := by
  have hunion : (inFlight ∪ ids.toFinset).card
      ≤ inFlight.card + ids.toFinset.card := Finset.card_union_le _ _
  have hids : ids.toFinset.card ≤ ids.length := List.toFinset_card_le ids
  unfold budgetCurrent at h
  omega

/-- The rows a pass picks, written and published, make a pass. -/
theorem dispatches_of_drained {s' : State} {rows : List ProcessingJob}
    (hrows : rows = pickReadyJobs s.db.jobs
      (budgetCurrent env.cfg s.inFlight) [])
    (hdb : s'.db = { s.db with
      jobs := (dispatchRows s.now rows s.db.jobs).1 })
    (hfl : s'.inFlight = s.inFlight ∪ (rows.map (·.id)).toFinset)
    (hsent : s'.sent = s.sent ++ (rows.map (·.id)).map .runPipeline) :
    Dispatches env rows s s' := by
  subst hrows
  have hfirst := pickReadyJobs_first s.db.jobs
    (budgetCurrent env.cfg s.inFlight) []
  refine ⟨hfirst, nodup_pickReadyJobs _ _ _, fun r hr =>
    ⟨(mem_pickReadyJobs hr).1, (mem_pickReadyJobs hr).2.1⟩, fun k => ?_,
    ?_, hfl, hsent, ?_⟩
  · rw [hdb]
    exact (dispatch_writes s.now s.db.jobs _ []).2 k
  · rw [hdb]
  · rw [hfl]
    refine inFlight_bounded ?_
    rw [List.length_map, hfirst.length]
    exact Nat.min_le_left _ _

/-- A pass on its own ends, has dispatched the first jobs its budget
allows, and sends nothing before it has committed. -/
theorem pass_dispatches (hpc : (s.tasks tid).pc = .handler .dispatchOnce) :
    ∃ rows s', Dispatches env rows s s'
      ∧ (s'.tasks tid).pc = .handler .done
      ∧ (∀ n, passLength env ≤ n → runAlone env tid n s = some s')
      ∧ ∀ n s₁, runAlone env tid n s = some s₁ →
          s₁.sent ≠ s.sent ∨ s₁.inFlight ≠ s.inFlight →
          s₁.db = s'.db := by
  let b := budgetCurrent env.cfg s.inFlight
  let next : Handler := if b = 0 then .done else .dispatchPick b
  let s₁ := s.perform env tid ((Request.goto next).map Pc.handler)
  have hstep : ∀ n, runAlone env tid (n + 1) s = runAlone env tid n s₁ :=
    fun n => runAlone_step n hpc rfl
  have hpc₁ : (s₁.tasks tid).pc = .handler next := perform_pc _
  have hdb₁ : s₁.db = s.db := continueAt_db _
  have hnow₁ : s₁.now = s.now := continueAt_now _
  have hfl₁ : s₁.inFlight = s.inFlight := continueAt_inFlight _
  have hsent₁ : s₁.sent = s.sent := continueAt_sent _
  by_cases hb : b = 0
  · -- no budget: the pass ends without a transaction
    have hnext : next = .done := if_pos hb
    rw [hnext] at hpc₁
    have hrows : ([] : List ProcessingJob)
        = pickReadyJobs s.db.jobs b [] := by
      rw [hb]
      exact List.take_zero.symm
    refine ⟨[], s₁, dispatches_of_drained hrows ?_ ?_ ?_, hpc₁,
      fun n hn => ?_, fun n s₂ hrun hmoved => ?_⟩
    · rw [hdb₁]
      rfl
    · rw [hfl₁]
      exact (Finset.union_empty _).symm
    · rw [hsent₁]
      exact (List.append_nil _).symm
    · obtain ⟨m, rfl⟩ : ∃ m, n = m + 1 := ⟨n - 1, by
        unfold passLength at hn
        omega⟩
      rw [hstep]
      exact runAlone_done m hpc₁
    · cases n with
      | zero =>
          rw [runAlone, Option.some.injEq] at hrun
          rw [← hrun, hdb₁]
      | succ n =>
          rw [hstep] at hrun
          exact runAlone_db hpc₁ rfl hrun
  · have hnext : next = .dispatchPick b := if_neg hb
    rw [hnext] at hpc₁
    obtain ⟨hstep₂, hpc₂, hdb₂, hfl₂, hsent₂⟩ :=
      @runAlone_commits env tid _ b hpc₁
    generalize s₁.perform env tid _ = s₂ at hstep₂ hpc₂ hdb₂ hfl₂ hsent₂
    rw [hdb₁] at hpc₂ hdb₂
    rw [hnow₁] at hdb₂
    obtain ⟨s', hend, hdone, hdb', hfl', hsent'⟩ := runAlone_drains hpc₂
    have hfew : (pickReadyJobs s.db.jobs b []).length ≤ b :=
      List.length_take_le _ _
    have hmax : b ≤ env.cfg.maxConcurrentRuns := Nat.sub_le _ _
    refine ⟨_, s', dispatches_of_drained rfl (hdb'.trans hdb₂) ?_ ?_,
      hdone, fun n hn => ?_, fun n s₃ hrun hmoved => ?_⟩
    · rw [hfl', hfl₂, hfl₁]
    · rw [hsent', hsent₂, hsent₁]
    · obtain ⟨m, rfl⟩ : ∃ m, n = m + 1 + 1 := ⟨n - 2, by
        unfold passLength at hn
        omega⟩
      rw [hstep, hstep₂]
      refine hend m ?_
      rw [List.length_map]
      unfold passLength at hn
      omega
    · -- the first two states of the pass have sent nothing
      cases n with
      | zero =>
          rw [runAlone, Option.some.injEq] at hrun
          rw [← hrun] at hmoved
          simp at hmoved
      | succ n =>
          rw [hstep] at hrun
          cases n with
          | zero =>
              rw [runAlone, Option.some.injEq] at hrun
              rw [← hrun, hsent₁, hfl₁] at hmoved
              simp at hmoved
          | succ n =>
              rw [hstep₂] at hrun
              rw [runAlone_db hpc₂ rfl hrun, hdb']

end Alone

-- ================================================================ two passes

/-- Where a pass stands that shares the table with another one. The rows
of `picked` are locked until the commit. -/
inductive PassPoint where
  | reading (limit : Nat)
  | picked (rows : List ProcessingJob)
  | committed (ids : List Uuid)

/-- The job table and its two passes. -/
structure Passes where
  jobs : Table ProcessingJob
  point : Bool → PassPoint

/-- What a pass may do next. -/
inductive PassAction where
  | pick (pass : Bool)
  | commit (pass : Bool) (now : Time)

/-- The rows a pass holds locked. -/
def PassPoint.locked : PassPoint → List Uuid
  | .picked rows => rows.map (·.id)
  | _ => []

/-- The ids a pass has dispatched. -/
def PassPoint.dispatched : PassPoint → List Uuid
  | .committed ids => ids
  | _ => []

/-- A step of one of the two: `FOR UPDATE SKIP LOCKED`, or the loop with
the commit that ends it. -/
def passStep (a : PassAction) (p : Passes) : Option Passes :=
  match a with
  | .pick b =>
      match p.point b with
      | .reading limit =>
          some { p with
            point := Function.update p.point b
              (.picked (pickReadyJobs p.jobs limit (p.point !b).locked)) }
      | _ => none
  | .commit b now =>
      match p.point b with
      | .picked rows =>
          some
            { jobs := (dispatchRows now rows p.jobs).1
              point := Function.update p.point b
                (.committed (dispatchRows now rows p.jobs).2) }
      | _ => none

/-- Two passes about to pick, with the limits their budgets gave. -/
def Passes.start (jobs : Table ProcessingJob) (limit : Bool → Nat) :
    Passes :=
  ⟨jobs, fun b => .reading (limit b)⟩

/-- The ids a pass holds or has dispatched. -/
def PassPoint.ids : PassPoint → List Uuid
  | .reading _ => []
  | .picked rows => rows.map (·.id)
  | .committed ids => ids

/-- What a pass knows of its rows: those it holds are ready, as it read
them, and those it has committed are not ready any more. -/
def PassPoint.Sound (jobs : Table ProcessingJob) : PassPoint → Prop
  | .reading _ => True
  | .picked rows => ∀ r ∈ rows, jobs.get r.id = some r ∧ r.state = .ready
  | .committed ids => ∀ k ∈ ids, ∃ row, jobs.get k = some row
      ∧ row.state = .dispatched

/-- The invariant of two passes. -/
structure Passes.Apart (p : Passes) : Prop where
  sound : ∀ b, (p.point b).Sound p.jobs
  nodup : ∀ b, (p.point b).ids.Nodup
  disjoint : ∀ b, ∀ k ∈ (p.point b).ids, k ∉ (p.point !b).ids

section Overlap

variable {p p' : Passes} {jobs jobs' : Table ProcessingJob}

/-- A pass with other rows keeps its knowledge. -/
theorem PassPoint.Sound.mono {q : PassPoint} (h : q.Sound jobs)
    (hjobs : ∀ k ∈ q.ids, jobs'.get k = jobs.get k) : q.Sound jobs' := by
  cases q with
  | reading limit => trivial
  | picked rows =>
      intro r hr
      obtain ⟨hget, hready⟩ := h r hr
      exact ⟨(hjobs r.id (List.mem_map_of_mem hr)).trans hget, hready⟩
  | committed ids =>
      intro k hk
      obtain ⟨row, hrow, hstate⟩ := h k hk
      exact ⟨row, (hjobs k hk).trans hrow, hstate⟩

/-- A ready row that is not locked is not the other pass's. -/
theorem PassPoint.Sound.foreign {q : PassPoint} (h : q.Sound jobs)
    {row : ProcessingJob} (hget : jobs.get row.id = some row)
    (hready : row.state = .ready) (hfree : row.id ∉ q.locked) :
    row.id ∉ q.ids := by
  cases q with
  | reading limit => exact List.not_mem_nil
  | picked rows => exact hfree
  | committed ids =>
      intro hk
      obtain ⟨row', hrow', hstate⟩ := h row.id hk
      obtain rfl : row = row' := Option.some.inj (hget.symm.trans hrow')
      rw [hready] at hstate
      cases hstate

/-- One pass moves: the other point is as it was. -/
theorem Passes.Apart.moved {b : Bool} {q : PassPoint} (h : p.Apart)
    (hself : p'.point b = q) (hnot : p'.point (!b) = p.point (!b))
    (hsound : q.Sound p'.jobs) (hnodup : q.ids.Nodup)
    (hother : ∀ k ∈ q.ids, k ∉ (p.point !b).ids)
    (hjobs : ∀ k ∈ (p.point !b).ids, p'.jobs.get k = p.jobs.get k) :
    p'.Apart := by
  subst hself
  -- both passes, by which of them moved
  have hboth : ∀ {P : Bool → Prop}, P b → P (!b) → ∀ c, P c := by
    intro P hb hnb c
    by_cases hc : c = b
    · rwa [hc]
    · rwa [show c = !b from Bool.eq_not.mpr hc]
  refine ⟨hboth hsound ?_, hboth hnodup ?_, hboth ?_ ?_⟩
  · rw [hnot]
    exact (h.sound (!b)).mono hjobs
  · rw [hnot]
    exact h.nodup (!b)
  · rw [hnot]
    exact hother
  · rw [Bool.not_not, hnot]
    exact fun k hk hq => hother k hq hk

/-- What is known of the rows a pass holds. -/
theorem Passes.Apart.picked {b : Bool} {rows : List ProcessingJob}
    (h : p.Apart) (hpoint : p.point b = .picked rows) :
    (∀ r ∈ rows, p.jobs.get r.id = some r ∧ r.state = .ready)
      ∧ (rows.map (·.id)).Nodup
      ∧ ∀ k ∈ rows.map (·.id), k ∉ (p.point !b).ids := by
  have hsound := h.sound b
  have hnodup := h.nodup b
  have hdisjoint := h.disjoint b
  rw [hpoint] at hsound hnodup hdisjoint
  exact ⟨hsound, hnodup, hdisjoint⟩

theorem apart_step {a : PassAction} (h : p.Apart)
    (hstep : passStep a p = some p') : p'.Apart := by
  cases a with
  | pick b =>
      unfold passStep at hstep
      cases hpoint : p.point b with
      | picked rows => simp [hpoint] at hstep
      | committed ids => simp [hpoint] at hstep
      | reading limit =>
          simp only [hpoint, Option.some.injEq] at hstep
          subst hstep
          refine h.moved (Function.update_self _ _ _)
            (Function.update_of_ne (by simp) _ _) (fun r hr => ?_)
            (nodup_pickReadyJobs _ _ _) (fun k hk => ?_) fun _ _ => rfl
          · exact ⟨(mem_pickReadyJobs hr).1, (mem_pickReadyJobs hr).2.1⟩
          · obtain ⟨r, hr, rfl⟩ := List.mem_map.mp hk
            obtain ⟨hget, hready, hfree⟩ := mem_pickReadyJobs hr
            exact (h.sound (!b)).foreign hget hready hfree
  | commit b now =>
      unfold passStep at hstep
      cases hpoint : p.point b with
      | reading limit => simp [hpoint] at hstep
      | committed ids => simp [hpoint] at hstep
      | picked rows =>
          simp only [hpoint, Option.some.injEq] at hstep
          subst hstep
          obtain ⟨hheld, hnodup, hother⟩ := h.picked hpoint
          obtain ⟨hids, hget⟩ := dispatchRows_ready now hnodup hheld
          have hself : Function.update p.point b (.committed
              (dispatchRows now rows p.jobs).2) b
              = .committed (rows.map (·.id)) := by
            rw [hids]
            exact Function.update_self _ _ _
          refine h.moved hself (Function.update_of_ne (by simp) _ _)
            (fun k hk => ?_) hnodup hother fun k hk => ?_
          · obtain ⟨r, hr, rfl⟩ := List.mem_map.mp hk
            refine ⟨dispatchedRow now r, ?_, rfl⟩
            rw [hget, if_pos hk, (hheld r hr).1]
            rfl
          · rw [hget, if_neg fun hmine => hother k hmine hk]

theorem reaches_apart {limit : Bool → Nat}
    (h : Lts.Reachable passStep Lts.Always (.start jobs limit) p) :
    p.Apart := by
  refine Lts.Reachable.invariant (P := Passes.Apart) ?_ ?_ h
  · exact ⟨fun _ => trivial, fun _ => List.nodup_nil,
      fun _ _ hk => absurd hk List.not_mem_nil⟩
  · intro p a p' _ hp _ hstep
    exact apart_step hp hstep

/-- The rows a pass holds are what a transaction in one step would pick
now, the other rows being locked. -/
theorem held_repicked (h : p.Apart) {b : Bool}
    {rows : List ProcessingJob} (hpoint : p.point b = .picked rows) :
    ∃ locked, (pickReadyJobs p.jobs rows.length locked).Perm rows := by
  obtain ⟨hheld, hnodup, -⟩ := h.picked hpoint
  let locked := (p.jobs.rows.map (·.id)).filter (· ∉ rows.map (·.id))
  have hmem : ∀ r, r ∈ readyRows p.jobs locked ↔ r ∈ rows := by
    intro r
    rw [mem_readyRows]
    constructor
    · rintro ⟨hget, -, hfree⟩
      have hid : r.id ∈ rows.map (·.id) := by
        by_contra hno
        refine hfree (List.mem_filter.mpr ⟨List.mem_map_of_mem ?_, ?_⟩)
        · exact Table.mem_rows.mpr hget
        · exact decide_eq_true hno
      obtain ⟨r', hr', hsame⟩ := List.mem_map.mp hid
      have hget' := (hheld r' hr').1
      rw [hsame, hget] at hget'
      rwa [Option.some.inj hget']
    · intro hr
      refine ⟨(hheld r hr).1, (hheld r hr).2, fun hin => ?_⟩
      exact of_decide_eq_true (List.mem_filter.mp hin).2
        (List.mem_map_of_mem hr)
  have hperm : (readyRows p.jobs locked).Perm rows :=
    (List.perm_ext_iff_of_nodup (nodup_readyRows _ _)
      hnodup.of_map).mpr hmem
  refine ⟨locked, ?_⟩
  have hall : pickReadyJobs p.jobs rows.length locked
      = (readyRows p.jobs locked).insertionSort dispatchOrder := by
    refine List.take_of_length_le ?_
    rw [List.length_insertionSort]
    exact hperm.length_eq.le
  rw [hall]
  exact (List.perm_insertionSort _ _).trans hperm

end Overlap

-- ================================================================= the result

/-- From any state a pass on its own dispatches the first jobs its budget
allows, each once and after the commit, and ends; and in any state that
two overlapping passes reach from any job table, no job has been
dispatched twice. -/
theorem dispatch_pass_spec {env : Env} {s : State} {tid : Nat}
    (hpc : (s.tasks tid).pc = .handler .dispatchOnce)
    {jobs : Table ProcessingJob} {limit : Bool → Nat} {p : Passes}
    (hp : Lts.Reachable passStep Lts.Always (.start jobs limit) p) :
    (∃ rows s', Dispatches env rows s s'
      ∧ (s'.tasks tid).pc = .handler .done
      ∧ (∀ n, passLength env ≤ n → runAlone env tid n s = some s')
      ∧ ∀ n s₁, runAlone env tid n s = some s₁ →
          s₁.sent ≠ s.sent ∨ s₁.inFlight ≠ s.inFlight →
          s₁.db = s'.db)
    ∧ ((p.point true).dispatched ++ (p.point false).dispatched).Nodup := by
  refine ⟨pass_dispatches hpc, ?_⟩
  have hapart := reaches_apart hp
  have hsub : ∀ q : PassPoint, q.dispatched ⊆ q.ids
      ∧ (q.ids.Nodup → q.dispatched.Nodup) := by
    intro q
    cases q with
    | reading limit => exact ⟨List.Subset.refl _, id⟩
    | picked rows => exact ⟨List.nil_subset _, fun _ => List.nodup_nil⟩
    | committed ids => exact ⟨List.Subset.refl _, id⟩
  refine List.nodup_append.mpr ⟨(hsub _).2 (hapart.nodup true),
    (hsub _).2 (hapart.nodup false), fun x hx y hy hxy => ?_⟩
  exact hapart.disjoint true x ((hsub _).1 hx)
    (hxy ▸ (hsub _).1 hy)

-- =============================================================== scenarios

/-- Actor 0 ingests an item and begins a dispatch pass. -/
def passBegun : List Action :=
  [.start 0 (.ingest ⟨"email", "m1", none, []⟩ "alice"),
    .advance 0 (.fresh [1, 2] ""), .start 0 .dispatchOnce]

/-- Two ready jobs of one owner. -/
def twoReady : Table ProcessingJob :=
  ⟨[{ newJob 2 1 "alice" 0 with state := .ready },
    { newJob 4 3 "alice" 5 with state := .ready }], by decide⟩

/-- The second pass picks while the first one holds its row, and commits
before it. -/
def overlapping : List PassAction :=
  [.pick true, .pick false, .commit false 7, .commit true 8]

/-- A first pass, and two that overlap on two ready jobs. -/
theorem overlapping_passes_apart : ∃ s p,
    Lts.run (apply Env.default) State.init passBegun = some s
    ∧ Lts.run passStep (.start twoReady fun _ => 1) overlapping = some p
    ∧ (p.point true).dispatched = [2] ∧ (p.point false).dispatched = [4]
    ∧ (∃ rows s', Dispatches Env.default rows s s')
    ∧ ((p.point true).dispatched
      ++ (p.point false).dispatched).Nodup := by
  obtain ⟨s, hs⟩ := Option.isSome_iff_exists.mp
    (show (Lts.run (apply Env.default) State.init passBegun).isSome
      by decide)
  have hpc : (Lts.run (apply Env.default) State.init passBegun).map
      (fun s => (s.tasks 0).pc) = some (.handler .dispatchOnce) := rfl
  rw [hs] at hpc
  have hend : (Lts.run passStep (.start twoReady fun _ => 1)
      overlapping).map (fun p => ((p.point true).dispatched,
        (p.point false).dispatched)) = some ([2], [4]) := by
    decide +kernel
  obtain ⟨p, hp, hids⟩ := Option.map_eq_some_iff.mp hend
  obtain ⟨hfirst, hsecond⟩ := Prod.mk.inj hids
  obtain ⟨⟨rows, s', hpass, -⟩, hapart⟩ :=
    @dispatch_pass_spec Env.default _ _ (Option.some.inj hpc) _ _ _
      (Lts.reachable_of_run .init hp)
  exact ⟨s, p, hs, hp, hfirst, hsecond, ⟨rows, s', hpass⟩, hapart⟩

end LegalBot
