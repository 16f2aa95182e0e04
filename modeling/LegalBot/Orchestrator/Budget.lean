/-
The jobs that count against the concurrency budget, and how they come to
do so.

A job is active while it is `dispatched` or `processing`. A transaction
makes a job active only by dispatching it or by resuming it
(`Tx.activates`); a dispatch pass activates at most the number it was
given. `Tx.deactivates` says which jobs a transaction takes out again.
-/
import LegalBot.Orchestrator.Owed

namespace LegalBot

open Relational (HasKey Table)

variable {cfg : Settings} {now : Time} {db db' : Db} {tx : Tx} {j : Uuid}

/-- The states that count against the budget. -/
def JobState.active : JobState → Bool
  | .dispatched | .processing => true
  | _ => false

/-- The jobs in `dispatched` or `processing`. -/
def activeJobs (jobs : Table ProcessingJob) : Finset Uuid :=
  jobs.keysWhere (·.state.active)

theorem mem_activeJobs {jobs : Table ProcessingJob} :
    j ∈ activeJobs jobs
      ↔ ∃ row, jobs.get j = some row ∧ row.state.active = true :=
  Table.mem_keysWhere

/-- `SELECT count(*) … WHERE state IN ('dispatched', 'processing')`. -/
def activeCount (jobs : Table ProcessingJob) : Nat :=
  (jobs.rows.filter (·.state.active)).length

theorem activeCount_eq (jobs : Table ProcessingJob) :
    activeCount jobs = (activeJobs jobs).card :=
  (Table.card_keysWhere jobs _).symm

/-- The job of a pipeline run that waits for a human. -/
def resumedJob (db : Db) (rid : Uuid) : Option Uuid :=
  match db.runs.get rid with
  | some run =>
      if run.kind = .pipeline
          ∧ jobState db run.jobId = some .awaitingHuman then
        some run.jobId
      else none
  | none => none

/-- The jobs a transaction may make active. -/
def Tx.activates (now : Time) (db : Db) : Tx → Finset Uuid
  | .dispatchOnce limit locked =>
      (dispatchedIds now db limit locked).toFinset
  | .resumeTransition rid => (resumedJob db rid).toList.toFinset
  | _ => ∅

/-- The lease the sweeper finds expired. -/
def leaseExpired (cfg : Settings) (now : Time) (row : ProcessingJob) :
    Prop :=
  (row.state = .dispatched
      ∧ expiredBefore row.dispatchedAt (now - cfg.dispatchLeaseSec) = true)
    ∨ (row.state = .processing ∧ expiredBefore row.processingStartedAt
        (now - cfg.processingLeaseSec) = true)

/-- The active job a transaction takes out of `dispatched` and
`processing`. -/
def Tx.deactivates (cfg : Settings) (now : Time) (db : Db)
    (row : ProcessingJob) : Tx → Prop
  | .reapStuck => leaseExpired cfg now row
  | .cancel job _ => row.id = job.id ∧ row.state = job.state
  | .markFailed j f _ _ => row.id = j ∧ row.state = f
  | .finalizeJob sid rid | .pauseJob sid rid =>
      (db.runs.get rid).map (·.kind) = some .pipeline
        ∧ jobOf db sid = some row.id ∧ row.state = .processing
  | .failJob rid _ =>
      (db.runs.get rid).map (·.kind) = some .pipeline
        ∧ runJob db rid = some row.id ∧ row.state = .processing
  | _ => False

-- ============================================================ the writers

/-- A dispatch pass moves at most the rows it picked. -/
theorem dispatchRows_length (now : Time) :
    ∀ (rows : List ProcessingJob) (jobs : Table ProcessingJob),
      (dispatchRows now rows jobs).2.length ≤ rows.length := by
  intro rows
  induction rows with
  | nil => exact fun _ => Nat.le_refl 0
  | cons job rest ih =>
      intro jobs
      unfold dispatchRows
      cases transition jobs now job.id .ready .dispatched
          JobExtra.none with
      | error e =>
          have hrest := ih jobs
          simp only [List.length_cons]
          omega
      | ok jobs' =>
          have hrest := ih jobs'
          simp only [List.length_cons]
          omega

theorem dispatchedIds_length (limit : Nat) (locked : List Uuid) :
    (dispatchedIds now db limit locked).length ≤ limit := by
  have hids : (dispatchedIds now db limit locked).length
      ≤ (pickReadyJobs db.jobs limit locked).length :=
    dispatchRows_length now _ db.jobs
  have hpick : (pickReadyJobs db.jobs limit locked).length ≤ limit :=
    List.length_take_le _ _
  omega

/-- A job that a transaction makes active is one it dispatches or
resumes. -/
theorem active_moved (hl : RunsLinked db) {row : ProcessingJob}
    (hrow : db.jobs.get j = some row) {t : JobState}
    (hm : tx.jobMove now db j row.state t) (ht : t.active = true) :
    row.state.active = true ∨ j ∈ tx.activates now db := by
  cases tx with
  | dispatchOnce limit locked =>
      exact Or.inr (List.mem_toFinset.mpr hm.1)
  | startPipeline k sid rid hex =>
      refine Or.inl ?_
      rw [hm.2.1]
      rfl
  | resumeTransition rid =>
      obtain ⟨⟨hkind, hjob⟩, hf, -⟩ := hm
      obtain ⟨run, hrun, hkind⟩ := Option.map_eq_some_iff.mp hkind
      obtain ⟨session, hsession, hlinked⟩ := hl rid run hrun
      have hjob' : run.jobId = j := by
        unfold sessionOf jobOf at hjob
        simp only [hrun, Option.map_some, Option.bind_some, hsession,
          Option.some.injEq] at hjob
        rw [← hlinked]
        exact hjob
      refine Or.inr ?_
      show j ∈ (resumedJob db rid).toList.toFinset
      unfold resumedJob jobState
      simp only [hrun, hjob', hrow, hkind, hf, Option.map_some, true_and,
        if_true, List.mem_toFinset, Option.mem_toList]
  | upsert mapped owner itemId jobId ids =>
      rw [hm.2] at ht
      cases ht
  | reapStuck =>
      rcases hm with ⟨-, rfl⟩ | ⟨-, rfl⟩
      · cases ht
      · cases ht
  | retry job =>
      rw [hm.2.2] at ht
      cases ht
  | cancel job reason =>
      rw [hm.2.2] at ht
      cases ht
  | archive job =>
      rw [hm.2.2] at ht
      cases ht
  | markFailed k f error errorKind =>
      rw [hm.2.2] at ht
      cases ht
  | finalizeJob sid rid =>
      rw [hm.2.2] at ht
      cases ht
  | failJob rid exc =>
      rw [hm.2.2] at ht
      cases ht
  | pauseJob sid rid =>
      rw [hm.2.2] at ht
      cases ht
  | _ => cases hm

/-- After a transaction, the active jobs are old ones or activated. -/
theorem activeJobs_commit (hl : RunsLinked db)
    (hc : tx.commit cfg now db = .ok db') :
    activeJobs db'.jobs ⊆ activeJobs db.jobs ∪ tx.activates now db := by
  intro k hk
  obtain ⟨row', hrow', hactive⟩ := mem_activeJobs.mp hk
  rw [Finset.mem_union]
  rcases (commit_effects hc).jobs.origin hrow' with
    ⟨row, hrow, hmove⟩ | ⟨-, hnew⟩
  · have hid : row.id = k := Table.key_of_get hrow
    rcases hmove.state with heq | hm
    · rw [heq] at hactive
      exact Or.inl (mem_activeJobs.mpr ⟨row, hrow, hactive⟩)
    · rw [hid] at hm
      rcases active_moved hl hrow hm hactive with hbefore | hmem
      · exact Or.inl (mem_activeJobs.mpr ⟨row, hrow, hbefore⟩)
      · exact Or.inr hmem
  · rw [hnew] at hactive
    cases hactive

/-- So the count grows by the activated jobs at most. -/
theorem activeCount_commit (hl : RunsLinked db)
    (hc : tx.commit cfg now db = .ok db') :
    activeCount db'.jobs
      ≤ activeCount db.jobs + (tx.activates now db).card := by
  rw [activeCount_eq, activeCount_eq]
  exact (Finset.card_le_card (activeJobs_commit hl hc)).trans
    (Finset.card_union_le _ _)

/-- The sweeper leaves a job whose lease runs. -/
theorem reapStuck_get {jobs : Table ProcessingJob} {row : ProcessingJob}
    (hrow : jobs.get j = some row) (hlease : ¬ leaseExpired cfg now row) :
    (reapStuck cfg jobs now).get j = some row := by
  have hdispatched : ¬ (row.state = .dispatched ∧ expiredBefore
      row.dispatchedAt (now - cfg.dispatchLeaseSec) = true) :=
    fun h => hlease (Or.inl h)
  have hprocessing : ¬ (row.state = .processing ∧ expiredBefore
      row.processingStartedAt (now - cfg.processingLeaseSec) = true) :=
    fun h => hlease (Or.inr h)
  unfold reapStuck
  simp only [Table.get_updateWhere, hrow, Option.map_some,
    decide_eq_true_eq, if_neg hdispatched, if_neg hprocessing]

/-- A job stays active under a transaction that does not deactivate
it. -/
theorem active_kept (hc : tx.commit cfg now db = .ok db')
    {row : ProcessingJob} (hrow : db.jobs.get j = some row)
    (hactive : row.state.active = true)
    (hd : ¬ tx.deactivates cfg now db row) : j ∈ activeJobs db'.jobs := by
  have hid : row.id = j := Table.key_of_get hrow
  obtain ⟨row', hrow', hmove⟩ := (commit_effects hc).jobs.persists hrow
  have hkeep : row'.state.active = true → j ∈ activeJobs db'.jobs :=
    fun h => mem_activeJobs.mpr ⟨row', hrow', h⟩
  rcases hmove.state with heq | hm
  · exact hkeep (heq ▸ hactive)
  cases tx with
  | reapStuck =>
      injection hc with hc
      rw [← hc]
      exact mem_activeJobs.mpr ⟨row, reapStuck_get hrow hd, hactive⟩
  | cancel job reason => exact absurd ⟨hm.1, hm.2.1⟩ hd
  | markFailed k f error errorKind => exact absurd ⟨hm.1, hm.2.1⟩ hd
  | finalizeJob sid rid => exact absurd ⟨hm.1.1, hm.1.2, hm.2.1⟩ hd
  | pauseJob sid rid => exact absurd ⟨hm.1.1, hm.1.2, hm.2.1⟩ hd
  | failJob rid exc => exact absurd ⟨hm.1.1, hm.1.2, hm.2.1⟩ hd
  | archive job =>
      -- no active job is archived
      obtain ⟨jobs, hjobs, -⟩ := withJobs_ok hc
      obtain ⟨hallowed, -⟩ := transition_ok hjobs
      rw [← hm.2.1] at hallowed
      cases hs : row.state with
      | dispatched =>
          rw [hs] at hallowed
          exact absurd hallowed (by decide)
      | processing =>
          rw [hs] at hallowed
          exact absurd hallowed (by decide)
      | _ =>
          rw [hs] at hactive
          cases hactive
  | upsert mapped owner itemId jobId ids =>
      rw [hm.1] at hactive
      cases hactive
  | retry job =>
      rw [hm.2.1] at hactive
      cases hactive
  | dispatchOnce limit locked => exact hkeep (by rw [hm.2.2]; rfl)
  | startPipeline k sid rid hex => exact hkeep (by rw [hm.2.2]; rfl)
  | resumeTransition rid => exact hkeep (by rw [hm.2.2]; rfl)
  | _ => cases hm

end LegalBot
