/-
Timestamps and errors of a job row: what the sweeper and the operators
read of it, and what every transaction leaves there.

# One list of writers

`JobsWrite` lists the ways a transaction changes the job table, whoever
runs it: nothing, one guarded transition with an `extra` that fits its
target (`ErrorFits`), the start with its session, a dispatch pass, the
sweeper, an ingestion. `commit_jobsWrite` opens the transactions, once.

# Leases

A lease is a state a job may not stay in for too long, and the column
that says since when it is there. `Stamped` is what one write does to
that column: a job that stays keeps it, a job that comes gets the time
of the write.
-/
import LegalBot.Orchestrator.Columns

namespace LegalBot

open Relational (HasKey Table)

variable {cfg : Settings} {now : Time} {db db' : Db} {tx : Tx}

-- ============================================================= the writers

/-- The `last_error` of a transition's `extra` fits its target: an error
is written with `failed` only, a transition into `failed` writes one, and
a transition out of `failed` clears it unless it archives. -/
def ErrorFits (f t : JobState) (extra : JobExtra) : Prop :=
  match extra.lastError with
  | some (some _) => t = .failed
  | some none => t ≠ .failed
  | none => t ≠ .failed ∧ (f = .failed → t = .archived)

/-- The ways a transaction changes the job table. -/
inductive JobsWrite (cfg : Settings) (now : Time)
    (jobs : Table ProcessingJob) : Table ProcessingJob → Prop
  | same : JobsWrite cfg now jobs jobs
  | moved {j : Uuid} {f t : JobState} {extra : JobExtra}
      {jobs' : Table ProcessingJob} :
      transition jobs now j f t extra = .ok jobs' →
      ErrorFits f t extra → JobsWrite cfg now jobs jobs'
  | started {j sid : Uuid} {jobs' : Table ProcessingJob} :
      transition jobs now j .dispatched .processing JobExtra.none
        = .ok jobs' →
      JobsWrite cfg now jobs (setCurrentSession jobs' j sid)
  | dispatched (rows : List ProcessingJob) :
      JobsWrite cfg now jobs (dispatchRows now rows jobs).1
  | reaped : JobsWrite cfg now jobs (reapStuck cfg jobs now)
  | promoted {id itemId : Uuid} {owner : String}
      {jobs' : Table ProcessingJob} :
      promoteToReady jobs now id itemId owner = some jobs' →
      JobsWrite cfg now jobs jobs'

/-- A transition that is skipped when its guard misses. -/
theorem JobsWrite.skip {jobs : Table ProcessingJob} {j : Uuid}
    {f t : JobState} {extra : JobExtra} (he : ErrorFits f t extra) :
    JobsWrite cfg now jobs
      (skipInvalid jobs (transition jobs now j f t extra)) := by
  cases ht : transition jobs now j f t extra with
  | error e => exact .same
  | ok jobs' => exact .moved ht he

/-- Every committed transaction changes the job table in one of these
ways. -/
theorem commit_jobsWrite (h : tx.commit cfg now db = .ok db') :
    JobsWrite cfg now db.jobs db'.jobs := by
  cases tx with
  | upsert mapped owner itemId jobId ids =>
      rcases upsert_ok h with rfl | ⟨_, _, _, jobs, hjobs, rfl⟩
      · exact .same
      · exact .promoted hjobs
  | dispatchOnce limit locked =>
      injection h with h
      subst h
      exact .dispatched _
  | reapStuck =>
      injection h with h
      subst h
      exact .reaped
  | retry job =>
      obtain ⟨jobs, hjobs, rfl⟩ := withJobs_ok h
      exact .moved hjobs (by simp [ErrorFits])
  | cancel job reason =>
      obtain ⟨jobs, hjobs, rfl⟩ := withJobs_ok h
      exact .moved hjobs rfl
  | archive job =>
      obtain ⟨jobs, hjobs, rfl⟩ := withJobs_ok h
      exact .moved hjobs ⟨by simp, fun _ => rfl⟩
  | markFailed j f error errorKind =>
      obtain ⟨jobs, hjobs, rfl⟩ := withJobs_ok h
      exact .moved hjobs rfl
  | startPipeline j sid rid hex =>
      obtain ⟨job, jobs, sessions, runs, -, hjobs, -, -, rfl⟩ :=
        startPipeline_ok h
      exact .started hjobs
  | resumeTransition rid =>
      obtain ⟨run, session, job, -, -, -, rfl⟩ := resumeTransition_ok h
      split
      · exact .skip ⟨by simp, (fun h => by cases h)⟩
      · exact .same
  | finalizeJob sid rid =>
      obtain ⟨run, -, ⟨-, rfl⟩ | ⟨-, session, jobs, -, hjobs, rfl⟩⟩ :=
        finalizeJobIfPrimary_ok h
      · exact .same
      · exact .moved hjobs ⟨by simp, (fun h => by cases h)⟩
  | failJob rid exc =>
      obtain ⟨run, -, ⟨-, rfl⟩ | ⟨-, rfl⟩⟩ :=
        failPipelineJobForGraphError_ok h
      · exact .same
      · exact .skip rfl
  | pauseJob sid rid =>
      obtain ⟨run, -, ⟨-, rfl⟩ | ⟨-, session, -, rfl⟩⟩ :=
        transitionPipelineJob_ok h
      · exact .same
      · exact .skip ⟨by simp, (fun h => by cases h)⟩
  | markRunStatus rid st =>
      obtain ⟨run, -, rfl⟩ := markRunStatus_ok h
      exact .same
  | writeProjection sid rid output ids =>
      obtain ⟨_, _, rfl, -⟩ := writeSessionProjection_ok h
      exact .same
  | openInterrupt id sid rid kind payload schema =>
      obtain ⟨interrupts, -, rfl⟩ :=
        Option.map_eq_some_iff.mp (flushed_ok.mp h)
      exact .same
  | resolve sid current resolution resolvedBy iid =>
      obtain ⟨interventions, -, rfl⟩ :=
        Option.map_eq_some_iff.mp (flushed_ok.mp h)
      exact .same
  | postMessage sid content index msgId rid =>
      obtain ⟨_, _, _, _, runs, -, -, -, rfl⟩ := postMessage_ok h
      exact .same
  | handleReminder sid message wake payload index msgId rid =>
      obtain ⟨_, _, -, ⟨-, rfl⟩ | ⟨-, _, _, -, -, rfl⟩⟩ :=
        handleReminder_ok h
      · exact .same
      · exact .same
  | replay sid fromRun step ctx cp childId rid hex =>
      obtain ⟨parent, _, sessions, runs, -, -, -, rfl⟩ := replay_ok h
      exact .same
  | expireStalled | cancelActiveRun | archiveSession =>
      injection h with h
      subst h
      exact .same

-- ================================================================== leases

/-- A state a job is leased into, the states it comes from, and the
column with the time of that transition. -/
structure Lease where
  target : JobState
  source : JobState → Bool
  stamp : ProcessingJob → Option Time
  left_first : source target = false
  not_opened : target ≠ .ready

/-- `dispatched_at`. -/
def dispatchLease : Lease :=
  { target := .dispatched, source := fun f => f = .ready
    stamp := ProcessingJob.dispatchedAt
    left_first := rfl, not_opened := (fun h => by cases h) }

/-- `processing_started_at`. -/
def processingLease : Lease :=
  { target := .processing, source := fun f => f ≠ .processing
    stamp := ProcessingJob.processingStartedAt
    left_first := rfl, not_opened := (fun h => by cases h) }

/-- What a write at `now` does to a row, with respect to a lease. -/
def Stamped (l : Lease) (now : Time) (r r' : ProcessingJob) : Prop :=
  r'.state = l.target →
    (r.state = l.target ∧ l.stamp r' = l.stamp r)
      ∨ (l.source r.state = true ∧ l.stamp r' = some now)

/-- A failed job has an end and an error, and only a job that failed has
an error. -/
structure Booked (r : ProcessingJob) : Prop where
  failed : r.state = .failed →
    r.finishedAt.isSome = true ∧ r.lastError.isSome = true
  error : r.lastError.isSome = true →
    r.state = .failed ∨ r.state = .archived

/-- What a write does to the row of a job. -/
structure BookMove (now : Time) (r r' : ProcessingJob) : Prop where
  dispatched : Stamped dispatchLease now r r'
  processing : Stamped processingLease now r r'
  booked : Booked r → Booked r'

/-- A job as it is first committed. -/
structure Opened (r : ProcessingJob) : Prop where
  state : r.state = .ready
  error : r.lastError = none

theorem Opened.booked {r : ProcessingJob} (h : Opened r) : Booked r where
  failed hf := by
    rw [h.state] at hf
    cases hf
  error he := by
    rw [h.error] at he
    cases he

theorem BookMove.refl (r : ProcessingJob) : BookMove now r r where
  dispatched h := Or.inl ⟨h, rfl⟩
  processing h := Or.inl ⟨h, rfl⟩
  booked h := h

/-- How the job table changes. -/
def BooksEvolve (now : Time) (jobs jobs' : Table ProcessingJob) : Prop :=
  Table.Evolves (BookMove now) Opened jobs jobs'

/-- A legal transition whose error fits. -/
theorem transitionValues_bookMove {f t : JobState} {extra : JobExtra}
    {r : ProcessingJob} (hallowed : (f, t) ∈ allowedTransitions)
    (he : ErrorFits f t extra) (hr : r.state = f) :
    BookMove now r (transitionValues t now extra r) := by
  have hsource : ∀ p ∈ allowedTransitions,
      (p.2 = .dispatched → p.1 = .ready)
        ∧ (p.2 = .processing → p.1 ≠ .processing)
        ∧ (p.1 = .archived → False) := by
    decide
  obtain ⟨hd, hp, ha⟩ := hsource (f, t) hallowed
  refine ⟨fun ht => Or.inr ⟨?_, ?_⟩, fun ht => Or.inr ⟨?_, ?_⟩,
    fun hb => ⟨fun ht => ⟨?_, ?_⟩, fun hs => ?_⟩⟩
  · rw [hr]
    exact decide_eq_true (hd ht)
  · exact if_pos ht
  · rw [hr]
    exact decide_eq_true (hp ht)
  · exact if_pos ht
  · have ht' : t = .failed := ht
    simp [transitionValues, ht']
  · have ht' : t = .failed := ht
    unfold ErrorFits at he
    unfold transitionValues
    split at he
    · rename_i e hextra
      rw [hextra]
      rfl
    · exact absurd ht' he
    · exact absurd ht' he.1
  · unfold ErrorFits at he
    unfold transitionValues at hs ⊢
    simp only at hs ⊢
    split at he
    · exact Or.inl he
    · rename_i hextra
      rw [hextra] at hs
      cases hs
    · -- the row kept its error, so it had failed
      rename_i hextra
      rw [hextra] at hs
      rcases hb.error hs with hf | hf
      · exact Or.inr (he.2 (hr.symm.trans hf))
      · exact (ha (hr.symm.trans hf)).elim

theorem transition_books {jobs jobs' : Table ProcessingJob} {j : Uuid}
    {f t : JobState} {extra : JobExtra}
    (h : transition jobs now j f t extra = .ok jobs')
    (he : ErrorFits f t extra) : BooksEvolve now jobs jobs' := by
  have hallowed := (transition_ok h).1
  refine Table.Evolves.mono (fun r r' hr => ?_) (fun _ hb => hb.elim)
    (transition_rows h)
  split at hr
  · obtain ⟨hf, rfl⟩ := hr
    exact transitionValues_bookMove hallowed he hf
  · subst hr
    exact BookMove.refl r'

/-- The start's transition; the session it writes is no part of the
books. -/
theorem started_books {jobs jobs' : Table ProcessingJob} {j sid : Uuid}
    (h : transition jobs now j .dispatched .processing JobExtra.none
      = .ok jobs') : BooksEvolve now jobs (setCurrentSession jobs' j sid) := by
  have hset : Table.Evolves (fun r r' : ProcessingJob =>
      r' = { r with currentSessionId := r'.currentSessionId })
      (fun _ => False) jobs' (setCurrentSession jobs' j sid) := by
    refine Table.Evolves.updateWhere (fun _ => ?_) jobs' fun _ _ _ => ?_
    · rfl
    · rfl
  refine ((transition_books h ⟨by simp, fun h => by cases h⟩).comp
    hset).mono ?_ ?_
  · rintro r r' ⟨r₁, hm, hr'⟩
    rw [hr']
    exact ⟨hm.dispatched, hm.processing,
      fun hb => ⟨(hm.booked hb).failed, (hm.booked hb).error⟩⟩
  · rintro r (⟨r₁, hb, hr⟩ | hb)
    · rw [hr]
      exact ⟨hb.state, hb.error⟩
    · exact hb.elim

/-- A dispatch pass moves ready jobs, each once. -/
theorem dispatchRows_books (now : Time) (rows : List ProcessingJob)
    (jobs : Table ProcessingJob) :
    BooksEvolve now jobs (dispatchRows now rows jobs).1 := by
  have hpass : ∀ (rows : List ProcessingJob) (jobs : Table ProcessingJob),
      Table.Evolves (fun r r' => r' = r ∨ (r.state = .ready
        ∧ r' = transitionValues .dispatched now JobExtra.none r))
        Opened jobs (dispatchRows now rows jobs).1 := by
    intro rows
    induction rows with
    | nil => exact Table.Evolves.refl fun _ => Or.inl rfl
    | cons job rest ih =>
        intro jobs
        unfold dispatchRows
        cases ht : transition jobs now job.id .ready .dispatched
            JobExtra.none with
        | error e => exact ih jobs
        | ok jobs' =>
            refine ((transition_rows ht).comp (ih jobs')).mono ?_ ?_
            · rintro r r' ⟨r₁, hr₁, hr'⟩
              split at hr₁
              · obtain ⟨hready, rfl⟩ := hr₁
                rcases hr' with rfl | ⟨hd, -⟩
                · exact Or.inr ⟨hready, rfl⟩
                · cases hd
              · subst hr₁
                exact hr'
            · rintro r (⟨_, hb, -⟩ | hb)
              · exact hb.elim
              · exact hb
  refine (hpass rows jobs).mono ?_ fun _ hb => hb
  rintro r r' (rfl | ⟨hready, rfl⟩)
  · exact BookMove.refl r'
  · exact transitionValues_bookMove (f := .ready) (by decide)
      ⟨by simp, (fun h => by cases h)⟩ hready

/-- Not past the sweeper's deadline is not older than the lease. -/
theorem not_expired_iff (t t₀ lease : Time) :
    expiredBefore (some t₀) (t - lease) ≠ true ↔ t - t₀ ≤ lease := by
  have h : ∀ t t₀ lease : Int, ¬ t₀ < t - lease ↔ t - t₀ ≤ lease := by
    omega
  unfold expiredBefore
  rw [ne_eq, decide_eq_true_iff]
  exact h t t₀ lease

/-- What the sweeper leaves of a row. -/
def reapRow (cfg : Settings) (now : Time) (r : ProcessingJob) :
    ProcessingJob :=
  if r.state = .dispatched
      ∧ expiredBefore r.dispatchedAt (now - cfg.dispatchLeaseSec) then
    { r with state := .ready, dispatchedAt := none }
  else if r.state = .processing
      ∧ expiredBefore r.processingStartedAt
        (now - cfg.processingLeaseSec) then
    { r with
      state := .failed
      lastError := some "processing lease expired without progress"
      errorKind := some "stuck"
      finishedAt := some now }
  else r

/-- A row the first update reverts is none of the second's. -/
theorem get_reapStuck (cfg : Settings) (jobs : Table ProcessingJob)
    (now : Time) (k : Uuid) :
    (reapStuck cfg jobs now).get k = (jobs.get k).map (reapRow cfg now) := by
  unfold reapStuck
  simp only [Table.get_updateWhere, Option.map_map]
  congr 1
  funext r
  unfold reapRow
  by_cases hd : r.state = .dispatched
      ∧ expiredBefore r.dispatchedAt (now - cfg.dispatchLeaseSec) = true
  · simp [hd]
  · rw [if_neg hd]
    simp [hd]

theorem reapStuck_books (cfg : Settings) (jobs : Table ProcessingJob)
    (now : Time) : BooksEvolve now jobs (reapStuck cfg jobs now) := by
  refine ⟨fun {k r} hk => ⟨reapRow cfg now r, ?_, ?_⟩,
    fun {k r'} h₀ hk => ?_⟩
  · rw [get_reapStuck, hk]
    rfl
  · unfold reapRow
    split
    · rename_i hd
      refine ⟨(fun h => by cases h), (fun h => by cases h),
        fun hb => ⟨(fun h => by cases h), fun he => ?_⟩⟩
      rcases hb.error he with hf | hf
      · rw [hd.1] at hf
        cases hf
      · rw [hd.1] at hf
        cases hf
    · split
      · exact ⟨(fun h => by cases h), (fun h => by cases h),
          fun _ => ⟨fun _ => ⟨rfl, rfl⟩, fun _ => Or.inl rfl⟩⟩
      · exact BookMove.refl r
  · rw [get_reapStuck, h₀] at hk
    cases hk

/-- A job that ingestion adds is first committed as `ready`. -/
theorem promoteToReady_books {jobs jobs' : Table ProcessingJob}
    {id itemId : Uuid} {owner : String}
    (h : promoteToReady jobs now id itemId owner = some jobs') :
    BooksEvolve now jobs jobs' := by
  rcases promoteToReady_cases h with rfl | ⟨job, ht⟩ | ⟨jobs₁, hins, ht⟩
  · exact Table.Evolves.refl BookMove.refl jobs'
  · exact transition_books ht ⟨by simp, fun h => by cases h⟩
  · have hnew : Table.Evolves (fun r r' : ProcessingJob => r' = r)
        (fun r => r = newJob id itemId owner now) jobs jobs₁ := by
      refine Table.Evolves.insert (fun _ => ?_) hins ?_
      · rfl
      · rfl
    refine (hnew.comp (transition_rows ht)).mono ?_ ?_
    · rintro r r' ⟨r₁, rfl, hr'⟩
      split at hr'
      · obtain ⟨hr, rfl⟩ := hr'
        exact transitionValues_bookMove (f := .intake) (by decide)
          ⟨by simp, (fun h => by cases h)⟩ hr
      · subst hr'
        exact BookMove.refl _
    · rintro r (⟨r₁, rfl, hr⟩ | hb)
      · have hkey : (newJob id itemId owner now).id = id := rfl
        rw [if_pos hkey] at hr
        obtain ⟨-, rfl⟩ := hr
        exact ⟨rfl, rfl⟩
      · exact hb.elim

/-- Every writer keeps the books. -/
theorem JobsWrite.books {jobs jobs' : Table ProcessingJob}
    (h : JobsWrite cfg now jobs jobs') : BooksEvolve now jobs jobs' := by
  cases h with
  | same => exact Table.Evolves.refl BookMove.refl _
  | moved ht he => exact transition_books ht he
  | started ht => exact started_books ht
  | dispatched rows => exact dispatchRows_books now rows _
  | reaped => exact reapStuck_books cfg _ now
  | promoted hp => exact promoteToReady_books hp

/-- Every committed transaction keeps the books. -/
theorem commit_books (h : tx.commit cfg now db = .ok db') :
    BooksEvolve now db.jobs db'.jobs :=
  (commit_jobsWrite h).books

end LegalBot
