/-
The job state machine: `jobs/models.py`, `jobs/service.py`,
`jobs/sweeper.py` and the selection half of `jobs/dispatcher.py`, as
functions on the `processing_job` table.

# Reads and writes are separate statements

Under READ COMMITTED a service method that reads a row and then updates
it acts on two snapshots. `retry`, `cancel` and `archive` therefore take
the row their `_get` returned as an argument, next to the table their
`UPDATE` runs against; whoever interleaves the two statements decides
how stale that row is. The `UPDATE` itself is guarded (`WHERE state =
:from_state`), re-checked against the committed row when it obtains the
row lock, and holds that lock until commit, so a guarded update is one
atomic step on the table at commit time.

# One specification for every writer

`JobMove M` is all a writer may do to one row: keep the columns fixed at
creation, and keep the state or change it along `M`. Each writer has one
`_evolves` lemma that names its own `M`: a single pair for the guarded
path, the two lease pairs for the sweeper's raw `UPDATE`s, which skip
the guard. `JobMove.conforms` collects those `M` that stay inside
`allowedTransitions`.
-/
import LegalBot.Db.Models
import Mathlib.Data.Finset.Card
import Mathlib.Data.List.Sort

namespace LegalBot

open Relational (HasKey Table)

-- ======================================================= jobs/models.py

/-- `ALLOWED_TRANSITIONS`: the legal `(from_state, to_state)` pairs. -/
def allowedTransitions : List (JobState × JobState) :=
  [(.intake, .ready),
   (.intake, .failed),
   (.ready, .dispatched),
   (.ready, .archived),
   (.dispatched, .processing),
   (.dispatched, .ready),  -- sweeper reverting stale lease
   (.dispatched, .failed),
   (.processing, .awaitingHuman),
   (.processing, .completed),
   (.processing, .failed),
   (.awaitingHuman, .processing),
   (.awaitingHuman, .failed),
   (.awaitingHuman, .completed),
   (.failed, .ready),  -- operator retry
   (.failed, .archived),
   (.completed, .archived)]

/-- The column value of a state. -/
def JobState.value : JobState → String
  | .intake => "intake"
  | .ready => "ready"
  | .dispatched => "dispatched"
  | .processing => "processing"
  | .awaitingHuman => "awaiting_human"
  | .completed => "completed"
  | .failed => "failed"
  | .archived => "archived"

/-- `InvalidJobTransition`, by its two `raise` sites. -/
inductive InvalidJobTransition where
  | notAllowed (fromState toState : JobState)
  | notInExpectedState (jobId : Uuid) (fromState : JobState)
  deriving DecidableEq, Repr

/-- `str(exc)`. -/
def InvalidJobTransition.message : InvalidJobTransition → String
  | .notAllowed f t => f.value ++ " -> " ++ t.value ++ " not allowed"
  | .notInExpectedState j f =>
      "job " ++ toString j ++ " not in expected state '" ++ f.value ++ "'"

-- ====================================================== jobs/service.py

/-- The `extra` dict of `transition`: the columns a caller overrides. -/
structure JobExtra where
  attempts : Option Nat
  lastError : Option (Option String)
  errorKind : Option (Option String)

/-- No `extra`. -/
def JobExtra.none : JobExtra := ⟨.none, .none, .none⟩

/-- The `values` of the guarded `UPDATE`: the state, the timestamps its
target owns, then `values.update(extra)`. -/
def transitionValues (toState : JobState) (now : Time) (extra : JobExtra)
    (job : ProcessingJob) : ProcessingJob :=
  { job with
    state := toState
    updatedAt := now
    dispatchedAt :=
      if toState = .dispatched then some now else job.dispatchedAt
    processingStartedAt :=
      if toState = .processing then some now
      else job.processingStartedAt
    finishedAt :=
      if toState = .completed ∨ toState = .failed ∨ toState = .archived
      then some now else job.finishedAt
    attempts := extra.attempts.getD job.attempts
    lastError := extra.lastError.getD job.lastError
    errorKind := extra.errorKind.getD job.errorKind }

/-- `JobService.transition`: the pair must be legal and the committed
row must still be in `fromState`. -/
def transition (jobs : Table ProcessingJob) (now : Time) (jobId : Uuid)
    (fromState toState : JobState) (extra : JobExtra) :
    Except InvalidJobTransition (Table ProcessingJob) :=
  if (fromState, toState) ∉ allowedTransitions then
    .error (.notAllowed fromState toState)
  else
    match jobs.get jobId with
    | some row =>
        if row.state = fromState then
          .ok (jobs.updateWhere
            (fun r => r.id = jobId ∧ r.state = fromState)
            (transitionValues toState now extra))
        else .error (.notInExpectedState jobId fromState)
    | none => .error (.notInExpectedState jobId fromState)

/-- `JobService.retry`, on the row its `_get` read. -/
def retry (job : ProcessingJob) (jobs : Table ProcessingJob)
    (now : Time) : Except InvalidJobTransition (Table ProcessingJob) :=
  transition jobs now job.id .failed .ready
    ⟨some (job.attempts + 1), some none, some none⟩

/-- `JobService.cancel`, on the row its `_get` read. -/
def cancel (job : ProcessingJob) (reason : String)
    (jobs : Table ProcessingJob) (now : Time) :
    Except InvalidJobTransition (Table ProcessingJob) :=
  transition jobs now job.id job.state .failed
    ⟨none, some (some reason), some (some "cancelled_by_user")⟩

/-- `JobService.archive`, on the row its `_get` read. -/
def archive (job : ProcessingJob) (jobs : Table ProcessingJob)
    (now : Time) : Except InvalidJobTransition (Table ProcessingJob) :=
  transition jobs now job.id job.state .archived JobExtra.none

/-- `JobService.mark_failed`. -/
def markFailed (jobs : Table ProcessingJob) (now : Time) (jobId : Uuid)
    (fromState : JobState) (error errorKind : String) :
    Except InvalidJobTransition (Table ProcessingJob) :=
  transition jobs now jobId fromState .failed
    ⟨none, some (some (String.ofList (error.toList.take 2000))),
      some (some errorKind)⟩

/-- `JobService.set_current_session`. -/
def setCurrentSession (jobs : Table ProcessingJob) (jobId sessionId : Uuid) :
    Table ProcessingJob :=
  jobs.updateWhere (fun r => r.id = jobId)
    fun r => { r with currentSessionId := some sessionId }

/-- The row `create_for_item` inserts. -/
def newJob (id itemId : Uuid) (ownerUserId : String) (now : Time) :
    ProcessingJob :=
  { id := id, ingestionItemId := itemId, state := .intake, priority := 0
    attempts := 0, lastError := none, errorKind := none
    dispatchedAt := none, processingStartedAt := none, finishedAt := none
    currentSessionId := none, ownerUserId := ownerUserId
    createdAt := now, updatedAt := now }

/-- `JobService.create_for_item`: `INSERT … ON CONFLICT
(ingestion_item_id) DO NOTHING RETURNING *`, else the existing row.
Fails only on an id that is not fresh. -/
def createForItem (jobs : Table ProcessingJob) (now : Time)
    (id itemId : Uuid) (ownerUserId : String) :
    Option (Table ProcessingJob × ProcessingJob) :=
  match jobs.rows.find? fun r => r.ingestionItemId = itemId with
  | some existing => some (jobs, existing)
  | none =>
      (jobs.insert (newJob id itemId ownerUserId now)).map fun jobs' =>
        (jobs', newJob id itemId ownerUserId now)

/-- `IngestionItemService.promote_to_ready`: the insert and the
`intake -> ready` transition of one transaction. -/
def promoteToReady (jobs : Table ProcessingJob) (now : Time)
    (id itemId : Uuid) (ownerUserId : String) :
    Option (Table ProcessingJob) :=
  match createForItem jobs now id itemId ownerUserId with
  | none => none
  | some (jobs', job) =>
      if job.state = .intake then
        (transition jobs' now job.id .intake .ready JobExtra.none).toOption
      else some jobs'

-- ====================================================== jobs/sweeper.py

/-- The settings the orchestration reads. -/
structure Settings where
  maxConcurrentRuns : Nat
  dispatchLeaseSec : Nat
  processingLeaseSec : Nat
  interruptTtlSec : Nat
  kgEnabled : Bool

/-- The defaults of `core/config.py`. -/
def Settings.default : Settings :=
  { maxConcurrentRuns := 10, dispatchLeaseSec := 120
    processingLeaseSec := 1800, interruptTtlSec := 60 * 60 * 72
    kgEnabled := true }

/-- `t < deadline` on a nullable column: NULL never compares. -/
def expiredBefore (t : Option Time) (deadline : Time) : Bool :=
  match t with
  | some t => t < deadline
  | none => false

/-- `reap_stuck`: two raw `UPDATE`s in one transaction. The first
reverts stale dispatched leases, the second fails processing rows past
their lease; a row the first one reverted is `ready` for the second. -/
def reapStuck (cfg : Settings) (jobs : Table ProcessingJob)
    (now : Time) : Table ProcessingJob :=
  let dispatchDeadline := now - cfg.dispatchLeaseSec
  let processingDeadline := now - cfg.processingLeaseSec
  (jobs.updateWhere
      (fun r => r.state = .dispatched
        ∧ expiredBefore r.dispatchedAt dispatchDeadline)
      fun r => { r with state := .ready, dispatchedAt := none }).updateWhere
    (fun r => r.state = .processing
      ∧ expiredBefore r.processingStartedAt processingDeadline)
    fun r =>
      { r with
        state := .failed
        lastError := some "processing lease expired without progress"
        errorKind := some "stuck"
        finishedAt := some now }

-- =================================================== jobs/dispatcher.py

/-- `ConcurrencyBudget.current`. -/
def budgetCurrent (cfg : Settings) (inFlight : Finset Uuid) : Nat :=
  cfg.maxConcurrentRuns - inFlight.card

/-- `ORDER BY priority DESC, created_at`. -/
def dispatchOrder (a b : ProcessingJob) : Prop :=
  b.priority < a.priority
    ∨ (a.priority = b.priority ∧ a.createdAt ≤ b.createdAt)

instance : DecidableRel dispatchOrder := fun a b => by
  unfold dispatchOrder
  infer_instance

/-- `pick_ready_jobs`: `FOR UPDATE SKIP LOCKED LIMIT :limit`, with the
rows another transaction holds locked as a parameter. -/
def pickReadyJobs (jobs : Table ProcessingJob) (limit : Nat)
    (locked : List Uuid) : List ProcessingJob :=
  ((jobs.rows.filter fun r => r.state = .ready ∧ r.id ∉ locked).insertionSort
    dispatchOrder).take limit

/-- The transition loop of `dispatch_once`: a row that is no longer
`ready` is skipped. Returns the table and the dispatched ids. -/
def dispatchRows (now : Time) :
    List ProcessingJob → Table ProcessingJob →
    Table ProcessingJob × List Uuid
  | [], jobs => (jobs, [])
  | job :: rest, jobs =>
      match transition jobs now job.id .ready .dispatched JobExtra.none with
      | .ok jobs' =>
          let (jobs'', ids) := dispatchRows now rest jobs'
          (jobs'', job.id :: ids)
      | .error _ => dispatchRows now rest jobs

-- ================================================= what a writer may do

/-- What one writer may do to one row: the columns fixed at creation
stay, the state stays or moves along `M`. -/
structure JobMove (M : Uuid → JobState → JobState → Prop)
    (r r' : ProcessingJob) : Prop where
  id : r'.id = r.id
  ingestionItemId : r'.ingestionItemId = r.ingestionItemId
  ownerUserId : r'.ownerUserId = r.ownerUserId
  createdAt : r'.createdAt = r.createdAt
  priority : r'.priority = r.priority
  state : r'.state = r.state ∨ M r.id r.state r'.state

/-- No state moves. -/
def NoMove : Uuid → JobState → JobState → Prop := fun _ _ _ => False

/-- The pairs of the table of transitions. -/
def AllowedMove : Uuid → JobState → JobState → Prop :=
  fun _ f t => (f, t) ∈ allowedTransitions

/-- The one pair a guarded transition of job `j` moves along. -/
def PairMove (j : Uuid) (f t : JobState) : Uuid → JobState → JobState → Prop :=
  fun k a b => k = j ∧ a = f ∧ b = t

/-- The two pairs of the sweeper. -/
def LeaseMove : Uuid → JobState → JobState → Prop := fun _ a b =>
  (a = .dispatched ∧ b = .ready) ∨ (a = .processing ∧ b = .failed)

section Moves

variable {M M' : Uuid → JobState → JobState → Prop}

theorem JobMove.refl (r : ProcessingJob) : JobMove M r r :=
  ⟨rfl, rfl, rfl, rfl, rfl, Or.inl rfl⟩

theorem JobMove.mono (hM : ∀ k a b, M k a b → M' k a b)
    {r r' : ProcessingJob} (h : JobMove M r r') : JobMove M' r r' :=
  { h with state := h.state.imp_right (hM _ _ _) }

/-- Two moves in a row, along pairs that never compose. -/
theorem JobMove.trans (hM : ∀ k a b c, M k a b → ¬ M k b c)
    {r₁ r₂ r₃ : ProcessingJob} (h₁ : JobMove M r₁ r₂)
    (h₂ : JobMove M r₂ r₃) : JobMove M r₁ r₃ := by
  refine ⟨h₂.id.trans h₁.id, h₂.ingestionItemId.trans h₁.ingestionItemId,
    h₂.ownerUserId.trans h₁.ownerUserId, h₂.createdAt.trans h₁.createdAt,
    h₂.priority.trans h₁.priority, ?_⟩
  rcases h₁.state with he₁ | hm₁
  · rcases h₂.state with he₂ | hm₂
    · exact Or.inl (he₂.trans he₁)
    · rw [h₁.id, he₁] at hm₂
      exact Or.inr hm₂
  · rcases h₂.state with he₂ | hm₂
    · rw [← he₂] at hm₁
      exact Or.inr hm₁
    · rw [h₁.id] at hm₂
      exact absurd hm₂ (hM _ _ _ _ hm₁)

end Moves

/-- How the job table changes under a writer. -/
def JobsEvolve (M : Uuid → JobState → JobState → Prop)
    (jobs jobs' : Table ProcessingJob) : Prop :=
  Table.Evolves (JobMove M) (fun r => r.state = .ready) jobs jobs'

theorem JobsEvolve.refl {M : Uuid → JobState → JobState → Prop}
    (jobs : Table ProcessingJob) : JobsEvolve M jobs jobs :=
  Table.Evolves.refl JobMove.refl jobs

theorem JobsEvolve.mono {M M' : Uuid → JobState → JobState → Prop}
    (hM : ∀ k a b, M k a b → M' k a b) {jobs jobs' : Table ProcessingJob}
    (h : JobsEvolve M jobs jobs') : JobsEvolve M' jobs jobs' :=
  Table.Evolves.mono (fun _ _ => JobMove.mono hM) (fun _ => id) h

-- ============================================================ the writers

/-- A successful transition, read as a lookup: the pair was legal, the
row was in `fromState`, and it alone was rewritten. -/
theorem transition_ok {jobs jobs' : Table ProcessingJob} {now : Time}
    {j : Uuid} {f t : JobState} {extra : JobExtra}
    (h : transition jobs now j f t extra = .ok jobs') :
    (f, t) ∈ allowedTransitions
      ∧ ∃ row, jobs.get j = some row ∧ row.state = f
        ∧ ∀ k, jobs'.get k
          = if k = j then some (transitionValues t now extra row)
            else jobs.get k := by
  unfold transition at h
  split at h
  · cases h
  rename_i hallowed
  refine ⟨by simpa using hallowed, ?_⟩
  cases hrow : jobs.get j with
  | none =>
      rw [hrow] at h
      cases h
  | some row =>
      rw [hrow] at h
      simp only at h
      split at h
      · rename_i hstate
        injection h with h
        subst h
        refine ⟨row, rfl, hstate, fun k => ?_⟩
        rw [Table.get_updateWhere]
        by_cases hk : k = j
        · subst hk
          have hid : row.id = k := Table.key_of_get hrow
          simp [hrow, hid, hstate]
        · rw [if_neg hk]
          cases hk' : jobs.get k with
          | none => rfl
          | some r =>
              have hid : r.id = k := Table.key_of_get hk'
              have hne : r.id ≠ j := fun e => hk (hid.symm.trans e)
              simp [hne]
      · cases h

/-- A legal transition succeeds exactly when the committed row is in
`fromState`. -/
theorem transition_succeeds {jobs : Table ProcessingJob} {j : Uuid}
    {row : ProcessingJob} (hrow : jobs.get j = some row) {f t : JobState}
    (hft : (f, t) ∈ allowedTransitions) (now : Time) (extra : JobExtra) :
    (∃ jobs', transition jobs now j f t extra = .ok jobs')
      ↔ row.state = f := by
  unfold transition
  rw [if_neg (by simpa using hft), hrow]
  simp only
  by_cases hs : row.state = f
  · simp [hs]
  · simp [hs]

/-- The guarded path moves one job along one legal pair. -/
theorem transition_evolves {jobs jobs' : Table ProcessingJob}
    {now : Time} {j : Uuid} {f t : JobState} {extra : JobExtra}
    (h : transition jobs now j f t extra = .ok jobs') :
    JobsEvolve (PairMove j f t) jobs jobs' := by
  obtain ⟨-, row, hrow, hstate, hget⟩ := transition_ok h
  have hid : row.id = j := Table.key_of_get hrow
  refine ⟨fun {k r} hk => ?_, fun {k r'} h₀ hk => ?_⟩
  · rw [hget k]
    by_cases hkj : k = j
    · rw [if_pos hkj]
      rw [hkj, hrow] at hk
      injection hk with hk
      subst hk
      exact ⟨_, rfl, rfl, rfl, rfl, rfl, rfl, Or.inr ⟨hid, hstate, rfl⟩⟩
    · rw [if_neg hkj]
      exact ⟨r, hk, JobMove.refl r⟩
  · have hkj : k ≠ j := by
      rintro rfl
      rw [hrow] at h₀
      cases h₀
    rw [hget k, if_neg hkj, h₀] at hk
    cases hk

/-- Setting `current_session_id` moves no state. -/
theorem setCurrentSession_evolves (jobs : Table ProcessingJob)
    (j s : Uuid) : JobsEvolve NoMove jobs (setCurrentSession jobs j s) :=
  Table.Evolves.updateWhere JobMove.refl jobs fun _ _ _ =>
    ⟨rfl, rfl, rfl, rfl, rfl, Or.inl rfl⟩

/-- The sweeper's raw updates move along the two lease pairs. -/
theorem reapStuck_evolves (cfg : Settings) (jobs : Table ProcessingJob)
    (now : Time) : JobsEvolve LeaseMove jobs (reapStuck cfg jobs now) := by
  -- a row the first update made ready is not processing for the second
  have hcompose : ∀ k a b c, LeaseMove k a b → ¬ LeaseMove k b c := by
    rintro k a b c (⟨rfl, rfl⟩ | ⟨rfl, rfl⟩) (⟨hb, -⟩ | ⟨hb, -⟩)
      <;> cases hb
  unfold reapStuck
  refine Table.Evolves.trans (fun _ _ _ => JobMove.trans hcompose) ?_
    (Table.Evolves.updateWhere JobMove.refl _ fun r _ hp => ?_)
    (Table.Evolves.updateWhere JobMove.refl _ fun r _ hp => ?_)
  · intro r r' hr h
    rcases h.state with hs | ⟨hs, -⟩ | ⟨hs, -⟩
    · exact hs.trans hr
    · rw [hr] at hs
      cases hs
    · rw [hr] at hs
      cases hs
  · have hdisp : r.state = .dispatched := by
      simp only [decide_eq_true_eq] at hp
      exact hp.1
    exact ⟨rfl, rfl, rfl, rfl, rfl, Or.inr (Or.inl ⟨hdisp, rfl⟩)⟩
  · have hproc : r.state = .processing := by
      simp only [decide_eq_true_eq] at hp
      exact hp.1
    exact ⟨rfl, rfl, rfl, rfl, rfl, Or.inr (Or.inr ⟨hproc, rfl⟩)⟩

/-- A dispatch pass only moves ready jobs to dispatched. -/
theorem dispatchRows_evolves (now : Time) :
    ∀ (rows : List ProcessingJob) (jobs : Table ProcessingJob),
      JobsEvolve (fun _ a b => a = .ready ∧ b = .dispatched) jobs
        (dispatchRows now rows jobs).1 := by
  intro rows
  induction rows with
  | nil => exact fun jobs => JobsEvolve.refl jobs
  | cons job rest ih =>
      intro jobs
      unfold dispatchRows
      cases ht : transition jobs now job.id .ready .dispatched
          JobExtra.none with
      | error e => exact ih jobs
      | ok jobs' =>
          have hfirst : JobsEvolve
              (fun _ a b => a = .ready ∧ b = .dispatched) jobs jobs' :=
            (transition_evolves ht).mono fun _ _ _ hm => hm.2
          -- the birth predicate is vacuous: a transition inserts nothing
          refine ⟨fun hk => ?_, fun {k r'} h₀ hk => ?_⟩
          · obtain ⟨r₁, hr₁, hm₁⟩ := hfirst.persists hk
            obtain ⟨r₂, hr₂, hm₂⟩ := (ih jobs').persists hr₁
            refine ⟨r₂, hr₂, JobMove.trans ?_ hm₁ hm₂⟩
            rintro _ a b c ⟨-, rfl⟩ ⟨hb, -⟩
            cases hb
          · obtain ⟨-, row, hrow, -, hget⟩ := transition_ok ht
            have hnone : jobs'.get k = none := by
              rw [hget k, h₀]
              split
              · rename_i hkj
                rw [hkj, hrow] at h₀
                cases h₀
              · rfl
            exact (ih jobs').born hnone hk

/-- What `promote_to_ready` does: nothing to a job past `intake`, a
transition of the job of the item, or an insert and the transition. -/
theorem promoteToReady_cases {jobs jobs' : Table ProcessingJob}
    {now : Time} {id itemId : Uuid} {owner : String}
    (h : promoteToReady jobs now id itemId owner = some jobs') :
    jobs' = jobs
      ∨ (∃ job : ProcessingJob,
        transition jobs now job.id .intake .ready JobExtra.none = .ok jobs')
      ∨ ∃ jobs₁, jobs.insert (newJob id itemId owner now) = some jobs₁
        ∧ transition jobs₁ now id .intake .ready JobExtra.none
          = .ok jobs' := by
  have hmoved : ∀ {t : Table ProcessingJob} {j : Uuid},
      (transition t now j .intake .ready JobExtra.none).toOption
        = some jobs' →
      transition t now j .intake .ready JobExtra.none = .ok jobs' := by
    intro t j ht
    cases hok : transition t now j .intake .ready JobExtra.none with
    | error e =>
        rw [hok] at ht
        cases ht
    | ok t' =>
        rw [hok] at ht
        cases ht
        rfl
  unfold promoteToReady createForItem at h
  cases hfind : jobs.rows.find? fun r => r.ingestionItemId = itemId with
  | some existing =>
      simp only [hfind] at h
      split at h
      · exact .inr (.inl ⟨existing, hmoved h⟩)
      · exact .inl (Option.some.inj h).symm
  | none =>
      simp only [hfind] at h
      cases hins : jobs.insert (newJob id itemId owner now) with
      | none =>
          rw [hins] at h
          cases h
      | some jobs₁ =>
          rw [hins, Option.map_some] at h
          exact .inr (.inr ⟨jobs₁, rfl, hmoved ((if_pos rfl).symm.trans h)⟩)

/-- Ingestion adds at most one job, already in `ready`. -/
theorem promoteToReady_evolves {jobs jobs' : Table ProcessingJob}
    {now : Time} {id itemId : Uuid} {owner : String}
    (h : promoteToReady jobs now id itemId owner = some jobs') :
    JobsEvolve (fun _ a b => a = .intake ∧ b = .ready) jobs jobs' := by
  rcases promoteToReady_cases h with rfl | ⟨job, ht⟩ | ⟨jobs₁, hins, ht⟩
  · exact JobsEvolve.refl jobs'
  · exact (transition_evolves ht).mono fun _ _ _ hm => hm.2
  · obtain ⟨-, row, -, -, hget⟩ := transition_ok ht
    have hfresh := Table.insert_fresh hins
    refine ⟨fun {k r} hk => ?_, fun {k r'} h₀ hk => ?_⟩
    · have hne : k ≠ id := by
        rintro rfl
        have hnone : jobs.get k = none := hfresh
        rw [hnone] at hk
        cases hk
      refine ⟨r, ?_, JobMove.refl r⟩
      rw [hget k]
      exact (if_neg hne).trans (Table.get_insert_of_some hins hk)
    · rw [hget k] at hk
      split at hk
      · injection hk with hk
        rw [← hk]
        rfl
      · rename_i hne
        have hkey : HasKey.key (newJob id itemId owner now) ≠ k :=
          fun e => hne e.symm
        rw [Table.get_insert hins k, if_neg hkey, h₀] at hk
        cases hk

end LegalBot
