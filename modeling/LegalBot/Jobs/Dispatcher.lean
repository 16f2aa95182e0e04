/-
What one `dispatch_once` transaction selects and writes.

`pick_ready_jobs` is a selection in the sense of `Lib/Selection.lean`:
the first `limit` ready rows that nobody holds locked, under the order
of its `ORDER BY` (`pickReadyJobs_first`). The transition loop finds each
of them still `ready`, since the transaction holds their row locks, so it
moves them all and nothing else (`dispatchRows_ready`).
-/
import LegalBot.Jobs.Service
import LegalBot.Lib.Selection

namespace LegalBot

open Relational (HasKey Table)
open Selection (First)

-- =============================================================== the order

instance : Std.Total dispatchOrder := ⟨fun a b => by
  unfold dispatchOrder
  rcases lt_trichotomy a.priority b.priority with h | h | h
  · exact Or.inr (Or.inl h)
  · rcases le_total a.createdAt b.createdAt with ht | ht
    · exact Or.inl (Or.inr ⟨h, ht⟩)
    · exact Or.inr (Or.inr ⟨h.symm, ht⟩)
  · exact Or.inl (Or.inl h)⟩

instance : IsTrans ProcessingJob dispatchOrder := ⟨fun a b c hab hbc => by
  unfold dispatchOrder at *
  rcases hab with hab | ⟨hab, htab⟩
  · rcases hbc with hbc | ⟨hbc, -⟩
    · exact Or.inl (hbc.trans hab)
    · exact Or.inl (hbc ▸ hab)
  · rcases hbc with hbc | ⟨hbc, htbc⟩
    · exact Or.inl (hab ▸ hbc)
    · exact Or.inr ⟨hab.trans hbc, htab.trans htbc⟩⟩

-- ============================================================ the selection

/-- The ready rows that are not locked. -/
def readyRows (jobs : Table ProcessingJob) (locked : List Uuid) :
    List ProcessingJob :=
  jobs.rows.filter fun r => r.state = .ready ∧ r.id ∉ locked

section Selection

variable {jobs : Table ProcessingJob} {locked : List Uuid} {limit : Nat}
  {r : ProcessingJob}

theorem mem_readyRows :
    r ∈ readyRows jobs locked
      ↔ jobs.get r.id = some r ∧ r.state = .ready ∧ r.id ∉ locked := by
  unfold readyRows
  rw [List.mem_filter, Table.mem_rows, decide_eq_true_iff]
  rfl

theorem nodup_rows (jobs : Table ProcessingJob) : jobs.rows.Nodup :=
  List.Nodup.of_map _ jobs.nodup

theorem nodup_readyRows (jobs : Table ProcessingJob)
    (locked : List Uuid) : (readyRows jobs locked).Nodup :=
  (nodup_rows jobs).filter _

/-- The pick is the first `limit` of the ready rows. -/
theorem pickReadyJobs_first (jobs : Table ProcessingJob) (limit : Nat)
    (locked : List Uuid) :
    First dispatchOrder (readyRows jobs locked) limit
      (pickReadyJobs jobs limit locked) :=
  Selection.first_take (nodup_readyRows jobs locked) limit

theorem mem_pickReadyJobs (h : r ∈ pickReadyJobs jobs limit locked) :
    jobs.get r.id = some r ∧ r.state = .ready ∧ r.id ∉ locked :=
  mem_readyRows.mp ((pickReadyJobs_first jobs limit locked).mem r h)

/-- Two stored rows of one id are one row. -/
theorem nodup_ids {rows : List ProcessingJob} (hn : rows.Nodup)
    (hrows : ∀ r ∈ rows, jobs.get r.id = some r) :
    (rows.map (·.id)).Nodup := by
  refine List.Nodup.map_on (fun a ha b hb hab => ?_) hn
  have hget := hrows a ha
  rw [hab, hrows b hb] at hget
  exact (Option.some.inj hget).symm

theorem nodup_pickReadyJobs (jobs : Table ProcessingJob) (limit : Nat)
    (locked : List Uuid) :
    ((pickReadyJobs jobs limit locked).map (·.id)).Nodup :=
  nodup_ids (pickReadyJobs_first jobs limit locked).nodup fun _ hr =>
    (mem_pickReadyJobs hr).1

end Selection

-- ================================================================ the loop

/-- The row a dispatch writes. -/
def dispatchedRow (now : Time) (row : ProcessingJob) : ProcessingJob :=
  transitionValues .dispatched now JobExtra.none row

/-- A row that is still `ready` is dispatched. -/
theorem transition_ready {jobs : Table ProcessingJob}
    {job : ProcessingJob} (now : Time) (hget : jobs.get job.id = some job)
    (hready : job.state = .ready) :
    ∃ jobs', transition jobs now job.id .ready .dispatched JobExtra.none
        = .ok jobs'
      ∧ ∀ k, jobs'.get k
        = if k = job.id then some (dispatchedRow now job)
          else jobs.get k := by
  have hallowed : (JobState.ready, JobState.dispatched)
      ∈ allowedTransitions := by decide
  obtain ⟨jobs', ht⟩ :=
    (transition_succeeds hget hallowed now JobExtra.none).mpr hready
  obtain ⟨-, row, hrow, -, hgets⟩ := transition_ok ht
  obtain rfl : job = row := Option.some.inj (hget.symm.trans hrow)
  exact ⟨jobs', ht, hgets⟩

/-- The loop moves every row that is still `ready`, and nothing else. -/
theorem dispatchRows_ready (now : Time) :
    ∀ {rows : List ProcessingJob} {jobs : Table ProcessingJob},
      (rows.map (·.id)).Nodup →
      (∀ r ∈ rows, jobs.get r.id = some r ∧ r.state = .ready) →
      (dispatchRows now rows jobs).2 = rows.map (·.id)
        ∧ ∀ k, (dispatchRows now rows jobs).1.get k
          = if k ∈ rows.map (·.id)
            then (jobs.get k).map (dispatchedRow now)
            else jobs.get k := by
  intro rows
  induction rows with
  | nil => exact fun _ _ => ⟨rfl, fun _ => rfl⟩
  | cons job rest ih =>
      intro jobs hn hrows
      obtain ⟨hget, hready⟩ := hrows job List.mem_cons_self
      obtain ⟨jobs', ht, hgets⟩ := transition_ready now hget hready
      obtain ⟨hout, hrest⟩ := List.nodup_cons.mp hn
      have hkept : ∀ r ∈ rest,
          jobs'.get r.id = some r ∧ r.state = .ready := by
        intro r hr
        have hne : r.id ≠ job.id := fun h =>
          hout (List.mem_map.mpr ⟨r, hr, h⟩)
        rw [hgets, if_neg hne]
        exact hrows r (List.mem_cons_of_mem job hr)
      obtain ⟨hids, hthen⟩ := ih hrest hkept
      unfold dispatchRows
      simp only [ht]
      refine ⟨congrArg (job.id :: ·) hids, fun k => ?_⟩
      rw [hthen k, hgets k]
      by_cases hk : k = job.id
      · subst hk
        simp [hout, hget]
      · simp [hk]

/-- What a dispatch transaction does to the job table. -/
theorem dispatch_writes (now : Time) (jobs : Table ProcessingJob)
    (limit : Nat) (locked : List Uuid) :
    (dispatchRows now (pickReadyJobs jobs limit locked) jobs).2
        = (pickReadyJobs jobs limit locked).map (·.id)
      ∧ ∀ k, (dispatchRows now (pickReadyJobs jobs limit locked)
          jobs).1.get k
        = if k ∈ (pickReadyJobs jobs limit locked).map (·.id)
          then (jobs.get k).map (dispatchedRow now) else jobs.get k :=
  dispatchRows_ready now (nodup_pickReadyJobs jobs limit locked)
    fun _ hr => ⟨(mem_pickReadyJobs hr).1, (mem_pickReadyJobs hr).2.1⟩

end LegalBot
