/-
Per-owner fairness of `pick_ready_jobs`.

# What goes wrong

The docstring promises a window function "to prevent one owner's backlog
from starving the others"; the statement has none. It takes the first
jobs by priority and age, whoever owns them, so an owner whose older jobs
fill the limit keeps everybody else out of the pick.

# The condition

An owner is in the pick exactly when fewer than `limit` ready jobs stand
in front of its first one (`inFront`). So the pick is fair exactly when
that holds of enough owners: no more of the first `limit` places may be
taken by second and later jobs of an owner than the limit can spare.

# What age alone gives

A ready job is not passed over for ever: jobs that are added later get in
behind it, so every pass that passes it over brings it forward by a full
limit (`passes_bounded`).
-/
import LegalBot.Jobs.Dispatcher
import Mathlib.Algebra.GroupWithZero.Nat

namespace LegalBot

open Relational (HasKey Table)
open Selection (First ahead mem_ahead firstAt)

-- ============================================================== statements

/-- The ready jobs of the highest priority. -/
def topJobs (jobs : Table ProcessingJob) : List ProcessingJob :=
  (readyRows jobs []).filter fun r =>
    ∀ r' ∈ readyRows jobs [], r'.priority ≤ r.priority

/-- Their owners. -/
def topOwners (jobs : Table ProcessingJob) : Finset String :=
  ((topJobs jobs).map (·.ownerUserId)).toFinset

/-- The owners of the jobs a pick returns. -/
def pickedOwners (jobs : Table ProcessingJob) (limit : Nat) :
    Finset String :=
  ((pickReadyJobs jobs limit []).map (·.ownerUserId)).toFinset

/-- The pick returns jobs of as many of these owners as it can. -/
def FairPick (jobs : Table ProcessingJob) (limit : Nat) : Prop :=
  min limit (topOwners jobs).card ≤ (pickedOwners jobs limit).card

/-- How many ready jobs stand in front of the first one of an owner, in
dispatch order. -/
def inFront (jobs : Table ProcessingJob) (owner : String) : Nat :=
  firstAt (·.ownerUserId) ((readyRows jobs []).insertionSort dispatchOrder)
    owner

/-- Enough owners have a backlog of less than the limit in front of
them. -/
def BacklogFits (jobs : Table ProcessingJob) (limit : Nat) : Prop :=
  min limit (topOwners jobs).card
    ≤ ((topOwners jobs).filter fun o => inFront jobs o < limit).card

/-- What may happen to the table between two passes while `w` waits:
nothing becomes ready in front of it. -/
structure BehindOf (w : ProcessingJob) (jobs jobs' : Table ProcessingJob) :
    Prop where
  waits : jobs'.get w.id = jobs.get w.id
  behind : ∀ r ∈ readyRows jobs' [], dispatchOrder r w →
    r ∈ readyRows jobs []

/-- A run of dispatch passes, with their limits, none of which picks
`w`. -/
inductive PassedOver (w : ProcessingJob) :
    Table ProcessingJob → List Nat → Prop
  | done (jobs : Table ProcessingJob) : PassedOver w jobs []
  | pass {jobs jobs' : Table ProcessingJob} {limit : Nat}
      {limits : List Nat} (now : Time) :
      w ∉ pickReadyJobs jobs limit [] →
      BehindOf w (dispatchRows now (pickReadyJobs jobs limit [])
        jobs).1 jobs' →
      PassedOver w jobs' limits → PassedOver w jobs (limit :: limits)

-- ================================================================ one pick

section Pick

variable {jobs : Table ProcessingJob} {limit : Nat}

theorem mem_topJobs {r : ProcessingJob} :
    r ∈ topJobs jobs ↔ r ∈ readyRows jobs []
      ∧ ∀ r' ∈ readyRows jobs [], r'.priority ≤ r.priority := by
  unfold topJobs
  rw [List.mem_filter, decide_eq_true_iff]

theorem mem_topOwners {o : String} :
    o ∈ topOwners jobs ↔ ∃ r ∈ topJobs jobs, r.ownerUserId = o := by
  unfold topOwners
  rw [List.mem_toFinset, List.mem_map]

/-- An owner is in the pick when few jobs stand in front of it. -/
theorem mem_pickedOwners {o : String} (ho : o ∈ topOwners jobs) :
    o ∈ pickedOwners jobs limit ↔ inFront jobs o < limit := by
  obtain ⟨r, hr, howner⟩ := mem_topOwners.mp ho
  have hqueued : o ∈ ((readyRows jobs []).insertionSort
      dispatchOrder).map (·.ownerUserId) := by
    refine List.mem_map.mpr ⟨r, ?_, howner⟩
    exact (List.mem_insertionSort _).mpr (mem_topJobs.mp hr).1
  unfold pickedOwners inFront
  rw [List.mem_toFinset]
  exact Selection.key_mem_take hqueued

/-- A pick that takes a job of a lower priority has taken all of the
highest. -/
theorem topOwners_subset {r : ProcessingJob}
    (hr : r ∈ pickReadyJobs jobs limit []) (hlow : r ∉ topJobs jobs) :
    topOwners jobs ⊆ pickedOwners jobs limit := by
  have hfirst := pickReadyJobs_first jobs limit []
  intro o ho
  obtain ⟨t, ht, howner⟩ := mem_topOwners.mp ho
  have hready := (mem_topJobs.mp ht).1
  have hpicked : t ∈ pickReadyJobs jobs limit [] := by
    by_contra hno
    -- `r` comes before `t`, so it has its priority
    refine hlow (mem_topJobs.mpr ⟨hfirst.mem r hr, fun r' hr' => ?_⟩)
    have htop := (mem_topJobs.mp ht).2 r' hr'
    rcases hfirst.first r hr t hready hno with hlt | ⟨heq, -⟩
    · exact htop.trans hlt.le
    · exact htop.trans heq.ge
  unfold pickedOwners
  rw [List.mem_toFinset]
  exact List.mem_map.mpr ⟨t, hpicked, howner⟩

/-- The picked owners of top jobs are those with few jobs in front. -/
theorem filter_inFront :
    ((topOwners jobs).filter fun o => inFront jobs o < limit)
      = topOwners jobs ∩ pickedOwners jobs limit := by
  ext o
  rw [Finset.mem_filter, Finset.mem_inter]
  constructor
  · rintro ⟨ho, hfew⟩
    exact ⟨ho, (mem_pickedOwners ho).mpr hfew⟩
  · rintro ⟨ho, hpicked⟩
    exact ⟨ho, (mem_pickedOwners ho).mp hpicked⟩

theorem fairPick_iff : FairPick jobs limit ↔ BacklogFits jobs limit := by
  unfold FairPick BacklogFits
  rw [filter_inFront]
  constructor
  · intro hfair
    by_cases hall : ∀ r ∈ pickReadyJobs jobs limit [], r ∈ topJobs jobs
    · have hsub : pickedOwners jobs limit ⊆ topOwners jobs := by
        intro o ho
        unfold pickedOwners at ho
        rw [List.mem_toFinset] at ho
        obtain ⟨r, hr, howner⟩ := List.mem_map.mp ho
        exact mem_topOwners.mpr ⟨r, hall r hr, howner⟩
      rwa [Finset.inter_eq_right.mpr hsub]
    · push Not at hall
      obtain ⟨r, hr, hlow⟩ := hall
      rw [Finset.inter_eq_left.mpr (topOwners_subset hr hlow)]
      exact Nat.min_le_right _ _
  · intro hfits
    exact hfits.trans (Finset.card_le_card Finset.inter_subset_right)

end Pick

-- ============================================================ many passes

section Waiting

variable {w : ProcessingJob} {jobs jobs' : Table ProcessingJob}

/-- Jobs that are added after `w`, with at most its priority, get in
behind it. -/
theorem behind_of_added {added : List ProcessingJob}
    (hrows : jobs'.rows = jobs.rows ++ added)
    (hw : jobs.get w.id = some w)
    (hlater : ∀ r ∈ added, r.priority ≤ w.priority
      ∧ w.createdAt < r.createdAt) : BehindOf w jobs jobs' := by
  constructor
  · have hmem : w ∈ jobs'.rows := by
      rw [hrows]
      exact List.mem_append_left _ (Table.mem_rows.mpr hw)
    rw [hw]
    exact Table.mem_rows.mp hmem
  · intro r hr hbefore
    obtain ⟨hget, hready, hfree⟩ := mem_readyRows.mp hr
    have hmem : r ∈ jobs'.rows := Table.mem_rows.mpr hget
    rw [hrows] at hmem
    rcases List.mem_append.mp hmem with hold | hnew
    · exact mem_readyRows.mpr ⟨Table.mem_rows.mp hold, hready, hfree⟩
    · obtain ⟨hprio, htime⟩ := hlater r hnew
      rcases hbefore with hlt | ⟨-, hle⟩
      · exact absurd hprio (not_le.mpr hlt)
      · exact absurd htime (not_lt.mpr hle)

/-- A pass that passes a ready job over: it stays as it is, and what is
ready afterwards was ready before and was not picked. -/
theorem pass_leaves {limit : Nat} {now : Time}
    (hw : w ∈ readyRows jobs [])
    (hno : w ∉ pickReadyJobs jobs limit []) :
    (dispatchRows now (pickReadyJobs jobs limit []) jobs).1.get w.id
        = some w
      ∧ ∀ r ∈ readyRows (dispatchRows now
          (pickReadyJobs jobs limit []) jobs).1 [],
        r ∈ readyRows jobs [] ∧ r ∉ pickReadyJobs jobs limit [] := by
  have hget := (dispatch_writes now jobs limit []).2
  constructor
  · have hother : w.id ∉ (pickReadyJobs jobs limit []).map (·.id) := by
      intro hin
      obtain ⟨r, hr, hid⟩ := List.mem_map.mp hin
      have hrow := (mem_pickReadyJobs hr).1
      rw [hid, (mem_readyRows.mp hw).1] at hrow
      exact hno (Option.some.inj hrow ▸ hr)
    rw [hget, if_neg hother]
    exact (mem_readyRows.mp hw).1
  · intro r hr
    obtain ⟨hrow, hready, hfree⟩ := mem_readyRows.mp hr
    rw [hget] at hrow
    split at hrow
    · obtain ⟨old, -, rfl⟩ := Option.map_eq_some_iff.mp hrow
      cases hready
    · rename_i hout
      exact ⟨mem_readyRows.mpr ⟨hrow, hready, hfree⟩, fun hin =>
        hout (List.mem_map_of_mem hin)⟩

/-- Over a run that passes a ready job over, the limits add up to no more
than the jobs that stood ahead of it at the start. -/
theorem passes_bounded {limits : List Nat}
    (h : PassedOver w jobs limits) (hw : w ∈ readyRows jobs []) :
    limits.sum ≤ (ahead dispatchOrder (readyRows jobs []) w).length := by
  induction h with
  | done jobs => exact Nat.zero_le _
  | @pass jobs jobs' limit limits now hno hbehind hrest ih =>
      obtain ⟨hstays, hleft⟩ := @pass_leaves w jobs limit now hw hno
      have hw' : w ∈ readyRows jobs' [] := by
        refine mem_readyRows.mpr ⟨hbehind.waits.trans hstays, ?_, ?_⟩
        · exact (mem_readyRows.mp hw).2.1
        · exact List.not_mem_nil
      have hforward := (pickReadyJobs_first jobs limit []).brings_forward
        hw hno (nodup_readyRows jobs' []) fun r hr => by
          obtain ⟨hready, -, hbefore⟩ := mem_ahead.mp hr
          exact hleft r (hbehind.behind r hready hbefore)
      have hthen := ih hw'
      rw [List.sum_cons]
      omega

end Waiting

-- ================================================================= the result

/-- A pick is fair exactly when the backlog fits; and no ready job is
passed over by passes whose limits add up to more than the jobs that
stood ahead of it, whatever is added behind it. -/
theorem fair_pick_iff (jobs : Table ProcessingJob) (limit : Nat) :
    (FairPick jobs limit ↔ BacklogFits jobs limit)
      ∧ ∀ w ∈ readyRows jobs [], ∀ limits, PassedOver w jobs limits →
        limits.sum
          ≤ (ahead dispatchOrder (readyRows jobs []) w).length :=
  ⟨fairPick_iff, fun _ hw _ h => passes_bounded h hw⟩

-- =============================================================== scenarios

/-- Alice has two jobs that are older than Bob's. -/
def aliceFirst : Table ProcessingJob :=
  ⟨[{ newJob 2 1 "alice" 0 with state := .ready },
    { newJob 4 3 "alice" 1 with state := .ready },
    { newJob 6 5 "bob" 2 with state := .ready }], by decide⟩

/-- Bob gets no place of two. -/
theorem alice_fills_the_pick :
    ¬ ∀ jobs limit, 1 ≤ limit → FairPick jobs limit := by
  intro h
  have hfair := h aliceFirst 2 (by decide)
  revert hfair
  unfold FairPick
  decide +kernel

/-- Bob's job. -/
def bobsJob : ProcessingJob :=
  { newJob 6 5 "bob" 2 with state := .ready }

/-- A single place is fair, and Bob waits for the two jobs ahead of his
one. -/
theorem bob_waits_for_two : FairPick aliceFirst 1
    ∧ PassedOver bobsJob aliceFirst [1, 1]
    ∧ [1, 1].sum ≤ (ahead dispatchOrder (readyRows aliceFirst [])
      bobsJob).length := by
  have hfits : BacklogFits aliceFirst 1 := by
    unfold BacklogFits
    decide +kernel
  have hpassed : PassedOver bobsJob aliceFirst [1, 1] :=
    .pass 7 (by decide +kernel) ⟨rfl, fun _ h _ => h⟩
      (.pass 8 (by decide +kernel) ⟨rfl, fun _ h _ => h⟩ (.done _))
  exact ⟨(fair_pick_iff aliceFirst 1).1.mpr hfits, hpassed,
    (fair_pick_iff aliceFirst 1).2 bobsJob (by decide) [1, 1] hpassed⟩

end LegalBot
