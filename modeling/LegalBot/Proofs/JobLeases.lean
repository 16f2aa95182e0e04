/-
The timestamps and errors of `processing_job`, and what they give
`reap_stuck`.

The sweeper compares nullable columns, and NULL never compares: a
transition that forgot its timestamp would put a job where no sweep
finds it. None does. Along every run, the column of a lease is the time
of the job's last transition into the state of the lease
(`leased_since`), so a sweep at any time leaves no job there for too
long, and touches no other.
-/
import LegalBot.Orchestrator.Leases
import LegalBot.Orchestrator.System

namespace LegalBot

open Relational (HasKey Table)

-- ============================================================== statements

/-- The time of a step that moves job `j` into a lease. -/
def leaseTimes (env : Env) (l : Lease) (j : Uuid) (a : Action)
    (s : State) : List Time :=
  match apply env a s with
  | some s' =>
      if (jobState s.db j).any l.source = true
          ∧ jobState s'.db j = some l.target then [s.now] else []
  | none => []

/-- The time of the job's last transition into a lease along a run. -/
def leasedSince (env : Env) (l : Lease) (j : Uuid) (acts : List Action) :
    Option Time :=
  (Lts.collect (apply env) (leaseTimes env l j) State.init acts).getLast?

/-- The columns of a job after a run. -/
structure JobBooks (env : Env) (acts : List Action) (j : Uuid)
    (row : ProcessingJob) : Prop where
  dispatched : row.state = .dispatched → ∃ t, row.dispatchedAt = some t
    ∧ leasedSince env dispatchLease j acts = some t
  processing : row.state = .processing →
    ∃ t, row.processingStartedAt = some t
      ∧ leasedSince env processingLease j acts = some t
  failed : row.state = .failed →
    row.finishedAt.isSome = true ∧ row.lastError.isSome = true
  error : row.lastError.isSome = true →
    row.state = .failed ∨ row.state = .archived

/-- At time `t` a job has not been in a lease for longer than the
settings allow. -/
structure WithinLease (env : Env) (acts : List Action) (j : Uuid)
    (t : Time) (row : ProcessingJob) : Prop where
  dispatched : row.state = .dispatched →
    ∃ t₀, leasedSince env dispatchLease j acts = some t₀
      ∧ t - t₀ ≤ env.cfg.dispatchLeaseSec
  processing : row.state = .processing →
    ∃ t₀, leasedSince env processingLease j acts = some t₀
      ∧ t - t₀ ≤ env.cfg.processingLeaseSec

-- ================================================================ one step

section Step

variable {env : Env} {a : Action} {s s' : State} {l : Lease} {j : Uuid}

/-- What a step does to the row of a job, and to a new one. -/
theorem apply_books (h : apply env a s = some s') :
    BooksEvolve s.now s.db.jobs s'.db.jobs := by
  rcases apply_db h with ⟨hdb, -, -⟩ | ⟨tx, -, ⟨hdb, -⟩ | ⟨hc, -⟩⟩
  · rw [hdb]
    exact Table.Evolves.refl BookMove.refl _
  · rw [hdb]
    exact Table.Evolves.refl BookMove.refl _
  · exact commit_books hc

/-- The column of a lease is the last time put out. -/
def LeaseKept (l : Lease) (j : Uuid) (s : State) (times : List Time) :
    Prop :=
  ∀ row, s.db.jobs.get j = some row → row.state = l.target →
    ∃ t, l.stamp row = some t ∧ times.getLast? = some t

theorem leaseTimes_of_step (h : apply env a s = some s')
    {row row' : ProcessingJob} (hrow : s.db.jobs.get j = some row)
    (hrow' : s'.db.jobs.get j = some row') :
    leaseTimes env l j a s
      = if l.source row.state = true ∧ row'.state = l.target
        then [s.now] else [] := by
  unfold leaseTimes jobState
  rw [h]
  simp only [hrow, hrow', Option.map_some, Option.any_some,
    Option.some.injEq]

theorem LeaseKept.step (hl : ∀ now r r', BookMove now r r' →
      Stamped l now r r') {times : List Time} (h : LeaseKept l j s times)
    (hstep : apply env a s = some s') :
    LeaseKept l j s' (times ++ leaseTimes env l j a s) := by
  intro row' hrow' hstate
  rcases (apply_books hstep).origin hrow' with
    ⟨row, hrow, hmove⟩ | ⟨-, hopened⟩
  · rw [leaseTimes_of_step hstep hrow hrow']
    rcases hl _ _ _ hmove hstate with ⟨hsame, hstamp⟩ | ⟨hsource, hstamp⟩
    · -- the job stays, and no time is put out
      obtain ⟨t, ht, hlast⟩ := h row hrow hsame
      refine ⟨t, hstamp.trans ht, ?_⟩
      rw [hsame, l.left_first, if_neg (by simp), List.append_nil]
      exact hlast
    · refine ⟨s.now, hstamp, ?_⟩
      rw [if_pos ⟨hsource, hstate⟩, List.getLast?_concat]
  · exact absurd (hstate.symm.trans hopened.state) l.not_opened

theorem init_leaseKept : LeaseKept l j State.init [] := by
  intro row hrow
  cases hrow

end Step

-- ==================================================================== runs

section Runs

variable {env : Env} {acts : List Action} {s : State} {j : Uuid}

/-- After any run the column of a lease is the time of the last
transition into it. -/
theorem leased_since {l : Lease} (hl : ∀ now r r', BookMove now r r' →
      Stamped l now r r')
    (h : Lts.run (apply env) State.init acts = some s) :
    ∀ row, s.db.jobs.get j = some row → row.state = l.target →
      ∃ t, l.stamp row = some t ∧ leasedSince env l j acts = some t := by
  have hkept := Lts.collect_invariant (P := LeaseKept l j)
    (fun s a s' times hk hstep => hk.step hl hstep) init_leaseKept h
  rw [List.nil_append] at hkept
  exact hkept

/-- The rows are booked in every state reached. -/
theorem run_booked (h : Lts.run (apply env) State.init acts = some s) :
    ∀ j row, s.db.jobs.get j = some row → Booked row := by
  have hr : Lts.Reachable (apply env) Lts.Always State.init s :=
    Lts.reachable_of_run .init h
  refine Lts.Reachable.invariant
    (P := fun s => ∀ j row, s.db.jobs.get j = some row → Booked row)
    ?_ ?_ hr
  · intro j row hrow
    cases hrow
  · intro s a s' _ ih _ hstep j row' hrow'
    rcases (apply_books hstep).origin hrow' with
      ⟨row, hrow, hmove⟩ | ⟨-, hopened⟩
    · exact hmove.booked (ih j row hrow)
    · exact hopened.booked

theorem run_books (h : Lts.run (apply env) State.init acts = some s)
    {row : ProcessingJob} (hrow : s.db.jobs.get j = some row) :
    JobBooks env acts j row where
  dispatched := leased_since (fun _ _ _ hm => hm.dispatched) h row hrow
  processing := leased_since (fun _ _ _ hm => hm.processing) h row hrow
  failed := (run_booked h j row hrow).failed
  error := (run_booked h j row hrow).error

/-- A job that has been in its lease for longer is what the sweeper
moves. -/
theorem reapRow_withinLease {t : Time} {row : ProcessingJob}
    (hb : JobBooks env acts j row) :
    WithinLease env acts j t (reapRow env.cfg t row) := by
  unfold reapRow
  split
  · exact ⟨(fun h => by cases h), (fun h => by cases h)⟩
  · rename_i hd
    split
    · exact ⟨(fun h => by cases h), (fun h => by cases h)⟩
    · rename_i hp
      refine ⟨fun hs => ?_, fun hs => ?_⟩
      · obtain ⟨t₀, hcol, hsince⟩ := hb.dispatched hs
        rw [hcol] at hd
        exact ⟨t₀, hsince, (not_expired_iff _ _ _).mp fun hexp =>
          hd ⟨hs, hexp⟩⟩
      · obtain ⟨t₀, hcol, hsince⟩ := hb.processing hs
        rw [hcol] at hp
        exact ⟨t₀, hsince, (not_expired_iff _ _ _).mp fun hexp =>
          hp ⟨hs, hexp⟩⟩

/-- The sweeper moves no job within its lease. -/
theorem reapRow_kept {t : Time} {row : ProcessingJob}
    (hb : JobBooks env acts j row) (hw : WithinLease env acts j t row) :
    reapRow env.cfg t row = row := by
  unfold reapRow
  rw [if_neg, if_neg]
  · rintro ⟨hs, hexp⟩
    obtain ⟨t₀, hcol, hsince⟩ := hb.processing hs
    obtain ⟨t₁, hsince', hage⟩ := hw.processing hs
    have heq : t₀ = t₁ := Option.some.inj (hsince.symm.trans hsince')
    subst heq
    rw [hcol] at hexp
    exact (not_expired_iff _ _ _).mpr hage hexp
  · rintro ⟨hs, hexp⟩
    obtain ⟨t₀, hcol, hsince⟩ := hb.dispatched hs
    obtain ⟨t₁, hsince', hage⟩ := hw.dispatched hs
    have heq : t₀ = t₁ := Option.some.inj (hsince.symm.trans hsince')
    subst heq
    rw [hcol] at hexp
    exact (not_expired_iff _ _ _).mpr hage hexp

/-- In every state reached the columns of a job are those of its last
transitions; and a sweep at any time leaves no job in a lease for too
long, adds and drops none, and leaves a job within its lease, or in any
other state, as it is. -/
theorem job_books_kept (h : Lts.run (apply env) State.init acts = some s)
    (j : Uuid) :
    (∀ row, s.db.jobs.get j = some row → JobBooks env acts j row)
      ∧ ∀ t, (∀ row', (reapStuck env.cfg s.db.jobs t).get j = some row' →
          WithinLease env acts j t row')
        ∧ (∀ row, s.db.jobs.get j = some row → WithinLease env acts j t row →
          (reapStuck env.cfg s.db.jobs t).get j = some row)
        ∧ (s.db.jobs.get j = none →
          (reapStuck env.cfg s.db.jobs t).get j = none) := by
  refine ⟨fun row hrow => run_books h hrow, fun t =>
    ⟨fun row' hrow' => ?_, fun row hrow hw => ?_, fun hnone => ?_⟩⟩
  · rw [get_reapStuck] at hrow'
    obtain ⟨row, hrow, rfl⟩ := Option.map_eq_some_iff.mp hrow'
    exact reapRow_withinLease (run_books h hrow)
  · rw [get_reapStuck, hrow, Option.map_some,
      reapRow_kept (run_books h hrow) hw]
  · rw [get_reapStuck, hnone, Option.map_none]

/-- Job 2 is processing after the first start, since time 0: a sweep at
its lease keeps it, one second later fails it. -/
theorem job_books_kept_first_start :
    ∃ s, Lts.run (apply Env.default) State.init firstStart = some s
      ∧ jobState s.db 2 = some .processing
      ∧ (∀ row, s.db.jobs.get 2 = some row →
        JobBooks Env.default firstStart 2 row)
      ∧ leasedSince Env.default processingLease 2 firstStart = some 0
      ∧ ((reapStuck Env.default.cfg s.db.jobs
          Env.default.cfg.processingLeaseSec).get 2).map
            (·.state) = some .processing
      ∧ ((reapStuck Env.default.cfg s.db.jobs
          (Env.default.cfg.processingLeaseSec + 1)).get 2).map
            (·.state) = some .failed := by
  have hrun : ∃ s, Lts.run (apply Env.default) State.init firstStart
      = some s := Option.isSome_iff_exists.mp (by decide)
  obtain ⟨s, hs⟩ := hrun
  have heval : s = (Lts.run (apply Env.default) State.init
      firstStart).get (by decide) := by
    simp only [hs, Option.get_some]
  refine ⟨s, hs, ?_, (job_books_kept hs 2).1, by decide, ?_, ?_⟩
  · rw [heval]
    decide
  · rw [heval]
    decide
  · rw [heval]
    decide

end Runs

end LegalBot
