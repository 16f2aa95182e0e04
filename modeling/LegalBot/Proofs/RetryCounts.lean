/-
`processing_job.attempts` against the retries of the job.

`JobService.retry` reads the job and then writes `attempts + 1` of the
row it read, guarded by the state alone. Between the two statements the
job can be retried by another request, run and fail again; the guard
then holds and the increment is of a stale value.

What the code needs and does not check is `FreshRetry`: the row still
has the `attempts` that were read. The invariant is the claim itself,
with the count as a parameter; one step keeps it because only a retry
moves a job from `failed` to `ready` (`jobMove_retry`) and only a retry
writes `attempts` (`commit_jobColumns`).
-/
import LegalBot.Orchestrator.Columns
import LegalBot.Orchestrator.System

namespace LegalBot

open Relational (HasKey Table)

-- ============================================================== statements

/-- A step that commits a `failed -> ready` transition of a job. -/
def retriesJob (j : Uuid) (_ : Action) (s s' : State) : Bool :=
  decide (jobState s.db j = some .failed
    ∧ jobState s'.db j = some .ready)

/-- A retry whose guard holds finds the `attempts` it read. -/
def FreshRetry (env : Env) (a : Action) (s : State) : Prop :=
  match committing env a s with
  | some (.retry job) =>
      ∀ row ∈ s.db.jobs.get job.id, row.state = .failed →
        row.attempts = job.attempts
  | _ => True

instance (env : Env) (a : Action) (s : State) :
    Decidable (FreshRetry env a s) := by
  dsimp only [FreshRetry]
  generalize committing env a s = tx
  induction tx using Option.casesOn with
  | none => infer_instance
  | some tx => induction tx using Tx.casesOn <;> infer_instance

/-- The `attempts` of a job after `n` retries; none before it exists. -/
def AttemptsAre (j : Uuid) (s : State) (n : Nat) : Prop :=
  match s.db.jobs.get j with
  | some row => row.attempts = n
  | none => n = 0

-- ==================================================================== step

section Step

variable {env : Env} {a : Action} {s s' : State} {j : Uuid} {n : Nat}

/-- A committed retry is a `failed -> ready` transition. -/
theorem retriesJob_of_retry {job : ProcessingJob} {now : Time}
    (h : retry job s.db.jobs now = .ok s'.db.jobs) :
    retriesJob job.id a s s' = true
      ∧ ∃ row, s.db.jobs.get job.id = some row ∧ row.state = .failed := by
  obtain ⟨-, row, hrow, hstate, hget⟩ := transition_ok h
  refine ⟨decide_eq_true ⟨?_, ?_⟩, row, hrow, hstate⟩
  · unfold jobState
    rw [hrow, ← hstate]
    rfl
  · unfold jobState
    rw [hget, if_pos rfl]
    rfl

/-- What a step does to the attempts of a stored job: a retry of it adds
one to the `attempts` that were read, no other step is counted. -/
theorem attempts_step (hstep : apply env a s = some s')
    {row : ProcessingJob} (hrow : s.db.jobs.get j = some row) :
    ∃ row', s'.db.jobs.get j = some row'
      ∧ ((retriesJob j a s s' = false ∧ row'.attempts = row.attempts)
        ∨ (retriesJob j a s s' = true ∧ row.state = .failed
          ∧ ∃ job, committing env a s = some (.retry job) ∧ job.id = j
            ∧ row'.attempts = job.attempts + 1)) := by
  have hid : row.id = j := Table.key_of_get hrow
  rcases apply_db hstep with ⟨hdb, -⟩ | ⟨tx, htx, ⟨hdb, -⟩ | ⟨hc, -⟩⟩
  · refine ⟨row, by rw [hdb, hrow], Or.inl ⟨?_, rfl⟩⟩
    unfold retriesJob
    rw [hdb, decide_eq_false_iff_not]
    rintro ⟨hf, hr⟩
    rw [hf] at hr
    cases hr
  · refine ⟨row, by rw [hdb, hrow], Or.inl ⟨?_, rfl⟩⟩
    unfold retriesJob
    rw [hdb, decide_eq_false_iff_not]
    rintro ⟨hf, hr⟩
    rw [hf] at hr
    cases hr
  obtain ⟨row', hrow', hcols⟩ := (commit_jobColumns hc).persists hrow
  refine ⟨row', hrow', ?_⟩
  by_cases hretry : ∃ job, tx = .retry job ∧ job.id = j
  · obtain ⟨job, rfl, hjob⟩ := hretry
    obtain ⟨jobs, hjobs, hdb⟩ := withJobs_ok hc
    have hjobs' : retry job s.db.jobs s.now = .ok s'.db.jobs := by
      rw [hjobs, hdb]
    obtain ⟨hcount, row₀, hrow₀, hstate⟩ := retriesJob_of_retry hjobs'
    rw [hjob] at hcount hrow₀
    rw [hrow] at hrow₀
    injection hrow₀ with hrow₀
    refine Or.inr ⟨hcount, hrow₀ ▸ hstate, job, htx, hjob, ?_⟩
    rw [hcols.attempts]
    exact if_pos (hid.trans hjob.symm)
  · refine Or.inl ⟨?_, ?_⟩
    · -- the pair is moved along by retries of the job only
      unfold retriesJob jobState
      rw [decide_eq_false_iff_not, hrow, hrow']
      simp only [Option.map_some, Option.some.injEq]
      rintro ⟨hf, hr⟩
      obtain ⟨row₁, hrow₁, hmove⟩ := (commit_effects hc).jobs.persists hrow
      rw [hrow'] at hrow₁
      injection hrow₁ with hrow₁
      subst hrow₁
      rcases hmove.state with hsame | hmove
      · rw [hf, hr] at hsame
        cases hsame
      · rw [hf, hr, hid] at hmove
        exact hretry (jobMove_retry hmove)
    · rw [hcols.attempts]
      cases tx with
      | retry job =>
          refine if_neg fun e => hretry ⟨job, rfl, ?_⟩
          exact e.symm.trans hid
      | _ => rfl

/-- A job that is not there yet is not retried, and starts at zero. -/
theorem attempts_born (hstep : apply env a s = some s')
    (hnone : s.db.jobs.get j = none) :
    retriesJob j a s s' = false
      ∧ ∀ row', s'.db.jobs.get j = some row' → row'.attempts = 0 := by
  refine ⟨?_, fun row' hrow' => ?_⟩
  · unfold retriesJob jobState
    rw [hnone]
    rfl
  · rcases apply_db hstep with ⟨hdb, -⟩ | ⟨tx, -, ⟨hdb, -⟩ | ⟨hc, -⟩⟩
    · rw [hdb, hnone] at hrow'
      cases hrow'
    · rw [hdb, hnone] at hrow'
      cases hrow'
    · exact ((commit_jobColumns hc).born hnone hrow').attempts

/-- A fresh retry is counted and adds one. -/
theorem AttemptsAre.step (h : AttemptsAre j s n)
    (hg : FreshRetry env a s) (hstep : apply env a s = some s') :
    AttemptsAre j s' (n + (retriesJob j a s s').toNat) := by
  unfold AttemptsAre at h ⊢
  cases hrow : s.db.jobs.get j with
  | none =>
      rw [hrow] at h
      obtain ⟨hcount, hborn⟩ := attempts_born hstep hrow
      rw [hcount, Bool.toNat_false, h]
      cases hrow' : s'.db.jobs.get j with
      | none => rfl
      | some row' => exact hborn row' hrow'
  | some row =>
      rw [hrow] at h
      obtain ⟨row', hrow', hcases⟩ := attempts_step hstep hrow
      rw [hrow']
      rcases hcases with
        ⟨hcount, heq⟩ | ⟨hcount, hstate, job, htx, hjob, heq⟩
      · rw [hcount, Bool.toNat_false]
        exact heq.trans h
      · unfold FreshRetry at hg
        rw [htx] at hg
        have hfresh := hg row (by rw [hjob]; exact hrow) hstate
        rw [hcount, Bool.toNat_true, ← h, hfresh]
        exact heq

/-- The condition is exact: a retry that is not fresh commits, and no
count it agreed with is right afterwards. -/
theorem stale_retry_breaks (hg : ¬ FreshRetry env a s)
    (hstep : apply env a s = some s') :
    ∃ j, ∀ n, AttemptsAre j s n →
      ¬ AttemptsAre j s' (n + (retriesJob j a s s').toNat) := by
  unfold FreshRetry at hg
  split at hg
  · rename_i job htx
    simp only [not_forall] at hg
    obtain ⟨row, hrow, hstate, hne⟩ := hg
    rw [Option.mem_def] at hrow
    refine ⟨job.id, fun n hn hn' => hne ?_⟩
    unfold AttemptsAre at hn hn'
    obtain ⟨row', hrow', hcases⟩ := attempts_step hstep hrow
    rw [hrow] at hn
    rw [hrow'] at hn'
    obtain ⟨hcount, job', htx', heq⟩ : retriesJob job.id a s s' = true
        ∧ ∃ job', committing env a s = some (.retry job')
          ∧ row'.attempts = job'.attempts + 1 := by
      rcases hcases with ⟨hcount, -⟩ | ⟨hcount, -, job', htx', -, heq⟩
      · -- the guarded update finds the job failed, so it commits
        obtain ⟨jobs, hjobs⟩ := (transition_succeeds hrow
          (t := .ready) (by decide) s.now
          ⟨some (job.attempts + 1), some none, some none⟩).mpr hstate
        have hc : Tx.commit env.cfg s.now s.db (.retry job)
            = .ok { s.db with jobs := jobs } := by
          show withJobs s.db (transition s.db.jobs s.now job.id .failed
            .ready ⟨some (job.attempts + 1), some none, some none⟩) = _
          rw [hjobs]
          rfl
        have hdb := (apply_commits hstep htx hc).1
        have hretry : retry job s.db.jobs s.now = .ok s'.db.jobs := by
          rw [hdb]
          exact hjobs
        rw [(retriesJob_of_retry hretry).1] at hcount
        cases hcount
      · exact ⟨hcount, job', htx', heq⟩
    rw [htx] at htx'
    cases htx'
    rw [hcount, Bool.toNat_true] at hn'
    have hafter : row'.attempts = n + 1 := hn'
    have hbefore : row.attempts = n := hn
    omega
  · exact absurd trivial hg

end Step

-- ===================================================================== runs

/-- In every run whose retries are fresh, a job's `attempts` is the
number of its committed `failed -> ready` transitions. -/
theorem attempts_count_retries {env : Env} {acts : List Action}
    {s : State}
    (h : Lts.run (Lts.guarded (apply env) (FreshRetry env)) State.init acts
      = some s) {j : Uuid} {row : ProcessingJob}
    (hrow : s.db.jobs.get j = some row) :
    row.attempts
      = Lts.countSteps (apply env) (retriesJob j) State.init acts := by
  have hinit : AttemptsAre j State.init 0 := rfl
  have hcounted := Lts.countSteps_invariant
    (P := fun s m _ => AttemptsAre j s m) (p := retriesJob j)
    (q := retriesJob j) ?_ hinit (n := 0) h
  · rw [(Lts.run_of_guarded h).2, Nat.zero_add] at hcounted
    unfold AttemptsAre at hcounted
    rw [hrow] at hcounted
    exact hcounted
  · intro s a s' m n hm hstep
    unfold Lts.guarded at hstep
    split at hstep
    · rename_i hg
      exact hm.step hg hstep
    · cases hstep

-- =============================================================== scenarios

/-- Job 2 is dispatched and fails before its pipeline starts. -/
def failedOnce : List Action :=
  firstStart.take 8 ++
  [.start 0 (.markFailed 2 .dispatched "no worker" "graph"),
    .advance 0 .ok]

/-- It is retried. -/
theorem one_retry_counted : ∃ s row,
    Lts.run (Lts.guarded (apply Env.default) (FreshRetry Env.default))
        State.init
        (failedOnce ++ [.start 0 (.retry 2), .advance 0 .ok,
          .advance 0 .ok]) = some s
      ∧ s.db.jobs.get 2 = some row
      ∧ row.attempts = Lts.countSteps (apply Env.default) (retriesJob 2)
        State.init (failedOnce ++ [.start 0 (.retry 2), .advance 0 .ok,
          .advance 0 .ok]) := by
  obtain ⟨s, hs⟩ := Option.isSome_iff_exists.mp
    (show (Lts.run (Lts.guarded (apply Env.default)
      (FreshRetry Env.default)) State.init
      (failedOnce ++ [.start 0 (.retry 2), .advance 0 .ok,
        .advance 0 .ok])).isSome by decide +kernel)
  obtain ⟨row, hrow⟩ := Option.isSome_iff_exists.mp
    (show (((Lts.run (Lts.guarded (apply Env.default)
      (FreshRetry Env.default)) State.init
      (failedOnce ++ [.start 0 (.retry 2), .advance 0 .ok,
        .advance 0 .ok])).bind fun s => s.db.jobs.get 2)).isSome by
      decide +kernel)
  rw [hs] at hrow
  exact ⟨s, row, hs, hrow, attempts_count_retries hs hrow⟩

/-- Actors 0 and 2 read the failed job. Actor 0 retries it, the job is
dispatched and fails again, and actor 2 writes what it read plus one. -/
def retriedTwice : List Action :=
  failedOnce ++
  [.start 0 (.retry 2), .advance 0 .ok, .start 2 (.retry 2),
    .advance 2 .ok, .advance 0 .ok,
    .start 0 .dispatchOnce, .advance 0 .ok, .advance 0 (.locked []),
    .advance 0 .ok, .advance 0 .ok, .advance 0 .ok,
    .start 0 (.markFailed 2 .dispatched "no worker" "graph"),
    .advance 0 .ok, .advance 2 .ok]

/-- Two retries of the job have committed and `attempts` is one. -/
theorem racing_retries_lose_count :
    ¬ ∀ (acts : List Action) (s : State),
      Lts.run (apply Env.default) State.init acts = some s →
      ∀ j row, s.db.jobs.get j = some row →
        row.attempts = Lts.countSteps (apply Env.default) (retriesJob j)
          State.init acts := by
  intro h
  obtain ⟨s, hs⟩ := Option.isSome_iff_exists.mp
    (show (Lts.run (apply Env.default) State.init retriedTwice).isSome by
      decide +kernel)
  have hattempts : ((Lts.run (apply Env.default) State.init
      retriedTwice).bind fun s => (s.db.jobs.get 2).map (·.attempts))
      = some 1 := by decide +kernel
  have hcount : Lts.countSteps (apply Env.default) (retriesJob 2)
      State.init retriedTwice = 2 := by decide +kernel
  rw [hs] at hattempts
  obtain ⟨row, hrow, hone⟩ := Option.map_eq_some_iff.mp hattempts
  have heq := h retriedTwice s hs 2 row hrow
  rw [hone, hcount] at heq
  cases heq

end LegalBot
