/-
The concurrency ceiling: at most `MAX_CONCURRENT_RUNS` jobs in
`dispatched` or `processing`.

# What goes wrong

The budget of a dispatch pass is computed from a Redis set that is read
at its start and written after its commit. Two passes that both read the
set before either writes it dispatch the full budget twice; a job that is
active without being in the set is not counted. A `resume_run` moves its
job back to `processing` without looking at the budget.

# The condition

A pass commits while the budget it read is still free, and a job is
resumed while the ceiling is not reached: the count of active jobs grows
in these two steps only (`activeCount_commit`).
-/
import LegalBot.Orchestrator.Budget

namespace LegalBot

open Relational (HasKey Table)

-- ============================================================== statements

/-- At most `MAX_CONCURRENT_RUNS` jobs are active. -/
def UnderCeiling (env : Env) (s : State) : Prop :=
  activeCount s.db.jobs ≤ env.cfg.maxConcurrentRuns

/-- The budget a pass read at its start is free when it commits, and so
is one place when a job is resumed. -/
def KeepsCeiling (env : Env) (a : Action) (s : State) : Prop :=
  match committing env a s with
  | some (.dispatchOnce limit _) =>
      activeCount s.db.jobs + limit ≤ env.cfg.maxConcurrentRuns
  | some (.resumeTransition rid) => (resumedJob s.db rid).isSome →
      activeCount s.db.jobs < env.cfg.maxConcurrentRuns
  | _ => True

-- ================================================================== a step

section Step

variable {env : Env} {G : Action → State → Prop} {s s' : State}
  {a : Action}

theorem ceiling_step (hr : Reaches env G s) (hg : KeepsCeiling env a s)
    (h : UnderCeiling env s) (hstep : apply env a s = some s') :
    UnderCeiling env s' := by
  unfold UnderCeiling at h ⊢
  rcases apply_effects hstep with hdb | ⟨tx, htx, hc⟩
  · rw [hdb]
    exact h
  have hcount := activeCount_commit (reaches_runsLinked hr) hc
  unfold KeepsCeiling at hg
  rw [htx] at hg
  cases tx with
  | dispatchOnce limit locked =>
      have hids : (Tx.activates s.now s.db
          (.dispatchOnce limit locked)).card ≤ limit :=
        (List.toFinset_card_le _).trans (dispatchedIds_length limit locked)
      omega
  | resumeTransition rid =>
      have hone : (Tx.activates s.now s.db (.resumeTransition rid)).card
          ≤ (resumedJob s.db rid).toList.length := List.toFinset_card_le _
      cases hjob : resumedJob s.db rid with
      | none =>
          rw [hjob, Option.toList_none, List.length_nil] at hone
          omega
      | some j =>
          have hfree := hg (by rw [hjob]; rfl)
          rw [hjob, Option.toList_some, List.length_singleton] at hone
          omega
  | _ => exact hcount.trans h

end Step

/-- In every run whose steps all meet the condition, the ceiling holds
in every state reached. -/
theorem ceiling_holds {env : Env} {s : State}
    (h : Reaches env (KeepsCeiling env) s) : UnderCeiling env s := by
  refine Lts.Reachable.invariant (P := UnderCeiling env) ?_ ?_ h
  · exact Nat.zero_le _
  · intro s a s' hr hu hg hstep
    exact ceiling_step hr hg hu hstep

-- =============================================================== scenarios

instance (env : Env) (a : Action) (s : State) :
    Decidable (KeepsCeiling env a s) := by
  dsimp only [KeepsCeiling]
  generalize committing env a s = tx
  induction tx using Option.casesOn with
  | none => infer_instance
  | some tx => induction tx using Tx.casesOn <;> infer_instance

/-- One job at a time. -/
def Env.single : Env :=
  ⟨{ Settings.default with maxConcurrentRuns := 1 }, fun _ _ => true⟩

/-- A dispatched job fills a ceiling of one. -/
theorem single_dispatch_fits : ∃ s,
    Lts.run (Lts.guarded (apply Env.single) (KeepsCeiling Env.single))
      State.init firstStart = some s
    ∧ activeCount s.db.jobs = 1 ∧ UnderCeiling Env.single s := by
  have hend : (Lts.run (Lts.guarded (apply Env.single)
      (KeepsCeiling Env.single)) State.init firstStart).map
      (fun s => activeCount s.db.jobs) = some 1 := by
    decide +kernel
  obtain ⟨s, hs, hcount⟩ := Option.map_eq_some_iff.mp hend
  exact ⟨s, hs, hcount,
    ceiling_holds (Lts.reachable_of_guarded_run .init hs)⟩

/-- Jobs 2 and 4 are ready, and two passes read the budget before either
commits. -/
def twoPasses : List Action :=
  [.start 0 (.ingest ⟨"email", "m1", none, []⟩ "alice"),
    .advance 0 (.fresh [1, 2] ""),
    .start 0 (.ingest ⟨"email", "m2", none, []⟩ "alice"),
    .advance 0 (.fresh [3, 4] ""),
    .start 0 .dispatchOnce, .advance 0 .ok,
    .start 1 .dispatchOnce, .advance 1 .ok,
    .advance 0 (.locked []), .advance 1 (.locked [])]

/-- Each of them dispatches a job. -/
theorem two_passes_exceed :
    ¬ ∀ env s, Reaches env Lts.Always s → UnderCeiling env s := by
  intro h
  have hend : (Lts.run (apply Env.single) State.init twoPasses).map
      (fun s => activeCount s.db.jobs) = some 2 := by
    decide +kernel
  obtain ⟨s, hs, hcount⟩ := Option.map_eq_some_iff.mp hend
  have hunder := h Env.single s (Lts.reachable_of_run .init hs)
  unfold UnderCeiling at hunder
  rw [hcount] at hunder
  exact absurd hunder (by decide)

end LegalBot
