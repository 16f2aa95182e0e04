/-
The status of a finished run.

Two transactions write `run.status`. `cancel_active_run` only touches
rows that are `running`. `_mark_run_status` updates the row by id,
whatever it says: a worker that comes out of the graph after the user
has cancelled its run writes the outcome over `cancelled`, and one whose
job transition raises writes `failed` over its own `completed`.

`MarksUnfinished` says that `_mark_run_status` finds a run that is not
finished, or that it finished with the status it writes. It is exact
(`keepsFinished_iff`).
-/
import LegalBot.Orchestrator.Effects
import LegalBot.Orchestrator.System

namespace LegalBot

open Relational (HasKey Table)

-- ============================================================== statements

/-- The statuses a run ends with. -/
def RunStatus.isTerminal : RunStatus → Bool
  | .completed | .failed | .cancelled => true
  | .running | .awaitingHuman => false

/-- Every finished run of `db` has the same status in `db'`. -/
def KeepsFinished (db db' : Db) : Prop :=
  ∀ rid run, db.runs.get rid = some run → run.status.isTerminal = true →
    ∃ run', db'.runs.get rid = some run' ∧ run'.status = run.status

/-- A run whose status a worker writes is not finished, or has that
status already. -/
def MarksUnfinished (env : Env) (a : Action) (s : State) : Prop :=
  match committing env a s with
  | some (.markRunStatus rid st) =>
      ∀ run ∈ s.db.runs.get rid, run.status.isTerminal = true →
        run.status = st
  | _ => True

instance (env : Env) (a : Action) (s : State) :
    Decidable (MarksUnfinished env a s) := by
  dsimp only [MarksUnfinished]
  generalize committing env a s = tx
  induction tx using Option.casesOn with
  | none => infer_instance
  | some tx => induction tx using Tx.casesOn <;> infer_instance

theorem KeepsFinished.refl (db : Db) : KeepsFinished db db :=
  fun _ run hrun _ => ⟨run, hrun, rfl⟩

theorem KeepsFinished.trans {db₁ db₂ db₃ : Db}
    (h₁ : KeepsFinished db₁ db₂) (h₂ : KeepsFinished db₂ db₃) :
    KeepsFinished db₁ db₃ := by
  intro rid run hrun hfin
  obtain ⟨run₂, hrun₂, hst₂⟩ := h₁ rid run hrun hfin
  obtain ⟨run₃, hrun₃, hst₃⟩ := h₂ rid run₂ hrun₂ (by rw [hst₂]; exact hfin)
  exact ⟨run₃, hrun₃, hst₃.trans hst₂⟩

-- ==================================================================== step

section Step

variable {env : Env} {a : Action} {s s' : State}

/-- The status that a transaction leaves on a finished run, when it does
not mark it. -/
theorem runStatus_of_terminal {tx : Tx} {run : Run}
    (hfin : run.status.isTerminal = true)
    (hmark : ∀ st, tx = .markRunStatus run.id st → run.status = st.val) :
    tx.runStatus run = run.status := by
  cases tx with
  | markRunStatus rid st =>
      unfold Tx.runStatus
      simp only
      split
      · rename_i hid
        subst hid
        exact (hmark st rfl).symm
      · rfl
  | cancelActiveRun sid locked =>
      refine if_neg ?_
      rintro ⟨-, -, hrunning⟩
      rw [hrunning] at hfin
      cases hfin
  | _ => rfl

/-- A step that meets the condition keeps every finished run. -/
theorem MarksUnfinished.keepsFinished (hg : MarksUnfinished env a s)
    (hstep : apply env a s = some s') : KeepsFinished s.db s'.db := by
  intro rid run hrun hfin
  have hid : run.id = rid := Table.key_of_get hrun
  rcases apply_db hstep with ⟨hdb, -⟩ | ⟨tx, htx, ⟨hdb, -⟩ | ⟨hc, -⟩⟩
  · exact ⟨run, by rw [hdb, hrun], rfl⟩
  · exact ⟨run, by rw [hdb, hrun], rfl⟩
  · obtain ⟨run', hrun', hst⟩ := (commit_effects hc).runs.persists hrun
    refine ⟨run', hrun', hst.trans (runStatus_of_terminal hfin ?_)⟩
    rintro st rfl
    unfold MarksUnfinished at hg
    rw [htx] at hg
    refine hg run ?_ hfin
    rw [hid]
    exact hrun

/-- The condition is exact. -/
theorem keepsFinished_iff (hstep : apply env a s = some s') :
    KeepsFinished s.db s'.db ↔ MarksUnfinished env a s := by
  refine ⟨fun h => ?_, fun hg => hg.keepsFinished hstep⟩
  unfold MarksUnfinished
  split
  · rename_i rid st htx
    intro run hrun hfin
    obtain ⟨db', hc, hget, -, -⟩ :=
      markRunStatus_commits env.cfg s.now hrun st
    obtain ⟨run', hrun', hst⟩ := h rid run hrun hfin
    rw [(apply_commits hstep htx hc).1, hget] at hrun'
    injection hrun' with hrun'
    subst hrun'
    exact hst.symm
  · trivial

end Step

-- ===================================================================== runs

/-- In every run of the system, from any state on, whose marks are of
unfinished runs, a finished run stays as it is. -/
theorem finished_runs_stay {env : Env} {s s' : State}
    (h : Lts.Reachable (apply env) (MarksUnfinished env) s s') :
    KeepsFinished s.db s'.db := by
  refine Lts.Reachable.invariant (P := fun s' => KeepsFinished s.db s'.db)
    (KeepsFinished.refl s.db) ?_ h
  intro s₁ a s₂ _ hkept hg hstep
  exact hkept.trans (hg.keepsFinished hstep)

-- =============================================================== scenarios

/-- Run 11 has completed; run 21 is started on its session. -/
theorem completed_run_stays : ∃ s s',
    Lts.run (apply Env.default) State.init (firstStart ++ cleanFinish)
        = some s
      ∧ Lts.run (Lts.guarded (apply Env.default)
          (MarksUnfinished Env.default)) s followUp = some s'
      ∧ KeepsFinished s.db s'.db := by
  obtain ⟨s, hs⟩ := Option.isSome_iff_exists.mp
    (show (Lts.run (apply Env.default) State.init
      (firstStart ++ cleanFinish)).isSome by decide +kernel)
  have hnext : ((Lts.run (apply Env.default) State.init
      (firstStart ++ cleanFinish)).bind fun s =>
        Lts.run (Lts.guarded (apply Env.default)
          (MarksUnfinished Env.default)) s followUp).isSome := by
    decide +kernel
  rw [hs] at hnext
  obtain ⟨s', hs'⟩ := Option.isSome_iff_exists.mp hnext
  exact ⟨s, s', hs, hs', finished_runs_stay
    (Lts.reachable_of_guarded_run .init hs')⟩

/-- Run 11 is in the graph when the user cancels it. -/
def cancelledInGraph : List Action :=
  firstStart ++
  [.advance 1 .ok, .advance 1 .ok, .advance 1 .ok,
    .start 2 (.cancelRun 10), .advance 2 .ok, .advance 2 .ok]

/-- The graph returns, with nothing to ask. -/
def graphReturns : List Action :=
  [.advance 1 (.output ⟨[], none⟩), .advance 1 (.fresh [] ""),
    .advance 1 (.interrupts []), .advance 1 .ok]

/-- The cancelled run is recorded as completed. -/
theorem cancelled_run_completes :
    ¬ ∀ s s', Reaches Env.default Lts.Always s →
      Lts.Reachable (apply Env.default) Lts.Always s s' →
      KeepsFinished s.db s'.db := by
  intro h
  obtain ⟨s, hs⟩ := Option.isSome_iff_exists.mp
    (show (Lts.run (apply Env.default) State.init cancelledInGraph).isSome by
      decide +kernel)
  have hbefore : ((Lts.run (apply Env.default) State.init
      cancelledInGraph).bind fun s => runStatus s.db 11)
      = some .cancelled := by decide +kernel
  have hafter : (((Lts.run (apply Env.default) State.init
      cancelledInGraph).bind fun s =>
        Lts.run (apply Env.default) s graphReturns).bind fun s' =>
          runStatus s'.db 11) = some .completed := by decide +kernel
  rw [hs, Option.bind_some] at hbefore hafter
  obtain ⟨s', hs', hcompleted⟩ := Option.bind_eq_some_iff.mp hafter
  obtain ⟨run, hrun, hst⟩ := Option.map_eq_some_iff.mp hbefore
  obtain ⟨run', hrun', hst'⟩ := h s s' (Lts.reachable_of_run .init hs)
    (Lts.reachable_of_run .init hs') 11 run hrun (by rw [hst]; rfl)
  unfold runStatus at hcompleted
  rw [hrun', Option.map_some, hst', hst] at hcompleted
  cases hcompleted

end LegalBot
