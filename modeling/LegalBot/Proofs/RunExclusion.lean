/-
Mutual exclusion of runs on a session.

`ensure_accepting_messages` refuses a follow-up on a session whose
status is `running`, but no starter writes that status: `run_pipeline`,
`post_message` and `wake_agent_from_schedule` insert a running run and
leave `session.status` alone, so the guard does not see them. What the
code needs and does not check is `LoneStart`: a follow-up commits only
on a session without a running run. Pipeline starts and replays need
nothing, their session is new.

The invariant is `RunExclusive` in its pairwise form; one transaction
keeps it because it starts at most one run (`Tx.Starts`) and no update
makes a run `running` (`RunMove`).
-/
import LegalBot.Orchestrator.System

namespace LegalBot

open Relational (HasKey Table)

-- ============================================================== statements

/-- At most one run of any session has status `running`. -/
def RunExclusive (db : Db) : Prop :=
  ∀ sid, (runningRuns db.runs sid).length ≤ 1

/-- The session on which a transaction starts a follow-up. -/
def Tx.followUpOn : Tx → Option Uuid
  | .postMessage sid _ _ _ _ => some sid
  | .handleReminder sid _ true _ _ _ _ => some sid
  | _ => none

/-- A follow-up is started on a session without a running run. -/
def LoneStart (env : Env) (a : Action) (s : State) : Prop :=
  match (committing env a s).bind Tx.followUpOn with
  | some sid => runningRuns s.db.runs sid = []
  | none => True

instance (env : Env) (a : Action) (s : State) :
    Decidable (LoneStart env a s) := by
  unfold LoneStart
  split
  · infer_instance
  · infer_instance

-- ======================================================= the pairwise form

/-- Two running runs of one session are the same run. -/
def PairwiseExclusive (db : Db) : Prop :=
  ∀ {k₁ k₂ r₁ r₂}, db.runs.get k₁ = some r₁ → db.runs.get k₂ = some r₂ →
    r₁.status = .running → r₂.status = .running →
    r₁.sessionId = r₂.sessionId → k₁ = k₂

theorem mem_runningRuns {runs : Table Run} {sid k : Uuid} :
    k ∈ runningRuns runs sid ↔ ∃ r, runs.get k = some r
      ∧ r.sessionId = sid ∧ r.status = .running := by
  unfold runningRuns
  rw [List.mem_map]
  constructor
  · rintro ⟨r, hr, rfl⟩
    have hmem := List.mem_filter.mp hr
    exact ⟨r, Table.get_of_mem hmem.1, by simpa using hmem.2⟩
  · rintro ⟨r, hget, hcols⟩
    obtain ⟨hmem, hid⟩ := Table.get_some hget
    exact ⟨r, List.mem_filter.mpr ⟨hmem, by simpa using hcols⟩, hid⟩

theorem PairwiseExclusive.runExclusive {db : Db}
    (h : PairwiseExclusive db) : RunExclusive db := by
  intro sid
  unfold runningRuns
  rw [List.length_map]
  refine Table.length_filter_le_one fun hr₁ hr₂ hp₁ hp₂ => ?_
  obtain ⟨hs₁, hrun₁⟩ := of_decide_eq_true hp₁
  obtain ⟨hs₂, hrun₂⟩ := of_decide_eq_true hp₂
  exact h hr₁ hr₂ hrun₁ hrun₂ (hs₁.trans hs₂.symm)

-- ==================================================================== step

section Step

variable {env : Env} {a : Action} {s : State} {tx : Tx} {db db' : Db}

/-- A transaction starts at most one run. -/
theorem Tx.Starts.id_eq {r₁ r₂ : Run} (h₁ : tx.Starts db r₁)
    (h₂ : tx.Starts db r₂) : r₁.id = r₂.id := by
  cases tx with
  | startPipeline j sid rid hex => exact h₁.1.trans h₂.1.symm
  | replay sid fromRun step ctx cp childId rid hex =>
      exact h₁.1.trans h₂.1.symm
  | postMessage sid content index msgId rid => exact h₁.1.trans h₂.1.symm
  | handleReminder sid message wake payload index msgId rid =>
      exact h₁.2.1.trans h₂.2.1.symm
  | _ => exact h₁.elim

/-- A started run has its session to itself: the session is new, or the
guard says that nothing runs there. -/
theorem started_alone (hg : LoneStart env a s)
    (htx : committing env a s = some tx) (hl : RunsLinked s.db) {r : Run}
    (hs : tx.Starts s.db r) {k : Uuid} {r₀ : Run}
    (hget : s.db.runs.get k = some r₀) (hrun : r₀.status = .running) :
    r₀.sessionId ≠ r.sessionId := by
  intro heq
  -- a session that holds a run is not new
  have hthere : s.db.sessions.get r.sessionId ≠ none := by
    obtain ⟨session, hsession, -⟩ := hl k r₀ hget
    rw [← heq, hsession]
    exact fun h => by cases h
  -- a session on which `k` runs is not free
  have hbusy : runningRuns s.db.runs r.sessionId ≠ [] := by
    have hmem := mem_runningRuns.mpr ⟨r₀, hget, heq, hrun⟩
    exact List.ne_nil_of_mem hmem
  cases tx with
  | startPipeline j sid rid hex =>
      obtain ⟨-, rfl, hnew⟩ := hs
      exact hthere hnew
  | replay sid fromRun step ctx cp childId rid hex =>
      obtain ⟨-, rfl, hnew⟩ := hs
      exact hthere hnew
  | postMessage sid content index msgId rid =>
      obtain ⟨-, rfl⟩ := hs
      unfold LoneStart at hg
      rw [htx] at hg
      exact hbusy hg
  | handleReminder sid message wake payload index msgId rid =>
      obtain ⟨rfl, -, rfl⟩ := hs
      unfold LoneStart at hg
      rw [htx] at hg
      exact hbusy hg
  | _ => exact hs.elim

/-- One committed transaction keeps the exclusion. -/
theorem Committed.pairwiseExclusive (hg : LoneStart env a s)
    (htx : committing env a s = some tx) (hl : RunsLinked s.db)
    (hc : Committed tx s.now s.db db') (h : PairwiseExclusive s.db) :
    PairwiseExclusive db' := by
  intro k₁ k₂ r₁ r₂ hk₁ hk₂ hrun₁ hrun₂ hsess
  have hid₁ : r₁.id = k₁ := Table.key_of_get hk₁
  have hid₂ : r₂.id = k₂ := Table.key_of_get hk₂
  rcases hc.runs.origin hk₁ with ⟨o₁, ho₁, hm₁⟩ | ⟨-, hs₁, -⟩
  · have horun₁ := hm₁.running hrun₁
    rcases hc.runs.origin hk₂ with ⟨o₂, ho₂, hm₂⟩ | ⟨-, hs₂, -⟩
    · refine h ho₁ ho₂ horun₁ (hm₂.running hrun₂) ?_
      rw [← hm₁.sessionId, ← hm₂.sessionId, hsess]
    · have hne := started_alone hg htx hl hs₂ ho₁ horun₁
      exact absurd (hm₁.sessionId.symm.trans hsess) hne
  · rcases hc.runs.origin hk₂ with ⟨o₂, ho₂, hm₂⟩ | ⟨-, hs₂, -⟩
    · have hne := started_alone hg htx hl hs₁ ho₂ (hm₂.running hrun₂)
      exact absurd (hm₂.sessionId.symm.trans hsess.symm) hne
    · rw [← hid₁, ← hid₂]
      exact hs₁.id_eq hs₂

end Step

-- ===================================================================== runs

/-- In every run of the system whose follow-ups start on sessions
without a running run, no session ever has two. -/
theorem runs_exclusive_of_lone_starts {env : Env} {s : State}
    (h : Reaches env (LoneStart env) s) : RunExclusive s.db := by
  refine PairwiseExclusive.runExclusive ?_
  refine Lts.Reachable.invariant
    (P := fun s => PairwiseExclusive s.db) ?_ ?_ h
  · intro k₁ k₂ r₁ r₂ hk₁
    cases hk₁
  · intro s a s' hr hex hg hstep
    rcases apply_committed hstep with hdb | ⟨tx, htx, hc⟩
    · rw [hdb]
      exact hex
    · exact hc.pairwiseExclusive hg htx (reaches_runsLinked hr) hex

/-- A follow-up after the first run has ended. -/
theorem follow_up_after_finish_exclusive :
    ∃ s, Lts.run (Lts.guarded (apply Env.default) (LoneStart Env.default))
        State.init (firstStart ++ cleanFinish ++ followUp) = some s
      ∧ RunExclusive s.db := by
  obtain ⟨s, hs⟩ := Option.isSome_iff_exists.mp
    (show (Lts.run (Lts.guarded (apply Env.default)
      (LoneStart Env.default)) State.init
      (firstStart ++ cleanFinish ++ followUp)).isSome by decide)
  exact ⟨s, hs, runs_exclusive_of_lone_starts
    (Lts.reachable_of_guarded_run .init hs)⟩

/-- The run a follow-up inserts, next to the runs that were there. -/
theorem followUp_inserts {cfg : Settings} {now : Time} {db db' : Db}
    {tx : Tx} {sid : Uuid} (htx : tx.followUpOn = some sid)
    (hc : tx.commit cfg now db = .ok db') :
    ∃ r, db.runs.insert r = some db'.runs ∧ r.sessionId = sid
      ∧ r.status = .running := by
  cases tx with
  | postMessage sid' content index msgId rid =>
      injection htx with htx
      obtain ⟨_, _, _, _, runs, -, -, hr, rfl⟩ := postMessage_ok hc
      exact ⟨_, hr, htx, rfl⟩
  | handleReminder sid' message wake payload index msgId rid =>
      cases wake with
      | false => cases htx
      | true =>
          injection htx with htx
          obtain ⟨_, _, -, ⟨hw, -⟩ | ⟨-, _, runs, -, hr, rfl⟩⟩ :=
            handleReminder_ok hc
          · cases hw
          · exact ⟨_, hr, htx, rfl⟩
  | _ => cases htx

/-- The condition is exact: a follow-up that commits on a session with a
running run leaves two. -/
theorem crowded_start_breaks {env : Env} {a : Action} {s s' : State}
    (hg : ¬ LoneStart env a s) (hstep : apply env a s = some s')
    (hdb : s'.db ≠ s.db) : ¬ RunExclusive s'.db := by
  intro hex
  rcases apply_db hstep with ⟨he, -⟩ | ⟨tx, htx, ⟨he, -⟩ | ⟨hc, -⟩⟩
  · exact hdb he
  · exact hdb he
  · unfold LoneStart at hg
    rw [htx] at hg
    cases hf : tx.followUpOn with
    | none => simp [hf] at hg
    | some sid =>
        simp only [Option.bind_some, hf] at hg
        obtain ⟨r, hr, hsess, hrun⟩ := followUp_inserts hf hc
        obtain ⟨k, hk⟩ := List.exists_mem_of_ne_nil _ hg
        obtain ⟨r₀, hr₀, hsess₀, hrun₀⟩ := mem_runningRuns.mp hk
        have hold : k ∈ runningRuns s'.db.runs sid :=
          mem_runningRuns.mpr
            ⟨r₀, Table.get_insert_of_some hr hr₀, hsess₀, hrun₀⟩
        have hnew : r.id ∈ runningRuns s'.db.runs sid := by
          refine mem_runningRuns.mpr ⟨r, ?_, hsess, hrun⟩
          rw [Table.get_insert hr]
          exact if_pos rfl
        have hne : k ≠ r.id := by
          rintro rfl
          have hfresh := Table.insert_fresh hr
          rw [show HasKey.key r = r.id from rfl, hr₀] at hfresh
          cases hfresh
        exact hne (Table.eq_of_mem_short (hex sid) hold hnew)

/-- A follow-up while the first run executes: the session is still
`idle`, the post is accepted and two runs are running. -/
theorem follow_up_beside_running_run :
    ¬ ∀ s, Reaches Env.default Lts.Always s → RunExclusive s.db := by
  intro h
  obtain ⟨s, hs⟩ := Option.isSome_iff_exists.mp
    (show (Lts.run (apply Env.default) State.init
      (firstStart ++ followUp)).isSome by decide)
  have hcount : (Lts.run (apply Env.default) State.init
      (firstStart ++ followUp)).map
      (fun s => (runningRuns s.db.runs 10).length) = some 2 := by decide
  rw [hs] at hcount
  have hle := h s (Lts.reachable_of_run .init hs) 10
  have htwo : (runningRuns s.db.runs 10).length = 2 :=
    Option.some.inj hcount
  omega

end LegalBot
