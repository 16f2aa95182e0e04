/-
The job state machine over whole runs: every committed change of a
`processing_job` is a pair of `ALLOWED_TRANSITIONS`, whoever wrote it
and however stale the row it had read.

`Committed.jobs` says it of one transaction; here it is carried along a
trace of the system. A job is inserted in `intake`, but
`promote_to_ready` moves it on in the same transaction, so the first
state it is ever committed in is `ready`.
-/
import LegalBot.Orchestrator.System

namespace LegalBot

open Relational (HasKey Table)

/-- The states a job is committed in along a trace, each change once. -/
def committedStates (jobId : Uuid) (tr : List State) : List JobState :=
  Lts.changes (tr.filterMap fun s => jobState s.db jobId)

/-- What one pair of consecutive states obeys beyond being allowed:
`archived` is final and `completed` is left for `archived` only. -/
def TerminalRespected (f t : JobState) : Prop :=
  f ≠ .archived ∧ (f = .completed → t = .archived)

theorem allowed_terminalRespected {f t : JobState}
    (h : (f, t) ∈ allowedTransitions) : TerminalRespected f t := by
  have htable : ∀ p ∈ allowedTransitions,
      p.1 ≠ .archived ∧ (p.1 = .completed → p.2 = .archived) := by
    decide
  exact htable (f, t) h

section Steps

variable {env : Env} {s s' : State} {a : Action} {j : Uuid}

/-- A job that is there keeps its state or moves along an allowed
pair. -/
theorem apply_jobState (h : apply env a s = some s') {f : JobState}
    (hf : jobState s.db j = some f) :
    ∃ t, jobState s'.db j = some t
      ∧ (f = t ∨ (f, t) ∈ allowedTransitions) := by
  rcases apply_committed h with hdb | ⟨tx, -, hc⟩
  · rw [hdb]
    exact ⟨f, hf, Or.inl rfl⟩
  · unfold jobState at hf ⊢
    obtain ⟨row, hrow, rfl⟩ := Option.map_eq_some_iff.mp hf
    obtain ⟨row', hrow', hmove⟩ := hc.jobs.persists hrow
    refine ⟨row'.state, by rw [hrow']; rfl, ?_⟩
    rcases hmove.state with heq | hlogged
    · exact Or.inl heq.symm
    · exact Or.inr hlogged.1

/-- A job that appears is `ready`. -/
theorem apply_jobBorn (h : apply env a s = some s')
    (hf : jobState s.db j = none) {t : JobState}
    (ht : jobState s'.db j = some t) : t = .ready := by
  rcases apply_committed h with hdb | ⟨tx, -, hc⟩
  · rw [hdb, hf] at ht
    cases ht
  · unfold jobState at hf ht
    obtain ⟨row, hrow, rfl⟩ := Option.map_eq_some_iff.mp ht
    exact hc.jobs.born (Option.map_eq_none_iff.mp hf) hrow

end Steps

/-- The committed states of every job, over every run of the system:
they start at `ready`, every change is an allowed pair, `archived` is
final and `completed` is left for `archived` only. -/
theorem committed_states_conform {env : Env} {acts : List Action}
    {tr : List State}
    (h : Lts.trace (apply env) State.init acts = some tr) (j : Uuid) :
    (∀ first ∈ (committedStates j tr).head?, first = .ready)
      ∧ (committedStates j tr).IsChain
          (fun f t => (f, t) ∈ allowedTransitions)
      ∧ (committedStates j tr).IsChain TerminalRespected := by
  have hchain : (committedStates j tr).IsChain
      (fun f t => (f, t) ∈ allowedTransitions) := by
    refine Lts.changes_isChain (Lts.filterMap_isChain ?_)
    exact Lts.trace_isChain
      (fun s a s' _ hstep f hf => apply_jobState hstep hf) .init h
  refine ⟨?_, hchain, hchain.imp fun _ _ => allowed_terminalRespected⟩
  unfold committedStates
  rw [Lts.changes_head]
  have hhead := Lts.trace_head h
  cases tr with
  | nil => cases hhead
  | cons s rest =>
      injection hhead with hhead
      subst hhead
      refine Lts.filterMap_head ?_ rfl
      exact Lts.trace_isChain
        (fun s a s' _ hstep hf t ht => apply_jobBorn hstep hf ht) .init h

/-- A job from its ingestion to a clean end. -/
theorem committed_states_of_first_job :
    ∃ tr, Lts.trace (apply Env.default) State.init
        (firstStart ++ cleanFinish) = some tr
      ∧ committedStates 2 tr
        = [.ready, .dispatched, .processing, .completed]
      ∧ (committedStates 2 tr).IsChain
          (fun f t => (f, t) ∈ allowedTransitions) := by
  obtain ⟨tr, htr⟩ := Option.isSome_iff_exists.mp
    (show (Lts.trace (apply Env.default) State.init
      (firstStart ++ cleanFinish)).isSome by decide)
  have hstates : (Lts.trace (apply Env.default) State.init
      (firstStart ++ cleanFinish)).map (committedStates 2)
      = some [.ready, .dispatched, .processing, .completed] := by decide
  rw [htr] at hstates
  exact ⟨tr, htr, Option.some.inj hstates,
    (committed_states_conform htr 2).2.1⟩

/-- No committed state is `intake`: the first one of the job the first
ingestion creates is `ready`. -/
theorem committed_states_not_from_intake :
    ¬ ∀ (acts : List Action) (tr : List State) (j : Uuid),
        Lts.trace (apply Env.default) State.init acts = some tr →
        ∀ first ∈ (committedStates j tr).head?, first = .intake := by
  intro h
  obtain ⟨tr, htr⟩ := Option.isSome_iff_exists.mp
    (show (Lts.trace (apply Env.default) State.init
      firstStart).isSome by decide)
  have hhead : (Lts.trace (apply Env.default) State.init firstStart).map
      (fun tr => (committedStates 2 tr).head?)
      = some (some .ready) := by decide
  rw [htr] at hhead
  have hready : (committedStates 2 tr).head? = some .ready :=
    Option.some.inj hhead
  have hintake := h firstStart tr 2 htr .ready hready
  cases hintake

end LegalBot
