/-
Cancelled and expired schedules.

`pause` and `resume` are `UPDATE`s by id and ask nothing of the row, so
they take a finished row back; and a worker reads the status in one
statement and calls the handler after it, so a row that is cancelled in
between is fired nonetheless.

`Settled` is the absence of the two: no finished row is paused or
resumed, and none is finished while a worker is between its check and
its handler. Along every run of such steps a finished row stays
finished, and its handler is not started again.

# The invariant

`ChecksCurrent`: the row that a worker has found active is not finished
before its handler starts.
-/
import LegalBot.Scheduling.Moves

namespace LegalBot.Firing

open Relational (HasKey Table)

-- ============================================================== statements

/-- The statuses that are to be final. -/
def isFinal : ScheduledJobStatus → Bool
  | .cancelled | .expired => true
  | .active | .paused => false

/-- A row that is cancelled or expired. -/
def Finished (t : Table ScheduledJob) (k : Uuid) : Prop :=
  ∃ row, t.get k = some row ∧ isFinal row.status = true

/-- How often the handler of a row was started. -/
def starts (s : State) (k : Uuid) : Nat := s.log.count (.started k)

/-- No finished row is paused or resumed, and no row is finished between
the check and the start of its handler. -/
structure Settled (env : Env) (a : Action) (s : State) : Prop where
  kept : ∀ k st, (k, st) ∈ s.writes env a → isFinal st = false →
    ¬ Finished s.schedules k
  undisturbed : ∀ k st, (k, st) ∈ s.writes env a → isFinal st = true →
    ∀ tid row, (s.fires tid).point = .checked row → row.id ≠ k

-- ================================================================ one step

section Step

variable {env : Env} {a : Action} {s s' : State} {k : Uuid}

/-- A finished row stays finished, unless it is paused or resumed. -/
theorem Finished.step
    (hkept : ∀ st, (k, st) ∈ s.writes env a → isFinal st = false →
      ¬ Finished s.schedules k)
    (hstep : apply env a s = some s') (h : Finished s.schedules k) :
    Finished s'.schedules k := by
  obtain ⟨row, hrow, hfinal⟩ := h
  obtain ⟨row', hrow', -, ⟨hst, -⟩ | hmem⟩ := apply_row_kept hstep hrow
  · exact ⟨row', hrow', hst ▸ hfinal⟩
  · refine ⟨row', hrow', ?_⟩
    cases hst : isFinal row'.status with
    | true => rfl
    | false => exact absurd ⟨row, hrow, hfinal⟩ (hkept _ hmem hst)

/-- A row that is finished by a step was so before, or is written by
it. -/
theorem finished_origin (hstep : apply env a s = some s')
    (h : Finished s'.schedules k) :
    Finished s.schedules k
      ∨ ∃ st, (k, st) ∈ s.writes env a ∧ isFinal st = true := by
  obtain ⟨row', hrow', hfinal⟩ := h
  rcases apply_row hstep hrow' with
    ⟨row, hrow, -, ⟨hst, -⟩ | hmem⟩ | ⟨-, hactive, -⟩
  · exact Or.inl ⟨row, hrow, hst ▸ hfinal⟩
  · exact Or.inr ⟨_, hmem, hfinal⟩
  · rw [hactive] at hfinal
    cases hfinal

/-- What a worker has found active is not finished. -/
def ChecksCurrent (s : State) : Prop :=
  ∀ tid row, (s.fires tid).point = .checked row →
    ¬ Finished s.schedules row.id

theorem ChecksCurrent.step (h : ChecksCurrent s) (hg : Settled env a s)
    (hstep : apply env a s = some s') : ChecksCurrent s' := by
  intro tid row hp hfin
  rcases checked_origin hstep hp with hp₀ | ⟨rfl, hget, hactive⟩
  · rcases finished_origin hstep hfin with hfin₀ | ⟨st, hmem, hfinal⟩
    · exact h tid row hp₀ hfin₀
    · exact hg.undisturbed row.id st hmem hfinal tid row hp₀ rfl
  · rw [check_schedules hstep] at hfin
    obtain ⟨row', hget', hfinal⟩ := hfin
    rw [hget] at hget'
    cases hget'
    rw [hactive] at hfinal
    cases hfinal

/-- The handler of a finished row is not started. -/
theorem starts_step (h : ChecksCurrent s)
    (hstep : apply env a s = some s') (hfin : Finished s.schedules k) :
    starts s' k = starts s k := by
  unfold starts
  rw [apply_log hstep, List.count_append, Nat.add_eq_right,
    List.count_eq_zero]
  intro hmem
  obtain ⟨tid, row, -, hp, rfl⟩ := started_logged hmem
  exact h tid row hp hfin

end Step

-- ==================================================================== runs

section Runs

variable {env : Env} {s s' : State} {k : Uuid}

theorem reaches_checksCurrent
    (h : Lts.Reachable (apply env) (Settled env) State.init s) :
    ChecksCurrent s := by
  refine Lts.Reachable.invariant (P := ChecksCurrent) ?_ ?_ h
  · intro tid row hp
    cases hp
  · exact fun s a s' _ hs hg hstep => hs.step hg hstep

/-- In every run whose steps are settled, a row that is cancelled or
expired stays so from then on, and its handler is not started again. -/
theorem finished_schedules_stay
    (h : Lts.Reachable (apply env) (Settled env) State.init s)
    (hfin : Finished s.schedules k)
    (h' : Lts.Reachable (apply env) (Settled env) s s') :
    Finished s'.schedules k ∧ starts s' k = starts s k := by
  have hall : Finished s'.schedules k ∧ starts s' k = starts s k
      ∧ ChecksCurrent s' := by
    refine Lts.Reachable.invariant (P := fun t => Finished t.schedules k
      ∧ starts t k = starts s k ∧ ChecksCurrent t)
      ⟨hfin, rfl, reaches_checksCurrent h⟩ ?_ h'
    rintro t a t' - ⟨hfin', hstarts, hcur⟩ hg hstep
    exact ⟨hfin'.step (hg.kept k) hstep,
      (starts_step hcur hstep hfin').trans hstarts, hcur.step hg hstep⟩
  exact ⟨hall.1, hall.2.1⟩

/-- A step that writes no status is settled. -/
theorem Settled.of_writes {a : Action} (h : s.writes env a = []) :
    Settled env a s where
  kept k st hmem := by
    rw [h] at hmem
    cases hmem
  undisturbed k st hmem := by
    rw [h] at hmem
    cases hmem

end Runs

-- =============================================================== scenarios

/-- A recurring reminder. -/
def remind : Action :=
  .inner (.scheduleRecurring 80 "reminder" .null .cron "alice" none none
    none)

/-- The reminder is cancelled, and its entry stays. -/
def cancelled : List Action :=
  [remind, .register 80, .inner (.cancel 80)]

/-- The entry publishes; the worker that is given the message skips
it. -/
theorem finished_schedules_stay_cancelled : ∃ s s',
    Lts.run (apply Env.default) State.init cancelled = some s
      ∧ Lts.run (apply Env.default) s
        [.beat 80, .deliver 6 0, .check 6] = some s'
      ∧ Finished s'.schedules 80 ∧ starts s' 80 = starts s 80 := by
  have hr : ∃ s, Lts.run (apply Env.default) State.init cancelled = some s
      ∧ Lts.Reachable (apply Env.default) (Settled Env.default) State.init s
      ∧ Finished s.schedules 80 := by
    refine ⟨_, rfl, .step (.inner (.cancel 80))
      (.step (.register 80) (.step remind .init (.of_writes rfl) rfl)
        (.of_writes rfl) rfl) ⟨?_, ?_⟩ rfl, ⟨_, rfl, rfl⟩⟩
    · intro k st hmem hfinal
      cases List.mem_singleton.mp hmem
      cases hfinal
    · intro k st _ _ tid row hp
      cases hp
  have hr' : ∀ s, Lts.run (apply Env.default) State.init cancelled
      = some s → ∃ s', Lts.run (apply Env.default) s
        [.beat 80, .deliver 6 0, .check 6] = some s'
      ∧ Lts.Reachable (apply Env.default) (Settled Env.default) s s' := by
    intro s hs
    cases hs
    exact ⟨_, rfl, .step (.check 6) (.step (.deliver 6 0)
      (.step (.beat 80) .init (.of_writes rfl) rfl) (.of_writes rfl) rfl)
      (.of_writes rfl) rfl⟩
  obtain ⟨s, hs, hreach, hfin⟩ := hr
  obtain ⟨s', hs', hreach'⟩ := hr' s hs
  exact ⟨s, s', hs, hs', finished_schedules_stay hreach hfin hreach'⟩

/-- A cancelled schedule is resumed, its entry publishes, and its
handler is started. -/
def resumedAndFired : List Action :=
  [.inner (.resume 80), .beat 80, .deliver 6 0, .check 6, .handle 6]

theorem finished_schedule_resumed :
    ¬ ∀ s s' k, Lts.Reachable (apply Env.default) Lts.Always State.init s →
      Finished s.schedules k →
      Lts.Reachable (apply Env.default) Lts.Always s s' →
      Finished s'.schedules k ∧ starts s' k = starts s k := by
  intro h
  obtain ⟨s, hs, hfin⟩ : ∃ s, Lts.run (apply Env.default) State.init
      cancelled = some s ∧ Finished s.schedules 80 :=
    ⟨_, rfl, _, rfl, rfl⟩
  have hfire : ∃ s', Lts.run (apply Env.default) s resumedAndFired = some s'
      ∧ starts s' 80 ≠ starts s 80 := by
    cases hs
    exact ⟨_, rfl, by decide⟩
  obtain ⟨s', hs', hne⟩ := hfire
  exact hne (h s s' 80 (Lts.reachable_of_run .init hs) hfin
    (Lts.reachable_of_run .init hs')).2

end LegalBot.Firing
