/-
The schedules of a run that has been replayed.

`cascade_cancel` selects the rows of the run that are active and cancels
those. A row that is paused at that moment is none of them and stays
paused, and `resume` asks nothing about the run; a row that is resumed
or scheduled between the `SELECT` and the commit is none of them either.

`Undisturbed` is what a replay relies on until it commits. From then on,
a row that is not resumed does not fire.

# The invariant

`SelectsActive`: what a replay has selected is every active row of its
run, until it commits.
-/
import LegalBot.Proofs.FinalSchedules
import LegalBot.Proofs.ReplayScope

namespace LegalBot.Firing

open Relational (HasKey Table)

-- ============================================================== statements

/-- A replay of `r` has selected the rows to cancel and is about to
commit. -/
def Selecting (s : State) (tid : Nat) (r : Uuid) : Prop :=
  (∃ ids, s.inner.selected tid = some ids)
    ∧ ∃ sid step ctx cp, (s.inner.base.tasks tid).pc
      = .handler (.replayInsert sid r step ctx cp)

/-- The step resumes a row of `r`, or schedules one. -/
def Rouses (a : Action) (s : State) (r : Uuid) : Prop :=
  (∃ k, a = .inner (.resume k) ∧ Replays.OfRun s.schedules k r)
    ∨ ∃ b, a = .inner b ∧ scheduledFor b = some (some r)

/-- The step commits a replay of `r`. -/
def Replayed (env : Env) (a : Action) (s : State) (r : Uuid) : Prop :=
  ∃ tid reply sid step ctx cp, a = .inner (.base (.advance tid reply))
    ∧ (s.inner.base.tasks tid).pc
      = .handler (.replayInsert sid r step ctx cp)
    ∧ (s.inner.commits env (.advance tid reply)).isSome = true

/-- No row of a run is resumed or scheduled while a replay of the run is
between its selection and its commit, and at the commit no worker is
between its check of such a row and the handler. -/
structure Undisturbed (env : Env) (a : Action) (s : State) : Prop where
  selecting : ∀ tid r, Selecting s tid r → ¬ Rouses a s r
  committing : ∀ r, Replayed env a s r → ∀ tid row,
    (s.fires tid).point = .checked row →
    ¬ Replays.OfRun s.schedules row.id r

-- ========================================================= before the commit

section Before

variable {env : Env} {a : Action} {s s' : State} {r : Uuid}

/-- What a replay has selected is every active row of its run. -/
def SelectsActive (s : State) : Prop :=
  ∀ {tid ids sid r step ctx cp}, s.inner.selected tid = some ids →
    (s.inner.base.tasks tid).pc
      = .handler (.replayInsert sid r step ctx cp) →
    ∀ {k row}, s.schedules.get k = some row → row.runId = some r →
      row.status = .active → k ∈ ids

/-- The active rows of a run are selected. -/
theorem cascadeSelect_mem {t : Table ScheduledJob} {k : Uuid}
    {row : ScheduledJob} (hk : t.get k = some row)
    (hrun : row.runId = some r) (hactive : row.status = .active) :
    k ∈ cascadeSelect t (some r) none := by
  unfold cascadeSelect
  refine List.mem_map.mpr ⟨row, List.mem_filter.mpr ⟨?_, ?_⟩, ?_⟩
  · exact (Table.get_some hk).1
  · simp [hrun, hactive]
  · exact Table.key_of_get hk

/-- A selection of the inner system's. -/
theorem inner_selected {b : Replays.Action} {t t' : Replays.State}
    (h : Replays.apply env b t = some t') {tid : Nat} {ids : List Uuid}
    (hsel : t'.selected tid = some ids) :
    (t.selected tid = some ids ∧ t'.base.tasks tid = t.base.tasks tid)
      ∨ (b = .select tid ∧ t'.base = t.base
        ∧ t'.schedules = t.schedules ∧ ∃ sid r step ctx cp,
          (t.base.tasks tid).pc
            = .handler (.replayInsert sid r step ctx cp)
          ∧ ids = cascadeSelect t.schedules (some r) none) := by
  cases b with
  | base b₀ =>
      obtain ⟨-, hbase, -, hselected, -⟩ := Replays.apply_base h
      rw [hselected tid] at hsel
      split at hsel
      · cases hsel
      · rename_i hactor
        exact Or.inl ⟨hsel, apply_other hbase hactor⟩
  | select t₀ =>
      unfold Replays.apply at h
      simp only at h
      split at h
      · rename_i sid r step ctx cp hpc
        injection h with h
        subst h
        by_cases ht : tid = t₀
        · subst ht
          simp only [Function.update_self, Option.some.injEq] at hsel
          exact Or.inr ⟨rfl, rfl, rfl, sid, r, step, ctx, cp, hpc,
            hsel.symm⟩
        · simp only [Function.update_of_ne ht] at hsel
          exact Or.inl ⟨hsel, rfl⟩
      · cases h
  | addStep | scheduleOneShot | scheduleRecurring | resume =>
      obtain ⟨_, -, rfl⟩ := Option.map_eq_some_iff.mp h
      exact Or.inl ⟨hsel, rfl⟩
  | pause | cancel | expire =>
      injection h with h
      subst h
      exact Or.inl ⟨hsel, rfl⟩

/-- The actors and the selections of a step are those of a step of the
inner system, if it changes them. -/
theorem apply_inner_step (h : apply env a s = some s') :
    (s'.inner.base = s.inner.base ∧ s'.inner.selected = s.inner.selected)
      ∨ ∃ b inner, Replays.apply env b s.inner = some inner
        ∧ s'.inner.base = inner.base
        ∧ s'.inner.selected = inner.selected
        ∧ ∀ tid, b = .select tid → s'.schedules = inner.schedules := by
  cases apply_moved h with
  | inner _ hinner => exact Or.inr ⟨_, _, hinner, rfl, rfl, fun _ _ => rfl⟩
  | called hinner hc =>
      obtain ⟨hbase, hsel⟩ := called_inner (s := { s with inner := _ })
        _ _ _ _
      obtain ⟨_, _, rfl, -⟩ := calls_some hc
      exact Or.inr ⟨_, _, hinner, hbase, hsel, (fun _ h => by cases h)⟩
  | calling _ hor =>
      rcases hor with rfl | ⟨entry, -, hinner⟩
      · exact Or.inl ⟨rfl, rfl⟩
      · exact Or.inr ⟨_, _, hinner, rfl, rfl, (fun _ h => by cases h)⟩
  | failed hinner | crashed hinner =>
      exact Or.inr ⟨_, _, hinner, rfl, rfl, (fun _ h => by cases h)⟩
  | _ => exact Or.inl ⟨rfl, rfl⟩

/-- One step keeps a selection complete. -/
theorem SelectsActive.step (hs : SelectsActive s)
    (hg : Undisturbed env a s) (hstep : apply env a s = some s') :
    SelectsActive s' := by
  intro tid ids sid r step ctx cp hsel hpc k row hk hrun hactive
  have hkept : s.inner.selected tid = some ids →
      (s.inner.base.tasks tid).pc
        = .handler (.replayInsert sid r step ctx cp) → k ∈ ids := by
    intro hsel₀ hpc₀
    have hquiet := hg.selecting tid r
      ⟨⟨ids, hsel₀⟩, sid, step, ctx, cp, hpc₀⟩
    rcases apply_row hstep hk with
      ⟨row₀, hk₀, hsame, ⟨hst, -⟩ | hmem⟩ | ⟨-, -, b, hb, hfor⟩
    · exact hs hsel₀ hpc₀ hk₀ (hsame.runId.symm.trans hrun)
        (hst.symm.trans hactive)
    · rw [hactive] at hmem
      rcases written hmem with ⟨he, -⟩ | ⟨-, ha⟩ | he | he
      · cases he
      · exact absurd (Or.inl ⟨k, ha, row₀, hk₀,
          hsame.runId.symm.trans hrun⟩) hquiet
      · cases he
      · cases he
    · rw [hrun] at hfor
      exact absurd (Or.inr ⟨b, hb, hfor⟩) hquiet
  rcases apply_inner_step hstep with
    ⟨hbase, hselected⟩ | ⟨b, inner, hinner, hbase, hselected, hsched⟩
  · rw [hselected] at hsel
    rw [hbase] at hpc
    exact hkept hsel hpc
  · rw [hselected] at hsel
    rw [hbase] at hpc
    rcases inner_selected hinner hsel with
      ⟨hsel₀, htask⟩ | ⟨hb, hbase₀, hsched₀, _, _, _, _, _, hpc₀, hids⟩
    · rw [htask] at hpc
      exact hkept hsel₀ hpc
    · rw [hbase₀, hpc₀] at hpc
      cases hpc
      rw [hsched tid hb, hsched₀] at hk
      rw [hids]
      exact cascadeSelect_mem hk hrun hactive

end Before

-- ========================================================== after the commit

section After

variable {env : Env} {a : Action} {s s' : State} {k r : Uuid}

/-- A row that is there, and is not about to fire. -/
structure Silent (s : State) (k : Uuid) : Prop where
  there : ∃ row, s.schedules.get k = some row
  inactive : ∀ {row}, s.schedules.get k = some row → row.status ≠ .active
  unchecked : ∀ {tid row}, (s.fires tid).point = .checked row → row.id ≠ k

/-- A silent row stays silent, unless it is resumed. -/
theorem Silent.step (hs : Silent s k) (ha : a ≠ .inner (.resume k))
    (hstep : apply env a s = some s') :
    Silent s' k ∧ starts s' k = starts s k := by
  obtain ⟨row₀, hk₀⟩ := hs.there
  refine ⟨⟨?_, fun {row'} hk' hactive => ?_, fun {tid row} hp hid => ?_⟩, ?_⟩
  · obtain ⟨row', hk', -⟩ := apply_row_kept hstep hk₀
    exact ⟨row', hk'⟩
  · rcases apply_row hstep hk' with
      ⟨row, hk, -, ⟨hst, -⟩ | hmem⟩ | ⟨hnone, -⟩
    · exact hs.inactive hk (hst.symm.trans hactive)
    · rw [hactive] at hmem
      rcases written hmem with ⟨he, -⟩ | ⟨-, he⟩ | he | he
      · cases he
      · exact ha he
      · cases he
      · cases he
    · rw [hk₀] at hnone
      cases hnone
  · subst hid
    rcases checked_origin hstep hp with hp₀ | ⟨-, hget, hactive⟩
    · exact hs.unchecked hp₀ rfl
    · exact hs.inactive hget hactive
  · unfold starts
    rw [apply_log hstep, List.count_append, Nat.add_eq_right,
      List.count_eq_zero]
    intro hmem
    obtain ⟨tid, row, -, hp, hid⟩ := started_logged hmem
    exact hs.unchecked hp hid

/-- The commit of a replay silences the rows of its run. -/
theorem Replayed.silences (hs : SelectsActive s)
    (hg : Undisturbed env a s) (hstep : apply env a s = some s')
    (h : Replayed env a s r) (hk : Replays.OfRun s.schedules k r) :
    Silent s' k ∧ starts s' k = starts s k := by
  obtain ⟨row, hget, hrun⟩ := hk
  have hunchecked : ∀ {tid row}, (s.fires tid).point = .checked row →
      row.id ≠ k := by
    rintro tid row' hp rfl
    exact hg.committing r h tid row' hp ⟨row, hget, hrun⟩
  obtain ⟨tid, reply, sid, step, ctx, cp, rfl, hpc, hsome⟩ := h
  obtain ⟨⟨sid', ids⟩, hc⟩ := Option.isSome_iff_exists.mp hsome
  obtain ⟨_, _, _, _, _, _, he, hpc', hsel⟩ := Replays.commits_some hc
  cases he
  rw [hpc] at hpc'
  cases hpc'
  obtain ⟨row', hget', -, hor⟩ := apply_row_kept hstep hget
  refine ⟨⟨⟨row', hget'⟩, fun {row₁} hget₁ hactive => ?_,
    fun {t row₁} hp hid => ?_⟩, ?_⟩
  · rw [hget'] at hget₁
    cases hget₁
    rcases hor with ⟨hst, hnone⟩ | hmem
    · have hmem := hs hsel hpc hget hrun (hst.symm.trans hactive)
      refine hnone .cancelled ?_
      simp only [State.writes, innerWrites, hc]
      exact List.mem_append_left _ (List.mem_map.mpr ⟨k, hmem, rfl⟩)
    · rw [hactive] at hmem
      rcases written hmem with ⟨he, -⟩ | ⟨-, he⟩ | he | he
      · cases he
      · cases he
      · cases he
      · cases he
  · rcases checked_origin hstep hp with hp₀ | ⟨he, -⟩
    · exact hunchecked hp₀ hid
    · cases he
  · unfold starts
    rw [apply_log hstep, List.count_append, Nat.add_eq_right,
      List.count_eq_zero]
    intro hmem
    obtain ⟨_, _, -, hp, hid⟩ := started_logged hmem
    exact hunchecked hp hid

end After

-- ==================================================================== runs

section Runs

variable {env : Env} {a : Action} {s s₁ s' : State} {k r : Uuid}

theorem reaches_selectsActive
    (h : Lts.Reachable (apply env) (Undisturbed env) State.init s) :
    SelectsActive s := by
  refine Lts.Reachable.invariant (P := fun s => SelectsActive s) ?_ ?_ h
  · intro tid ids sid r step ctx cp hsel
    cases hsel
  · intro s a s' _ hs hg hstep
    exact SelectsActive.step hs hg hstep

/-- In every run whose replays commit undisturbed, a row of a run that
has been replayed is not fired again, however the schedules are operated
on, if the row itself is not resumed. -/
theorem replayed_run_silent
    (h : Lts.Reachable (apply env) (Undisturbed env) State.init s)
    (hg : Undisturbed env a s) (hstep : apply env a s = some s₁)
    (hreplay : Replayed env a s r) (hk : Replays.OfRun s.schedules k r)
    (h' : Lts.Reachable (apply env) (fun a _ => a ≠ .inner (.resume k))
      s₁ s') : starts s' k = starts s k := by
  obtain ⟨hsilent, hstarts⟩ :=
    Replayed.silences (reaches_selectsActive h) hg hstep hreplay hk
  have hall : Silent s' k ∧ starts s' k = starts s k := by
    refine Lts.Reachable.invariant
      (P := fun t => Silent t k ∧ starts t k = starts s k)
      ⟨hsilent, hstarts⟩ ?_ h'
    rintro t a t' - ⟨ht, hcount⟩ ha hstep
    obtain ⟨ht', hcount'⟩ := ht.step ha hstep
    exact ⟨ht', hcount'.trans hcount⟩
  exact hall.2

end Runs

-- =============================================================== scenarios

section Scenarios

variable {env : Env} {s s' : State}

/-- No worker is about, and no replay has selected anything. -/
structure Calm (s : State) : Prop where
  idle : ∀ tid, s.fires tid = .idle
  unselected : ∀ tid, s.inner.selected tid = none

theorem Calm.undisturbed (hs : Calm s) (a : Action) :
    Undisturbed env a s where
  selecting tid r hsel := by
    obtain ⟨⟨ids, hids⟩, -⟩ := hsel
    rw [hs.unselected] at hids
    cases hids
  committing r _ tid row hp := by
    rw [hs.idle] at hp
    cases hp

/-- The selection of a replay. -/
def selects : Replays.Action → Bool
  | .select _ => true
  | _ => false

/-- Operations of the inner system, but for the selection of a replay,
leave it so. -/
theorem Calm.run {bs : List Replays.Action}
    (hbs : ∀ b ∈ bs, selects b = false) : ∀ {s : State}, Calm s →
      Lts.Reachable (apply env) (Undisturbed env) State.init s →
      Lts.run (apply env) s (bs.map .inner) = some s' →
      Calm s' ∧ Lts.Reachable (apply env) (Undisturbed env) State.init s' := by
  induction bs with
  | nil =>
      intro s hs hr h
      cases h
      exact ⟨hs, hr⟩
  | cons b rest ih =>
      intro s hs hr h
      rw [List.map_cons, Lts.run] at h
      cases hstep : apply env (.inner b) s with
      | none =>
          rw [hstep] at h
          cases h
      | some s₁ =>
          rw [hstep] at h
          refine ih (fun b hb => hbs b (List.mem_cons_of_mem _ hb)) ?_
            (.step _ hr (hs.undisturbed _) hstep) h
          cases apply_moved hstep with
          | outside _ _ hout => cases hout
          | called _ hc =>
              obtain ⟨_, _, -, hpoint, -⟩ := calls_some hc
              rw [hs.idle] at hpoint
              cases hpoint
          | inner _ hinner =>
              refine ⟨hs.idle, fun tid => ?_⟩
              refine Option.eq_none_iff_forall_ne_some.mpr fun ids hids => ?_
              rcases inner_selected hinner hids with ⟨hsel, -⟩ | ⟨hb, -⟩
              · rw [hs.unselected] at hsel
                cases hsel
              · have hno := hbs b List.mem_cons_self
                rw [hb] at hno
                cases hno

end Scenarios

/-- Run 11 has recorded a step and scheduled a reminder, which is paused;
session 10 is about to be replayed from it. -/
def pausedReminder : List Replays.Action :=
  firstStart.map .base ++
  [.addStep 70 11 "extract" (some "cp") none none,
    .scheduleOneShot 80 "reminder" .null 0 "alice" (some 10) (some 2)
      (some 11) none, .pause 80,
    .base (.start 5 (.replay 10 11 "extract" "again")),
    .base (.advance 5 (.checkpoint "cp"))]

/-- The rows to cancel are selected, and none is active. -/
def aboutToCommit : List Action :=
  pausedReminder.map .inner ++ [.inner (.select 5)]

/-- The replay commits. -/
def commitReplay : Action := .inner (.base (.advance 5 (.fresh [30, 31] "r")))

/-- The entry of the reminder publishes, and a worker is given the
message. -/
def lateDelivery : List Action :=
  [.register 80, .beat 80, .deliver 6 0, .check 6]

/-- The replay of run 11 is there to commit, and the reminder is one of
its rows. -/
theorem aboutToCommit_replays {s : State}
    (hs : Lts.run (apply Env.default) State.init aboutToCommit = some s) :
    Replayed Env.default commitReplay s 11
      ∧ Replays.OfRun s.schedules 80 11 := by
  have heval : (Lts.run (apply Env.default) State.init aboutToCommit).map
      (fun s => ((s.inner.base.tasks 5).pc,
        (s.inner.commits Env.default
          (.advance 5 (.fresh [30, 31] "r"))).isSome,
        (s.schedules.get 80).map (·.runId)))
      = some (.handler (.replayInsert 10 11 "extract" "again" "cp"), true,
        some (some 11)) := by
    rfl
  rw [hs, Option.map_some, Option.some.injEq] at heval
  obtain ⟨hpc, hcommits, hrun⟩ := Prod.mk.inj heval |>.imp_right Prod.mk.inj
  obtain ⟨row, hget, hrow⟩ := Option.map_eq_some_iff.mp hrun
  exact ⟨⟨5, _, 10, "extract", "again", "cp", rfl, hpc, hcommits⟩, row,
    hget, hrow⟩

/-- The paused reminder keeps silent after the replay. -/
theorem replayed_run_silent_paused : ∃ s s₁ s',
    Lts.run (apply Env.default) State.init aboutToCommit = some s
      ∧ apply Env.default commitReplay s = some s₁
      ∧ Lts.run (apply Env.default) s₁ lateDelivery = some s'
      ∧ starts s' 80 = starts s 80 := by
  obtain ⟨s₀, s, s₁, s', h₀, hselect, hfires, hcommit, hlate⟩ :
      ∃ s₀ s s₁ s', Lts.run (apply Env.default) State.init
          (pausedReminder.map .inner) = some s₀
        ∧ apply Env.default (.inner (.select 5)) s₀ = some s
        ∧ s.fires = (fun _ => .idle)
        ∧ apply Env.default commitReplay s = some s₁
        ∧ Lts.run (apply Env.default) s₁ lateDelivery = some s' :=
    ⟨_, _, _, _, rfl, rfl, rfl, rfl, rfl⟩
  have hs : Lts.run (apply Env.default) State.init aboutToCommit
      = some s := by
    unfold aboutToCommit
    rw [Lts.run_append h₀]
    exact Lts.run_one hselect
  obtain ⟨hreplayed, hk⟩ := aboutToCommit_replays hs
  have hcalm : Calm State.init := ⟨fun _ => rfl, fun _ => rfl⟩
  obtain ⟨hcalm₀, hr₀⟩ := Calm.run (by decide) hcalm .init h₀
  have hg : Undisturbed Env.default commitReplay s := by
    refine ⟨fun tid r _ hrouses => ?_, fun r _ tid row hp => ?_⟩
    · rcases hrouses with ⟨k, he, -⟩ | ⟨b, he, hfor⟩
      · cases he
      · cases he
        cases hfor
    · rw [hfires] at hp
      cases hp
  have hsilent : Lts.Reachable (apply Env.default)
      (fun a _ => a ≠ .inner (.resume 80)) s₁ s' :=
    Lts.reachable_of_run_all (by simp [lateDelivery]) .init hlate
  exact ⟨s, s₁, s', hs, hcommit, hlate, replayed_run_silent
    (.step _ hr₀ (hcalm₀.undisturbed _) hselect) hg hcommit hreplayed hk
    hsilent⟩

/-- An action that schedules no new job. -/
def schedulesNothing : Action → Bool
  | .inner b => (scheduledFor b).isNone
  | _ => true

/-- The paused reminder is resumed after the replay, and fires. -/
theorem replayed_run_fires :
    ¬ ∀ a s s₁ s' k r,
      Lts.Reachable (apply Env.default) Lts.Always State.init s →
      apply Env.default a s = some s₁ → Replayed Env.default a s r →
      Replays.OfRun s.schedules k r →
      Lts.Reachable (apply Env.default)
        (fun a _ => schedulesNothing a = true) s₁ s' →
      starts s' k = starts s k := by
  intro h
  obtain ⟨s, s₁, s', hs, hcommit, hlate, hne⟩ : ∃ s s₁ s',
      Lts.run (apply Env.default) State.init aboutToCommit = some s
      ∧ apply Env.default commitReplay s = some s₁
      ∧ Lts.run (apply Env.default) s₁ (.inner (.resume 80) ::
          (lateDelivery ++ [.handle 6])) = some s'
      ∧ starts s' 80 ≠ starts s 80 :=
    ⟨_, _, _, rfl, rfl, rfl, by decide +kernel⟩
  obtain ⟨hreplayed, hk⟩ := aboutToCommit_replays hs
  exact hne (h _ s s₁ s' 80 11 (Lts.reachable_of_run .init hs) hcommit
    hreplayed hk (Lts.reachable_of_run_all (by simp [lateDelivery,
      schedulesNothing, scheduledFor]) .init hlate))

end LegalBot.Firing
