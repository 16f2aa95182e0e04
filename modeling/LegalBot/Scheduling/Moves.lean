/-
What the steps of `Scheduling/Firing.lean` do, said once.

`Moved` has one constructor for each way a step goes. From it come the
three views that the proofs about schedules use: the `UPDATE`s of
`status` that a step commits (`State.writes`) with the row before and
after them (`apply_row`, `apply_row_kept`), what it logs
(`State.events`), and where it leaves the workers.
-/
import LegalBot.Scheduling.Firing

namespace LegalBot.Firing

open Relational (HasKey Table)

-- ============================================================ what it writes

/-- The status a fire's commit writes. -/
def firedWrites (row : ScheduledJob) : List (Uuid × ScheduledJobStatus) :=
  if row.scheduleKind = .oneShot then [(row.id, .expired)] else []

/-- The `UPDATE`s of `status` that a step of the inner system commits. -/
def innerWrites (env : Env) (s : Replays.State) :
    Replays.Action → List (Uuid × ScheduledJobStatus)
  | .pause id => [(id, .paused)]
  | .resume id => [(id, .active)]
  | .cancel id => [(id, .cancelled)]
  | .expire id => [(id, .expired)]
  | .base b =>
      match s.commits env b with
      | some (_, ids) => ids.map fun k => (k, .cancelled)
      | none => []
  | _ => []

/-- The `UPDATE`s of `status` that a step commits, in order. -/
def State.writes (env : Env) (s : State) (a : Action) :
    List (Uuid × ScheduledJobStatus) :=
  match a with
  | .inner b =>
      innerWrites env s.inner b
      ++ (match s.calls env b with
        | some (_, row, tx, true) =>
            if ofTask tx then firedWrites row else []
        | _ => [])
  | .finish tid =>
      match (s.fires tid).point with
      | .calling row _ => firedWrites row
      | _ => []
  | _ => []

/-- The run of the row that an action schedules. -/
def scheduledFor : Replays.Action → Option (Option Uuid)
  | .scheduleOneShot _ _ _ _ _ _ _ runId _ => some runId
  | .scheduleRecurring _ _ _ _ _ _ _ runId => some runId
  | _ => none

/-- The events that a step logs. -/
def State.events (env : Env) (s : State) (a : Action) : List Event :=
  match a with
  | .inner b =>
      match s.calls env b with
      | some (_, row, _, true) => [.effect row.id]
      | _ => []
  | .handle tid =>
      match (s.fires tid).point with
      | .checked row => [.started row.id]
      | _ => []
  | .publishPoll tid false =>
      match (s.fires tid).point with
      | .polling row _ => [.effect row.id]
      | _ => []
  | _ => []

/-- `UPDATE`s of `status` by id, one after the other. -/
def applyWrites (t : Table ScheduledJob)
    (ws : List (Uuid × ScheduledJobStatus)) : Table ScheduledJob :=
  ws.foldl (fun t w => setScheduledStatus t w.1 w.2) t

section Writes

variable {t : Table ScheduledJob} {k : Uuid} {row : ScheduledJob}

theorem applyWrites_append (ws ws' : List (Uuid × ScheduledJobStatus)) :
    applyWrites t (ws ++ ws') = applyWrites (applyWrites t ws) ws' :=
  List.foldl_append

theorem cascadeCancel_writes (ids : List Uuid) :
    ∀ t : Table ScheduledJob, cascadeCancel t ids
      = applyWrites t (ids.map fun k => (k, .cancelled)) := by
  unfold cascadeCancel applyWrites
  intro t
  rw [List.foldl_map]
  rfl

theorem expireFired_writes (t : Table ScheduledJob) (row : ScheduledJob) :
    expireFired t row = applyWrites t (firedWrites row) := by
  unfold expireFired firedWrites
  split
  · rfl
  · rfl

/-- A row has the status of one of the writes to it, or keeps its own. -/
theorem applyWrites_get (ws : List (Uuid × ScheduledJobStatus)) :
    ∀ {t : Table ScheduledJob} {row : ScheduledJob}, t.get k = some row →
      ∃ st, (applyWrites t ws).get k = some { row with status := st }
        ∧ ((st = row.status ∧ ∀ st', (k, st') ∉ ws) ∨ (k, st) ∈ ws) := by
  induction ws with
  | nil =>
      exact fun {_ row} h =>
        ⟨row.status, h, Or.inl ⟨rfl, fun _ h => by cases h⟩⟩
  | cons w rest ih =>
      intro t row h
      obtain ⟨id, st₀⟩ := w
      have hkey : row.id = k := Table.key_of_get h
      by_cases hid : id = k
      · subst hid
        have h₁ : (setScheduledStatus t id st₀).get id
            = some { row with status := st₀ } := by
          unfold setScheduledStatus
          rw [Table.get_updateWhere, h]
          simp [hkey]
        obtain ⟨st, hst, hor⟩ := ih h₁
        refine ⟨st, hst, Or.inr ?_⟩
        rcases hor with ⟨rfl, -⟩ | hmem
        · exact List.mem_cons_self
        · exact List.mem_cons_of_mem _ hmem
      · have h₁ : (setScheduledStatus t id st₀).get k = some row := by
          unfold setScheduledStatus
          rw [Table.get_updateWhere, h]
          have hne : row.id ≠ id := fun e => hid (e.symm.trans hkey)
          simp [hne]
        obtain ⟨st, hst, hor⟩ := ih h₁
        refine ⟨st, hst, ?_⟩
        rcases hor with ⟨rfl, hnone⟩ | hmem
        · refine Or.inl ⟨rfl, fun st' hmem => ?_⟩
          rcases List.mem_cons.mp hmem with he | hrest
          · cases he
            exact hid rfl
          · exact hnone st' hrest
        · exact Or.inr (List.mem_cons_of_mem _ hmem)

theorem applyWrites_none (ws : List (Uuid × ScheduledJobStatus)) :
    ∀ {t : Table ScheduledJob}, t.get k = none →
      (applyWrites t ws).get k = none := by
  induction ws with
  | nil => exact fun h => h
  | cons w rest ih =>
      intro t h
      refine ih ?_
      exact Table.get_updateWhere_none h

end Writes

-- =============================================================== inversion

section Inversion

variable {env : Env} {a : Action} {s s' : State}

/-- An action outside the database and the workers. -/
def Action.outside : Action → Bool
  | .register _ | .unregister _ | .beat _ => true
  | _ => false

/-- Where the call of a handler starts. -/
def isCall : Handler → Bool
  | .reminder .. | .replay .. => true
  | _ => false

/-- What each action does, and when. -/
inductive Moved (env : Env) (s : State) : Action → State → Prop
  | inner {b : Replays.Action} {inner : Replays.State} :
      s.admits b = true → Replays.apply env b s.inner = some inner →
      s.calls env b = none → Moved env s (.inner b) { s with inner := inner }
  | called {b : Replays.Action} {inner : Replays.State} {tid : Nat}
      {row : ScheduledJob} {tx : Tx} {ok : Bool} :
      Replays.apply env b s.inner = some inner →
      s.calls env b = some (tid, row, tx, ok) →
      Moved env s (.inner b) ({ s with inner := inner }.called tid row tx ok)
  | outside {a : Action} (entries : Finset Uuid) (sent : List Uuid) :
      a.outside = true →
      Moved env s a { s with entries := entries, sent := sent }
  | delivered {tid mid : Nat} {id : Uuid} :
      (s.fires tid).point = .idle →
      (s.inner.base.tasks tid).pc.isIdle = true →
      Moved env s (.deliver tid mid)
        { s with
          fires := Function.update s.fires tid ⟨.received id, some mid⟩ }
  | skipped {tid : Nat} {id : Uuid} :
      (s.fires tid).point = .received id →
      Moved env s (.check tid) (s.ends tid)
  | checked {tid : Nat} {row : ScheduledJob} :
      (s.fires tid).point = .received row.id →
      s.schedules.get row.id = some row → row.status = .active →
      Moved env s (.check tid) (s.goto tid (.checked row))
  | rejected {tid : Nat} {row : ScheduledJob} :
      (s.fires tid).point = .checked row →
      Moved env s (.handle tid)
        ({ s with log := .started row.id :: s.log }.ends tid)
  | polling {tid : Nat} {row : ScheduledJob} (mailboxId : Uuid) :
      (s.fires tid).point = .checked row →
      Moved env s (.handle tid)
        ({ s with log := .started row.id :: s.log }.goto tid
          (.polling row mailboxId))
  | calling {tid : Nat} {row : ScheduledJob} {inner : Replays.State} :
      (s.fires tid).point = .checked row →
      (inner = s.inner ∨ ∃ entry, isCall entry = true ∧ Replays.apply env
        (.base (.start tid entry)) s.inner = some inner) →
      Moved env s (.handle tid)
        ({ s with
          log := .started row.id :: s.log
          inner := inner }.goto tid (.calling row false))
  | published {tid : Nat} {row : ScheduledJob} {mailboxId : Uuid} :
      (s.fires tid).point = .polling row mailboxId →
      Moved env s (.publishPoll tid false)
        ({ s with
          polls := mailboxId :: s.polls
          log := .effect row.id :: s.log }.goto tid (.calling row true))
  | unpublished {tid : Nat} {row : ScheduledJob} {mailboxId : Uuid} :
      (s.fires tid).point = .polling row mailboxId →
      Moved env s (.publishPoll tid true)
        (s.goto tid (.calling row false))
  | finished {tid : Nat} {row : ScheduledJob} {done : Bool} :
      (s.fires tid).point = .calling row done →
      Moved env s (.finish tid) (s.fired tid row)
  | failed {tid : Nat} {inner : Replays.State} :
      Replays.apply env (.base (.crash tid)) s.inner = some inner →
      Moved env s (.fail tid) ({ s with inner := inner }.ends tid)
  | crashed {tid : Nat} {inner : Replays.State} :
      Replays.apply env (.base (.crash tid)) s.inner = some inner →
      Moved env s (.crash tid)
        { s with
          inner := inner
          fires := Function.update s.fires tid .idle }

theorem handle_moved {tid : Nat}
    (h : apply env (.handle tid) s = some s') :
    Moved env s (.handle tid) s' := by
  unfold apply at h
  simp only at h
  split at h
  · rename_i row hpoint
    split at h
    · injection h with h
      exact h ▸ .calling hpoint (Or.inl rfl)
    · injection h with h
      exact h ▸ .rejected hpoint
    · injection h with h
      exact h ▸ .polling _ hpoint
    · obtain ⟨inner, hinner, rfl⟩ := Option.map_eq_some_iff.mp h
      exact .calling hpoint (Or.inr ⟨_, rfl, hinner⟩)
    · obtain ⟨inner, hinner, rfl⟩ := Option.map_eq_some_iff.mp h
      exact .calling hpoint (Or.inr ⟨_, rfl, hinner⟩)
  · cases h

theorem check_moved {tid : Nat} (h : apply env (.check tid) s = some s') :
    Moved env s (.check tid) s' := by
  unfold apply at h
  simp only at h
  split at h
  · rename_i id hpoint
    split at h
    · rename_i row hrow
      have hid : row.id = id := Table.key_of_get hrow
      subst hid
      split at h
      · rename_i hactive
        injection h with h
        exact h ▸ .checked hpoint hrow hactive.1
      · injection h with h
        exact h ▸ .skipped hpoint
    · injection h with h
      exact h ▸ .skipped hpoint
  · cases h

/-- Every step is one of these. -/
theorem apply_moved (h : apply env a s = some s') : Moved env s a s' := by
  cases a with
  | handle tid => exact handle_moved h
  | check tid => exact check_moved h
  | inner b =>
      unfold apply at h
      simp only at h
      split at h
      · rename_i hadmits
        obtain ⟨inner, hinner, hs'⟩ := Option.map_eq_some_iff.mp h
        cases hc : s.calls env b with
        | none =>
            rw [hc] at hs'
            exact hs' ▸ .inner hadmits hinner hc
        | some call =>
            obtain ⟨tid, row, tx, ok⟩ := call
            rw [hc] at hs'
            exact hs' ▸ .called hinner hc
      · cases h
  | register id | unregister id =>
      injection h with h
      exact h ▸ .outside _ _ rfl
  | beat id =>
      unfold apply at h
      simp only at h
      split at h
      · injection h with h
        exact h ▸ .outside _ _ rfl
      · cases h
  | deliver tid mid =>
      unfold apply at h
      simp only at h
      split at h
      · rename_i hg
        obtain ⟨id, -, rfl⟩ := Option.map_eq_some_iff.mp h
        exact .delivered hg.1 hg.2.1
      · cases h
  | publishPoll tid raised =>
      unfold apply at h
      simp only at h
      split at h
      · rename_i row mailboxId hpoint
        cases raised with
        | true =>
            injection h with h
            exact h ▸ .unpublished hpoint
        | false =>
            injection h with h
            exact h ▸ .published hpoint
      · cases h
  | finish tid =>
      unfold apply at h
      simp only at h
      split at h
      · rename_i row done hpoint
        split at h
        · injection h with h
          exact h ▸ .finished hpoint
        · cases h
      · cases h
  | fail tid =>
      unfold apply at h
      simp only at h
      split at h
      · cases h
      · obtain ⟨inner, hinner, rfl⟩ := Option.map_eq_some_iff.mp h
        exact .failed hinner
  | crash tid =>
      unfold apply at h
      simp only at h
      split at h
      · cases h
      · obtain ⟨inner, hinner, rfl⟩ := Option.map_eq_some_iff.mp h
        exact .crashed hinner

/-- A handler's transaction is run by the worker that fires the row. -/
theorem calls_some {b : Replays.Action} {tid : Nat} {row : ScheduledJob}
    {tx : Tx} {ok : Bool} (h : s.calls env b = some (tid, row, tx, ok)) :
    ∃ reply done, b = .base (.advance tid reply)
      ∧ (s.fires tid).point = .calling row done
      ∧ committing env (.advance tid reply) s.inner.base = some tx
      ∧ ok = (tx.commit env.cfg s.inner.base.now
        s.inner.base.db).isOk := by
  unfold State.calls at h
  split at h
  · rename_i t reply
    split at h
    · rename_i row' done tx' hpoint htx
      cases h
      exact ⟨reply, done, rfl, hpoint, htx, rfl⟩
    · cases h
  · cases h

/-- The events of a step. -/
theorem apply_log (h : apply env a s = some s') :
    s'.log = s.events env a ++ s.log := by
  cases apply_moved h with
  | inner _ _ hc => simp [State.events, hc]
  | @called b inner tid row tx ok _ hc =>
      unfold State.called
      cases ok with
      | true =>
          by_cases ht : ofTask tx = true
          · simp [State.events, hc, ht, State.fired, State.ends]
          · simp [State.events, hc, ht, State.goto]
      | false => simp [State.events, hc, State.ends]
  | outside _ _ hout =>
      cases a with
      | register id | unregister id | beat id => rfl
      | _ => cases hout
  | rejected hp => simp [State.events, hp, State.ends]
  | polling _ hp => simp [State.events, hp, State.goto]
  | calling hp _ => simp [State.events, hp, State.goto]
  | published hp => simp [State.events, hp, State.goto]
  | _ => rfl

theorem insertScheduled_ok {db : Db} {t t' : Table ScheduledJob}
    {row : ScheduledJob} (h : insertScheduled db t row = .ok t') :
    t.insert row = some t' := by
  unfold insertScheduled at h
  split at h
  · split at h
    · rename_i hins
      injection h with h
      exact h ▸ hins
    · cases h
  · cases h

/-- The row that an operation of the inner system schedules is active. -/
theorem scheduled_row {b : Replays.Action} {t t' : Replays.State}
    {runId : Option Uuid} (h : Replays.apply env b t = some t')
    (hb : scheduledFor b = some runId) :
    ∃ row : ScheduledJob, t.schedules.insert row = some t'.schedules
      ∧ row.status = .active ∧ row.runId = runId := by
  cases b with
  | scheduleOneShot id kind payload runAt owner sid jid rid parent =>
      obtain ⟨schedules, hins, rfl⟩ := Option.map_eq_some_iff.mp h
      have hins := toOption_some.mp hins
      unfold scheduleOneShot at hins
      cases hb
      split at hins
      · cases hins
      · exact ⟨_, insertScheduled_ok hins, rfl, rfl⟩
  | scheduleRecurring id kind payload spec owner sid jid rid =>
      obtain ⟨schedules, hins, rfl⟩ := Option.map_eq_some_iff.mp h
      have hins := toOption_some.mp hins
      unfold scheduleRecurring at hins
      cases hb
      split at hins
      · cases hins
      · split at hins
        · cases hins
        · exact ⟨_, insertScheduled_ok hins, rfl, rfl⟩
  | _ => cases hb

/-- The schedules after a step of the inner system. -/
theorem inner_schedules {b : Replays.Action} {t t' : Replays.State}
    (h : Replays.apply env b t = some t') (hb : scheduledFor b = none) :
    t'.schedules = applyWrites t.schedules (innerWrites env t b) := by
  cases b with
  | base b =>
      obtain ⟨-, -, -, -, ⟨hc, hs, -⟩ | ⟨sid, ids, hc, hs, -⟩⟩ :=
        Replays.apply_base h
      · rw [hs]
        simp only [innerWrites, hc]
        rfl
      · rw [hs, cascadeCancel_writes]
        simp only [innerWrites, hc]
  | select tid =>
      unfold Replays.apply at h
      simp only at h
      split at h
      · injection h with h
        subst h
        rfl
      · cases h
  | addStep id runId stepName cp ns summary =>
      obtain ⟨steps, -, rfl⟩ := Option.map_eq_some_iff.mp h
      rfl
  | scheduleOneShot | scheduleRecurring => cases hb
  | resume id =>
      obtain ⟨schedules, hres, rfl⟩ := Option.map_eq_some_iff.mp h
      exact resumeScheduled_ok (toOption_some.mp hres)
  | pause id | cancel id | expire id =>
      injection h with h
      subst h
      rfl

/-- A worker's own actor is in no transaction of the inner system's
operations. -/
theorem calls_scheduled {b : Replays.Action} {runId : Option Uuid}
    (hb : scheduledFor b = some runId) : s.calls env b = none := by
  cases b with
  | scheduleOneShot | scheduleRecurring => rfl
  | _ => cases hb

theorem fired_schedules (tid : Nat) (row : ScheduledJob) :
    (s.fired tid row).schedules
      = applyWrites s.schedules (firedWrites row) :=
  expireFired_writes s.schedules row

/-- Starting or stopping an actor writes no schedule. -/
theorem started_schedules {tid : Nat} {entry : Handler}
    {t t' : Replays.State}
    (h : Replays.apply env (.base (.start tid entry)) t = some t') :
    t'.schedules = t.schedules := by
  rw [inner_schedules h rfl]
  rfl

theorem stopped_schedules {tid : Nat} {t t' : Replays.State}
    (h : Replays.apply env (.base (.crash tid)) t = some t') :
    t'.schedules = t.schedules := by
  rw [inner_schedules h rfl]
  rfl

/-- The schedules after a step: its writes, or a new row. -/
theorem apply_schedules (h : apply env a s = some s') :
    s'.schedules = applyWrites s.schedules (s.writes env a)
      ∨ ∃ b row, a = .inner b ∧ scheduledFor b = some row.runId
        ∧ s.schedules.insert row = some s'.schedules
        ∧ row.status = .active := by
  cases apply_moved h with
  | @inner b inner _ hinner hc =>
      cases hb : scheduledFor b with
      | some runId =>
          obtain ⟨row, hins, hactive, rfl⟩ := scheduled_row hinner hb
          exact Or.inr ⟨b, row, rfl, hb, hins, hactive⟩
      | none =>
          refine Or.inl ?_
          simp only [State.writes, hc, List.append_nil]
          exact inner_schedules hinner hb
  | @called b inner tid row tx ok hinner hc =>
      have hb : scheduledFor b = none := by
        cases hb : scheduledFor b with
        | none => rfl
        | some runId =>
            rw [calls_scheduled hb] at hc
            cases hc
      have hsched := inner_schedules hinner hb
      refine Or.inl ?_
      unfold State.called
      simp only [State.writes, hc]
      cases ok with
      | true =>
          by_cases ht : ofTask tx = true
          · simp only [ht, if_true]
            rw [fired_schedules, applyWrites_append, ← hsched]
          · simp only [ht, Bool.false_eq_true, if_false, List.append_nil]
            exact hsched
      | false =>
          rw [List.append_nil]
          exact hsched
  | outside _ _ hout =>
      cases a with
      | register id | unregister id | beat id => exact Or.inl rfl
      | _ => cases hout
  | calling hp hor =>
      rcases hor with rfl | ⟨entry, -, hentry⟩
      · exact Or.inl rfl
      · exact Or.inl (started_schedules hentry)
  | finished hp =>
      simp only [State.writes, hp]
      exact Or.inl (fired_schedules _ _)
  | failed hinner => exact Or.inl (stopped_schedules hinner)
  | crashed hinner => exact Or.inl (stopped_schedules hinner)
  | _ => exact Or.inl rfl

/-- Where a row comes from: it was there, with the status of one of the
writes or its own, or it is new. -/
theorem apply_row (h : apply env a s = some s') {k : Uuid}
    {row' : ScheduledJob} (hk : s'.schedules.get k = some row') :
    (∃ row, s.schedules.get k = some row ∧ SameSchedule row row'
        ∧ ((row'.status = row.status ∧ ∀ st, (k, st) ∉ s.writes env a)
          ∨ (k, row'.status) ∈ s.writes env a))
      ∨ (s.schedules.get k = none ∧ row'.status = .active
        ∧ ∃ b, a = .inner b ∧ scheduledFor b = some row'.runId) := by
  have hwritten : s'.schedules = applyWrites s.schedules (s.writes env a) →
      ∃ row, s.schedules.get k = some row ∧ SameSchedule row row'
        ∧ ((row'.status = row.status ∧ ∀ st, (k, st) ∉ s.writes env a)
          ∨ (k, row'.status) ∈ s.writes env a) := by
    intro heq
    rw [heq] at hk
    cases hrow : s.schedules.get k with
    | none =>
        rw [applyWrites_none _ hrow] at hk
        cases hk
    | some row =>
        obtain ⟨st, hst, hor⟩ := applyWrites_get (s.writes env a) hrow
        rw [hst] at hk
        cases hk
        exact ⟨row, rfl, rfl, hor⟩
  rcases apply_schedules h with heq | ⟨b, row, hb, hfor, hins, hactive⟩
  · exact Or.inl (hwritten heq)
  · rw [Table.get_insert hins] at hk
    split at hk
    · rename_i hkey
      cases hk
      subst hkey
      exact Or.inr ⟨Table.insert_fresh hins, hactive, b, hb, hfor⟩
    · have hnone : ∀ st, (k, st) ∉ s.writes env a := by
        subst hb
        have hc : s.calls env b = none := calls_scheduled hfor
        intro st hmem
        cases b with
        | scheduleOneShot | scheduleRecurring =>
            simp [State.writes, hc, innerWrites] at hmem
        | _ => cases hfor
      exact Or.inl ⟨row', hk, rfl, Or.inl ⟨rfl, hnone⟩⟩

/-- A row that was there is there, with the status of one of the writes
or its own. -/
theorem apply_row_kept (h : apply env a s = some s') {k : Uuid}
    {row : ScheduledJob} (hk : s.schedules.get k = some row) :
    ∃ row', s'.schedules.get k = some row' ∧ SameSchedule row row'
      ∧ ((row'.status = row.status ∧ ∀ st, (k, st) ∉ s.writes env a)
        ∨ (k, row'.status) ∈ s.writes env a) := by
  have hthere : ∃ row', s'.schedules.get k = some row' := by
    rcases apply_schedules h with heq | ⟨b, row₀, -, -, hins, -⟩
    · obtain ⟨st, hst, -⟩ := applyWrites_get (s.writes env a) hk
      exact ⟨_, by rw [heq, hst]⟩
    · exact ⟨row, Table.get_insert_of_some hins hk⟩
  obtain ⟨row', hk'⟩ := hthere
  rcases apply_row h hk' with ⟨row₀, hk₀, hkept⟩ | ⟨hnone, -⟩
  · rw [hk] at hk₀
    cases hk₀
    exact ⟨row', hk', hkept⟩
  · rw [hk] at hnone
    cases hnone

/-- What is written: `paused` and `active` by the operations of these
names, and the two that end a schedule. -/
theorem written {k : Uuid} {st : ScheduledJobStatus}
    (h : (k, st) ∈ s.writes env a) :
    (st = .paused ∧ a = .inner (.pause k))
      ∨ (st = .active ∧ a = .inner (.resume k))
      ∨ st = .cancelled ∨ st = .expired := by
  have hfired : ∀ row, (k, st) ∈ firedWrites row → st = .expired := by
    intro row hmem
    unfold firedWrites at hmem
    split at hmem
    · cases List.mem_singleton.mp hmem
      rfl
    · cases hmem
  unfold State.writes at h
  split at h
  · rename_i b
    rcases List.mem_append.mp h with hin | hcall
    · unfold innerWrites at hin
      split at hin
      · cases List.mem_singleton.mp hin
        exact Or.inl ⟨rfl, rfl⟩
      · cases List.mem_singleton.mp hin
        exact Or.inr (Or.inl ⟨rfl, rfl⟩)
      · cases List.mem_singleton.mp hin
        exact Or.inr (Or.inr (Or.inl rfl))
      · cases List.mem_singleton.mp hin
        exact Or.inr (Or.inr (Or.inr rfl))
      · split at hin
        · obtain ⟨k₀, -, he⟩ := List.mem_map.mp hin
          cases he
          exact Or.inr (Or.inr (Or.inl rfl))
        · cases hin
      · cases hin
    · split at hcall
      · split at hcall
        · exact Or.inr (Or.inr (Or.inr (hfired _ hcall)))
        · cases hcall
      · cases hcall
  · split at h
    · exact Or.inr (Or.inr (Or.inr (hfired _ h)))
    · cases h
  · cases h

@[simp] theorem goto_inner (tid : Nat) (point : Point) :
    (s.goto tid point).inner = s.inner := rfl

@[simp] theorem ends_inner (tid : Nat) :
    (s.ends tid).inner = s.inner := rfl

theorem called_inner (tid : Nat) (row : ScheduledJob) (tx : Tx)
    (ok : Bool) :
    (s.called tid row tx ok).inner.base = s.inner.base
      ∧ (s.called tid row tx ok).inner.selected = s.inner.selected := by
  unfold State.called
  cases ok with
  | true =>
      by_cases ht : ofTask tx = true
      · simp only [ht, if_true]
        exact ⟨rfl, rfl⟩
      · simp only [ht, if_true]
        exact ⟨rfl, rfl⟩
  | false => exact ⟨rfl, rfl⟩

@[simp] theorem goto_fires_self (tid : Nat) (point : Point) :
    ((s.goto tid point).fires tid).point = point := by
  simp [State.goto]

@[simp] theorem goto_fires_other {tid t : Nat} (point : Point)
    (h : t ≠ tid) : (s.goto tid point).fires t = s.fires t := by
  simp [State.goto, h]

@[simp] theorem ends_fires_self (tid : Nat) :
    (s.ends tid).fires tid = .idle := by
  simp [State.ends]

@[simp] theorem ends_fires_other {tid t : Nat} (h : t ≠ tid) :
    (s.ends tid).fires t = s.fires t := by
  simp [State.ends, h]

@[simp] theorem fired_fires_self (tid : Nat) (row : ScheduledJob) :
    (s.fired tid row).fires tid = .idle := by
  simp [State.fired]

@[simp] theorem fired_fires_other {tid t : Nat} (row : ScheduledJob)
    (h : t ≠ tid) : (s.fired tid row).fires t = s.fires t := by
  simp [State.fired, h]

theorem called_fires_self (tid : Nat) (row : ScheduledJob) (tx : Tx)
    (ok : Bool) :
    ((s.called tid row tx ok).fires tid = .idle
        ∧ (ok = true → ofTask tx = true))
      ∨ (ok = true
        ∧ ((s.called tid row tx ok).fires tid).point
          = .calling row true) := by
  unfold State.called
  cases ok with
  | true =>
      by_cases ht : ofTask tx = true
      · simp [ht]
      · simp [ht]
  | false => simp

theorem called_fires_other {tid t : Nat} (row : ScheduledJob) (tx : Tx)
    (ok : Bool) (h : t ≠ tid) :
    (s.called tid row tx ok).fires t = s.fires t := by
  unfold State.called
  cases ok with
  | true =>
      by_cases ht : ofTask tx = true
      · simp [ht, h]
      · simp [ht, h]
  | false => simp [h]

/-- How a step moves a worker on. -/
inductive PointMove (env : Env) (a : Action) (s : State) (tid : Nat) :
    Point → Prop
  | received (id : Uuid) : (s.fires tid).point = .idle →
      PointMove env a s tid (.received id)
  | skipped {id : Uuid} : a = .check tid →
      (s.fires tid).point = .received id → PointMove env a s tid .idle
  | checked {row : ScheduledJob} : a = .check tid →
      (s.fires tid).point = .received row.id →
      s.schedules.get row.id = some row → row.status = .active →
      PointMove env a s tid (.checked row)
  | rejected {row : ScheduledJob} : a = .handle tid →
      (s.fires tid).point = .checked row → PointMove env a s tid .idle
  | polling {row : ScheduledJob} (mailboxId : Uuid) : a = .handle tid →
      (s.fires tid).point = .checked row →
      PointMove env a s tid (.polling row mailboxId)
  | calling {row : ScheduledJob} : a = .handle tid →
      (s.fires tid).point = .checked row →
      PointMove env a s tid (.calling row false)
  | published {row : ScheduledJob} {mailboxId : Uuid} :
      a = .publishPoll tid false →
      (s.fires tid).point = .polling row mailboxId →
      PointMove env a s tid (.calling row true)
  | unpublished {row : ScheduledJob} {mailboxId : Uuid} :
      a = .publishPoll tid true →
      (s.fires tid).point = .polling row mailboxId →
      PointMove env a s tid (.calling row false)
  | committed {b : Replays.Action} {row : ScheduledJob} {tx : Tx} :
      a = .inner b → s.calls env b = some (tid, row, tx, true) →
      PointMove env a s tid (.calling row true)
  | ended {b : Replays.Action} {row : ScheduledJob} {tx : Tx} {ok : Bool} :
      a = .inner b → s.calls env b = some (tid, row, tx, ok) →
      (ok = true → ofTask tx = true) → PointMove env a s tid .idle
  | finished {row : ScheduledJob} {done : Bool} : a = .finish tid →
      (s.fires tid).point = .calling row done → PointMove env a s tid .idle
  | stopped : a = .fail tid ∨ a = .crash tid → PointMove env a s tid .idle

/-- Every worker stays or moves so. -/
theorem apply_point (h : apply env a s = some s') (t : Nat) :
    s'.fires t = s.fires t ∨ PointMove env a s t (s'.fires t).point := by
  cases apply_moved h with
  | inner | outside => exact Or.inl rfl
  | @called b inner tid row tx ok hinner hc =>
      by_cases ht : t = tid
      · subst ht
        rcases called_fires_self t row tx ok with
          ⟨heq, hok⟩ | ⟨hok, heq⟩
        · rw [heq]
          exact Or.inr (.ended rfl hc hok)
        · subst hok
          rw [heq]
          exact Or.inr (.committed rfl hc)
      · exact Or.inl (called_fires_other row tx ok ht)
  | @delivered tid mid id hpoint =>
      by_cases ht : t = tid
      · subst ht
        simp only [Function.update_self]
        exact Or.inr (.received id hpoint)
      · exact Or.inl (Function.update_of_ne ht _ _)
  | @skipped tid id hpoint =>
      by_cases ht : t = tid
      · subst ht
        rw [ends_fires_self]
        exact Or.inr (.skipped rfl hpoint)
      · exact Or.inl (ends_fires_other ht)
  | @checked tid row hpoint hget hactive =>
      by_cases ht : t = tid
      · subst ht
        rw [goto_fires_self]
        exact Or.inr (.checked rfl hpoint hget hactive)
      · exact Or.inl (goto_fires_other _ ht)
  | @rejected tid row hpoint =>
      by_cases ht : t = tid
      · subst ht
        rw [ends_fires_self]
        exact Or.inr (.rejected rfl hpoint)
      · exact Or.inl (ends_fires_other ht)
  | @polling tid row m hpoint =>
      by_cases ht : t = tid
      · subst ht
        rw [goto_fires_self]
        exact Or.inr (.polling m rfl hpoint)
      · exact Or.inl (goto_fires_other _ ht)
  | @calling tid row inner hpoint =>
      by_cases ht : t = tid
      · subst ht
        rw [goto_fires_self]
        exact Or.inr (.calling rfl hpoint)
      · exact Or.inl (goto_fires_other _ ht)
  | @published tid row m hpoint =>
      by_cases ht : t = tid
      · subst ht
        rw [goto_fires_self]
        exact Or.inr (.published rfl hpoint)
      · exact Or.inl (goto_fires_other _ ht)
  | @unpublished tid row m hpoint =>
      by_cases ht : t = tid
      · subst ht
        rw [goto_fires_self]
        exact Or.inr (.unpublished rfl hpoint)
      · exact Or.inl (goto_fires_other _ ht)
  | @finished tid row done hpoint =>
      by_cases ht : t = tid
      · subst ht
        rw [fired_fires_self]
        exact Or.inr (.finished rfl hpoint)
      · exact Or.inl (fired_fires_other row ht)
  | @failed tid inner hinner =>
      by_cases ht : t = tid
      · subst ht
        rw [ends_fires_self]
        exact Or.inr (.stopped (Or.inl rfl))
      · exact Or.inl (ends_fires_other ht)
  | @crashed tid inner hinner =>
      by_cases ht : t = tid
      · subst ht
        simp only [Function.update_self]
        exact Or.inr (.stopped (Or.inr rfl))
      · exact Or.inl (Function.update_of_ne ht _ _)

/-- The check changes no row. -/
theorem check_schedules {tid : Nat} (h : apply env (.check tid) s = some s') :
    s'.schedules = s.schedules := by
  cases apply_moved h with
  | outside _ _ hout => cases hout
  | skipped | checked => rfl

/-- How a worker gets past the check: by the check, of a row that is
active. -/
theorem checked_origin (h : apply env a s = some s') {tid : Nat}
    {row : ScheduledJob} (hp : (s'.fires tid).point = .checked row) :
    (s.fires tid).point = .checked row
      ∨ (a = .check tid ∧ s.schedules.get row.id = some row
        ∧ row.status = .active) := by
  rcases apply_point h tid with heq | hmove
  · exact Or.inl (heq ▸ hp)
  · rw [hp] at hmove
    cases hmove with
    | checked ha _ hget hactive => exact Or.inr ⟨ha, hget, hactive⟩

/-- How a worker comes to fire a row: by the check as well. -/
theorem row_origin (h : apply env a s = some s') {tid : Nat}
    {row : ScheduledJob} (hp : (s'.fires tid).point.row = some row) :
    (s.fires tid).point.row = some row
      ∨ (a = .check tid ∧ (s.fires tid).point = .received row.id
        ∧ s.schedules.get row.id = some row ∧ row.status = .active) := by
  rcases apply_point h tid with heq | hmove
  · exact Or.inl (heq ▸ hp)
  · cases hpoint : (s'.fires tid).point with
    | idle | received =>
        rw [hpoint] at hp
        cases hp
    | checked row' =>
        rw [hpoint] at hp hmove
        cases hp
        cases hmove with
        | checked ha hrec hget hactive =>
            exact Or.inr ⟨ha, hrec, hget, hactive⟩
    | polling row' m =>
        rw [hpoint] at hp hmove
        cases hp
        cases hmove with
        | polling _ _ hp₀ => exact Or.inl (by rw [hp₀]; rfl)
    | calling row' done =>
        rw [hpoint] at hp hmove
        cases hp
        cases hmove with
        | calling _ hp₀ => exact Or.inl (by rw [hp₀]; rfl)
        | published _ hp₀ => exact Or.inl (by rw [hp₀]; rfl)
        | unpublished _ hp₀ => exact Or.inl (by rw [hp₀]; rfl)
        | committed _ hc =>
            obtain ⟨_, _, -, hp₀, -⟩ := calls_some hc
            exact Or.inl (by rw [hp₀]; rfl)

/-- Only a worker past the check starts a handler. -/
theorem started_logged {k : Uuid} (h : .started k ∈ s.events env a) :
    ∃ tid row, a = .handle tid ∧ (s.fires tid).point = .checked row
      ∧ row.id = k := by
  unfold State.events at h
  split at h
  · split at h
    · simp at h
    · cases h
  · rename_i tid
    split at h
    · rename_i row hpoint
      simp only [List.mem_singleton, Event.started.injEq] at h
      exact ⟨tid, row, rfl, hpoint, h.symm⟩
    · cases h
  · split at h
    · simp at h
    · cases h
  · cases h

/-- What takes effect: the poll that a worker publishes, or the
transaction that it runs for its handler. -/
theorem effect_logged {k : Uuid} (h : .effect k ∈ s.events env a) :
    ∃ tid row, row.id = k
      ∧ ((a = .publishPoll tid false
          ∧ ∃ mailboxId, (s.fires tid).point = .polling row mailboxId)
        ∨ ∃ b tx, a = .inner b
          ∧ s.calls env b = some (tid, row, tx, true)) := by
  unfold State.events at h
  split at h
  · rename_i b
    split at h
    · rename_i tid row tx hc
      cases List.mem_singleton.mp h
      exact ⟨tid, row, rfl, Or.inr ⟨b, tx, rfl, hc⟩⟩
    · cases h
  · split at h
    · cases List.mem_singleton.mp h
    · cases h
  · rename_i tid
    split at h
    · rename_i row m hpoint
      cases List.mem_singleton.mp h
      exact ⟨tid, row, rfl, Or.inl ⟨rfl, m, hpoint⟩⟩
    · cases h
  · cases h

/-- A step logs one event at most. -/
theorem events_count (e : Event) : (s.events env a).count e ≤ 1 := by
  have hlength : (s.events env a).length ≤ 1 := by
    unfold State.events
    split
    · split
      · exact Nat.le_refl 1
      · exact Nat.zero_le 1
    · split
      · exact Nat.le_refl 1
      · exact Nat.zero_le 1
    · split
      · exact Nat.le_refl 1
      · exact Nat.zero_le 1
    · exact Nat.zero_le 1
  exact le_trans List.count_le_length hlength

end Inversion

end LegalBot.Firing
