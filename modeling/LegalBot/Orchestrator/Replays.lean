/-
The orchestration with the tables a replay works on: `scheduled_job`
and `run_step` next to the database of `Orchestrator/System.lean`.

A step of the base system is a step here, with two things filled in
that the base system leaves open. The checkpoint a replay forks from is
that of the latest step row (`lookup`), and the commit of a replay also
writes the cancellations of `cascade_cancel`, whose `SELECT` is a step
of its own between the lookup and the commit. Everything else that
happens to the two tables (schedules are added, paused, resumed,
cancelled and expired; steps are recorded) may happen between any two
steps.

`cancelled` is ghost: the session whose replay cancelled a row.
-/
import LegalBot.Orchestrator.Pending
import LegalBot.Scheduling.Service

namespace LegalBot.Replays

open Relational (HasKey Table)

-- =================================================================== states

/-- The state of the system; `selected` holds what an actor inside
`replay` has read in `cascade_cancel`. -/
structure State where
  base : LegalBot.State
  schedules : Table ScheduledJob
  steps : Table RunStep
  selected : Nat → Option (List Uuid)
  cancelled : List (Uuid × Uuid)

/-- The empty deployment. -/
def State.init : State :=
  { base := .init, schedules := .empty, steps := .empty
    selected := fun _ => none, cancelled := [] }

/-- What may happen next. -/
inductive Action where
  | base (a : LegalBot.Action)
  | select (tid : Nat)
  | addStep (id runId : Uuid) (stepName : String)
      (checkpointId checkpointNs summary : Option String)
  | scheduleOneShot (id : Uuid) (kind : String) (payload : Json)
      (runAt : Time) (ownerUserId : String)
      (sessionId jobId runId parentRunId : Option Uuid)
  | scheduleRecurring (id : Uuid) (kind : String) (payload : Json)
      (spec : ScheduledJobScheduleKind) (ownerUserId : String)
      (sessionId jobId runId : Option Uuid)
  | pause (id : Uuid)
  | resume (id : Uuid)
  | cancel (id : Uuid)
  | expire (id : Uuid)

-- ==================================================================== steps

/-- The checkpoints that the lookups of `replay` may find: the parent
and the run are there, and the latest step row names a checkpoint. -/
def lookup (db : Db) (steps : Table RunStep) (sessionId fromRunId : Uuid)
    (fromStep : String) : List String :=
  if (db.sessions.get sessionId).isSome ∧ (db.runs.get fromRunId).isSome
  then
    (latestSteps steps fromRunId fromStep).filterMap fun row =>
      match row.checkpointId with
      | some cp => if cp = "" then none else some cp
      | none => none
  else []

/-- What the two tables ask of a step of the base system. -/
def State.admits (s : State) : LegalBot.Action → Bool
  | .advance tid reply =>
      match (s.base.tasks tid).pc with
      | .handler (.replay sid fromRun step _) =>
          match reply with
          | .checkpoint cp =>
              decide (cp ∈ lookup s.base.db s.steps sid fromRun step)
          | _ => true  -- `ReplayCheckpointNotFound`, or a query fails
      | .handler (.replayInsert ..) => (s.selected tid).isSome
      | _ => true
  | _ => true

/-- The session and the selected rows of the replay that a step
commits. -/
def State.commits (env : Env) (s : State) (a : LegalBot.Action) :
    Option (Uuid × List Uuid) :=
  match a, committing env a s.base with
  | .advance tid _,
    some (.replay sid fromRun step ctx cp childId runId hex) =>
      match replay s.base.db s.base.now sid fromRun step ctx cp childId
          runId hex with
      | .ok _ => (s.selected tid).map fun ids => (sid, ids)
      | .error _ => none
  | _, _ => none

/-- Take one step, or `none` when it is not enabled. -/
def apply (env : Env) (a : Action) (s : State) : Option State :=
  match a with
  | .base a =>
      if s.admits a then
        (LegalBot.apply env a s.base).map fun base =>
          let selected :=
            match a.actor with
            | some tid => Function.update s.selected tid none
            | none => s.selected
          match s.commits env a with
          | some (sid, ids) =>
              { s with
                base := base, selected := selected
                schedules := cascadeCancel s.schedules ids
                cancelled := ids.map (fun k => (sid, k)) ++ s.cancelled }
          | none => { s with base := base, selected := selected }
      else none
  | .select tid =>
      match (s.base.tasks tid).pc with
      | .handler (.replayInsert _ fromRun _ _ _) =>
          some { s with
            selected := Function.update s.selected tid
              (some (cascadeSelect s.schedules (some fromRun) none)) }
      | _ => none
  | .addStep id runId stepName cp ns summary =>
      (addStep s.base.db s.steps s.base.now id runId stepName cp ns
        summary).map fun steps => { s with steps := steps }
  | .scheduleOneShot id kind payload runAt owner sid jid rid parent =>
      (LegalBot.scheduleOneShot s.base.db s.schedules id kind payload
        runAt owner sid jid rid parent).toOption.map fun schedules =>
          { s with schedules := schedules }
  | .scheduleRecurring id kind payload spec owner sid jid rid =>
      (LegalBot.scheduleRecurring s.base.db s.schedules id kind payload
        spec owner sid jid rid).toOption.map fun schedules =>
          { s with schedules := schedules }
  | .pause id => some { s with schedules := pauseScheduled s.schedules id }
  | .resume id =>
      (resumeScheduled s.schedules id).toOption.map fun schedules =>
        { s with schedules := schedules }
  | .cancel id =>
      some { s with schedules := cancelScheduled s.schedules id }
  | .expire id => some { s with schedules := expireOneShot s.schedules id }

-- ================================================================= replays

section Calls

variable {env : Env} {s : LegalBot.State} {a : LegalBot.Action}
  {sid fromRun : Uuid} {step ctx cp : String}

/-- A call gets to its insert with the checkpoint it found. -/
theorem request_replayInsert {now : Time} {db : Db}
    {inFlight : Finset Uuid} {reply : Reply} {hd : Handler}
    {r : Request Handler} {run : Tx → Except TxError Db}
    (hr : hd.request env now db inFlight reply = some r)
    (hl : r.landing run = .replayInsert sid fromRun step ctx cp) :
    hd = .replay sid fromRun step ctx ∧ reply = .checkpoint cp := by
  cases hd with
  | replay sid₀ fromRun₀ step₀ ctx₀ =>
      simp only [Handler.request] at hr
      split at hr
      · injection hr with hr
        subst hr
        injection hl with h₁ h₂ h₃ h₄ h₅
        subst h₁ h₂ h₃ h₄ h₅
        exact ⟨rfl, rfl⟩
      · injection hr with hr
        subst hr
        cases hl
      · cases hr
  | _ =>
      unfold Handler.request at hr
      grind [Request.landing, afterResolve]

/-- A replay is committed by the call that looked it up. -/
theorem committing_replay {childId runId : Uuid} {hex : String}
    (h : committing env a s
      = some (.replay sid fromRun step ctx cp childId runId hex)) :
    ∃ tid reply, a = .advance tid reply ∧ (s.tasks tid).pc
      = .handler (.replayInsert sid fromRun step ctx cp) := by
  obtain ⟨tid, reply, hd, ok, raised, ha, hpc, hr⟩ :=
    committing_handler h rfl
  refine ⟨tid, reply, ha, ?_⟩
  rw [hpc]
  cases hd with
  | replayInsert sid₀ fromRun₀ step₀ ctx₀ cp₀ =>
      simp only [Handler.request] at hr
      split at hr
      · cases hr
        rfl
      · cases hr
  | _ =>
      unfold Handler.request at hr
      grind

end Calls

-- ================================================================ inversion

section Inversion

variable {env : Env} {a : Action} {s s' : State}

/-- The rows of `schedules` stay, with nothing but their status
changed. -/
def SchedulesKept (t t' : Table ScheduledJob) : Prop :=
  ∀ k row, t.get k = some row →
    ∃ row', t'.get k = some row' ∧ SameSchedule row row'

theorem SchedulesKept.refl (t : Table ScheduledJob) : SchedulesKept t t :=
  fun _ row h => ⟨row, h, rfl⟩

/-- What a step of the base system does here. -/
theorem apply_base {b : LegalBot.Action}
    (h : apply env (.base b) s = some s') :
    s.admits b = true ∧ LegalBot.apply env b s.base = some s'.base
      ∧ s'.steps = s.steps
      ∧ (∀ tid, s'.selected tid
          = if b.actor = some tid then none else s.selected tid)
      ∧ ((s.commits env b = none ∧ s'.schedules = s.schedules
          ∧ s'.cancelled = s.cancelled)
        ∨ ∃ sid ids, s.commits env b = some (sid, ids)
          ∧ s'.schedules = cascadeCancel s.schedules ids
          ∧ s'.cancelled = ids.map (fun k => (sid, k)) ++ s.cancelled) := by
  unfold apply at h
  simp only at h
  split at h
  · rename_i hadmits
    obtain ⟨base, hbase, hs'⟩ := Option.map_eq_some_iff.mp h
    have hselected : ∀ tid,
        (match b.actor with
          | some t => Function.update s.selected t none
          | none => s.selected) tid
        = if b.actor = some tid then none else s.selected tid := by
      intro tid
      cases hactor : b.actor with
      | none => simp
      | some t =>
          by_cases ht : t = tid
          · simp [ht]
          · simp only [Option.some.injEq, if_neg ht]
            exact Function.update_of_ne (fun e => ht e.symm) _ _
    cases hc : s.commits env b with
    | none =>
        rw [hc] at hs'
        subst hs'
        exact ⟨hadmits, hbase, rfl, hselected, Or.inl ⟨rfl, rfl, rfl⟩⟩
    | some call =>
        obtain ⟨sid, ids⟩ := call
        rw [hc] at hs'
        subst hs'
        exact ⟨hadmits, hbase, rfl, hselected,
          Or.inr ⟨sid, ids, rfl, rfl, rfl⟩⟩
  · cases h

/-- What any other step does. -/
theorem apply_tables (h : apply env a s = some s')
    (hb : ∀ b, a ≠ .base b) :
    s'.base = s.base ∧ s'.cancelled = s.cancelled
      ∧ SchedulesKept s.schedules s'.schedules
      ∧ (s'.selected = s.selected
        ∨ ∃ tid sid fromRun step ctx cp, (s.base.tasks tid).pc
            = .handler (.replayInsert sid fromRun step ctx cp)
          ∧ s'.schedules = s.schedules
          ∧ s'.selected = Function.update s.selected tid
            (some (cascadeSelect s.schedules (some fromRun) none))) := by
  cases a with
  | base b => exact absurd rfl (hb b)
  | select tid =>
      unfold apply at h
      simp only at h
      split at h
      · rename_i sid fromRun step ctx cp hpc
        injection h with h
        subst h
        exact ⟨rfl, rfl, SchedulesKept.refl _,
          Or.inr ⟨tid, sid, fromRun, step, ctx, cp, hpc, rfl, rfl⟩⟩
      · cases h
  | addStep id runId stepName cp ns summary =>
      obtain ⟨steps, -, rfl⟩ := Option.map_eq_some_iff.mp h
      exact ⟨rfl, rfl, SchedulesKept.refl _, Or.inl rfl⟩
  | scheduleOneShot id kind payload runAt owner sid jid rid parent =>
      obtain ⟨schedules, hins, rfl⟩ := Option.map_eq_some_iff.mp h
      exact ⟨rfl, rfl, fun _ row hk =>
        ⟨row, scheduleOneShot_get (toOption_some.mp hins) hk, rfl⟩,
        Or.inl rfl⟩
  | scheduleRecurring id kind payload spec owner sid jid rid =>
      obtain ⟨schedules, hins, rfl⟩ := Option.map_eq_some_iff.mp h
      exact ⟨rfl, rfl, fun _ row hk =>
        ⟨row, scheduleRecurring_get (toOption_some.mp hins) hk, rfl⟩,
        Or.inl rfl⟩
  | pause id =>
      injection h with h
      subst h
      exact ⟨rfl, rfl, fun _ _ hk => setScheduledStatus_get .paused id hk,
        Or.inl rfl⟩
  | resume id =>
      obtain ⟨schedules, hres, rfl⟩ := Option.map_eq_some_iff.mp h
      obtain rfl := resumeScheduled_ok (toOption_some.mp hres)
      exact ⟨rfl, rfl, fun _ _ hk => setScheduledStatus_get .active id hk,
        Or.inl rfl⟩
  | cancel id =>
      injection h with h
      subst h
      exact ⟨rfl, rfl, fun _ _ hk => setScheduledStatus_get .cancelled id hk,
        Or.inl rfl⟩
  | expire id =>
      injection h with h
      subst h
      exact ⟨rfl, rfl, fun _ _ hk => setScheduledStatus_get .expired id hk,
        Or.inl rfl⟩

/-- The replay that a step commits. -/
theorem commits_some {b : LegalBot.Action} {sid : Uuid} {ids : List Uuid}
    (h : s.commits env b = some (sid, ids)) :
    ∃ tid reply fromRun step ctx cp, b = .advance tid reply
      ∧ (s.base.tasks tid).pc
        = .handler (.replayInsert sid fromRun step ctx cp)
      ∧ s.selected tid = some ids := by
  unfold State.commits at h
  split at h
  · rename_i tid reply sid₀ fromRun step ctx cp childId runId hex hc
    split at h
    · obtain ⟨ids₀, hids, he⟩ := Option.map_eq_some_iff.mp h
      cases he
      obtain ⟨tid', reply', hb, hpc⟩ := committing_replay hc
      cases hb
      exact ⟨tid, reply, fromRun, step, ctx, cp, rfl, hpc, hids⟩
    · cases h
  · cases h

theorem mem_lookup {db : Db} {steps : Table RunStep} {sid fromRun : Uuid}
    {step cp : String} (h : cp ∈ lookup db steps sid fromRun step) :
    ∃ run, db.runs.get fromRun = some run := by
  unfold lookup at h
  split at h
  · rename_i hfound
    exact Option.isSome_iff_exists.mp hfound.2
  · cases h

end Inversion

end LegalBot.Replays
