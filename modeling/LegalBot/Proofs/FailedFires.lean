/-
What a fire that records a failure has committed.

# The claim and the defect

A handler that raises is caught, and the task goes on to record the
failure and to commit. Whatever the handler had only flushed would be
committed with it, but a statement that fails leaves a session that
commits no more, and the code's own exceptions come before the first
write. What remains is the enqueue: `wake_agent_from_schedule` and
`ReplayService.replay` commit before it, so when it raises the message
and the run, or the child session and the run, stay.

# The proof

`Left` is what a handler that fails leaves: a session of no use, the
store as it found it, or a store it has committed (`LateEnqueue`). One
lemma a handler shows it, statement by statement with the rules of
`Lib/Raising.lean`; `recordFired_ends` says what the task then commits.
-/
import LegalBot.Scheduling.Fires

namespace LegalBot.Fires

open Relational (HasKey Table)
open Raising
open Firing (payloadMembers payloadGet parseUuid asText handlerCall
  handleReminderCall handleReplayTriggerCall handlePollMailboxOnceCall)

-- ============================================================== statements

section Statements

variable {α : Type} {env : Env} {p : Point} {s : DbSession}
  {E : String → DbSession → Prop}

theorem ends_execute {f : Store → Except String (α × Store)}
    {Q : α → DbSession → Prop} (hs : s.broken = false)
    (hQ : ∀ a st, f s.working = .ok (a, st) →
      Q a { s with working := st })
    (hE : ∀ e, E e { s with broken := true }) :
    Ends (execute env p f) Q E s := by
  unfold execute
  rw [ends_bind, ends_get, if_neg (by rw [hs]; exact Bool.false_ne_true)]
  cases env.fault p with
  | some e => exact hE e
  | none =>
      simp only
      cases hf : f s.working with
      | error e => exact hE e
      | ok r => exact hQ r.1 r.2 hf

/-- A session that has failed takes no more statements. -/
theorem ends_execute_broken {f : Store → Except String (α × Store)}
    {Q : α → DbSession → Prop} (hs : s.broken = true)
    (hE : ∀ e, E e s) : Ends (execute env p f) Q E s := by
  unfold execute
  rw [ends_bind, ends_get, if_pos hs]
  exact hE _

theorem ends_query {f : Store → α} {Q : α → DbSession → Prop}
    (hs : s.broken = false) (hQ : Q (f s.working) s)
    (hE : ∀ e, E e { s with broken := true }) :
    Ends (query env p f) Q E s := by
  refine ends_execute hs (fun a st h => ?_) hE
  injection h with h
  injection h with ha hst
  subst ha hst
  exact hQ

theorem ends_update {f : Store → Store} {Q : Unit → DbSession → Prop}
    (hs : s.broken = false) (hQ : Q () { s with working := f s.working })
    (hE : ∀ e, E e { s with broken := true }) :
    Ends (update env p f) Q E s := by
  refine ends_execute hs (fun _ st h => ?_) hE
  injection h with h
  injection h with _ hst
  subst hst
  exact hQ

theorem ends_flush {f : Store → Option Store}
    {Q : Unit → DbSession → Prop} (hs : s.broken = false)
    (hQ : ∀ st, f s.working = some st → Q () { s with working := st })
    (hE : ∀ e, E e { s with broken := true }) :
    Ends (flush env p f) Q E s := by
  refine ends_execute hs (fun _ st h => ?_) hE
  split at h
  · rename_i st' hst'
    injection h with h
    injection h with _ hst
    subst hst
    exact hQ st' hst'
  · cases h

theorem ends_commit {Q : Unit → DbSession → Prop}
    (hs : s.broken = false) (hQ : Q () { s with committed := s.working })
    (hE : ∀ e, E e { s with broken := true }) :
    Ends (commit env p) Q E s := by
  unfold commit
  rw [ends_bind, ends_get, if_neg (by rw [hs]; exact Bool.false_ne_true)]
  cases env.fault p with
  | some e => exact hE e
  | none => exact hQ

theorem ends_delay {m : Message} {Q : Unit → DbSession → Prop}
    (hQ : Q () { s with sent := m :: s.sent })
    (hE : ∀ e, env.fault .enqueue = some e → E e s) :
    Ends (delay env m) Q E s := by
  unfold delay
  cases hfault : env.fault .enqueue with
  | some e => exact hE e hfault
  | none => exact hQ

theorem ends_uuidOf {value : Json} {id : Uuid}
    {Q : Uuid → DbSession → Prop} (h : parseUuid value = some id)
    (hQ : Q id s) : Ends (uuidOf env value) Q E s := by
  unfold uuidOf
  rw [h]
  exact hQ

theorem ends_uuidOf_none {value : Json} {Q : Uuid → DbSession → Prop}
    (h : parseUuid value = none) (hE : ∀ e, E e s) :
    Ends (uuidOf env value) Q E s := by
  unfold uuidOf
  rw [h]
  exact hE _

end Statements

-- ============================================================ the criterion

/-- The committed store differs in the row's status and in what
`mark_fired` writes to it, and in nothing else. -/
structure FireAtomic (id : Uuid) (before after : Store) : Prop where
  db : after.db = before.db
  steps : after.steps = before.steps
  schedules : ∀ k, k ≠ id →
    after.schedules.get k = before.schedules.get k
  marks : ∀ k, k ≠ id → after.marks k = before.marks k
  row : ∀ job, before.schedules.get id = some job →
    ∃ job', after.schedules.get id = some job' ∧ SameSchedule job job'

/-- The task records `{"ok": False, "error": e}`. -/
def RecordsFailure (env : Env) (id : Uuid) (before : Store) (e : String) :
    Prop :=
  (fire env id before).1 = .ok (.fired (failure e))

/-- The handler of the row has committed when it enqueues: a reminder
that wakes the agent, or a replay that finds what it replays. -/
def commitsFirst (env : Env) (before : Store) (job : ScheduledJob) :
    Bool :=
  match handlerCall job with
  | .reminder _ _ wake _ => wake
  | .replay sid rid step _ =>
      (before.db.sessions.get sid).isSome
        && (before.db.runs.get rid).isSome
        && (checkpointOf (latestStep env before.steps rid step)).isSome
  | _ => false

/-- The enqueue of a handler that commits before it raises. -/
def LateEnqueue (env : Env) (before : Store) (job : ScheduledJob) : Prop :=
  (env.fault .enqueue).isSome = true ∧ commitsFirst env before job = true

/-- What a handler that fails leaves behind. -/
def Left (env : Env) (before : Store) (job : ScheduledJob)
    (s : DbSession) : Prop :=
  s.broken = true
    ∨ (s.working = before ∧ ¬ LateEnqueue env before job)
    ∨ (s.working.db ≠ before.db ∧ LateEnqueue env before job)

/-- It fails by a result that says so, or by raising. -/
abbrev FailsLeft (env : Env) (before : Store) (job : ScheduledJob)
    (handler : FireM Json) (s : DbSession) : Prop :=
  Ends handler
    (fun result s' => ∀ e, result = failure e → Left env before job s')
    (fun _ s' => Left env before job s') s

section Handlers

variable {env : Env} {before : Store} {job : ScheduledJob}
  {s : DbSession} {sid rid : Uuid}

/-- Nothing is written, and the handler commits nothing first. -/
theorem Left.untouched (hw : s.working = before)
    (h : commitsFirst env before job = false) : Left env before job s :=
  Or.inr (Or.inl ⟨hw, fun hlate => by
    rw [hlate.2] at h
    cases h⟩)

/-- A handler that ends at its checks is such a one. -/
theorem Left.answered (hw : s.working = before)
    (h : handlerCall job = .answer) : Left env before job s :=
  Left.untouched hw (by rw [commitsFirst, h])

theorem success_ne_failure {rest : List (String × Json)} {e : String} :
    success rest ≠ failure e := by
  simp [success, failure]

-- ================================================================ reminders

/-- After the system message: its session is there, no run has been
added, and its content was a text. -/
theorem postSystemMessage_ends {content : Json}
    (hs : s.broken = false) :
    Ends (postSystemMessage env sid content)
      (fun _ s' => s'.broken = false
        ∧ (∃ text, asText content = some text)
        ∧ (∃ session, s'.working.db.sessions.get sid = some session)
        ∧ s'.working.db.runs = s.working.db.runs)
      (fun _ s' => s'.broken = true) s := by
  unfold postSystemMessage
  rw [ends_bind]
  refine ends_query hs ?_ fun _ => rfl
  rw [ends_bind]
  refine ends_update hs ?_ fun _ => rfl
  refine ends_flush hs (fun st hst => ?_) fun _ => rfl
  simp only [Option.pure_def, Option.bind_eq_bind,
    Option.bind_eq_some_iff, Option.some.injEq] at hst
  obtain ⟨text, htext, db, hdb, rfl⟩ := hst
  unfold insertMessage at hdb
  split at hdb
  · cases hdb
  · rename_i hsession
    split at hdb
    · cases hdb
    · obtain ⟨messages, -, rfl⟩ := Option.map_eq_some_iff.mp hdb
      refine ⟨hs, ⟨text, htext⟩, ?_, rfl⟩
      exact Option.ne_none_iff_exists'.mp fun hnone =>
        hsession (by rw [hnone]; rfl)

/-- A run that was inserted was not there. -/
theorem insertRun_runs {db db' : Db} {row : Run}
    (h : insertRun db row = some db') : db'.runs ≠ db.runs := by
  unfold insertRun at h
  split at h
  · obtain ⟨runs, hruns, rfl⟩ := Option.map_eq_some_iff.mp h
    intro heq
    have hrows := Table.insert_rows hruns
    rw [show runs = db.runs from heq] at hrows
    have hlen := congrArg List.length hrows
    simp at hlen
  · cases h

/-- A run that is started, committed and published fails with a session
of no use, or at the enqueue, when it is committed. -/
theorem startRun_ends {α : Type} {row : Run} {m : Message} {a : α}
    (hs : s.broken = false)
    (hruns : s.working.db.runs = before.db.runs) :
    Ends (do
        startRun env row
        commit env .commitRun
        delay env m
        pure a)
      (fun _ _ => True)
      (fun _ s' => s'.broken = true
        ∨ (s'.working.db ≠ before.db
          ∧ (env.fault .enqueue).isSome = true)) s := by
  rw [ends_bind]
  refine ends_flush hs (fun st hst => ?_) fun _ => Or.inl rfl
  obtain ⟨db, hdb, rfl⟩ := Option.map_eq_some_iff.mp hst
  rw [ends_bind]
  refine ends_commit hs ?_ fun _ => Or.inl rfl
  rw [ends_bind]
  refine ends_delay trivial fun e he => Or.inr ⟨fun heq => ?_, ?_⟩
  · exact insertRun_runs hdb ((congrArg Db.runs heq).trans hruns.symm)
  · rw [he]
    rfl

/-- The wake-up of a session that is there. -/
theorem wakeAgentFromSchedule_ends {payload : Json} {session : Session}
    (hs : s.broken = false)
    (hsession : s.working.db.sessions.get sid = some session)
    (hruns : s.working.db.runs = before.db.runs) :
    Ends (wakeAgentFromSchedule env sid payload) (fun _ _ => True)
      (fun _ s' => s'.broken = true
        ∨ (s'.working.db ≠ before.db
          ∧ (env.fault .enqueue).isSome = true)) s := by
  unfold wakeAgentFromSchedule getSession
  rw [ends_bind, ends_bind]
  refine ends_query hs ?_ fun _ => Or.inl rfl
  rw [hsession]
  exact startRun_ends hs hruns

theorem handleReminder_fails (hkind : job.kind = "reminder")
    (hs : s.broken = false) (hw : s.working = before) :
    FailsLeft env before job (handleReminder env job) s := by
  have hcall : handlerCall job = handleReminderCall job.payload :=
    if_pos hkind
  unfold FailsLeft handleReminder payloadOf
  unfold handleReminderCall at hcall
  cases hmembers : payloadMembers job.payload with
  | none =>
      rw [hmembers] at hcall
      exact Left.answered hw hcall
  | some members =>
      rw [hmembers] at hcall
      show Ends (ite _ _ _) _ _ s
      simp only at hcall
      cases hid : parseUuid (payloadGet members "session_id") with
      | none =>
          rw [hid] at hcall
          split
          · exact fun _ _ => Left.answered hw hcall
          · rw [ends_bind]
            exact ends_uuidOf_none hid fun _ => Left.answered hw hcall
      | some sid =>
          rw [hid] at hcall
          have hraw : payloadGet members "session_id" ≠ .null := by
            intro hnull
            rw [hnull] at hid
            cases hid
          rw [if_neg hraw, ends_bind]
          refine ends_uuidOf hid ?_
          show Ends (_ >>= _) _ _ s
          rw [ends_bind]
          refine (postSystemMessage_ends hs).mono (fun _ s₁ h₁ => ?_)
            fun _ _ hbroken => Or.inl hbroken
          obtain ⟨hs₁, ⟨text, htext⟩, ⟨session, hsession⟩, hruns⟩ := h₁
          split
          · rename_i hwake
            have hcommits : commitsFirst env before job = true := by
              rw [commitsFirst, hcall]
              by_cases hm : (payloadGet members "message").truthy = true
              · rw [if_pos hm] at htext
                simp [hm, htext, hwake]
              · simp [hm, hwake]
            rw [ends_bind]
            refine (wakeAgentFromSchedule_ends hs₁ hsession
              (hruns.trans (congrArg (·.db.runs) hw))).mono
                (fun _ _ _ e he => absurd he success_ne_failure)
                fun _ s₂ h₂ => ?_
            cases h₂ with
            | inl hbroken => exact Or.inl hbroken
            | inr h =>
                exact Or.inr (Or.inr ⟨h.1, h.2, hcommits⟩)
          · exact fun e he => absurd he success_ne_failure

-- ================================================================= replays

theorem insertSession_runs {db db' : Db} {row : Session}
    (h : insertSession db row = some db') : db'.runs = db.runs := by
  unfold insertSession at h
  split at h
  · obtain ⟨sessions, -, rfl⟩ := Option.map_eq_some_iff.mp h
    rfl
  · cases h

/-- The cancellations touch no other table. -/
theorem cascadeCancelRun_ends (hs : s.broken = false) :
    Ends (cascadeCancelRun env rid)
      (fun _ s' => s'.broken = false ∧ s'.working.db = s.working.db)
      (fun _ s' => s'.broken = true) s := by
  unfold cascadeCancelRun
  rw [ends_bind]
  refine ends_query hs ?_ fun _ => rfl
  refine Ends.forM (fun k s₁ h₁ => ?_) ⟨hs, rfl⟩
  exact ends_update h₁.1 ⟨h₁.1, h₁.2⟩ fun _ => rfl

/-- `replay` leaves the store as it found it when a lookup finds
nothing, and past them a session of no use or its commit. -/
theorem replay_ends {fromStep context : Json}
    (hs : s.broken = false) (hw : s.working = before)
    (hnone : asText fromStep = none →
      commitsFirst env before job = false)
    (hsome : ∀ step, asText fromStep = some step →
      commitsFirst env before job
        = ((before.db.sessions.get sid).isSome
          && (before.db.runs.get rid).isSome
          && (checkpointOf (latestStep env before.steps rid step)).isSome)) :
    Ends (replay env sid rid fromStep context) (fun _ _ => True)
      (fun _ s' => Left env before job s') s := by
  -- a lookup that finds nothing: the handler would not commit first
  have hnothing : (before.db.sessions.get sid).isSome = false
      ∨ (before.db.runs.get rid).isSome = false →
      Left env before job s := by
    intro hmissing
    refine Left.untouched hw ?_
    cases hstep : asText fromStep with
    | none => exact hnone hstep
    | some step =>
        rw [hsome step hstep]
        cases hmissing with
        | inl h => rw [h]; rfl
        | inr h => rw [h, Bool.and_false]; rfl
  unfold replay getSession
  rw [ends_bind, ends_bind]
  refine ends_query hs ?_ fun _ => Or.inl rfl
  rw [hw]
  cases hparent : before.db.sessions.get sid with
  | none => exact hnothing (Or.inl (by rw [hparent]; rfl))
  | some parent =>
      show Ends (_ >>= _) _ _ s
      rw [ends_bind]
      refine ends_query hs ?_ fun _ => Or.inl rfl
      rw [hw]
      cases hrun : before.db.runs.get rid with
      | none => exact hnothing (Or.inr (by rw [hrun]; rfl))
      | some run =>
          show Ends (_ >>= _) _ _ s
          rw [ends_bind]
          refine ends_execute hs (fun found st hfound => ?_)
            fun _ => Or.inl rfl
          cases hstep : asText fromStep with
          | none =>
              rw [hstep] at hfound
              cases hfound
          | some step =>
              rw [hstep, hw] at hfound
              injection hfound with hfound
              injection hfound with hfound hst
              subst hfound hst
              have hcommits := hsome step hstep
              rw [hparent, hrun] at hcommits
              cases hcp : checkpointOf
                  (latestStep env before.steps rid step) with
              | none =>
                  rw [hcp] at hcommits
                  simp only
                  exact Left.untouched rfl hcommits
              | some cp =>
                  rw [hcp] at hcommits
                  simp only
                  rw [ends_bind]
                  refine ends_flush hs (fun st hst => ?_)
                    fun _ => Or.inl rfl
                  obtain ⟨db, hdb, rfl⟩ := Option.map_eq_some_iff.mp hst
                  rw [ends_bind]
                  refine (cascadeCancelRun_ends (by exact hs)).mono
                    (fun _ s₁ h₁ => ?_) fun _ _ h => Or.inl h
                  have hruns : s₁.working.db.runs = before.db.runs := by
                    rw [h₁.2]
                    exact insertSession_runs hdb
                  refine (startRun_ends h₁.1 hruns).mono
                    (fun _ _ h => h) fun _ s₂ h₂ => ?_
                  cases h₂ with
                  | inl h => exact Or.inl h
                  | inr h => exact Or.inr (Or.inr ⟨h.1, h.2, hcommits⟩)

theorem parseUuid_truthy {v : Json} {id : Uuid}
    (h : parseUuid v = some id) : v.truthy = true := by
  unfold parseUuid at h
  cases v with
  | str text =>
      simp only at h
      split at h
      · cases h
      · rename_i hne
        simp only [Json.truthy, bne_iff_ne, ne_eq]
        intro htext
        exact hne (by rw [htext]; rfl)
  | _ => cases h

theorem asText_some {v : Json} {text : String}
    (h : asText v = some text) : v = .str text := by
  unfold asText at h
  cases v with
  | str t =>
      injection h with h
      rw [h]
  | _ => cases h

theorem handleReplayTrigger_fails (hkind : job.kind = "replay_trigger")
    (hs : s.broken = false) (hw : s.working = before) :
    FailsLeft env before job (handleReplayTrigger env job) s := by
  have hcall : handlerCall job = handleReplayTriggerCall job.payload := by
    unfold handlerCall
    rw [if_neg (by rw [hkind]; decide), if_pos hkind]
  unfold FailsLeft handleReplayTrigger payloadOf
  unfold handleReplayTriggerCall at hcall
  cases hmembers : payloadMembers job.payload with
  | none =>
      rw [hmembers] at hcall
      exact Left.answered hw hcall
  | some members =>
      rw [hmembers] at hcall
      show Ends (ite _ _ _) _ _ s
      simp only at hcall
      split
      · rename_i htruthy
        rw [ends_bind]
        cases hsid : parseUuid (payloadGet members "session_id") with
        | none =>
            rw [hsid] at hcall
            exact ends_uuidOf_none hsid fun _ => Left.answered hw hcall
        | some sid =>
            refine ends_uuidOf hsid ?_
            rw [ends_bind]
            cases hrid : parseUuid (payloadGet members "from_run_id") with
            | none =>
                rw [hsid, hrid] at hcall
                exact ends_uuidOf_none hrid fun _ => Left.answered hw hcall
            | some rid =>
                refine ends_uuidOf hrid ?_
                rw [hsid, hrid] at hcall
                rw [ends_bind]
                refine Ends.mono (replay_ends hs hw ?_ ?_)
                  (fun _ _ _ e he => absurd he success_ne_failure)
                  fun _ _ h => h
                · intro hstep
                  rw [hstep] at hcall
                  rw [commitsFirst, hcall]
                · intro step hstep
                  have hne : step ≠ "" := by
                    intro hempty
                    rw [asText_some hstep, hempty] at htruthy
                    exact Bool.false_ne_true htruthy.2.2
                  rw [hstep] at hcall
                  simp only [if_neg hne] at hcall
                  rw [commitsFirst, hcall]
      · rename_i hfalsy
        refine fun _ _ => Left.answered hw ?_
        rw [hcall]
        split
        · rename_i sid rid step hsid hrid hstep
          by_cases hempty : step = ""
          · exact if_pos hempty
          · refine absurd ⟨parseUuid_truthy hsid, parseUuid_truthy hrid, ?_⟩
              hfalsy
            rw [asText_some hstep]
            simpa [Json.truthy] using hempty
        · rfl

-- =================================================================== polls

theorem handlePollMailboxOnce_fails
    (hkind : job.kind = "poll_mailbox_once") (hw : s.working = before) :
    FailsLeft env before job (handlePollMailboxOnce env job) s := by
  have hnever : commitsFirst env before job = false := by
    unfold commitsFirst handlerCall
    rw [if_neg (by rw [hkind]; decide), if_neg (by rw [hkind]; decide)]
    unfold handlePollMailboxOnceCall
    cases payloadMembers job.payload with
    | none => rfl
    | some members =>
        cases hid : parseUuid (payloadGet members "mailbox_id") with
        | none => simp only [hid]
        | some _ => simp only [hid]
  have hleft : Left env before job s := Left.untouched hw hnever
  unfold FailsLeft handlePollMailboxOnce payloadOf
  cases payloadMembers job.payload with
  | none => exact hleft
  | some members =>
      show Ends (ite _ _ _) _ _ s
      split
      · rw [ends_bind]
        cases hid : parseUuid (payloadGet members "mailbox_id") with
        | none => exact ends_uuidOf_none hid fun _ => hleft
        | some mailboxId =>
            refine ends_uuidOf hid ?_
            rw [ends_bind]
            exact ends_delay (fun e he => absurd he success_ne_failure)
              fun _ _ => hleft
      · exact fun _ _ => hleft

theorem jobKindHandler_fails {handler : FireM Json}
    (h : jobKindHandler env job = some handler)
    (hs : s.broken = false) (hw : s.working = before) :
    FailsLeft env before job handler s := by
  unfold jobKindHandler at h
  split at h
  · rename_i hkind
    injection h with h
    rw [← h]
    exact handlePollMailboxOnce_fails hkind hw
  · split at h
    · rename_i hkind
      injection h with h
      rw [← h]
      exact handleReminder_fails hkind hs hw
    · split at h
      · rename_i hkind
        injection h with h
        rw [← h]
        exact handleReplayTrigger_fails hkind hs hw
      · cases h

-- ================================================================ the task

/-- What the task adds to the store its handler has left. -/
def recorded (env : Env) (job : ScheduledJob) (result : Json)
    (store : Store) : Store :=
  let marked := markFired store env.now job.id result
  if job.scheduleKind = .oneShot then
    { marked with schedules := expireOneShot marked.schedules job.id }
  else marked

theorem recorded_db {result : Json} {store : Store} :
    (recorded env job result store).db = store.db := by
  unfold recorded
  dsimp only
  split
  · rfl
  · rfl

/-- The record of a fire is written to its own row. -/
theorem recorded_atomic {result : Json} :
    FireAtomic job.id before (recorded env job result before) := by
  have hmarks : ∀ k, k ≠ job.id →
      (markFired before env.now job.id result).marks k
        = before.marks k := by
    intro k hk
    exact if_neg fun h => hk h.1
  unfold recorded
  dsimp only
  split
  · refine ⟨rfl, rfl, fun k hk => ?_, hmarks, fun row hrow => ?_⟩
    · show (expireOneShot before.schedules job.id).get k = _
      unfold expireOneShot setScheduledStatus
      rw [Table.get_updateWhere]
      cases hget : before.schedules.get k with
      | none => rfl
      | some r =>
          have hid : r.id = k := Table.key_of_get hget
          simp [hid, hk]
    · exact setScheduledStatus_get .expired job.id hrow
  · exact ⟨rfl, rfl, fun _ _ => rfl, hmarks,
      fun row hrow => ⟨row, hrow, SameSchedule.refl row⟩⟩

/-- The task commits its record on top of what its handler has left, or
raises. -/
theorem recordFired_ends {result : Json} :
    Ends (recordFired env job result)
      (fun _ s' => s.broken = false
        ∧ s'.committed = recorded env job result s.working)
      (fun _ _ => True) s := by
  unfold recordFired
  rw [ends_bind]
  cases hs : s.broken with
  | true => exact ends_execute_broken hs fun _ => trivial
  | false =>
      refine ends_update hs ?_ fun _ => trivial
      unfold recorded
      dsimp only
      split
      · rw [ends_bind]
        refine ends_update hs ?_ fun _ => trivial
        exact ends_commit hs ⟨rfl, rfl⟩ fun _ => trivial
      · exact ends_commit hs ⟨rfl, rfl⟩ fun _ => trivial

/-- The end of the task, on what a handler that failed has left. -/
theorem recordFired_atomic {result : Json} {e : String}
    (hleft : result = failure e → Left env before job s) :
    Ends (do
        recordFired env job result
        pure (Outcome.fired result))
      (fun outcome s' => outcome = .fired (failure e) →
        (FireAtomic job.id before s'.committed
          ↔ ¬ LateEnqueue env before job))
      (fun _ _ => True) s := by
  rw [ends_bind]
  refine recordFired_ends.mono (fun _ s' h' hfired => ?_) fun _ _ h => h
  injection hfired with hresult
  obtain ⟨hs, hcommitted⟩ := h'
  rw [hcommitted]
  cases hleft hresult with
  | inl hbroken =>
      rw [hs] at hbroken
      cases hbroken
  | inr h =>
      cases h with
      | inl h =>
          rw [h.1]
          exact iff_of_true recorded_atomic h.2
      | inr h =>
          refine iff_of_false (fun hatomic => h.1 ?_) fun hnot => hnot h.2
          rw [← hatomic.db, recorded_db]

end Handlers

-- ================================================================== the law

/-- Where a fire that records a failure is not atomic. -/
theorem runScheduledJob_ends {env : Env} {id : Uuid} {before : Store}
    {job : ScheduledJob} (e : String)
    (hjob : before.schedules.get id = some job) :
    Ends (runScheduledJob env id)
      (fun outcome s' => outcome = .fired (failure e) →
        (FireAtomic id before s'.committed
          ↔ ¬ LateEnqueue env before job))
      (fun _ _ => True) (.fresh before) := by
  have hid : job.id = id := Table.key_of_get hjob
  subst hid
  unfold runScheduledJob
  rw [ends_bind]
  refine ends_query rfl ?_ fun _ => trivial
  have hread : (DbSession.fresh before).working.schedules.get job.id
      = some job := hjob
  rw [hread]
  dsimp only
  split
  · exact fun h => by cases h
  · split
    · exact fun h => by cases h
    · rename_i handler hhandler
      rw [ends_bind, ends_tryCatch]
      refine (jobKindHandler_fails hhandler rfl rfl).mono
        (fun result s' h => ?_) fun raised s' h => ?_
      · exact recordFired_atomic (h e)
      · exact recordFired_atomic fun _ => h

/-- A fire that records a failure has committed the record alone, unless
what failed is the enqueue of a handler that commits before it. -/
theorem failed_fire_atomic_iff {env : Env} {id : Uuid} {before : Store}
    {job : ScheduledJob} {e : String}
    (hjob : before.schedules.get id = some job)
    (h : RecordsFailure env id before e) :
    FireAtomic id before (fire env id before).2.committed
      ↔ ¬ LateEnqueue env before job :=
  (runScheduledJob_ends e hjob).ok h rfl

-- ================================================================ fixtures

/-- A one-shot of a kind with a payload. -/
def sampleSchedule (kind : String) (payload : List (String × Json)) :
    ScheduledJob :=
  { id := 1, kind := kind, payload := .obj payload, scheduleKind := .oneShot
    status := .active, nextRunAt := none, ownerUserId := "u"
    sessionId := none, jobId := none, runId := none, parentRunId := none }

/-- A job. -/
def sampleJob : ProcessingJob :=
  { id := 3, ingestionItemId := 2, state := .completed, priority := 0
    attempts := 0, lastError := none, errorKind := none
    dispatchedAt := none, processingStartedAt := none, finishedAt := none
    currentSessionId := none, ownerUserId := "u", createdAt := 0
    updatedAt := 0 }

/-- A store with that job, its session and one schedule. -/
def sampleStore (job : ScheduledJob) : Store :=
  { db := { Db.empty with
      jobs := Table.empty.cons sampleJob List.not_mem_nil
      sessions := Table.empty.cons (createPrimary sampleJob 4 "a" 0)
        List.not_mem_nil }
    schedules := Table.empty.cons job List.not_mem_nil
    steps := .empty
    marks := fun _ => ⟨none, none⟩ }

/-- The broker is down; every other call succeeds. -/
def brokerDown : Env :=
  { fault := fun p => if p = .enqueue then some "broker down" else none
    now := 9, msgId := 20, runId := 21, childId := 22, hex := "b", tie := 0
    wrongValue := fun _ => "badly formed hexadecimal UUID string" }

/-- A poll that cannot be enqueued leaves nothing but its record. -/
theorem poll_enqueue_failed :
    let before := sampleStore
      (sampleSchedule "poll_mailbox_once" [("mailbox_id", .str "7")])
    FireAtomic 1 before (fire brokerDown 1 before).2.committed :=
  (failed_fire_atomic_iff (e := "broker down") rfl (by
    unfold RecordsFailure
    decide +kernel)).mpr fun h => by
      have hcommits := h.2
      revert hcommits
      decide +kernel

/-- A waking reminder that cannot be enqueued leaves its message and its
run. -/
theorem waking_reminder_kept :
    ∃ env id before job e, before.schedules.get id = some job
      ∧ RecordsFailure env id before e
      ∧ ¬ FireAtomic id before (fire env id before).2.committed := by
  let job := sampleSchedule "reminder"
    [("session_id", .str "4"), ("message", .str "call the court"),
      ("wake_agent", .bool true)]
  refine ⟨brokerDown, 1, sampleStore job, job, "broker down", rfl, ?_,
    fun hatomic => ?_⟩
  · unfold RecordsFailure
    decide +kernel
  · have hruns := congrArg (fun db => db.runs.rows.isEmpty) hatomic.db
    revert hruns
    decide +kernel

end LegalBot.Fires
