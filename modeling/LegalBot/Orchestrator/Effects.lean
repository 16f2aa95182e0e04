/-
What each transaction writes to the columns the pause protocol and the
dispatcher depend on, as functions of the row it finds.

`Committed` says what no transaction ever does; `Effects` says what this
one does: the pair along which it moves a job (`Tx.jobMove`), the status
it leaves on a run, on a session and on an interrupt. A transaction not
named in one of these functions leaves the column alone, and a row it
inserts has the column's initial value. `commit_effects` is the case
split; the invariants below read the functions.
-/
import LegalBot.Orchestrator.Messages

namespace LegalBot

open Relational (HasKey Table)

variable {cfg : Settings} {now : Time} {db db' : Db} {tx : Tx}

-- ============================================================== the columns

/-- What a session says about its pause. -/
def Session.pause (s : Session) : SessionStatus × Option Uuid :=
  (s.status, s.activeInterruptId)

/-- The session of a run's row. -/
def sessionOf (db : Db) (rid : Uuid) : Option Uuid :=
  (db.runs.get rid).map (·.sessionId)

/-- The job of a session's row. -/
def jobOf (db : Db) (sid : Uuid) : Option Uuid :=
  (db.sessions.get sid).map (·.jobId)

/-- The ids a dispatch pass moves. -/
def dispatchedIds (now : Time) (db : Db) (limit : Nat)
    (locked : List Uuid) : List Uuid :=
  (dispatchRows now (pickReadyJobs db.jobs limit locked) db.jobs).2

/-- The pairs along which a transaction moves jobs. -/
def Tx.jobMove (now : Time) (db : Db) : Tx → Uuid → JobState → JobState →
    Prop
  | .upsert .. => fun _ f t => f = .intake ∧ t = .ready
  | .dispatchOnce limit locked => fun k f t =>
      k ∈ dispatchedIds now db limit locked
        ∧ f = .ready ∧ t = .dispatched
  | .reapStuck => LeaseMove
  | .retry job => PairMove job.id .failed .ready
  | .cancel job _ => PairMove job.id job.state .failed
  | .archive job => PairMove job.id job.state .archived
  | .markFailed j f _ _ => PairMove j f .failed
  | .startPipeline j _ _ _ => PairMove j .dispatched .processing
  | .resumeTransition rid => fun k f t =>
      ((db.runs.get rid).map (·.kind) = some .pipeline
        ∧ (sessionOf db rid).bind (jobOf db) = some k)
        ∧ f = .awaitingHuman ∧ t = .processing
  | .finalizeJob sid rid => fun k f t =>
      ((db.runs.get rid).map (·.kind) = some .pipeline
        ∧ jobOf db sid = some k)
        ∧ f = .processing ∧ t = .completed
  | .failJob rid _ => fun k f t =>
      ((db.runs.get rid).map (·.kind) = some .pipeline
        ∧ (db.runs.get rid).map (·.jobId) = some k)
        ∧ f = .processing ∧ t = .failed
  | .pauseJob sid rid => fun k f t =>
      ((db.runs.get rid).map (·.kind) = some .pipeline
        ∧ jobOf db sid = some k)
        ∧ f = .processing ∧ t = .awaitingHuman
  | _ => NoMove

/-- The status a transaction leaves on a run. -/
def Tx.runStatus (tx : Tx) (r : Run) : RunStatus :=
  match tx with
  | .markRunStatus rid st => if r.id = rid then st else r.status
  | .cancelActiveRun sid locked =>
      if r.id ∈ locked ∧ r.sessionId = sid ∧ r.status = .running then
        .cancelled
      else r.status
  | _ => r.status

/-- The sessions of the interrupts an expiry pass finds. -/
def stalledSessions (now : Time) (db : Db) : List Uuid :=
  (db.interrupts.rows.filter (isStalled now)).map (·.sessionId)

/-- What a transaction leaves on a session about its pause. -/
def Tx.pause (now : Time) (db : Db) (tx : Tx) (s : Session) :
    SessionStatus × Option Uuid :=
  match tx with
  | .markRunStatus rid st =>
      if some s.id = sessionOf db rid then
        (if st.val = .awaitingHuman then .awaitingHuman else .idle,
          s.activeInterruptId)
      else s.pause
  | .openInterrupt id sid _ _ _ _ =>
      if s.id = sid then (.awaitingHuman, some id) else s.pause
  | .resolve sid _ _ _ _ =>
      if s.id = sid then (.running, none) else s.pause
  | .expireStalled =>
      if s.id ∈ stalledSessions now db then (.failed, none) else s.pause
  | .cancelActiveRun sid _ =>
      if s.id = sid then (.idle, s.activeInterruptId) else s.pause
  | .archiveSession sid =>
      if s.id = sid then (.archived, s.activeInterruptId) else s.pause
  | _ => s.pause

/-- The status a transaction leaves on an interrupt. -/
def Tx.interruptStatus (now : Time) (tx : Tx) (i : InterruptRequest) :
    InterruptStatus :=
  match tx with
  | .resolve _ current _ _ _ =>
      if i.id = current.id then .resolved else i.status
  | .expireStalled => if isStalled now i then .expired else i.status
  | _ => i.status

/-- The interrupt a transaction inserts. -/
def Tx.Opens (cfg : Settings) (now : Time) (tx : Tx)
    (i : InterruptRequest) : Prop :=
  ∃ id sid rid kind payload schema,
    tx = .openInterrupt id sid rid kind payload schema
      ∧ i = newInterrupt cfg id sid rid kind payload schema none now

/-- What a transaction does to an interrupt that is there. -/
structure AsksOn (now : Time) (tx : Tx) (i i' : InterruptRequest) :
    Prop where
  status : i'.status = tx.interruptStatus now i
  same : SameQuestion i i'
  schema : i'.schema = i.schema

/-- What a committed transaction did to these columns. -/
structure Effects (cfg : Settings) (now : Time) (tx : Tx) (db db' : Db) :
    Prop where
  jobs : JobsEvolve (tx.jobMove now db) db.jobs db'.jobs := by
    exact JobsEvolve.refl _
  runs : Table.ColumnMoves Run.status tx.runStatus .running db.runs
      db'.runs := by
    exact Table.ColumnMoves.refl (fun _ => rfl) _
  sessions : Table.ColumnMoves Session.pause (tx.pause now db)
      (.idle, none) db.sessions db'.sessions := by
    exact Table.ColumnMoves.refl (fun _ => rfl) _
  interrupts : Table.Evolves (AsksOn now tx) (tx.Opens cfg now)
      db.interrupts db'.interrupts := by
    exact Table.Evolves.refl (fun i => ⟨rfl, SameQuestion.refl i, rfl⟩) _

-- ============================================================ the writers

/-- A caught transition, when its pair may only be moved along under
`c`. -/
theorem skipInvalid_moves {jobs : Table ProcessingJob} {j : Uuid}
    {f t : JobState} {extra : JobExtra} {c : Uuid → Prop} (hj : c j) :
    JobsEvolve (fun k a b => c k ∧ a = f ∧ b = t) jobs
      (skipInvalid jobs (transition jobs now j f t extra)) := by
  refine skipInvalid_evolves.mono ?_
  rintro k a b ⟨rfl, rfl, rfl⟩
  exact ⟨hj, rfl, rfl⟩

/-- A dispatch pass moves the ids it returns. -/
theorem dispatchRows_moves (now : Time) :
    ∀ (rows : List ProcessingJob) (jobs : Table ProcessingJob),
      JobsEvolve (fun k a b => k ∈ (dispatchRows now rows jobs).2
        ∧ a = .ready ∧ b = .dispatched) jobs
        (dispatchRows now rows jobs).1 := by
  intro rows
  induction rows with
  | nil => exact fun jobs => JobsEvolve.refl jobs
  | cons job rest ih =>
      intro jobs
      unfold dispatchRows
      cases ht : transition jobs now job.id .ready .dispatched
          JobExtra.none with
      | error e => exact ih jobs
      | ok jobs' =>
          have hfirst := transition_evolves ht
          refine ⟨fun hk => ?_, fun {k r'} h₀ hk => ?_⟩
          · obtain ⟨r₁, hr₁, hm₁⟩ := hfirst.persists hk
            obtain ⟨r₂, hr₂, hm₂⟩ := (ih jobs').persists hr₁
            refine ⟨r₂, hr₂, JobMove.trans ?_ (hm₁.mono ?_) (hm₂.mono ?_)⟩
            · rintro _ a b c ⟨-, -, rfl⟩ ⟨-, hb, -⟩
              cases hb
            · rintro k a b ⟨rfl, rfl, rfl⟩
              exact ⟨List.mem_cons_self, rfl, rfl⟩
            · rintro k a b ⟨hk, rfl, rfl⟩
              exact ⟨List.mem_cons_of_mem _ hk, rfl, rfl⟩
          · obtain ⟨-, row, hrow, -, hget⟩ := transition_ok ht
            have hnone : jobs'.get k = none := by
              rw [hget k, h₀]
              split
              · rename_i hkj
                rw [hkj, hrow] at h₀
                cases h₀
              · rfl
            exact (ih jobs').born hnone hk

theorem startPipeline_moves {jobs : Table ProcessingJob} {j sid : Uuid}
    (h : transition db.jobs now j .dispatched .processing JobExtra.none
      = .ok jobs) :
    JobsEvolve (PairMove j .dispatched .processing) db.jobs
      (setCurrentSession jobs j sid) := by
  have hset : JobsEvolve (PairMove j .processing .processing) jobs
      (setCurrentSession jobs j sid) :=
    (setCurrentSession_evolves jobs j sid).mono fun _ _ _ hm => hm.elim
  refine ⟨fun hk => ?_, fun {k r'} h₀ hk => ?_⟩
  · obtain ⟨r₁, hr₁, hm₁⟩ := (transition_evolves h).persists hk
    obtain ⟨r₂, hr₂, hm₂⟩ := (setCurrentSession_evolves jobs j sid).persists
      hr₁
    refine ⟨r₂, hr₂, JobMove.trans ?_ hm₁ (hm₂.mono fun _ _ _ hm =>
      hm.elim)⟩
    rintro _ a b c ⟨-, -, rfl⟩ ⟨-, hb, -⟩
    cases hb
  · rcases hset.origin hk with ⟨r₁, hr₁, hm⟩ | ⟨-, hr⟩
    · have hborn := (transition_evolves h).born h₀ hr₁
      rcases hm.state with hs | ⟨-, hs, -⟩
      · exact hs.trans hborn
      · rw [hborn] at hs
        cases hs
    · exact hr

/-- A transcript write leaves every pause alone. -/
theorem SessionsCounted.pause {sessions sessions' : Table Session}
    (h : SessionsCounted sessions sessions') :
    Table.ColumnMoves Session.pause Session.pause (.idle, none)
      sessions sessions' :=
  h.mono fun _ _ _ => rfl

-- ====================================================== every transaction

/-- Every committed transaction has these effects. -/
theorem commit_effects (h : tx.commit cfg now db = .ok db') :
    Effects cfg now tx db db' := by
  cases tx with
  | upsert mapped owner itemId jobId ids =>
      rcases upsert_ok h with rfl | ⟨_, _, _, jobs, hjobs, rfl⟩
      · exact {}
      · exact { jobs := promoteToReady_evolves hjobs }
  | dispatchOnce limit locked =>
      injection h with h
      subst h
      exact { jobs := dispatchRows_moves now _ db.jobs }
  | reapStuck =>
      injection h with h
      subst h
      exact { jobs := reapStuck_evolves cfg db.jobs now }
  | retry job =>
      obtain ⟨jobs, hjobs, rfl⟩ := withJobs_ok h
      exact { jobs := transition_evolves hjobs }
  | cancel job reason =>
      obtain ⟨jobs, hjobs, rfl⟩ := withJobs_ok h
      exact { jobs := transition_evolves hjobs }
  | archive job =>
      obtain ⟨jobs, hjobs, rfl⟩ := withJobs_ok h
      exact { jobs := transition_evolves hjobs }
  | markFailed j f error errorKind =>
      obtain ⟨jobs, hjobs, rfl⟩ := withJobs_ok h
      exact { jobs := transition_evolves hjobs }
  | startPipeline j sid rid hex =>
      obtain ⟨job, jobs, sessions, runs, -, hjobs, hs, hr, rfl⟩ :=
        startPipeline_ok h
      exact
        { jobs := startPipeline_moves hjobs
          runs := Table.ColumnMoves.insert (fun _ => rfl) hr rfl
          sessions := Table.ColumnMoves.insert (fun _ => rfl) hs rfl }
  | resumeTransition rid =>
      obtain ⟨run, session, job, hrun, hsession, -, rfl⟩ :=
        resumeTransition_ok h
      by_cases hk : run.kind = .pipeline
      · rw [if_pos hk]
        refine { jobs := skipInvalid_moves ⟨?_, ?_⟩ }
        · rw [hrun, ← hk]
          rfl
        · unfold sessionOf jobOf
          simp only [hrun, Option.map_some, Option.bind_some, hsession]
      · rw [if_neg hk]
        exact {}
  | markRunStatus rid st =>
      obtain ⟨run, hrun, rfl⟩ := markRunStatus_ok h
      have hsid : sessionOf db rid = some run.sessionId := by
        unfold sessionOf
        rw [hrun]
        rfl
      refine
        { runs := Table.ColumnMoves.updateWhere db.runs (fun r hp => ?_)
            (fun r hn => ?_)
          sessions := Table.ColumnMoves.updateWhere db.sessions
            (fun s hp => ?_) (fun s hn => ?_) }
      · exact (if_pos (of_decide_eq_true hp)).symm
      · exact (if_neg (of_decide_eq_false hn)).symm
      · refine (if_pos ?_).symm
        rw [hsid, of_decide_eq_true hp]
      · refine (if_neg ?_).symm
        rw [hsid, Option.some.injEq]
        exact of_decide_eq_false hn
  | finalizeJob sid rid =>
      obtain ⟨run, hrun, ⟨-, rfl⟩ | ⟨hk, session, jobs, hs, hjobs, rfl⟩⟩ :=
        finalizeJobIfPrimary_ok h
      · exact {}
      · refine { jobs := (transition_evolves hjobs).mono ?_ }
        rintro k a b ⟨rfl, rfl, rfl⟩
        refine ⟨⟨?_, ?_⟩, rfl, rfl⟩
        · rw [hrun, ← hk]
          rfl
        · unfold jobOf
          rw [hs]
          rfl
  | failJob rid exc =>
      obtain ⟨run, hrun, ⟨-, rfl⟩ | ⟨hk, rfl⟩⟩ :=
        failPipelineJobForGraphError_ok h
      · exact {}
      · refine { jobs := skipInvalid_moves ⟨?_, ?_⟩ }
        · rw [hrun, ← hk]
          rfl
        · rw [hrun]
          rfl
  | pauseJob sid rid =>
      obtain ⟨run, hrun, ⟨-, rfl⟩ | ⟨hk, session, hs, rfl⟩⟩ :=
        transitionPipelineJob_ok h
      · exact {}
      · refine { jobs := skipInvalid_moves ⟨?_, ?_⟩ }
        · rw [hrun, ← hk]
          rfl
        · unfold jobOf
          rw [hs]
          rfl
  | writeProjection sid rid output ids =>
      obtain ⟨_, _, rfl, hs⟩ := writeSessionProjection_ok h
      exact { sessions := hs.pause }
  | openInterrupt id sid rid kind payload schema =>
      obtain ⟨interrupts, hi, rfl⟩ :=
        Option.map_eq_some_iff.mp (flushed_ok.mp h)
      refine
        { sessions := Table.ColumnMoves.updateWhere db.sessions
            (fun s hp => ?_) (fun s hn => ?_)
          interrupts := Table.Evolves.insert
            (fun i => ⟨rfl, SameQuestion.refl i, rfl⟩) hi
            ⟨id, sid, rid, kind, payload, schema, rfl, rfl⟩ }
      · exact (if_pos (of_decide_eq_true hp)).symm
      · exact (if_neg (of_decide_eq_false hn)).symm
  | resolve sid current resolution resolvedBy iid =>
      obtain ⟨interventions, -, rfl⟩ :=
        Option.map_eq_some_iff.mp (flushed_ok.mp h)
      refine
        { sessions := Table.ColumnMoves.updateWhere db.sessions
            (fun s hp => ?_) (fun s hn => ?_)
          interrupts := Table.Evolves.updateWhere_cases db.interrupts
            (fun i hp => ?_) (fun i hn => ?_) }
      · exact (if_pos (of_decide_eq_true hp)).symm
      · exact (if_neg (of_decide_eq_false hn)).symm
      · exact ⟨(if_pos (of_decide_eq_true hp)).symm,
          ⟨rfl, rfl, rfl, rfl, rfl⟩, rfl⟩
      · exact ⟨(if_neg (of_decide_eq_false hn)).symm,
          SameQuestion.refl i, rfl⟩
  | expireStalled =>
      injection h with h
      subst h
      refine
        { sessions := Table.ColumnMoves.updateWhere db.sessions
            (fun s hp => ?_) (fun s hn => ?_)
          interrupts := Table.Evolves.updateWhere_cases db.interrupts
            (fun i hp => ?_) (fun i hn => ?_) }
      · exact (if_pos (of_decide_eq_true hp)).symm
      · exact (if_neg (of_decide_eq_false hn)).symm
      · exact ⟨(if_pos hp).symm, ⟨rfl, rfl, rfl, rfl, rfl⟩, rfl⟩
      · exact ⟨(if_neg (by rw [hn]; decide)).symm,
          SameQuestion.refl i, rfl⟩
  | postMessage sid content index msgId rid =>
      obtain ⟨_, _, _, _, runs, -, hs, hruns, rfl⟩ := postMessage_ok h
      exact
        { sessions := hs.pause
          runs := Table.ColumnMoves.insert (fun _ => rfl) hruns rfl }
  | handleReminder sid message wake payload index msgId rid =>
      obtain ⟨_, _, hs, ⟨-, rfl⟩ | ⟨-, _, runs, -, hruns, rfl⟩⟩ :=
        handleReminder_ok h
      · exact { sessions := hs.pause }
      · exact
          { sessions := hs.pause
            runs := Table.ColumnMoves.insert (fun _ => rfl) hruns rfl }
  | replay sid fromRun step ctx cp childId rid hex =>
      obtain ⟨parent, _, sessions, runs, -, hs, hr, rfl⟩ := replay_ok h
      exact
        { runs := Table.ColumnMoves.insert (fun _ => rfl) hr rfl
          sessions := Table.ColumnMoves.insert (fun _ => rfl) hs rfl }
  | cancelActiveRun sid locked =>
      injection h with h
      subst h
      refine
        { runs := Table.ColumnMoves.updateWhere db.runs (fun r hp => ?_)
            (fun r hn => ?_)
          sessions := Table.ColumnMoves.updateWhere db.sessions
            (fun s hp => ?_) (fun s hn => ?_) }
      · exact (if_pos (of_decide_eq_true hp)).symm
      · exact (if_neg (of_decide_eq_false hn)).symm
      · exact (if_pos (of_decide_eq_true hp)).symm
      · exact (if_neg (of_decide_eq_false hn)).symm
  | archiveSession sid =>
      injection h with h
      subst h
      refine
        { sessions := Table.ColumnMoves.updateWhere db.sessions
            (fun s hp => ?_) (fun s hn => ?_) }
      · exact (if_pos (of_decide_eq_true hp)).symm
      · exact (if_neg (of_decide_eq_false hn)).symm

/-- Only a retry moves a failed job to `ready`. -/
theorem jobMove_retry {j : Uuid}
    (h : tx.jobMove now db j .failed .ready) :
    ∃ job, tx = .retry job ∧ job.id = j := by
  cases tx with
  | retry job => exact ⟨job, rfl, h.1.symm⟩
  | reapStuck =>
      rcases h with ⟨h, -⟩ | ⟨h, -⟩
      · cases h
      · cases h
  | upsert mapped owner itemId jobId ids => cases h.1
  | dispatchOnce limit locked => cases h.2.1
  | cancel job reason => cases h.2.2
  | archive job => cases h.2.2
  | markFailed k f error errorKind => cases h.2.2
  | startPipeline k sid rid hex => cases h.2.2
  | resumeTransition rid => cases h.2.2
  | finalizeJob sid rid => cases h.2.2
  | failJob rid exc => cases h.2.2
  | pauseJob sid rid => cases h.2.2
  | _ => cases h

/-- A job enters `processing` at a start, or when a run of one of its
sessions is resumed. -/
theorem jobMove_processing {k : Uuid} {f : JobState}
    (h : tx.jobMove now db k f .processing) :
    (∃ sid rid hex, tx = .startPipeline k sid rid hex)
      ∨ ∃ rid, tx = .resumeTransition rid
        ∧ (sessionOf db rid).bind (jobOf db) = some k := by
  cases tx with
  | startPipeline j sid rid hex =>
      obtain ⟨rfl, -, -⟩ := h
      exact Or.inl ⟨sid, rid, hex, rfl⟩
  | resumeTransition rid => exact Or.inr ⟨rid, rfl, h.1.2⟩
  | reapStuck =>
      rcases h with ⟨-, h⟩ | ⟨-, h⟩
      · cases h
      · cases h
  | upsert mapped owner itemId jobId ids => cases h.2
  | dispatchOnce limit locked => cases h.2.2
  | retry job => cases h.2.2
  | cancel job reason => cases h.2.2
  | archive job => cases h.2.2
  | markFailed j f error errorKind => cases h.2.2
  | finalizeJob sid rid => cases h.2.2
  | failJob rid exc => cases h.2.2
  | pauseJob sid rid => cases h.2.2
  | _ => cases h

end LegalBot
