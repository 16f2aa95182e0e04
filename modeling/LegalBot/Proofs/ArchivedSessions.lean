/-
Archived sessions.

Five transactions besides `archive` set `session.status`: the mark of a
run, the opening, the resolution and the expiry of an interrupt, and the
cancellation. None of them looks at the status it replaces, so each of
them takes an archived session out of its archive (`Tx.SetsStatus`), and
the next follow-up is accepted on it. `SparesArchived` says that none of
them does; it is exact (`keepsArchived_iff`).

A follow-up is accepted by a check that reads the status and holds no
lock. A request that passed it before the archive committed still
inserts its message; `archived_stays` is about states in which no
request has passed the check on the session, and no later one does.
-/
import LegalBot.Orchestrator.Pending

namespace LegalBot

open Relational (HasKey Table)

-- ============================================================== statements

/-- The session is archived. -/
def Archived (db : Db) (sid : Uuid) : Prop :=
  ∃ session, db.sessions.get sid = some session
    ∧ session.status = .archived

/-- The session whose check a follow-up request has passed. -/
def Pc.acceptedOn : Pc → Option Uuid
  | .handler (.postMessageIndex sid _) => some sid
  | .handler (.postMessageInsert sid _ _) => some sid
  | _ => none

/-- The sessions to which a transaction gives another status than
`archived`. -/
def Tx.SetsStatus (now : Time) (db : Db) (tx : Tx) (sid : Uuid) : Prop :=
  match tx with
  | .markRunStatus rid _ => some sid = sessionOf db rid
  | .openInterrupt _ sid' _ _ _ _ => sid = sid'
  | .resolve sid' _ _ _ _ => sid = sid'
  | .expireStalled => sid ∈ stalledSessions now db
  | .cancelActiveRun sid' _ => sid = sid'
  | _ => False

instance (now : Time) (db : Db) (tx : Tx) :
    DecidablePred (tx.SetsStatus now db) := fun sid => by
  dsimp only [Tx.SetsStatus]
  induction tx using Tx.casesOn <;> infer_instance

/-- No transaction takes a session out of the archive. -/
def SparesArchived (env : Env) (a : Action) (s : State) : Prop :=
  ∀ session ∈ s.db.sessions.rows, session.status = .archived →
    ∀ tx ∈ committing env a s, ¬ tx.SetsStatus s.now s.db session.id

instance (env : Env) (a : Action) (s : State) :
    Decidable (SparesArchived env a s) := by
  unfold SparesArchived
  infer_instance

-- ==================================================================== step

section Step

variable {env : Env} {a : Action} {s s' : State} {sid : Uuid}

/-- What a transaction leaves on an archived session. -/
theorem pause_of_archived {now : Time} {db : Db} {tx : Tx} {r : Session}
    (harch : r.status = .archived) :
    (tx.pause now db r).1 = .archived ↔ ¬ tx.SetsStatus now db r.id := by
  unfold Tx.pause Tx.SetsStatus Session.pause
  cases tx with
  | markRunStatus rid st =>
      simp only
      split
      · rename_i hs
        simp only [hs, not_true_eq_false, iff_false]
        split
        · exact fun h => by cases h
        · exact fun h => by cases h
      · rename_i hs
        simp [hs, harch]
  | archiveSession sid =>
      simp only [not_false_eq_true, iff_true]
      split
      · rfl
      · exact harch
  | openInterrupt id sid rid kind payload schema =>
      simp only
      split
      · rename_i hs
        simp [hs]
      · rename_i hs
        simp [hs, harch]
  | resolve sid current resolution resolvedBy iid =>
      simp only
      split
      · rename_i hs
        simp [hs]
      · rename_i hs
        simp [hs, harch]
  | expireStalled =>
      simp only
      split
      · rename_i hs
        simp [hs]
      · rename_i hs
        simp [hs, harch]
  | cancelActiveRun sid locked =>
      simp only
      split
      · rename_i hs
        simp [hs]
      · rename_i hs
        simp [hs, harch]
  | _ => simp [harch]

/-- A step that meets the condition keeps the archive. -/
theorem SparesArchived.archived (hg : SparesArchived env a s)
    (hstep : apply env a s = some s') (h : Archived s.db sid) :
    Archived s'.db sid := by
  obtain ⟨session, hsession, harch⟩ := h
  obtain ⟨hmem, hid⟩ := Table.get_some hsession
  rcases apply_db hstep with ⟨hdb, -⟩ | ⟨tx, htx, ⟨hdb, -⟩ | ⟨hc, -⟩⟩
  · exact ⟨session, by rw [hdb, hsession], harch⟩
  · exact ⟨session, by rw [hdb, hsession], harch⟩
  · obtain ⟨session', hsession', hpause⟩ :=
      (commit_effects hc).sessions.persists hsession
    refine ⟨session', hsession', ?_⟩
    have hspared : ¬ tx.SetsStatus s.now s.db session.id :=
      hg session hmem harch tx htx
    have hstatus : session'.status = (tx.pause s.now s.db session).1 :=
      congrArg Prod.fst hpause
    rw [hstatus]
    exact (pause_of_archived harch).mpr hspared

/-- The condition is exact for a transaction that commits. -/
theorem keepsArchived_iff (hstep : apply env a s = some s') {tx : Tx}
    (htx : committing env a s = some tx)
    (hc : tx.commit env.cfg s.now s.db = .ok s'.db) :
    (∀ sid, Archived s.db sid → Archived s'.db sid)
      ↔ SparesArchived env a s := by
  refine ⟨fun h session hmem harch tx' htx' => ?_,
    fun hg sid => hg.archived hstep⟩
  rw [htx, Option.mem_some_iff] at htx'
  subst htx'
  have hsession : s.db.sessions.get session.id = some session :=
    Table.get_of_mem hmem
  obtain ⟨session', hsession', harch'⟩ :=
    h session.id ⟨session, hsession, harch⟩
  obtain ⟨session₁, hsession₁, hpause⟩ :=
    (commit_effects hc).sessions.persists hsession
  rw [hsession'] at hsession₁
  injection hsession₁ with hsession₁
  subst hsession₁
  refine (pause_of_archived harch).mp ?_
  rw [← hpause]
  exact harch'

-- ============================================================== follow-ups

theorem acceptedOn_some {pc : Pc} (h : pc.acceptedOn = some sid) :
    (∃ content, pc = .handler (.postMessageIndex sid content))
      ∨ ∃ content index,
        pc = .handler (.postMessageInsert sid content index) := by
  unfold Pc.acceptedOn at h
  split at h
  · rename_i sid₀ content
    injection h with h
    exact Or.inl ⟨content, by rw [h]⟩
  · rename_i sid₀ content index
    injection h with h
    exact Or.inr ⟨content, index, by rw [h]⟩
  · cases h

/-- Past the check a request is at an inner point. -/
theorem acceptedOn_inner {pc : Pc} (h : pc.acceptedOn = some sid) :
    ∃ hd, pc = .handler hd ∧ hd.isEntry = false ∧ hd ≠ .done := by
  rcases acceptedOn_some h with ⟨content, rfl⟩ | ⟨content, index, rfl⟩
  · exact ⟨_, rfl, rfl, Handler.noConfusion⟩
  · exact ⟨_, rfl, rfl, Handler.noConfusion⟩

/-- A request passes the check on a session that is not archived. -/
theorem Handler.request_accepted {now : Time} {db : Db}
    {inFlight : Finset Uuid} {reply : Reply} {hd : Handler}
    {r : Request Handler} {run : Tx → Except TxError Db}
    (hr : hd.request env now db inFlight reply = some r)
    (hl : (Pc.handler (r.landing run)).acceptedOn = some sid) :
    (Pc.handler hd).acceptedOn = some sid ∨ ¬ Archived db sid := by
  rcases acceptedOn_some hl with ⟨content, hpc⟩ | ⟨content, index, hpc⟩
  · injection hpc with hpc
    obtain ⟨-, session, hsession, hok⟩ :=
      Handler.request_postMessageIndex hr hpc
    refine Or.inr ?_
    rintro ⟨session', hsession', harch⟩
    rw [hsession] at hsession'
    injection hsession' with hsession'
    unfold ensureAcceptingMessages at hok
    rw [hsession', if_pos harch] at hok
    cases hok
  · injection hpc with hpc
    obtain ⟨rfl, -⟩ := Handler.request_postMessageInsert hr hpc
    exact Or.inl rfl

/-- An actor past the check on a session that is archived was past it
before the step. -/
theorem accepted_before (hstep : apply env a s = some s')
    (harch : Archived s.db sid) {tid : Nat}
    (h : (s'.tasks tid).pc.acceptedOn = some sid) :
    (s.tasks tid).pc.acceptedOn = some sid := by
  obtain ⟨hd, hpc, hinner, hdone⟩ := acceptedOn_inner h
  rcases apply_handler hstep hpc hinner hdone with
    heq | ⟨reply, hd₀, r, -, hpc₀, hr, -, -, hl⟩
  · rw [← heq]
    exact h
  · rw [hpc, ← hl] at h
    rw [hpc₀]
    exact (Handler.request_accepted hr h).resolve_right
      (not_not.mpr harch)

/-- A follow-up is posted by a request that has passed the check. -/
theorem accepted_of_posting {content : String} {index : Int}
    {msgId runId : Uuid}
    (h : committing env a s
      = some (.postMessage sid content index msgId runId)) :
    ∃ tid, (s.tasks tid).pc.acceptedOn = some sid := by
  obtain ⟨tid, reply, hd, ok, raised, -, hpc, hr⟩ :=
    committing_handler h rfl
  refine ⟨tid, ?_⟩
  rw [hpc]
  cases hd with
  | postMessageInsert sid₀ content₀ index₀ =>
      simp only [Handler.request] at hr
      split at hr
      · cases hr
        rfl
      · cases hr
  | _ =>
      unfold Handler.request at hr
      grind

end Step

-- ===================================================================== runs

/-- From a state in which a session is archived and no request has passed
the check on it, in every run whose transactions spare the archive, the
session stays archived and no follow-up is posted on it. -/
theorem archived_stays {env : Env} {s s' : State} {sid : Uuid}
    (harch : Archived s.db sid)
    (hclear : ∀ tid, (s.tasks tid).pc.acceptedOn ≠ some sid)
    (h : Lts.Reachable (apply env) (SparesArchived env) s s') :
    Archived s'.db sid
      ∧ ∀ a content index msgId runId, committing env a s'
        ≠ some (.postMessage sid content index msgId runId) := by
  have hinv : Archived s'.db sid
      ∧ ∀ tid, (s'.tasks tid).pc.acceptedOn ≠ some sid := by
    refine Lts.Reachable.invariant (P := fun s' => Archived s'.db sid
      ∧ ∀ tid, (s'.tasks tid).pc.acceptedOn ≠ some sid)
      ⟨harch, hclear⟩ ?_ h
    intro s₁ a s₂ _ hinv hg hstep
    refine ⟨hg.archived hstep hinv.1, fun tid htid => ?_⟩
    exact hinv.2 tid (accepted_before hstep hinv.1 htid)
  refine ⟨hinv.1, fun a content index msgId runId hpost => ?_⟩
  obtain ⟨tid, htid⟩ := accepted_of_posting hpost
  exact hinv.2 tid htid

-- =============================================================== scenarios

/-- Run 11 is in the graph when session 10 is archived. -/
def archivedInGraph : List Action :=
  firstStart ++
  [.advance 1 .ok, .advance 1 .ok, .advance 1 .ok,
    .start 2 (.archiveSession 10), .advance 2 .ok]

/-- Session 10 is archived then, and nobody has passed its check. -/
theorem archivedInGraph_reached : ∃ s,
    Lts.run (apply Env.default) State.init archivedInGraph = some s
      ∧ Archived s.db 10
      ∧ ∀ tid, (s.tasks tid).pc.acceptedOn ≠ some 10 := by
  obtain ⟨s, hs⟩ := Option.isSome_iff_exists.mp
    (show (Lts.run (apply Env.default) State.init archivedInGraph).isSome by
      decide +kernel)
  have hstatus : ((Lts.run (apply Env.default) State.init
      archivedInGraph).bind fun s =>
        (s.db.sessions.get 10).map (·.status)) = some .archived := by
    decide +kernel
  have hpcs : ((Lts.run (apply Env.default) State.init
      archivedInGraph).map fun s =>
        (List.range 3).all fun tid =>
          (s.tasks tid).pc.acceptedOn = none) = some true := by
    decide +kernel
  rw [hs] at hstatus hpcs
  refine ⟨s, hs, Option.map_eq_some_iff.mp hstatus, fun tid hacc => ?_⟩
  by_cases ht : tid < 3
  · have hnone := of_decide_eq_true (List.all_eq_true.mp
      (Option.some.inj hpcs) tid (List.mem_range.mpr ht))
    rw [hnone] at hacc
    cases hacc
  · -- the other actors have not started
    have hidle := run_idle hs (by decide) (fun _ _ => rfl) tid
      (Nat.le_of_not_lt ht)
    rcases acceptedOn_some hacc with ⟨_, hpc⟩ | ⟨_, _, hpc⟩
    · rw [hpc] at hidle
      cases hidle
    · rw [hpc] at hidle
      cases hidle

/-- The worker crashes, and a follow-up is refused. -/
theorem crashed_run_stays_archived : ∃ s s',
    Lts.run (apply Env.default) State.init archivedInGraph = some s
      ∧ Lts.run (Lts.guarded (apply Env.default)
          (SparesArchived Env.default)) s
          [.crash 1, .start 2 (.postMessage 10 "hi"), .advance 2 .ok]
          = some s'
      ∧ Archived s'.db 10
      ∧ ∀ a content index msgId runId, committing Env.default a s'
        ≠ some (.postMessage 10 content index msgId runId) := by
  obtain ⟨s, hs, harch, hclear⟩ := archivedInGraph_reached
  have hnext : ((Lts.run (apply Env.default) State.init
      archivedInGraph).bind fun s =>
        Lts.run (Lts.guarded (apply Env.default)
          (SparesArchived Env.default)) s
          [.crash 1, .start 2 (.postMessage 10 "hi"),
            .advance 2 .ok]).isSome := by decide +kernel
  rw [hs] at hnext
  obtain ⟨s', hs'⟩ := Option.isSome_iff_exists.mp hnext
  exact ⟨s, s', hs, hs', archived_stays harch hclear
    (Lts.reachable_of_guarded_run .init hs')⟩

/-- The graph returns and the run completes. -/
def completesArchived : List Action :=
  [.advance 1 (.output ⟨[], none⟩), .advance 1 (.fresh [] ""),
    .advance 1 (.interrupts []), .advance 1 .ok]

/-- Its mark makes the archived session idle again. -/
theorem completed_run_unarchives :
    ¬ ∀ s s' sid, Reaches Env.default Lts.Always s →
      Archived s.db sid →
      (∀ tid, (s.tasks tid).pc.acceptedOn ≠ some sid) →
      Lts.Reachable (apply Env.default) Lts.Always s s' →
      Archived s'.db sid
        ∧ ∀ a content index msgId runId, committing Env.default a s'
          ≠ some (.postMessage sid content index msgId runId) := by
  intro h
  obtain ⟨s, hs, harch, hclear⟩ := archivedInGraph_reached
  have hafter : (((Lts.run (apply Env.default) State.init
      archivedInGraph).bind fun s =>
        Lts.run (apply Env.default) s completesArchived).bind fun s' =>
          (s'.db.sessions.get 10).map (·.status)) = some .idle := by
    decide +kernel
  rw [hs, Option.bind_some] at hafter
  obtain ⟨s', hs', hidle⟩ := Option.bind_eq_some_iff.mp hafter
  obtain ⟨⟨session, hsession, hstatus⟩, -⟩ :=
    h s s' 10 (Lts.reachable_of_run .init hs) harch hclear
      (Lts.reachable_of_run .init hs')
  rw [hsession, Option.map_some, hstatus] at hidle
  cases hidle

end LegalBot
