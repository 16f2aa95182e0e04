/-
Run, session and request agree on a pause.

`_mark_run_status` and `InterruptService.open` are two transactions, and
follow-up runs, resolutions, expiry and the session operations write
parts of the same three rows.

# What goes wrong

- The second reading of the checkpoint fails, finds no dict, or finds a
  request of another run pending: the run stays `awaiting_human` without
  a request of its own.
- A follow-up run ends, or `cancel_active_run` or `archive` runs, while a
  request is pending: the session is no longer `awaiting_human`.
- Two requests are pending on one session, and one of them is resolved.
- A request expires: its run stays `awaiting_human`.
- The `resume_run` of a resolved request is lost.

# The invariant

`Paused` holds between any two steps: a pending request is its session's
active one, and a run that waits without a request is owed
(`Orchestrator/Owed.lean`). `KeepsPauses` excludes the cases above, step
by step.
-/
import LegalBot.Orchestrator.Owed

namespace LegalBot

open Relational (HasKey Table)

-- ============================================================== statements

/-- Run, session and request agree: a run that waits for a human between
its worker tasks has one request, which is its session's active one; and
a session with a pending request waits for a human. -/
structure PauseAgrees (s : State) : Prop where
  asked : ∀ {rid run}, s.db.runs.get rid = some run →
    run.status = .awaitingHuman → ¬ s.Busy rid →
    ∃ i session, Asks s.db rid i ∧ (∀ i', Asks s.db rid i' → i' = i)
      ∧ s.db.sessions.get run.sessionId = some session
      ∧ session.pause = (.awaitingHuman, some i.id)
  paused : ∀ {i}, s.db.interrupts.get i.id = some i →
    i.status = .pending → ∃ session,
      s.db.sessions.get i.sessionId = some session
        ∧ session.status = .awaitingHuman

/-- The run waits for a human and has no request. -/
def Unasked (db : Db) (rid : Uuid) : Prop :=
  runStatus db rid = some .awaitingHuman ∧ ∀ i, ¬ Asks db rid i

/-- The transaction leaves the pause of every session as its pending
request has it, and expires no request a run waits for. -/
def Tx.KeepsPause (now : Time) (db : Db) : Tx → Prop
  | .markRunStatus rid st => st.val = .awaitingHuman
      ∨ ∀ sid ∈ sessionOf db rid,
        currentForSession db.interrupts sid = none
  | .openInterrupt _ sid _ _ _ _ | .cancelActiveRun sid _
  | .archiveSession sid => currentForSession db.interrupts sid = none
  | .resolve sid current _ _ _ => ∀ i ∈ db.interrupts.rows,
      i.sessionId = sid → i.status = .pending → i.id = current.id
  | .expireStalled => ∀ i ∈ db.interrupts.rows, isStalled now i = true →
      ∀ rid ∈ i.runId, LegalBot.runStatus db rid ≠ some .awaitingHuman
  | _ => True

/-- The condition on a step. -/
structure KeepsPauses (env : Env) (a : Action) (s : State) : Prop where
  commits : ∀ tx ∈ committing env a s, tx.KeepsPause s.now s.db
  works : ∀ rid, Unasked s.db rid → KeepsWork rid a s

-- =========================================================== the invariant

/-- What holds between any two steps. -/
structure Paused (s : State) : Prop where
  active : ∀ {i}, s.db.interrupts.get i.id = some i →
    i.status = .pending → ∃ session,
      s.db.sessions.get i.sessionId = some session
        ∧ session.pause = (.awaitingHuman, some i.id)
  owed : ∀ {rid}, Unasked s.db rid → s.Owed rid

section Agreement

variable {s : State}

/-- Between its worker tasks a run is not owed, so it has a request. -/
theorem Paused.agrees (h : Paused s) (hl : RequestsLinked s.db) :
    PauseAgrees s := by
  refine ⟨fun {rid run} hrun hst hidle => ?_, fun hi hp => ?_⟩
  · have hasks : ∃ i, Asks s.db rid i := by
      by_contra hno
      refine hidle (busy_of_owed (h.owed ⟨?_, not_exists.mp hno⟩))
      unfold runStatus
      rw [hrun, ← hst]
      rfl
    obtain ⟨i, hi⟩ := hasks
    -- every request of the run is the active one of the run's session
    have hactive : ∀ i', Asks s.db rid i' → ∃ session,
        s.db.sessions.get run.sessionId = some session
          ∧ session.pause = (.awaitingHuman, some i'.id) := by
      intro i' hi'
      obtain ⟨run', hrun', hsid⟩ := hl hi'.stored rid hi'.runId
      rw [hrun] at hrun'
      injection hrun' with hrun'
      rw [hrun', hsid]
      exact h.active hi'.stored hi'.pending
    obtain ⟨session, hsession, hpause⟩ := hactive i hi
    refine ⟨i, session, hi, fun i' hi' => ?_, hsession, hpause⟩
    obtain ⟨session', hsession', hpause'⟩ := hactive i' hi'
    rw [hsession] at hsession'
    injection hsession' with hsession'
    rw [← hsession', hpause] at hpause'
    injection hpause' with _ hid
    injection hid with hid
    have hget := hi'.stored
    rw [← hid, hi.stored] at hget
    injection hget with hget
    exact hget.symm
  · obtain ⟨session, hsession, hpause⟩ := h.active hi hp
    exact ⟨session, hsession, congrArg Prod.fst hpause⟩

end Agreement

-- ================================================================ sessions

section Sessions

variable {cfg : Settings} {now : Time} {db db' : Db} {tx : Tx}
  {i : InterruptRequest} {session : Session}

/-- A transaction that meets the condition leaves the pause of a session
whose request stays pending. -/
theorem pause_kept (hg : tx.KeepsPause now db)
    (hi : db.interrupts.get i.id = some i)
    (hst : tx.interruptStatus now i = .pending)
    (hactive : ∀ {j}, db.interrupts.get j.id = some j →
      j.status = .pending → j.sessionId = session.id → j.id = i.id)
    (hsid : i.sessionId = session.id)
    (hpause : session.pause = (.awaitingHuman, some i.id)) :
    tx.pause now db session = (.awaitingHuman, some i.id) := by
  obtain ⟨hp, hresolve, hexpire⟩ := interruptStatus_pending hst
  -- the request makes the session's pending set nonempty
  have hsome : currentForSession db.interrupts session.id ≠ none :=
    fun hnone => currentForSession_none.mp hnone _ i hi hsid hp
  cases tx with
  | markRunStatus rid st =>
      unfold Tx.pause
      simp only
      split
      · rename_i hrid
        rcases hg with hst' | hnone
        · rw [if_pos hst']
          exact congrArg (Prod.mk _) (congrArg Prod.snd hpause)
        · exact absurd (hnone session.id hrid.symm) hsome
      · exact hpause
  | openInterrupt id sid rid kind payload schema =>
      unfold Tx.pause
      simp only
      split
      · rename_i he
        exact absurd (he ▸ hg) hsome
      · exact hpause
  | resolve sid current resolution by' iid =>
      unfold Tx.pause
      simp only
      split
      · rename_i he
        refine absurd ?_ (hresolve _ _ _ _ _ rfl)
        exact hg i (Table.get_some hi).1 (hsid.trans he) hp
      · exact hpause
  | expireStalled =>
      unfold Tx.pause
      simp only
      split
      · rename_i hmem
        -- the stalled request of the session would be this one
        obtain ⟨j, hj, hjsid⟩ := List.mem_map.mp hmem
        obtain ⟨hrow, hstalled⟩ := List.mem_filter.mp hj
        have hjp : j.status = .pending := by
          unfold isStalled at hstalled
          simpa using (of_decide_eq_true hstalled).1
        have hget := Table.get_of_mem hrow
        have hid : j.id = i.id := hactive hget hjp hjsid
        have hsame : db.interrupts.get i.id = some j := hid ▸ hget
        rw [hi] at hsame
        injection hsame with hsame
        rw [← hsame, hexpire rfl] at hstalled
        cases hstalled
      · exact hpause
  | cancelActiveRun sid locked =>
      unfold Tx.pause
      simp only
      split
      · rename_i he
        exact absurd (he ▸ hg) hsome
      · exact hpause
  | archiveSession sid =>
      unfold Tx.pause
      simp only
      split
      · rename_i he
        exact absurd (he ▸ hg) hsome
      · exact hpause
  | _ => exact hpause

end Sessions

-- ================================================================== a step

section Step

variable {env : Env} {G : Action → State → Prop} {s s' : State}
  {a : Action}

theorem Paused.active_step (h : Paused s) (hr : Reaches env G s)
    (hg : KeepsPauses env a s) (hstep : apply env a s = some s')
    {i' : InterruptRequest} (hi' : s'.db.interrupts.get i'.id = some i')
    (hp : i'.status = .pending) :
    ∃ session, s'.db.sessions.get i'.sessionId = some session
      ∧ session.pause = (.awaitingHuman, some i'.id) := by
  rcases apply_effects hstep with hdb | ⟨tx, htx, hc⟩
  · rw [hdb] at hi' ⊢
    exact h.active hi' hp
  have he := commit_effects hc
  rcases he.interrupts.origin hi' with ⟨i, hi, hmove⟩ | ⟨-, ho⟩
  · have hid := hmove.same.id
    rw [hid] at hi
    have hst : tx.interruptStatus s.now i = .pending :=
      hmove.status.symm.trans hp
    have hbefore := (interruptStatus_pending hst).1
    obtain ⟨session, hsession, hpause⟩ := h.active hi hbefore
    have hsid : i.sessionId = session.id :=
      (Table.key_of_get hsession).symm
    obtain ⟨session', hsession', hmoved⟩ := he.sessions.persists hsession
    refine ⟨session', ?_, ?_⟩
    · rw [hmove.same.sessionId]
      exact hsession'
    · rw [hmoved, hid]
      refine pause_kept (hg.commits tx htx) hi hst ?_ hsid hpause
      -- a session has one active request
      intro j hj hjp hjsid
      obtain ⟨session₁, hsession₁, hpause₁⟩ := h.active hj hjp
      rw [hjsid, ← hsid, hsession] at hsession₁
      injection hsession₁ with hsession₁
      rw [← hsession₁, hpause] at hpause₁
      injection hpause₁ with _ hactive
      injection hactive with hactive
      exact hactive.symm
  · obtain ⟨⟨kind, payload, schema, rfl⟩, run, session, -, -, -,
      hsession⟩ := opens_linked hr htx ho
    obtain ⟨session', hsession', hmoved⟩ := he.sessions.persists hsession
    refine ⟨session', hsession', hmoved.trans ?_⟩
    exact if_pos (Table.key_of_get hsession)

/-- A run that comes to wait is marked by its call, which then looks for
the request. -/
theorem owed_of_marked {tx : Tx} {rid : Uuid}
    (hstep : apply env a s = some s') (htx : committing env a s = some tx)
    (hc : tx.commit env.cfg s.now s.db = .ok s'.db)
    (hbefore : runStatus s.db rid ≠ some .awaitingHuman)
    (hafter : runStatus s'.db rid = some .awaitingHuman) :
    s'.Owed rid := by
  have he := commit_effects hc
  obtain ⟨run', hrun', hst'⟩ := Option.map_eq_some_iff.mp hafter
  rcases he.runs.origin hrun' with ⟨run, hrun, hmove⟩ | ⟨-, hnew⟩
  · have hid : run.id = rid := Table.key_of_get hrun
    have hne : run.status ≠ .awaitingHuman := by
      intro hst
      apply hbefore
      unfold runStatus
      rw [hrun, ← hst]
      rfl
    rw [hst'] at hmove
    cases tx with
    | markRunStatus k st =>
        unfold Tx.runStatus at hmove
        simp only at hmove
        split at hmove
        · rename_i hk
          obtain ⟨tid, reply, ok, raised, rfl, hreq⟩ :=
            committing_request htx
          obtain ⟨inv, slot, stage, ok₀, raised₀, hpc, hr₀, rfl⟩ :=
            request_call_commit hreq rfl
          obtain ⟨rfl, rfl⟩ := Stage.request_pause hr₀ hmove.symm
          refine Or.inr ⟨tid, ?_⟩
          rw [committed_pc hstep hreq hc]
          exact congrArg some (hk.symm.trans hid)
        · exact absurd hmove.symm hne
    | cancelActiveRun sid locked =>
        unfold Tx.runStatus at hmove
        simp only at hmove
        split at hmove
        · cases hmove
        · exact absurd hmove.symm hne
    | _ => exact absurd hmove.symm hne
  · rw [hst'] at hnew
    cases hnew

/-- A request a run waits for is only ever resolved, and then its run is
about to be resumed. -/
theorem owed_of_answered {rid : Uuid} {i : InterruptRequest}
    (hr : Reaches env G s) (hg : KeepsPauses env a s)
    (hstep : apply env a s = some s')
    (hwaits : runStatus s.db rid = some .awaitingHuman)
    (hi : Asks s.db rid i) (hno : ∀ i', ¬ Asks s'.db rid i') :
    s'.Owed rid := by
  rcases asks_step hr hstep hi with
    ⟨i', hi'⟩ | ⟨tid, value, k, hpc⟩ | ⟨htx, hst⟩
  · exact absurd hi' (hno i')
  · refine Or.inr ⟨tid, ?_⟩
    rw [hpc]
    rfl
  · exact absurd hwaits (hg.commits _ htx i
      (Table.get_some hi.stored).1 hst rid hi.runId)

theorem Paused.owed_step (h : Paused s) (hr : Reaches env G s)
    (hg : KeepsPauses env a s) (hstep : apply env a s = some s')
    {rid : Uuid} (hu : Unasked s'.db rid) : s'.Owed rid := by
  by_cases hbefore : Unasked s.db rid
  · obtain ⟨run, hrun, -⟩ := Option.map_eq_some_iff.mp hbefore.1
    rcases LegalBot.owed_step hr hstep hrun (hg.works rid hbefore)
      (h.owed hbefore) with ho | ⟨tx, htx, hc, hrec⟩
    · exact ho
    -- a transaction that settles the run makes it asked, or not waiting
    have he := commit_effects hc
    cases hrec with
    | marked st hst =>
        obtain ⟨run', hrun', hmove⟩ := he.runs.persists hrun
        obtain ⟨run₁, hrun₁, hst₁⟩ := Option.map_eq_some_iff.mp hu.1
        rw [hrun'] at hrun₁
        injection hrun₁ with hrun₁
        have hid : run.id = rid := Table.key_of_get hrun
        rw [hrun₁, hst₁] at hmove
        exact absurd (hmove.trans (if_pos hid)).symm hst
    | asked id sid kind payload schema =>
        obtain ⟨interrupts, hins, hdb⟩ :=
          Option.map_eq_some_iff.mp (flushed_ok.mp hc)
        refine absurd ⟨?_, rfl, rfl⟩ (hu.2 (newInterrupt env.cfg id sid
          (some rid) kind payload schema none s.now))
        rw [← hdb]
        exact (Table.get_insert hins _).trans (if_pos rfl)
  · rcases apply_effects hstep with hdb | ⟨tx, htx, hc⟩
    · rw [hdb] at hu
      exact absurd hu hbefore
    by_cases hwaits : runStatus s.db rid = some .awaitingHuman
    · have hasked : ∃ i, Asks s.db rid i := by
        by_contra hno
        exact hbefore ⟨hwaits, not_exists.mp hno⟩
      obtain ⟨i, hi⟩ := hasked
      exact owed_of_answered hr hg hstep hwaits hi hu.2
    · exact owed_of_marked hstep htx hc hwaits hu.1

/-- Every step that meets the condition keeps the invariant. -/
theorem reaches_paused (h : Reaches env (KeepsPauses env) s) :
    Paused s := by
  refine Lts.Reachable.invariant (P := Paused) ?_ ?_ h
  · refine ⟨fun hi => ?_, fun hu => ?_⟩
    · cases hi
    · cases hu.1
  · intro s a s' hr hp hg hstep
    exact ⟨hp.active_step hr hg hstep, hp.owed_step hr hg hstep⟩

end Step

/-- In every run whose steps all meet the condition, run, session and
request agree in every state reached. -/
theorem pauses_agree {env : Env} {s : State}
    (h : Reaches env (KeepsPauses env) s) : PauseAgrees s :=
  (reaches_paused h).agrees (reaches_requestsLinked h)

-- =============================================================== scenarios

instance (now : Time) (db : Db) (tx : Tx) :
    Decidable (tx.KeepsPause now db) := by
  dsimp only [Tx.KeepsPause]
  induction tx using Tx.casesOn <;> infer_instance

/-- No failure, and the pauses are kept. -/
def Undisturbed (env : Env) (a : Action) (s : State) : Prop :=
  (∀ tx ∈ committing env a s, tx.KeepsPause s.now s.db) ∧ Calm a s

instance (env : Env) (a : Action) (s : State) :
    Decidable (Undisturbed env a s) := by
  unfold Undisturbed
  infer_instance

theorem keepsPauses_of_undisturbed {env : Env} {a : Action} {s : State}
    (h : Undisturbed env a s) : KeepsPauses env a s :=
  ⟨h.1, fun _ _ => h.2.keepsWork⟩

/-- Run 11 waits for the answer to request 30. -/
theorem asked_agrees : ∃ s,
    Lts.run (Lts.guarded (apply Env.default) (Undisturbed Env.default))
      State.init asked = some s
    ∧ runStatus s.db 11 = some .awaitingHuman ∧ PauseAgrees s := by
  obtain ⟨s, hs⟩ := Option.isSome_iff_exists.mp
    (show (Lts.run (Lts.guarded (apply Env.default)
      (Undisturbed Env.default)) State.init asked).isSome by decide +kernel)
  have hwaits : (Lts.run (Lts.guarded (apply Env.default)
      (Undisturbed Env.default)) State.init asked).map
      (fun s => runStatus s.db 11) = some (some .awaitingHuman) := by
    decide +kernel
  rw [hs] at hwaits
  exact ⟨s, hs, Option.some.inj hwaits, pauses_agree
    ((Lts.reachable_of_guarded_run .init hs).mono fun _ _ =>
      keepsPauses_of_undisturbed)⟩

/-- The checkpoint of run 11 cannot be read a second time. -/
def unreadable : List Action :=
  firstStart ++
  [.advance 1 .ok, .advance 1 .ok, .advance 1 .ok,
    .advance 1 (.output ⟨[], none⟩), .advance 1 (.fresh [] ""),
    .advance 1 (.interrupts [.obj []]), .advance 1 .ok,
    .advance 1 (.raised "connection lost"), .advance 1 .ok,
    .advance 1 .ok, .advance 1 .ok]

/-- The run waits for a human, and nobody can answer. -/
theorem unreadable_disagrees :
    ¬ ∀ s, Reaches Env.default Lts.Always s → PauseAgrees s := by
  intro h
  obtain ⟨s, hs⟩ := Option.isSome_iff_exists.mp
    (show (Lts.run (apply Env.default) State.init unreadable).isSome by
      decide +kernel)
  have hend : (Lts.run (apply Env.default) State.init unreadable).map
      (fun s => (runStatus s.db 11, s.db.interrupts.rows.map (·.id),
        (List.range 2).all (fun tid => (s.tasks tid).pc.isIdle),
        (List.range s.sent.length).all (· ∈ s.acked)))
      = some (some .awaitingHuman, [], true, true) := by
    decide +kernel
  rw [hs] at hend
  injection hend with hend
  injection hend with hwaits hend
  injection hend with hnone hend
  injection hend with hidle hacked
  have hquiet : s.Quiet := quiet_of_run hs (by decide) hidle hacked
  obtain ⟨run, hrun, hst⟩ := Option.map_eq_some_iff.mp hwaits
  obtain ⟨i, -, hi, -⟩ := (h s (Lts.reachable_of_run .init hs)).asked hrun
    hst (hquiet.not_busy 11)
  -- there is no request at all
  have hmem : i.id ∈ s.db.interrupts.rows.map (·.id) :=
    List.mem_map_of_mem (Table.get_some hi.stored).1
  rw [hnone] at hmem
  cases hmem

end LegalBot
