/-
The worker tasks the outcome of a run still depends on.

An actor owes a run while it is about to publish a message that names
the run, at the entry of the task of such a message, or inside an
`_invoke_graph` call that has neither recorded an outcome nor opened an
interrupt. `owed_step` says that a run that is owed stays owed until its
call does one of the two, provided no answer makes the actor drop it
(`KeepsWork`).

# What drops a run

A publish that fails after its commit; `get_compiled_graph()` failing
before the `try`; a second reading of the checkpoint that finds no dict,
or a request of the session still pending; a crash whose message is not
delivered again.
-/
import LegalBot.Orchestrator.Pending

namespace LegalBot

open Relational (HasKey Table)

-- ============================================================== statements

/-- The run whose outcome depends on what the actor does next. -/
def Pc.owes : Pc → Option Uuid
  | .handler (.publish m) => m.run
  | .worker (.invoke inv _ stage) =>
      if stage.settled then none else some inv.runId
  | .worker w => w.run
  | _ => none

/-- A task that will settle the run is queued or executing. -/
def State.Owed (s : State) (rid : Uuid) : Prop :=
  (∃ m, m.run = some rid ∧ s.Queued m)
    ∨ ∃ tid, (s.tasks tid).pc.owes = some rid

/-- The second reading of the checkpoint leads to a new request. -/
def OpensRequest (db : Db) (sessionId : Uuid) (values : List Json) :
    Prop :=
  currentForSession db.interrupts sessionId = none
    ∧ ∃ members rest, values = .obj members :: rest

/-- The answer is no exception. -/
def Reply.Succeeds (reply : Reply) : Prop := ∀ e, reply ≠ .raised e

/-- The answer lets an actor go on with the run it owes. -/
def Pc.Pursues (db : Db) (reply : Reply) : Pc → Prop
  | .handler (.publish _) => reply.Succeeds
  | .worker (.invoke _ _ .prepare) => reply.Succeeds
  | .worker (.invoke inv _ .readInterrupts) => reply.Succeeds
      ∧ ∀ values, reply = .interrupts values →
        OpensRequest db inv.sessionId values
  | _ => True

/-- No step drops the run. -/
def KeepsWork (rid : Uuid) (a : Action) (s : State) : Prop :=
  match a with
  | .advance tid reply => (s.tasks tid).pc.owes = some rid →
      (s.tasks tid).pc.Pursues s.db reply
  | .crash tid => (s.tasks tid).pc.owes = some rid →
      ∃ m, m.run = some rid ∧ s.Redelivers tid m
  | _ => True

/-- A transaction that settles the run: its outcome, or its request. -/
inductive Tx.Records (rid : Uuid) : Tx → Prop
  | marked (st : MarkedStatus) (h : st.val ≠ .awaitingHuman) :
      Tx.Records rid (.markRunStatus rid st)
  | asked (id sid : Uuid) (kind : InterruptKind) (payload : Json)
      (schema : Option Json) :
      Tx.Records rid (.openInterrupt id sid (some rid) kind payload schema)

-- ================================================================= actors

section Owing

variable {env : Env} {s s' : State} {a : Action} {tid rid : Nat}
  {m : Message}

theorem Stage.settled_of_isOver {stage : Stage} (h : stage.isOver = true) :
    stage.settled = true := by
  cases stage with
  | returned ok => rfl
  | escaped => rfl
  | _ => cases h

/-- An actor that carries a message owes its run. -/
theorem owes_of_carries {pc : Pc} (h : pc.carries = some m)
    (hm : m.run = some rid) : pc.owes = some rid := by
  rcases carries_cases h with rfl | rfl
  · exact hm
  · cases m <;> exact hm

theorem owes_not_idle {pc : Pc} (h : pc.owes = some rid) :
    pc.isIdle = false := by
  cases pc with
  | handler hd =>
      cases hd with
      | publish m => rfl
      | _ => cases h
  | worker w =>
      cases w with
      | done => cases h
      | _ => rfl

/-- A message that waits owes its run. -/
theorem owed_of_waits (h : s.Waits m) (hm : m.run = some rid) :
    s.Owed rid := by
  rcases h with hq | ⟨tid, hc⟩
  · exact Or.inl ⟨m, hm, hq⟩
  · exact Or.inr ⟨tid, owes_of_carries hc hm⟩

/-- A run that is owed is not between its worker tasks. -/
theorem busy_of_owed (h : s.Owed rid) : s.Busy rid := by
  rcases h with ⟨m, hm, mid, hsent, hack, -⟩ | ⟨tid, ho⟩
  · exact Or.inl ⟨mid, m, hsent, hack, hm⟩
  · cases hpc : (s.tasks tid).pc with
    | handler hd =>
        rw [hpc] at ho
        cases hd with
        | publish m => exact Or.inr (Or.inl ⟨tid, m, hpc, ho⟩)
        | _ => cases ho
    | worker w =>
        rw [hpc] at ho
        refine Or.inr (Or.inr ⟨tid, w, hpc, ?_⟩)
        cases w with
        | invoke inv slot stage =>
            unfold Pc.owes at ho
            simp only at ho
            split at ho
            · cases ho
            · exact ho
        | _ => exact ho

end Owing

-- ================================================================== a step

section Step

variable {env : Env} {s s' : State} {a : Action} {tid rid : Nat}

/-- The reading of a request leads to its insert, or fails the run. -/
theorem opensRequest_pauses {db : Db} {sid : Uuid} {values : List Json}
    (h : OpensRequest db sid values) :
    persistInterrupt db sid values ≠ .pauseJob := by
  obtain ⟨hnone, members, rest, rfl⟩ := h
  unfold persistInterrupt
  rw [hnone]
  simp only [Option.isSome_none, Bool.false_eq_true, if_false]
  split
  · exact fun h => by cases h
  · exact fun h => by cases h

/-- Inside a call: it goes on, or a transaction settles the run. -/
theorem Stage.pursues {cfg : Settings} (now : Time) {db : Db}
    {reply : Reply} {inv : Invocation} {slot : Option Uuid}
    {stage : Stage} {r : Request Stage} {run : Run} {session : Session}
    (hr : stage.request cfg db inv reply = some r)
    (hs : stage.settled = false)
    (hp : (Pc.worker (.invoke inv slot stage)).Pursues db reply)
    (hrun : db.runs.get inv.runId = some run)
    (hsession : db.sessions.get inv.sessionId = some session) :
    (r.landing (Tx.commit cfg now db)).settled = false
      ∨ ∃ tx ok raised db', r = .commit tx ok raised
        ∧ tx.commit cfg now db = .ok db' ∧ tx.Records inv.runId := by
  have hset : (r.landing (Tx.commit cfg now db)).settled = false
      ∨ Settles db (Tx.commit cfg now db) inv stage reply r :=
    Stage.request_settles hr hs
  rcases hset with hgo | hend
  · exact Or.inl hgo
  cases hend with
  | lost _ h =>
      rcases h with ⟨e, rfl⟩ | hnone
      · exact absurd rfl (hp e)
      · rw [hsession] at hnone
        cases hnone
  | unread _ h =>
      rcases h with ⟨e, rfl⟩ | ⟨values, rfl, hpause⟩
      · exact absurd rfl (hp.1 e)
      · exact absurd hpause (opensRequest_pauses (hp.2 values rfl))
  | opened _ id kind payload schema db' hc =>
      exact Or.inr ⟨_, _, _, db', rfl, hc, .asked _ _ _ _ _⟩
  | completed _ db' hc =>
      exact Or.inr ⟨_, _, _, db', rfl, hc, .marked _ (fun h => by cases h)⟩
  | failed _ e =>
      obtain ⟨db', hc, -⟩ := markRunStatus_commits cfg now hrun .failed
      exact Or.inr ⟨_, _, _, db', rfl, hc, .marked _ (fun h => by cases h)⟩

/-- What the entry of a task that names a run does with it. -/
theorem Worker.entry_pursues {now : Time} {db : Db} {reply : Reply}
    (m : Message) {r : Request Worker} {run : Run} (hm : m.run = some rid)
    (hr : m.entry.request env db reply = some r)
    (hrun : db.runs.get rid = some run)
    (hcommit : ∃ db', resumeTransition db now rid = .ok db') :
    ∃ inv slot, inv.runId = rid
      ∧ r.landing (Tx.commit env.cfg now db) = .invoke inv slot .enter := by
  cases m with
  | continueSession k =>
      injection hm with hm
      subst hm
      simp only [Message.entry, Worker.request, hrun] at hr
      injection hr with hr
      subst hr
      exact ⟨_, none, rfl, rfl⟩
  | resumeRun k payload i =>
      injection hm with hm
      subst hm
      simp only [Message.entry, Worker.request, hrun] at hr
      injection hr with hr
      subst hr
      obtain ⟨db', hc⟩ := hcommit
      refine ⟨⟨k, run.sessionId, payload, jobHasAttachments db run.jobId,
        i⟩, none, rfl, ?_⟩
      unfold Request.landing Tx.commit
      simp only [hc]
  | runPipeline j => cases hm
  | graphIndexRun k => cases hm

/-- A run that is owed stays owed until a transaction settles it. -/
theorem owed_step {G : Action → State → Prop} (hr : Reaches env G s)
    (h : apply env a s = some s') {run : Run}
    (hrun : s.db.runs.get rid = some run) (hg : KeepsWork rid a s)
    (ho : s.Owed rid) :
    s'.Owed rid ∨ ∃ tx, committing env a s = some tx
      ∧ tx.commit env.cfg s.now s.db = .ok s'.db ∧ tx.Records rid := by
  rcases ho with ⟨m, hm, hq⟩ | ⟨tid, ho⟩
  · exact Or.inl (owed_of_waits (queued_step h hq) hm)
  rcases apply_live h (owes_not_idle ho) with
    heq | ⟨rfl, rfl⟩ | ⟨reply, r, rfl, hreq, rfl⟩
  · refine Or.inl (Or.inr ⟨tid, ?_⟩)
    rw [heq]
    exact ho
  · -- a crash leaves the message in the broker
    obtain ⟨m, hm, mid, hheld, hsent, hack, halone⟩ := hg ho
    refine Or.inl (Or.inl ⟨m, hm, mid, hsent, hack, fun tid' => ?_⟩)
    by_cases ht : tid' = tid
    · subst ht
      simp
    · simp only [Function.update_of_ne ht]
      exact halone tid' ht
  · have hpursues := hg ho
    cases hpc : (s.tasks tid).pc with
    | handler hd =>
        rw [hpc] at ho hpursues
        cases hd with
        | publish m =>
            -- the publisher does not fail, so the message goes on waiting
            have hkeeps : KeepsMessage m (.advance tid reply) s := by
              cases reply with
              | raised e => exact absurd rfl (hpursues e)
              | _ => trivial
            rcases waits_step (reaches_brokerBounded hr) h hkeeps
              (Or.inr ⟨tid, by rw [hpc]; rfl⟩) with
              hw | ⟨tid', _, _, he, hentry, -⟩
            · exact Or.inl (owed_of_waits hw ho)
            · injection he with he
              subst he
              rw [hpc] at hentry
              cases hentry
        | _ => cases ho
    | worker w =>
        obtain ⟨hd, r₀, hhd, -, -⟩ | ⟨w₀, r₀, hw, hr₀, rfl⟩ :=
          request_cases hreq
        · rw [hpc] at hhd
          cases hhd
        obtain rfl : w₀ = w := by
          rw [hpc] at hw
          injection hw with hw
          exact hw.symm
        -- where the worker is next
        have hnext : ((s.perform env tid (r₀.map .worker)).tasks tid).pc
            = .worker (r₀.landing (Tx.commit env.cfg s.now s.db)) := by
          rw [perform_pc, Request.landing_map]
        rw [hpc] at ho hpursues
        cases w₀ with
        | invoke inv slot stage =>
            have hunsettled : stage.settled = false := by
              unfold Pc.owes at ho
              simp only at ho
              split at ho
              · cases ho
              · rename_i hns
                simpa using hns
            obtain rfl : inv.runId = rid := by
              unfold Pc.owes at ho
              simp only [hunsettled, Bool.false_eq_true, if_false,
                Option.some.injEq] at ho
              exact ho
            rcases Worker.request_invoke_inv hr₀ with
              ⟨hover, -⟩ | ⟨-, r₁, hr₁, rfl⟩
            · rw [Stage.settled_of_isOver hover] at hunsettled
              cases hunsettled
            obtain ⟨run', hrun', hsid⟩ := invocation_linked hr hpc
            obtain ⟨session, hsession, -⟩ :=
              reaches_runsLinked hr _ _ hrun'
            rw [hsid] at hsession
            rcases Stage.pursues s.now hr₁ hunsettled hpursues hrun'
              hsession with hgo | ⟨tx, ok, raised, db', rfl, hc, hrec⟩
            · refine Or.inl (Or.inr ⟨tid, ?_⟩)
              rw [hnext, Request.landing_map]
              unfold Pc.owes
              simp only [hgo, Bool.false_eq_true, if_false]
            · refine Or.inr ⟨tx, ?_, ?_, hrec⟩
              · unfold committing
                simp only [hreq]
                rfl
              · have hdb : (s.perform env tid (.commit tx
                    (.worker (.invoke inv slot ok)) fun e =>
                      .worker (.invoke inv slot (raised e)))).db = db' :=
                  (perform_commit hc).1
                exact hc.trans (congrArg Except.ok hdb.symm)
        | continueSession k =>
            obtain ⟨inv, slot, rfl, hl⟩ := Worker.entry_pursues
              (.continueSession k) ho hr₀ hrun
              (resumeTransition_commits (reaches_runsLinked hr)
                (reaches_sessionsLinked hr) hrun)
            refine Or.inl (Or.inr ⟨tid, ?_⟩)
            rw [hnext, hl]
            rfl
        | resumeRun k payload i =>
            obtain ⟨inv, slot, rfl, hl⟩ := Worker.entry_pursues
              (.resumeRun k payload i) ho hr₀ hrun
              (resumeTransition_commits (reaches_runsLinked hr)
                (reaches_sessionsLinked hr) hrun)
            refine Or.inl (Or.inr ⟨tid, ?_⟩)
            rw [hnext, hl]
            rfl
        | _ => cases ho

end Step

-- ================================================================ requests

/-- A pending request of the run. -/
structure Asks (db : Db) (rid : Uuid) (i : InterruptRequest) : Prop where
  stored : db.interrupts.get i.id = some i
  runId : i.runId = some rid
  pending : i.status = .pending

/-- The run of a request is there, on the request's session. -/
def RequestsLinked (db : Db) : Prop :=
  ∀ {i : InterruptRequest}, db.interrupts.get i.id = some i →
    ∀ rid, i.runId = some rid →
      ∃ run, db.runs.get rid = some run ∧ run.sessionId = i.sessionId

section Requests

variable {env : Env} {G : Action → State → Prop} {s s' : State}
  {a : Action}

/-- A request that is pending after a transaction was pending before,
and the transaction neither resolved nor expired it. -/
theorem interruptStatus_pending
    {now : Time} {tx : Tx} {i : InterruptRequest}
    (h : tx.interruptStatus now i = .pending) :
    i.status = .pending
      ∧ (∀ sid current resolution by' iid,
        tx = .resolve sid current resolution by' iid → i.id ≠ current.id)
      ∧ (tx = .expireStalled → isStalled now i = false) := by
  cases tx with
  | resolve sid current resolution by' iid =>
      unfold Tx.interruptStatus at h
      simp only at h
      split at h
      · cases h
      · rename_i hne
        refine ⟨h, ?_, fun he => ?_⟩
        · intro _ _ _ _ _ he
          injection he with _ he
          exact he ▸ hne
        · cases he
  | expireStalled =>
      unfold Tx.interruptStatus at h
      simp only at h
      split at h
      · cases h
      · rename_i hns
        refine ⟨h, ?_, fun _ => by simpa using hns⟩
        intro _ _ _ _ _ he
        cases he
  | _ =>
      refine ⟨h, ?_, fun he => ?_⟩
      · intro _ _ _ _ _ he
        cases he
      · cases he

/-- What a step does to the three tables: nothing, or one transaction. -/
theorem apply_effects (h : apply env a s = some s') :
    s'.db = s.db ∨ ∃ tx, committing env a s = some tx
      ∧ tx.commit env.cfg s.now s.db = .ok s'.db := by
  rcases apply_db h with ⟨hdb, -, -⟩ | ⟨tx, htx, ⟨hdb, -⟩ | ⟨hc, -⟩⟩
  · exact Or.inl hdb
  · exact Or.inl hdb
  · exact Or.inr ⟨tx, htx, hc⟩

/-- Where a transaction that commits leaves its actor. -/
theorem committed_pc {tid : Nat} {reply : Reply} {tx : Tx} {db : Db}
    {ok : Pc} {raised : String → Pc}
    (h : apply env (.advance tid reply) s = some s')
    (hreq : s.request env tid reply = some (.commit tx ok raised))
    (hc : tx.commit env.cfg s.now s.db = .ok db) :
    (s'.tasks tid).pc = ok := by
  obtain ⟨r, hr, rfl⟩ := Option.map_eq_some_iff.mp h
  rw [hreq] at hr
  injection hr with hr
  subst hr
  rw [perform_pc]
  unfold Request.landing
  simp only [hc]

/-- A pending request of a run stays, is resolved by an actor that
publishes the run's `resume_run` next, or expires. -/
theorem asks_step (hr : Reaches env G s) (h : apply env a s = some s')
    {rid : Uuid} {i : InterruptRequest} (hi : Asks s.db rid i) :
    (∃ i', Asks s'.db rid i')
      ∨ (∃ tid value k, (s'.tasks tid).pc
          = .handler (.publish (.resumeRun rid value (some k))))
      ∨ (committing env a s = some .expireStalled
        ∧ isStalled s.now i = true) := by
  rcases apply_effects h with hdb | ⟨tx, htx, hc⟩
  · refine Or.inl ⟨i, ?_⟩
    rw [hdb]
    exact hi
  obtain ⟨i', hi', hmove⟩ := (commit_effects hc).interrupts.persists
    hi.stored
  by_cases hpending : i'.status = .pending
  · refine Or.inl ⟨i', ?_, hmove.same.runId.trans hi.runId, hpending⟩
    rw [hmove.same.id]
    exact hi'
  rw [hmove.status] at hpending
  cases tx with
  | expireStalled =>
      unfold Tx.interruptStatus at hpending
      simp only at hpending
      split at hpending
      · rename_i hst
        exact Or.inr (Or.inr ⟨htx, hst⟩)
      · exact absurd hi.pending hpending
  | resolve sid current resolution by' iid =>
      unfold Tx.interruptStatus at hpending
      simp only at hpending
      split at hpending
      · rename_i hid
        obtain ⟨tid, reply, ok, raised, rfl, hreq⟩ := committing_request htx
        obtain ⟨value, hpc, rfl⟩ := resolve_request hreq
        obtain ⟨row, hrow, hsame⟩ := (resolveUpdate_answers hr hpc).stored
        rw [← hid, hi.stored] at hrow
        injection hrow with hrow
        have hrun : current.runId = some rid := by
          rw [← hsame.runId, ← hrow]
          exact hi.runId
        refine Or.inr (Or.inl ⟨tid, value, current.id, ?_⟩)
        rw [committed_pc h hreq hc]
        unfold afterResolve
        rw [hrun]
      · exact absurd hi.pending hpending
  | _ => exact absurd hi.pending hpending

/-- A request is opened by a call, for its run and on its session. -/
theorem opens_linked (hr : Reaches env G s) {tx : Tx}
    (htx : committing env a s = some tx) {i : InterruptRequest}
    (ho : tx.Opens env.cfg s.now i) :
    (∃ kind payload schema, tx = .openInterrupt i.id i.sessionId
        i.runId kind payload schema)
      ∧ ∃ run session, i.runId = some run.id
        ∧ s.db.runs.get run.id = some run
        ∧ run.sessionId = i.sessionId
        ∧ s.db.sessions.get i.sessionId = some session := by
  obtain ⟨id, sid, rid, kind, payload, schema, rfl, rfl⟩ := ho
  obtain ⟨tid, reply, ok, raised, -, hreq⟩ := committing_request htx
  rcases request_commit hreq with
    hby | ⟨_, _, _, _, -, he⟩ | ⟨_, _, _, -, he⟩
      | ⟨inv, slot, stage, hpc, -, rfl, rfl⟩
  · cases hby
  · cases he
  · cases he
  obtain ⟨run, hrun, hsid⟩ := invocation_linked hr hpc
  obtain ⟨session, hsession, -⟩ := reaches_runsLinked hr _ _ hrun
  have hid : run.id = inv.runId := Table.key_of_get hrun
  refine ⟨⟨kind, payload, schema, rfl⟩, run, session, ?_, ?_, hsid,
    hsid ▸ hsession⟩
  · exact congrArg some hid.symm
  · exact hid ▸ hrun

/-- In every state reached, each request's run is there. -/
theorem reaches_requestsLinked (h : Reaches env G s) :
    RequestsLinked s.db := by
  refine Lts.Reachable.invariant (P := fun s => RequestsLinked s.db)
    ?_ ?_ h
  · intro i hi
    cases hi
  intro s a s' hr hl _ hstep i' hi' rid hrid
  -- a run that is there stays there, on its session
  have hkeep : ∀ {i : InterruptRequest},
      (∃ run, s.db.runs.get rid = some run
        ∧ run.sessionId = i.sessionId) →
      ∃ run, s'.db.runs.get rid = some run
        ∧ run.sessionId = i.sessionId := by
    rintro i ⟨run, hrun, hsid⟩
    obtain ⟨run', hrun', hmove⟩ := apply_run hstep hrun
    exact ⟨run', hrun', hmove.sessionId.trans hsid⟩
  rcases apply_effects hstep with hdb | ⟨tx, htx, hc⟩
  · rw [hdb] at hi'
    exact hkeep (hl hi' rid hrid)
  have he := commit_effects hc
  rcases he.interrupts.origin hi' with ⟨i, hi, hmove⟩ | ⟨-, ho⟩
  · rw [hmove.same.id] at hi
    rw [hmove.same.runId] at hrid
    rw [hmove.same.sessionId]
    exact hkeep (hl hi rid hrid)
  · obtain ⟨-, run, session, hrun, hget, hsid, -⟩ :=
      opens_linked hr htx ho
    rw [hrid] at hrun
    injection hrun with hrun
    subst hrun
    exact hkeep ⟨run, hget, hsid⟩

end Requests

-- =============================================================== scenarios

/-- No failure, and an interrupted run reads its request while nothing
is pending. -/
def Calm (a : Action) (s : State) : Prop :=
  match a with
  | .crash _ | .advance _ (.raised _) | .advance _ (.interrupts []) => False
  | .advance _ (.interrupts (value :: _)) => value = .obj value.members
      ∧ ∀ i ∈ s.db.interrupts.rows, i.status ≠ .pending
  | _ => True

instance (a : Action) (s : State) : Decidable (Calm a s) := by
  dsimp only [Calm]
  induction a using Action.casesOn with
  | advance tid reply =>
      induction reply using Reply.casesOn with
      | interrupts values =>
          induction values using List.casesOn <;> infer_instance
      | _ => infer_instance
  | _ => infer_instance

section Calm

variable {s : State} {a : Action} {rid : Uuid} {m : Message}

theorem Calm.pursues {tid : Nat} {reply : Reply} {pc : Pc}
    (h : Calm (.advance tid reply) s) : pc.Pursues s.db reply := by
  have hsucceeds : reply.Succeeds := by
    rintro e rfl
    exact h
  have hopens : ∀ sid values, reply = .interrupts values →
      OpensRequest s.db sid values := by
    rintro sid values rfl
    cases values with
    | nil => exact h.elim
    | cons value rest =>
        refine ⟨currentForSession_none.mpr ?_, value.members, rest,
          by rw [← h.1]⟩
        intro k i hi _
        exact h.2 i (Table.get_some hi).1
  unfold Pc.Pursues
  split
  · exact hsucceeds
  · exact hsucceeds
  · exact ⟨hsucceeds, hopens _⟩
  · trivial

theorem Calm.keepsWork (h : Calm a s) : KeepsWork rid a s := by
  cases a with
  | crash tid => exact h.elim
  | advance tid reply => exact fun _ => h.pursues
  | _ => trivial

theorem Calm.keepsMessage (h : Calm a s) : KeepsMessage m a s := by
  cases a with
  | crash tid => exact h.elim
  | advance tid reply =>
      cases reply with
      | raised e => exact h.elim
      | _ => trivial
  | _ => trivial

end Calm

end LegalBot
