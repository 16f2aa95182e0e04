/-
A posted follow-up and the input of its graph call.

The content of a post travels no further than its `session_message`
row: the run is started with the id of that row as trigger payload, the
message on the queue carries the id of the run, and `_invoke_graph`
builds `initial_state` with the prompt of the first run of a job. So
the graph is given the content exactly when the user happens to post
that prompt.

What has to be followed through the system is which call is the one of
the follow-up: `ContinuesRun` ties the task that holds a
`continue_session` message to the run the message names.
-/
import LegalBot.Orchestrator.Pending
import LegalBot.Workers.GraphThread

namespace LegalBot

open Relational (HasKey Table)

section Calls

variable {env : Env} {s : State} {rid : Uuid}

/-- Where the task of `continue_session(rid)` may be. -/
def Pc.ContinuesRun (rid : Uuid) : Pc → Prop
  | .worker (.continueSession r) => r = rid
  | .worker (.invoke inv _ _) =>
      inv.runId = rid ∧ inv.resumePayload = .null
        ∧ inv.hasAttachments = none
  | .worker (.runPipeline _) | .worker (.resumeRun ..) => False
  | _ => True

theorem Worker.request_continues {db : Db} {reply : Reply} {w : Worker}
    {r : Request Worker} {run : Tx → Except TxError Db}
    (hr : w.request env db reply = some r)
    (hw : (Pc.worker w).ContinuesRun rid) :
    (Pc.worker (r.landing run)).ContinuesRun rid := by
  cases w with
  | continueSession rid₀ =>
      simp only [Worker.request] at hr
      split at hr
      · injection hr with hr
        subst hr
        exact ⟨hw, rfl, rfl⟩
      · injection hr with hr
        subst hr
        trivial
  | invoke inv slot stage =>
      rcases Worker.request_invoke_inv hr with
        ⟨-, rfl⟩ | ⟨-, r₀, -, rfl⟩
      · cases slot with
        | none => trivial
        | some j => trivial
      · rw [Request.landing_map]
        exact hw
  | release j =>
      simp only [Worker.request] at hr
      split at hr
      · injection hr with hr
        subst hr
        trivial
      · injection hr with hr
        subst hr
        trivial
      · cases hr
  | graphIndexRun r₀ =>
      injection hr with hr
      subst hr
      trivial
  | done => cases hr
  | runPipeline j => cases hw
  | resumeRun r₀ payload i => cases hw

/-- A task that holds `continue_session(rid)` calls the graph for the run
`rid`, from a fresh input. -/
theorem continue_session_call {G : Action → State → Prop}
    (h : Reaches env G s) {tid mid : Nat} {inv : Invocation}
    {slot : Option Uuid} {stage : Stage}
    (hheld : (s.tasks tid).message = some mid)
    (hsent : s.sent[mid]? = some (.continueSession rid))
    (hpc : (s.tasks tid).pc = .worker (.invoke inv slot stage)) :
    inv.runId = rid ∧ inv.resumePayload = .null
      ∧ inv.hasAttachments = none := by
  have hcall : ∀ rid', Message.continueSession rid = .continueSession rid' →
      (s.tasks tid).pc.ContinuesRun rid' := by
    refine reaches_held (Q := fun m pc => ∀ rid',
      m = .continueSession rid' → pc.ContinuesRun rid') ?_ ?_ h hheld hsent
    · rintro m rid' rfl
      rfl
    · intro s tid reply r m hq hreq _ rid' hm
      have hbefore := hq rid' hm
      rcases request_cases hreq with
        ⟨hd, r₀, -, -, rfl⟩ | ⟨w, r₀, hpc, hr₀, rfl⟩
      · rw [Request.landing_map]
        trivial
      · rw [hpc] at hbefore
        rw [Request.landing_map]
        exact Worker.request_continues hr₀ hbefore
  have hrun := hcall rid rfl
  rw [hpc] at hrun
  exact hrun

/-- The run that a post inserts is on the session of the post. -/
theorem posted_run {cfg : Settings} {now : Time} {db db' : Db}
    {sid runId msgId : Uuid} {content : String} {index : Int}
    (hc : (Tx.postMessage sid content index msgId runId).commit cfg now db
      = .ok db') :
    ∃ run, db'.runs.get runId = some run ∧ run.sessionId = sid := by
  obtain ⟨session, payload, messages, sessions, runs, -, -, hruns, rfl⟩ :=
    postMessage_ok hc
  exact ⟨_, (Table.get_insert hruns runId).trans (if_pos rfl), rfl⟩

/-- A run stays on its session. -/
theorem run_session_kept {G : Action → State → Prop} {s' : State}
    {sid : Uuid} (h : Lts.Reachable (apply env) G s s')
    (hrun : ∃ run, s.db.runs.get rid = some run ∧ run.sessionId = sid) :
    ∃ run, s'.db.runs.get rid = some run ∧ run.sessionId = sid := by
  refine Lts.Reachable.invariant (P := fun s' => ∃ run,
    s'.db.runs.get rid = some run ∧ run.sessionId = sid) hrun ?_ h
  rintro s a s' - ⟨run, hrun, hsid⟩ - hstep
  obtain ⟨run', hrun', hmove⟩ := apply_run hstep hrun
  exact ⟨run', hrun', hmove.sessionId.trans hsid⟩

end Calls

-- ===================================================================== runs

/-- After a post of `content` on session `sid` has been accepted, whenever
a task of its `continue_session` message calls the graph, it does so on
that session, and a human message of the input carries `content` if and
only if `content` is the prompt. -/
theorem follow_up_in_input_iff {env : Env} {a : Action} {s s' t : State}
    {sid msgId runId : Uuid} {content : String} {index : Int}
    {tid mid : Nat} {inv : Invocation} {slot : Option Uuid}
    (h : Reaches env Lts.Always s) (hstep : apply env a s = some s')
    (hpost : committing env a s
      = some (.postMessage sid content index msgId runId))
    (haccepted : (Tx.postMessage sid content index msgId runId).commit
      env.cfg s.now s.db = .ok s'.db)
    (hlater : Lts.Reachable (apply env) Lts.Always s' t)
    (hheld : (t.tasks tid).message = some mid)
    (hsent : t.sent[mid]? = some (.continueSession runId))
    (hcall : (t.tasks tid).pc = .worker (.invoke inv slot .ainvoke)) :
    ∃ input, inv.sessionId = sid
      ∧ graphInput t.db inv none = some input
      ∧ (⟨content⟩ ∈ input.humanMessages
        ↔ content = processEmailPrompt) := by
  have ht : Reaches env Lts.Always t :=
    (h.step a trivial hstep).trans hlater
  obtain ⟨hrun, hpayload, -⟩ :=
    continue_session_call ht hheld hsent hcall
  -- the call is on the session of the post
  obtain ⟨row, hrow, hsid⟩ :=
    run_session_kept hlater (posted_run haccepted)
  obtain ⟨row', hrow', hinv⟩ := invocation_linked ht hcall
  rw [hrun, hrow, Option.some.injEq] at hrow'
  rw [← hrow', hsid] at hinv
  obtain ⟨session, hsession, -⟩ := reaches_runsLinked ht runId row hrow
  rw [hsid, hinv] at hsession
  have hfresh : inv.resumes = false := by
    unfold Invocation.resumes
    simp [hpayload]
  obtain ⟨input, hinput, hmessages⟩ := graphInput_fresh hsession hfresh
  refine ⟨input, hinv.symm, hinput, ?_⟩
  rw [hmessages]
  simp

-- =============================================================== scenarios

/-- The session is idle and a request has read the index for its post of
"hi". -/
def posting : List Action := firstStart ++ cleanFinish ++ followUp.take 3

/-- It is accepted and published, and worker 3 is about to call the
graph. -/
def continues : List Action :=
  [.advance 2 .ok, .deliver 3 2, .advance 3 .ok, .advance 3 .ok,
    .advance 3 .ok]

/-- The graph call of the post. -/
def continueCall : Invocation := ⟨21, 10, .null, none, none⟩

/-- The post is accepted and worker 3 gets to its call. -/
theorem continues_reached : ∃ s s' t,
    Lts.run (apply Env.default) State.init posting = some s
      ∧ apply Env.default (.advance 2 (.fresh [20, 21] "")) s = some s'
      ∧ committing Env.default (.advance 2 (.fresh [20, 21] "")) s
        = some (.postMessage 10 "hi" 0 20 21)
      ∧ (Tx.postMessage 10 "hi" 0 20 21).commit Env.default.cfg s.now s.db
        = .ok s'.db
      ∧ Lts.run (apply Env.default) s' continues = some t
      ∧ (t.tasks 3).message = some 2
      ∧ t.sent[2]? = some (.continueSession 21)
      ∧ (t.tasks 3).pc
        = .worker (.invoke continueCall none .ainvoke) := by
  obtain ⟨s, hs⟩ := Option.isSome_iff_exists.mp
    (show (Lts.run (apply Env.default) State.init posting).isSome by
      decide +kernel)
  have hpc : (Lts.run (apply Env.default) State.init posting).map
      (fun s => (s.tasks 2).pc)
      = some (.handler (.postMessageInsert 10 "hi" 0)) := rfl
  have hok : (Lts.run (apply Env.default) State.init posting).map
      (fun s => ((Tx.postMessage 10 "hi" 0 20 21).commit Env.default.cfg
        s.now s.db).isOk) = some true := by decide +kernel
  have hcall : ((Lts.run (apply Env.default) State.init posting).bind
      fun s => (apply Env.default (.advance 2 (.fresh [20, 21] "")) s).bind
        fun s' => (Lts.run (apply Env.default) s' continues).map fun t =>
          ((t.tasks 3).message, t.sent[2]?, (t.tasks 3).pc))
      = some (some 2, some (.continueSession 21),
        .worker (.invoke continueCall none .ainvoke)) := rfl
  rw [hs, Option.map_some, Option.some.injEq] at hpc hok
  rw [hs, Option.bind_some] at hcall
  obtain ⟨s', hstep, hcall⟩ := Option.bind_eq_some_iff.mp hcall
  obtain ⟨t, ht, hcall⟩ := Option.map_eq_some_iff.mp hcall
  rw [Prod.mk.injEq, Prod.mk.injEq] at hcall
  have hpost : committing Env.default (.advance 2 (.fresh [20, 21] "")) s
      = some (.postMessage 10 "hi" 0 20 21) := by
    unfold committing State.request
    simp only [hpc]
    rfl
  obtain ⟨db, hdb⟩ : ∃ db, (Tx.postMessage 10 "hi" 0 20 21).commit
      Env.default.cfg s.now s.db = .ok db := by
    cases hc : (Tx.postMessage 10 "hi" 0 20 21).commit Env.default.cfg
        s.now s.db with
    | ok db => exact ⟨db, rfl⟩
    | error e =>
        rw [hc] at hok
        cases hok
  have hsame := (apply_commits hstep hpost hdb).1
  exact ⟨s, s', t, hs, hstep, hpost, by rw [hsame, hdb], ht, hcall⟩

/-- Neither side holds of "hi". -/
theorem hi_in_input_iff : ∃ t input,
    graphInput t continueCall none = some input
      ∧ (⟨"hi"⟩ ∈ input.humanMessages ↔ "hi" = processEmailPrompt) := by
  obtain ⟨s, s', t, hs, hstep, hpost, hok, ht, hheld, hsent, hcall⟩ :=
    continues_reached
  obtain ⟨input, -, hinput⟩ := follow_up_in_input_iff
    (Lts.reachable_of_run .init hs) hstep hpost hok
    (Lts.reachable_of_run .init ht) hheld hsent hcall
  exact ⟨t.db, input, hinput⟩

/-- The graph is not given the "hi" that was posted. -/
theorem follow_up_not_in_input :
    ¬ ∀ (a : Action) (s s' t : State) (sid msgId runId : Uuid)
      (content : String) (index : Int) (tid mid : Nat) (inv : Invocation)
      (slot : Option Uuid), Reaches Env.default Lts.Always s →
      apply Env.default a s = some s' →
      committing Env.default a s
        = some (.postMessage sid content index msgId runId) →
      (Tx.postMessage sid content index msgId runId).commit
        Env.default.cfg s.now s.db = .ok s'.db →
      Lts.Reachable (apply Env.default) Lts.Always s' t →
      (t.tasks tid).message = some mid →
      t.sent[mid]? = some (.continueSession runId) →
      (t.tasks tid).pc = .worker (.invoke inv slot .ainvoke) →
      ∃ input, graphInput t.db inv none = some input
        ∧ ⟨content⟩ ∈ input.humanMessages := by
  intro h
  obtain ⟨s, s', t, hs, hstep, hpost, hok, ht, hheld, hsent, hcall⟩ :=
    continues_reached
  obtain ⟨input, hinput, hmem⟩ := h _ s s' t 10 20 21 "hi" 0 3 2 _ _
    (Lts.reachable_of_run .init hs) hstep hpost hok
    (Lts.reachable_of_run .init ht) hheld hsent hcall
  unfold graphInput at hinput
  obtain ⟨session, -, rfl⟩ := Option.map_eq_some_iff.mp hinput
  have hprompt : (⟨"hi"⟩ : HumanMessage) ∈ [⟨processEmailPrompt⟩] := hmem
  rw [List.mem_singleton] at hprompt
  revert hprompt
  decide

end LegalBot
