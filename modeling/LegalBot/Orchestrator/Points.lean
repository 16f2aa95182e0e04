/-
What each kind of program point can ask for and where it can land: the
facts about `Handler.request`, `Worker.request` and `Stage.request` the
invariants need, each by one case split over the points.
-/
import LegalBot.Orchestrator.System

namespace LegalBot

open Relational (HasKey Table)

section Points

variable {env : Env} {cfg : Settings} {now : Time} {db : Db}
  {inFlight : Finset Uuid} {reply : Reply}
  {run : Tx → Except TxError Db}

-- ================================================================ handlers

/-- A transaction a request or a cron pass runs. -/
def Tx.byHandler : Tx → Bool
  | .startPipeline .. | .resumeTransition .. | .markRunStatus ..
  | .finalizeJob .. | .failJob .. | .pauseJob .. | .writeProjection ..
  | .openInterrupt .. => false
  | _ => true

theorem Handler.request_commit {h ok : Handler} {tx : Tx}
    {raised : String → Handler}
    (hr : h.request env now db inFlight reply
      = some (.commit tx ok raised)) : tx.byHandler = true := by
  cases h with
  | _ =>
      unfold Handler.request at hr
      grind [Tx.byHandler]

/-- A handler notes nothing. -/
theorem Handler.request_note {h next : Handler} {e : Event} :
    h.request env now db inFlight reply ≠ some (.note e next) := by
  intro hr
  cases h with
  | _ =>
      unfold Handler.request at hr
      grind

/-- A handler sends what it publishes, or a dispatched job. -/
theorem Handler.request_send {h next : Handler} {m : Message}
    (hr : h.request env now db inFlight reply = some (.send m next)) :
    (h = .publish m ∧ next = .done) ∨ ∃ j, m = .runPipeline j := by
  cases h with
  | _ =>
      unfold Handler.request at hr
      grind

/-- What a handler is about to publish: the run of a follow-up, of a
replay, or of the interrupt it just resolved. -/
inductive Publishes : Tx → Message → Prop
  | postMessage (sid : Uuid) (content : String) (index : Int)
      (msgId rid : Uuid) :
      Publishes (.postMessage sid content index msgId rid)
        (.continueSession rid)
  | reminder (sid : Uuid) (message : String) (payload : Json)
      (index : Int) (msgId rid : Uuid) :
      Publishes (.handleReminder sid message true payload index msgId rid)
        (.continueSession rid)
  | replay (sid fromRun : Uuid) (step ctx cp : String)
      (childId rid : Uuid) (hex : String) :
      Publishes (.replay sid fromRun step ctx cp childId rid hex)
        (.resumeRun rid .null none)
  | resolve (sid : Uuid) (current : InterruptRequest)
      (resolution : InterruptResolution) (resolvedBy : Option String)
      (iid rid : Uuid) (value : Json) :
      Publishes (.resolve sid current resolution resolvedBy iid)
        (.resumeRun rid value (some current.id))

theorem Handler.request_publish {h : Handler} {r : Request Handler}
    {m : Message} (hr : h.request env now db inFlight reply = some r)
    (hl : r.landing run = .publish m) :
    ∃ tx raised db', r = .commit tx (.publish m) raised
      ∧ run tx = .ok db' ∧ Publishes tx m := by
  cases h with
  | postMessageInsert sid content index =>
      simp only [Handler.request] at hr
      split at hr
      · rename_i msgId rid _ _
        injection hr with hr
        subst hr
        simp only [Request.landing] at hl
        split at hl
        · rename_i db' hrun
          injection hl with hl
          subst hl
          exact ⟨_, _, db', rfl, hrun, .postMessage _ _ _ _ _⟩
        · cases hl
      · cases hr
  | reminderInsert sid message wake payload index =>
      simp only [Handler.request] at hr
      split at hr
      · rename_i msgId rid _ _
        injection hr with hr
        subst hr
        simp only [Request.landing] at hl
        split at hl
        · rename_i db' hrun
          cases wake with
          | false => cases hl
          | true =>
              injection hl with hl
              subst hl
              exact ⟨_, _, db', rfl, hrun, .reminder _ _ _ _ _ _⟩
        · cases hl
      · cases hr
  | replayInsert sid fromRun step ctx cp =>
      simp only [Handler.request] at hr
      split at hr
      · rename_i childId rid _ hex
        injection hr with hr
        subst hr
        simp only [Request.landing] at hl
        split at hl
        · rename_i db' hrun
          injection hl with hl
          subst hl
          exact ⟨_, _, db', rfl, hrun, .replay _ _ _ _ _ _ _ _⟩
        · cases hl
      · cases hr
  | resolveUpdate sid current resolution value resolvedBy =>
      simp only [Handler.request] at hr
      split at hr
      · rename_i iid _ _
        injection hr with hr
        subst hr
        simp only [Request.landing] at hl
        split at hl
        · rename_i db' hrun
          unfold afterResolve at hl
          split at hl
          · rename_i rid hrid
            injection hl with hl
            subst hl
            refine ⟨_, fun _ => .done, db', ?_, hrun,
              .resolve _ _ _ _ _ rid _⟩
            unfold afterResolve
            rw [hrid]
          · cases hl
        · cases hl
      · injection hr with hr
        subst hr
        cases hl
      · cases hr
  | _ =>
      unfold Handler.request at hr
      grind [Request.landing]

-- ================================================================== stages

/-- A transaction of one `_invoke_graph` call, on its own run. -/
def Tx.ofInvocation (inv : Invocation) : Tx → Prop
  | .markRunStatus rid _ | .failJob rid _ => rid = inv.runId
  | .finalizeJob sid rid | .pauseJob sid rid
  | .writeProjection sid rid _ _ => sid = inv.sessionId ∧ rid = inv.runId
  | .openInterrupt _ sid rid _ _ _ =>
      sid = inv.sessionId ∧ rid = some inv.runId
  | _ => False

theorem byHandler_of_invocation {inv : Invocation} {tx : Tx}
    (h : tx.ofInvocation inv) : tx.byHandler = false := by
  cases tx with
  | _ => first | rfl | cases h

theorem Stage.request_commit {inv : Invocation} {stage ok : Stage}
    {tx : Tx} {raised : String → Stage}
    (hr : stage.request cfg db inv reply = some (.commit tx ok raised)) :
    tx.ofInvocation inv := by
  cases stage with
  | _ =>
      unfold Stage.request at hr
      grind [Tx.ofInvocation]

theorem Stage.request_send {inv : Invocation} {stage next : Stage}
    {m : Message}
    (hr : stage.request cfg db inv reply = some (.send m next)) :
    m = .graphIndexRun inv.runId := by
  cases stage with
  | _ =>
      unfold Stage.request at hr
      grind

theorem Stage.request_note {inv : Invocation} {stage next : Stage}
    {e : Event}
    (hr : stage.request cfg db inv reply = some (.note e next)) :
    stage = .ainvoke ∧ next = .running
      ∧ e = .invoked inv.runId inv.resumes inv.interrupt := by
  cases stage with
  | _ =>
      unfold Stage.request at hr
      grind

/-- The graph of a call has not been called yet. -/
def Stage.beforeCall : Stage → Bool
  | .enter | .prepare | .ainvoke => true
  | _ => false

/-- A call does not go back before its graph call. -/
theorem Stage.request_beforeCall {inv : Invocation} {stage : Stage}
    {r : Request Stage} (hr : stage.request cfg db inv reply = some r)
    (hl : (r.landing run).beforeCall = true) :
    stage.beforeCall = true := by
  cases stage with
  | enter => rfl
  | prepare => rfl
  | ainvoke => rfl
  | readInterrupts =>
      simp only [Stage.request] at hr
      split at hr
      · injection hr with hr
        subst hr
        unfold Request.landing persistInterrupt at hl
        grind [Stage.beforeCall]
      · injection hr with hr
        subst hr
        cases hl
      · cases hr
  | _ =>
      unfold Stage.request at hr
      grind [Stage.beforeCall, Request.landing]

/-- A call comes to insert an interrupt by reading a dict from the
checkpoint of a session that has none pending. -/
theorem Stage.request_openInterrupt {inv : Invocation} {stage : Stage}
    {r : Request Stage} {kind : InterruptKind} {payload : Json}
    {schema : Option Json}
    (hr : stage.request cfg db inv reply = some r)
    (hl : r.landing run = .openInterrupt kind payload schema) :
    stage = .readInterrupts
      ∧ currentForSession db.interrupts inv.sessionId = none
      ∧ ∃ members rest, reply = .interrupts (.obj members :: rest)
        ∧ normalizeInterruptEnvelope members
          = .ok (kind, payload, schema) := by
  cases stage with
  | readInterrupts =>
      simp only [Stage.request] at hr
      split at hr
      · rename_i values
        injection hr with hr
        subst hr
        unfold Request.landing persistInterrupt at hl
        simp only at hl
        split at hl
        · cases hl
        · rename_i envelope rest
          split at hl
          · cases hl
          · rename_i hnone
            split at hl
            · rename_i members
              split at hl
              · rename_i k p sch hn
                injection hl with h₁ h₂ h₃
                subst h₁
                subst h₂
                subst h₃
                exact ⟨rfl, by simpa using hnone, members, rest, rfl, hn⟩
              · cases hl
            · cases hl
      · injection hr with hr
        subst hr
        cases hl
      · cases hr
  | _ =>
      unfold Stage.request at hr
      grind [Request.landing]

/-- A call that marks its run as waiting reads its requests next. -/
theorem Stage.request_pause {inv : Invocation} {stage ok : Stage}
    {rid : Uuid} {st : MarkedStatus} {raised : String → Stage}
    (hr : stage.request cfg db inv reply
      = some (.commit (.markRunStatus rid st) ok raised))
    (hst : st.val = .awaitingHuman) :
    rid = inv.runId ∧ ok = .readInterrupts := by
  cases stage with
  | pauseRun =>
      simp only [Stage.request] at hr
      split at hr
      · cases hr
        exact ⟨rfl, rfl⟩
      · cases hr
  | completeRun =>
      simp only [Stage.request] at hr
      split at hr
      · cases hr
        cases hst
      · cases hr
  | failRun e =>
      simp only [Stage.request] at hr
      split at hr
      · cases hr
        cases hst
      · cases hr
  | _ =>
      unfold Stage.request at hr
      grind

/-- The transition of the job is the last transaction of a pause. -/
theorem Stage.request_pauseJob {inv : Invocation} {stage ok : Stage}
    {sid rid : Uuid} {raised : String → Stage}
    (hr : stage.request cfg db inv reply
      = some (.commit (.pauseJob sid rid) ok raised)) :
    stage = .pauseJob ∧ sid = inv.sessionId ∧ rid = inv.runId := by
  cases stage with
  | pauseJob =>
      simp only [Stage.request] at hr
      split at hr
      · cases hr
        exact ⟨rfl, rfl, rfl⟩
      · cases hr
  | _ =>
      unfold Stage.request at hr
      grind

-- ================================================================= workers

/-- Inside a call the worker asks for what its stage asks for. -/
theorem Worker.request_invoke_inv {inv : Invocation}
    {slot : Option Uuid} {stage : Stage} {r : Request Worker}
    (hr : (Worker.invoke inv slot stage).request env db reply = some r) :
    (stage.isOver = true ∧ r = .goto (afterInvoke slot))
      ∨ (stage.isOver = false ∧ ∃ r₀,
          stage.request env.cfg db inv reply = some r₀
          ∧ r = r₀.map (Worker.invoke inv slot)) := by
  simp only [Worker.request] at hr
  split at hr
  · rename_i hover
    injection hr with hr
    exact Or.inl ⟨hover, hr.symm⟩
  · rename_i hover
    obtain ⟨r₀, hr₀, rfl⟩ := Option.map_eq_some_iff.mp hr
    exact Or.inr ⟨by simpa using hover, r₀, hr₀, rfl⟩

/-- How a worker comes to be inside an `_invoke_graph` call. -/
inductive Begins (db : Db) (run : Tx → Except TxError Db)
    (inv : Invocation) (slot : Option Uuid) (stage : Stage) :
    Worker → Request Worker → Prop
  | within (stage₀ : Stage) (r : Request Worker)
      (live : stage₀.isOver = false) :
      Begins db run inv slot stage (.invoke inv slot stage₀) r
  | started (j : Uuid) (hex : String) (db' : Db)
      (committed : run (.startPipeline j inv.sessionId inv.runId hex)
        = .ok db') (fresh : inv.interrupt = none) :
      Begins db run inv slot stage (.runPipeline j)
        (.commit (.startPipeline j inv.sessionId inv.runId hex)
          (.invoke inv slot stage) fun _ => .done)
  | continued (row : Run) (found : db.runs.get inv.runId = some row)
      (session : row.sessionId = inv.sessionId)
      (fresh : inv.interrupt = none) :
      Begins db run inv slot stage (.continueSession inv.runId)
        (.goto (.invoke inv slot stage))
  | resumed (row : Run) (db' : Db)
      (found : db.runs.get inv.runId = some row)
      (session : row.sessionId = inv.sessionId)
      (committed : run (.resumeTransition inv.runId) = .ok db') :
      Begins db run inv slot stage
        (.resumeRun inv.runId inv.resumePayload inv.interrupt)
        (.commit (.resumeTransition inv.runId) (.invoke inv slot stage)
          fun _ => .done)

theorem Worker.request_invoke {w : Worker} {r : Request Worker}
    {inv : Invocation} {slot : Option Uuid} {stage : Stage}
    (hr : w.request env db reply = some r)
    (hl : r.landing run = .invoke inv slot stage) :
    Begins db run inv slot stage w r := by
  cases w with
  | done => cases hr
  | runPipeline j =>
      simp only [Worker.request] at hr
      split at hr
      · injection hr with hr
        subst hr
        simp only [Request.landing] at hl
        split at hl
        · rename_i db' hrun
          cases hl
          exact .started j _ db' hrun rfl
        · cases hl
      · cases hr
  | continueSession rid =>
      simp only [Worker.request] at hr
      split at hr
      · rename_i row hrow
        injection hr with hr
        subst hr
        cases hl
        exact .continued row hrow rfl rfl
      · injection hr with hr
        subst hr
        cases hl
  | resumeRun rid payload interrupt =>
      simp only [Worker.request] at hr
      split at hr
      · rename_i row hrow
        injection hr with hr
        subst hr
        simp only [Request.landing] at hl
        split at hl
        · rename_i db' hrun
          cases hl
          exact .resumed row db' hrow rfl hrun
        · cases hl
      · injection hr with hr
        subst hr
        cases hl
  | graphIndexRun rid =>
      injection hr with hr
      subst hr
      cases hl
  | invoke inv₀ slot₀ stage₀ =>
      rcases Worker.request_invoke_inv hr with
        ⟨-, rfl⟩ | ⟨hlive, r₀, -, rfl⟩
      · cases slot₀ with
        | none => cases hl
        | some j => cases hl
      · rw [Request.landing_map] at hl
        injection hl with h₁ h₂ h₃
        subst h₁
        subst h₂
        exact .within stage₀ _ hlive
  | release j =>
      simp only [Worker.request] at hr
      split at hr
      · injection hr with hr
        subst hr
        cases hl
      · injection hr with hr
        subst hr
        cases hl
      · cases hr

/-- How a task enters its `_invoke_graph` call. -/
inductive Enters (db : Db) (run : Tx → Except TxError Db)
    (inv : Invocation) : Option Uuid → Worker → Prop
  | started (j : Uuid) (hex : String) (db' : Db)
      (committed : run (.startPipeline j inv.sessionId inv.runId hex)
        = .ok db') (fresh : inv.interrupt = none) :
      Enters db run inv (some j) (.runPipeline j)
  | continued (row : Run) (found : db.runs.get inv.runId = some row)
      (session : row.sessionId = inv.sessionId)
      (fresh : inv.interrupt = none) :
      Enters db run inv none (.continueSession inv.runId)
  | resumed (row : Run) (db' : Db)
      (found : db.runs.get inv.runId = some row)
      (session : row.sessionId = inv.sessionId)
      (committed : run (.resumeTransition inv.runId) = .ok db') :
      Enters db run inv none
        (.resumeRun inv.runId inv.resumePayload inv.interrupt)

/-- A worker inside a call goes on in it, or enters it at its start. -/
theorem Worker.request_call {w : Worker} {r : Request Worker}
    {inv : Invocation} {slot : Option Uuid} {stage : Stage}
    (hr : w.request env db reply = some r)
    (hl : r.landing run = .invoke inv slot stage) :
    (∃ stage₀ r₀, w = .invoke inv slot stage₀ ∧ stage₀.isOver = false
        ∧ stage₀.request env.cfg db inv reply = some r₀
        ∧ r = r₀.map (Worker.invoke inv slot) ∧ r₀.landing run = stage)
      ∨ (stage = .enter ∧ Enters db run inv slot w) := by
  cases Worker.request_invoke hr hl with
  | within stage₀ r hlive =>
      rcases Worker.request_invoke_inv hr with
        ⟨hover, -⟩ | ⟨-, r₀, hr₀, rfl⟩
      · rw [hlive] at hover
        cases hover
      · rw [Request.landing_map] at hl
        injection hl with _ _ hl
        exact Or.inl ⟨stage₀, r₀, rfl, hlive, hr₀, rfl, hl⟩
  | started j hex db' hc hfresh =>
      simp only [Worker.request] at hr
      split at hr
      · simp only [Option.some.injEq, Request.commit.injEq,
          Worker.invoke.injEq] at hr
        obtain ⟨-, ⟨-, rfl, rfl⟩, -⟩ := hr
        exact Or.inr ⟨rfl, .started j hex db' hc hfresh⟩
      · cases hr
  | continued row found session hfresh =>
      simp only [Worker.request, found, Option.some.injEq,
        Request.goto.injEq, Worker.invoke.injEq] at hr
      obtain ⟨-, rfl, rfl⟩ := hr
      exact Or.inr ⟨rfl, .continued row found session hfresh⟩
  | resumed row db' found session hc =>
      simp only [Worker.request, found, Option.some.injEq,
        Request.commit.injEq, Worker.invoke.injEq] at hr
      obtain ⟨-, ⟨-, rfl, rfl⟩, -⟩ := hr
      exact Or.inr ⟨rfl, .resumed row db' found session hc⟩

/-- The worker points with a transaction of their own. -/
theorem Worker.request_commit {w ok : Worker} {tx : Tx}
    {raised : String → Worker}
    (hr : w.request env db reply = some (.commit tx ok raised)) :
    (∃ j sid rid hex, w = .runPipeline j ∧ tx = .startPipeline j sid rid hex)
      ∨ (∃ rid payload i, w = .resumeRun rid payload i
        ∧ tx = .resumeTransition rid)
      ∨ (∃ inv slot stage, w = .invoke inv slot stage
        ∧ stage.isOver = false ∧ tx.ofInvocation inv) := by
  cases w with
  | invoke inv slot stage =>
      rcases Worker.request_invoke_inv hr with
        ⟨-, h⟩ | ⟨hlive, r₀, hr₀, h⟩
      · cases h
      · refine Or.inr (Or.inr ⟨inv, slot, stage, rfl, hlive, ?_⟩)
        cases r₀ with
        | commit tx₀ ok₀ raised₀ =>
            cases h
            exact Stage.request_commit hr₀
        | _ => cases h
  | _ =>
      unfold Worker.request at hr
      grind

theorem Worker.request_send {w next : Worker} {m : Message}
    (hr : w.request env db reply = some (.send m next)) :
    ∃ rid, m = .graphIndexRun rid := by
  cases w with
  | invoke inv slot stage =>
      rcases Worker.request_invoke_inv hr with ⟨-, h⟩ | ⟨-, r₀, hr₀, h⟩
      · cases h
      · cases r₀ with
        | send m₀ next₀ =>
            cases h
            exact ⟨inv.runId, Stage.request_send hr₀⟩
        | _ => cases h
  | _ =>
      unfold Worker.request at hr
      grind

theorem Worker.request_note {w next : Worker} {e : Event}
    (hr : w.request env db reply = some (.note e next)) :
    ∃ inv slot, w = .invoke inv slot .ainvoke
      ∧ next = .invoke inv slot .running
      ∧ e = .invoked inv.runId inv.resumes inv.interrupt := by
  cases w with
  | invoke inv slot stage =>
      rcases Worker.request_invoke_inv hr with ⟨-, h⟩ | ⟨-, r₀, hr₀, h⟩
      · cases h
      · cases r₀ with
        | note e₀ next₀ =>
            cases h
            obtain ⟨rfl, rfl, rfl⟩ := Stage.request_note hr₀
            exact ⟨inv, slot, rfl, rfl, rfl⟩
        | _ => cases h
  | _ =>
      unfold Worker.request at hr
      grind

end Points

end LegalBot
