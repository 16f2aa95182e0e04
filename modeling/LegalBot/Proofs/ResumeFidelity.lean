/-
A resolved interrupt continues the interrupted graph.

# What goes wrong

`None` is the resume value of an unskipped information request without
an answer, and `None` is how `_invoke_graph` tells a fresh start from a
resume: the `resume_run` task of such a resolution gives the thread the
kickoff input a second time.

# The two halves

For one resolution the outcome is decided by its body alone
(`continues_iff`). Over a run, the value travels through a publishing
request, the broker and a worker; `Faithful` follows it, and holds when
no answerless resolution is committed.
-/
import LegalBot.Orchestrator.Invariants

namespace LegalBot

open Relational (HasKey Table)

-- ============================================================== statements

/-- No answerless resolution is committed. -/
def ResolvesAnswered (env : Env) (a : Action) (s : State) : Prop :=
  match committing env a s with
  | some (.resolve _ _ resolution _ _) => resolution.answerless = false
  | _ => True

/-- Whatever the task of a message finds, the graph call it makes is
`Command(resume=…)`. -/
def Message.Continues (env : Env) (m : Message) : Prop :=
  ∀ {db reply r inv slot stage} {run : Tx → Except TxError Db},
    m.entry.request env db reply = some r →
    r.landing run = .invoke inv slot stage → inv.resumes = true

/-- Every graph call that was made for an interrupt is
`Command(resume=…)`. -/
def AnswersResumed (s : State) : Prop :=
  ∀ run resume i, Event.invoked run resume (some i) ∈ s.log →
    resume = true

-- ========================================================== one resolution

section Resolution

variable {env : Env} {rid i : Uuid} {value : Json}

/-- A run that `resume_run` finds. -/
def storedRun (rid : Uuid) : Run :=
  newRun rid 0 0 .pipeline "ingestion" .null 0

def Db.withRun (rid : Uuid) : Db :=
  { Db.empty with runs := ⟨[storedRun rid], List.nodup_singleton _⟩ }

theorem get_withRun : (Db.withRun rid).runs.get rid
    = some (storedRun rid) := by
  show [storedRun rid].find? (fun r => HasKey.key r = rid) = _
  exact List.find?_cons_of_pos (decide_eq_true rfl)

/-- A `resume_run` resumes exactly when it carries a value. -/
theorem continues_resumeRun :
    (Message.resumeRun rid value (some i)).Continues env
      ↔ value ≠ .null := by
  constructor
  · rintro h rfl
    -- it finds its run and commits: the call starts afresh
    have hreq : (Message.resumeRun rid .null (some i)).entry.request env
        (Db.withRun rid) .ok = some (.commit (.resumeTransition rid)
          (.invoke ⟨rid, 0, .null, jobHasAttachments (Db.withRun rid) 0,
            some i⟩ none .enter) fun _ => .done) := by
      simp only [Message.entry, Worker.request, get_withRun]
      rfl
    have hfresh : Invocation.resumes _ = true :=
      h hreq (show Request.landing (fun _ => .ok (Db.withRun rid)) _ = _
        from rfl)
    cases hfresh
  · intro hv db reply r inv slot stage run hr hl
    have hb := Worker.request_invoke hr hl
    generalize hw : (Message.resumeRun rid value (some i)).entry = w at hb
    cases hb with
    | resumed row db' found session committed =>
        injection hw with h₁ h₂ h₃
        unfold Invocation.resumes
        rw [← h₂]
        exact decide_eq_true hv
    | _ => cases hw

/-- An accepted resolution of an interrupt with a run enqueues a task
that continues the graph exactly when it is not answerless. -/
theorem continues_iff {interrupts : Table InterruptRequest} {sid : Uuid}
    {resolution : InterruptResolution} {current : InterruptRequest}
    (h : checkResolution env.valid (currentForSession interrupts sid)
      resolution = .ok (current, value)) :
    (Message.resumeRun rid value (some current.id)).Continues env
      ↔ resolution.answerless = false := by
  obtain ⟨-, rfl⟩ := checkResolution_ok h
  rw [continues_resumeRun, ne_eq, resumeValue_eq_null,
    Bool.not_eq_true]

end Resolution

-- ============================================================== over a run

/-- The answers on their way to the graph are values. -/
structure Faithful (s : State) : Prop where
  known : ∀ rid v i, s.Knows (.resumeRun rid v (some i)) → v ≠ .null
  calls : ∀ {tid inv slot stage i},
    (s.tasks tid).pc = .worker (.invoke inv slot stage) →
    inv.interrupt = some i → inv.resumes = true
  resumed : AnswersResumed s

section Step

variable {env : Env} {a : Action} {s s' : State}

theorem Faithful.knows_step (h : Faithful s)
    (hr : ∀ {tid sid current resolution value resolvedBy},
      (s.tasks tid).pc = .handler
        (.resolveUpdate sid current resolution value resolvedBy) →
      AnswersRow env s.db sid current resolution value)
    (hg : ResolvesAnswered env a s) (hstep : apply env a s = some s')
    {rid i : Uuid} {v : Json}
    (hk : s'.Knows (.resumeRun rid v (some i))) : v ≠ .null := by
  rcases knows_origin hstep hk with
    hk | ⟨tid, reply, hd, r, rfl, hpc, hreq, hl, -⟩ | ⟨j, hj⟩ | ⟨k, hk⟩
  · exact h.known rid v i hk
  · obtain ⟨sid, current, resolution, by', iid, rfl, -, -, rfl⟩ :=
      Handler.request_answer hreq hl
    have htx : committing env (.advance tid reply) s
        = some (.resolve sid current resolution by' iid) := by
      unfold committing State.request
      simp only [hpc, Pc.request, hreq, Option.map_some, Request.map]
    unfold ResolvesAnswered at hg
    rw [htx] at hg
    obtain ⟨-, hv⟩ := checkResolution_ok (hr hpc).checked
    intro hnull
    rw [hv, resumeValue_eq_null, hg] at hnull
    cases hnull
  · cases hj
  · cases hk

theorem Faithful.calls_step (h : Faithful s)
    (hstep : apply env a s = some s') {tid : Nat} {inv : Invocation}
    {slot : Option Uuid} {stage : Stage} {i : Uuid}
    (hpc : (s'.tasks tid).pc = .worker (.invoke inv slot stage))
    (hi : inv.interrupt = some i) : inv.resumes = true := by
  rcases apply_invoke hstep hpc with hpc | ⟨reply, w, r, -, hw, -, -, hb⟩
  · exact h.calls hpc hi
  · cases hb with
    | within stage₀ _ hlive => exact h.calls hw hi
    | started j hex db' hc hfresh =>
        rw [hfresh] at hi
        cases hi
    | continued row found session hfresh =>
        rw [hfresh] at hi
        cases hi
    | resumed row db' found session hc =>
        rw [hi] at hw
        have hv := h.known inv.runId inv.resumePayload i
          (Or.inr ⟨tid, by rw [hw]; rfl⟩)
        exact decide_eq_true hv

theorem Faithful.resumed_step (h : Faithful s)
    (hstep : apply env a s = some s') : AnswersResumed s' := by
  intro run resume i he
  rcases apply_db hstep with
    ⟨-, -, hlog | ⟨tid, reply, e, next, hnote, -, hlog⟩⟩
      | ⟨tx, -, ⟨-, hlog⟩ | ⟨-, hlog⟩⟩
  · rw [hlog] at he
    exact h.resumed run resume i he
  · rw [hlog] at he
    rcases List.mem_cons.mp he with rfl | he
    · obtain ⟨inv, slot, hpc, -, hev⟩ := request_note hnote
      injection hev with _ hresume hint
      rw [hresume]
      exact h.calls hpc hint.symm
    · exact h.resumed run resume i he
  · rw [hlog] at he
    exact h.resumed run resume i he
  · rw [hlog] at he
    rcases List.mem_append.mp he with he | he
    · exact absurd he invoked_not_logged
    · exact h.resumed run resume i he

/-- Every step that meets the condition keeps it. -/
theorem reaches_faithful (h : Reaches env (ResolvesAnswered env) s) :
    Faithful s := by
  refine Lts.Reachable.invariant (P := Faithful) ?_ ?_ h
  · refine ⟨?_, (fun h => by cases h), (fun _ _ _ h => by cases h)⟩
    rintro rid v i (hk | ⟨tid, hk⟩)
    · cases hk
    · cases hk
  · intro s a s' hr hf hg hstep
    exact ⟨fun _ _ _ => hf.knows_step (resolveUpdate_answers hr) hg hstep,
      hf.calls_step hstep, hf.resumed_step hstep⟩

end Step

instance (env : Env) (a : Action) (s : State) :
    Decidable (ResolvesAnswered env a s) := by
  dsimp only [ResolvesAnswered]
  generalize committing env a s = tx
  induction tx using Option.casesOn with
  | none => infer_instance
  | some tx => induction tx using Tx.casesOn <;> infer_instance

/-- A question of run 11, open on session 10. -/
def question : InterruptRequest :=
  newInterrupt Settings.default 30 10 (some 11) .informationRequest
    (.obj []) none none 0

def openQuestions : Table InterruptRequest :=
  ⟨[question], List.nodup_singleton _⟩

/-- Actor 2 resolves the question without an answer, and worker 3 runs
the task. -/
def answeredNothing : List Action :=
  [.start 2 (.resolve 10 (.info none false none []) none), .advance 2 .ok,
    .advance 2 (.fresh [40] ""), .advance 2 .ok,
    .deliver 3 1, .advance 3 .ok, .advance 3 .ok, .advance 3 .ok,
    .advance 3 .ok]

end LegalBot
