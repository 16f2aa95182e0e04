/-
What holds of the actors in every state reached, whatever the schedule:
an `_invoke_graph` call is on a stored run and that run's session, and
the run a `continue_session` names is a follow-up, never a pipeline run.
-/
import LegalBot.Orchestrator.Messages

namespace LegalBot

open Relational (HasKey Table)

section Requests

variable {env : Env} {s : State} {tid : Nat} {reply : Reply}

/-- Only an invocation notes, and it notes its graph call. -/
theorem request_note {e : Event} {next : Pc}
    (h : s.request env tid reply = some (.note e next)) :
    ∃ inv slot, (s.tasks tid).pc = .worker (.invoke inv slot .ainvoke)
      ∧ next = .worker (.invoke inv slot .running)
      ∧ e = .invoked inv.runId inv.resumes inv.interrupt := by
  rcases request_cases h with ⟨hd, r₀, -, hr, hm⟩ | ⟨w, r₀, hpc, hr, hm⟩
  · cases r₀ with
    | note e₀ next₀ => exact absurd hr Handler.request_note
    | _ => cases hm
  · cases r₀ with
    | note e₀ next₀ =>
        cases hm
        obtain ⟨inv, slot, rfl, rfl, rfl⟩ := Worker.request_note hr
        exact ⟨inv, slot, hpc, rfl, rfl⟩
    | _ => cases hm

/-- A transaction is a handler's, or a worker's at a known point. -/
theorem request_commit {tx : Tx} {ok : Pc} {raised : String → Pc}
    (h : s.request env tid reply = some (.commit tx ok raised)) :
    tx.byHandler = true
      ∨ (∃ j sid rid hex, (s.tasks tid).pc = .worker (.runPipeline j)
        ∧ tx = .startPipeline j sid rid hex)
      ∨ (∃ rid payload i,
        (s.tasks tid).pc = .worker (.resumeRun rid payload i)
        ∧ tx = .resumeTransition rid)
      ∨ (∃ inv slot stage,
        (s.tasks tid).pc = .worker (.invoke inv slot stage)
        ∧ stage.isOver = false ∧ tx.ofInvocation inv) := by
  rcases request_cases h with ⟨hd, r₀, -, hr, hm⟩ | ⟨w, r₀, hpc, hr, hm⟩
  · cases r₀ with
    | commit tx₀ ok₀ raised₀ =>
        cases hm
        exact Or.inl (Handler.request_commit hr)
    | _ => cases hm
  · cases r₀ with
    | commit tx₀ ok₀ raised₀ =>
        cases hm
        refine Or.inr ?_
        rcases Worker.request_commit hr with
          ⟨j, sid, rid, hex, rfl, rfl⟩ | ⟨rid, payload, i, rfl, rfl⟩
            | ⟨inv, slot, stage, rfl, hlive, htx⟩
        · exact Or.inl ⟨j, sid, rid, hex, hpc, rfl⟩
        · exact Or.inr (Or.inl ⟨rid, payload, i, hpc, rfl⟩)
        · exact Or.inr (Or.inr ⟨inv, slot, stage, hpc, hlive, htx⟩)
    | _ => cases hm

/-- A transaction only an `_invoke_graph` call runs. -/
def Tx.byCall : Tx → Bool
  | .markRunStatus .. | .finalizeJob .. | .failJob .. | .pauseJob ..
  | .writeProjection .. | .openInterrupt .. => true
  | _ => false

theorem byCall_of_byHandler {tx : Tx} (h : tx.byHandler = true) :
    tx.byCall = false := by
  cases tx with
  | _ => first | rfl | cases h

/-- The call that runs such a transaction, and where it goes on. -/
theorem request_call_commit {tx : Tx} {ok : Pc} {raised : String → Pc}
    (h : s.request env tid reply = some (.commit tx ok raised))
    (htx : tx.byCall = true) :
    ∃ inv slot stage ok₀ raised₀,
      (s.tasks tid).pc = .worker (.invoke inv slot stage)
      ∧ stage.request env.cfg s.db inv reply
        = some (.commit tx ok₀ raised₀)
      ∧ ok = .worker (.invoke inv slot ok₀) := by
  rcases request_cases h with ⟨hd, r₀, -, hr, hm⟩ | ⟨w, r₀, hpc, hr, hm⟩
  · cases r₀ with
    | commit tx₀ ok₀ raised₀ =>
        cases hm
        rw [byCall_of_byHandler (Handler.request_commit hr)] at htx
        cases htx
    | _ => cases hm
  · cases r₀ with
    | commit tx₀ ok₀ raised₀ =>
        cases hm
        rcases Worker.request_commit hr with
          ⟨j, sid, rid, hex, -, rfl⟩ | ⟨rid, payload, i, -, rfl⟩
            | ⟨inv, slot, stage, rfl, -, -⟩
        · cases htx
        · cases htx
        · rcases Worker.request_invoke_inv hr with
            ⟨-, hr⟩ | ⟨-, r₁, hr₁, hr⟩
          · cases hr
          · cases r₁ with
            | commit tx₁ ok₁ raised₁ =>
                cases hr
                exact ⟨inv, slot, stage, ok₁, raised₁, hpc, hr₁, rfl⟩
            | _ => cases hr
    | _ => cases hm

/-- The request or cron pass that runs a transaction of theirs, and where
it goes on. -/
theorem request_handler_commit {tx : Tx} {ok : Pc} {raised : String → Pc}
    (h : s.request env tid reply = some (.commit tx ok raised))
    (htx : tx.byHandler = true) :
    ∃ hd ok₀ raised₀, (s.tasks tid).pc = .handler hd
      ∧ hd.request env s.now s.db s.inFlight reply
        = some (.commit tx ok₀ raised₀)
      ∧ ok = .handler ok₀ := by
  rcases request_cases h with ⟨hd, r₀, hpc, hr, hm⟩ | ⟨w, r₀, -, hr, hm⟩
  · cases r₀ with
    | commit tx₀ ok₀ raised₀ =>
        cases hm
        exact ⟨hd, ok₀, raised₀, hpc, hr, rfl⟩
    | _ => cases hm
  · cases r₀ with
    | commit tx₀ ok₀ raised₀ =>
        cases hm
        rcases Worker.request_commit hr with
          ⟨_, _, _, _, -, rfl⟩ | ⟨_, _, _, -, rfl⟩ | ⟨_, _, _, -, -, hof⟩
        · cases htx
        · cases htx
        · rw [byHandler_of_invocation hof] at htx
          cases htx
    | _ => cases hm

/-- A resolution is committed by the actor that checked it. -/
theorem resolve_request {sid iid : Uuid} {current : InterruptRequest}
    {resolution : InterruptResolution} {resolvedBy : Option String}
    {ok : Pc} {raised : String → Pc}
    (h : s.request env tid reply = some (.commit
      (.resolve sid current resolution resolvedBy iid) ok raised)) :
    ∃ value, (s.tasks tid).pc = .handler
        (.resolveUpdate sid current resolution value resolvedBy)
      ∧ ok = .handler (afterResolve current value) := by
  obtain ⟨hd, ok₀, raised₀, hpc, hr, rfl⟩ := request_handler_commit h rfl
  cases hd with
  | resolveUpdate sid₀ current₀ resolution₀ value resolvedBy₀ =>
      simp only [Handler.request] at hr
      split at hr
      · cases hr
        exact ⟨value, hpc, rfl⟩
      · cases hr
      · cases hr
  | _ =>
      unfold Handler.request at hr
      grind

/-- A step that commits is an actor's request. -/
theorem committing_request {a : Action} {tx : Tx}
    (h : committing env a s = some tx) :
    ∃ tid reply ok raised, a = .advance tid reply
      ∧ s.request env tid reply = some (.commit tx ok raised) := by
  cases a with
  | advance tid reply =>
      unfold committing at h
      simp only at h
      split at h
      · rename_i tx' ok raised hr
        injection h with h
        subst h
        exact ⟨tid, reply, ok, raised, rfl, hr⟩
      · cases h
  | _ => cases h

/-- A transaction of a request or a cron pass is run at one of its
points. -/
theorem committing_handler {a : Action} {tx : Tx}
    (h : committing env a s = some tx) (htx : tx.byHandler = true) :
    ∃ tid reply hd ok raised, a = .advance tid reply
      ∧ (s.tasks tid).pc = .handler hd
      ∧ hd.request env s.now s.db s.inFlight reply
        = some (.commit tx ok raised) := by
  obtain ⟨tid, reply, ok, raised, ha, hr⟩ := committing_request h
  obtain ⟨hd, ok₀, raised₀, hpc, hr₀, -⟩ := request_handler_commit hr htx
  exact ⟨tid, reply, hd, ok₀, raised₀, ha, hpc, hr₀⟩

end Requests

-- ============================================================= invocations

section Invocations

variable {env : Env} {s s' : State} {a : Action} {tid : Nat}

/-- How a step puts a worker at a point no task starts at: it was there,
or it asked for something that leads there. -/
theorem apply_worker (h : apply env a s = some s') {w' : Worker}
    (hpc : (s'.tasks tid).pc = .worker w')
    (hinner : ∀ m : Message, m.entry ≠ w') :
    s'.tasks tid = s.tasks tid
      ∨ ∃ reply w r, a = .advance tid reply
        ∧ (s.tasks tid).pc = .worker w
        ∧ w.request env s.db reply = some r
        ∧ s.request env tid reply = some (r.map .worker)
        ∧ s' = s.perform env tid (r.map .worker)
        ∧ r.landing (Tx.commit env.cfg s.now s.db) = w' := by
  rcases apply_task h tid with
    heq | hidle | ⟨entry, -, heq⟩ | ⟨mid, m, -, -, heq⟩
      | ⟨reply, r, ha, hr, rfl⟩
  · exact Or.inl heq
  · rw [hidle] at hpc
    cases hpc
  · rw [heq] at hpc
    cases hpc
  · rw [heq] at hpc
    injection hpc with hpc
    exact absurd hpc (hinner m)
  · rw [perform_pc] at hpc
    rcases request_cases hr with
      ⟨hd, r₀, -, -, rfl⟩ | ⟨w, r₀, hw, hr₀, rfl⟩
    · rw [Request.landing_map] at hpc
      cases hpc
    · rw [Request.landing_map] at hpc
      injection hpc with hpc
      exact Or.inr ⟨reply, w, r₀, ha, hw, hr₀, hr, rfl, hpc⟩

/-- No task starts inside an `_invoke_graph` call. -/
theorem entry_ne_invoke (inv : Invocation) (slot : Option Uuid)
    (stage : Stage) (m : Message) : m.entry ≠ .invoke inv slot stage := by
  cases m with
  | _ => exact Worker.noConfusion

/-- How a step puts an actor inside an `_invoke_graph` call: it was
there, or it begins one. -/
theorem apply_invoke (h : apply env a s = some s') {inv : Invocation}
    {slot : Option Uuid} {stage : Stage}
    (hpc : (s'.tasks tid).pc = .worker (.invoke inv slot stage)) :
    (s.tasks tid).pc = .worker (.invoke inv slot stage)
      ∨ ∃ reply w r, a = .advance tid reply
        ∧ (s.tasks tid).pc = .worker w
        ∧ s.request env tid reply = some (r.map .worker)
        ∧ s' = s.perform env tid (r.map .worker)
        ∧ Begins s.db (Tx.commit env.cfg s.now s.db) inv slot stage w r := by
  rcases apply_worker h hpc (entry_ne_invoke inv slot stage) with
    heq | ⟨reply, w, r, ha, hw, hr₀, hr, hs', hl⟩
  · rw [heq] at hpc
    exact Or.inl hpc
  · exact Or.inr ⟨reply, w, r, ha, hw, hr, hs',
      Worker.request_invoke hr₀ hl⟩

/-- How a step puts a request or a cron pass at an inner point: it was
there, or it asked for something that leads there. -/
theorem apply_handler (h : apply env a s = some s') {hd : Handler}
    (hpc : (s'.tasks tid).pc = .handler hd) (hentry : hd.isEntry = false)
    (hdone : hd ≠ .done) :
    s'.tasks tid = s.tasks tid
      ∨ ∃ reply hd₀ r, a = .advance tid reply
        ∧ (s.tasks tid).pc = .handler hd₀
        ∧ hd₀.request env s.now s.db s.inFlight reply = some r
        ∧ s.request env tid reply = some (r.map .handler)
        ∧ s' = s.perform env tid (r.map .handler)
        ∧ r.landing (Tx.commit env.cfg s.now s.db) = hd := by
  rcases apply_task h tid with
    heq | hidle | ⟨entry, he, heq⟩ | ⟨mid, m, -, -, heq⟩
      | ⟨reply, r, ha, hr, rfl⟩
  · exact Or.inl heq
  · rw [hidle] at hpc
    injection hpc with hpc
    exact absurd hpc.symm hdone
  · rw [heq] at hpc
    injection hpc with hpc
    rw [hpc, hentry] at he
    cases he
  · rw [heq] at hpc
    cases hpc
  · rw [perform_pc] at hpc
    rcases request_cases hr with
      ⟨hd₀, r₀, hpc₀, hr₀, rfl⟩ | ⟨w, r₀, -, -, rfl⟩
    · rw [Request.landing_map] at hpc
      injection hpc with hpc
      exact Or.inr ⟨reply, hd₀, r₀, ha, hpc₀, hr₀, hr, rfl, hpc⟩
    · rw [Request.landing_map] at hpc
      cases hpc

/-- For a call, step by step: it was there, it went on in its call, or it
entered the call at its start. -/
theorem apply_call (h : apply env a s = some s') {inv : Invocation}
    {slot : Option Uuid} {stage : Stage}
    (hpc : (s'.tasks tid).pc = .worker (.invoke inv slot stage)) :
    (s'.tasks tid = s.tasks tid)
      ∨ ∃ reply w r, a = .advance tid reply
        ∧ (s.tasks tid).pc = .worker w
        ∧ w.request env s.db reply = some r
        ∧ s' = s.perform env tid (r.map .worker)
        ∧ ((∃ stage₀ r₀, w = .invoke inv slot stage₀
            ∧ stage₀.isOver = false
            ∧ stage₀.request env.cfg s.db inv reply = some r₀
            ∧ r = r₀.map (Worker.invoke inv slot)
            ∧ r₀.landing (Tx.commit env.cfg s.now s.db) = stage)
          ∨ (stage = .enter
            ∧ Enters s.db (Tx.commit env.cfg s.now s.db) inv slot w)) := by
  rcases apply_worker h hpc (entry_ne_invoke inv slot stage) with
    heq | ⟨reply, w, r, ha, hw, hr, -, hs', hl⟩
  · exact Or.inl heq
  · exact Or.inr ⟨reply, w, r, ha, hw, hr, hs', Worker.request_call hr hl⟩

/-- The run `startPipeline` inserts. -/
theorem startPipeline_run {db db' : Db} {now : Time} {j sid rid : Uuid}
    {hex : String} (h : startPipeline db now j sid rid hex = .ok db') :
    ∃ run, db'.runs.get rid = some run ∧ run.sessionId = sid
      ∧ run.jobId = j := by
  obtain ⟨_, _, _, _, -, -, -, hr, rfl⟩ := startPipeline_ok h
  exact ⟨_, (Table.get_insert hr rid).trans (if_pos rfl), rfl, rfl⟩

/-- Every call is on a stored run and on that run's session. -/
theorem invocation_linked {G : Action → State → Prop}
    (h : Reaches env G s) : ∀ {tid inv slot stage},
      (s.tasks tid).pc = .worker (.invoke inv slot stage) →
      ∃ run, s.db.runs.get inv.runId = some run
        ∧ run.sessionId = inv.sessionId := by
  refine Lts.Reachable.invariant (P := fun s => ∀ {tid inv slot stage},
    (s.tasks tid).pc = .worker (.invoke inv slot stage) →
    ∃ run, s.db.runs.get inv.runId = some run
      ∧ run.sessionId = inv.sessionId) ?_ ?_ h
  · intro tid inv slot stage hpc
    cases hpc
  intro s a s' _ ih _ hstep tid inv slot stage hpc
  -- a run found before the step is found after it, on the same session
  have hkeep : (∃ run, s.db.runs.get inv.runId = some run
      ∧ run.sessionId = inv.sessionId) →
      ∃ run, s'.db.runs.get inv.runId = some run
        ∧ run.sessionId = inv.sessionId := by
    rintro ⟨run, hrun, hsess⟩
    obtain ⟨run', hrun', hmove⟩ := apply_run hstep hrun
    exact ⟨run', hrun', hmove.sessionId.trans hsess⟩
  rcases apply_invoke hstep hpc with hpc | ⟨reply, w, r, -, hw, -, rfl, hb⟩
  · exact hkeep (ih hpc)
  · cases hb with
    | within stage₀ _ hlive => exact hkeep (ih hw)
    | started j hex db' hc hfresh =>
        rw [(perform_commit_map hc).1]
        obtain ⟨run, hrun, hsess, -⟩ := startPipeline_run hc
        exact ⟨run, hrun, hsess⟩
    | continued row found session hfresh =>
        exact hkeep ⟨row, found, session⟩
    | resumed row db' found session hc =>
        exact hkeep ⟨row, found, session⟩

end Invocations

-- ============================================================== follow-ups

/-- A stored run that is not a pipeline run. -/
def IsFollowUp (db : Db) (rid : Uuid) : Prop :=
  ∃ run, db.runs.get rid = some run ∧ run.kind ≠ .pipeline

/-- The run an actor will hand to `continue_session`, or runs it on. -/
def Pc.followUp : Pc → Option Uuid
  | .handler (.publish (.continueSession r)) => some r
  | .worker (.continueSession r) => some r
  | _ => none

section FollowUps

variable {env : Env} {s s' : State} {a : Action} {tid : Nat}

theorem followUp_iff {pc : Pc} {r : Uuid} :
    pc.followUp = some r ↔ pc.carries = some (.continueSession r) := by
  constructor
  · intro h
    unfold Pc.followUp at h
    split at h
    · injection h with h
      rw [h]
      rfl
    · injection h with h
      rw [h]
      rfl
    · cases h
  · intro h
    rcases carries_cases h with rfl | rfl
    · rfl
    · rfl

/-- A follow-up transaction stores the run it will publish. -/
theorem publishes_followUp {cfg : Settings} {now : Time} {db db' : Db}
    {tx : Tx} {rid : Uuid} (hp : Publishes tx (.continueSession rid))
    (hc : tx.commit cfg now db = .ok db') : IsFollowUp db' rid := by
  cases hp with
  | postMessage sid content index msgId rid =>
      obtain ⟨_, _, _, _, runs, -, -, hr, rfl⟩ := postMessage_ok hc
      exact ⟨_, (Table.get_insert hr rid).trans (if_pos rfl),
        fun h => by cases h⟩
  | reminder sid message payload index msgId rid =>
      obtain ⟨_, _, -, ⟨hw, -⟩ | ⟨-, _, runs, -, hr, rfl⟩⟩ :=
        handleReminder_ok hc
      · cases hw
      · exact ⟨_, (Table.get_insert hr rid).trans (if_pos rfl),
          fun h => by cases h⟩

/-- Every `continue_session`, published or running, is on a follow-up. -/
def FollowUpsKnown (s : State) : Prop :=
  (∀ tid r, (s.tasks tid).pc.followUp = some r → IsFollowUp s.db r)
    ∧ ∀ r, .continueSession r ∈ s.sent → IsFollowUp s.db r

theorem apply_isFollowUp (h : apply env a s = some s') {r : Uuid}
    (hr : IsFollowUp s.db r) : IsFollowUp s'.db r := by
  obtain ⟨run, hrun, hkind⟩ := hr
  obtain ⟨run', hrun', hmove⟩ := apply_run h hrun
  exact ⟨run', hrun', by rw [hmove.kind]; exact hkind⟩

theorem followUpsKnown_iff : FollowUpsKnown s
    ↔ ∀ r, s.Knows (.continueSession r) → IsFollowUp s.db r := by
  constructor
  · rintro ⟨hcarried, hsent⟩ r (hr | ⟨tid, hr⟩)
    · exact hsent r hr
    · exact hcarried tid r (followUp_iff.mpr hr)
  · intro h
    refine ⟨fun tid r hr => ?_, fun r hr => h r (Or.inl hr)⟩
    exact h r (Or.inr ⟨tid, followUp_iff.mp hr⟩)

theorem apply_followUpsKnown (h : apply env a s = some s')
    (hk : FollowUpsKnown s) : FollowUpsKnown s' := by
  rw [followUpsKnown_iff] at hk ⊢
  intro r hr
  rcases knows_origin h hr with
    hr | ⟨tid, reply, hd, r₀, -, -, hr₀, hl, rfl⟩ | ⟨j, hj⟩ | ⟨rid, hrid⟩
  · exact apply_isFollowUp h (hk r hr)
  · obtain ⟨tx, raised, db', rfl, hc, hp⟩ := Handler.request_publish hr₀ hl
    rw [(perform_commit_map hc).1]
    exact publishes_followUp hp hc
  · cases hj
  · cases hrid

theorem reaches_followUpsKnown {G : Action → State → Prop}
    (h : Reaches env G s) : FollowUpsKnown s := by
  refine Lts.Reachable.invariant ?_ ?_ h
  · exact ⟨(fun _ _ h => by cases h), (fun _ h => by cases h)⟩
  · intro s a s' _ hk _ hstep
    exact apply_followUpsKnown hstep hk

end FollowUps

end LegalBot
