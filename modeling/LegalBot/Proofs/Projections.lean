/-
What the projections of a session's graph calls leave in its transcript.

# Every projection starts from the front

`graph.ainvoke` returns the whole thread, and `_write_session_projection`
appends every message of it that has a text: it does not look at what an
earlier call has projected. So the agent messages of a session are the
threads its calls have returned, one after the other
(`agentMessages_eq`).

# When each message is there once

They are the messages of the final thread exactly when no call before
the last returned any (`projected_once_iff`). A thread only grows, so a
session whose first call returned a text and that is called again, to
resume or to follow up, repeats it.

A call counts once its projection has committed; one that raises has
left the transcript as it was.
-/
import LegalBot.Orchestrator.Appends

namespace LegalBot

open Relational (HasKey Table)

-- ============================================================== statements

/-- The messages of a thread that have a text, as the transcript names
them. A role `stage_result` is the handoff of a stage. -/
def threadMessages (messages : List GraphMessage) :
    List (String × String) :=
  (projectedMessages ⟨messages, none⟩).filter fun m => m.1 ≠ "stage_result"

/-- An entry a graph call has left, unless it is a handoff. -/
def Entry.agent? (e : Entry) : Option (String × String) :=
  if e.1.isSome ∧ e.2.1 ≠ "stage_result" then some e.2 else none

/-- The agent messages of a session, in the order of their indices. -/
def agentMessages (db : Db) (sid : Uuid) : List (String × String) :=
  (transcript db.messages.rows sid).filterMap fun m => m.entry.agent?

/-- What a transaction projects on a session. -/
def Tx.projects (sid : Uuid) : Tx → List GraphOutput
  | .writeProjection sid' _ output _ => if sid' = sid then [output] else []
  | _ => []

/-- What the graph calls of a session have returned, in the order of
their projections. -/
def projections (env : Env) (sid : Uuid) (acts : List Action) :
    List GraphOutput :=
  Lts.collect (apply env)
    (fun a s => (committed env a s).elim [] (Tx.projects sid)) State.init
    acts

/-- Each call returns what the one before it did, and more: the
`add_messages` channel. -/
def Accumulates (outputs : List GraphOutput) : Prop :=
  outputs.IsChain fun o o' => o.messages <+: o'.messages

/-- The thread the last call returned. -/
def finalThread (outputs : List GraphOutput) : List GraphMessage :=
  (outputs.getLast?).elim [] GraphOutput.messages

-- ======================================================== one transaction

/-- What a projection appends is the thread, and perhaps a handoff. -/
theorem projected_agent (rid : Uuid) (output : GraphOutput) :
    (projectedMessages output).filterMap
        (Entry.agent? ∘ fun m => (some rid, m))
      = threadMessages output.messages := by
  have hguard : (Entry.agent? ∘ fun m : String × String => (some rid, m))
      = Option.guard fun m => decide (m.1 ≠ "stage_result") := by
    funext m
    simp [Entry.agent?, Option.guard]
  rw [hguard, List.filterMap_eq_filter]
  unfold threadMessages projectedMessages
  rw [List.filter_append, List.filter_append]
  congr 1
  cases output.stageResult with
  | none => rfl
  | some handoff => rfl

/-- The agent messages among what a transaction appends. -/
theorem appends_agent (tx : Tx) (sid : Uuid) :
    (tx.appends sid).filterMap Entry.agent?
      = (tx.projects sid).flatMap fun o => threadMessages o.messages := by
  cases tx with
  | writeProjection sid' rid output ids =>
      simp only [Tx.appends, Tx.projects]
      by_cases hsid : sid' = sid
      · rw [if_pos hsid, if_pos hsid, List.flatMap_singleton,
          List.filterMap_map]
        exact projected_agent rid output
      · rw [if_neg hsid, if_neg hsid]
        rfl
  | postMessage sid' content index id rid =>
      simp only [Tx.appends, Tx.projects]
      by_cases hsid : sid' = sid
      · rw [if_pos hsid]
        rfl
      · rw [if_neg hsid]
        rfl
  | handleReminder sid' message wake payload index id rid =>
      simp only [Tx.appends, Tx.projects]
      by_cases hsid : sid' = sid
      · rw [if_pos hsid]
        rfl
      · rw [if_neg hsid]
        rfl
  | _ => rfl

-- =============================================================== whole runs

section Runs

variable {env : Env} {s s' : State} {a : Action}

theorem agentMessages_of_ordered {db : Db} {sid : Uuid}
    (h : RowsNumbered db.messages.rows sid) :
    agentMessages db sid
      = ((sessionRows db.messages.rows sid).map
        SessionMessage.entry).filterMap Entry.agent? := by
  unfold agentMessages
  rw [transcript_eq h, List.filterMap_map]
  rfl

/-- A step adds the threads it projects. -/
theorem apply_agentMessages (hs : Ordered s) (h : apply env a s = some s')
    (sid : Uuid) :
    agentMessages s'.db sid = agentMessages s.db sid
      ++ ((committed env a s).elim [] (Tx.projects sid)).flatMap
        fun o => threadMessages o.messages := by
  have hgrows := apply_grows hs h
  rw [agentMessages_of_ordered (hgrows.numbered sid),
    agentMessages_of_ordered (hs.numbered sid), hgrows.entries,
    List.filterMap_append]
  congr 1
  cases committed env a s with
  | none => rfl
  | some tx => exact appends_agent tx sid

/-- The agent messages of a session are the threads its calls have
returned, one after the other. -/
theorem agentMessages_eq {acts : List Action}
    (h : Lts.run (apply env) State.init acts = some s) (sid : Uuid) :
    agentMessages s.db sid
      = (projections env sid acts).flatMap
        fun o => threadMessages o.messages := by
  have hrun := Lts.collect_invariant (l := [])
    (f := fun a s => (committed env a s).elim [] (Tx.projects sid))
    (P := fun s outputs => Ordered s ∧ agentMessages s.db sid
      = outputs.flatMap fun o => threadMessages o.messages)
    ?_ ⟨init_ordered, rfl⟩ h
  · exact hrun.2
  · rintro s a s' outputs ⟨hs, hmessages⟩ hstep
    refine ⟨apply_ordered hs hstep, ?_⟩
    rw [apply_agentMessages hs hstep, hmessages, List.flatMap_append]

end Runs

-- ============================================================== the result

/-- After any run, the agent messages of a session are those of its
final thread, each once, exactly when no call before the last returned a
message with a text. -/
theorem projected_once_iff {env : Env} {acts : List Action} {s : State}
    (h : Lts.run (apply env) State.init acts = some s) (sid : Uuid) :
    agentMessages s.db sid
        = threadMessages (finalThread (projections env sid acts))
      ↔ ∀ output ∈ (projections env sid acts).dropLast,
        threadMessages output.messages = [] := by
  rw [agentMessages_eq h]
  generalize projections env sid acts = outputs
  rcases List.eq_nil_or_concat outputs with rfl | ⟨earlier, last, rfl⟩
  · exact ⟨fun _ _ hmem => absurd hmem List.not_mem_nil, fun _ => rfl⟩
  · rw [List.concat_eq_append, List.dropLast_concat, List.flatMap_append,
      List.flatMap_singleton]
    unfold finalThread
    rw [List.getLast?_concat]
    show _ ++ threadMessages last.messages = threadMessages last.messages ↔ _
    rw [List.append_left_eq_self, List.flatMap_eq_nil_iff]

-- =============================================================== scenarios

/-- The prompt of a pipeline run and the reply of the agent. -/
def prompt : GraphMessage := .message (some "human") (.text "Process")
def agentReply : GraphMessage := .message (some "ai") (.text "Done")

/-- The first call of session 10 returns its thread and ends. -/
def calledOnce : List Action :=
  firstStart ++
  [.advance 1 .ok, .advance 1 .ok, .advance 1 .ok,
    .advance 1 (.output ⟨[prompt, agentReply], none⟩),
    .advance 1 (.fresh [12, 13] ""), .advance 1 (.interrupts []),
    .advance 1 .ok, .advance 1 .ok, .advance 1 .ok, .advance 1 .ok,
    .advance 1 .ok]

/-- A message is posted, and worker 3 calls the graph on the same thread,
which returns it with one more reply. -/
def calledTwice : List Action :=
  calledOnce ++ followUp ++
  [.advance 2 .ok, .deliver 3 2, .advance 3 .ok, .advance 3 .ok,
    .advance 3 .ok, .advance 3 .ok,
    .advance 3 (.output ⟨[prompt, agentReply, agentReply], none⟩),
    .advance 3 (.fresh [22, 23, 24] "")]

/-- After one call every message is there once. -/
theorem first_call_projected_once : ∃ s,
    Lts.run (apply Env.default) State.init calledOnce = some s
    ∧ agentMessages s.db 10
      = threadMessages
        (finalThread (projections Env.default 10 calledOnce))
    ∧ agentMessages s.db 10 = [("human", "Process"), ("ai", "Done")] := by
  obtain ⟨s, hs⟩ := Option.isSome_iff_exists.mp
    (show (Lts.run (apply Env.default) State.init calledOnce).isSome by
      decide +kernel)
  have hcalls : projections Env.default 10 calledOnce
      = [⟨[prompt, agentReply], none⟩] := by decide +kernel
  have honce := (projected_once_iff hs 10).mpr (by simp [hcalls])
  refine ⟨s, hs, honce, ?_⟩
  rw [honce, hcalls]
  decide

/-- The second call of a thread repeats what the first has left. -/
theorem second_call_repeats :
    ¬ ∀ (env : Env) (acts : List Action) (s : State) (sid : Uuid),
      Lts.run (apply env) State.init acts = some s →
      Accumulates (projections env sid acts) →
      agentMessages s.db sid
        = threadMessages (finalThread (projections env sid acts)) := by
  intro h
  obtain ⟨s, hs⟩ := Option.isSome_iff_exists.mp
    (show (Lts.run (apply Env.default) State.init calledTwice).isSome by
      decide +kernel)
  have hcalls : projections Env.default 10 calledTwice
      = [⟨[prompt, agentReply], none⟩,
        ⟨[prompt, agentReply, agentReply], none⟩] := by decide +kernel
  have hthread : Accumulates (projections Env.default 10 calledTwice) := by
    rw [hcalls]
    exact .cons_cons (List.prefix_append _ [agentReply]) (.singleton _)
  have hstored : (Lts.run (apply Env.default) State.init calledTwice).map
      (fun s => (agentMessages s.db 10).length) = some 5 := by
    decide +kernel
  rw [hs, Option.map_some, h Env.default calledTwice s 10 hs hthread,
    hcalls] at hstored
  revert hstored
  decide

end LegalBot
