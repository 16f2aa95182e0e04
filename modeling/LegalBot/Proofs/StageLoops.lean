/-
What the model of a stage is shown of its stage, and what the stage hands
off.

# Rounds

A round is a reply that calls tools and the answers to it. It is a block
of a valid history exactly when the calls of the reply have different
usable ids (`Sound`); the answers are always there, one for each call, so
nothing else can make it invalid. Sanitising a history therefore keeps
what it kept before the round and the round, or else nothing
(`sanitize_round`).

# Requests

So each request has the prompt and what `visible` says: all rounds since
the last one that is not sound, and behind the sanitised start if there
is none (`stage_requests`). After a reply that is not sound the model is
asked as if the stage had not begun.

# The handoff

The last message is a reply without calls, never the answer of a tool
that asks a person, so that the handoff never waits for one
(`stage_hands_off`).
-/
import LegalBot.Agents.StageGraph
import LegalBot.Lib.Programs
import LegalBot.Proofs.LoneWrites
import LegalBot.Proofs.StageHandoff
import LegalBot.Proofs.ToolChains
import Mathlib.Data.List.DropRight

namespace LegalBot.Stages

open Programs (returned_bind)
open Tools (ToolState alone sampleBlobs)

-- ==================================================================== rounds

/-- A reply and the answers to its calls. -/
structure Round where
  reply : Message
  answers : List Message

def Round.messages (r : Round) : List Message := r.reply :: r.answers

/-- The reply calls tools, and each call is answered. -/
structure Round.Answered (r : Round) : Prop where
  ai : r.reply.type = some "ai"
  calls : r.reply.toolCalls ≠ []
  answered : r.answers.map (fun m => (m.type, m.toolCallId))
    = r.reply.toolCalls.map fun call => (some "tool", call.id)

/-- The calls have different usable ids. -/
def Message.Sound (rt : Runtime) (m : Message) : Prop :=
  (∀ call ∈ m.toolCalls, call.usableId rt ≠ none)
    ∧ (m.toolCalls.map fun call => call.usableId rt).Nodup

instance (rt : Runtime) (m : Message) : Decidable (m.Sound rt) :=
  inferInstanceAs (Decidable ((∀ call ∈ m.toolCalls,
      call.usableId rt ≠ none)
    ∧ (m.toolCalls.map fun call => call.usableId rt).Nodup))

section Rounds

variable {rt : Runtime} {r : Round} {m : Message}
  {xs rest answers h : List Message} {call : ToolCall}

theorem usableId_eq_some {i : String} :
    call.usableId rt = some i
      ↔ call.id ≠ .null ∧ strOf rt call.id ≠ "" ∧ strOf rt call.id = i := by
  unfold ToolCall.usableId
  split
  · rename_i h
    refine iff_of_false (fun h => by cases h) fun hi => ?_
    rcases h with h | h
    · exact hi.1 h
    · exact hi.2.1 h
  · rename_i h
    obtain ⟨hid, htext⟩ := not_or.mp h
    rw [Option.some.injEq]
    exact ⟨fun hi => ⟨hid, htext, hi⟩, fun hi => hi.2.2⟩

theorem mem_toolCallIds {i : String} :
    i ∈ toolCallIdsFromAi rt m
      ↔ ∃ call ∈ m.toolCalls, call.usableId rt = some i := by
  unfold toolCallIdsFromAi
  rw [List.mem_toFinset, List.mem_filterMap]

/-- Each answer is one to a call. -/
theorem Round.Answered.of_mem (hr : r.Answered) {a : Message}
    (ha : a ∈ r.answers) : a.type = some "tool"
      ∧ ∃ call ∈ r.reply.toolCalls, a.toolCallId = call.id := by
  have hmem : (a.type, a.toolCallId)
      ∈ r.answers.map fun m => (m.type, m.toolCallId) :=
    List.mem_map_of_mem ha
  rw [hr.answered] at hmem
  obtain ⟨call, hcall, heq⟩ := List.mem_map.mp hmem
  obtain ⟨htype, hid⟩ := Prod.mk.inj heq
  exact ⟨htype.symm, call, hcall, hid.symm⟩

/-- The ids that are answered, in order. -/
theorem Round.Answered.ids (hr : r.Answered) :
    r.answers.map (Message.answers rt)
      = r.reply.toolCalls.map fun call => strOf rt call.id := by
  have hids := congrArg (List.map fun p => strOf rt p.2) hr.answered
  rw [List.map_map, List.map_map] at hids
  exact hids

theorem usableId_of_sound (hsound : m.Sound rt)
    (hcall : call ∈ m.toolCalls) :
    call.usableId rt = some (strOf rt call.id) := by
  obtain ⟨i, hi⟩ := Option.ne_none_iff_exists'.mp (hsound.1 call hcall)
  rw [hi, (usableId_eq_some.mp hi).2.2]

/-- A sound round is a block. -/
theorem Round.Answered.block (hr : r.Answered)
    (hsound : r.reply.Sound rt) : Block rt r.messages := by
  have hnodup : (r.reply.toolCalls.map fun call =>
      strOf rt call.id).Nodup := by
    have hids : (r.reply.toolCalls.map fun call => call.usableId rt)
        = (r.reply.toolCalls.map fun call => strOf rt call.id).map some := by
      rw [List.map_map]
      exact List.map_congr_left fun call hcall =>
        usableId_of_sound hsound hcall
    exact (hids ▸ hsound.2).of_map
  have hfound : toolCallIdsFromAi rt r.reply
      = (r.reply.toolCalls.map fun call => strOf rt call.id).toFinset := by
    unfold toolCallIdsFromAi
    rw [← List.filterMap_eq_map',
      List.filterMap_congr fun call hcall =>
        usableId_of_sound hsound hcall]
  refine .turn ⟨hr.ai, fun hnone => ?_⟩ (fun a ha => ?_) ?_
  · obtain ⟨call, hcall⟩ := List.exists_mem_of_ne_nil _ hr.calls
    have hmem : strOf rt call.id ∈ toolCallIdsFromAi rt r.reply :=
      mem_toolCallIds.mpr ⟨call, hcall, usableId_of_sound hsound hcall⟩
    rw [hnone] at hmem
    exact Finset.notMem_empty _ hmem
  · obtain ⟨htype, call, hcall, hid⟩ := hr.of_mem ha
    rw [Message.IsAnswer, hid]
    exact ⟨htype,
      (usableId_eq_some.mp (usableId_of_sound hsound hcall)).1⟩
  · rw [hfound, List.toFinset_val, hnodup.dedup, hr.ids]

/-- If its answers leave nothing pending, the round is sound. -/
theorem Round.Answered.sound (hr : r.Answered)
    (h : pendingAfter rt (toolCallIdsFromAi rt r.reply) r.answers
      = some ∅) : r.reply.Sound rt := by
  obtain ⟨answers, rest, hsplit, hanswers, hids, hrest⟩ :=
    chain_of_pendingAfter h
  -- all of it is answers
  have hnil : rest = [] := by
    cases rest with
    | nil => rfl
    | cons a rest =>
        have htool : a.type = some "tool" :=
          (hr.of_mem (hsplit ▸ List.mem_append_right _
            List.mem_cons_self)).1
        have hvalid := of_decide_eq_true (valid_of_chain hrest)
        rw [pendingAfter_answer htool, if_pos (by simp)] at hvalid
        cases hvalid
  rw [hnil, List.append_nil] at hsplit
  subst hsplit
  rw [hr.ids] at hids
  have husable : ∀ call ∈ r.reply.toolCalls,
      call.usableId rt = some (strOf rt call.id) := by
    intro call hcall
    have hmem : strOf rt call.id ∈ toolCallIdsFromAi rt r.reply := by
      rw [← Finset.mem_val, ← hids]
      exact Multiset.mem_coe.mpr (List.mem_map_of_mem hcall)
    obtain ⟨other, -, hother⟩ := mem_toolCallIds.mp hmem
    obtain ⟨-, htext, heq⟩ := usableId_eq_some.mp hother
    have hanswer : (some "tool", call.id)
        ∈ r.answers.map fun m => (m.type, m.toolCallId) := by
      rw [hr.answered]
      exact List.mem_map_of_mem hcall
    obtain ⟨a, ha, heq'⟩ := List.mem_map.mp hanswer
    refine usableId_eq_some.mpr ⟨?_, heq ▸ htext, rfl⟩
    rw [← (Prod.mk.inj heq').2]
    exact (hanswers a ha).2
  refine ⟨fun call hcall => by simp [husable call hcall], ?_⟩
  have hnodup : (r.reply.toolCalls.map fun call =>
      strOf rt call.id).Nodup := by
    rw [← Multiset.coe_nodup, hids]
    exact (toolCallIdsFromAi rt r.reply).nodup
  rw [List.map_congr_left husable]
  exact hnodup.of_map.map_on fun c hc c' hc' heq =>
    List.inj_on_of_nodup_map hnodup hc hc' (Option.some.inj heq)

/-- What is no tool message starts anew. -/
theorem valid_append_other (hm : m.type ≠ some "tool") :
    openaiToolChainValid rt (xs ++ m :: rest) = true
      ↔ openaiToolChainValid rt xs = true
        ∧ openaiToolChainValid rt (m :: rest) = true := by
  constructor
  · intro hvalid
    have hall := of_decide_eq_true hvalid
    rw [pendingAfter_append] at hall
    obtain ⟨pending, hxs, hrest⟩ := Option.bind_eq_some_iff.mp hall
    have hnone : pending = ∅ := by
      by_contra hne
      rw [pendingAfter_other hm, if_pos hne] at hrest
      cases hrest
    rw [hnone] at hxs hrest
    exact ⟨decide_eq_true hxs, decide_eq_true hrest⟩
  · rintro ⟨hxs, hrest⟩
    exact valid_append hxs hrest

/-- The answers alone are no history. -/
theorem sanitize_answers (h : ∀ a ∈ answers, a.type = some "tool") :
    sanitizeMessagesForOpenaiChat rt answers = [] := by
  induction answers with
  | nil => rfl
  | cons a rest ih =>
      have hinvalid : openaiToolChainValid rt (a :: rest) = false := by
        refine decide_eq_false ?_
        rw [pendingAfter_answer (h a List.mem_cons_self),
          if_pos (by simp)]
        exact nofun
      rw [sanitizeMessagesForOpenaiChat, hinvalid,
        if_neg Bool.false_ne_true]
      exact ih fun b hb => h b (List.mem_cons_of_mem _ hb)

theorem Round.Answered.valid_iff (hr : r.Answered) :
    openaiToolChainValid rt r.messages = true ↔ r.reply.Sound rt := by
  constructor
  · intro hvalid
    have hall := of_decide_eq_true hvalid
    have htool : r.reply.type ≠ some "tool" := by simp [hr.ai]
    rw [Round.messages, pendingAfter_other htool,
      if_neg (not_not_intro rfl), if_pos hr.ai] at hall
    exact hr.sound hall
  · exact fun hsound => valid_block (hr.block hsound)

/-- Of a history that ends in a round, sanitising keeps the round and
what it kept before it, or nothing. -/
theorem sanitize_round (hr : r.Answered) :
    sanitizeMessagesForOpenaiChat rt (xs ++ r.messages)
      = if r.reply.Sound rt then
          sanitizeMessagesForOpenaiChat rt xs ++ r.messages
        else [] := by
  have htool : r.reply.type ≠ some "tool" := by simp [hr.ai]
  induction xs with
  | nil =>
      rw [List.nil_append]
      by_cases hsound : r.reply.Sound rt
      · rw [if_pos hsound]
        exact sanitize_of_valid (hr.valid_iff.mpr hsound)
      · have hinvalid :
            ¬ openaiToolChainValid rt (r.reply :: r.answers) = true :=
          fun hvalid => hsound (hr.valid_iff.mp hvalid)
        rw [if_neg hsound, Round.messages, sanitizeMessagesForOpenaiChat,
          if_neg hinvalid]
        exact sanitize_answers fun a ha => (hr.of_mem ha).1
  | cons x xs ih =>
      have hsplit : openaiToolChainValid rt (x :: xs ++ r.messages) = true
          ↔ openaiToolChainValid rt (x :: xs) = true
            ∧ r.reply.Sound rt := by
        rw [← hr.valid_iff]
        exact valid_append_other htool
      rw [List.cons_append] at hsplit ⊢
      rw [sanitizeMessagesForOpenaiChat, ih]
      by_cases hsound : r.reply.Sound rt
      · rw [if_pos hsound, if_pos hsound, sanitizeMessagesForOpenaiChat]
        by_cases hvalid : openaiToolChainValid rt (x :: xs) = true
        · rw [if_pos (hsplit.mpr ⟨hvalid, hsound⟩), if_pos hvalid]
          rfl
        · rw [if_neg fun h => hvalid (hsplit.mp h).1, if_neg hvalid]
      · rw [if_neg hsound, if_neg hsound,
          if_neg fun h => hsound (hsplit.mp h).2]

end Rounds

-- =================================================================== visible

/-- What is shown of a history and the rounds after it: all of it, or the
rounds since the last one that is not sound. -/
def visible (rt : Runtime) (history : List Message)
    (rounds : List Round) : List Message :=
  (if ∀ r ∈ rounds, r.reply.Sound rt then
      sanitizeMessagesForOpenaiChat rt history
    else [])
    ++ (rounds.rtakeWhile fun r => r.reply.Sound rt).flatMap Round.messages

theorem sanitize_rounds {rt : Runtime} {history : List Message}
    {rounds : List Round} (h : ∀ r ∈ rounds, r.Answered) :
    sanitizeMessagesForOpenaiChat rt
        (history ++ rounds.flatMap Round.messages)
      = visible rt history rounds := by
  induction rounds using List.reverseRecOn with
  | nil => simp [visible]
  | append_singleton rounds r ih =>
      have hround : sanitizeMessagesForOpenaiChat rt
            (history ++ rounds.flatMap Round.messages ++ r.messages)
          = if r.reply.Sound rt then
              visible rt history rounds ++ r.messages
            else [] := by
        rw [sanitize_round (h r (by simp)),
          ih fun r' hr' => h r' (List.mem_append_left _ hr')]
      rw [List.flatMap_append, List.flatMap_singleton,
        ← List.append_assoc, hround]
      unfold visible
      rw [List.rtakeWhile_concat]
      have hall : (∀ r' ∈ rounds ++ [r], r'.reply.Sound rt)
          ↔ (∀ r' ∈ rounds, r'.reply.Sound rt) ∧ r.reply.Sound rt := by
        rw [List.forall_mem_append, List.forall_mem_singleton]
      rw [if_congr hall rfl rfl]
      by_cases hsound : r.reply.Sound rt
      · simp [hsound]
      · simp [hsound]

-- ================================================================== requests

/-- The messages of a request that shows these. -/
def StageGraph.asked (g : StageGraph) (prompt : Subagent → String)
    (seen : List Message) : List Message :=
  if seen = [] then
    [systemMessage (prompt g.stage), humanMessage g.fallbackHuman]
  else if seen.any fun message =>
      message.type = some "system"
        ∧ message.content = .str (prompt g.stage) then seen
  else systemMessage (prompt g.stage) :: seen

section Requests

variable {g : StageGraph} {st : Stage} {prompt : Subagent → String}
  {s s' : StageState} {e : StageEvent} {call : ToolCall}
  {calls : List ToolCall} {events : List StageEvent}

theorem request_eq {messages : List Message} :
    g.request st prompt messages
      = g.asked prompt
        (sanitizeMessagesForOpenaiChat st.env.rt messages) := by
  unfold StageGraph.request prepareStageMessages
  by_cases hnil : messages = []
  · rw [if_pos hnil, hnil]
    rfl
  · rw [if_neg hnil]
    rfl

/-- The answer to a call is added. -/
theorem step_answer (hstep : StageState.step st e s = some s')
    (hanswers : answersCall g.tools call e = true) :
    ∃ m : Message, s'.messages = s.messages ++ [m]
      ∧ (m.type, m.toolCallId) = (some "tool", call.id) := by
  cases e with
  | message m =>
      obtain ⟨htype, hid, -⟩ := of_decide_eq_true hanswers
      injection hstep with hstep
      exact ⟨m, hstep ▸ rfl, Prod.ext htype hid⟩
  | call firstId secondId callId c =>
      obtain ⟨-, hid, -⟩ := of_decide_eq_true hanswers
      unfold StageState.step at hstep
      dsimp only at hstep
      split at hstep
      · split at hstep
        · injection hstep with hstep
          subst hstep
          exact ⟨_, rfl, by rw [hid]; rfl⟩
        · cases hstep
      · cases hstep
  | raised firstId secondId callId c text =>
      obtain ⟨-, hid, -⟩ := of_decide_eq_true hanswers
      unfold StageState.step at hstep
      dsimp only at hstep
      split at hstep
      · cases hstep
      · injection hstep with hstep
        subst hstep
        exact ⟨_, rfl, by rw [hid]; rfl⟩

/-- So are those of a tool node, to each call one. -/
theorem run_answers (hrun : Lts.run (StageState.step st) s events = some s')
    (hanswers : answersCalls g.tools calls events = true) :
    ∃ answers, s'.messages = s.messages ++ answers
      ∧ answers.map (fun m => (m.type, m.toolCallId))
        = calls.map fun call => (some "tool", call.id) := by
  induction calls generalizing events s with
  | nil =>
      cases events with
      | nil =>
          injection hrun with hrun
          exact ⟨[], by rw [hrun, List.append_nil], rfl⟩
      | cons e events => cases hanswers
  | cons call calls ih =>
      cases events with
      | nil => cases hanswers
      | cons e events =>
          obtain ⟨hcall, hrest⟩ := Bool.and_eq_true_iff.mp hanswers
          unfold Lts.run at hrun
          cases hstep : StageState.step st e s with
          | none => simp [hstep] at hrun
          | some s₁ =>
              rw [hstep] at hrun
              obtain ⟨m, hmessages, hm⟩ := step_answer hstep hcall
              obtain ⟨answers, hlater, hids⟩ := ih hrun hrest
              refine ⟨m :: answers, ?_, ?_⟩
              · rw [hlater, hmessages, List.append_assoc]
                rfl
              · rw [List.map_cons, List.map_cons, hm, hids]

end Requests

-- ==================================================================== ending

section Ending

variable {g : StageGraph} {st : Stage} {id : Uuid}
  {emails : Uuid → Option Inventory.EmailRow} {s s' : StageState}
  {result : StageResult}

/-- After a reply no person is waited for. -/
theorem result_done (stage : String) (candidates : Option (List String))
    (next : Option String) {m : Message}
    (hlast : s.messages.getLast? = some m) (hai : m.type = some "ai") :
    (s.result st stage candidates next).needsHuman = false
      ∧ (s.result st stage candidates next).status = "completed"
      ∧ (s.result st stage candidates next).nextStage = next := by
  have hhuman : lastMessageIsHumanTool s.messages = false := by
    unfold lastMessageIsHumanTool
    rw [hlast]
    simp [hai]
  refine ⟨hhuman, ?_, ?_⟩
  · change (if lastMessageIsHumanTool s.messages = true then _ else _) = _
    rw [hhuman]
    rfl
  · change (if lastMessageIsHumanTool s.messages = true then _ else _) = _
    rw [hhuman]
    rfl

/-- What the node returns when there was no inventory to write, and when
there was. -/
theorem finalizeNode_cases {rt : Runtime} {floatRepr : String → String}
    {svc : ArtifactService} {src : Inventory.Sources}
    {messages : List Message} {sid : Uuid} {runId : Option Uuid}
    {done : Inventory.Finalized}
    (h : Inventory.finalizeNode rt floatRepr svc src messages sid runId id
      = .ok done) :
    (done.artifacts = src.db.artifacts ∧ done.blobs = src.blobs
        ∧ ∃ summary, done.stageResult
          = { Inventory.buildExtractStageResult floatRepr messages with
              summary := summary, primaryArtifactKey := none })
      ∨ ((∃ inventory row, write rt svc src.db.artifacts src.blobs
            (Inventory.inventoryWrite sid runId inventory) id
              = .ok (row, done.artifacts, done.blobs))
        ∧ done.stageResult
          = Inventory.buildExtractStageResult floatRepr messages) := by
  unfold Inventory.finalizeNode at h
  obtain ⟨inventory, -, h⟩ := returned_bind h
  dsimp only at h
  split at h
  · cases h
    exact Or.inl ⟨rfl, rfl, _, rfl⟩
  · obtain ⟨written, hwritten, h⟩ := returned_bind h
    unfold Inventory.writeExtractInventory at hwritten
    obtain ⟨⟨row, artifacts, blobs⟩, hwrite, hwritten⟩ :=
      returned_bind hwritten
    cases hwritten
    cases h
    exact Or.inr ⟨⟨inventory, row, hwrite⟩, rfl⟩

/-- What a stage leaves when it is done: its store as it was or, where the
extract stage names its inventory, with a version of it more. -/
structure HandedOff (g : StageGraph) (st : Stage) (before after : StageState)
    (result : StageResult) : Prop where
  stage : result.stage = g.stage.checkpointNs
  human : result.needsHuman = false
  status : result.status = "completed"
  next : result.nextStage = g.nextStage
  kept : g.stage ≠ .extract ∨ result.primaryArtifactKey = none →
    after = before
  written : g.stage = .extract → result.primaryArtifactKey ≠ none →
    result.primaryArtifactKey = some "analysis/extracted"
      ∧ ∃ row, AddsVersion st.sessionId "analysis/extracted"
          before.tools.t.db.artifacts.rows row
          after.tools.t.db.artifacts.rows

theorem finalize_spec (hg : g ∈ stageGraphs) {m : Message}
    (hlast : s.messages.getLast? = some m) (hai : m.type = some "ai")
    (h : g.finalize st emails id s = some (s', result)) :
    s'.messages = s.messages ∧ HandedOff g st s s' result := by
  unfold StageGraph.finalize at h
  split at h
  · rename_i hextract
    have hgraph : g = extractGraph := by
      unfold stageGraphs at hg
      simp only [List.mem_cons, List.not_mem_nil, or_false] at hg
      rcases hg with rfl | rfl | rfl | rfl | rfl <;>
        first | rfl | cases hextract
    subst hgraph
    split at h
    · rename_i done hdone
      cases h
      obtain ⟨hhuman, hstatus, hnext⟩ := @result_done st s
        "extract" (some ["analysis/extracted"]) (some "analyze") m hlast hai
      rcases finalizeNode_cases hdone with
        ⟨hartifacts, hblobs, summary, hresult⟩
        | ⟨⟨inventory, row, hwrite⟩, hresult⟩
      · refine ⟨rfl, ?_⟩
        rw [hresult, hartifacts, hblobs]
        exact ⟨rfl, hhuman, hstatus, hnext, fun _ => rfl,
          fun _ hne => absurd rfl hne⟩
      · refine ⟨rfl, ?_⟩
        rw [hresult]
        exact ⟨rfl, hhuman, hstatus, hnext,
          fun h => h.elim (absurd rfl) nofun,
          fun _ _ => ⟨rfl, row, write_adds hwrite⟩⟩
    · cases h
  · rename_i hextract
    cases h
    obtain ⟨hhuman, hstatus, hnext⟩ := @result_done st s
      g.stage.checkpointNs g.primaryArtifactKey g.nextStage m hlast hai
    exact ⟨rfl, rfl, hhuman, hstatus, hnext, fun _ => rfl,
      fun h => absurd h hextract⟩

end Ending

-- ===================================================================== loops

/-- The reply a node follows: none before the model is asked, one with
calls before the tools run, one without them at the end. -/
def Follows : LoopNode → Option Message → Prop
  | .model, none => True
  | .tools, some m => m.type = some "ai" ∧ m.toolCalls ≠ []
  | .finalize, some m | .done, some m =>
      m.type = some "ai" ∧ m.toolCalls = []
  | _, _ => False

/-- What is so of a graph under way: its messages are the rounds that are
over and the reply after them, and each request showed the rounds before
it. -/
structure Looped (g : StageGraph) (st : Stage)
    (prompt : Subagent → String) (history : List Message) (s : LoopState)
    (rounds : List Round) (last : Option Message) : Prop where
  answered : ∀ r ∈ rounds, r.Answered
  follows : Follows s.next last
  messages : s.stage.messages
    = history ++ rounds.flatMap Round.messages ++ last.toList
  requests : s.requests
    = (List.range (rounds.length + last.toList.length)).map fun i =>
      g.asked prompt (visible st.env.rt history (rounds.take i))

section Loops

variable {g : StageGraph} {st : Stage} {prompt : Subagent → String}
  {emails : Uuid → Option Inventory.EmailRow} {tools : ToolState}
  {history : List Message} {s s' : LoopState} {rounds : List Round}
  {last : Option Message} {m : Message} {e : LoopEvent}

theorem getLast?_append_toList {xs : List Message} (h : last = some m) :
    (xs ++ last.toList).getLast? = some m := by
  rw [h]
  exact List.getLast?_concat

/-- A request shows the rounds that are over. -/
theorem Looped.request (h : Looped g st prompt history s rounds none) :
    g.request st prompt s.stage.messages
      = g.asked prompt (visible st.env.rt history rounds) := by
  rw [request_eq, h.messages, Option.toList_none, List.append_nil,
    sanitize_rounds h.answered]

theorem Looped.reply (h : Looped g st prompt history s rounds none)
    (hai : m.type = some "ai") {stage : StageState}
    (hmessages : stage.messages = s.stage.messages ++ [m]) :
    Looped g st prompt history
      { s with
        next := shouldContinue stage.messages
        stage := stage
        requests := s.requests ++ [g.request st prompt s.stage.messages] }
      rounds (some m) where
  answered := h.answered
  follows := by
    have hnext : shouldContinue stage.messages
        = if m.toolCalls ≠ [] then .tools else .finalize := by
      unfold shouldContinue
      rw [hmessages, List.getLast?_concat]
    dsimp only
    rw [hnext]
    by_cases hcalls : m.toolCalls ≠ []
    · rw [if_pos hcalls]
      exact ⟨hai, hcalls⟩
    · rw [if_neg hcalls]
      exact ⟨hai, not_not.mp hcalls⟩
  messages := by
    dsimp only
    rw [hmessages, h.messages, Option.toList_none, List.append_nil]
    rfl
  requests := by
    dsimp only
    rw [h.request, h.requests, Option.toList_none, Option.toList_some,
      List.length_nil, List.length_singleton, List.range_succ,
      List.map_append, List.map_singleton, List.take_length]
    rfl

theorem Looped.answers
    (h : Looped g st prompt history s rounds (some m))
    (hai : m.type = some "ai") (hcalls : m.toolCalls ≠ [])
    {stage : StageState} {answers : List Message}
    (hmessages : stage.messages = s.stage.messages ++ answers)
    (hanswers : answers.map (fun a => (a.type, a.toolCallId))
      = m.toolCalls.map fun call => (some "tool", call.id)) :
    Looped g st prompt history
      { s with next := .model, stage := stage }
      (rounds ++ [⟨m, answers⟩]) none where
  answered r hr := by
    rcases List.mem_append.mp hr with hr | hr
    · exact h.answered r hr
    · rw [List.mem_singleton.mp hr]
      exact ⟨hai, hcalls, hanswers⟩
  follows := trivial
  messages := by
    dsimp only
    rw [hmessages, h.messages, List.flatMap_append, List.flatMap_singleton]
    simp [Round.messages]
  requests := by
    dsimp only
    rw [h.requests, List.length_append]
    refine List.map_congr_left fun i hi => ?_
    have hle : i ≤ rounds.length :=
      Nat.lt_succ_iff.mp (List.mem_range.mp hi)
    rw [List.take_append_of_le_length hle]

theorem Looped.step (h : Looped g st prompt history s rounds last)
    (hg : g ∈ stageGraphs)
    (hstep : LoopState.step g st prompt emails e s = some s') :
    ∃ rounds last, Looped g st prompt history s' rounds last := by
  have hfollows := h.follows
  cases e with
  | reply m =>
      unfold LoopState.step at hstep
      dsimp only at hstep
      split at hstep
      · rename_i hmodel
        rw [hmodel.1] at hfollows
        cases last with
        | some m' => exact hfollows.elim
        | none =>
            injection hstep with hstep
            rw [← hstep]
            exact ⟨rounds, some m, h.reply hmodel.2 rfl⟩
      · cases hstep
  | tools answers =>
      unfold LoopState.step at hstep
      dsimp only at hstep
      split at hstep
      · rename_i htools
        rw [htools.1] at hfollows
        cases last with
        | none => exact hfollows.elim
        | some m =>
            obtain ⟨stage, hrun, hstage⟩ := Option.map_eq_some_iff.mp hstep
            have hpending : pendingCalls s.stage.messages = m.toolCalls := by
              unfold pendingCalls
              rw [h.messages, getLast?_append_toList rfl]
            rw [hpending] at htools
            obtain ⟨new, hmessages, hids⟩ := run_answers hrun htools.2
            rw [← hstage]
            exact ⟨_, none,
              h.answers hfollows.1 hfollows.2 hmessages hids⟩
      · cases hstep
  | finalize id =>
      unfold LoopState.step at hstep
      dsimp only at hstep
      split at hstep
      · rename_i hfinalize
        rw [hfinalize] at hfollows
        cases last with
        | none => exact hfollows.elim
        | some m =>
            obtain ⟨⟨stage, result⟩, hdone, hs'⟩ :=
              Option.map_eq_some_iff.mp hstep
            have hlast : s.stage.messages.getLast? = some m := by
              rw [h.messages, getLast?_append_toList rfl]
            have hmessages :=
              (finalize_spec hg hlast hfollows.1 hdone).1
            rw [← hs']
            exact ⟨rounds, some m, h.answered, hfollows,
              hmessages.trans h.messages, h.requests⟩
      · cases hstep

theorem looped_start :
    Looped g st prompt history (.start tools history) [] none where
  answered r hr := by cases hr
  follows := trivial
  messages := by
    simp only [List.flatMap_nil, List.append_nil, Option.toList_none]
    rfl
  requests := rfl

theorem LoopReaches.looped (hg : g ∈ stageGraphs)
    (h : LoopReaches g st prompt emails (.start tools history) s) :
    ∃ rounds last, Looped g st prompt history s rounds last := by
  induction h with
  | init => exact ⟨[], none, looped_start⟩
  | step e _ _ hstep ih =>
      obtain ⟨rounds, last, hlooped⟩ := ih
      exact hlooped.step hg hstep

/-- The history of a stage is replies with calls, each with one answer to
every call, and at the end perhaps a reply; request for request, the model
was shown the rounds since the last reply whose calls do not have
different usable ids, and what was there before the stage only if there
was no such reply. -/
theorem stage_requests (hg : g ∈ stageGraphs)
    (h : LoopReaches g st prompt emails (.start tools history) s) :
    ∃ (rounds : List Round) (last : Option Message),
      (∀ r ∈ rounds, r.Answered)
      ∧ s.stage.messages
        = history ++ rounds.flatMap Round.messages ++ last.toList
      ∧ s.requests
        = (List.range (rounds.length + last.toList.length)).map fun i =>
          g.asked prompt (visible st.env.rt history (rounds.take i)) := by
  obtain ⟨rounds, last, hlooped⟩ := h.looped hg
  exact ⟨rounds, last, hlooped.answered, hlooped.messages,
    hlooped.requests⟩

-- ================================================================== handoffs

/-- A run of the history model goes with the graph until it is done; then
there is a handoff. -/
def Ends (g : StageGraph) (st : Stage) (start : StageState)
    (s : LoopState) : Prop :=
  ∃ before, StageReaches st start before
    ∧ match s.handoff with
      | none => s.next ≠ .done ∧ s.stage = before
      | some result => s.next = .done
        ∧ HandedOff g st before s.stage result

theorem shouldContinue_ne_done {messages : List Message} :
    shouldContinue messages ≠ .done := by
  unfold shouldContinue
  split
  · exact nofun
  · split <;> exact nofun

theorem Ends.stage {start : StageState} (h : Ends g st start s)
    (hnext : s.next ≠ .done) :
    s.handoff = none ∧ StageReaches st start s.stage := by
  obtain ⟨before, hreach, hends⟩ := h
  cases hhandoff : s.handoff with
  | none =>
      rw [hhandoff] at hends
      exact ⟨rfl, hends.2 ▸ hreach⟩
  | some result =>
      rw [hhandoff] at hends
      exact absurd hends.1 hnext

theorem Ends.step {start : StageState} (h : Ends g st start s)
    (hg : g ∈ stageGraphs)
    (hlooped : Looped g st prompt history s rounds last)
    (hstep : LoopState.step g st prompt emails e s = some s') :
    Ends g st start s' := by
  cases e with
  | reply m =>
      unfold LoopState.step at hstep
      dsimp only at hstep
      split at hstep
      · rename_i hmodel
        obtain ⟨hhandoff, hreach⟩ := h.stage (by rw [hmodel.1]; exact nofun)
        obtain ⟨stage, hmessage, hs'⟩ := Option.map_eq_some_iff.mp hstep
        rw [← hs']
        refine ⟨stage, .step _ hreach trivial hmessage, ?_⟩
        dsimp only
        rw [hhandoff]
        exact ⟨shouldContinue_ne_done, rfl⟩
      · cases hstep
  | tools answers =>
      unfold LoopState.step at hstep
      dsimp only at hstep
      split at hstep
      · rename_i htools
        obtain ⟨hhandoff, hreach⟩ := h.stage (by rw [htools.1]; exact nofun)
        obtain ⟨stage, hrun, hs'⟩ := Option.map_eq_some_iff.mp hstep
        rw [← hs']
        refine ⟨stage, Lts.reachable_of_run hreach hrun, ?_⟩
        dsimp only
        rw [hhandoff]
        exact ⟨nofun, rfl⟩
      · cases hstep
  | finalize id =>
      unfold LoopState.step at hstep
      dsimp only at hstep
      split at hstep
      · rename_i hfinalize
        obtain ⟨-, hreach⟩ := h.stage (by rw [hfinalize]; exact nofun)
        obtain ⟨⟨stage, result⟩, hdone, hs'⟩ :=
          Option.map_eq_some_iff.mp hstep
        have hfollows := hlooped.follows
        rw [hfinalize] at hfollows
        cases last with
        | none => exact hfollows.elim
        | some m =>
            have hlast : s.stage.messages.getLast? = some m := by
              rw [hlooped.messages, getLast?_append_toList rfl]
            rw [← hs']
            exact ⟨s.stage, hreach, rfl,
              (finalize_spec hg hlast hfollows.1 hdone).2⟩
      · cases hstep

/-- A graph runs as its history model does until it hands off; the handoff
never waits for a person, and names the next stage of the graph. Only the
extract stage changes the store for it, by one version of the inventory
that it then names. -/
theorem stage_hands_off (hg : g ∈ stageGraphs)
    (h : LoopReaches g st prompt emails (.start tools history) s) :
    ∃ before, StageReaches st (.start tools history) before
      ∧ match s.handoff with
        | none => s.next ≠ .done ∧ s.stage = before
        | some result => s.next = .done
          ∧ HandedOff g st before s.stage result := by
  have hends : Ends g st (.start tools history) s := by
    induction h with
    | init => exact ⟨_, .init, nofun, rfl⟩
    | step e hr _ hstep ih =>
        obtain ⟨rounds, last, hlooped⟩ := LoopReaches.looped hg hr
        exact ih.step hg hlooped hstep
  exact hends

end Loops

-- ================================================================ scenarios

def actStart : LoopState :=
  .start ⟨alone, sampleBlobs, []⟩ [humanMessage "Please reply."]

/-- A reply that calls tools. -/
def callingReply (calls : List (String × String)) : Message :=
  ⟨some "ai", .str "", .null, .null,
    calls.map fun (name, callId) => ⟨.str callId, .str name⟩⟩

/-- The last reply. -/
def lastReply : Message := ⟨some "ai", .str "Done.", .null, .null, []⟩

def actPrompt : Subagent → String := fun _ => "Act."

theorem exists_looped {α : Type} {f : LoopState → α} {a : α}
    {es : List LoopEvent}
    (h : (Lts.run (LoopState.step actGraph aliceStage actPrompt
      fun _ => none) actStart es).map f = some a) :
    ∃ s, LoopReaches actGraph aliceStage actPrompt (fun _ => none)
      actStart s ∧ f s = a := by
  obtain ⟨s, hrun, hs⟩ := Option.map_eq_some_iff.mp h
  exact ⟨s, Lts.reachable_of_run .init hrun, hs⟩

def answerTo (name callId : String) : Message :=
  toolMessage name callId (.str "[]")

/-- Two calls with one id: both are answered, and the next request is that
of a stage without messages. -/
theorem repeated_ids_hide_rounds :
    ∃ s, LoopReaches actGraph aliceStage actPrompt (fun _ => none)
        actStart s
      ∧ s.requests
        = [[systemMessage "Act.", humanMessage "Please reply."],
          [systemMessage "Act.", humanMessage actGraph.fallbackHuman]]
      ∧ ∃ (rounds : List Round) (last : Option Message),
        (∀ r ∈ rounds, r.Answered)
        ∧ s.stage.messages = [humanMessage "Please reply."]
          ++ rounds.flatMap Round.messages ++ last.toList
        ∧ s.requests
          = (List.range (rounds.length + last.toList.length)).map fun i =>
            actGraph.asked actPrompt (visible aliceStage.env.rt
              [humanMessage "Please reply."] (rounds.take i)) := by
  obtain ⟨s, hreach, hs⟩ := exists_looped
    (show (Lts.run (LoopState.step actGraph aliceStage actPrompt
        fun _ => none) actStart
        [.reply (callingReply [("list_artifacts", "1"),
            ("list_artifacts", "1")]),
          .tools [.message (answerTo "list_artifacts" "1"),
            .message (answerTo "list_artifacts" "1")],
          .reply lastReply]).map (·.requests)
      = some [[systemMessage "Act.", humanMessage "Please reply."],
          [systemMessage "Act.", humanMessage actGraph.fallbackHuman]]
      by decide +kernel)
  exact ⟨s, hreach, hs, stage_requests (by decide) hreach⟩

/-- The handoff of a stage that wrote its outcome. -/
theorem outcome_handed_off :
    ∃ s, LoopReaches actGraph aliceStage actPrompt (fun _ => none)
        actStart s
      ∧ s.handoff.map (fun result =>
          (result.primaryArtifactKey, result.summary))
        = some (some "act/outcome", "Done.")
      ∧ ∃ before, StageReaches aliceStage actStart.stage before
        ∧ match s.handoff with
          | none => s.next ≠ .done ∧ s.stage = before
          | some result => s.next = .done
            ∧ HandedOff actGraph aliceStage before s.stage result := by
  obtain ⟨s, hreach, hs⟩ := exists_looped
    (show (Lts.run (LoopState.step actGraph aliceStage actPrompt
        fun _ => none) actStart
        [.reply (callingReply [("write_artifact", "1")]),
          .tools [.call 80 81 "1" (.writeArtifact ⟨"act/outcome", .obj [],
            "outcome", "application/json", none, none⟩)],
          .reply lastReply, .finalize 82]).map (fun s =>
            s.handoff.map fun result =>
              (result.primaryArtifactKey, result.summary))
      = some (some (some "act/outcome", "Done.")) by decide +kernel)
  exact ⟨s, hreach, hs, stage_hands_off (by decide) hreach⟩

end LegalBot.Stages
