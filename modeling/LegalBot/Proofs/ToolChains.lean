/-
The tool-chain validator and what is built with it.

# The grammar

A block is a message that asks for no answer, or an `ai` message with the
answers to all its tool calls right behind it, in any order (`Block`).
`IsChain` is a concatenation of blocks. The loop of the validator keeps
the ids that are still to be answered: from `pending` it accepts exactly
the answers to `pending` followed by a chain (`pendingAfter_iff`).

# Histories

The first valid suffix is the longest (`suffix_sanitize`), since the
suffixes are tried from the left. Two valid lists one after the other are
valid (`valid_append`), because nothing is pending at the seam; so what is
put before or behind a sanitised history keeps it valid.

# A fork inside a turn

An unanswered call at the end makes every suffix that has it invalid, and
the suffixes behind it start with an orphan. A fork there keeps nothing
(`sanitize_interrupted`).
-/
import LegalBot.Agents.StageMessages

namespace LegalBot.Stages

variable {rt : Runtime}

-- =============================================================== the grammar

/-- The id a tool message answers. -/
def Message.answers (rt : Runtime) (m : Message) : String :=
  strOf rt m.toolCallId

/-- A tool message with an id. -/
def Message.IsAnswer (m : Message) : Prop :=
  m.type = some "tool" ∧ m.toolCallId ≠ .null

instance (m : Message) : Decidable m.IsAnswer :=
  inferInstanceAs (Decidable (m.type = some "tool" ∧ m.toolCallId ≠ .null))

/-- An `ai` message with usable tool-call ids. -/
def Message.Calls (rt : Runtime) (m : Message) : Prop :=
  m.type = some "ai" ∧ toolCallIdsFromAi rt m ≠ ∅

/-- The blocks of a history. -/
inductive Block (rt : Runtime) : List Message → Prop
  | single {m : Message} (htool : m.type ≠ some "tool")
      (hcalls : ¬ m.Calls rt) : Block rt [m]
  | turn {m : Message} {answers : List Message} (hcalls : m.Calls rt)
      (hanswers : ∀ a ∈ answers, a.IsAnswer)
      (hids : (answers.map (Message.answers rt) : Multiset String)
        = (toolCallIdsFromAi rt m).val) : Block rt (m :: answers)

/-- A concatenation of blocks. -/
def IsChain (rt : Runtime) (messages : List Message) : Prop :=
  ∃ blocks : List (List Message),
    (∀ b ∈ blocks, Block rt b) ∧ messages = blocks.flatten

-- ================================================================== the loop

section Loop

variable {pending left : Finset String} {m : Message}
  {xs ys answers messages rest : List Message}

theorem pendingAfter_answer (ht : m.type = some "tool") :
    pendingAfter rt pending (m :: rest)
      = if m.toolCallId = .null ∨ m.answers rt ∉ pending then none
        else pendingAfter rt (pending.erase (m.answers rt)) rest := by
  rw [pendingAfter, if_pos ht]
  rfl

/-- A message that is no answer has to find nothing pending. -/
theorem pendingAfter_other (ht : m.type ≠ some "tool") :
    pendingAfter rt pending (m :: rest)
      = if pending ≠ ∅ then none
        else if m.type = some "ai" then
          pendingAfter rt (toolCallIdsFromAi rt m) rest
        else pendingAfter rt ∅ rest := by
  rw [pendingAfter, if_neg ht]
  by_cases hp : pending = ∅
  · subst hp
    rfl
  · by_cases hai : m.type = some "ai"
    · rw [if_pos hai, if_pos hp, if_pos hp]
    · rw [if_neg hai, if_pos hp, if_pos hp]

theorem pendingAfter_append :
    pendingAfter rt pending (xs ++ ys)
      = (pendingAfter rt pending xs).bind fun left =>
          pendingAfter rt left ys := by
  induction xs generalizing pending with
  | nil => rfl
  | cons m rest ih =>
      rw [List.cons_append]
      by_cases ht : m.type = some "tool"
      · rw [pendingAfter_answer ht, pendingAfter_answer ht]
        split
        · rfl
        · exact ih
      · rw [pendingAfter_other ht, pendingAfter_other ht]
        split
        · rfl
        · split
          · exact ih
          · exact ih

/-- Answers to all that is pending leave nothing pending. -/
theorem pendingAfter_answered (hanswers : ∀ a ∈ answers, a.IsAnswer)
    (hids : (answers.map (Message.answers rt) : Multiset String)
      = pending.val) :
    pendingAfter rt pending answers = some ∅ := by
  induction answers generalizing pending with
  | nil =>
      rw [pendingAfter]
      exact congrArg some (Finset.val_eq_zero.mp hids.symm)
  | cons a rest ih =>
      obtain ⟨ht, hid⟩ := hanswers a List.mem_cons_self
      have hcons : a.answers rt
          ::ₘ (rest.map (Message.answers rt) : Multiset String)
          = pending.val := hids
      have hmem : a.answers rt ∈ pending := by
        rw [← Finset.mem_val, ← hcons]
        exact Multiset.mem_cons_self _ _
      rw [pendingAfter_answer ht, if_neg (not_or.mpr ⟨hid, not_not.mpr hmem⟩)]
      refine ih (fun a ha => hanswers a (List.mem_cons_of_mem _ ha)) ?_
      rw [Finset.erase_val, ← hcons, Multiset.erase_cons_head]

theorem IsChain.cons {b : List Message} (hb : Block rt b)
    (h : IsChain rt rest) : IsChain rt (b ++ rest) := by
  obtain ⟨blocks, hblocks, rfl⟩ := h
  refine ⟨b :: blocks, fun b' hb' => ?_, rfl⟩
  rcases List.mem_cons.mp hb' with rfl | hb'
  · exact hb
  · exact hblocks b' hb'

/-- The loop accepts the answers to `pending` followed by a chain. -/
theorem chain_of_pendingAfter (h : pendingAfter rt pending messages = some ∅) :
    ∃ answers rest, messages = answers ++ rest
      ∧ (∀ a ∈ answers, a.IsAnswer)
      ∧ (answers.map (Message.answers rt) : Multiset String) = pending.val
      ∧ IsChain rt rest := by
  induction messages generalizing pending with
  | nil =>
      rw [pendingAfter] at h
      refine ⟨[], [], rfl, fun _ hm => absurd hm List.not_mem_nil, ?_, [], ?_, rfl⟩
      · rw [Option.some.inj h]
        rfl
      · exact fun _ hb => absurd hb List.not_mem_nil
  | cons m tail ih =>
      by_cases ht : m.type = some "tool"
      · rw [pendingAfter_answer ht] at h
        split at h
        · cases h
        · rename_i hok
          obtain ⟨hid, hmem⟩ := not_or.mp hok
          obtain ⟨answers, rest, rfl, hanswers, hids, hrest⟩ := ih h
          refine ⟨m :: answers, rest, rfl, fun a ha => ?_, ?_, hrest⟩
          · rcases List.mem_cons.mp ha with rfl | ha
            · exact ⟨ht, hid⟩
            · exact hanswers a ha
          · rw [List.map_cons, ← Multiset.cons_coe, hids, Finset.erase_val]
            exact Multiset.cons_erase (not_not.mp hmem)
      · rw [pendingAfter_other ht] at h
        split at h
        · cases h
        · rename_i hnone
          have hnone := not_not.mp hnone
          refine ⟨[], m :: tail, rfl, fun _ hm => absurd hm List.not_mem_nil, ?_, ?_⟩
          · rw [hnone]
            rfl
          split at h
          · rename_i hai
            obtain ⟨answers, rest, rfl, hanswers, hids, hrest⟩ := ih h
            by_cases hcalls : toolCallIdsFromAi rt m = ∅
            · have hnil : answers = [] := by
                rw [hcalls] at hids
                exact List.map_eq_nil_iff.mp (Multiset.coe_eq_zero _ |>.mp hids)
              subst hnil
              exact IsChain.cons (.single ht fun hc => hc.2 hcalls) hrest
            · exact IsChain.cons (.turn ⟨hai, hcalls⟩ hanswers hids) hrest
          · rename_i hai
            obtain ⟨answers, rest, rfl, hanswers, hids, hrest⟩ := ih h
            have hnil : answers = [] :=
              List.map_eq_nil_iff.mp (Multiset.coe_eq_zero _ |>.mp hids)
            subst hnil
            exact IsChain.cons (.single ht fun hc => hai hc.1) hrest

/-- After a block nothing is pending. -/
theorem pendingAfter_block {b : List Message} (hb : Block rt b) :
    pendingAfter rt ∅ b = some ∅ := by
  cases hb with
  | @single m htool hcalls =>
      rw [pendingAfter_other htool, if_neg (not_not_intro rfl)]
      split
      · rename_i hai
        have hnone : toolCallIdsFromAi rt m = ∅ :=
          not_not.mp fun hids => hcalls ⟨hai, hids⟩
        rw [hnone, pendingAfter]
      · rw [pendingAfter]
  | @turn m answers hcalls hanswers hids =>
      have htool : m.type ≠ some "tool" := by
        rw [hcalls.1]
        decide
      rw [pendingAfter_other htool, if_neg (not_not_intro rfl),
        if_pos hcalls.1]
      exact pendingAfter_answered hanswers hids

/-- Between two valid lists nothing is pending. -/
theorem valid_append (hx : openaiToolChainValid rt xs = true)
    (hy : openaiToolChainValid rt ys = true) :
    openaiToolChainValid rt (xs ++ ys) = true := by
  unfold openaiToolChainValid at hx hy ⊢
  rw [pendingAfter_append, of_decide_eq_true hx, Option.bind_some]
  exact hy

theorem valid_block {b : List Message} (hb : Block rt b) :
    openaiToolChainValid rt b = true :=
  decide_eq_true (pendingAfter_block hb)

theorem valid_of_chain (h : IsChain rt messages) :
    openaiToolChainValid rt messages = true := by
  obtain ⟨blocks, hblocks, rfl⟩ := h
  induction blocks with
  | nil => rfl
  | cons b rest ih =>
      rw [List.flatten_cons]
      exact valid_append (valid_block (hblocks b List.mem_cons_self))
        (ih fun b hb => hblocks b (List.mem_cons_of_mem _ hb))

theorem chain_of_valid (h : openaiToolChainValid rt messages = true) :
    IsChain rt messages := by
  obtain ⟨answers, rest, rfl, -, hids, hrest⟩ :=
    chain_of_pendingAfter (of_decide_eq_true h)
  have hnil : answers = [] :=
    List.map_eq_nil_iff.mp (Multiset.coe_eq_zero _ |>.mp hids)
  rwa [hnil]

-- ============================================================== single answers

/-- An id that is pending was called for, and has no answer since. -/
theorem pendingAfter_called {i : String}
    (h : pendingAfter rt ∅ messages = some pending) (hi : i ∈ pending) :
    ∃ before m answers, messages = before ++ m :: answers
      ∧ m.Calls rt ∧ i ∈ toolCallIdsFromAi rt m
      ∧ ∀ a ∈ answers, a.IsAnswer ∧ a.answers rt ≠ i := by
  induction messages using List.reverseRecOn generalizing pending with
  | nil =>
      rw [pendingAfter] at h
      rw [← Option.some.inj h] at hi
      exact absurd hi (Finset.notMem_empty i)
  | append_singleton front m ih =>
      rw [pendingAfter_append] at h
      obtain ⟨left, hfront, hm⟩ := Option.bind_eq_some_iff.mp h
      by_cases ht : m.type = some "tool"
      · rw [pendingAfter_answer ht] at hm
        split at hm
        · cases hm
        · rename_i hok
          rw [pendingAfter] at hm
          rw [← Option.some.inj hm] at hi
          obtain ⟨hne, hi⟩ := Finset.mem_erase.mp hi
          obtain ⟨before, caller, answers, rfl, hcalls, hcalled, hanswers⟩ :=
            ih hfront hi
          refine ⟨before, caller, answers ++ [m], by simp, hcalls, hcalled,
            fun a ha => ?_⟩
          rcases List.mem_append.mp ha with ha | ha
          · exact hanswers a ha
          · rw [List.mem_singleton.mp ha]
            exact ⟨⟨ht, (not_or.mp hok).1⟩, Ne.symm hne⟩
      · rw [pendingAfter_other ht] at hm
        split at hm
        · cases hm
        split at hm
        · rename_i hai
          rw [pendingAfter] at hm
          rw [← Option.some.inj hm] at hi
          exact ⟨front, m, [], rfl, ⟨hai, Finset.ne_empty_of_mem hi⟩, hi,
            fun a ha => absurd ha List.not_mem_nil⟩
        · rw [pendingAfter] at hm
          rw [← Option.some.inj hm] at hi
          exact absurd hi (Finset.notMem_empty i)

/-- What is pending is answered before anything else comes. -/
theorem pendingAfter_waits {i : String}
    (h : pendingAfter rt pending messages = some ∅) (hi : i ∈ pending) :
    ∃ answers a rest, messages = answers ++ a :: rest
      ∧ (∀ b ∈ answers, b.IsAnswer) ∧ a.IsAnswer ∧ a.answers rt = i := by
  obtain ⟨answers, rest, rfl, hanswers, hids, -⟩ := chain_of_pendingAfter h
  have hmem : i ∈ (answers.map (Message.answers rt) : Multiset String) := by
    rw [hids]
    exact hi
  obtain ⟨a, ha, hai⟩ := List.mem_map.mp (Multiset.mem_coe.mp hmem)
  obtain ⟨front, back, rfl⟩ := List.append_of_mem ha
  exact ⟨front, a, back ++ rest, by simp,
    fun b hb => hanswers b (List.mem_append_left _ hb), hanswers a ha, hai⟩

end Loop

-- ============================================================ the validator

/-- The validator accepts exactly the concatenations of blocks. So every
answer in a list that it accepts follows the call it answers, with only
answers to other calls between them, and every usable call is answered
there. -/
theorem tool_chain_valid_iff (messages : List Message) :
    (openaiToolChainValid rt messages = true ↔ IsChain rt messages)
    ∧ (openaiToolChainValid rt messages = true →
      (∀ front a back, messages = front ++ a :: back →
        a.type = some "tool" →
        a.toolCallId ≠ .null
        ∧ ∃ before m answers, front = before ++ m :: answers
          ∧ m.Calls rt ∧ a.answers rt ∈ toolCallIdsFromAi rt m
          ∧ ∀ b ∈ answers, b.IsAnswer ∧ b.answers rt ≠ a.answers rt)
      ∧ ∀ front m back, messages = front ++ m :: back →
        m.type = some "ai" → ∀ i ∈ toolCallIdsFromAi rt m,
          ∃ answers a rest, back = answers ++ a :: rest
            ∧ (∀ b ∈ answers, b.IsAnswer) ∧ a.IsAnswer
            ∧ a.answers rt = i) := by
  refine ⟨⟨chain_of_valid, valid_of_chain⟩, fun h => ⟨?_, ?_⟩⟩
  · rintro front a back rfl ht
    have h := of_decide_eq_true h
    rw [pendingAfter_append] at h
    obtain ⟨pending, hfront, ha⟩ := Option.bind_eq_some_iff.mp h
    rw [pendingAfter_answer ht] at ha
    split at ha
    · cases ha
    · rename_i hok
      obtain ⟨hid, hmem⟩ := not_or.mp hok
      exact ⟨hid, pendingAfter_called hfront (not_not.mp hmem)⟩
  · rintro front m back rfl hai i hi
    have h := of_decide_eq_true h
    have ht : m.type ≠ some "tool" := by
      rw [hai]
      decide
    rw [pendingAfter_append] at h
    obtain ⟨pending, -, hm⟩ := Option.bind_eq_some_iff.mp h
    rw [pendingAfter_other ht, if_pos hai] at hm
    split at hm
    · cases hm
    · exact pendingAfter_waits hm hi

-- ========================================================= sanitised histories

section Histories

variable {m : Message} {messages front suffix h answers : List Message}
  {prompt fallback note : String} {channel : List Message}

theorem valid_other (ht : m.type ≠ some "tool") (hai : m.type ≠ some "ai") :
    openaiToolChainValid rt [m] = true :=
  valid_block (.single ht fun hcalls => hai hcalls.1)

theorem valid_system : openaiToolChainValid rt [systemMessage prompt] :=
  valid_other (by simp [systemMessage]) (by simp [systemMessage])

theorem valid_human : openaiToolChainValid rt [humanMessage note] :=
  valid_other (by simp [humanMessage]) (by simp [humanMessage])

theorem sanitize_suffix :
    sanitizeMessagesForOpenaiChat rt messages <:+ messages := by
  induction messages with
  | nil => exact List.suffix_refl _
  | cons m rest ih =>
      rw [sanitizeMessagesForOpenaiChat]
      split
      · exact List.suffix_refl _
      · exact ih.trans (List.suffix_cons m rest)

theorem sanitize_valid :
    openaiToolChainValid rt (sanitizeMessagesForOpenaiChat rt messages)
      = true := by
  induction messages with
  | nil => rfl
  | cons m rest ih =>
      rw [sanitizeMessagesForOpenaiChat]
      split
      · assumption
      · exact ih

/-- A valid suffix is not cut. -/
theorem suffix_sanitize (hs : suffix <:+ messages)
    (hv : openaiToolChainValid rt suffix = true) :
    suffix <:+ sanitizeMessagesForOpenaiChat rt messages := by
  induction messages with
  | nil => exact hs
  | cons m rest ih =>
      rw [sanitizeMessagesForOpenaiChat]
      split
      · exact hs
      · rename_i hinvalid
        rcases List.suffix_cons_iff.mp hs with rfl | hs
        · exact absurd hv hinvalid
        · exact ih hs

theorem sanitize_of_valid (hv : openaiToolChainValid rt messages = true) :
    sanitizeMessagesForOpenaiChat rt messages = messages :=
  sanitize_suffix.eq_of_length_le
    (suffix_sanitize (List.suffix_refl _) hv).length_le

theorem prepare_valid :
    openaiToolChainValid rt
      (prepareStageMessages rt messages prompt fallback) = true := by
  have hfallback : openaiToolChainValid rt
      [systemMessage prompt, humanMessage fallback] = true :=
    valid_append valid_system valid_human
  unfold prepareStageMessages
  split
  · exact hfallback
  · dsimp only
    split
    · exact hfallback
    · split
      · exact sanitize_valid
      · exact valid_append valid_system sanitize_valid

theorem prepare_prompted :
    ∃ m ∈ prepareStageMessages rt messages prompt fallback,
      m.type = some "system" ∧ m.content = .str prompt := by
  have hsystem : ∀ rest, ∃ m ∈ systemMessage prompt :: rest,
      m.type = some "system" ∧ m.content = .str prompt :=
    fun rest => ⟨_, List.mem_cons_self, rfl, rfl⟩
  unfold prepareStageMessages
  split
  · exact hsystem _
  · dsimp only
    split
    · exact hsystem _
    · split
      · rename_i hany
        obtain ⟨m, hm, hprompt⟩ := List.any_eq_true.mp hany
        exact ⟨m, hm, of_decide_eq_true hprompt⟩
      · exact hsystem _

theorem applyUpdate_messages :
    applyUpdate channel (messages.map .message) = channel ++ messages := by
  induction messages generalizing channel with
  | nil => exact (List.append_nil channel).symm
  | cons m rest ih =>
      rw [List.map_cons, applyUpdate, ih, List.append_assoc]
      rfl

/-- The channel after a fork. -/
theorem applyUpdate_fork :
    applyUpdate channel (replayForkMessages rt messages note)
      = sanitizeMessagesForOpenaiChat rt messages
        ++ [humanMessage note] := by
  unfold replayForkMessages
  rw [List.cons_append, applyUpdate,
    show [Update.message (humanMessage note)]
      = [humanMessage note].map .message from rfl,
    ← List.map_append, applyUpdate_messages, List.nil_append]

/-- A sanitised history is the longest valid suffix, and sanitising it
again changes nothing. What a stage is given, and what a fork leaves on
the channel, is valid; the first has the prompt, the second ends with the
note. -/
theorem sanitized_sendable (messages channel : List Message)
    (prompt fallback note : String) :
    (sanitizeMessagesForOpenaiChat rt messages <:+ messages
      ∧ openaiToolChainValid rt (sanitizeMessagesForOpenaiChat rt messages)
        = true
      ∧ (∀ suffix, suffix <:+ messages →
          openaiToolChainValid rt suffix = true →
          suffix.length
            ≤ (sanitizeMessagesForOpenaiChat rt messages).length)
      ∧ sanitizeMessagesForOpenaiChat rt
          (sanitizeMessagesForOpenaiChat rt messages)
        = sanitizeMessagesForOpenaiChat rt messages)
    ∧ (openaiToolChainValid rt
          (prepareStageMessages rt messages prompt fallback) = true
      ∧ ∃ m ∈ prepareStageMessages rt messages prompt fallback,
          m.type = some "system" ∧ m.content = .str prompt)
    ∧ (openaiToolChainValid rt
          (applyUpdate channel (replayForkMessages rt messages note)) = true
      ∧ (applyUpdate channel (replayForkMessages rt messages note)).getLast?
          = some (humanMessage note)) := by
  refine ⟨⟨sanitize_suffix, sanitize_valid,
    fun suffix hs hv => (suffix_sanitize hs hv).length_le,
    sanitize_of_valid sanitize_valid⟩, ⟨prepare_valid, prepare_prompted⟩, ?_⟩
  rw [applyUpdate_fork]
  exact ⟨valid_append sanitize_valid valid_human,
    List.getLast?_concat⟩

end Histories

-- ======================================================= forks inside a turn

/-- Tool answers to some of the calls of `m`, each once, and not to all
of them. -/
structure PartlyAnswered (rt : Runtime) (m : Message)
    (answers : List Message) : Prop where
  ai : m.type = some "ai"
  answer : ∀ a ∈ answers, a.IsAnswer ∧ a.answers rt ∈ toolCallIdsFromAi rt m
  once : (answers.map (Message.answers rt)).Nodup
  unanswered : ∃ i ∈ toolCallIdsFromAi rt m, ∀ a ∈ answers, a.answers rt ≠ i

/-- The fork keeps the history and drops at most what follows it. -/
def KeepsHistory (rt : Runtime) (channel h tail : List Message)
    (note : String) : Prop :=
  ∃ kept, kept.Sublist tail
    ∧ applyUpdate channel (replayForkMessages rt (h ++ tail) note)
      = h ++ kept ++ [humanMessage note]

section Forks

variable {m : Message} {messages front back h answers : List Message}
  {note : String} {channel : List Message}

/-- Without its call no answer is valid. -/
theorem orphans_invalid (hne : answers ≠ [])
    (hanswers : ∀ a ∈ answers, a.IsAnswer) :
    openaiToolChainValid rt answers = false := by
  cases answers with
  | nil => exact absurd rfl hne
  | cons a rest =>
      refine decide_eq_false ?_
      rw [pendingAfter_answer (hanswers a List.mem_cons_self).1,
        if_pos (Or.inr (Finset.notMem_empty _))]
      exact fun h => by cases h

/-- The unanswered call stays pending, whatever is in front of it. -/
theorem interrupted_invalid (hpart : PartlyAnswered rt m answers) :
    openaiToolChainValid rt (front ++ m :: answers) = false := by
  refine Bool.eq_false_iff.mpr fun hv => ?_
  obtain ⟨i, hi, hnone⟩ := hpart.unanswered
  obtain ⟨-, -, hanswered⟩ :=
    (tool_chain_valid_iff (front ++ m :: answers)).imp_right (· hv)
  obtain ⟨before, a, rest, rfl, -, -, hai⟩ :=
    hanswered front m answers rfl hpart.ai i hi
  exact hnone a (List.mem_append_right _ List.mem_cons_self) hai

/-- No suffix of an interrupted history is valid. -/
theorem sanitize_interrupted (hpart : PartlyAnswered rt m answers) :
    sanitizeMessagesForOpenaiChat rt (h ++ m :: answers) = [] := by
  have horphans : ∀ back, back <:+ answers →
      sanitizeMessagesForOpenaiChat rt back = [] := by
    intro back hback
    induction back with
    | nil => rfl
    | cons a rest ih =>
        have hall : ∀ b ∈ a :: rest, b.IsAnswer := fun b hb =>
          (hpart.answer b (hback.subset hb)).1
        rw [sanitizeMessagesForOpenaiChat,
          orphans_invalid (List.cons_ne_nil a rest) hall]
        exact ih ((List.suffix_cons a rest).trans hback)
  induction h with
  | nil =>
      have hinvalid : openaiToolChainValid rt ([] ++ m :: answers) = false :=
        interrupted_invalid hpart
      rw [List.nil_append] at hinvalid ⊢
      rw [sanitizeMessagesForOpenaiChat, hinvalid]
      exact horphans answers (List.suffix_refl _)
  | cons x rest ih =>
      have hinvalid : openaiToolChainValid rt (x :: rest ++ m :: answers)
          = false := interrupted_invalid hpart
      rw [List.cons_append] at hinvalid ⊢
      rw [sanitizeMessagesForOpenaiChat, hinvalid]
      exact ih

/-- A fork of a history whose last turn is interrupted keeps the history
only if there is none. -/
theorem fork_keeps_history_iff (hpart : PartlyAnswered rt m answers) :
    KeepsHistory rt channel h (m :: answers) note ↔ h = [] := by
  unfold KeepsHistory
  rw [applyUpdate_fork, sanitize_interrupted hpart, List.nil_append]
  constructor
  · rintro ⟨kept, -, hkept⟩
    have hlength := congrArg List.length hkept
    simp only [List.length_append, List.length_singleton] at hlength
    exact List.length_eq_zero_iff.mp (by omega)
  · rintro rfl
    exact ⟨[], List.nil_sublist _, rfl⟩

/-- A turn with two calls, one of them answered. -/
def calledTwice : Message :=
  ⟨some "ai", .str "", .null, .null,
    [⟨.str "c1", .str "fetch_email"⟩, ⟨.str "c2", .str "list_artifacts"⟩]⟩

def firstAnswer : Message :=
  ⟨some "tool", .str "\x7b\x7d", .str "fetch_email", .str "c1", []⟩

theorem calledTwice_partly :
    PartlyAnswered Runtime.sample calledTwice [firstAnswer] where
  ai := rfl
  answer := by decide
  once := by decide
  unanswered := by decide

/-- Where nothing came before the turn nothing is lost. -/
theorem first_turn_fork :
    KeepsHistory Runtime.sample [] [] [calledTwice, firstAnswer] "note" :=
  (fork_keeps_history_iff calledTwice_partly).mpr rfl

/-- The task in front of the interrupted turn is lost with it. -/
theorem task_lost_in_fork :
    openaiToolChainValid Runtime.sample [humanMessage "Draft an NDA."] = true
    ∧ PartlyAnswered Runtime.sample calledTwice [firstAnswer]
    ∧ applyUpdate [] (replayForkMessages Runtime.sample
        [humanMessage "Draft an NDA.", calledTwice, firstAnswer] "note")
      = [humanMessage "note"]
    ∧ ¬ KeepsHistory Runtime.sample [] [humanMessage "Draft an NDA."]
        [calledTwice, firstAnswer] "note" := by
  have hfork : applyUpdate [] (replayForkMessages Runtime.sample
      [humanMessage "Draft an NDA.", calledTwice, firstAnswer] "note")
      = [humanMessage "note"] := by decide
  refine ⟨by decide, calledTwice_partly, hfork, ?_⟩
  rintro ⟨kept, -, hkept⟩
  rw [List.singleton_append, hfork] at hkept
  have hlength := congrArg List.length hkept
  simp at hlength

end Forks

end LegalBot.Stages
