/-
The analyze graph ends, and its research loop records every answer.

# The measure

`stepsLeft` counts the super-steps that are left, three for each research
step that is still allowed. `record_research` lowers it because it
records at least one message: the tool node has answered since, and what
was there before is counted in `recorded` (`InLoop`). `callsLeft` does
the same for the runs of the tool node.

# What is recorded

The steps are those of the tool messages counted so far (`Exact`), which
on leaving the loop are all of them.
-/
import LegalBot.Agents.AnalyzeGraph

namespace LegalBot.Stages

-- ================================================================== measures

/-- The super-steps that are left from a node on, at most, when so many
steps are recorded. -/
def Node.stepsLeft (maxSteps recorded : Nat) : Node → Nat
  | .loadContext => 5 + 3 * maxSteps
  | .research => 4 + 3 * (maxSteps - recorded)
  | .tools => 3 + 3 * (maxSteps - recorded)
  | .recordResearch => 2 + 3 * (maxSteps - recorded)
  | .decide => 3
  | .writeReport | .unsupported | .prepareHitl => 2
  | .finalize => 1
  | .done => 0

/-- The runs of the tool node that are left, at most. -/
def Node.callsLeft (maxSteps recorded : Nat) : Node → Nat
  | .loadContext => maxSteps
  | .research | .tools => maxSteps - recorded
  | .recordResearch => maxSteps - recorded - 1
  | _ => 0

def AnalyzeState.stepsLeft (maxSteps : Nat) (s : AnalyzeState) : Nat :=
  s.next.stepsLeft maxSteps s.research.length

def AnalyzeState.callsLeft (maxSteps : Nat) (s : AnalyzeState) : Nat :=
  s.next.callsLeft maxSteps s.research.length

/-- The nodes behind the loop. -/
def Node.behind : Node → Bool
  | .decide | .writeReport | .unsupported | .prepareHitl | .finalize
  | .done => true
  | _ => false

/-- How often the event runs the tool node. -/
def AnalyzeEvent.toolRuns (e : AnalyzeEvent) : Nat :=
  if e.node = .tools then 1 else 0

/-- Within the loop: the tool node only runs below the limit and on a
message that has calls, and its answers are not counted yet. -/
structure AnalyzeState.InLoop (maxSteps : Nat) (s : AnalyzeState) :
    Prop where
  below : s.next = .tools ∨ s.next = .recordResearch →
    s.research.length < maxSteps
  called : s.next = .tools → ∃ last, s.messages.getLast? = some last
    ∧ last.toolCalls ≠ []
  counted : s.next = .research ∨ s.next = .tools →
    s.recorded ≤ (toolMessages s.messages).length
  answered : s.next = .recordResearch →
    s.recorded < (toolMessages s.messages).length

-- ===================================================================== steps

section Steps

variable {rt : Runtime} {floatRepr : String → String} {maxSteps : Nat}
  {e : AnalyzeEvent} {s s' t : AnalyzeState} {messages answers : List Message}

theorem step_some : AnalyzeState.step rt floatRepr maxSteps e s = some s'
    ↔ e.fits s = true ∧ ∃ t, e.perform rt floatRepr s = some t
      ∧ s' = { t with next := t.successor maxSteps e.node } := by
  unfold AnalyzeState.step
  cases e.fits s with
  | false => exact iff_of_false (fun h => by cases h) fun h => by cases h.1
  | true =>
      rw [if_pos rfl, Option.map_eq_some_iff, and_iff_right rfl]
      exact exists_congr fun t => and_congr_right fun _ => eq_comm

theorem node_of_fits (h : e.fits s = true) : e.node = s.next := by
  unfold AnalyzeEvent.fits at h
  exact of_decide_eq_true (Bool.and_eq_true_iff.mp h).1

theorem toolMessages_append :
    toolMessages (messages ++ answers)
      = toolMessages messages ++ toolMessages answers :=
  List.filter_append ..

/-- A reply of the model is no tool message. -/
theorem toolMessages_reply (messages : List Message) {reply : Message}
    (h : reply.type = some "ai") :
    toolMessages (messages ++ [reply]) = toolMessages messages := by
  have hnone : toolMessages [reply] = [] := by
    unfold toolMessages
    rw [List.filter_cons_of_neg]
    · rfl
    · rw [h]
      decide
  rw [toolMessages_append, hnone, List.append_nil]

/-- The tool node answers with tool messages, one a call. -/
theorem answers_tools (h : answersLast messages answers = true) :
    ∃ last, messages.getLast? = some last
      ∧ answers.length = last.toolCalls.length
      ∧ toolMessages answers = answers := by
  unfold answersLast at h
  split at h
  · cases h
  · rename_i last hlast
    have hmap := of_decide_eq_true h
    refine ⟨last, hlast, ?_, ?_⟩
    · have hlength := congrArg List.length hmap
      rwa [List.length_map, List.length_map] at hlength
    · refine List.filter_eq_self.mpr fun m hm => ?_
      have hpair := List.mem_map_of_mem (f := fun m : Message =>
        (m.type, m.toolCallId)) hm
      rw [hmap] at hpair
      obtain ⟨call, -, hcall⟩ := List.mem_map.mp hpair
      exact decide_eq_true (Prod.mk.inj hcall).1.symm

/-- The tool node runs below the limit, on a message that has calls. -/
theorem shouldContinueResearch_tools
    (h : s.shouldContinueResearch maxSteps = .tools) :
    s.research.length < maxSteps ∧ ∃ last,
      s.messages.getLast? = some last ∧ last.toolCalls ≠ [] := by
  unfold AnalyzeState.shouldContinueResearch at h
  split at h
  · cases h
  · rename_i hbelow
    split at h
    · cases h
    · rename_i last hlast
      split at h
      · rename_i hcalls
        exact ⟨Nat.lt_of_not_le hbelow, last, hlast, hcalls⟩
      · cases h

theorem shouldContinueResearch_cases (s : AnalyzeState)
    (maxSteps : Nat) :
    s.shouldContinueResearch maxSteps = .tools
      ∨ s.shouldContinueResearch maxSteps = .decide := by
  unfold AnalyzeState.shouldContinueResearch
  split
  · exact Or.inr rfl
  · split
    · exact Or.inr rfl
    · split
      · exact Or.inl rfl
      · exact Or.inr rfl

/-- Two nodes run after the decision. -/
theorem routeAfterDecide_low (s : AnalyzeState) (maxSteps : Nat) :
    s.routeAfterDecide.behind = true
      ∧ 1 + s.routeAfterDecide.stepsLeft maxSteps s.research.length ≤ 3 := by
  unfold AnalyzeState.routeAfterDecide
  split
  · exact ⟨rfl, Nat.le_refl 3⟩
  · split
    · exact ⟨rfl, Nat.le_refl 3⟩
    · split
      · exact ⟨rfl, Nat.le_refl 3⟩
      · exact ⟨rfl, Nat.le_refl 3⟩

/-- The graph goes on to research only with what it has loaded. -/
theorem loadContext_research {content : Option Content}
    (h : (s.loadContext content).routeAfterLoad = .research) :
    (s.loadContext content).research = []
      ∧ (s.loadContext content).recorded = 0
      ∧ (s.loadContext content).messages = s.messages := by
  unfold AnalyzeState.loadContext at h ⊢
  split at h
  · cases h
  · exact ⟨rfl, rfl, rfl⟩

theorem routeAfterLoad_cases : s.routeAfterLoad = .prepareHitl
    ∨ s.routeAfterLoad = .research := by
  unfold AnalyzeState.routeAfterLoad
  split
  · exact Or.inl rfl
  · exact Or.inr rfl

/-- What `record_research` adds: a step for each message not counted. -/
theorem recordResearch_some (h : s.recordResearch rt floatRepr = some t) :
    ∃ steps, ((toolMessages s.messages).drop s.recorded).map
        (researchStepFromToolMessage rt floatRepr) = steps.map some
      ∧ t = { s with research := s.research ++ steps
                     recorded := (toolMessages s.messages).length } := by
  obtain ⟨steps, hsteps, ht⟩ := Option.map_eq_some_iff.mp h
  exact ⟨steps, researchSteps_some.mp hsteps, ht.symm⟩

-- ============================================================ what is lowered

/-- A step stays in the loop's invariant and lowers both measures. -/
structure Lowered (maxSteps : Nat) (e : AnalyzeEvent)
    (s s' : AnalyzeState) : Prop where
  loop : s'.InLoop maxSteps
  steps : 1 + s'.stepsLeft maxSteps ≤ s.stepsLeft maxSteps
  calls : e.toolRuns + s'.callsLeft maxSteps ≤ s.callsLeft maxSteps

/-- Behind the loop there is nothing to keep. -/
theorem inLoop_behind (h : s.next.behind = true) : s.InLoop maxSteps where
  below hnext := by
    rcases hnext with hnext | hnext
    · rw [hnext] at h
      cases h
    · rw [hnext] at h
      cases h
  called hnext := by
    rw [hnext] at h
    cases h
  counted hnext := by
    rcases hnext with hnext | hnext
    · rw [hnext] at h
      cases h
    · rw [hnext] at h
      cases h
  answered hnext := by
    rw [hnext] at h
    cases h

theorem callsLeft_behind (h : s.next.behind = true) :
    s.callsLeft maxSteps = 0 := by
  unfold AnalyzeState.callsLeft
  cases hnext : s.next with
  | loadContext | research | tools | recordResearch =>
      rw [hnext] at h
      cases h
  | decide | writeReport | unsupported | prepareHitl | finalize | done => rfl

/-- A step to a node behind the loop. -/
theorem lowered_behind (hnode : e.node ≠ .tools)
    (hbehind : s'.next.behind = true)
    (hsteps : 1 + s'.stepsLeft maxSteps ≤ s.stepsLeft maxSteps) :
    Lowered maxSteps e s s' := by
  have hruns : e.toolRuns = 0 := if_neg hnode
  refine ⟨inLoop_behind hbehind, hsteps, ?_⟩
  rw [hruns, callsLeft_behind hbehind]
  exact Nat.zero_le _

theorem lowered_loadContext {content : Option Content}
    (hnext : s.next = .loadContext) :
    Lowered maxSteps (.loadContext content) s
      { s.loadContext content with
        next := (s.loadContext content).routeAfterLoad } := by
  have hsteps : s.stepsLeft maxSteps = 5 + 3 * maxSteps := by
    rw [AnalyzeState.stepsLeft, hnext]
    rfl
  rcases routeAfterLoad_cases (s := s.loadContext content) with h | h
  · rw [h]
    refine lowered_behind (fun h => by cases h) rfl ?_
    rw [hsteps]
    show 1 + 2 ≤ _
    omega
  · obtain ⟨hresearch, hrecorded, -⟩ := loadContext_research h
    have hcalls : s.callsLeft maxSteps = maxSteps := by
      rw [AnalyzeState.callsLeft, hnext]
      rfl
    rw [h]
    refine ⟨⟨fun h => ?_, fun h => ?_, fun _ => ?_, fun h => ?_⟩, ?_, ?_⟩
    · rcases h with h | h
      · cases h
      · cases h
    · cases h
    · show (s.loadContext content).recorded ≤ _
      rw [hrecorded]
      exact Nat.zero_le _
    · cases h
    · rw [hsteps]
      show 1 + (4 + 3 * (maxSteps - (s.loadContext content).research.length))
        ≤ _
      omega
    · rw [hcalls]
      show 0 + (maxSteps - (s.loadContext content).research.length) ≤ _
      omega

theorem lowered_research {reply : Message} (hloop : s.InLoop maxSteps)
    (hnext : s.next = .research) (hreply : reply.type = some "ai")
    (ht : t = { s with messages := s.messages ++ [reply] }) :
    Lowered maxSteps (.research reply) s
      { t with next := t.shouldContinueResearch maxSteps } := by
  have hsame : t.research = s.research := by rw [ht]
  have hsteps : s.stepsLeft maxSteps
      = 4 + 3 * (maxSteps - t.research.length) := by
    rw [AnalyzeState.stepsLeft, hnext, hsame]
    rfl
  have hcalls : s.callsLeft maxSteps = maxSteps - t.research.length := by
    rw [AnalyzeState.callsLeft, hnext, hsame]
    rfl
  have hcounted : t.recorded ≤ (toolMessages t.messages).length := by
    rw [ht]
    show s.recorded ≤ (toolMessages (s.messages ++ [reply])).length
    rw [toolMessages_reply _ hreply]
    exact hloop.counted (Or.inl hnext)
  rcases shouldContinueResearch_cases t maxSteps with h | h
  · obtain ⟨hbelow, hcalled⟩ := shouldContinueResearch_tools h
    rw [h]
    refine ⟨⟨fun _ => hbelow, fun _ => hcalled, fun _ => hcounted,
      fun h => ?_⟩, ?_, ?_⟩
    · cases h
    · rw [hsteps]
      show 1 + (3 + 3 * (maxSteps - t.research.length)) ≤ _
      omega
    · rw [hcalls]
      show 0 + (maxSteps - t.research.length) ≤ _
      omega
  · rw [h]
    refine lowered_behind (fun h => by cases h) rfl ?_
    rw [hsteps]
    show 1 + 3 ≤ _
    omega

theorem lowered_tools {answers : List Message} (hloop : s.InLoop maxSteps)
    (hnext : s.next = .tools)
    (hanswers : answersLast s.messages answers = true) :
    Lowered maxSteps (.tools answers) s
      { s with messages := s.messages ++ answers
               next := .recordResearch } := by
  have hbelow := hloop.below (Or.inl hnext)
  obtain ⟨last, hlast, hcalled⟩ := hloop.called hnext
  obtain ⟨last', hlast', hlength, htools⟩ := answers_tools hanswers
  have hcounted := hloop.counted (Or.inr hnext)
  refine ⟨⟨fun _ => hbelow, fun h => ?_, fun h => ?_, fun _ => ?_⟩, ?_, ?_⟩
  · cases h
  · rcases h with h | h
    · cases h
    · cases h
  · -- the last message has calls, so there is an answer
    show s.recorded < (toolMessages (s.messages ++ answers)).length
    rw [toolMessages_append, List.length_append, htools, hlength]
    rw [hlast] at hlast'
    injection hlast' with hlast'
    rw [← hlast']
    have hpos := List.length_pos_iff.mpr hcalled
    omega
  · rw [AnalyzeState.stepsLeft, AnalyzeState.stepsLeft, hnext]
    show 1 + (2 + 3 * (maxSteps - s.research.length))
      ≤ 3 + 3 * (maxSteps - s.research.length)
    omega
  · rw [AnalyzeState.callsLeft, AnalyzeState.callsLeft, hnext]
    show 1 + (maxSteps - s.research.length - 1)
      ≤ maxSteps - s.research.length
    omega

theorem lowered_recordResearch (hloop : s.InLoop maxSteps)
    (hnext : s.next = .recordResearch)
    (h : s.recordResearch rt floatRepr = some t) :
    Lowered maxSteps .recordResearch s { t with next := .research } := by
  obtain ⟨steps, hsteps, rfl⟩ := recordResearch_some h
  have hbelow := hloop.below (Or.inr hnext)
  have hanswered := hloop.answered hnext
  have hlength := congrArg List.length hsteps
  rw [List.length_map, List.length_map, List.length_drop] at hlength
  refine ⟨⟨fun h => ?_, fun h => ?_, fun _ => Nat.le_refl _, fun h => ?_⟩,
    ?_, ?_⟩
  · rcases h with h | h
    · cases h
    · cases h
  · cases h
  · cases h
  · rw [AnalyzeState.stepsLeft, AnalyzeState.stepsLeft, hnext]
    show 1 + (4 + 3 * (maxSteps - (s.research ++ steps).length))
      ≤ 2 + 3 * (maxSteps - s.research.length)
    rw [List.length_append]
    omega
  · rw [AnalyzeState.callsLeft, AnalyzeState.callsLeft, hnext]
    show 0 + (maxSteps - (s.research ++ steps).length)
      ≤ maxSteps - s.research.length - 1
    rw [List.length_append]
    omega

theorem step_lowered (hloop : s.InLoop maxSteps)
    (h : AnalyzeState.step rt floatRepr maxSteps e s = some s') :
    Lowered maxSteps e s s' := by
  obtain ⟨hfits, t, hperform, rfl⟩ := step_some.mp h
  have hnext := (node_of_fits hfits).symm
  have hgiven := (Bool.and_eq_true_iff.mp hfits).2
  have hleft : s.stepsLeft maxSteps
      = e.node.stepsLeft maxSteps s.research.length := by
    rw [AnalyzeState.stepsLeft, hnext]
  cases e with
  | loadContext content =>
      injection hperform with hperform
      rw [← hperform]
      exact lowered_loadContext hnext
  | research reply =>
      injection hperform with hperform
      exact lowered_research hloop hnext (of_decide_eq_true hgiven)
        hperform.symm
  | tools answers =>
      injection hperform with hperform
      rw [← hperform]
      exact lowered_tools hloop hnext hgiven
  | recordResearch => exact lowered_recordResearch hloop hnext hperform
  | decide outcome =>
      obtain ⟨hbehind, hlow⟩ := routeAfterDecide_low t maxSteps
      refine lowered_behind (fun h => by cases h) hbehind ?_
      rw [hleft]
      exact hlow
  | writeReport =>
      refine lowered_behind (fun h => by cases h) rfl ?_
      rw [hleft]
      exact Nat.le_refl 2
  | unsupported =>
      refine lowered_behind (fun h => by cases h) rfl ?_
      rw [hleft]
      exact Nat.le_refl 2
  | prepareHitl =>
      refine lowered_behind (fun h => by cases h) rfl ?_
      rw [hleft]
      exact Nat.le_refl 2
  | finalize =>
      refine lowered_behind (fun h => by cases h) rfl ?_
      rw [hleft]
      exact Nat.le_refl 1

-- ============================================================ what is recorded

/-- The steps are those of the tool messages that are counted: of all of
them, but for the answers that `record_research` is about to record. -/
structure AnalyzeState.Exact (rt : Runtime) (floatRepr : String → String)
    (s : AnalyzeState) : Prop where
  fresh : s.next = .loadContext → toolMessages s.messages = []
  all : s.next = .research ∨ s.next = .tools ∨ s.next = .decide →
    s.recorded = (toolMessages s.messages).length
      ∧ (toolMessages s.messages).map (researchStepFromToolMessage rt
        floatRepr) = s.research.map some
  taken : s.next = .recordResearch →
    ((toolMessages s.messages).take s.recorded).map
      (researchStepFromToolMessage rt floatRepr) = s.research.map some

theorem exact_of_start (hnext : s.next = .loadContext)
    (hfresh : toolMessages s.messages = []) : s.Exact rt floatRepr where
  fresh _ := hfresh
  all h := by
    rw [hnext] at h
    rcases h with h | h | h
    · cases h
    · cases h
    · cases h
  taken h := by
    rw [hnext] at h
    cases h

/-- After the decision nothing more is recorded. -/
theorem exact_of_behind (h : s.next.behind = true)
    (hdecide : s.next ≠ .decide) : s.Exact rt floatRepr where
  fresh hnext := by
    rw [hnext] at h
    cases h
  all hnext := by
    rcases hnext with hnext | hnext | hnext
    · rw [hnext] at h
      cases h
    · rw [hnext] at h
      cases h
    · exact absurd hnext hdecide
  taken hnext := by
    rw [hnext] at h
    cases h

/-- All is recorded, on the way to any node but `record_research`. -/
theorem exact_of_all (hstart : s.next ≠ .loadContext)
    (hrecord : s.next ≠ .recordResearch)
    (hcount : s.recorded = (toolMessages s.messages).length)
    (hsteps : (toolMessages s.messages).map (researchStepFromToolMessage rt
      floatRepr) = s.research.map some) : s.Exact rt floatRepr where
  fresh h := absurd h hstart
  all _ := ⟨hcount, hsteps⟩
  taken h := absurd h hrecord

theorem step_exact (hexact : s.Exact rt floatRepr)
    (h : AnalyzeState.step rt floatRepr maxSteps e s = some s') :
    s'.Exact rt floatRepr := by
  obtain ⟨hfits, t, hperform, rfl⟩ := step_some.mp h
  have hnext := (node_of_fits hfits).symm
  have hgiven := (Bool.and_eq_true_iff.mp hfits).2
  cases e with
  | loadContext content =>
      injection hperform with hperform
      subst hperform
      rcases routeAfterLoad_cases (s := s.loadContext content) with h | h
      · exact exact_of_behind (congrArg Node.behind h) fun hdecide => by
          cases h.symm.trans hdecide
      · obtain ⟨hresearch, hrecorded, hmessages⟩ := loadContext_research h
        have hnone : toolMessages (s.loadContext content).messages = [] := by
          rw [hmessages]
          exact hexact.fresh hnext
        have hgoes : (s.loadContext content).successor maxSteps
            .loadContext = .research := h
        refine exact_of_all ?_ ?_ ?_ ?_
        · exact fun hload => by cases hgoes.symm.trans hload
        · exact fun hrecord => by cases hgoes.symm.trans hrecord
        · exact hrecorded.trans (congrArg List.length hnone).symm
        · show (toolMessages (s.loadContext content).messages).map _
            = (s.loadContext content).research.map some
          rw [hnone, hresearch]
          rfl
  | research reply =>
      injection hperform with hperform
      subst hperform
      have hsame := toolMessages_reply s.messages
        (of_decide_eq_true hgiven)
      obtain ⟨hcount, hsteps⟩ := hexact.all (Or.inl hnext)
      have hgoes := shouldContinueResearch_cases
        { s with messages := s.messages ++ [reply] } maxSteps
      refine exact_of_all ?_ ?_ ?_ ?_
      · intro hload
        rcases hgoes with h | h
        · cases h.symm.trans hload
        · cases h.symm.trans hload
      · intro hrecord
        rcases hgoes with h | h
        · cases h.symm.trans hrecord
        · cases h.symm.trans hrecord
      · exact hcount.trans (congrArg List.length hsame).symm
      · show (toolMessages (s.messages ++ [reply])).map _ = _
        rw [hsame]
        exact hsteps
  | tools answers =>
      injection hperform with hperform
      subst hperform
      obtain ⟨hcount, hsteps⟩ := hexact.all (Or.inr (Or.inl hnext))
      refine ⟨fun h => ?_, fun h => ?_, fun _ => ?_⟩
      · cases h
      · rcases h with h | h | h
        · cases h
        · cases h
        · cases h
      · show ((toolMessages (s.messages ++ answers)).take s.recorded).map _
          = _
        rw [toolMessages_append, List.take_append_of_le_length hcount.le,
          hcount, List.take_length]
        exact hsteps
  | recordResearch =>
      obtain ⟨steps, hsteps, rfl⟩ := recordResearch_some hperform
      have htaken := hexact.taken hnext
      refine exact_of_all (fun h => by cases h) (fun h => by cases h) rfl ?_
      show (toolMessages s.messages).map _ = (s.research ++ steps).map some
      rw [List.map_append, ← htaken, ← hsteps, ← List.map_append,
        List.take_append_drop]
  | decide outcome =>
      obtain ⟨hbehind, hlow⟩ := routeAfterDecide_low t maxSteps
      refine exact_of_behind hbehind fun hdecide => ?_
      rw [show t.routeAfterDecide = .decide from hdecide] at hlow
      exact Nat.not_succ_le_self 3 hlow
  | writeReport => exact exact_of_behind rfl fun h => by cases h
  | unsupported => exact exact_of_behind rfl fun h => by cases h
  | prepareHitl => exact exact_of_behind rfl fun h => by cases h
  | finalize => exact exact_of_behind rfl fun h => by cases h

end Steps

-- ====================================================================== runs

section Runs

variable {rt : Runtime} {floatRepr : String → String} {maxSteps : Nat}
  {s₀ s : AnalyzeState} {events : List AnalyzeEvent}

theorem inLoop_of_start (hnext : s.next = .loadContext) :
    s.InLoop maxSteps where
  below h := by
    rw [hnext] at h
    rcases h with h | h
    · cases h
    · cases h
  called h := by
    rw [hnext] at h
    cases h
  counted h := by
    rw [hnext] at h
    rcases h with h | h
    · cases h
    · cases h
  answered h := by
    rw [hnext] at h
    cases h

theorem sum_toolRuns : (events.map AnalyzeEvent.toolRuns).sum
    = events.countP fun e => e.node = .tools := by
  induction events with
  | nil => rfl
  | cons e rest ih =>
      rw [List.map_cons, List.sum_cons, ih, List.countP_cons, Nat.add_comm]
      congr 1
      unfold AnalyzeEvent.toolRuns
      by_cases h : e.node = .tools
      · rw [if_pos h, if_pos (decide_eq_true h)]
      · rw [if_neg h, if_neg (mt of_decide_eq_true h)]

/-- The calls of a message can be answered. -/
theorem exists_answers {messages : List Message} {last : Message}
    (hlast : messages.getLast? = some last) :
    ∃ answers, answersLast messages answers = true := by
  refine ⟨last.toolCalls.map fun call =>
    ⟨some "tool", .str "", call.name, call.id, []⟩, ?_⟩
  unfold answersLast
  rw [hlast]
  refine decide_eq_true ?_
  rw [List.map_map]
  rfl

/-- Until the end there is something the next node can be given. -/
theorem exists_fits (hloop : s.InLoop maxSteps) (hend : s.next ≠ .done) :
    ∃ e : AnalyzeEvent, e.fits s = true := by
  unfold AnalyzeEvent.fits
  cases hnext : s.next with
  | loadContext => exact ⟨.loadContext none, rfl⟩
  | research =>
      exact ⟨.research ⟨some "ai", .str "", .null, .null, []⟩, rfl⟩
  | tools =>
      obtain ⟨last, hlast, -⟩ := hloop.called hnext
      obtain ⟨answers, hanswers⟩ := exists_answers hlast
      exact ⟨.tools answers, hanswers⟩
  | recordResearch => exact ⟨.recordResearch, rfl⟩
  | decide => exact ⟨.decide (.error ""), rfl⟩
  | writeReport => exact ⟨.writeReport, rfl⟩
  | unsupported => exact ⟨.unsupported, rfl⟩
  | prepareHitl => exact ⟨.prepareHitl, rfl⟩
  | finalize => exact ⟨.finalize, rfl⟩
  | done => exact absurd hnext hend

/-- In every run of the graph the tool node runs at most `maxSteps`
times; the run keeps to the recursion limit and goes on to the end as
long as no node raises; and when it leaves the loop every tool message
is recorded, in order and once, if there was none before. -/
theorem research_loop_bounded (hstart : s₀.next = .loadContext)
    (hrun : Lts.run (AnalyzeState.step rt floatRepr maxSteps) s₀ events
      = some s) :
    events.countP (fun e => e.node = .tools) ≤ maxSteps
      ∧ events.length ≤ 8 + 3 * maxSteps
      ∧ (s.next ≠ .done →
        (∀ e : AnalyzeEvent, e.fits s = true →
          e.perform rt floatRepr s ≠ none) →
        ∃ e s', AnalyzeState.step rt floatRepr maxSteps e s = some s')
      ∧ ((∀ m ∈ s₀.messages, m.type ≠ some "tool") → s.next = .decide →
        (toolMessages s.messages).map (researchStepFromToolMessage rt
          floatRepr) = s.research.map some) := by
  have hloop₀ : s₀.InLoop maxSteps := inLoop_of_start hstart
  have hreach := Lts.reachable_of_run .init hrun
  have hloop : s.InLoop maxSteps := Lts.Reachable.invariant hloop₀
    (fun _ _ _ _ hloop _ hstep => (step_lowered hloop hstep).loop) hreach
  have hcalls := Lts.run_cost_le (AnalyzeState.callsLeft maxSteps)
    AnalyzeEvent.toolRuns (fun _ _ _ hloop hstep =>
      ⟨(step_lowered hloop hstep).loop, (step_lowered hloop hstep).calls⟩)
    hloop₀ hrun
  have hsteps := Lts.run_cost_le (AnalyzeState.stepsLeft maxSteps)
    (fun _ => 1) (fun _ _ _ hloop hstep =>
      ⟨(step_lowered hloop hstep).loop, (step_lowered hloop hstep).steps⟩)
    hloop₀ hrun
  refine ⟨?_, ?_, fun hend hraises => ?_, fun hfresh hexit => ?_⟩
  · rw [sum_toolRuns, AnalyzeState.callsLeft.eq_1 maxSteps s₀, hstart]
      at hcalls
    exact le_trans (Nat.le_add_right _ _) hcalls
  · rw [List.map_const', List.sum_replicate_nat, Nat.mul_one,
      AnalyzeState.stepsLeft.eq_1 maxSteps s₀, hstart] at hsteps
    have hbound : events.length + s.stepsLeft maxSteps ≤ 5 + 3 * maxSteps :=
      hsteps
    omega
  · obtain ⟨e, hfits⟩ := exists_fits hloop hend
    obtain ⟨t, ht⟩ := Option.ne_none_iff_exists'.mp (hraises e hfits)
    exact ⟨e, _, step_some.mpr ⟨hfits, t, ht, rfl⟩⟩
  · have hnone : toolMessages s₀.messages = [] :=
      List.filter_eq_nil_iff.mpr fun m hm htool =>
        hfresh m hm (of_decide_eq_true htool)
    have hexact : s.Exact rt floatRepr := Lts.Reachable.invariant
      (exact_of_start hstart hnone)
      (fun _ _ _ _ hexact _ hstep => step_exact hexact hstep) hreach
    exact (hexact.all (Or.inr (Or.inr hexit))).2

end Runs

-- =============================================================== scenarios

/-- Before the stage has run, in a thread with one message. -/
def freshAnalyze : AnalyzeState :=
  ⟨.loadContext, [humanMessage "hello"], [], [], [], 0, none, false, false,
    [], [], none⟩

/-- A reply that lists the artifacts. -/
def listingReply : Message :=
  ⟨some "ai", .str "", .null, .null, [⟨.str "1", .str "list_artifacts"⟩]⟩

/-- Its answer. -/
def listingAnswer : Message :=
  ⟨some "tool", .str "[1]", .str "list_artifacts", .str "1", []⟩

/-- Two such replies, of which one is within the limit. -/
def listingRun : List AnalyzeEvent :=
  [.loadContext (some (.value (.obj [("subject", .str "Re")]))),
    .research listingReply, .tools [listingAnswer], .recordResearch,
    .research listingReply]

/-- The answer is recorded, and the second call is not run. -/
theorem listing_recorded :
    ∃ s, Lts.run (AnalyzeState.step Runtime.sample id 1) freshAnalyze
        listingRun = some s
      ∧ s.next = .decide
      ∧ listingRun.countP (fun e => e.node = .tools) ≤ 1
      ∧ (toolMessages s.messages).map (researchStepFromToolMessage
        Runtime.sample id) = s.research.map some := by
  have hnext : (Lts.run (AnalyzeState.step Runtime.sample id 1) freshAnalyze
      listingRun).map (·.next) = some .decide := by decide +kernel
  obtain ⟨s, hrun, hs⟩ := Option.map_eq_some_iff.mp hnext
  obtain ⟨hcalls, -, -, hexact⟩ := research_loop_bounded rfl hrun
  exact ⟨s, hrun, hs, hcalls, hexact (by decide) hs⟩

end LegalBot.Stages
