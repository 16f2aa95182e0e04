/-
What a stage hands over, next to what its tools did.

# The history

A message is from outside the stage tools, or the answer to a call
(`Origin`). `Recorded` is what is so of every call of a history: its
answer is there, what it wrote is named in it or it is a call that
reports plainly, and what it names stands, is foreign or was not found.

# The two laws

The handoff is complete exactly when the keys of the tools that report
plainly are named elsewhere (`handoff_complete_iff`). It is sound exactly
when whatever is named in foreign values, in answers about what was not
found and in messages from outside stands (`handoff_sound_iff`).
-/
import LegalBot.Proofs.StageCalls
import LegalBot.Proofs.ToolConfinement

namespace LegalBot.Stages

open Raising (run)
open Tools

-- =================================================================== messages

section Messages

variable {st : Stage} {output : ToolOutput} {name callId text k : String}

/-- The answer to a call says what the tool returned. -/
theorem named_answer (h : OutputIsPython st.floatRepr output) :
    Named (messagePayload st.floatRepr
        (toolMessage name callId (outputContent output))) k
      ↔ NamedIn st.floatRepr output k := by
  unfold outputContent
  split
  · exact Iff.rfl
  · rename_i v _
    have hloads : Json.loads st.floatRepr (Json.dumps v) = some v :=
      Json.loads_dumps h
    unfold messagePayload toolMessage NamedIn
    dsimp only
    rw [hloads]
    rfl
  · exact Iff.rfl

theorem not_named_error :
    ¬Named (messagePayload st.floatRepr
      (toolMessage name callId (errorContent text))) k := by
  unfold messagePayload toolMessage errorContent
  dsimp only
  rw [Json.loads_error]
  exact named_str

/-- What is foreign is named. -/
theorem Foreign.named (h : Foreign output k) :
    NamedIn st.floatRepr output k := by
  obtain ⟨ms, name, v, rfl, hname, hmem, hv⟩ := h
  have hplain : PlainName name := by
    unfold foreignMembers at hname
    simp only [List.mem_cons, List.not_mem_nil, or_false] at hname
    rcases hname with rfl | rfl | rfl | rfl <;> decide
  exact named_obj.mpr ⟨_, hmem, (namedMember_plain hplain).mpr hv⟩

/-- What was not found is named. -/
theorem Unfound.named {call : StageCall} (h : Unfound call output k) :
    NamedIn st.floatRepr output k := by
  cases h with
  | read key version =>
      change Named _ k
      simp (disch := decide)
  | skipped attachmentId k _ hmem =>
      exact named_obj.mpr ⟨_, hmem, (namedMember_key (by decide)).mpr rfl⟩

end Messages

-- ==================================================================== history

/-- Where a message of the history is from. -/
inductive Origin (s : StageState) (m : Message) : Prop
  | other : m ∈ s.others → Origin s m
  | answer (entry : LogEntry) (callId : String) : entry ∈ s.log →
      m = toolMessage entry.call.name callId (outputContent entry.output) →
      Origin s m
  | failed (name callId text : String) :
      m = toolMessage name callId (errorContent text) → Origin s m

/-- What is so of a call that returned. -/
structure Recorded (st : Stage) (s : StageState) (entry : LogEntry) :
    Prop where
  python : OutputIsPython st.floatRepr entry.output
  answered : ∃ callId, toolMessage entry.call.name callId
    (outputContent entry.output) ∈ s.messages
  written : entry.call.reportsPlainly = false →
    ∀ k ∈ entry.written, NamedIn st.floatRepr entry.output k
  plain : entry.call.reportsPlainly = true →
    ∀ k, NamedIn st.floatRepr entry.output k → Foreign entry.output k
  named : ∀ k, NamedIn st.floatRepr entry.output k →
    Stands s.tools.t.db st.sessionId k ∨ Foreign entry.output k
      ∨ Unfound entry.call entry.output k

structure History (st : Stage) (s : StageState) : Prop where
  recorded : ∀ entry ∈ s.log, Recorded st s entry
  others : ∀ m ∈ s.others, m ∈ s.messages
  origins : ∀ m ∈ s.messages, Origin s m

section Histories

variable {st : Stage} {s s' : StageState} {entry : LogEntry} {m : Message}

/-- An earlier call is still recorded. -/
theorem Recorded.later (h : Recorded st s entry)
    (hmessages : ∀ m ∈ s.messages, m ∈ s'.messages)
    (hstands : ∀ k, Stands s.tools.t.db st.sessionId k →
      Stands s'.tools.t.db st.sessionId k) : Recorded st s' entry where
  python := h.python
  answered := by
    obtain ⟨callId, hmem⟩ := h.answered
    exact ⟨callId, hmessages _ hmem⟩
  written := h.written
  plain := h.plain
  named k hk := (h.named k hk).imp_left (hstands k)

theorem Origin.later (h : Origin s m)
    (hothers : ∀ m ∈ s.others, m ∈ s'.others)
    (hlog : ∀ entry ∈ s.log, entry ∈ s'.log) : Origin s' m := by
  cases h with
  | other hmem => exact .other (hothers m hmem)
  | answer entry callId hmem heq =>
      exact .answer entry callId (hlog entry hmem) heq
  | failed name callId text heq => exact .failed name callId text heq

theorem history_start {tools : ToolState} {messages : List Message} :
    History st (.start tools messages) where
  recorded entry hmem := by cases hmem
  others _ hm := hm
  origins _ hm := .other hm

/-- A message from outside. -/
theorem History.message (h : History st s) :
    History st { s with messages := s.messages ++ [m]
                        others := s.others ++ [m] } where
  recorded entry hmem := (h.recorded entry hmem).later
    (fun _ hm => List.mem_append_left _ hm) fun _ hk => hk
  others m' hm := by
    rcases List.mem_append.mp hm with hm | hm
    · exact List.mem_append_left _ (h.others m' hm)
    · exact List.mem_append_right _ hm
  origins m' hm := by
    rcases List.mem_append.mp hm with hm | hm
    · exact (h.origins m' hm).later
        (fun _ hm => List.mem_append_left _ hm) fun _ he => he
    · exact .other (List.mem_append_right _ hm)

/-- A call that returned. -/
theorem History.call (h : History st s) {call : StageCall}
    {output : ToolOutput} {tools : ToolState} {callId : String}
    (hspec : CallSpec st call s.tools output tools)
    (hpython : OutputIsPython st.floatRepr output) :
    History st { s with
      tools := tools
      messages := s.messages
        ++ [toolMessage call.name callId (outputContent output)]
      log := s.log ++ [⟨call, output, writtenBetween s.tools tools⟩] } := by
  obtain ⟨keys, hwrote, hnamed⟩ := hspec.wrote
  refine ⟨fun entry hmem => ?_, fun m hm => ?_, fun m hm => ?_⟩
  · rcases List.mem_append.mp hmem with hmem | hmem
    · exact (h.recorded entry hmem).later
        (fun _ hm => List.mem_append_left _ hm)
        fun _ hk => hwrote.stands hk
    · rw [List.mem_singleton.mp hmem]
      refine ⟨hpython, ⟨callId, ?_⟩, fun hplain => ?_, hspec.plain,
        hspec.named⟩
      · exact List.mem_append_right _ (List.mem_singleton_self _)
      · show ∀ k ∈ writtenBetween s.tools tools, _
        rw [hwrote.written]
        exact hnamed hplain
  · exact List.mem_append_left _ (h.others m hm)
  · rcases List.mem_append.mp hm with hm | hm
    · exact (h.origins m hm).later (fun _ hm => hm)
        fun _ he => List.mem_append_left _ he
    · exact .answer _ callId
        (List.mem_append_right _ (List.mem_singleton_self _))
        (List.mem_singleton.mp hm)

/-- A call that raised. -/
theorem History.raised (h : History st s) {name callId text : String}
    {blobs : Blobs} :
    History st { s with
      tools := { s.tools with blobs := blobs }
      messages := s.messages
        ++ [toolMessage name callId (errorContent text)] } where
  recorded entry hmem := (h.recorded entry hmem).later
    (fun _ hm => List.mem_append_left _ hm) fun _ hk => hk
  others m hm := List.mem_append_left _ (h.others m hm)
  origins m hm := by
    rcases List.mem_append.mp hm with hm | hm
    · exact (h.origins m hm).later (fun _ hm => hm) fun _ he => he
    · exact .failed name callId text (List.mem_singleton.mp hm)

theorem History.step {e : StageEvent} (h : History st s)
    (hstep : StageState.step st e s = some s') : History st s' := by
  cases e with
  | message m =>
      injection hstep with hstep
      rw [← hstep]
      exact h.message
  | call firstId secondId callId call =>
      unfold StageState.step at hstep
      dsimp only at hstep
      split at hstep
      · rename_i output tools hrun
        split at hstep
        · rename_i hpython
          injection hstep with hstep
          rw [← hstep]
          have hspec := (perform_ends (s := s.tools) call rfl).ok
            (congrArg Prod.fst hrun)
          rw [hrun] at hspec
          exact h.call hspec hpython
        · cases hstep
      · cases hstep
  | raised firstId secondId callId call text =>
      unfold StageState.step at hstep
      dsimp only at hstep
      split at hstep
      · cases hstep
      · injection hstep with hstep
        rw [← hstep]
        exact h.raised

/-- It is so all along a stage. -/
theorem StageReaches.history {tools : ToolState} {messages : List Message}
    (h : StageReaches st (.start tools messages) s) : History st s :=
  Lts.Reachable.invariant history_start
    (fun _ _ _ _ hhistory _ hstep => hhistory.step hstep) h

end Histories

-- ================================================================== complete

/-- A key is named by something else than a tool that reports plainly. -/
def NamedElsewhere (st : Stage) (s : StageState) (k : String) : Prop :=
  (∃ entry ∈ s.log, entry.call.reportsPlainly = false
      ∧ NamedIn st.floatRepr entry.output k)
    ∨ (∃ entry ∈ s.log, Foreign entry.output k)
    ∨ ∃ m ∈ s.others, m.type = some "tool"
      ∧ Named (messagePayload st.floatRepr m) k

/-- What was written is reported; the primary key is the first candidate
that is, so there is one when a candidate was written. -/
def HandoffComplete (st : Stage) (s : StageState) (stage : String)
    (candidates : Option (List String)) (next : Option String) : Prop :=
  let result := s.result st stage candidates next
  (∀ entry ∈ s.log, ∀ k ∈ entry.written, k ∈ result.artifactKeys)
    ∧ ∀ names, candidates = some names →
      result.primaryArtifactKey = names.find? (· ∈ result.artifactKeys)
      ∧ ((∃ k ∈ names, ∃ entry ∈ s.log, k ∈ entry.written) →
        result.primaryArtifactKey ≠ none)

section Laws

variable {st : Stage} {s : StageState} {tools : ToolState}
  {messages : List Message} {stage k : String}
  {candidates : Option (List String)} {next : Option String}

/-- The keys of the handoff, by where they are named. -/
theorem History.mem_artifactKeys (h : History st s) :
    k ∈ (s.result st stage candidates next).artifactKeys
      ↔ (∃ entry ∈ s.log, NamedIn st.floatRepr entry.output k)
        ∨ ∃ m ∈ s.others, m.type = some "tool"
          ∧ Named (messagePayload st.floatRepr m) k := by
  refine Stages.mem_artifactKeys.trans ⟨?_, ?_⟩
  · rintro ⟨m, hm, htool, hnamed⟩
    cases h.origins m hm with
    | other hother => exact Or.inr ⟨m, hother, htool, hnamed⟩
    | answer entry callId hmem heq =>
        rw [heq, named_answer (h.recorded entry hmem).python] at hnamed
        exact Or.inl ⟨entry, hmem, hnamed⟩
    | failed name callId text heq =>
        rw [heq] at hnamed
        exact absurd hnamed not_named_error
  · rintro (⟨entry, hmem, hnamed⟩ | ⟨m, hm, hnamed⟩)
    · obtain ⟨callId, hanswer⟩ := (h.recorded entry hmem).answered
      exact ⟨_, hanswer, rfl,
        (named_answer (h.recorded entry hmem).python).mpr hnamed⟩
    · exact ⟨m, h.others m hm, hnamed⟩

theorem History.elsewhere (h : History st s) :
    k ∈ (s.result st stage candidates next).artifactKeys
      ↔ NamedElsewhere st s k := by
  rw [h.mem_artifactKeys]
  unfold NamedElsewhere
  rw [← or_assoc]
  refine or_congr_left ⟨?_, ?_⟩
  · rintro ⟨entry, hmem, hnamed⟩
    cases hplain : entry.call.reportsPlainly with
    | false => exact Or.inl ⟨entry, hmem, hplain, hnamed⟩
    | true =>
        exact Or.inr ⟨entry, hmem,
          (h.recorded entry hmem).plain hplain k hnamed⟩
  · rintro (⟨entry, hmem, -, hnamed⟩ | ⟨entry, hmem, hforeign⟩)
    · exact ⟨entry, hmem, hnamed⟩
    · exact ⟨entry, hmem, hforeign.named⟩

/-- A candidate that is among the keys is found. -/
theorem primaryArtifactKey_ne_none {names keys : List String}
    (hname : k ∈ names) (hkey : k ∈ keys) :
    primaryArtifactKey (some names) keys ≠ none := by
  intro hnone
  have hmissed := List.find?_eq_none.mp hnone k hname
  exact hmissed (decide_eq_true hkey)

/-- The handoff of a stage is complete exactly when every key that
`analyze_image`, `write_draft` or `fill_contract_template` wrote is named
elsewhere. -/
theorem handoff_complete_iff
    (h : StageReaches st (.start tools messages) s) :
    HandoffComplete st s stage candidates next
      ↔ ∀ entry ∈ s.log, entry.call.reportsPlainly = true →
        ∀ k ∈ entry.written, NamedElsewhere st s k := by
  have hhistory := h.history
  constructor
  · intro hcomplete entry hmem _ k hk
    exact hhistory.elsewhere.mp (hcomplete.1 entry hmem k hk)
  · intro helsewhere
    have hkeys : ∀ entry ∈ s.log, ∀ k ∈ entry.written,
        k ∈ (s.result st stage candidates next).artifactKeys := by
      intro entry hmem k hk
      refine hhistory.elsewhere.mpr ?_
      cases hplain : entry.call.reportsPlainly with
      | false =>
          exact Or.inl ⟨entry, hmem, hplain,
            (hhistory.recorded entry hmem).written hplain k hk⟩
      | true => exact helsewhere entry hmem hplain k hk
    refine ⟨hkeys, fun names hnames => ⟨?_, ?_⟩⟩
    · rw [hnames]
      rfl
    · rintro ⟨k, hname, entry, hmem, hk⟩
      rw [hnames] at hkeys ⊢
      exact primaryArtifactKey_ne_none hname (hkeys entry hmem k hk)

-- ===================================================================== sound

/-- Every key of the handoff is that of an artifact. -/
def HandoffSound (st : Stage) (s : StageState) (stage : String)
    (candidates : Option (List String)) (next : Option String) : Prop :=
  let result := s.result st stage candidates next
  (∀ k ∈ result.artifactKeys, Stands s.tools.t.db st.sessionId k)
    ∧ ∀ k, result.primaryArtifactKey = some k →
      Stands s.tools.t.db st.sessionId k

/-- What is named where no tool looked stands nonetheless. -/
structure MentionsStand (st : Stage) (s : StageState) : Prop where
  foreign : ∀ entry ∈ s.log, ∀ k, Foreign entry.output k →
    Stands s.tools.t.db st.sessionId k
  unfound : ∀ entry ∈ s.log, ∀ k, Unfound entry.call entry.output k →
    Stands s.tools.t.db st.sessionId k
  others : ∀ m ∈ s.others, m.type = some "tool" →
    ∀ k, Named (messagePayload st.floatRepr m) k →
      Stands s.tools.t.db st.sessionId k

/-- The primary key is one of the keys. -/
theorem mem_of_primary
    (h : (s.result st stage candidates next).primaryArtifactKey = some k) :
    k ∈ (s.result st stage candidates next).artifactKeys := by
  obtain ⟨names, -, hfind⟩ := Option.bind_eq_some_iff.mp h
  have hk := List.find?_some hfind
  exact of_decide_eq_true hk

/-- The handoff of a stage is sound exactly when every key that is named
in the values its tools pass on, that a read did not find, that a skipped
extraction did not look for, or that is named in a message from outside,
is that of an artifact. -/
theorem handoff_sound_iff
    (h : StageReaches st (.start tools messages) s) :
    HandoffSound st s stage candidates next ↔ MentionsStand st s := by
  have hhistory := h.history
  constructor
  · intro hsound
    refine ⟨fun entry hmem k hk => ?_, fun entry hmem k hk => ?_,
      fun m hm htool k hk => ?_⟩
    · exact hsound.1 k (hhistory.mem_artifactKeys.mpr
        (Or.inl ⟨entry, hmem, hk.named⟩))
    · exact hsound.1 k (hhistory.mem_artifactKeys.mpr
        (Or.inl ⟨entry, hmem, hk.named⟩))
    · exact hsound.1 k (hhistory.mem_artifactKeys.mpr
        (Or.inr ⟨m, hm, htool, hk⟩))
  · intro hmentions
    have hkeys : ∀ k ∈ (s.result st stage candidates next).artifactKeys,
        Stands s.tools.t.db st.sessionId k := by
      intro k hk
      rcases hhistory.mem_artifactKeys.mp hk with
        ⟨entry, hmem, hnamed⟩ | ⟨m, hm, htool, hnamed⟩
      · rcases (hhistory.recorded entry hmem).named k hnamed with
          hstands | hforeign | hunfound
        · exact hstands
        · exact hmentions.foreign entry hmem k hforeign
        · exact hmentions.unfound entry hmem k hunfound
      · exact hmentions.others m hm htool k hnamed
    exact ⟨hkeys, fun k hk => hkeys k (mem_of_primary hk)⟩

end Laws

-- =============================================================== scenarios

/-- A stage in the session of Alice. -/
def aliceStage : Stage := ⟨ToolEnv.sample, id, 10, none, 4096⟩

def aliceStart : StageState := .start ⟨alone, sampleBlobs, []⟩ []

/-- A state that a run of the stage ends in, by what is computed of it. -/
theorem exists_reached {α : Type} {f : StageState → α} {a : α}
    {es : List StageEvent}
    (h : (Lts.run (StageState.step aliceStage) aliceStart es).map f
      = some a) : ∃ s, StageReaches aliceStage aliceStart s ∧ f s = a := by
  obtain ⟨s, hrun, hs⟩ := Option.map_eq_some_iff.mp h
  exact ⟨s, Lts.reachable_of_run .init hrun, hs⟩

/-- The candidates of the act stage. -/
def actCandidates : Option (List String) :=
  some ["act/outcome", "drafts/reply"]

/-- An outcome that `write_artifact` wrote is reported. -/
theorem outcome_reported :
    ∃ s, StageReaches aliceStage aliceStart s
      ∧ s.log.map (·.written) = [["act/outcome"]]
      ∧ HandoffComplete aliceStage s "act" actCandidates
        (some "reflection") := by
  obtain ⟨s, hreach, hs⟩ := exists_reached
    (show (Lts.run (StageState.step aliceStage) aliceStart
        [.call 80 81 "1" (.writeArtifact ⟨"act/outcome", .obj [],
          "outcome", "application/json", none, none⟩)]).map
        (fun s => s.log.map fun entry =>
          (entry.written, entry.call.reportsPlainly))
      = some [(["act/outcome"], false)] by decide +kernel)
  have hlog := congrArg (List.map Prod.fst) hs
  rw [List.map_map] at hlog
  refine ⟨s, hreach, hlog, (handoff_complete_iff hreach).mpr ?_⟩
  intro entry hmem hplain
  have hentry := List.mem_map_of_mem (f := fun entry : LogEntry =>
    (entry.written, entry.call.reportsPlainly)) hmem
  rw [hs, hplain] at hentry
  exact absurd hentry (by simp)

/-- A reply that `write_draft` wrote is not: the stage reports that there
is no primary artifact. -/
theorem draft_not_reported :
    ∃ s, StageReaches aliceStage aliceStart s
      ∧ s.log.map (·.written) = [["drafts/reply"]]
      ∧ (s.result aliceStage "act" actCandidates
        (some "reflection")).primaryArtifactKey = none
      ∧ ¬HandoffComplete aliceStage s "act" actCandidates
        (some "reflection") := by
  obtain ⟨s, hreach, hs⟩ := exists_reached
    (show (Lts.run (StageState.step aliceStage) aliceStart
        [.call 80 81 "1" (.writeDraft ⟨"Re", "Dear", [], none⟩)]).map
        (fun s => (s.log.map (·.written), (s.result aliceStage "act"
          actCandidates (some "reflection")).primaryArtifactKey))
      = some ([["drafts/reply"]], none) by decide +kernel)
  obtain ⟨hlog, hprimary⟩ := Prod.mk.inj hs
  refine ⟨s, hreach, hlog, hprimary, fun hcomplete => ?_⟩
  have hwritten : ["drafts/reply"] ∈ s.log.map (·.written) := by
    rw [hlog]
    exact List.mem_singleton_self _
  obtain ⟨entry, hmem, hkeys⟩ := List.mem_map.mp hwritten
  refine (hcomplete.2 _ rfl).2 ⟨"drafts/reply", by decide, entry, hmem, ?_⟩
    hprimary
  rw [hkeys]
  exact List.mem_singleton_self _

/-- What `list_artifacts` names stands. -/
theorem listed_file_stands :
    ∃ s, StageReaches aliceStage aliceStart s
      ∧ MentionsStand aliceStage s
      ∧ (s.result aliceStage "act" actCandidates none).artifactKeys
        = ["extracted_data/own.docx"] := by
  obtain ⟨s, hreach, hs⟩ := exists_reached
    (show (Lts.run (StageState.step aliceStage) aliceStart
        [.call 80 81 "1" (.listArtifacts none)]).map
        (fun s => ((s.result aliceStage "act" actCandidates
          none).artifactKeys, s.tools.t.db.artifacts.rows.map fun r =>
            (r.key, r.sessionId)))
      = some (["extracted_data/own.docx"], [("extracted_data/own.docx", 10)])
      by decide +kernel)
  obtain ⟨hkeys, hrows⟩ := Prod.mk.inj hs
  have hstands : ∀ k ∈ (s.result aliceStage "act" actCandidates
      none).artifactKeys, Stands s.tools.t.db aliceStage.sessionId k := by
    intro k hk
    have hrow : (k, (10 : Uuid)) ∈ s.tools.t.db.artifacts.rows.map fun r =>
        (r.key, r.sessionId) := by
      rw [hkeys] at hk
      rw [hrows, List.mem_singleton.mp hk]
      exact List.mem_singleton_self _
    obtain ⟨r, hr, hboth⟩ := List.mem_map.mp hrow
    obtain ⟨hkey, hsession⟩ := Prod.mk.inj hboth
    exact ⟨r, hr, hkey, Or.inl hsession⟩
  have hsound : HandoffSound aliceStage s "act" actCandidates none :=
    ⟨hstands, fun k hk => hstands k (mem_of_primary hk)⟩
  exact ⟨s, hreach, (handoff_sound_iff hreach).mp hsound, hkeys⟩

/-- A draft that was looked for and not found is handed over as the
primary artifact. -/
theorem missing_draft_reported :
    ∃ s, StageReaches aliceStage aliceStart s
      ∧ s.tools.t.db.artifacts.rows.map (·.key)
        = ["extracted_data/own.docx"]
      ∧ (s.result aliceStage "draft_contract" (some ["contracts/draft"])
        (some "validate_contract")).primaryArtifactKey
        = some "contracts/draft"
      ∧ ¬HandoffSound aliceStage s "draft_contract"
        (some ["contracts/draft"]) (some "validate_contract") := by
  obtain ⟨s, hreach, hs⟩ := exists_reached
    (show (Lts.run (StageState.step aliceStage) aliceStart
        [.call 80 81 "1" (.readArtifact "contracts/draft" none)]).map
        (fun s => (s.tools.t.db.artifacts.rows.map (·.key),
          (s.result aliceStage "draft_contract" (some ["contracts/draft"])
            (some "validate_contract")).primaryArtifactKey))
      = some (["extracted_data/own.docx"], some "contracts/draft")
      by decide +kernel)
  obtain ⟨hrows, hprimary⟩ := Prod.mk.inj hs
  refine ⟨s, hreach, hrows, hprimary, fun hsound => ?_⟩
  obtain ⟨r, hr, hkey, -⟩ := hsound.2 _ hprimary
  have hmem := List.mem_map_of_mem (f := Artifact.key) hr
  rw [hrows, hkey] at hmem
  exact absurd hmem (by decide)

end LegalBot.Stages
